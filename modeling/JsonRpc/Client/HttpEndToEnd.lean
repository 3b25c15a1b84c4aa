import JsonRpc.Client.EndToEnd
import JsonRpc.Client.HttpAnswers
import JsonRpc.Core.Serving
import JsonRpc.Http.Answer

/-!
# Agreement of the HTTP client with the HTTP server

A call over HTTP is written as a text, posted, read by the server, dispatched by its
JSON-RPC handler, answered by a method some time later, written as a text again and read by
the worker of the client. If what the worker reads is what the server answered, then every
value and every JSON-RPC error that a caller receives is the one of dispatching its own
call. The client does not compare ids for that: each response belongs to its own request.
-/

namespace JsonRpc.HttpClient

open Http Text ServerUtils

variable {G : Globset} {P M : Type}

/-! ## The network -/

/-- A posted request arrives. The HTTP library may add headers and cut the body. -/
structure Arrives (posted received : Http.Request) : Prop where
  method_eq : received.method = posted.method
  path_eq : received.path = posted.path
  headers : ∀ name value, posted.get name = some value → received.get name = some value
  body_eq : assemble received.body = assemble posted.body

/-- What the server did with a request. -/
structure Visit (P M : Type) where
  /-- The request as it arrived. -/
  request : Http.Request
  /-- The polls of its future. -/
  ticks : List Tick
  /-- What methods returned meanwhile. -/
  returned : List (Returned P M)

/-- The server answered a posted request with some bytes and a success. -/
structure Served (S : Http.Libraries) (server : ServerHandler G P M) (posted : Http.Request)
    (visit : Visit P M) (bytes : Bytes) : Prop where
  arrives : Arrives posted visit.request
  /-- The middleware lets the request pass. -/
  proceeds : ∃ cont, server.middleware visit.request = .proceed cont visit.request
  /-- What the JSON-RPC handler answers is a response to what it was given. -/
  responds : ∀ tick ∈ visit.ticks, ∀ answer, tick.response = .ready answer →
    ∀ content metadata,
      .request content metadata ∈ (Life.after S server visit.request visit.ticks).invoked →
      Responds S.json server.jsonrpcHandler.handler content metadata visit.returned answer
  answers : ∃ response, (Life.after S server visit.request visit.ticks).answer =
    some (.ok response) ∧ response.status < 300 ∧ intoBytes response.body = bytes

/-- A posted text arrives as a JSON message. -/
theorem Arrives.posts {S : Http.Libraries}
    (htoStr : S.toStr (intoBytes "application/json") = some "application/json".toList)
    {path : Text} {text : String} {received : Http.Request}
    (h : Arrives (post path text) received) : received.Posts S text where
  post := h.method_eq
  hasJson := by
    have hget : received.get "content-type".toList = some (intoBytes "application/json") :=
      h.headers _ _ rfl
    rw [Http.hasJson, isJson, hget, Option.bind_some, htoStr]
    decide
  body := by
    rw [h.body_eq]
    simp [post, assemble]

/-! ## The JSON library -/

/-- What the client and the server take over from the JSON library: both use the same one, a
tree that is written is not read as another one, a line break at the end does not matter, and
there is something to be read. -/
structure Agreeing (C : Libraries) (S : Http.Libraries) : Prop where
  json_eq : S.json = C.json
  faithful : C.json.IsFaithful
  newline : ∀ text, C.json.fromStr (text ++ "\n") = C.json.fromStr text
  empty : C.json.fromStr "" = none
  toStr : S.toStr (intoBytes "application/json") = some "application/json".toList

section Results

variable {C : Libraries} {S : Http.Libraries} {server : ServerHandler G P M}

/-- What a client reads from the text of a response. -/
theorem Agreeing.result_writeResponse (hlib : Agreeing C S) (output : Output) :
    C.result (.ok (intoBytes (writeResponse C.json (.single output) ++ "\n"))) =
        .error (.rpc .parseError) ∨
      C.result (.ok (intoBytes (writeResponse C.json (.single output) ++ "\n"))) =
        ((output.toResult.mapError Error.norm).mapError RpcError.jsonRpcError).mapError .rpc := by
  have hparse : parseResponse C.json (writeResponse C.json (.single output) ++ "\n") =
      parseResponse C.json (writeResponse C.json (.single output)) := by
    rw [parseResponse, parseResponse, hlib.newline]
  simp only [Libraries.result, C.fromUtf8Lossy_intoBytes, hparse]
  cases hmessage : parseResponse C.json (writeResponse C.json (.single output)) with
  | error e =>
    left
    unfold parseResponse at hmessage
    split at hmessage
    · cases hmessage
    · cases hmessage
      rfl
  | ok message =>
    right
    exact congrArg (Except.mapError CallError.rpc)
      (LocalWorld.parseResponse_writeResponse hlib.faithful hmessage).2

/-- What a client reads from the answer of the server to a call is the result of dispatching
the call, or it cannot be read. -/
theorem Served.result (hlib : Agreeing C S)
    (hversion : server.jsonrpcHandler.handler.compatibility.isVersionValid (some .v2))
    {call : MethodCall} {path : Text} {visit : Visit P M} {bytes : Bytes}
    (hserved : Served S server (post path (call.text C.json)) visit bytes)
    (hread : C.json.fromStr (call.text C.json) =
      some (JsonRpc.Request.single (.methodCall call)).serialize)
    (hjsonrpc : call.jsonrpc = some .v2) (hid : call.id ≠ .null) :
    C.result (.ok bytes) = .error (.rpc .parseError) ∨
      ∃ result, C.result (.ok bytes) = result.mapError .rpc ∧
        LocalWorld.Agrees server.jsonrpcHandler.handler
          (server.jsonrpcHandler.extractor visit.request) visit.returned call result := by
  obtain ⟨cont, hproceed⟩ := hserved.proceeds
  obtain ⟨response, hanswer, hsuccess, rfl⟩ := hserved.answers
  have hcontent : call.text C.json ≠ "" := by
    intro htext
    rw [htext, hlib.empty] at hread
    cases hread
  obtain ⟨hinvoked, answer, ⟨tick, htick, hready⟩, hbody⟩ := Life.posted_answer S server hproceed
    (hserved.arrives.posts hlib.toStr) hcontent visit.ticks hanswer hsuccess
  have hresponds := hserved.responds tick htick answer hready (call.text C.json)
    (server.jsonrpcHandler.extractor visit.request) (by rw [hinvoked]; simp)
  rw [hlib.json_eq] at hresponds
  obtain ⟨output, rfl, hdispatched⟩ :=
    hresponds.dispatched hlib.faithful hversion hread hjsonrpc hid
  have htext : response.body = writeResponse C.json (.single output) ++ "\n" := by
    rw [hbody, RpcHandler.waitingResponse, hlib.json_eq]
    rfl
  rw [htext]
  exact (hlib.result_writeResponse output).imp_right fun hresult =>
    ⟨_, hresult, .of_dispatched hdispatched⟩

end Results

namespace Worker

/-- **Agreement of the HTTP client with the server.** Let the bytes that the worker reads be
those that the server answered to the posted requests. Then, in every run, the result that a
call receives is an error of the HTTP exchange of this call, a response that cannot be read, or
the result of dispatching the method and the parameters of this call. -/
theorem delivered_agrees_with_server {C : Libraries} {S : Http.Libraries}
    (hlib : Agreeing C S) (server : ServerHandler G P M)
    (hcompatibility : server.jsonrpcHandler.handler.compatibility ≠ .v1) (path : Text)
    (labels : List Label) (visits : ℕ → Visit P M)
    (hread : ∀ exchange ∈ (after C labels).buffer.source.requested,
      C.json.fromStr (exchange.request.toString C.json) = some exchange.request.serialize)
    (hserved : ∀ exchange bytes, (exchange, .ok bytes) ∈ (after C labels).handled →
      Served S server (post path (exchange.request.toString C.json)) (visits exchange.number)
        bytes) :
    ∀ sender result, (sender, result) ∈ (after C labels).delivered →
      ∃ exchange method params id, .call method params sender ∈ (after C labels).sent ∧
        exchange.request = .single (.methodCall ⟨some .v2, method, params, .num id⟩) ∧
        ((∃ e, (exchange, .error e) ∈ (after C labels).handled ∧ result = .error e) ∨
          result = .error (.rpc .parseError) ∨
          ∃ r, result = r.mapError .rpc ∧
            LocalWorld.Agrees server.jsonrpcHandler.handler
              (server.jsonrpcHandler.extractor (visits exchange.number).request)
              (visits exchange.number).returned ⟨some .v2, method, params, .num id⟩ r) := by
  intro sender result hmem
  have hinv := Inv.after C labels
  have hversion := isVersionValid_of_ne_v1 hcompatibility
  obtain ⟨exchange, fetched, method, params, id, hcall, hrequest, -, hhandled, rfl⟩ :=
    hinv.exists_of_delivered hmem
  refine ⟨exchange, method, params, id, hcall, hrequest, ?_⟩
  cases fetched with
  | error e => exact .inl ⟨e, hhandled, rfl⟩
  | ok bytes =>
    right
    have hvisit := hserved exchange bytes hhandled
    have htext := hread exchange (hinv.mem_requested hhandled)
    rw [hrequest] at hvisit htext
    exact hvisit.result hlib hversion htext rfl (by simp)

end Worker

/-! ## A call and its response -/

/-- A text without the line breaks at its end. -/
def trimLine (text : String) : String :=
  String.ofList (text.toList.reverse.dropWhile (· = '\n')).reverse

theorem trimLine_newline (text : String) : trimLine (text ++ "\n") = trimLine text := by
  simp [trimLine]

/-- The JSON library on a table, which skips line breaks at the end of a text. -/
def lineJson (table : List (Content × String)) : SerdeJson where
  toString := (SerdeJson.ofTable table).toString
  fromStr text := (SerdeJson.ofTable table).fromStr (trimLine text)

theorem isFaithful_lineJson {table : List (Content × String)}
    (hnodup : (table.map Prod.snd).Nodup) (hempty : "" ∉ table.map Prod.snd)
    (htrim : ∀ entry ∈ table, trimLine entry.2 = entry.2) : (lineJson table).IsFaithful := by
  intro c c' hc
  have htext : trimLine ((SerdeJson.ofTable table).toString c) =
      (SerdeJson.ofTable table).toString c := by
    simp only [SerdeJson.ofTable]
    cases hfind : table.find? fun entry => entry.1 = c with
    | none => rfl
    | some entry => exact htrim entry (List.mem_of_find?_eq_some hfind)
  refine SerdeJson.isFaithful_ofTable hnodup hempty c c' ?_
  rw [← htext]
  exact hc

/-- A call of `pong` and its response. -/
def pongTable : List (Content × String) :=
  [((JsonRpc.Request.single (.methodCall ⟨some .v2, "pong", .none, .num 0⟩)).serialize,
      "\x7b\"jsonrpc\":\"2.0\",\"method\":\"pong\",\"params\":null,\"id\":0\x7d"),
    ((Output.success ⟨some .v2, .bool true, .num 0⟩).serialize,
      "\x7b\"jsonrpc\":\"2.0\",\"result\":true,\"id\":0\x7d")]

/-- The libraries of the client. -/
def pongClient : Libraries := .ofJson (lineJson pongTable)

/-- The libraries of the server. -/
def pongLibraries : Http.Libraries where
  unicode := asciiUnicode
  json := lineJson pongTable
  toStr value := (fromUtf8 value).map String.toList
  fromStr text := some (intoBytes (String.ofList text))
  debug _ := ""

theorem agreeing_pong : Agreeing pongClient pongLibraries where
  json_eq := rfl
  faithful := isFaithful_lineJson (by decide) (by decide) (by decide)
  newline text := by
    simp only [pongClient, Libraries.ofJson, lineJson, trimLine_newline]
  empty := by decide
  toStr := by
    simp only [pongLibraries]
    rw [fromUtf8_eq_some.mpr rfl]
    rfl

/-- A server without restrictions. -/
def pongServer : ServerHandler literalGlobset Unit Unit where
  jsonrpcHandler := ⟨pongHandler, fun _ => ()⟩
  allowedHosts := none
  corsDomains := none
  corsMaxAge := none
  corsAllowedHeaders := .any
  middleware := .proceed false
  restApi := .disabled
  healthApi := none
  maxRequestBodySize := 1024
  keepAlive := true

/-- The call as a text. -/
def pongText : String := "\x7b\"jsonrpc\":\"2.0\",\"method\":\"pong\",\"params\":null,\"id\":0\x7d"

/-- The content of the response. -/
def pongReply : String := "\x7b\"jsonrpc\":\"2.0\",\"result\":true,\"id\":0\x7d\n"

/-- The headers and the body are read, then the method returns. -/
def pongVisit : Visit Unit Unit where
  request := post ['/'] pongText
  ticks := [⟨true, .pending, .pending⟩, ⟨true, .pending, .pending⟩,
    ⟨true, .ready (some (.single (.success ⟨some .v2, .bool true, .num 0⟩))), .pending⟩]
  returned := [⟨.num 0, ⟨.simple (), .none, ()⟩, .ok (.bool true)⟩]

theorem served_pong :
    Served pongLibraries pongServer (post ['/'] pongText) pongVisit (intoBytes pongReply) where
  arrives := ⟨rfl, rfl, fun _ _ h => h, rfl⟩
  proceeds := ⟨false, rfl⟩
  responds := by
    have hinvoked : (Life.after pongLibraries pongServer pongVisit.request
      pongVisit.ticks).invoked = [.request pongText ()] := rfl
    intro tick htick answer hready content metadata hmem
    rw [hinvoked, List.mem_singleton] at hmem
    cases hmem
    have hanswer : answer = some (.single (.success ⟨some .v2, .bool true, .num 0⟩)) := by
      simp only [pongVisit, List.mem_cons, List.not_mem_nil, or_false] at htick
      rcases htick with rfl | rfl | rfl
      · cases hready
      · cases hready
      · exact (Poll.ready.inj hready).symm
    subst hanswer
    exact ⟨[fun _ => .ready (.ok (.bool true))], by decide, by decide⟩
  answers := ⟨_, rfl, by decide, rfl⟩

/-- A call of `pong` is posted, and its response is read. -/
def pongLabels : List Label :=
  [.call "pong" .none, .poll [(0, some (.ok 200))] .pending,
    .poll [] (.ready (.ok (intoBytes pongReply)))]

/-- The call receives what the method returned. -/
theorem Worker.delivered_agrees_with_server_pong :
    (after pongClient pongLabels).delivered = [(0, .ok (.bool true))] ∧
      ∃ method params id, .call method params 0 ∈ (after pongClient pongLabels).sent ∧
        LocalWorld.Agrees pongHandler () pongVisit.returned ⟨some .v2, method, params, .num id⟩
          (.ok (.bool true)) := by
  have hresult : pongClient.result (.ok (intoBytes pongReply)) = .ok (.bool true) := by
    simp only [Libraries.result, pongClient.fromUtf8Lossy_intoBytes]
    decide
  have hdelivered : (after pongClient pongLabels).delivered = [(0, .ok (.bool true))] := by
    rw [← hresult]
    rfl
  have hhandled : (after pongClient pongLabels).handled =
    [(⟨0, .single (.methodCall ⟨some .v2, "pong", .none, .num 0⟩), some 0⟩,
      .ok (intoBytes pongReply))] := rfl
  have hserved : ∀ exchange bytes, (exchange, .ok bytes) ∈ (after pongClient pongLabels).handled →
      Served pongLibraries pongServer (post ['/'] (exchange.request.toString pongClient.json))
        pongVisit bytes := by
    intro exchange bytes hmem
    rw [hhandled, List.mem_singleton] at hmem
    cases hmem
    have htext : (JsonRpc.Request.single
      (.methodCall ⟨some .v2, "pong", .none, .num 0⟩)).toString pongClient.json = pongText := by
      decide
    rw [htext]
    exact served_pong
  obtain ⟨exchange, method, params, id, hcall, -, hcases⟩ :=
    Worker.delivered_agrees_with_server agreeing_pong pongServer (by decide) ['/'] pongLabels
      (fun _ => pongVisit) (by decide) hserved 0 (.ok (.bool true)) (by rw [hdelivered]; simp)
  refine ⟨hdelivered, method, params, id, hcall, ?_⟩
  rcases hcases with ⟨e, -, he⟩ | he | ⟨r, hr, hagrees⟩
  · cases he
  · cases he
  · cases r with
    | error e => cases hr
    | ok v =>
      cases hr
      exact hagrees

end JsonRpc.HttpClient
