import JsonRpc.Http.Handler

/-!
# The access gate of the HTTP server

A request is permitted to call the JSON-RPC handler if the middleware lets it through, its
host and its origin are allowed, and it is a JSON message, a call by its path or a health
check. During the life of a request the JSON-RPC handler is called at most once, and only
if that is permitted.
-/

namespace JsonRpc.Http

open Text ServerUtils

variable {G : Globset} {P M : Type}

section Permission

variable (L : Libraries) (server : ServerHandler G P M)

/-- The origin and the headers of a request are allowed, or it is let through anyway. -/
def CorsPasses (continueOnInvalidCors : Bool) (req : Request) : Prop :=
  continueOnInvalidCors = true ∨
    (corsAllowOrigin L req server.corsDomains).isInvalid = false ∧
      (corsAllowHeaders L req server.corsAllowedHeaders).isInvalid = false

/-- The ways in which a request calls the JSON-RPC handler. -/
inductive Entry (req : Request) : Invoked M → Prop
  /-- A JSON message. -/
  | message {bytes : Bytes} {content : String} (hpost : req.method = .post)
      (hjson : hasJson L req = true) (hbody : assemble req.body = some bytes)
      (hsize : bytes.length ≤ server.maxRequestBodySize.toNat)
      (hutf8 : fromUtf8 bytes = some content)
      (hrest : bytes = [] → server.restApi = .disabled) :
      Entry req (.request content (server.jsonrpcHandler.extractor req))
  /-- A call by the path, with the content type of a JSON message and no body. -/
  | emptyMessage (hpost : req.method = .post) (hjson : hasJson L req = true)
      (hbody : assemble req.body = some []) (hrest : server.restApi ≠ .disabled) :
      Entry req (.call (restCall L.json req.path) (server.jsonrpcHandler.extractor req))
  /-- A call by the path. -/
  | path (hpost : req.method = .post) (hjson : hasJson L req = false)
      (hrest : server.restApi = .unsecure) (hparts : 2 < (split ['/'] req.path).length) :
      Entry req (.call (restCall L.json req.path) (server.jsonrpcHandler.extractor req))
  /-- A health check. -/
  | health {method : String} (hget : req.method = .get)
      (hpath : server.healthApi = some (req.path, method)) :
      Entry req (.call (healthCall method) (server.jsonrpcHandler.extractor req))

/-- A request is permitted to make a call. -/
def Permitted (request : Request) (i : Invoked M) : Prop :=
  ∃ continueOnInvalidCors req,
    server.middleware request = .proceed continueOnInvalidCors req ∧
      isHostAllowed L request server.allowedHosts = true ∧
      CorsPasses L server continueOnInvalidCors req ∧ Entry L server req i

end Permission

/-! ## The stages of a request -/

section Stage

variable (L : Libraries) (server : ServerHandler G P M) (cont : Bool) (req : Request)

/-- At most one call was made, and it was permitted. -/
def Sound (invoked : List (Invoked M)) : Prop :=
  invoked.length ≤ 1 ∧ ∀ i ∈ invoked, CorsPasses L server cont req ∧ Entry L server req i

/-- What is known about a request in a state of the machine. -/
inductive Stage : RpcHandlerState G M → List (Invoked M) → Prop
  | readingHeaders :
      Stage (.readingHeaders req server.corsDomains server.corsAllowedHeaders cont
        server.keepAlive) []
  | readingBody {body : List BodyEvent} {acc : Bytes} (hcors : CorsPasses L server cont req)
      (hpost : req.method = .post) (hjson : hasJson L req = true)
      (hbody : (assemble body).map (acc ++ ·) = assemble req.body)
      (hsize : acc.length ≤ server.maxRequestBodySize.toNat) :
      Stage (.readingBody body (if server.restApi ≠ .disabled then some req.path else none) acc
        (server.jsonrpcHandler.extractor req)) []
  | processRest {uri : Text} {metadata : M} (hcors : CorsPasses L server cont req)
      (hentry : Entry L server req (.call (restCall L.json uri) metadata)) :
      Stage (.processRest uri metadata) []
  | processHealth {method : String} {metadata : M} (hcors : CorsPasses L server cont req)
      (hentry : Entry L server req (.call (healthCall method) metadata)) :
      Stage (.processHealth method metadata) []
  | waiting {invoked : List (Invoked M)} (hsound : Sound L server cont req invoked) :
      Stage .waiting invoked
  | waitingForResponse {invoked : List (Invoked M)} (hsound : Sound L server cont req invoked) :
      Stage .waitingForResponse invoked
  | writing {res : Response} {invoked : List (Invoked M)}
      (hsound : Sound L server cont req invoked) : Stage (.writing res) invoked
  | done {invoked : List (Invoked M)} (hsound : Sound L server cont req invoked) :
      Stage .done invoked

/-- The machine has the configuration of the server. -/
structure Configured (h : RpcHandler G P M) : Prop where
  jsonrpcHandler_eq : h.jsonrpcHandler = server.jsonrpcHandler
  restApi_eq : h.restApi = server.restApi
  healthApi_eq : h.healthApi = server.healthApi
  maxRequestBodySize_eq : h.maxRequestBodySize = server.maxRequestBodySize

/-- The machine has read the headers of the request. -/
structure HeadersRead (h : RpcHandler G P M) : Prop where
  corsAllowOrigin_eq : h.corsAllowOrigin = corsAllowOrigin L req server.corsDomains
  corsAllowHeaders_eq : h.corsAllowHeaders = corsAllowHeaders L req server.corsAllowedHeaders

/-- The headers were read, and the response was not written. -/
def RpcHandlerState.isOpen : RpcHandlerState G M → Bool
  | .readingHeaders .. | .done => false
  | _ => true

/-- The machine of a request that was let through. -/
structure Machine (h : RpcHandler G P M) (invoked : List (Invoked M)) : Prop where
  configured : Configured server h
  stage : Stage L server cont req h.state invoked
  headersRead : h.state.isOpen = true → HeadersRead L server req h

/-- A response names the allowed origin if and only if the origin of the request is allowed. -/
def NamesOrigin (response : HyperResponse) : Prop :=
  (∃ v, ("access-control-allow-origin", v) ∈ response.headers) ↔
    (getCorsAllowOrigin L.unicode (readHeader L req "origin".toList)
      (readHeader L req "host".toList) server.corsDomains).isOk = true

end Stage

variable {L : Libraries} {server : ServerHandler G P M} {cont : Bool} {req : Request}
  {h : RpcHandler G P M} {invoked : List (Invoked M)}

theorem Sound.nil : Sound L server cont req [] := ⟨Nat.zero_le _, nofun⟩

theorem Sound.single {i : Invoked M} (hcors : CorsPasses L server cont req)
    (hentry : Entry L server req i) : Sound L server cont req [i] := by
  refine ⟨le_refl _, fun i' hi' => ?_⟩
  obtain rfl := List.mem_singleton.mp hi'
  exact ⟨hcors, hentry⟩

theorem Stage.sound {state : RpcHandlerState G M} (hstage : Stage L server cont req state invoked) :
    Sound L server cont req invoked := by
  cases hstage with
  | readingHeaders => exact .nil
  | readingBody => exact .nil
  | processRest => exact .nil
  | processHealth => exact .nil
  | waiting hsound => exact hsound
  | waitingForResponse hsound => exact hsound
  | writing hsound => exact hsound
  | done hsound => exact hsound

/-! ## What an iteration does -/

/-- After the headers, the request is in the stage of its method. -/
theorem stage_readHeaders (hconf : Configured server h) (hread : HeadersRead L server req h)
    (isAlive : Bool) : Stage L server cont req (h.readHeaders L req cont isAlive) [] := by
  unfold RpcHandler.readHeaders
  rw [hread.corsAllowOrigin_eq, hread.corsAllowHeaders_eq, hconf.jsonrpcHandler_eq,
    hconf.restApi_eq, hconf.healthApi_eq]
  split
  · exact .writing .nil
  · rename_i horigin
    split
    · exact .writing .nil
    · rename_i hheaders
      have hcors : CorsPasses L server cont req := by
        cases hcont : cont with
        | true => exact .inl rfl
        | false =>
          rw [hcont] at horigin hheaders
          exact .inr ⟨by simpa using horigin, by simpa using hheaders⟩
      split
      · exact .writing .nil
      · split
        · rename_i hpost
          split
          · rename_i hjson
            refine .readingBody hcors hpost hjson ?_ (Nat.zero_le _)
            simp
          · rename_i hjson
            split
            · rename_i hrest
              exact .processRest hcors (.path hpost (Bool.eq_false_iff.mpr hjson) hrest.1 hrest.2)
            · exact .writing .nil
        · exact .writing .nil
        · rename_i hget
          split
          · rename_i path method hhealth
            split
            · rename_i hpath
              subst hpath
              exact .processHealth hcors (.health hget hhealth)
            · exact .writing .nil
          · exact .writing .nil
        · exact .writing .nil

/-- What does not exceed the limit is within it. -/
theorem le_of_exceeds_eq_false {limit m n : ℕ} (hex : exceeds limit m n = false) :
    m + n ≤ limit := by
  unfold exceeds checkedAdd at hex
  split at hex
  · rename_i sum hsum
    split at hsum
    · cases hsum
      exact Nat.le_of_not_lt (of_decide_eq_false hex)
    · cases hsum
  · cases hex

/-- A sum within the limit exceeds nothing. -/
theorem exceeds_eq_false (limit : UInt64) {m n : ℕ} (hle : m + n ≤ limit.toNat) :
    exceeds limit.toNat m n = false := by
  have hlt : m + n < 2 ^ 64 := Nat.lt_of_le_of_lt hle limit.toNat_lt
  rw [exceeds, checkedAdd, if_pos hlt]
  exact decide_eq_false (Nat.not_lt.mpr hle)

section Body

variable (hcors : CorsPasses L server cont req) (hpost : req.method = .post)
  (hjson : hasJson L req = true)

include hcors hpost hjson

/-- A body that was read is the message of a call, or its path is used. -/
theorem stage_processBodyEnd {isAlive : Bool} {acc : Bytes} {next : RpcPollState G M}
    (hacc : assemble req.body = some acc) (hsize : acc.length ≤ server.maxRequestBodySize.toNat)
    (hnext : RpcHandler.processBodyEnd (if server.restApi ≠ .disabled then some req.path else none)
      (server.jsonrpcHandler.extractor req) isAlive acc = .ok next) :
    Stage L server cont req next.state next.invoked.toList := by
  unfold RpcHandler.processBodyEnd at hnext
  split at hnext
  · rename_i uri huri hempty
    cases hnext
    split at huri
    · rename_i hrest
      cases huri
      rw [List.isEmpty_iff.mp hempty] at hacc
      exact .processRest hcors (.emptyMessage hpost hjson hacc hrest)
    · cases huri
  · rename_i hmessage
    split at hnext
    · rename_i content hutf8
      split at hnext
      · cases hnext
        refine .waiting (.single hcors (.message hpost hjson hacc hsize hutf8 fun hnil => ?_))
        by_contra hrest
        exact hmessage req.path (if_pos hrest) (by rw [hnil]; rfl)
      · cases hnext
        exact .writing .nil
    · cases hnext

/-- Reading the body leaves the request in the stage of what was read. -/
theorem stage_processBody (hconf : Configured server h) {isAlive : Bool}
    {body : List BodyEvent} {acc : Bytes} {next : RpcPollState G M}
    (hbody : (assemble body).map (acc ++ ·) = assemble req.body)
    (hsize : acc.length ≤ server.maxRequestBodySize.toNat)
    (hnext : h.processBody (if server.restApi ≠ .disabled then some req.path else none)
      (server.jsonrpcHandler.extractor req) isAlive body acc = .ok next) :
    Stage L server cont req next.state next.invoked.toList := by
  induction body generalizing acc with
  | nil =>
    have hacc : assemble req.body = some acc := by
      rw [← hbody]
      simp [assemble]
    rw [RpcHandler.processBody] at hnext
    exact stage_processBodyEnd hcors hpost hjson hacc hsize hnext
  | cons event body ih =>
    cases event with
    | chunk data =>
      rw [RpcHandler.processBody] at hnext
      split at hnext
      · cases hnext
      · rename_i hex
        have hle := le_of_exceeds_eq_false (Bool.eq_false_iff.mpr hex)
        rw [hconf.maxRequestBodySize_eq] at hle
        refine ih ?_ (by simpa using hle) hnext
        rw [← hbody, assemble, Option.map_map]
        congr 1
        funext rest
        simp
    | pending =>
      cases hnext
      exact .readingBody hcors hpost hjson hbody hsize
    | error e => cases hnext

end Body

/-- The end of an iteration keeps what is known about the request. A response names the
allowed origin. -/
theorem machine_finish (hconf : Configured server h) (hread : HeadersRead L server req h)
    {next : RpcPollState G M}
    (hstage : Stage L server cont req next.state (invoked ++ next.invoked.toList)) :
    Machine L server cont req (h.finish next).1 (invoked ++ (h.finish next).2.1.toList) ∧
      ∀ response, (h.finish next).2.2 = .ready (.ok response) →
        NamesOrigin L server req response := by
  unfold RpcHandler.finish
  split
  · refine ⟨⟨{ hconf with }, .done hstage.sound, nofun⟩, ?_⟩
    rintro response ⟨⟩
    rw [NamesOrigin, exists_allowOrigin_iff, AllowCors.toOption_isSome, hread.corsAllowOrigin_eq,
      corsAllowOrigin, AllowCors.isOk_map]
  · refine ⟨⟨{ hconf with }, hstage, fun _ => ⟨hread.1, hread.2⟩⟩, ?_⟩
    intro response hready
    dsimp only at hready
    split at hready <;> cases hready

/-- **Step of the machine.** An iteration keeps what is known about the request, and a response
names the allowed origin. -/
theorem Machine.poll (hm : Machine L server cont req h invoked) (tick : Tick) :
    Machine L server cont req (h.poll L tick).1 (invoked ++ (h.poll L tick).2.1.toList) ∧
      ∀ response, (h.poll L tick).2.2 = .ready (.ok response) →
        NamesOrigin L server req response := by
  obtain ⟨hconf, hstage, hread⟩ := hm
  unfold RpcHandler.poll
  generalize hstate : h.state = state at hstage hread
  cases hstage with
  | readingHeaders =>
    dsimp only
    refine machine_finish ?_ ?_ (stage_readHeaders ?_ ?_ tick.isAlive)
    · exact { hconf with }
    · exact ⟨rfl, rfl⟩
    · exact { hconf with }
    · exact ⟨rfl, rfl⟩
  | readingBody hcors hpost hjson hbody hsize =>
    have hread := hread rfl
    dsimp only
    split
    · exact machine_finish hconf hread (.writing .nil)
    · exact machine_finish hconf hread (.writing .nil)
    · exact ⟨⟨{ hconf with }, .done .nil, nofun⟩, nofun⟩
    · rename_i next hnext
      exact machine_finish hconf hread
        (stage_processBody hcors hpost hjson hconf hbody hsize hnext)
  | processRest hcors hentry =>
    refine machine_finish hconf (hread rfl) ?_
    unfold RpcHandler.processRest
    split
    · exact .waiting (.single hcors hentry)
    · exact .writing .nil
  | processHealth hcors hentry =>
    refine machine_finish hconf (hread rfl) ?_
    unfold RpcHandler.processHealth
    split
    · exact .waitingForResponse (.single hcors hentry)
    · exact .writing .nil
  | waiting hsound =>
    dsimp only
    split
    · exact machine_finish hconf (hread rfl) (.writing (by simpa using hsound))
    · exact machine_finish hconf (hread rfl) (.waiting (by simpa using hsound))
  | waitingForResponse hsound =>
    dsimp only
    split
    · exact machine_finish hconf (hread rfl) (.writing (by simpa using hsound))
    · exact machine_finish hconf (hread rfl) (.waitingForResponse (by simpa using hsound))
  | writing hsound => exact machine_finish hconf (hread rfl) (.writing (by simpa using hsound))
  | done hsound =>
    have hsound' : Sound L server cont req (invoked ++ []) := by simpa using hsound
    refine ⟨⟨{ hconf with }, .done hsound', nofun⟩, ?_⟩
    intro response hready
    cases hready

/-! ## The life of a request -/

/-- What is known about a request during its life. -/
def Life.Inv (L : Libraries) (server : ServerHandler G P M) (request : Request)
    (life : Life G P M) : Prop :=
  match life.handler with
  | .rpc h => ∃ cont req, server.middleware request = .proceed cont req ∧
      isHostAllowed L request server.allowedHosts = true ∧
      Machine L server cont req h life.invoked ∧
      ∀ response, life.answer = some (.ok response) → NamesOrigin L server req response
  | .err _ => life.invoked = [] ∧ isHostAllowed L request server.allowedHosts = false
  | .middleware => life.invoked = [] ∧ ∃ validate, server.middleware request = .respond validate

theorem Life.inv_call (server : ServerHandler G P M) (request : Request) :
    Life.Inv L server request ⟨server.call L request, [], none⟩ := by
  unfold Life.Inv ServerHandler.call
  dsimp only
  cases haction : server.middleware request with
  | proceed cont req =>
    dsimp only
    cases hhost : isHostAllowed L request server.allowedHosts with
    | true => exact ⟨cont, req, rfl, rfl, ⟨⟨rfl, rfl, rfl, rfl⟩, .readingHeaders, nofun⟩, nofun⟩
    | false => exact ⟨rfl, rfl⟩
  | respond validate =>
    dsimp only
    cases hhost : isHostAllowed L request server.allowedHosts with
    | true =>
      rw [Bool.not_true, Bool.and_false]
      exact ⟨rfl, validate, rfl⟩
    | false =>
      cases validate with
      | true => exact ⟨rfl, rfl⟩
      | false => exact ⟨rfl, false, rfl⟩

theorem Life.Inv.step {life : Life G P M} {request : Request} (hinv : life.Inv L server request)
    (tick : Tick) : (life.step L tick).Inv L server request := by
  obtain ⟨handler, invoked, answer⟩ := life
  unfold Life.step
  cases answer with
  | some answer => exact hinv
  | none =>
    cases handler with
    | rpc h =>
      obtain ⟨cont, req, hproceed, hhost, hm, -⟩ := hinv
      obtain ⟨hm', hnames⟩ := hm.poll tick
      dsimp only [Handler.poll]
      generalize h.poll L tick = polled at hm' hnames
      obtain ⟨h', i, progress⟩ := polled
      cases progress with
      | again => exact ⟨cont, req, hproceed, hhost, hm', nofun⟩
      | pending => exact ⟨cont, req, hproceed, hhost, hm', nofun⟩
      | ready answer =>
        refine ⟨cont, req, hproceed, hhost, hm', fun response hanswer => ?_⟩
        cases hanswer
        exact hnames response rfl
    | err response =>
      obtain ⟨rfl, hhost⟩ : invoked = [] ∧ _ := hinv
      cases response with
      | some response => exact ⟨rfl, hhost⟩
      | none => exact ⟨rfl, hhost⟩
    | middleware =>
      obtain ⟨rfl, hrespond⟩ : invoked = [] ∧ _ := hinv
      dsimp only [Handler.poll]
      cases tick.middleware with
      | ready answer => exact ⟨rfl, hrespond⟩
      | pending => exact ⟨rfl, hrespond⟩

theorem Life.inv_after (L : Libraries) (server : ServerHandler G P M) (request : Request)
    (ticks : List Tick) : (after L server request ticks).Inv L server request :=
  Runs.run_invariant (I := fun life : Life G P M => life.Inv L server request)
    (inv_call server request) (fun _ tick hinv => hinv.step tick) ticks

/-- At most one call is made during the life of a request, and it is permitted. -/
theorem Life.Inv.sound {life : Life G P M} {request : Request}
    (hinv : life.Inv L server request) :
    life.invoked.length ≤ 1 ∧ ∀ i ∈ life.invoked, Permitted L server request i := by
  obtain ⟨handler, invoked, answer⟩ := life
  cases handler with
  | rpc h =>
    obtain ⟨cont, req, hproceed, hhost, hm, -⟩ := hinv
    obtain ⟨hlength, hentry⟩ := hm.stage.sound
    exact ⟨hlength, fun i hi => ⟨cont, req, hproceed, hhost, hentry i hi⟩⟩
  | err response =>
    obtain ⟨rfl, -⟩ : invoked = [] ∧ _ := hinv
    exact ⟨Nat.zero_le _, nofun⟩
  | middleware =>
    obtain ⟨rfl, -⟩ : invoked = [] ∧ _ := hinv
    exact ⟨Nat.zero_le _, nofun⟩

/-- A request is guarded. -/
structure Life.Guarded (L : Libraries) (server : ServerHandler G P M) (request : Request)
    (life : Life G P M) : Prop where
  /-- The JSON-RPC handler is called at most once. -/
  length_le_one : life.invoked.length ≤ 1
  /-- It is called only if that is permitted. -/
  permitted : ∀ i ∈ life.invoked, Permitted L server request i
  /-- Otherwise no user procedure runs. -/
  events_eq_nil : (∀ i, ¬ Permitted L server request i) →
    life.invoked.flatMap (Invoked.events L server.jsonrpcHandler.handler) = []
  /-- The response to a request that was let through names the allowed origin. -/
  namesOrigin : ∀ cont req response, server.middleware request = .proceed cont req →
    isHostAllowed L request server.allowedHosts = true →
    life.answer = some (.ok response) → NamesOrigin L server req response

/-- **Access gate.** During the life of every request, for every configuration of the server,
every action of the middleware and every way in which the body is delivered, the JSON-RPC
handler is called at most once and only if that is permitted, and a response names the
allowed origin if and only if the origin of the request is allowed. -/
theorem Life.after_guarded (L : Libraries) (server : ServerHandler G P M) (request : Request)
    (ticks : List Tick) : (after L server request ticks).Guarded L server request := by
  have hinv := inv_after L server request ticks
  have hsound := hinv.sound
  generalize after L server request ticks = life at hinv hsound
  obtain ⟨handler, invoked, answer⟩ := life
  refine ⟨hsound.1, hsound.2, fun hnot => ?_, fun cont req response hproceed hhost hanswer => ?_⟩
  · have hnil : invoked = [] :=
      List.eq_nil_iff_forall_not_mem.mpr fun i hi => hnot i (hsound.2 i hi)
    dsimp only
    rw [hnil]
    rfl
  · cases handler with
    | rpc h =>
      obtain ⟨cont', req', hproceed', -, -, hnames⟩ := hinv
      cases hproceed.symm.trans hproceed'
      exact hnames response hanswer
    | err response =>
      cases hhost.symm.trans hinv.2
    | middleware =>
      obtain ⟨-, validate, hrespond⟩ := hinv
      cases hproceed.symm.trans hrespond

end JsonRpc.Http
