import JsonRpc.Client.Transport
import JsonRpc.Core.Handler
import JsonRpc.Http.Request
import JsonRpc.Lib.Runs

/-!
# The HTTP handler

The server asks its middleware what to do with a request, validates the host, and then runs
a machine that reads the headers and the body, calls the JSON-RPC handler and waits for its
response. The machine takes its state out when it is polled, and puts the next state back.
-/

namespace JsonRpc.Http

open Text ServerUtils

/-! ## The configuration of the server -/

/-- How a call can be made without a body. -/
inductive RestApi where
  | secure
  | unsecure
  | disabled
  deriving DecidableEq

/-- What a middleware makes of a request. -/
inductive RequestMiddlewareAction where
  | proceed (shouldContinueOnInvalidCors : Bool) (request : Request)
  | respond (shouldValidateHosts : Bool)

/-- The JSON-RPC handler with the extractor of metadata. -/
structure Rpc (P M : Type) where
  handler : MetaIoHandler P
  extractor : Request → M

/-- The handler of the server. -/
structure ServerHandler (G : Globset) (P M : Type) where
  jsonrpcHandler : Rpc P M
  allowedHosts : Option (List (Host G))
  corsDomains : Option (List (AccessControlAllowOrigin G))
  corsMaxAge : Option UInt32
  corsAllowedHeaders : AccessControlAllowHeaders
  middleware : Request → RequestMiddlewareAction
  restApi : RestApi
  /-- The path and the method of the health check. -/
  healthApi : Option (Text × String)
  maxRequestBodySize : UInt64
  keepAlive : Bool

/-! ## The machine -/

/-- A call of the JSON-RPC handler. -/
inductive Invoked (M : Type) where
  /-- `handle_request`. -/
  | request (content : String) (metadata : M)
  /-- `handle_rpc_request`. -/
  | call (request : JsonRpc.Request) (metadata : M)

/-- The state of the machine. -/
inductive RpcHandlerState (G : Globset) (M : Type) where
  | readingHeaders (request : Request) (corsDomains : Option (List (AccessControlAllowOrigin G)))
      (corsHeaders : AccessControlAllowHeaders) (continueOnInvalidCors keepAlive : Bool)
  | readingBody (body : List BodyEvent) (uri : Option Text) (request : Bytes) (metadata : M)
  | processRest (uri : Text) (metadata : M)
  | processHealth (method : String) (metadata : M)
  | writing (res : Response)
  /-- Waiting for the text of a response. -/
  | waiting
  | waitingForResponse
  | done

/-- The machine. -/
structure RpcHandler (G : Globset) (P M : Type) where
  jsonrpcHandler : Rpc P M
  state : RpcHandlerState G M
  isOptions : Bool
  corsAllowOrigin : AllowCors HeaderValue
  corsAllowHeaders : AllowCors (List HeaderValue)
  corsMaxAge : Option UInt32
  restApi : RestApi
  healthApi : Option (Text × String)
  maxRequestBodySize : UInt64
  keepAlive : Bool

/-- What the environment answers in one iteration of a poll. -/
structure Tick where
  /-- The JSON-RPC handler was not dropped. -/
  isAlive : Bool
  /-- The response of the JSON-RPC handler. -/
  response : Poll (Option JsonRpc.Response)
  /-- The response of the middleware. -/
  middleware : Poll (Except HyperError HyperResponse)

/-- The next state of the machine, whether it is ready to be polled again at once, and the call
that was made. -/
structure RpcPollState (G : Globset) (M : Type) where
  state : RpcHandlerState G M
  isReady : Bool
  invoked : Option (Invoked M)

/-- How an iteration of a poll ends. -/
inductive Progress where
  /-- The machine is polled again at once. -/
  | again
  | pending
  | ready (answer : Except HyperError HyperResponse)

/-- An error in a body. -/
inductive BodyError where
  | hyper (e : HyperError)
  /-- The bytes are UTF-8 up to a position. -/
  | utf8 (validUpTo : ℕ)
  | tooLarge

/-- The length of the longest part of some bytes that is UTF-8. -/
def validUpTo (bytes : Bytes) : ℕ :=
  Nat.findGreatest (fun n => (fromUtf8 (bytes.take n)).isSome = true) bytes.length

/-- The sum of two lengths, if it does not overflow. -/
def checkedAdd (m n : ℕ) : Option ℕ := if m + n < 2 ^ 64 then some (m + n) else none

/-- The sum of two lengths exceeds a limit. -/
def exceeds (limit m n : ℕ) : Bool :=
  match checkedAdd m n with
  | some sum => limit < sum
  | none => true

/-- The call of a health check. -/
def healthCall (method : String) : JsonRpc.Request :=
  .single (.methodCall ⟨some .v2, method, .none, .num 1⟩)

/-- The value of a part of a path. -/
def restParam (json : SerdeJson) (param : Text) : Value :=
  match json.fromStr (String.ofList param) with
  | some c => Value.deserialize c
  | none =>
    match json.fromStr ("\"" ++ String.ofList param ++ "\"") with
    | some c => Value.deserialize c
    | none => .null

/-- The call of a path. -/
def restCall (json : SerdeJson) (uri : Text) : JsonRpc.Request :=
  let parts := (split ['/'] uri).drop 1
  let method := String.ofList (parts.headD [])
  let params := (parts.drop 1).map (restParam json)
  .single (.methodCall ⟨some .v2, method, .array params, .num 1⟩)

namespace RpcHandler

variable {G : Globset} {P M : Type} (L : Libraries) (h : RpcHandler G P M)

/-- The state after the headers. -/
def readHeaders (request : Request) (continueOnInvalidCors isAlive : Bool) : RpcHandlerState G M :=
  if h.corsAllowOrigin.isInvalid && !continueOnInvalidCors then .writing .invalidAllowOrigin
  else if h.corsAllowHeaders.isInvalid && !continueOnInvalidCors then .writing .invalidAllowHeaders
  else if !isAlive then .writing .closing
  else
    let metadata := h.jsonrpcHandler.extractor request
    match request.method with
    | .post =>
      if hasJson L request then
        let uri := if h.restApi ≠ .disabled then some request.path else none
        .readingBody request.body uri [] metadata
      else if h.restApi = .unsecure ∧ (split ['/'] request.path).length > 2 then
        .processRest request.path metadata
      else .writing .unsupportedContentType
    | .options => .writing .empty
    | .get =>
      match h.healthApi with
      | some (path, method) =>
        if path = request.path then .processHealth method metadata else .writing .methodNotAllowed
      | none => .writing .methodNotAllowed
    | _ => .writing .methodNotAllowed

def processHealth (method : String) (metadata : M) (isAlive : Bool) : RpcPollState G M :=
  if isAlive then ⟨.waitingForResponse, true, some (.call (healthCall method) metadata)⟩
  else ⟨.writing .closing, true, none⟩

/-- The response to a health check. -/
def healthResponse : Option JsonRpc.Response → Response
  | some (.single (.success success)) => .ok (L.json.toString success.result.serialize)
  | some (.single (.failure failure)) =>
    .serviceUnavailable (L.json.toString failure.error.serialize)
  | e => .internalError ("Invalid response for health request: " ++ L.debug e)

def processRest (uri : Text) (metadata : M) (isAlive : Bool) : RpcPollState G M :=
  if isAlive then ⟨.waiting, true, some (.call (restCall L.json uri) metadata)⟩
  else ⟨.writing .closing, true, none⟩

/-- The end of the body. -/
def processBodyEnd (uri : Option Text) (metadata : M) (isAlive : Bool) (request : Bytes) :
    Except BodyError (RpcPollState G M) :=
  match uri, request.isEmpty with
  | some uri, true => .ok ⟨.processRest uri metadata, true, none⟩
  | _, _ =>
    match fromUtf8 request with
    | some content =>
      if isAlive then .ok ⟨.waiting, true, some (.request content metadata)⟩
      else .ok ⟨.writing .closing, true, none⟩
    | none => .error (.utf8 (validUpTo request))

/-- The loop that reads the body. -/
def processBody (uri : Option Text) (metadata : M) (isAlive : Bool) :
    List BodyEvent → Bytes → Except BodyError (RpcPollState G M)
  | .chunk data :: body, request =>
    if exceeds h.maxRequestBodySize.toNat request.length data.length then .error .tooLarge
    else processBody uri metadata isAlive body (request ++ data)
  | .pending :: body, request => .ok ⟨.readingBody body uri request metadata, false, none⟩
  | .error e :: _, _ => .error (.hyper e)
  | [], request => processBodyEnd uri metadata isAlive request

/-- The response to the text of a response. A notification has an empty response. -/
def waitingResponse : Option JsonRpc.Response → Response
  | none => .ok ""
  | some response => .ok (L.json.toString response.serialize ++ "\n")

/-- The end of an iteration: write a response, or put the state back. -/
def finish (next : RpcPollState G M) :
    RpcHandler G P M × Option (Invoked M) × Progress :=
  match next.state with
  | .writing res =>
    let headers := responseHeaders h.isOptions h.corsMaxAge h.corsAllowOrigin.toOption
      h.corsAllowHeaders.toOption h.keepAlive
    ({ h with state := .done, corsAllowOrigin := .invalid, corsAllowHeaders := .invalid },
      next.invoked, .ready (.ok (res.into headers)))
  | state => ({ h with state }, next.invoked, if next.isReady then .again else .pending)

/-- One iteration of a poll. -/
def poll (tick : Tick) :
    RpcHandler G P M × Option (Invoked M) × Progress :=
  match h.state with
  | .readingHeaders request corsDomains corsHeaders continueOnInvalidCors keepAlive =>
    let h := { h with
      corsAllowOrigin := Http.corsAllowOrigin L request corsDomains
      corsAllowHeaders := Http.corsAllowHeaders L request corsHeaders
      keepAlive := Http.keepAlive L request keepAlive
      isOptions := decide (request.method = Method.options) }
    h.finish ⟨h.readHeaders L request continueOnInvalidCors tick.isAlive, true, none⟩
  | .readingBody body uri request metadata =>
    match h.processBody uri metadata tick.isAlive body request with
    | .error (.utf8 n) =>
      let mesg := "utf-8 encoding error at byte " ++ toString n ++ " in request body"
      h.finish ⟨.writing (.badRequest mesg), true, none⟩
    | .error .tooLarge =>
      h.finish ⟨.writing (.tooLarge "request body size exceeds allowed maximum"), true, none⟩
    | .error (.hyper e) => ({ h with state := .done }, none, .ready (.error e))
    | .ok next => h.finish next
  | .processRest uri metadata => h.finish (processRest L uri metadata tick.isAlive)
  | .processHealth method metadata => h.finish (processHealth method metadata tick.isAlive)
  | .waitingForResponse =>
    match tick.response with
    | .ready response => h.finish ⟨.writing (healthResponse L response), true, none⟩
    | .pending => h.finish ⟨.waitingForResponse, false, none⟩
  | .waiting =>
    match tick.response with
    | .ready response => h.finish ⟨.writing (waitingResponse L response), true, none⟩
    | .pending => h.finish ⟨.waiting, false, none⟩
  | state => h.finish ⟨state, false, none⟩

end RpcHandler

/-! ## The service -/

/-- The future of a request. -/
inductive Handler (G : Globset) (P M : Type) where
  | rpc (handler : RpcHandler G P M)
  | err (response : Option Response)
  /-- The response of the middleware. -/
  | middleware

section Service

variable {G : Globset} {P M : Type} (L : Libraries)

/-- The machine of a request that was let through. -/
def ServerHandler.start (server : ServerHandler G P M) (continueOnInvalidCors : Bool)
    (request : Request) : RpcHandler G P M where
  jsonrpcHandler := server.jsonrpcHandler
  state := .readingHeaders request server.corsDomains server.corsAllowedHeaders
    continueOnInvalidCors server.keepAlive
  isOptions := false
  corsMaxAge := server.corsMaxAge
  corsAllowOrigin := .notRequired
  corsAllowHeaders := .notRequired
  restApi := server.restApi
  healthApi := server.healthApi
  maxRequestBodySize := server.maxRequestBodySize
  keepAlive := true

def ServerHandler.call (server : ServerHandler G P M) (request : Request) : Handler G P M :=
  let isHostAllowed := isHostAllowed L request server.allowedHosts
  match server.middleware request with
  | .proceed shouldContinueOnInvalidCors request =>
    if !isHostAllowed then .err (some .hostNotAllowed)
    else .rpc (server.start shouldContinueOnInvalidCors request)
  | .respond shouldValidateHosts =>
    if shouldValidateHosts && !isHostAllowed then .err (some .hostNotAllowed) else .middleware

/-- One iteration of a poll. -/
def Handler.poll (tick : Tick) : Handler G P M →
    Handler G P M × Option (Invoked M) × Progress
  | .rpc handler =>
    let (handler, invoked, progress) := handler.poll L tick
    (.rpc handler, invoked, progress)
  | .middleware =>
    match tick.middleware with
    | .ready answer => (.middleware, none, .ready answer)
    | .pending => (.middleware, none, .pending)
  | .err (some response) => (.err none, none, .ready (.ok (response.into [])))
  -- The response is there until it is returned.
  | .err none => (.err none, none, .pending)

/-- The life of the future of a request. -/
structure Life (G : Globset) (P M : Type) where
  handler : Handler G P M
  /-- The calls of the JSON-RPC handler so far. -/
  invoked : List (Invoked M)
  /-- The answer of the future. It is not polled any more after that. -/
  answer : Option (Except HyperError HyperResponse)

namespace Life

def step (life : Life G P M) (tick : Tick) : Life G P M :=
  match life.answer with
  | some _ => life
  | none =>
    match life.handler.poll L tick with
    | (handler, invoked, .ready answer) => ⟨handler, life.invoked ++ invoked.toList, some answer⟩
    | (handler, invoked, _) => ⟨handler, life.invoked ++ invoked.toList, none⟩

/-- The life of a request after some iterations of polls. -/
def after (server : ServerHandler G P M) (request : Request) (ticks : List Tick) : Life G P M :=
  Runs.run (step L) ⟨server.call L request, [], none⟩ ticks

end Life

/-- The user procedures that a call of the JSON-RPC handler runs. -/
def Invoked.events (handler : MetaIoHandler P) : Invoked M → List (Event P M)
  | request content metadata => (handler.handleRequest L.json content metadata).invoked
  | call rpcRequest metadata => (handler.handleRpcRequest rpcRequest metadata).invoked

end Service

end JsonRpc.Http
