import JsonRpc.Core.RequestWire

/-!
# Building requests and parsing responses

The two ends of the client's wire. The request builder numbers the requests one
after another. A string from the server is parsed as the output of a call or as
a notification, and in the second case as a message of a subscription if its
parameters name one.
-/

namespace JsonRpc

/-- The errors of the client. -/
inductive RpcError where
  /-- An error returned by the server. -/
  | jsonRpcError (error : Error)
  /-- A response that could not be parsed. -/
  | parseError
  /-- A general error of the client. -/
  | client (message : String)
  deriving DecidableEq

/-- The result of an operation of the client. -/
abbrev RpcResult (α : Type) := Except RpcError α

/-- What a poll answers. -/
inductive Poll (α : Type) where
  | pending
  | ready (a : α)
  deriving DecidableEq

/-- A poll has an answer. -/
def Poll.isReady {α : Type} : Poll α → Bool
  | .pending => false
  | .ready _ => true

/-! ## Subscription ids -/

/-- The id of a subscription. -/
inductive SubscriptionId where
  | number (n : UInt64)
  | string (s : String)
  deriving DecidableEq

def SubscriptionId.parseValue (v : Value) : Option SubscriptionId :=
  match v.content with
  | .str s => some (.string s)
  | .number (.posInt n) => some (.number n)
  | _ => none

def SubscriptionId.toValue : SubscriptionId → Value
  | .number n => ⟨.number (.posInt n), rfl⟩
  | .string s => ⟨.str s, rfl⟩

/-! ## Requests -/

/-- The builder of requests. -/
structure RequestBuilder where
  /-- The next id. -/
  id : UInt64
  deriving DecidableEq

namespace RequestBuilder

def new : RequestBuilder := ⟨0⟩

def nextId (b : RequestBuilder) : Id × RequestBuilder := (.num b.id, ⟨b.id + 1⟩)

/-- The call of a single request, with the next id. -/
def singleRequest (b : RequestBuilder) (method : String) (params : Params) :
    MethodCall × RequestBuilder :=
  let (id, b) := b.nextId
  ({ jsonrpc := some .v2, method, params, id }, b)

def callRequest (b : RequestBuilder) (method : String) (params : Params) :
    MethodCall × RequestBuilder :=
  b.singleRequest method params

def subscribeRequest (b : RequestBuilder) (subscribe : String) (subscribeParams : Params) :
    MethodCall × RequestBuilder :=
  b.singleRequest subscribe subscribeParams

def unsubscribeRequest (b : RequestBuilder) (unsubscribe : String) (sid : SubscriptionId) :
    MethodCall × RequestBuilder :=
  b.singleRequest unsubscribe (.array [sid.toValue])

/-- The request of a notification. It takes no id. -/
def notification (method : String) (params : Params) : Request :=
  .single (.notification { jsonrpc := some .v2, method, params })

end RequestBuilder

/-- The text of a single method call. -/
def MethodCall.text (json : SerdeJson) (call : MethodCall) : String :=
  (Request.single (.methodCall call)).toString json

/-! ## Responses -/

/-- The value of a key. -/
def Map.get (m : Map) (key : String) : Option Value :=
  match h : m.entries.find? fun e => e.1 == key with
  | some e =>
    some ⟨e.2, (Content.isCanonical_map.mp m.isCanonical).2 e (List.mem_of_find?_eq_some h)⟩
  | none => none

/-- Parameters as a value. -/
def Params.toValue : Params → Value
  | .none => .null
  | .array values =>
    ⟨.seq (values.map Value.content), Content.isCanonical_seq.mpr
      (List.forall_mem_map.mpr fun v _ => v.isCanonical)⟩
  | .map values => ⟨.map values.entries, values.isCanonical⟩

/-- What the server sends to the client. -/
inductive ClientResponse where
  /-- The output of a call. -/
  | output (output : Output)
  /-- A notification. -/
  | notification (notification : Notification)
  deriving DecidableEq

def ClientResponse.deserialize (c : Content) : Option ClientResponse :=
  (Output.deserialize c).map .output <|> (Notification.deserialize c).map .notification

def ClientResponse.id : ClientResponse → Option Id
  | .output o => some o.id
  | .notification _ => none

def ClientResponse.method : ClientResponse → Option String
  | .notification n => some n.method
  | .output _ => none

def ClientResponse.subscriptionId : ClientResponse → Option SubscriptionId
  | .notification n =>
    match n.params with
    | .map m => (m.get "subscription").bind SubscriptionId.parseValue
    | _ => none
  | .output _ => none

/-- The result in a response: of a call, or in the parameters of a notification
of a subscription. -/
def ClientResponse.toResult : ClientResponse → Except Error Value
  | .output o => o.toResult
  | .notification n =>
    match n.params with
    | .map m =>
      match m.get "subscription", m.get "result", m.get "error" with
      | some _, some result, _ => .ok result
      | some _, _, some error =>
        .error ((Error.deserialize error.content).getD (.new .parseError))
      | _, _, _ => .ok n.params.toValue
    | _ => .ok n.params.toValue

/-- A parsed message from the server. -/
structure Message where
  /-- The id of the call it answers. -/
  id : Id
  /-- The result. -/
  result : RpcResult Value
  /-- The method of a notification. -/
  method : Option String
  /-- The subscription of a notification. -/
  sid : Option SubscriptionId
  deriving DecidableEq

/-- The message of a response. -/
def ClientResponse.toMessage (response : ClientResponse) : Message where
  id := response.id.getD .null
  result := response.toResult.mapError .jsonRpcError
  method := response.method
  sid := response.subscriptionId

/-- Parse a string from the server. -/
def parseResponse (json : SerdeJson) (response : String) : RpcResult Message :=
  match (json.fromStr response).bind ClientResponse.deserialize with
  | some response => .ok response.toMessage
  | none => .error .parseError

/-- Only notifications have a method, and those have no id. -/
theorem method_eq_none_of_parseResponse {json : SerdeJson} {response : String} {m : Message}
    (h : parseResponse json response = .ok m) (hid : m.id ≠ .null) : m.method = none := by
  unfold parseResponse at h
  split at h
  · rename_i r _
    obtain rfl := Except.ok.inj h
    cases r with
    | output o => rfl
    | notification n => exact absurd rfl hid
  · cases h

end JsonRpc
