import JsonRpc.Serde.Derive

/-!
# Requests and responses

The types of the protocol with the trees they are written as and the trees they
are read from. The untagged types try their variants in the order of their
declaration and take the first one that can be read.
-/

namespace JsonRpc

/-! ## Version, id and parameters -/

/-- The protocol version. -/
inductive Version where
  /-- JSON-RPC 2.0. -/
  | v2
  deriving DecidableEq

def Version.serialize : Version → Content
  | .v2 => .str "2.0"

def Version.deserialize : Content → Option Version
  | .str s => if s = "2.0" then some .v2 else none
  | _ => none

/-- The id of a request. -/
inductive Id where
  /-- No id. -/
  | null
  /-- A numeric id. -/
  | num (n : UInt64)
  /-- A string id. -/
  | str (s : String)
  deriving DecidableEq

def Id.serialize : Id → Content
  | .null => .null
  | .num n => .number (.posInt n)
  | .str s => .str s

def Id.deserialize : Content → Option Id
  | .null => some .null
  | .number (.posInt n) => some (.num n)
  | .str s => some (.str s)
  | _ => none

/-- The parameters of a request. -/
inductive Params where
  /-- No parameters. -/
  | none
  /-- An array of values. -/
  | array (values : List Value)
  /-- A map of values. -/
  | map (values : Map)
  deriving DecidableEq

def Params.serialize : Params → Content
  | .none => .null
  | .array values => .seq (values.map Value.serialize)
  | .map values => values.serialize

def Params.deserialize : Content → Option Params
  | .null => some .none
  | .seq elems => some (.array (elems.map Value.deserialize))
  | .map entries => some (.map (Map.deserialize entries))
  | _ => .none

/-! ## Requests -/

def jsonrpcField : Field (Option Version) := .optional "jsonrpc" Version.deserialize

def methodField : Field String := .required "method" deserializeString

def paramsField : Field Params := .withDefault "params" Params.deserialize .none

def idField : Field Id := .required "id" Id.deserialize

/-- A request which is a method call. -/
structure MethodCall where
  /-- The version of the protocol. -/
  jsonrpc : Option Version
  /-- The name of the method. -/
  method : String
  /-- The parameters. -/
  params : Params
  /-- The id of the call. -/
  id : Id
  deriving DecidableEq

def MethodCall.serialize (m : MethodCall) : Content :=
  .map [("jsonrpc", serializeOption Version.serialize m.jsonrpc), ("method", .str m.method),
    ("params", m.params.serialize), ("id", m.id.serialize)]

def MethodCall.deserialize (c : Content) : Option MethodCall := do
  let fields ← c.toStruct ["jsonrpc", "method", "params", "id"]
  let jsonrpc ← fields.read jsonrpcField
  let method ← fields.read methodField
  let params ← fields.read paramsField
  let id ← fields.read idField
  return { jsonrpc, method, params, id }

theorem MethodCall.deserialize_eq_some_iff {c : Content} {m : MethodCall} :
    MethodCall.deserialize c = some m ↔
      ∃ fields, c.toStruct ["jsonrpc", "method", "params", "id"] = some fields ∧
        fields.read jsonrpcField = some m.jsonrpc ∧ fields.read methodField = some m.method ∧
        fields.read paramsField = some m.params ∧ fields.read idField = some m.id := by
  constructor
  · intro h
    obtain ⟨fields, hfields, h⟩ := Option.bind_eq_some_iff.mp h
    obtain ⟨jsonrpc, hjsonrpc, h⟩ := Option.bind_eq_some_iff.mp h
    obtain ⟨method, hmethod, h⟩ := Option.bind_eq_some_iff.mp h
    obtain ⟨params, hparams, h⟩ := Option.bind_eq_some_iff.mp h
    obtain ⟨id, hid, h⟩ := Option.bind_eq_some_iff.mp h
    obtain rfl := Option.some.inj h
    exact ⟨fields, hfields, hjsonrpc, hmethod, hparams, hid⟩
  · rintro ⟨fields, hfields, hjsonrpc, hmethod, hparams, hid⟩
    simp only [MethodCall.deserialize, hfields, hjsonrpc, hmethod, hparams, hid,
      Option.bind_eq_bind, Option.bind_some]
    rfl

/-- A request which is a notification. -/
structure Notification where
  /-- The version of the protocol. -/
  jsonrpc : Option Version
  /-- The name of the method. -/
  method : String
  /-- The parameters. -/
  params : Params
  deriving DecidableEq

def Notification.serialize (n : Notification) : Content :=
  .map [("jsonrpc", serializeOption Version.serialize n.jsonrpc), ("method", .str n.method),
    ("params", n.params.serialize)]

def Notification.deserialize (c : Content) : Option Notification := do
  let fields ← c.toStruct ["jsonrpc", "method", "params"]
  let jsonrpc ← fields.read jsonrpcField
  let method ← fields.read methodField
  let params ← fields.read paramsField
  return { jsonrpc, method, params }

theorem Notification.deserialize_eq_some_iff {c : Content} {n : Notification} :
    Notification.deserialize c = some n ↔
      ∃ fields, c.toStruct ["jsonrpc", "method", "params"] = some fields ∧
        fields.read jsonrpcField = some n.jsonrpc ∧ fields.read methodField = some n.method ∧
        fields.read paramsField = some n.params := by
  constructor
  · intro h
    obtain ⟨fields, hfields, h⟩ := Option.bind_eq_some_iff.mp h
    obtain ⟨jsonrpc, hjsonrpc, h⟩ := Option.bind_eq_some_iff.mp h
    obtain ⟨method, hmethod, h⟩ := Option.bind_eq_some_iff.mp h
    obtain ⟨params, hparams, h⟩ := Option.bind_eq_some_iff.mp h
    obtain rfl := Option.some.inj h
    exact ⟨fields, hfields, hjsonrpc, hmethod, hparams⟩
  · rintro ⟨fields, hfields, hjsonrpc, hmethod, hparams⟩
    simp only [Notification.deserialize, hfields, hjsonrpc, hmethod, hparams,
      Option.bind_eq_bind, Option.bind_some]
    rfl

/-- A single call. -/
inductive Call where
  /-- A method call. -/
  | methodCall (call : MethodCall)
  /-- A notification. -/
  | notification (notification : Notification)
  /-- An invalid call, with its id if that is known. -/
  | invalid (id : Id)
  deriving DecidableEq

def Call.serialize : Call → Content
  | .methodCall m => m.serialize
  | .notification n => n.serialize
  | .invalid id => .map [("id", id.serialize)]

/-- The id of an invalid call: the only field that is looked at. -/
def Call.deserializeInvalid (c : Content) : Option Id := do
  let fields ← c.toVariant
  fields.read (.withDefault "id" Id.deserialize .null)

def Call.deserialize (c : Content) : Option Call :=
  (MethodCall.deserialize c).map .methodCall <|>
    (Notification.deserialize c).map .notification <|>
    (Call.deserializeInvalid c).map .invalid

/-- A request. -/
inductive Request where
  /-- A single call. -/
  | single (call : Call)
  /-- A batch of calls. -/
  | batch (calls : List Call)
  deriving DecidableEq

def Request.serialize : Request → Content
  | .single call => call.serialize
  | .batch calls => .seq (calls.map Call.serialize)

def Request.deserialize (c : Content) : Option Request :=
  (Call.deserialize c).map .single <|> (deserializeVec Call.deserialize c).map .batch

/-! ## Errors -/

/-- The code of an error. -/
inductive ErrorCode where
  | parseError
  | invalidRequest
  | methodNotFound
  | invalidParams
  | internalError
  | serverError (code : Int64)
  deriving DecidableEq

namespace ErrorCode

/-- The integer of a code. -/
def code : ErrorCode → Int64
  | parseError => -32700
  | invalidRequest => -32600
  | methodNotFound => -32601
  | invalidParams => -32602
  | internalError => -32603
  | serverError code => code

/-- The readable description of a code. -/
def description : ErrorCode → String
  | parseError => "Parse error"
  | invalidRequest => "Invalid request"
  | methodNotFound => "Method not found"
  | invalidParams => "Invalid params"
  | internalError => "Internal error"
  | serverError _ => "Server error"

/-- The code of an integer. -/
def fromCode (code : Int64) : ErrorCode :=
  if code = -32700 then parseError
  else if code = -32600 then invalidRequest
  else if code = -32601 then methodNotFound
  else if code = -32602 then invalidParams
  else if code = -32603 then internalError
  else serverError code

def serialize (c : ErrorCode) : Content := serializeI64 c.code

def deserialize (c : Content) : Option ErrorCode := (deserializeI64 c).map fromCode

end ErrorCode

/-- An error object. -/
structure Error where
  /-- The code. -/
  code : ErrorCode
  /-- The message. -/
  message : String
  /-- Further data. -/
  data : Option Value
  deriving DecidableEq

namespace Error

/-- The error of a code. -/
def new (code : ErrorCode) : Error := ⟨code, code.description, none⟩

def methodNotFound : Error := new .methodNotFound

def invalidVersion : Error := ⟨.invalidRequest, "Unsupported JSON-RPC protocol version", none⟩

def invalidParams (message : String) : Error := ⟨.invalidParams, message, none⟩

/-- The error for a parameter, with the text of its details. -/
def invalidParamsWithDetails (message details : String) : Error :=
  ⟨.invalidParams, "Invalid parameters: " ++ message, some (.str details)⟩

def serialize (e : Error) : Content :=
  .map ([("code", e.code.serialize), ("message", .str e.message)] ++
    skipNone "data" Value.serialize e.data)

def deserialize (c : Content) : Option Error := do
  let fields ← c.toStruct ["code", "message", "data"]
  let code ← fields.read (.required "code" ErrorCode.deserialize)
  let message ← fields.read (.required "message" deserializeString)
  let data ← fields.read (.optional "data" fun c => some (Value.deserialize c))
  return { code, message, data }

end Error

/-! ## Responses -/

/-- A successful response. -/
structure Success where
  /-- The version of the protocol. -/
  jsonrpc : Option Version
  /-- The result. -/
  result : Value
  /-- The id of the call. -/
  id : Id
  deriving DecidableEq

def Success.serialize (s : Success) : Content :=
  .map (skipNone "jsonrpc" Version.serialize s.jsonrpc ++
    [("result", s.result.serialize), ("id", s.id.serialize)])

def Success.deserialize (c : Content) : Option Success := do
  let fields ← c.toStruct ["jsonrpc", "result", "id"]
  let jsonrpc ← fields.read jsonrpcField
  let result ← fields.read (.required "result" fun c => some (Value.deserialize c))
  let id ← fields.read idField
  return { jsonrpc, result, id }

/-- An unsuccessful response. -/
structure Failure where
  /-- The version of the protocol. -/
  jsonrpc : Option Version
  /-- The error. -/
  error : Error
  /-- The id of the call. -/
  id : Id
  deriving DecidableEq

def Failure.serialize (f : Failure) : Content :=
  .map (skipNone "jsonrpc" Version.serialize f.jsonrpc ++
    [("error", f.error.serialize), ("id", f.id.serialize)])

def Failure.deserialize (c : Content) : Option Failure := do
  let fields ← c.toStruct ["jsonrpc", "error", "id"]
  let jsonrpc ← fields.read jsonrpcField
  let error ← fields.read (.required "error" Error.deserialize)
  let id ← fields.read idField
  return { jsonrpc, error, id }

/-- The output of a call. -/
inductive Output where
  | success (success : Success)
  | failure (failure : Failure)
  deriving DecidableEq

def Output.serialize : Output → Content
  | .success s => s.serialize
  | .failure f => f.serialize

def Output.deserialize (c : Content) : Option Output :=
  (Success.deserialize c).map .success <|> (Failure.deserialize c).map .failure

/-- The output of a result. -/
def Output.from (result : Except Error Value) (id : Id) (jsonrpc : Option Version) : Output :=
  match result with
  | .ok result => .success { jsonrpc, result, id }
  | .error error => .failure { jsonrpc, error, id }

/-- The output of a malformed request. -/
def Output.invalidRequest (id : Id) (jsonrpc : Option Version) : Output :=
  .failure { jsonrpc, error := .new .invalidRequest, id }

/-- The protocol version of an output. -/
def Output.version : Output → Option Version
  | .success s => s.jsonrpc
  | .failure f => f.jsonrpc

/-- The id of an output. -/
def Output.id : Output → Id
  | .success s => s.id
  | .failure f => f.id

/-- The result of an output. -/
def Output.toResult : Output → Except Error Value
  | .success s => .ok s.result
  | .failure f => .error f.error

/-- A response. -/
inductive Response where
  /-- A single output. -/
  | single (output : Output)
  /-- The outputs of a batch. -/
  | batch (outputs : List Output)
  deriving DecidableEq

def Response.serialize : Response → Content
  | .single output => output.serialize
  | .batch outputs => .seq (outputs.map Output.serialize)

def Response.deserialize (c : Content) : Option Response :=
  (Output.deserialize c).map .single <|> (deserializeVec Output.deserialize c).map .batch

/-- The response of an error that belongs to no call. -/
def Response.from (error : Error) (jsonrpc : Option Version) : Response :=
  .single (.failure { jsonrpc, error, id := .null })

end JsonRpc
