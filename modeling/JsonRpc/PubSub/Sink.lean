import JsonRpc.Client.Transport
import JsonRpc.Core.ResponseWire

/-!
# What the server sends

The server writes responses and the notifications of subscriptions. The client
parses both with a type of its own, which has no counterpart on the side of the
server. What it reads is what was written, up to the two things that the wire does
not keep of an error.
-/

namespace JsonRpc

/-! ## Notifications of subscriptions -/

/-- The value that a type is written as. -/
def toValue {T : Type} (serialize : T → Content) (v : T) : Value := .deserialize (serialize v)

/-- A map that is collected from its entries. -/
def Map.collect (entries : List (String × Value)) : Map :=
  .deserialize (entries.map fun entry => (entry.1, entry.2.serialize))

namespace PubSub

/-- A handle to send notifications to a client. -/
structure Sink where
  /-- The method name of the notifications. -/
  notification : String
  deriving DecidableEq

/-- The notification with some parameters. -/
def Sink.paramsToNotification (sink : Sink) (val : Params) : Notification :=
  { jsonrpc := some .v2, method := sink.notification, params := val }

/-- The text that is sent to the client. -/
def Sink.notify (json : SerdeJson) (sink : Sink) (val : Params) : String :=
  json.toString (sink.paramsToNotification val).serialize

/-- A sink for results of a subscription. -/
structure TypedSink where
  sink : Sink
  /-- The id of the subscription. -/
  id : SubscriptionId
  deriving DecidableEq

section Typed

variable {T E : Type} (serializeT : T → Content) (serializeE : E → Content)

/-- The parameters of the notification of a result. -/
def TypedSink.valToParams (sink : TypedSink) (val : Except E T) : Params :=
  .map (.collect [("subscription", sink.id.toValue),
    match val with
    | .ok val => ("result", toValue serializeT val)
    | .error err => ("error", toValue serializeE err)])

/-- The text that is sent to the client for a result. -/
def TypedSink.notify (json : SerdeJson) (sink : TypedSink) (val : Except E T) : String :=
  sink.sink.notify json (sink.valToParams serializeT serializeE val)

end Typed

end PubSub

/-! ## Reading what was sent -/

/-- An id of a subscription is read back from its value. -/
@[simp] theorem SubscriptionId.parseValue_toValue (id : SubscriptionId) :
    parseValue id.toValue = some id := by
  cases id <;> rfl

/-- A written notification is not an output: it has a method. -/
theorem Output.deserialize_notification (n : Notification) :
    Output.deserialize n.serialize = none := rfl

/-- The client reads a written output as an output. -/
theorem ClientResponse.deserialize_output (o : Output) :
    ClientResponse.deserialize o.serialize = some (.output o.norm) := by
  rw [ClientResponse.deserialize, Output.deserialize_serialize]
  rfl

/-- The client reads a written notification as a notification. -/
theorem ClientResponse.deserialize_notification (n : Notification) :
    ClientResponse.deserialize n.serialize = some (.notification n) := by
  rw [ClientResponse.deserialize, Output.deserialize_notification,
    Notification.deserialize_serialize]
  rfl

/-- The value of a key is the one in its entry. -/
theorem Map.get_eq_some {m : Map} {key : String} {v : Value}
    (h : m.entries.find? (fun entry => entry.1 == key) = some (key, v.content)) :
    m.get key = some v := by
  unfold Map.get
  split
  · rename_i entry hentry
    rw [h] at hentry
    cases hentry
    rfl
  · rename_i hentry
    rw [h] at hentry
    cases hentry

/-- A key without an entry has no value. -/
theorem Map.get_eq_none {m : Map} {key : String}
    (h : m.entries.find? (fun entry => entry.1 == key) = none) : m.get key = none := by
  unfold Map.get
  split
  · rename_i entry hentry
    rw [h] at hentry
    cases hentry
  · rfl

/-- The entries of the parameters of a notification, in the order of their keys. -/
theorem Map.entries_collect {key : String} (hkey : key < "subscription") (id v : Value) :
    (Map.collect [("subscription", id), (key, v)]).entries =
      [(key, v.content), ("subscription", id.content)] := by
  have hid := Content.normalize_of_isCanonical id.isCanonical
  have hv := Content.normalize_of_isCanonical v.isCanonical
  simp [Map.collect, Map.deserialize, Content.normalizeMap_eq_map, SortedMap.ofList,
    SortedMap.insert, Value.serialize, hid, hv, hkey]

/-- The parameters of a notification name the subscription. -/
theorem Map.get_collect_subscription {key : String} (hkey : key < "subscription")
    (id v : Value) :
    (Map.collect [("subscription", id), (key, v)]).get "subscription" = some id := by
  apply Map.get_eq_some
  simp [Map.entries_collect hkey, hkey.ne]

/-- The parameters of a notification hold the value. -/
theorem Map.get_collect_value {key : String} (hkey : key < "subscription")
    (id v : Value) : (Map.collect [("subscription", id), (key, v)]).get key = some v := by
  apply Map.get_eq_some
  simp [Map.entries_collect hkey]

/-- The parameters of a notification hold nothing else. -/
theorem Map.get_collect_of_ne {key other : String} (hkey : key < "subscription")
    (hother : other ≠ key) (hne : other ≠ "subscription") (id v : Value) :
    (Map.collect [("subscription", id), (key, v)]).get other = none := by
  apply Map.get_eq_none
  simp [Map.entries_collect hkey, hother.symm, hne.symm]

/-- An error is read back from its value up to its code and `null` data. -/
theorem Error.deserialize_toValue (e : Error) :
    Error.deserialize (toValue Error.serialize e).content = some e.norm := by
  obtain ⟨code, message, data⟩ := e
  have hcode : code.serialize.normalize = code.serialize := by
    unfold ErrorCode.serialize serializeI64
    split <;> rfl
  -- The keys of the value are sorted.
  have hmessage : ¬ "message" < "code" := by decide
  have hdata : ¬ "data" < "code" := by decide
  have hbefore : "data" < "message" := by decide
  cases data with
  | none =>
    have hcontent : (toValue Error.serialize ⟨code, message, none⟩).content =
        .map [("code", code.serialize), ("message", .str message)] := by
      simp [toValue, Value.deserialize, Error.serialize, skipNone, Content.normalize,
        Content.normalizeMap_eq_map, SortedMap.ofList, SortedMap.insert, hcode,
        hmessage]
    rw [hcontent, ← Error.deserialize_serialize]
    rfl
  | some v =>
    have hv := Content.normalize_of_isCanonical v.isCanonical
    have hcontent : (toValue Error.serialize ⟨code, message, some v⟩).content =
        .map [("code", code.serialize), ("data", v.serialize), ("message", .str message)] := by
      simp [toValue, Value.deserialize, Error.serialize, skipNone, Content.normalize,
        Content.normalizeMap_eq_map, SortedMap.ofList, SortedMap.insert, hcode,
        Value.serialize, hv, hmessage, hdata, hbefore]
    rw [hcontent, ← Error.deserialize_serialize]
    rfl

/-- The message that the client makes of a notification of a subscription. -/
theorem PubSub.TypedSink.toMessage_notification (sink : TypedSink) (val : Except Error Value) :
    (ClientResponse.notification (sink.sink.paramsToNotification
      (sink.valToParams Value.serialize Error.serialize val))).toMessage =
      { id := .null
        result := (val.mapError Error.norm).mapError .jsonRpcError
        method := some sink.sink.notification
        sid := some sink.id } := by
  cases val with
  | ok v =>
    have hkey : "result" < "subscription" := by decide
    simp [ClientResponse.toMessage, ClientResponse.id, ClientResponse.toResult,
      ClientResponse.method, ClientResponse.subscriptionId, Sink.paramsToNotification,
      TypedSink.valToParams, Map.get_collect_subscription hkey, Map.get_collect_value hkey,
      toValue]
    rfl
  | error e =>
    have hkey : "error" < "subscription" := by decide
    have hresult := Map.get_collect_of_ne hkey (by decide : "result" ≠ "error") (by decide)
      sink.id.toValue (toValue Error.serialize e)
    simp [ClientResponse.toMessage, ClientResponse.id, ClientResponse.toResult,
      ClientResponse.method, ClientResponse.subscriptionId, Sink.paramsToNotification,
      TypedSink.valToParams, Map.get_collect_subscription hkey, Map.get_collect_value hkey,
      hresult, Error.deserialize_toValue]
    rfl

/-! ## Agreement of the two sides -/

/-- The text of a tree is not empty and is parsed to the tree. -/
def SerdeJson.RoundTrips (json : SerdeJson) (c : Content) : Prop :=
  json.toString c ≠ "" ∧ json.fromStr (json.toString c) = some c

/-- **Agreement on the wire from the server to the client.** If the tree that is sent
survives the JSON text, then a response is read back up to the norm of its errors, and
the client parses an output as the answer to its call, and the notification of a result
as a result of its subscription. -/
theorem serverWire_agrees (json : SerdeJson) :
    (∀ r : Response, json.RoundTrips r.serialize →
      Response.fromJson json (json.toString r.serialize) = some r.norm) ∧
    (∀ o : Output, json.RoundTrips o.serialize →
      parseResponse json (json.toString o.serialize) =
        .ok ⟨o.id, (o.toResult.mapError Error.norm).mapError .jsonRpcError, none, none⟩) ∧
    (∀ (sink : PubSub.TypedSink) (val : Except Error Value),
      json.RoundTrips (sink.sink.paramsToNotification
        (sink.valToParams Value.serialize Error.serialize val)).serialize →
      parseResponse json (sink.notify Value.serialize Error.serialize json val) =
        .ok ⟨.null, (val.mapError Error.norm).mapError .jsonRpcError,
          some sink.sink.notification, some sink.id⟩) ∧
    ∀ e : Error, (∀ code, e.code = .serverError code →
        code ∉ [-32700, -32600, -32601, -32602, -32603]) → e.data ≠ some .null → e.norm = e := by
  refine ⟨fun r hjson => ?_, fun o hjson => ?_, fun sink val hjson => ?_,
    fun e => Error.norm_eq_self⟩
  · have hempty : ¬ (json.toString r.serialize).isEmpty := by
      simpa using hjson.1
    rw [Response.fromJson, if_neg hempty, hjson.2, Option.bind_some,
      Response.deserialize_serialize]
  · rw [parseResponse, hjson.2, Option.bind_some, ClientResponse.deserialize_output]
    simp only [ClientResponse.toMessage, ClientResponse.id, Option.getD_some, Output.id_norm,
      ClientResponse.toResult, Output.toResult_norm, ClientResponse.method,
      ClientResponse.subscriptionId]
  · rw [parseResponse, PubSub.TypedSink.notify, PubSub.Sink.notify, hjson.2, Option.bind_some,
      ClientResponse.deserialize_notification]
    simp only [PubSub.TypedSink.toMessage_notification]

/-- An output with a reserved code of a server error and `null` data. -/
def reservedOutput : Output :=
  .failure ⟨some .v2, ⟨.serverError (-32601), "no", some .null⟩, .num 1⟩

/-- A sink for a subscription. -/
def tickSink : PubSub.TypedSink := ⟨⟨"tick"⟩, .string "a"⟩

/-- The JSON library on the output, on a batch of it and on a notification. -/
def serverJson : SerdeJson :=
  let output := "\x7b\"jsonrpc\":\"2.0\",\"error\":\x7b\"code\":-32601,\"message\":\"no\"," ++
    "\"data\":null\x7d,\"id\":1\x7d"
  .ofTable
    [(reservedOutput.serialize, output),
      ((Response.batch [reservedOutput]).serialize, "[" ++ output ++ "]"),
      ((tickSink.sink.paramsToNotification (tickSink.valToParams Value.serialize Error.serialize
          (.ok (.bool true)))).serialize,
        "\x7b\"jsonrpc\":\"2.0\",\"method\":\"tick\",\"params\":" ++
          "\x7b\"result\":true,\"subscription\":\"a\"\x7d\x7d")]

/-- The code is read as the one it stands for, and the data is lost. -/
theorem serverWire_agrees_reservedOutput :
    Response.fromJson serverJson (serverJson.toString (Response.batch [reservedOutput]).serialize) =
      some (.batch [.failure ⟨some .v2, ⟨.methodNotFound, "no", none⟩, .num 1⟩]) ∧
    parseResponse serverJson (serverJson.toString reservedOutput.serialize) =
      .ok ⟨.num 1, .error (.jsonRpcError ⟨.methodNotFound, "no", none⟩), none, none⟩ ∧
    parseResponse serverJson (tickSink.notify Value.serialize Error.serialize serverJson
      (.ok (.bool true))) = .ok ⟨.null, .ok (.bool true), some "tick", some (.string "a")⟩ ∧
    Error.methodNotFound.norm = .methodNotFound := by
  obtain ⟨hresponse, houtput, hnotify, hnorm⟩ := serverWire_agrees serverJson
  refine ⟨?_, ?_, ?_, hnorm _ nofun (by decide)⟩
  · rw [hresponse _ ⟨by decide, by decide⟩]
    decide
  · rw [houtput _ ⟨by decide, by decide⟩]
    decide
  · exact hnotify tickSink _ ⟨by decide, by decide⟩

end JsonRpc
