import JsonRpc.Core.Types

/-!
# The wire format of requests

A request that is written and read again comes back. The types are untagged, so
the proof shows for every variant that no earlier variant reads its tree: a
notification lacks the id of a method call, an invalid call lacks the method,
and a batch of objects is not read as a struct by position, because its first
element is not a version.
-/

namespace JsonRpc

/-! ## Fields that are found -/

/-- A sequence has no entry for a name that is not one of its fields. -/
theorem Fields.find_zip_of_notMem {name : String} {names : List String} (h : name ∉ names)
    (elems : List Content) (positional : Bool) :
    Fields.find ⟨names.zip elems, positional⟩ name = [] := by
  rw [Fields.find, List.map_eq_nil_iff, List.filter_eq_nil_iff]
  rintro ⟨key, c⟩ hmem
  have hkey : key ∈ names := (List.of_mem_zip hmem).1
  rw [beq_iff_eq]
  rintro rfl
  exact h hkey

/-- The first field of a sequence is its first element. -/
theorem Fields.find_zip_cons {name : String} {names : List String} (h : name ∉ names)
    (c : Content) (elems : List Content) (positional : Bool) :
    Fields.find ⟨(name :: names).zip (c :: elems), positional⟩ name = [c] := by
  have htail := Fields.find_zip_of_notMem h elems positional
  simp only [Fields.find, List.zip_cons_cons, List.filter_cons, beq_self_eq_true, if_true,
    List.map_cons, List.cons.injEq, true_and] at htail ⊢
  exact htail

/-- A sequence of objects has no version as its first field. -/
theorem Fields.read_jsonrpc_seq {names : List String} (h : "jsonrpc" ∉ names)
    {elems : List Content} (helems : ∀ c ∈ elems, ∃ entries, c = .map entries) :
    Fields.read ⟨("jsonrpc" :: names).zip elems, true⟩ jsonrpcField = none := by
  cases elems with
  | nil => rfl
  | cons c elems =>
    obtain ⟨entries, rfl⟩ := helems c List.mem_cons_self
    have hfind := Fields.find_zip_cons h (.map entries) elems true
    rw [Fields.read, show jsonrpcField.name = "jsonrpc" from rfl, hfind]
    rfl

/-- A struct that starts with a version is not read from a sequence of objects. -/
theorem Content.bind_toStruct_seq {α : Type} {names : List String} (h : "jsonrpc" ∉ names)
    {elems : List Content} (helems : ∀ c ∈ elems, ∃ entries, c = .map entries)
    (f : Fields → Option Version → Option α) :
    (do let fields ← (Content.seq elems).toStruct ("jsonrpc" :: names)
        let jsonrpc ← fields.read jsonrpcField
        f fields jsonrpc) = none := by
  rw [Content.toStruct]
  split
  · rw [Option.bind_eq_bind, Option.bind_some, Fields.read_jsonrpc_seq h helems]
    rfl
  · rfl

/-- A sequence of objects is not a single call. -/
theorem Call.deserialize_seq {elems : List Content}
    (helems : ∀ c ∈ elems, ∃ entries, c = .map entries) : Call.deserialize (.seq elems) = none := by
  have hcall : MethodCall.deserialize (.seq elems) = none :=
    Content.bind_toStruct_seq (by decide) helems _
  have hnotification : Notification.deserialize (.seq elems) = none :=
    Content.bind_toStruct_seq (by decide) helems _
  rw [Call.deserialize, hcall, hnotification]
  rfl

/-! ## Reading what was written -/

@[simp] theorem Id.deserialize_serialize (id : Id) : Id.deserialize id.serialize = some id := by
  cases id <;> rfl

@[simp] theorem Params.deserialize_serialize (params : Params) :
    Params.deserialize params.serialize = some params := by
  cases params with
  | none => rfl
  | array values =>
    simp only [serialize, deserialize, List.map_map, Function.comp_def,
      Value.deserialize_serialize, List.map_id']
  | map values => simp only [serialize, Map.serialize, deserialize, Map.deserialize_entries]

@[simp] theorem jsonrpcField_deserialize (jsonrpc : Option Version) :
    jsonrpcField.deserialize (serializeOption Version.serialize jsonrpc) = some jsonrpc := by
  rcases jsonrpc with - | ⟨⟨⟩⟩ <;> rfl

/-- A written method call is read back. -/
theorem MethodCall.deserialize_serialize (m : MethodCall) :
    MethodCall.deserialize m.serialize = some m := by
  rw [MethodCall.deserialize_eq_some_iff]
  exact ⟨_, rfl, jsonrpcField_deserialize m.jsonrpc, rfl, Params.deserialize_serialize m.params,
    Id.deserialize_serialize m.id⟩

/-- A written notification is read back. -/
theorem Notification.deserialize_serialize (n : Notification) :
    Notification.deserialize n.serialize = some n := by
  rw [Notification.deserialize_eq_some_iff]
  exact ⟨_, rfl, jsonrpcField_deserialize n.jsonrpc, rfl, Params.deserialize_serialize n.params⟩

/-- A written notification is not a method call: it has no id. -/
theorem MethodCall.deserialize_notification (n : Notification) :
    MethodCall.deserialize n.serialize = none := by
  have hfields : MethodCall.deserialize n.serialize = (do
      let _ ← jsonrpcField.deserialize (serializeOption Version.serialize n.jsonrpc)
      let _ ← Params.deserialize n.params.serialize
      none) := rfl
  rw [hfields, jsonrpcField_deserialize, Params.deserialize_serialize]
  rfl

/-- A written call is read back. -/
theorem Call.deserialize_serialize (call : Call) : Call.deserialize call.serialize = some call := by
  cases call with
  | methodCall m =>
    rw [Call.deserialize, Call.serialize, MethodCall.deserialize_serialize]
    rfl
  | notification n =>
    rw [Call.deserialize, Call.serialize, MethodCall.deserialize_notification,
      Notification.deserialize_serialize]
    rfl
  | invalid id =>
    have hcall : MethodCall.deserialize (Call.invalid id).serialize = none := rfl
    have hnotification : Notification.deserialize (Call.invalid id).serialize = none := rfl
    have hinvalid : Call.deserializeInvalid (Call.invalid id).serialize =
        Id.deserialize id.serialize := rfl
    rw [Call.deserialize, hcall, hnotification, hinvalid, Id.deserialize_serialize]
    rfl

/-- Every call is written as an object. -/
theorem Call.exists_serialize_eq_map (call : Call) : ∃ entries, call.serialize = .map entries := by
  cases call <;> exact ⟨_, rfl⟩

/-- A written request is read back from its tree. -/
theorem Request.deserialize_serialize (q : Request) : Request.deserialize q.serialize = some q := by
  cases q with
  | single call =>
    rw [Request.deserialize, Request.serialize, Call.deserialize_serialize]
    rfl
  | batch calls =>
    have hsingle : Call.deserialize (.seq (calls.map Call.serialize)) = none := by
      refine Call.deserialize_seq (List.forall_mem_map.mpr ?_)
      intro call _
      exact call.exists_serialize_eq_map
    have hcalls : (calls.map Call.serialize).mapM Call.deserialize = some calls :=
      mapM_map fun call _ => call.deserialize_serialize
    rw [Request.deserialize, Request.serialize, hsingle, deserializeVec, hcalls]
    rfl

/-! ## Texts -/

section Text

variable (json : SerdeJson)

/-- The text of a request. -/
def Request.toString (q : Request) : String := json.toString q.serialize

/-- The request of a text. -/
def Request.fromStr (s : String) : Option Request := (json.fromStr s).bind Request.deserialize

/-- **Request wire round trip.** If the tree of a request survives the JSON text,
then reading the text of the request returns exactly the request. -/
theorem Request.fromStr_toString (q : Request)
    (hjson : json.fromStr (json.toString q.serialize) = some q.serialize) :
    Request.fromStr json (q.toString json) = some q := by
  rw [Request.fromStr, Request.toString, hjson, Option.bind_some, Request.deserialize_serialize]

end Text

/-- A batch of one call of each kind. -/
def sampleBatch : Request :=
  .batch [.methodCall ⟨some .v2, "add", .array [⟨.number (.posInt 1), rfl⟩], .num 7⟩,
    .notification ⟨none, "log", .none⟩, .invalid (.str "x")]

/-- The text of the sample batch. -/
def sampleText : String :=
  "[\x7b\"jsonrpc\":\"2.0\",\"method\":\"add\",\"params\":[1],\"id\":7\x7d," ++
    "\x7b\"jsonrpc\":null,\"method\":\"log\",\"params\":null\x7d,\x7b\"id\":\"x\"\x7d]"

/-- The JSON library on the sample batch and its text. -/
def sampleJson : SerdeJson where
  toString c := if c = sampleBatch.serialize then sampleText else ""
  fromStr s := if s = sampleText then some sampleBatch.serialize else none

/-- The text of the sample batch is parsed to the tree it was written from, and
read as the batch. -/
theorem Request.fromStr_toString_sampleBatch :
    sampleJson.fromStr (sampleJson.toString sampleBatch.serialize) =
      some sampleBatch.serialize ∧
    Request.fromStr sampleJson (sampleBatch.toString sampleJson) = some sampleBatch := by
  have hjson : sampleJson.fromStr (sampleJson.toString sampleBatch.serialize) =
      some sampleBatch.serialize := by
    simp only [sampleJson, if_true]
  exact ⟨hjson, Request.fromStr_toString sampleJson sampleBatch hjson⟩

end JsonRpc
