import JsonRpc.Core.Dispatch

/-!
# Batches and their members

When the methods are functions of their parameters, one expects the response to
a batch to be the batch of the responses to its members. This holds exactly when
the id of every member can be read. A batch is read as one vector of calls, and
a member whose id is of a wrong type, or occurs twice, is not even an invalid
call. It fails the whole vector, and the batch is answered by a single error.
-/

namespace JsonRpc

/-! ## Objects that are calls -/

/-- The entries of an object for its id. -/
def idEntries (entries : List (String × Content)) : List Content :=
  (entries.filter fun e => e.1 == "id").map Prod.snd

/-- The object has no id, or one id that is `null`, an unsigned integer or a
string. -/
def HasReadableId (entries : List (String × Content)) : Prop :=
  (idEntries entries).length ≤ 1 ∧ ∀ c ∈ idEntries entries, (Id.deserialize c).isSome

instance (entries : List (String × Content)) : Decidable (HasReadableId entries) :=
  inferInstanceAs (Decidable (_ ∧ _))

/-- A field of the name `id` that is read makes the id readable. -/
theorem hasReadableId_of_read {entries : List (String × Content)} (field : Field Id)
    (hname : field.name = "id") (hfield : field.deserialize = Id.deserialize)
    (hread : (Fields.read ⟨entries, false⟩ field).isSome) : HasReadableId entries := by
  have hfind : Fields.find ⟨entries, false⟩ field.name = idEntries entries := by
    rw [hname]
    rfl
  unfold HasReadableId
  rw [Fields.read, hfind, hfield] at hread
  cases hids : idEntries entries with
  | nil => simp
  | cons c cs =>
    rw [hids] at hread
    cases cs with
    | nil => simpa using hread
    | cons => simp at hread

/-- A method call is read with its id. -/
theorem hasReadableId_of_methodCall {entries : List (String × Content)} {m : MethodCall}
    (hm : MethodCall.deserialize (.map entries) = some m) : HasReadableId entries := by
  refine hasReadableId_of_read idField rfl rfl ?_
  obtain ⟨fields, hfields, -, -, -, hid⟩ := MethodCall.deserialize_eq_some_iff.mp hm
  obtain ⟨-, rfl⟩ := Content.toStruct_map_eq_some_iff.mp hfields
  rw [hid]
  rfl

/-- A notification has no id. -/
theorem hasReadableId_of_notification {entries : List (String × Content)} {n : Notification}
    (hn : Notification.deserialize (.map entries) = some n) : HasReadableId entries := by
  obtain ⟨fields, hfields, -⟩ := Notification.deserialize_eq_some_iff.mp hn
  obtain ⟨hknown, -⟩ := Content.toStruct_map_eq_some_iff.mp hfields
  have hnil : idEntries entries = [] := by
    rw [idEntries, List.map_eq_nil_iff, List.filter_eq_nil_iff]
    intro e he hid
    have hmem := hknown e he
    rw [beq_iff_eq.mp hid] at hmem
    exact absurd hmem (by decide)
  simp [HasReadableId, hnil]

/-- An object with a readable id is at least an invalid call. -/
theorem isSome_deserializeInvalid {entries : List (String × Content)}
    (hid : HasReadableId entries) : (Call.deserializeInvalid (.map entries)).isSome := by
  obtain ⟨hlen, hids⟩ := hid
  change (Fields.read ⟨entries, false⟩ (.withDefault "id" Id.deserialize .null)).isSome
  have hfind : Fields.find ⟨entries, false⟩ "id" = idEntries entries := rfl
  simp only [Fields.read, Field.withDefault, hfind]
  cases hentries : idEntries entries with
  | nil => rfl
  | cons c cs =>
    rw [hentries] at hlen hids
    cases cs with
    | nil => exact hids c List.mem_cons_self
    | cons => simp at hlen

/-- An object is read as a call exactly when its id can be read. -/
theorem isSome_deserialize_map_iff (entries : List (String × Content)) :
    (Call.deserialize (.map entries)).isSome ↔ HasReadableId entries := by
  rw [Call.deserialize]
  constructor
  · intro hcall
    cases hm : MethodCall.deserialize (.map entries) with
    | some m => exact hasReadableId_of_methodCall hm
    | none =>
      cases hn : Notification.deserialize (.map entries) with
      | some n => exact hasReadableId_of_notification hn
      | none =>
        rw [hm, hn] at hcall
        have hinvalid : (Call.deserializeInvalid (.map entries)).isSome := by simpa using hcall
        exact hasReadableId_of_read (.withDefault "id" Id.deserialize .null) rfl rfl hinvalid
  · intro hid
    have hinvalid := isSome_deserializeInvalid hid
    simp [hinvalid]

/-! ## The batch law -/

section Law

variable {P M : Type} (h : MetaIoHandler P) (json : SerdeJson) (metadata : M)
  (f : Procedure P → Params → Except Error Value)

/-- The response to a text, when the methods are the function `f` of their
parameters. -/
def respond (request : String) : Option Response :=
  (h.handleRequest json request metadata).future.resolve fun _ invocation =>
    f invocation.method invocation.params

/-- The response to a text is the batch of the responses to its members, each
sent alone, without the members that have no response. -/
def IsBatchOfMembers (text : String) (members : List String) : Prop :=
  ∃ outputs : List (Option Output),
    List.Forall₂ (fun member output => respond h json metadata f member = output.map .single)
      members outputs ∧
    respond h json metadata f text = outputsAsBatch outputs

/-- The output of a call, when the methods are the function `f`. -/
def outputOf (call : Call) : Option Output :=
  (h.handleCall call metadata).future.resolve fun invocation =>
    f invocation.method invocation.params

/-- The response to the text of a single call. -/
theorem respond_single {member : String} {entries : List (String × Content)} {call : Call}
    (hmember : json.fromStr member = some (.map entries))
    (hcall : Call.deserialize (.map entries) = some call) :
    respond h json metadata f member = (outputOf h metadata f call).map .single := by
  have hrequest : Request.fromStr json member = some (.single call) := by
    rw [Request.fromStr, hmember, Option.bind_some, Request.deserialize, hcall]
    rfl
  simp only [respond, MetaIoHandler.handleRequest, readRequest, hrequest]
  rfl

/-- The response to the text of a batch of calls. -/
theorem respond_batch {text : String} {objects : List (List (String × Content))}
    {calls : List Call} (htext : json.fromStr text = some (.seq (objects.map .map)))
    (hcalls : (objects.map Content.map).mapM Call.deserialize = some calls) :
    respond h json metadata f text = outputsAsBatch (calls.map (outputOf h metadata f)) := by
  have hsingle : Call.deserialize (.seq (objects.map .map)) = none :=
    Call.deserialize_seq (List.forall_mem_map.mpr fun entries _ => ⟨entries, rfl⟩)
  have hrequest : Request.fromStr json text = some (.batch calls) := by
    rw [Request.fromStr, htext, Option.bind_some, Request.deserialize, hsingle, deserializeVec,
      hcalls]
    rfl
  have houtputs : calls.zipIdx.map (fun call => outputOf h metadata f call.1) =
      calls.map (outputOf h metadata f) := by
    rw [← Function.comp_def (outputOf h metadata f) Prod.fst, ← List.map_map, List.zipIdx_map_fst]
  simp only [respond, MetaIoHandler.handleRequest, readRequest, hrequest, FutureResult.resolve]
  rw [resolve_handleRpcRequest_batch, outputsAsBatch, ← houtputs]
  rfl

/-- A text that is not a request is answered by a single error. -/
theorem respond_parseError {text : String} (hrequest : Request.fromStr json text = none) :
    respond h json metadata f text =
      some (.from (.new .parseError) h.compatibility.defaultVersion) := by
  simp only [respond, MetaIoHandler.handleRequest, readRequest, hrequest, FutureResult.resolve]

/-- One object whose id cannot be read fails the whole batch. -/
theorem fromStr_eq_none {text : String} {objects : List (List (String × Content))}
    (htext : json.fromStr text = some (.seq (objects.map .map)))
    {entries : List (String × Content)} (hmem : entries ∈ objects)
    (hid : ¬ HasReadableId entries) : Request.fromStr json text = none := by
  have hsingle : Call.deserialize (.seq (objects.map .map)) = none :=
    Call.deserialize_seq (List.forall_mem_map.mpr fun entries _ => ⟨entries, rfl⟩)
  have hcall : Call.deserialize (.map entries) = none := by
    rwa [← isSome_deserialize_map_iff, Option.not_isSome_iff_eq_none] at hid
  rw [Request.fromStr, htext, Option.bind_some, Request.deserialize, hsingle, deserializeVec,
    mapM_eq_none (List.mem_map_of_mem hmem) hcall]
  rfl

/-- A batch response is never a single output. -/
theorem outputsAsBatch_ne_single (outputs : List (Option Output)) (output : Output) :
    outputsAsBatch outputs ≠ some (.single output) := by
  simp only [outputsAsBatch]
  split <;> simp

/-- Objects with readable ids are calls. -/
theorem exists_calls {objects : List (List (String × Content))}
    (hids : ∀ entries ∈ objects, HasReadableId entries) :
    ∃ calls, List.Forall₂ (fun entries call => Call.deserialize (.map entries) = some call)
      objects calls := by
  induction objects with
  | nil => exact ⟨[], .nil⟩
  | cons entries objects ih =>
    obtain ⟨hid, hids⟩ := List.forall_mem_cons.mp hids
    obtain ⟨call, hcall⟩ := Option.isSome_iff_exists.mp ((isSome_deserialize_map_iff _).mpr hid)
    obtain ⟨calls, hcalls⟩ := ih hids
    exact ⟨call :: calls, .cons hcall hcalls⟩

/-- The responses to the members are the outputs of their calls. -/
theorem forall₂_respond {members : List String} {objects : List (List (String × Content))}
    {calls : List Call}
    (hmembers : List.Forall₂ (fun member entries => json.fromStr member = some (.map entries))
      members objects)
    (hcalls : List.Forall₂ (fun entries call => Call.deserialize (.map entries) = some call)
      objects calls) :
    List.Forall₂ (fun member output => respond h json metadata f member = output.map .single)
      members (calls.map (outputOf h metadata f)) := by
  induction hmembers generalizing calls with
  | nil =>
    cases hcalls
    exact .nil
  | cons hmember _ ih =>
    cases hcalls with
    | cons hcall hcalls => exact .cons (respond_single h json metadata f hmember hcall) (ih hcalls)

/-- **Batch law.** For the text of an array of objects and the texts of its
elements, the response to the array is the batch of the responses to the
elements if and only if the id of every element can be read. -/
theorem isBatchOfMembers_iff {text : String} {members : List String}
    {objects : List (List (String × Content))}
    (htext : json.fromStr text = some (.seq (objects.map .map)))
    (hmembers : List.Forall₂ (fun member entries => json.fromStr member = some (.map entries))
      members objects) :
    IsBatchOfMembers h json metadata f text members ↔
      ∀ entries ∈ objects, HasReadableId entries := by
  constructor
  · rintro ⟨outputs, -, hresponse⟩ entries hmem
    by_contra hid
    rw [respond_parseError h json metadata f (fromStr_eq_none json htext hmem hid)] at hresponse
    exact outputsAsBatch_ne_single outputs _ hresponse.symm
  · intro hids
    obtain ⟨calls, hcalls⟩ := exists_calls hids
    refine ⟨_, forall₂_respond h json metadata f hmembers hcalls, ?_⟩
    refine respond_batch h json metadata f htext (mapM_eq_some_iff.mpr ?_)
    exact List.forall₂_map_left_iff.mpr hcalls

end Law

/-! ## A member with a fractional id -/

/-- The number 1.5. -/
def oneAndAHalf : FiniteFloat := ⟨0x3FF8000000000000, by decide⟩

/-- A well-formed method call, as an object. -/
def pingObject : List (String × Content) :=
  [("jsonrpc", .str "2.0"), ("method", .str "ping"), ("id", .number (.posInt 1))]

/-- An object with a fractional id. -/
def fractionalObject : List (String × Content) := [("id", .number (.float oneAndAHalf))]

/-- The text of the method call. -/
def pingText : String := "\x7b\"jsonrpc\":\"2.0\",\"method\":\"ping\",\"id\":1\x7d"

/-- The text of the object with a fractional id. -/
def fractionalText : String := "\x7b\"id\":1.5\x7d"

/-- The text of the batch of both. -/
def mixedText : String := "[" ++ pingText ++ "," ++ fractionalText ++ "]"

/-- The text of the batch of two method calls. -/
def pingsText : String := "[" ++ pingText ++ "," ++ pingText ++ "]"

/-- The JSON library on these texts. -/
def batchJson : SerdeJson where
  toString _ := ""
  fromStr s :=
    if s = pingText then some (.map pingObject)
    else if s = fractionalText then some (.map fractionalObject)
    else if s = mixedText then some (.seq [.map pingObject, .map fractionalObject])
    else if s = pingsText then some (.seq [.map pingObject, .map pingObject])
    else none

/-- A handler with the method `ping`. -/
def pingHandler : MetaIoHandler Unit := (MetaIoHandler.withCompatibility .v2).addMethod "ping" ()

/-- The well-formed call is not answered because of the other member: the batch
is answered by a single error. -/
theorem not_isBatchOfMembers_mixedText :
    ¬ IsBatchOfMembers pingHandler batchJson () (fun _ _ => .ok .null) mixedText
      [pingText, fractionalText] := by
  rintro ⟨outputs, -, hresponse⟩
  have hsingle : respond pingHandler batchJson () (fun _ _ => .ok .null) mixedText =
      some (.from (.new .parseError) (some .v2)) := by decide
  rw [hsingle] at hresponse
  exact outputsAsBatch_ne_single outputs _ hresponse.symm

/-- The batch law holds for the batch of two method calls. -/
theorem isBatchOfMembers_pingsText :
    IsBatchOfMembers pingHandler batchJson () (fun _ _ => .ok .null) pingsText
      [pingText, pingText] := by
  have htext : batchJson.fromStr pingsText =
      some (.seq ([pingObject, pingObject].map .map)) := by decide
  have hmember : batchJson.fromStr pingText = some (.map pingObject) := by decide
  have hids : ∀ entries ∈ [pingObject, pingObject], HasReadableId entries := by decide
  exact (isBatchOfMembers_iff pingHandler batchJson () _ htext
    (.cons hmember (.cons hmember .nil))).mpr hids

end JsonRpc
