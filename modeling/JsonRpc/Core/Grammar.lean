import JsonRpc.Core.BatchLaw

/-!
# The grammar of requests

Which trees are requests, and of which kind, follows from the order of the untagged variants
and from the rules for the fields of structs. For objects the grammar is the expected one.
An array is a batch, but it is also read as the fields of a single call in the order of their
declaration. This happens before it is tried as a batch.
-/

namespace JsonRpc

/-! ## Members of a call -/

/-- The version of a call whose member `jsonrpc` is absent, `null` or `"2.0"`. -/
inductive HasVersion : Option Content → Option Version → Prop
  | absent : HasVersion none none
  | null : HasVersion (some .null) none
  | v2 : HasVersion (some (.str "2.0")) (some .v2)

/-- The parameters of a call whose member `params` is absent, `null`, an array or an object. -/
inductive HasParams : Option Content → Params → Prop
  | absent : HasParams none .none
  | null : HasParams (some .null) .none
  | array (elems : List Content) :
      HasParams (some (.seq elems)) (.array (elems.map Value.deserialize))
  | map (entries : List (String × Content)) :
      HasParams (some (.map entries)) (.map (Map.deserialize entries))

/-- A valid id: `null`, an integer in the range of `u64`, or a string. -/
inductive IsId : Content → Id → Prop
  | null : IsId .null .null
  | num (n : UInt64) : IsId (.number (.posInt n)) (.num n)
  | str (s : String) : IsId (.str s) (.str s)

theorem deserialize_id_iff {c : Content} {id : Id} : Id.deserialize c = some id ↔ IsId c id := by
  constructor
  · intro h
    unfold Id.deserialize at h
    split at h
    · cases h
      exact .null
    · cases h
      exact .num _
    · cases h
      exact .str _
    · cases h
  · rintro (_ | n | s) <;> rfl

theorem deserialize_version_iff {c : Content} {jsonrpc : Option Version} :
    jsonrpcField.deserialize c = some jsonrpc ↔ HasVersion (some c) jsonrpc := by
  constructor
  · intro h
    cases c with
    | null =>
      cases h
      exact .null
    | str s =>
      by_cases hs : s = "2.0"
      · subst hs
        cases h
        exact .v2
      · have hnone : jsonrpcField.deserialize (.str s) = none := by
          simp [jsonrpcField, Field.optional, Version.deserialize, hs]
        rw [hnone] at h
        cases h
    | bool | number | seq | map => cases h
  · rintro (_ | _ | _) <;> rfl

theorem deserialize_params_iff {c : Content} {params : Params} :
    Params.deserialize c = some params ↔ HasParams (some c) params := by
  constructor
  · intro h
    cases c with
    | null =>
      cases h
      exact .null
    | seq elems =>
      cases h
      exact .array elems
    | map entries =>
      cases h
      exact .map entries
    | bool | number | str => cases h
  · rintro (_ | _ | elems | entries) <;> rfl

theorem deserializeString_iff {c : Content} {s : String} :
    deserializeString c = some s ↔ c = .str s := by
  constructor
  · intro h
    cases c with
    | str s' =>
      cases h
      rfl
    | null | bool | number | seq | map => cases h
  · rintro rfl
    rfl

/-! ## Objects -/

/-- A JSON object: its keys are distinct. -/
structure JsonObject where
  entries : List (String × Content)
  nodup_keys : (entries.map Prod.fst).Nodup

namespace JsonObject

variable (v : JsonObject)

/-- The tree of an object. -/
def content : Content := .map v.entries

def keys : List String := v.entries.map Prod.fst

/-- The member of a key. -/
def get (key : String) : Option Content := (v.entries.find? fun e => e.1 == key).map Prod.snd

/-- The entries of a key are its member. -/
theorem find_eq_toList {entries : List (String × Content)} (hnodup : (entries.map Prod.fst).Nodup)
    (key : String) :
    Fields.find ⟨entries, false⟩ key =
      ((entries.find? fun e => e.1 == key).map Prod.snd).toList := by
  unfold Fields.find
  dsimp only
  induction entries with
  | nil => rfl
  | cons e entries ih =>
    obtain ⟨hhead, htail⟩ := List.nodup_cons.mp hnodup
    by_cases hkey : e.1 = key
    · have hnil : entries.filter (fun e => e.1 == key) = [] := by
        rw [List.filter_eq_nil_iff]
        intro e' he' heq
        apply hhead
        rw [hkey, ← beq_iff_eq.mp heq]
        exact List.mem_map_of_mem he'
      simp [hkey, hnil]
    · simp only [List.filter_cons, List.find?_cons, beq_eq_false_iff_ne.mpr hkey]
      exact ih htail

/-- A field of an object is its member, or what it is without one. -/
def ofMember {α : Type} (field : Field α) : Option Content → Option α
  | none => field.absent
  | some c => field.deserialize c

theorem read_eq {α : Type} (field : Field α) :
    Fields.read ⟨v.entries, false⟩ field = ofMember field (v.get field.name) := by
  rw [Fields.read, find_eq_toList v.nodup_keys, get]
  cases v.entries.find? fun e => e.1 == field.name <;> rfl

theorem read_jsonrpc_iff {jsonrpc : Option Version} :
    Fields.read ⟨v.entries, false⟩ jsonrpcField = some jsonrpc ↔
      HasVersion (v.get "jsonrpc") jsonrpc := by
  rw [read_eq, show jsonrpcField.name = "jsonrpc" from rfl]
  cases v.get "jsonrpc" with
  | none =>
    constructor
    · rintro ⟨⟩
      exact .absent
    · rintro ⟨⟩
      rfl
  | some c => exact deserialize_version_iff

theorem read_method_iff {method : String} :
    Fields.read ⟨v.entries, false⟩ methodField = some method ↔
      v.get "method" = some (.str method) := by
  rw [read_eq, show methodField.name = "method" from rfl]
  cases v.get "method" with
  | none => exact iff_of_false nofun nofun
  | some c =>
    rw [Option.some.injEq]
    exact deserializeString_iff

theorem read_params_iff {params : Params} :
    Fields.read ⟨v.entries, false⟩ paramsField = some params ↔
      HasParams (v.get "params") params := by
  rw [read_eq, show paramsField.name = "params" from rfl]
  cases v.get "params" with
  | none =>
    constructor
    · rintro ⟨⟩
      exact .absent
    · rintro ⟨⟩
      rfl
  | some c => exact deserialize_params_iff

theorem read_id_iff {id : Id} :
    Fields.read ⟨v.entries, false⟩ idField = some id ↔ ∃ c, v.get "id" = some c ∧ IsId c id := by
  rw [read_eq, show idField.name = "id" from rfl]
  cases v.get "id" with
  | none => simp [ofMember, idField, Field.required]
  | some c => simp [ofMember, idField, Field.required, deserialize_id_iff]

/-- The object is a method call. -/
structure IsMethodCall (m : MethodCall) : Prop where
  keys_subset : v.keys ⊆ ["jsonrpc", "method", "params", "id"]
  jsonrpc : HasVersion (v.get "jsonrpc") m.jsonrpc
  method : v.get "method" = some (.str m.method)
  params : HasParams (v.get "params") m.params
  id : ∃ c, v.get "id" = some c ∧ IsId c m.id

/-- The object is a notification. -/
structure IsNotification (n : Notification) : Prop where
  keys_subset : v.keys ⊆ ["jsonrpc", "method", "params"]
  jsonrpc : HasVersion (v.get "jsonrpc") n.jsonrpc
  method : v.get "method" = some (.str n.method)
  params : HasParams (v.get "params") n.params

/-- The id of an object that is no call: its member `id`, or `null` without one. -/
inductive HasKnownId : Id → Prop
  | absent (hid : v.get "id" = none) : HasKnownId .null
  | present {c : Content} {id : Id} (hid : v.get "id" = some c) (hvalid : IsId c id) : HasKnownId id

/-- The object has a member `id` that is not a valid id. -/
def HasInvalidId : Prop := ∃ c, v.get "id" = some c ∧ ∀ id, ¬ IsId c id

theorem toStruct_eq_some_iff {names : List String} {fields : Fields} :
    v.content.toStruct names = some fields ↔ v.keys ⊆ names ∧ fields = ⟨v.entries, false⟩ := by
  have hkeys : (∀ e ∈ v.entries, e.1 ∈ names) ↔ v.keys ⊆ names := List.forall_mem_map.symm
  rw [content, Content.toStruct_map_eq_some_iff, hkeys]

theorem deserialize_methodCall_iff {m : MethodCall} :
    MethodCall.deserialize v.content = some m ↔ v.IsMethodCall m := by
  rw [MethodCall.deserialize_eq_some_iff]
  constructor
  · rintro ⟨fields, hfields, hjsonrpc, hmethod, hparams, hid⟩
    obtain ⟨hkeys, rfl⟩ := v.toStruct_eq_some_iff.mp hfields
    exact ⟨hkeys, v.read_jsonrpc_iff.mp hjsonrpc, v.read_method_iff.mp hmethod,
      v.read_params_iff.mp hparams, v.read_id_iff.mp hid⟩
  · intro h
    exact ⟨_, v.toStruct_eq_some_iff.mpr ⟨h.keys_subset, rfl⟩, v.read_jsonrpc_iff.mpr h.jsonrpc,
      v.read_method_iff.mpr h.method, v.read_params_iff.mpr h.params, v.read_id_iff.mpr h.id⟩

theorem deserialize_notification_iff {n : Notification} :
    Notification.deserialize v.content = some n ↔ v.IsNotification n := by
  rw [Notification.deserialize_eq_some_iff]
  constructor
  · rintro ⟨fields, hfields, hjsonrpc, hmethod, hparams⟩
    obtain ⟨hkeys, rfl⟩ := v.toStruct_eq_some_iff.mp hfields
    exact ⟨hkeys, v.read_jsonrpc_iff.mp hjsonrpc, v.read_method_iff.mp hmethod,
      v.read_params_iff.mp hparams⟩
  · intro h
    exact ⟨_, v.toStruct_eq_some_iff.mpr ⟨h.keys_subset, rfl⟩, v.read_jsonrpc_iff.mpr h.jsonrpc,
      v.read_method_iff.mpr h.method, v.read_params_iff.mpr h.params⟩

theorem deserializeInvalid_iff {id : Id} :
    Call.deserializeInvalid v.content = some id ↔ v.HasKnownId id := by
  change Fields.read ⟨v.entries, false⟩ (.withDefault "id" Id.deserialize .null) = some id ↔ _
  rw [read_eq, show (Field.withDefault "id" Id.deserialize .null).name = "id" from rfl]
  cases hid : v.get "id" with
  | none =>
    constructor
    · rintro ⟨⟩
      exact .absent hid
    · rintro (_ | ⟨hid', _⟩)
      · rfl
      · cases hid.symm.trans hid'
  | some c =>
    change Id.deserialize c = some id ↔ _
    rw [deserialize_id_iff]
    constructor
    · exact .present hid
    · rintro (hid' | ⟨hid', hvalid⟩)
      · cases hid.symm.trans hid'
      · cases hid.symm.trans hid'
        exact hvalid

variable {v} {m : MethodCall} {n : Notification}

/-- A notification has no id. -/
theorem IsNotification.get_id_eq_none (h : v.IsNotification n) : v.get "id" = none := by
  rw [get, Option.map_eq_none_iff, List.find?_eq_none]
  intro e he hid
  have hmem := h.keys_subset (List.mem_map_of_mem he)
  rw [beq_iff_eq.mp hid] at hmem
  exact absurd hmem (by decide)

theorem IsMethodCall.not_isNotification (h : v.IsMethodCall m) : ¬ v.IsNotification n := by
  intro hn
  obtain ⟨c, hc, -⟩ := h.id
  cases hn.get_id_eq_none.symm.trans hc

theorem IsMethodCall.hasKnownId (h : v.IsMethodCall m) : v.HasKnownId m.id := by
  obtain ⟨c, hc, hvalid⟩ := h.id
  exact .present hc hvalid

theorem hasInvalidId_iff : v.HasInvalidId ↔ ∀ id, ¬ v.HasKnownId id := by
  constructor
  · rintro ⟨c, hc, hbad⟩ id (hnone | ⟨hc', hvalid⟩)
    · cases hnone.symm.trans hc
    · cases hc'.symm.trans hc
      exact hbad id hvalid
  · intro hnone
    cases hid : v.get "id" with
    | none => exact absurd (.absent hid) (hnone .null)
    | some c => exact ⟨c, hid, fun id hvalid => hnone id (.present hid hvalid)⟩

variable (v)

/-- What is read from the object is what the grammar says. -/
structure IsClassified (request : Option Request) : Prop where
  methodCall_iff : ∀ m, request = some (.single (.methodCall m)) ↔ v.IsMethodCall m
  notification_iff : ∀ n, request = some (.single (.notification n)) ↔ v.IsNotification n
  invalid_iff : ∀ id, request = some (.single (.invalid id)) ↔
    (∀ m, ¬ v.IsMethodCall m) ∧ (∀ n, ¬ v.IsNotification n) ∧ v.HasKnownId id
  none_iff : request = none ↔ v.HasInvalidId

/-- The first reading that succeeds is taken, and an object is never a batch. -/
theorem deserialize_request_eq :
    Request.deserialize v.content = match MethodCall.deserialize v.content with
      | some m => some (.single (.methodCall m))
      | none =>
        match Notification.deserialize v.content with
        | some n => some (.single (.notification n))
        | none => (Call.deserializeInvalid v.content).map fun id => .single (.invalid id) := by
  rw [Request.deserialize, Call.deserialize]
  cases MethodCall.deserialize v.content with
  | some m => rfl
  | none =>
    cases Notification.deserialize v.content with
    | some n => rfl
    | none => cases Call.deserializeInvalid v.content <;> rfl

theorem isClassified : v.IsClassified (Request.deserialize v.content) := by
  rw [deserialize_request_eq]
  cases hread : MethodCall.deserialize v.content with
  | some m =>
    have hm := v.deserialize_methodCall_iff.mp hread
    refine ⟨fun m' => ?_, fun n => ?_, fun id => ?_, ?_⟩
    · rw [← v.deserialize_methodCall_iff, hread]
      simp
    · exact iff_of_false (by simp) hm.not_isNotification
    · exact iff_of_false (by simp) fun h => h.1 m hm
    · exact iff_of_false (by simp) fun h => hasInvalidId_iff.mp h m.id hm.hasKnownId
  | none =>
    have hno_call (m : MethodCall) : ¬ v.IsMethodCall m := by
      rw [← v.deserialize_methodCall_iff, hread]
      nofun
    cases hread : Notification.deserialize v.content with
    | some n =>
      have hn := v.deserialize_notification_iff.mp hread
      refine ⟨fun m => ?_, fun n' => ?_, fun id => ?_, ?_⟩
      · exact iff_of_false (by simp) (hno_call m)
      · rw [← v.deserialize_notification_iff, hread]
        simp
      · exact iff_of_false (by simp) fun h => h.2.1 n hn
      · exact iff_of_false (by simp) fun h =>
          hasInvalidId_iff.mp h .null (.absent hn.get_id_eq_none)
    | none =>
      have hno_notification (n : Notification) : ¬ v.IsNotification n := by
        rw [← v.deserialize_notification_iff, hread]
        nofun
      refine ⟨fun m => ?_, fun n => ?_, fun id => ?_, ?_⟩
      · exact iff_of_false (by simp) (hno_call m)
      · exact iff_of_false (by simp) (hno_notification n)
      · rw [← v.deserializeInvalid_iff]
        simp [hno_call, hno_notification]
      · simp [hasInvalidId_iff, ← v.deserializeInvalid_iff, Option.eq_none_iff_forall_not_mem]

/-- A text that is not read is answered by a parse error, and no procedure runs. -/
theorem handleRequest_eq_parseError_iff {P M : Type} (handler : MetaIoHandler P) {json : SerdeJson}
    {text : String} {c : Content} (metadata : M) (htext : json.fromStr text = some c) :
    handler.handleRequest json text metadata = ⟨[], .ready (some
      (.from (.new .parseError) handler.compatibility.defaultVersion))⟩ ↔
      Request.deserialize c = none := by
  rw [MetaIoHandler.handleRequest, readRequest, Request.fromStr, htext, Option.bind_some]
  cases Request.deserialize c <;> simp

/-- **Grammar of calls.** An object is read as a method call, as a notification or as an invalid
call exactly as the grammar says, with its members as the fields. It is answered by a parse
error if and only if it has an id that is not valid. -/
theorem classification :
    v.IsClassified (Request.deserialize v.content) ∧
      ∀ {P M : Type} (handler : MetaIoHandler P) (json : SerdeJson) (text : String) (metadata : M),
        json.fromStr text = some v.content →
        (handler.handleRequest json text metadata = ⟨[], .ready (some
          (.from (.new .parseError) handler.compatibility.defaultVersion))⟩ ↔ v.HasInvalidId) := by
  refine ⟨v.isClassified, fun handler json text metadata htext => ?_⟩
  rw [handleRequest_eq_parseError_iff handler metadata htext]
  exact v.isClassified.none_iff

end JsonObject

/-! ## Arrays -/

/-- The elements are the fields of a single call in the order of their declaration. -/
inductive IsPositionalCall : List Content → Call → Prop
  | methodCall {j p i : Content} {jsonrpc : Option Version} {params : Params} {id : Id}
      (method : String) (hjsonrpc : HasVersion (some j) jsonrpc)
      (hparams : HasParams (some p) params) (hid : IsId i id) :
      IsPositionalCall [j, .str method, p, i] (.methodCall ⟨jsonrpc, method, params, id⟩)
  | notification {j p : Content} {jsonrpc : Option Version} {params : Params}
      (method : String) (hjsonrpc : HasVersion (some j) jsonrpc)
      (hparams : HasParams (some p) params) :
      IsPositionalCall [j, .str method, p] (.notification ⟨jsonrpc, method, params⟩)
  | withoutParams {j : Content} {jsonrpc : Option Version} (method : String)
      (hjsonrpc : HasVersion (some j) jsonrpc) :
      IsPositionalCall [j, .str method] (.notification ⟨jsonrpc, method, .none⟩)

/-- The fields of a method call, found by position. -/
theorem MethodCall.deserialize_seq_iff {elems : List Content} {m : MethodCall} :
    MethodCall.deserialize (.seq elems) = some m ↔ IsPositionalCall elems (.methodCall m) := by
  rw [MethodCall.deserialize_eq_some_iff]
  constructor
  · rintro ⟨fields, hfields, hjsonrpc, hmethod, hparams, hid⟩
    obtain ⟨hlength, rfl⟩ := Content.toStruct_seq_eq_some_iff.mp hfields
    match elems with
    | [] | [_] | [_, _] | [_, _, _] => cases hid
    | [j, _, p, i] =>
      obtain rfl := deserializeString_iff.mp hmethod
      exact .methodCall m.method (deserialize_version_iff.mp hjsonrpc)
        (deserialize_params_iff.mp hparams) (deserialize_id_iff.mp hid)
    | _ :: _ :: _ :: _ :: _ :: _ =>
      simp only [List.length_cons, List.length_nil] at hlength
      omega
  · rintro (⟨method, hjsonrpc, hparams, hid⟩ | _ | _)
    exact ⟨_, rfl, deserialize_version_iff.mpr hjsonrpc, rfl, deserialize_params_iff.mpr hparams,
      deserialize_id_iff.mpr hid⟩

/-- The fields of a notification, found by position. -/
theorem Notification.deserialize_seq_iff {elems : List Content} {n : Notification} :
    Notification.deserialize (.seq elems) = some n ↔ IsPositionalCall elems (.notification n) := by
  rw [Notification.deserialize_eq_some_iff]
  constructor
  · rintro ⟨fields, hfields, hjsonrpc, hmethod, hparams⟩
    obtain ⟨hlength, rfl⟩ := Content.toStruct_seq_eq_some_iff.mp hfields
    obtain ⟨jsonrpc, method, params⟩ := n
    match elems with
    | [] | [_] => cases hmethod
    | [j, _] =>
      obtain rfl := deserializeString_iff.mp hmethod
      cases hparams
      exact .withoutParams method (deserialize_version_iff.mp hjsonrpc)
    | [j, _, p] =>
      obtain rfl := deserializeString_iff.mp hmethod
      exact .notification method (deserialize_version_iff.mp hjsonrpc)
        (deserialize_params_iff.mp hparams)
    | _ :: _ :: _ :: _ :: _ =>
      simp only [List.length_cons, List.length_nil] at hlength
      omega
  · rintro (_ | ⟨method, hjsonrpc, hparams⟩ | ⟨method, hjsonrpc⟩)
    · exact ⟨_, rfl, deserialize_version_iff.mpr hjsonrpc, rfl,
        deserialize_params_iff.mpr hparams⟩
    · exact ⟨_, rfl, deserialize_version_iff.mpr hjsonrpc, rfl, rfl⟩

/-- An array is read as a single call exactly if its elements are the fields of one. -/
theorem Call.deserialize_seq_iff {elems : List Content} {call : Call} :
    Call.deserialize (.seq elems) = some call ↔ IsPositionalCall elems call := by
  have hvariant : Call.deserializeInvalid (.seq elems) = none := rfl
  rw [Call.deserialize, hvariant]
  constructor
  · intro h
    cases hm : MethodCall.deserialize (.seq elems) with
    | some m =>
      rw [hm] at h
      cases h
      exact MethodCall.deserialize_seq_iff.mp hm
    | none =>
      cases hn : Notification.deserialize (.seq elems) with
      | some n =>
        rw [hm, hn] at h
        cases h
        exact Notification.deserialize_seq_iff.mp hn
      | none =>
        rw [hm, hn] at h
        cases h
  · intro h
    cases call with
    | methodCall m =>
      rw [MethodCall.deserialize_seq_iff.mpr h]
      rfl
    | notification n =>
      have hm : MethodCall.deserialize (.seq elems) = none := by
        rw [Option.eq_none_iff_forall_ne_some]
        intro m hm
        cases MethodCall.deserialize_seq_iff.mp hm
        cases h
      rw [hm, Notification.deserialize_seq_iff.mpr h]
      rfl
    | invalid id => cases h

/-- An array is not dispatched as a single call: it is not read as one, its text runs the
procedures of its elements only, and it is not answered by a single success. -/
structure IsNeverSingle (elems : List Content) : Prop where
  ne_single : ∀ call, Request.deserialize (.seq elems) ≠ some (.single call)
  invoked : ∀ {P M : Type} (handler : MetaIoHandler P) (json : SerdeJson) (text : String)
    (metadata : M), json.fromStr text = some (.seq elems) →
    ∀ event ∈ (handler.handleRequest json text metadata).invoked, ∃ elem ∈ elems, ∃ call,
      Call.deserialize elem = some call ∧ event ∈ (handler.handleCall call metadata).invoked
  response : ∀ {P M : Type} (handler : MetaIoHandler P) (json : SerdeJson) (text : String)
    (metadata : M) (results : ℕ → Invocation P M → Except Error Value),
    json.fromStr text = some (.seq elems) →
    ∀ success, (handler.handleRequest json text metadata).future.resolve results ≠
      some (.single (.success success))

/-- An array that is not a single call is a batch, or is not read. -/
theorem Request.deserialize_seq {elems : List Content}
    (h : ∀ call, ¬ IsPositionalCall elems call) :
    Request.deserialize (.seq elems) = (elems.mapM Call.deserialize).map .batch := by
  have hnone : Call.deserialize (.seq elems) = none := by
    rw [Option.eq_none_iff_forall_ne_some]
    exact fun call hcall => h call (Call.deserialize_seq_iff.mp hcall)
  rw [Request.deserialize, hnone]
  rfl

/-- **Arrays.** An array is never dispatched as a single call if and only if its elements are
not the fields of a call in the order of their declaration. -/
theorem isNeverSingle_iff (elems : List Content) :
    IsNeverSingle elems ↔ ∀ call, ¬ IsPositionalCall elems call := by
  constructor
  · intro h call hcall
    apply h.ne_single call
    rw [Request.deserialize, Call.deserialize_seq_iff.mpr hcall]
    rfl
  · intro h
    have hread := Request.deserialize_seq h
    refine ⟨fun call => ?_, fun handler json text metadata htext event hevent => ?_,
      fun handler json text metadata results htext success => ?_⟩
    · rw [hread]
      cases elems.mapM Call.deserialize <;> simp
    · rw [MetaIoHandler.handleRequest, readRequest, Request.fromStr, htext, Option.bind_some,
        hread] at hevent
      cases hcalls : elems.mapM Call.deserialize with
      | none =>
        rw [hcalls] at hevent
        cases hevent
      | some calls =>
        rw [hcalls] at hevent
        obtain ⟨handled, hhandled, hevent⟩ := List.mem_flatMap.mp hevent
        obtain ⟨call, hcall, rfl⟩ := List.mem_map.mp hhandled
        obtain ⟨elem, helem, hread⟩ := exists_mem_of_mapM hcalls hcall
        exact ⟨elem, helem, call, hread, hevent⟩
    · rw [MetaIoHandler.handleRequest, readRequest, Request.fromStr, htext, Option.bind_some,
        hread]
      cases elems.mapM Call.deserialize with
      | none => simp [FutureResult.resolve, Response.from]
      | some calls => exact outputsAsBatch_ne_single _ _

/-- The fields of a call of `ping`, as an array. -/
def pingFields : List Content := [.str "2.0", .str "ping", .seq [], .number (.posInt 1)]

/-- The call that these fields are. -/
def pingMethodCall : MethodCall := ⟨some .v2, "ping", .array [], .num 1⟩

/-- The array `["2.0","ping",[],1]` is a single method call. It runs the method, and is answered
by a single success. -/
theorem not_isNeverSingle_pingFields :
    Request.deserialize (.seq pingFields) = some (.single (.methodCall pingMethodCall)) ∧
      (pingHandler.handleRpcRequest (.single (.methodCall pingMethodCall)) ()).invoked =
        [.call ⟨.simple (), .array [], ()⟩] ∧
      (pingHandler.handleRpcRequest (.single (.methodCall pingMethodCall)) ()).future.resolve
        (fun _ _ => .ok .null) = some (.single (.success ⟨some .v2, .null, .num 1⟩)) ∧
      ¬ IsNeverSingle pingFields := by
  have hread :
      Request.deserialize (.seq pingFields) = some (.single (.methodCall pingMethodCall)) := by
    decide
  exact ⟨hread, by decide, by decide, fun h => h.ne_single _ hread⟩

end JsonRpc
