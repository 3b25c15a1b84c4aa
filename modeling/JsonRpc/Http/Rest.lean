import JsonRpc.Http.Handler
import JsonRpc.Serde.JsonString

/-!
# Calls with the parts of a path

A request without a body calls a method with the parts of its path. A part that is no JSON
text is put between quotes and read again, so that it becomes a string. A quote, a backslash or
a control character in it then gets a meaning, and the parameter is not the part of the path.
-/

namespace JsonRpc.Http

open Text ServerUtils

/-- A part of a path. -/
abbrev Segment := { part : Text // '/' ∉ part }

/-- The path of a method and its parameters. -/
def restPath (method : Segment) (params : List Segment) : Text :=
  (method.val :: params.map Subtype.val).flatMap ('/' :: ·)

/-- A text as a JSON string. -/
def stringValue (s : Text) : Value := ⟨.str (String.ofList s), rfl⟩

/-- The value that a part of a path should have: what it denotes if it is JSON, and otherwise
the part itself as a string. -/
def segmentValue (json : SerdeJson) (param : Text) : Value :=
  match json.fromStr (String.ofList param) with
  | some c => Value.deserialize c
  | none => stringValue param

/-- The method and the parameters of a call are the parts of the path. -/
theorem restCall_restPath (json : SerdeJson) (method : Segment) (params : List Segment) :
    restCall json (restPath method params) =
      .single (.methodCall ⟨some .v2, String.ofList method.val,
        .array (params.map fun p => restParam json p.val), .num 1⟩) := by
  have hparts : ∀ part ∈ method.val :: params.map Subtype.val, '/' ∉ part := by
    refine List.forall_mem_cons.mpr ⟨method.property, fun part hpart => ?_⟩
    obtain ⟨p, -, rfl⟩ := List.mem_map.mp hpart
    exact p.property
  have hsplit : split ['/'] (restPath method params) = [] :: method.val :: params.map Subtype.val :=
    split_flatMap_cons List.not_mem_nil hparts
  simp only [restCall, hsplit, List.drop_one, List.tail_cons, List.headD_cons, List.map_map]
  rfl

/-- A part that is JSON has the value that it denotes. -/
theorem restParam_eq_segmentValue {json : SerdeJson} {param : Text}
    (hparam : (json.fromStr (String.ofList param)).isSome = true) :
    restParam json param = segmentValue json param := by
  obtain ⟨c, hc⟩ := Option.isSome_iff_exists.mp hparam
  rw [restParam, segmentValue, hc]

/-- A part that is no JSON is read between quotes. -/
theorem restParam_of_none (json : StringJson) {param : Text}
    (hparam : json.fromStr (String.ofList param) = none) :
    restParam json.toSerdeJson param = (unescape param).elim .null stringValue := by
  rw [restParam, hparam]
  dsimp only
  rw [json.fromStr_quoted]
  cases unescape param <;> rfl

theorem stringValue_injective {s t : Text} (h : stringValue s = stringValue t) : s = t := by
  have hcontent : Content.str (String.ofList s) = Content.str (String.ofList t) :=
    congrArg Value.content h
  have hlist := congrArg String.toList (Content.str.inj hcontent)
  rwa [String.toList_ofList, String.toList_ofList] at hlist

/-- A parameter is the part of the path if and only if this is JSON, or has neither quotes nor
backslashes nor control characters. -/
theorem restParam_eq_segmentValue_iff (json : StringJson) (param : Text) :
    restParam json.toSerdeJson param = segmentValue json.toSerdeJson param ↔
      (json.fromStr (String.ofList param)).isSome = true ∨ param.all isOrdinary = true := by
  cases hparam : json.fromStr (String.ofList param) with
  | some c =>
    have hsome : (json.fromStr (String.ofList param)).isSome = true := by rw [hparam]; rfl
    exact iff_of_true (restParam_eq_segmentValue hsome) (.inl rfl)
  | none =>
    rw [restParam_of_none json hparam, segmentValue, hparam, ← unescape_eq_self_iff]
    cases hbody : unescape param with
    | none =>
      refine iff_of_false (fun heq => ?_) (by simp)
      cases congrArg Value.content heq
    | some s =>
      constructor
      · intro heq
        exact .inr (congrArg some (stringValue_injective heq))
      · rintro (hnone | hself)
        · cases hnone
        · cases hself
          rfl

/-- **Calls with a path.** A request with the path of a method and its parameters calls this
method once, with as many parameters. Each parameter is the part of the path if and only if this
is JSON, or has neither quotes nor backslashes nor control characters. -/
theorem rest_faithful_iff {G : Globset} {M : Type} (L : Libraries) (json : StringJson)
    (metadata : M) (method : Segment) (params : List Segment) :
    ∃ values : List Value,
      (RpcHandler.processRest { L with json := json.toSerdeJson } (restPath method params) metadata
        true : RpcPollState G M) =
        ⟨.waiting, true, some (.call (.single (.methodCall ⟨some .v2, String.ofList method.val,
          .array values, .num 1⟩)) metadata)⟩ ∧
      values.length = params.length ∧
      ∀ (i : ℕ) (p : Segment) (v : Value), params[i]? = some p → values[i]? = some v →
        (v = segmentValue json.toSerdeJson p.val ↔
          (json.fromStr (String.ofList p.val)).isSome = true ∨ p.val.all isOrdinary = true) := by
  refine ⟨params.map fun p => restParam json.toSerdeJson p.val, ?_, List.length_map _,
    fun i p v hp hv => ?_⟩
  · rw [RpcHandler.processRest, if_pos rfl, restCall_restPath]
  · rw [List.getElem?_map, hp] at hv
    cases hv
    exact restParam_eq_segmentValue_iff json p.val

/-- A part with a quote. -/
def quoteSegment : Segment := ⟨['a', Char.ofNat 0x22, 'b'], by decide⟩

/-- A part with a backslash. -/
def backslashSegment : Segment := ⟨['a', Char.ofNat 0x5C, 'n', 'b'], by decide⟩

/-- A quote makes the parameter null, and a backslash makes it another string. -/
theorem not_faithful_quote_backslash :
    restParam StringJson.strings.toSerdeJson quoteSegment.val = .null ∧
      segmentValue StringJson.strings.toSerdeJson quoteSegment.val =
        stringValue quoteSegment.val ∧
      restParam StringJson.strings.toSerdeJson backslashSegment.val =
        stringValue ['a', Char.ofNat 0x0A, 'b'] ∧
      segmentValue StringJson.strings.toSerdeJson backslashSegment.val =
        stringValue backslashSegment.val := by
  have hquote : StringJson.strings.fromStr (String.ofList quoteSegment.val) = none := by
    simp [StringJson.strings, quoteSegment]
  have hbackslash : StringJson.strings.fromStr (String.ofList backslashSegment.val) = none := by
    simp [StringJson.strings, backslashSegment]
  refine ⟨?_, ?_, ?_, ?_⟩
  · rw [restParam_of_none _ hquote]
    rfl
  · rw [segmentValue, hquote]
  · rw [restParam_of_none _ hbackslash]
    rfl
  · rw [segmentValue, hbackslash]

end JsonRpc.Http
