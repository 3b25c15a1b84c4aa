import JsonRpc.Derive.Generate
import Mathlib.Data.List.Forall2

/-!
# Reading parameters

A closure of the server reads its arguments from an array, each at the type of its position.
The readers of the generated code are stated in these terms: a tuple is read from an array of
its length, and trailing options may be left out. Parameters that are not read are invalid.
-/

namespace JsonRpc.Derive

/-! ## Tuples -/

section Tuples

variable {U : Type} (I : ArgTypes U)

/-- Values are read one by one, each at the type of its position. -/
def Decodes (types : List Ty) (values : List Value) (us : List U) : Prop :=
  List.Forall₂ (fun entry u => I.deserialize entry.1 entry.2 = .ok u) (types.zip values) us

variable {I} {types : List Ty} {values : List Value} {us : List U}

/-- There is an argument for each value. -/
theorem Decodes.length_eq (h : Decodes I types values us) (hle : values.length ≤ types.length) :
    us.length = values.length := by
  have hlength := List.Forall₂.length_eq h
  rw [List.length_zip] at hlength
  omega

/-- Types beyond the last value do not matter. -/
theorem decodes_take (types : List Ty) (values : List Value) (us : List U) :
    Decodes I (types.take values.length) values us ↔ Decodes I types values us := by
  have hzip : (types.take values.length).zip values = types.zip values := by
    induction types generalizing values with
    | nil => rw [List.take_nil]
    | cons ty types ih =>
      cases values with
      | nil => rfl
      | cons v values => exact congrArg ((ty, v) :: ·) (ih values)
  rw [Decodes, hzip, Decodes]

/-- A tuple is read from an array of its length, value by value. -/
theorem deserializeTuple_eq_ok_iff (e : String) :
    deserializeTuple I e types values = .ok us ↔
      types.length = values.length ∧ Decodes I types values us := by
  induction types generalizing values us with
  | nil =>
    cases values with
    | nil => simp [deserializeTuple, Decodes, eq_comm]
    | cons v values => simp [deserializeTuple]
  | cons ty types ih =>
    cases values with
    | nil => simp [deserializeTuple]
    | cons v values =>
      have hcons : deserializeTuple I e (ty :: types) (v :: values) = .ok us ↔
          ∃ u us', I.deserialize ty v = .ok u ∧ deserializeTuple I e types values = .ok us' ∧
            us = u :: us' := by
        rw [deserializeTuple]
        cases I.deserialize ty v with
        | error e' => simp
        | ok u =>
          cases deserializeTuple I e types values with
          | error e' => simp
          | ok us' => simp [eq_comm]
      rw [hcons, Decodes, List.zip_cons_cons, List.forall₂_cons_left_iff, List.length_cons,
        List.length_cons, Nat.succ_inj]
      simp only [ih, Decodes]
      constructor
      · rintro ⟨u, us', hu, ⟨hlength, hus'⟩, rfl⟩
        exact ⟨hlength, u, us', hu, hus', rfl⟩
      · rintro ⟨hlength, u, us', hu, hus', rfl⟩
        exact ⟨u, us', hu, ⟨hlength, hus'⟩, rfl⟩

/-- `Params::parse` at a type of tuples reads arrays only. -/
theorem parse_eq_ok_iff {params : Params} :
    parse I types params = .ok us ↔
      ∃ values, params = .array values ∧ types.length = values.length ∧
        Decodes I types values us := by
  unfold parse
  cases params with
  | none => simp
  | map fields => simp
  | array values =>
    simp only [← deserializeTuple_eq_ok_iff (I.tupleError types (.array values)),
      Params.array.injEq, exists_eq_left']
    cases deserializeTuple I (I.tupleError types (.array values)) types values with
    | error e => simp
    | ok us' => simp

/-- A list of values is read part by part. -/
theorem decodes_append_iff {rest : List Ty} {more : List Value}
    (hlength : types.length = values.length) :
    Decodes I (types ++ rest) (values ++ more) us ↔
      ∃ given last, Decodes I types values given ∧ Decodes I rest more last ∧
        us = given ++ last := by
  unfold Decodes
  rw [List.zip_append hlength]
  constructor
  · intro h
    have hgiven := List.forall₂_take (types.zip values).length h
    have hlast := List.forall₂_drop (types.zip values).length h
    rw [List.take_left] at hgiven
    rw [List.drop_left] at hlast
    exact ⟨_, _, hgiven, hlast, (List.take_append_drop _ _).symm⟩
  · rintro ⟨given, last, hgiven, hlast, rfl⟩
    exact List.rel_append hgiven hlast

end Tuples

/-! ## Optional parameters -/

/-- The values of parameters that are no object. -/
def passedValues : Params → Option (List Value)
  | .array values => some values
  | .none => some []
  | .map _ => none

section Optional

variable {U : Type} {I : ArgTypes U} {types : List Ty} {params : Params} {values : List Value}

theorem passedArgsNum_eq (h : passedValues params = some values) :
    passedArgsNum params = .ok values.length := by
  cases params with
  | none => cases h; rfl
  | array values' => cases h; rfl
  | map fields => cases h

/-- No values are read as no arguments. -/
theorem expectNoParams_eq (h : passedValues params = some []) :
    expectNoParams I params = .ok () := by
  cases params with
  | none => rfl
  | array values => cases h; rfl
  | map fields => cases h

theorem eq_array_of_passedValues (h : passedValues params = some values) (hne : values ≠ []) :
    params = .array values := by
  cases params with
  | none => cases h; exact absurd rfl hne
  | array values' => cases h; rfl
  | map fields => cases h

/-- As many types are read as values were passed. -/
theorem parse_take_eq_ok_iff (hle : values.length ≤ types.length) {given : List U} :
    parse I (types.take values.length) (.array values) = .ok given ↔
      Decodes I types values given := by
  have hlength : (types.take values.length).length = values.length := by
    rw [List.length_take]
    omega
  rw [parse_eq_ok_iff]
  constructor
  · rintro ⟨values', hvalues, _, hdecodes⟩
    cases hvalues
    exact (decodes_take _ _ _).mp hdecodes
  · intro hdecodes
    exact ⟨values, rfl, hlength, (decodes_take _ _ _).mpr hdecodes⟩

/-- Parameters that pass the count are read at the types of the values that were passed. -/
theorem paramsWithTrailing_eq_ok_iff {trailing : ℕ} (hvalues : passedValues params = some values)
    (hge : types.length - trailing ≤ values.length) (hle : values.length ≤ types.length)
    {us : List U} :
    paramsWithTrailing I trailing types params = .ok us ↔
      ∃ given, Decodes I types values given ∧
        us = given ++ List.replicate (types.length - values.length) I.none := by
  unfold paramsWithTrailing
  dsimp only
  rw [passedArgsNum_eq hvalues]
  dsimp only
  rw [if_neg (by omega), if_pos hle]
  by_cases hnil : values = []
  · subst hnil
    rw [List.length_nil, if_pos rfl, expectNoParams_eq hvalues]
    simp [Decodes, eq_comm]
  · have hne : values.length ≠ 0 := fun h => hnil (List.length_eq_zero_iff.mp h)
    rw [if_neg hne, eq_array_of_passedValues hvalues hnil]
    simp only [← parse_take_eq_ok_iff hle]
    cases parse I (types.take values.length) (.array values) with
    | error e => simp
    | ok given => simp [eq_comm]

/-- The number of parameters is checked. -/
theorem length_of_paramsWithTrailing {trailing : ℕ} {us : List U}
    (h : paramsWithTrailing I trailing types params = .ok us) :
    ∃ values, passedValues params = some values ∧ types.length - trailing ≤ values.length ∧
      values.length ≤ types.length := by
  cases hvalues : passedValues params with
  | none =>
    cases params with
    | none => cases hvalues
    | array values => cases hvalues
    | map fields => cases h
  | some values =>
    unfold paramsWithTrailing at h
    dsimp only at h
    rw [passedArgsNum_eq hvalues] at h
    dsimp only at h
    split at h
    · cases h
    · rename_i hge
      split at h
      · rename_i hle
        exact ⟨values, rfl, Nat.not_lt.mp hge, hle⟩
      · cases h

theorem code_of_parse {e : Error} (h : parse I types params = .error e) :
    e.code = .invalidParams := by
  unfold parse at h
  dsimp only at h
  split at h
  · cases h
  · cases h
    rfl

theorem code_of_expectNoParams {e : Error} (h : expectNoParams I params = .error e) :
    e.code = .invalidParams := by
  unfold expectNoParams at h
  split at h
  · cases h
  · cases h
  · cases h
    rfl

/-- Parameters that are refused are invalid. -/
theorem code_of_paramsWithTrailing {trailing : ℕ} {e : Error}
    (h : paramsWithTrailing I trailing types params = .error e) : e.code = .invalidParams := by
  unfold paramsWithTrailing at h
  dsimp only at h
  split at h
  · rename_i e' hpassed
    cases h
    cases params with
    | none => cases hpassed
    | array values => cases hpassed
    | map fields =>
      cases hpassed
      rfl
  · split at h
    · cases h
      rfl
    · split at h
      · split at h
        · split at h
          · cases h
          · rename_i e' hno
            cases h
            exact code_of_expectNoParams hno
        · split at h
          · cases h
          · rename_i e' hparse
            cases h
            exact code_of_parse hparse
      · cases h
        rfl

end Optional

end JsonRpc.Derive
