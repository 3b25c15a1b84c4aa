import JsonRpc.Derive.Agreement
import JsonRpc.Derive.Params
import Mathlib.Data.List.DropRight

/-!
# Trailing optional parameters

The options at the end of the parameters of a method may be left out. The server counts the
parameters that were passed, reads a tuple of as many types and fills the rest with `None`.
A signature splits the types of a method into the required ones and the options at the end.
What the server reads at a signature is stated position by position.
-/

namespace JsonRpc.Derive

/-! ## Signatures -/

/-- The types where an option is read from null as `None`. -/
structure OptionTypes (U : Type) extends ArgTypes U where
  deserialize_null : ∀ {ty}, isOptionType ty → deserialize ty .null = .ok none

/-- Such types, where every type stands for the parameters. -/
def OptionTypes.params : OptionTypes Params where
  toArgTypes := paramsTypes
  deserialize_null _ := callMethod_toValue .none

/-- The types of the parameters of a method, of which some at the end are options. The type
before these is no option. -/
structure Signature where
  required : List Ty
  trailing : List Ty
  rdropWhile_required : required.rdropWhile isOptionType = required
  isOptionType_of_mem : ∀ ty ∈ trailing, isOptionType ty
  trailing_ne_nil : trailing ≠ []
  length_le : required.length + trailing.length ≤ 16

/-- What the closure of a method does with the parameters of a request. -/
inductive Invocation (U : Type) where
  /-- The method is called. -/
  | called (args : List U)
  /-- The response is an error. -/
  | failed (e : Error)
  /-- Nothing is done. -/
  | ignored
  /-- The subscriber is rejected. -/
  | rejected (e : Error)

/-- What is done with parameters that are not read. -/
def Invocation.refused {U : Type} (e : Error) : MethodKind → Invocation U
  | .subscribe => rejected e
  | .notification => ignored
  | .standard => failed e

/-- The closure of a method. -/
def DelegateClosure.invoke {U : Type} (I : ArgTypes U) (closure : DelegateClosure)
    (kind : MethodKind) (params : Params) : Invocation U :=
  match closure.read I params with
  | .ok args => .called args
  | .error e => .refused e kind

/-- The types of the parameters that are passed in a request. -/
def RpcMethod.paramTypes (m : RpcMethod) : List Ty :=
  let types := m.inputs.filterMap FnArg.ty?
  types.filter fun ty => !(specialArgs types).any fun s => s.2 = ty

namespace Signature

variable (sig : Signature)

/-- All types of a signature. -/
def types : List Ty := sig.required ++ sig.trailing

theorem length_types : sig.types.length = sig.required.length + sig.trailing.length :=
  List.length_append

theorem trailingArgsNum_types : trailingArgsNum sig.types = sig.trailing.length := by
  have hrequired : sig.required.reverse.takeWhile isOptionType = [] := by
    have hlast := List.rdropWhile_eq_self_iff.mp sig.rdropWhile_required
    have hnil := List.rtakeWhile_eq_nil_iff.mpr hlast
    rwa [List.rtakeWhile, List.reverse_eq_nil_iff] at hnil
  have hmem : ∀ ty ∈ sig.trailing.reverse, isOptionType ty := by
    intro ty hty
    exact sig.isOptionType_of_mem ty (List.mem_reverse.mp hty)
  rw [trailingArgsNum, types, List.reverse_append, List.takeWhile_append_of_pos hmem, hrequired,
    List.append_nil, List.length_reverse]

theorem length_trailing_ne_zero : sig.trailing.length ≠ 0 := by
  intro h
  exact sig.trailing_ne_nil (List.length_eq_zero_iff.mp h)

/-- The closure that reads the parameters of a signature. -/
def closure (special : List (SpecialArg × Ty)) : DelegateClosure :=
  ⟨special, sig.types, .withTrailing (trailingArgsNum sig.types)⟩

/-- This closure is generated for every method that has the types of a signature. -/
theorem generateDelegateClosure_eq {m : RpcMethod} (h : m.paramTypes = sig.types) :
    generateDelegateClosure m =
      .ok (sig.closure (specialArgs (m.inputs.filterMap FnArg.ty?))) := by
  have hlength : ¬16 < sig.types.length := by
    have hle := sig.length_le
    rw [length_types]
    omega
  have htrailing : trailingArgsNum sig.types ≠ 0 := by
    rw [trailingArgsNum_types]
    exact sig.length_trailing_ne_zero
  unfold RpcMethod.paramTypes at h
  unfold generateDelegateClosure
  dsimp only at h ⊢
  rw [h, if_neg hlength, if_pos htrailing]
  rfl

/-- Types whose last one is an option have a signature, if they are not too many. -/
theorem exists_types_eq {types : List Ty} (hle : types.length ≤ 16)
    (htrailing : trailingArgsNum types ≠ 0) : ∃ sig : Signature, sig.types = types := by
  have happend : types.rdropWhile isOptionType ++ types.rtakeWhile isOptionType = types :=
    List.rdropWhile_append_rtakeWhile
  have hne : types.rtakeWhile isOptionType ≠ [] := by
    intro hnil
    rw [List.rtakeWhile, List.reverse_eq_nil_iff] at hnil
    exact htrailing (congrArg List.length hnil)
  refine ⟨⟨types.rdropWhile isOptionType, types.rtakeWhile isOptionType,
    List.rdropWhile_idempotent _ _, fun _ => List.mem_rtakeWhile_imp, hne, ?_⟩, happend⟩
  rw [← List.length_append, happend]
  exact hle

/-- Every closure that fills in options is the one of a signature. -/
theorem exists_closure_eq {m : RpcMethod} {closure : DelegateClosure} {trailing : ℕ}
    (h : generateDelegateClosure m = .ok closure)
    (hparse : closure.parseParams = .withTrailing trailing) :
    ∃ (sig : Signature) (special : List (SpecialArg × Ty)), closure = sig.closure special := by
  unfold generateDelegateClosure at h
  dsimp only at h
  split at h
  · cases h
  · rename_i hle
    split at h
    · rename_i htrailing
      obtain ⟨sig, hsig⟩ := exists_types_eq (Nat.not_lt.mp hle) htrailing
      cases h
      exact ⟨sig, _, by rw [Signature.closure, hsig]⟩
    · split at h
      · cases h
        cases hparse
      · split at h
        · cases h
          cases hparse
        · split at h
          · cases h
            cases hparse
          · cases h

variable {U : Type}

/-- The arguments that a signature prescribes for some parameters: the values that were passed,
each read at the type of its position, and then as many times `None` as options were left
out. -/
def Reads (I : ArgTypes U) (params : Params) (us : List U) : Prop :=
  ∃ values given, passedValues params = some values ∧
    sig.required.length ≤ values.length ∧
    values.length ≤ sig.required.length + sig.trailing.length ∧
    Decodes I sig.types values given ∧
    us = given ++ List.replicate
      (sig.required.length + sig.trailing.length - values.length) I.none

variable {sig}

/-- The closure reads what the signature prescribes. -/
theorem read_eq_ok_iff {I : ArgTypes U} {special : List (SpecialArg × Ty)} {params : Params}
    {us : List U} : (sig.closure special).read I params = .ok us ↔ sig.Reads I params us := by
  have hread : (sig.closure special).read I params =
      paramsWithTrailing I sig.trailing.length sig.types params := by
    rw [← trailingArgsNum_types]
    rfl
  have hrequired : sig.types.length - sig.trailing.length = sig.required.length := by
    rw [length_types]
    omega
  rw [hread]
  constructor
  · intro h
    obtain ⟨values, hvalues, hge, hle⟩ := length_of_paramsWithTrailing h
    obtain ⟨given, hgiven, hus⟩ := (paramsWithTrailing_eq_ok_iff hvalues hge hle).mp h
    rw [hrequired] at hge
    rw [length_types] at hle hus
    exact ⟨values, given, hvalues, hge, hle, hgiven, hus⟩
  · rintro ⟨values, given, hvalues, hge, hle, hgiven, hus⟩
    rw [← hrequired] at hge
    rw [← length_types] at hle hus
    exact (paramsWithTrailing_eq_ok_iff hvalues hge hle).mpr ⟨given, hgiven, hus⟩

end Signature

section Nulls

variable {U : Type}

/-- Null is read as `None` at each option. -/
theorem decodes_nulls_iff (I : OptionTypes U) {types : List Ty}
    (hoption : ∀ ty ∈ types, isOptionType ty) {k : ℕ} (hle : k ≤ types.length) {us : List U} :
    Decodes I.toArgTypes types (List.replicate k .null) us ↔ us = List.replicate k I.none := by
  induction types generalizing k us with
  | nil =>
    have hk : k = 0 := Nat.le_zero.mp hle
    subst hk
    simp [Decodes]
  | cons ty types ih =>
    cases k with
    | zero => simp [Decodes]
    | succ k =>
      have hnull := I.deserialize_null (hoption ty List.mem_cons_self)
      have hrest := fun us => @ih (fun ty hty => hoption ty (List.mem_cons_of_mem _ hty)) k
        (Nat.le_of_succ_le_succ hle) us
      unfold Decodes at hrest ⊢
      rw [List.replicate_succ, List.replicate_succ, List.zip_cons_cons,
        List.forall₂_cons_left_iff]
      simp only [hnull, hrest, Except.ok.injEq]
      constructor
      · rintro ⟨u, us', rfl, rfl, rfl⟩
        rfl
      · rintro rfl
        exact ⟨_, _, rfl, rfl, rfl⟩

/-- Nulls that are passed for options at the end add as many times `None`. -/
theorem Signature.decodes_append_nulls_iff (I : OptionTypes U) (sig : Signature)
    {values : List Value} {k : ℕ} (hge : sig.required.length ≤ values.length)
    (hle : values.length + k ≤ sig.types.length) {us : List U} :
    Decodes I.toArgTypes sig.types (values ++ List.replicate k .null) us ↔
      ∃ given, Decodes I.toArgTypes sig.types values given ∧
        us = given ++ List.replicate k I.none := by
  have hlength : (sig.types.take values.length).length = values.length := by
    rw [List.length_take]
    omega
  have hoption : ∀ ty ∈ sig.types.drop values.length, isOptionType ty := by
    intro ty hty
    rw [Signature.types, List.drop_append, List.drop_eq_nil_of_le hge, List.nil_append] at hty
    exact sig.isOptionType_of_mem ty (List.mem_of_mem_drop hty)
  have hk : k ≤ (sig.types.drop values.length).length := by
    rw [List.length_drop]
    omega
  have hsplit : Decodes I.toArgTypes
      (sig.types.take values.length ++ sig.types.drop values.length)
      (values ++ List.replicate k .null) us ↔ _ := decodes_append_iff hlength
  rw [List.take_append_drop] at hsplit
  rw [hsplit]
  simp only [decodes_take, decodes_nulls_iff I hoption hk]
  constructor
  · rintro ⟨given, last, hgiven, rfl, hus⟩
    exact ⟨given, hgiven, hus⟩
  · rintro ⟨given, hgiven, hus⟩
    exact ⟨given, _, hgiven, rfl, hus⟩

end Nulls

namespace Signature

variable {U : Type} (sig : Signature)

/-- Options at the end may be passed as nulls or left out. -/
theorem reads_nulls_iff (I : OptionTypes U) {params : Params} {values : List Value} {k : ℕ}
    (hvalues : passedValues params = some values) (hge : sig.required.length ≤ values.length)
    (hle : values.length + k ≤ sig.required.length + sig.trailing.length) {us : List U} :
    sig.Reads I.toArgTypes (.array (values ++ List.replicate k .null)) us ↔
      sig.Reads I.toArgTypes params us := by
  rw [← length_types] at hle
  have hlength : (values ++ List.replicate k Value.null).length = values.length + k := by
    rw [List.length_append, List.length_replicate]
  -- what is read as `None` and what is filled with it add up to the options left out
  have hreplicate : List.replicate k I.none ++
      List.replicate (sig.types.length - (values.length + k)) I.none =
        List.replicate (sig.types.length - values.length) I.none := by
    rw [List.replicate_append_replicate]
    congr 1
    omega
  constructor
  · rintro ⟨values', given, hvalues', _, _, hgiven, hus⟩
    cases hvalues'
    obtain ⟨given', hgiven', rfl⟩ := (sig.decodes_append_nulls_iff I hge hle).mp hgiven
    rw [← length_types, hlength, List.append_assoc, hreplicate, length_types] at hus
    rw [length_types] at hle
    exact ⟨values, given', hvalues, hge, by omega, hgiven', hus⟩
  · rintro ⟨values', given, hvalues', _, _, hgiven, hus⟩
    rw [hvalues] at hvalues'
    cases hvalues'
    refine ⟨_, _, rfl, by omega, ?_,
      (sig.decodes_append_nulls_iff I hge hle).mpr ⟨given, hgiven, rfl⟩, ?_⟩
    · rw [← length_types]
      omega
    · rw [← length_types, hlength, List.append_assoc, hreplicate, length_types]
      exact hus

/-- **Trailing parameters.** Every method with the types of a signature gets the closure of
the signature. This closure reads what the signature prescribes and calls the method with it.
It does not matter whether options at the end are left out or passed as nulls. All other
parameters are invalid, and the method is not called with them. -/
theorem trailing_params (I : OptionTypes U) (special : List (SpecialArg × Ty))
    (kind : MethodKind) (params : Params) :
    (∀ m : RpcMethod, m.paramTypes = sig.types →
      ∃ args, generateDelegateClosure m = .ok (sig.closure args)) ∧
    (∀ us, (sig.closure special).read I.toArgTypes params = .ok us ↔
      sig.Reads I.toArgTypes params us) ∧
    (∀ us, (sig.closure special).invoke I.toArgTypes kind params = .called us ↔
      sig.Reads I.toArgTypes params us) ∧
    (∀ values k, passedValues params = some values → sig.required.length ≤ values.length →
      values.length + k ≤ sig.required.length + sig.trailing.length →
      ∀ us, (sig.closure special).read I.toArgTypes params = .ok us ↔
        (sig.closure special).read I.toArgTypes
          (.array (values ++ List.replicate k .null)) = .ok us) ∧
    ((¬∃ us, sig.Reads I.toArgTypes params us) →
      ∃ e, e.code = .invalidParams ∧
        (sig.closure special).read I.toArgTypes params = .error e ∧
        (sig.closure special).invoke I.toArgTypes kind params = .refused e kind) := by
  refine ⟨?_, fun us => read_eq_ok_iff, ?_, ?_, ?_⟩
  · intro m hm
    exact ⟨_, sig.generateDelegateClosure_eq hm⟩
  · intro us
    have hread : (sig.closure special).read I.toArgTypes params = .ok us ↔
      sig.Reads I.toArgTypes params us := read_eq_ok_iff
    rw [← hread, DelegateClosure.invoke]
    cases (sig.closure special).read I.toArgTypes params with
    | ok args => simp
    | error e => cases kind <;> simp [Invocation.refused]
  · intro values k hvalues hge hle us
    rw [read_eq_ok_iff, read_eq_ok_iff, sig.reads_nulls_iff I hvalues hge hle]
  · intro hnone
    cases hread : (sig.closure special).read I.toArgTypes params with
    | ok us => exact absurd ⟨us, read_eq_ok_iff.mp hread⟩ hnone
    | error e =>
      refine ⟨e, code_of_paramsWithTrailing hread, rfl, ?_⟩
      rw [DelegateClosure.invoke, hread]

end Signature

end JsonRpc.Derive
