import JsonRpc.Serde.Content
import Mathlib.Algebra.Group.Nat.Defs
import Mathlib.Data.List.Forall2

/-!
# Derived deserialization

The rules by which the derived implementations read a tree. A struct is read
from a map, where the entries are found by name, or from a sequence, where they
are found by position. A struct that denies unknown fields fails on any other
entry. A known field that occurs twice is an error. A missing field has its
default, is `None` if it is optional and the struct comes from a map, and is an
error otherwise. A vector fails as soon as one of its elements does.
-/

namespace JsonRpc

/-! ## Fields of structs -/

/-- A field of a derived struct. -/
structure Field (α : Type) where
  /-- The name of the field. -/
  name : String
  /-- How the field is read. -/
  deserialize : Content → Option α
  /-- The field of a map without an entry for it. -/
  absent : Option α
  /-- The field of a sequence that ends before it. -/
  short : Option α

namespace Field

variable {α : Type}

/-- A field that has to be present. -/
def required (name : String) (deserialize : Content → Option α) : Field α :=
  ⟨name, deserialize, none, none⟩

/-- A field of optional type: `null` and a missing entry are `None`. -/
def optional (name : String) (deserialize : Content → Option α) : Field (Option α) where
  name := name
  deserialize
    | .null => some none
    | c => (deserialize c).map some
  absent := some none
  short := none

/-- A field with a default. -/
def withDefault (name : String) (deserialize : Content → Option α) (default : α) : Field α :=
  ⟨name, deserialize, some default, some default⟩

end Field

/-- The fields a derived struct is read from. -/
structure Fields where
  /-- The entries, with the name of the field each of them is for. -/
  entries : List (String × Content)
  /-- The entries come from a sequence. -/
  positional : Bool

namespace Fields

/-- The entries for a field. -/
def find (fields : Fields) (name : String) : List Content :=
  (fields.entries.filter fun e => e.1 == name).map Prod.snd

/-- Read a field. -/
def read {α : Type} (fields : Fields) (field : Field α) : Option α :=
  match fields.find field.name with
  | [] => if fields.positional then field.short else field.absent
  | [c] => field.deserialize c
  | _ => none

end Fields

/-- The fields of a struct that denies unknown fields. -/
def Content.toStruct (names : List String) : Content → Option Fields
  | .map entries =>
    if entries.all fun e => names.contains e.1 then some ⟨entries, false⟩ else none
  | .seq elems => if elems.length ≤ names.length then some ⟨names.zip elems, true⟩ else none
  | _ => none

section ToStruct

variable {names : List String} {fields : Fields}

/-- A struct is read from a map that has no unknown entries. -/
theorem Content.toStruct_map_eq_some_iff {entries : List (String × Content)} :
    (Content.map entries).toStruct names = some fields ↔
      (∀ e ∈ entries, e.1 ∈ names) ∧ fields = ⟨entries, false⟩ := by
  have hknown : (entries.all fun e => names.contains e.1) = true ↔ ∀ e ∈ entries, e.1 ∈ names := by
    simp
  rw [Content.toStruct]
  split
  · rename_i hall
    rw [and_iff_right (hknown.mp hall), Option.some.injEq, eq_comm]
  · rename_i hall
    exact iff_of_false (by simp) fun h => hall (hknown.mpr h.1)

/-- A struct is read from a sequence with no more elements than it has fields. -/
theorem Content.toStruct_seq_eq_some_iff {elems : List Content} :
    (Content.seq elems).toStruct names = some fields ↔
      elems.length ≤ names.length ∧ fields = ⟨names.zip elems, true⟩ := by
  rw [Content.toStruct]
  split
  · rename_i hlength
    rw [and_iff_right hlength, Option.some.injEq, eq_comm]
  · rename_i hlength
    exact iff_of_false (by simp) fun h => hlength h.1

end ToStruct

/-- The fields of a struct variant of an untagged type: it is read from maps
only, and other entries are ignored. -/
def Content.toVariant : Content → Option Fields
  | .map entries => some ⟨entries, false⟩
  | _ => none

/-- An optional field is written as `null` when it is `None`. -/
def serializeOption {α : Type} (serialize : α → Content) : Option α → Content
  | none => .null
  | some a => serialize a

/-- The entry of an optional field that is skipped when it is `None`. -/
def skipNone {α : Type} (name : String) (serialize : α → Content) :
    Option α → List (String × Content)
  | none => []
  | some a => [(name, serialize a)]

/-! ## Strings, integers and vectors -/

/-- A string is read from a string. -/
def deserializeString : Content → Option String
  | .str s => some s
  | _ => none

/-- An `i64` is written as a number. -/
def serializeI64 (n : Int64) : Content :=
  if h : n < 0 then .number (.negInt n h) else .number (.posInt n.toUInt64)

/-- An `i64` is read from the integers in its range. -/
def deserializeI64 : Content → Option Int64
  | .number (.posInt n) => if n.toNat < 2 ^ 63 then some n.toInt64 else none
  | .number (.negInt n _) => some n
  | _ => none

/-- A vector is read from a sequence. -/
def deserializeVec {α : Type} (deserialize : Content → Option α) : Content → Option (List α)
  | .seq elems => elems.mapM deserialize
  | _ => none

/-- A vector is read element by element. -/
theorem mapM_eq_some_iff {α β : Type} {f : α → Option β} {as : List α} {bs : List β} :
    as.mapM f = some bs ↔ List.Forall₂ (fun a b => f a = some b) as bs := by
  induction as generalizing bs with
  | nil => simp [eq_comm]
  | cons a as ih =>
    rw [List.mapM_cons, List.forall₂_cons_left_iff]
    constructor
    · intro h
      obtain ⟨b, hb, h⟩ := Option.bind_eq_some_iff.mp h
      obtain ⟨bs', hbs, h⟩ := Option.bind_eq_some_iff.mp h
      exact ⟨b, bs', hb, ih.mp hbs, (Option.some.inj h).symm⟩
    · rintro ⟨b, bs', hb, hbs, rfl⟩
      rw [hb, ih.mpr hbs]
      rfl

/-- Every element of a vector was read from one of the sequence. -/
theorem exists_mem_of_mapM {α β : Type} {f : α → Option β} {as : List α} {bs : List β}
    (h : as.mapM f = some bs) {b : β} (hb : b ∈ bs) : ∃ a ∈ as, f a = some b := by
  rw [mapM_eq_some_iff] at h
  induction h with
  | nil => cases hb
  | @cons a _ _ _ hab _ ih =>
    rcases List.mem_cons.mp hb with rfl | hb
    · exact ⟨a, List.mem_cons_self, hab⟩
    · obtain ⟨a', ha', hf⟩ := ih hb
      exact ⟨a', List.mem_cons_of_mem _ ha', hf⟩

/-- One element that cannot be read fails the vector. -/
theorem mapM_eq_none {α β : Type} {f : α → Option β} {as : List α} {a : α} (ha : a ∈ as)
    (hf : f a = none) : as.mapM f = none := by
  induction as with
  | nil => exact absurd ha List.not_mem_nil
  | cons head tail ih =>
    rw [List.mapM_cons]
    rcases List.mem_cons.mp ha with rfl | ha
    · rw [hf]
      rfl
    · rw [ih ha]
      cases f head <;> rfl

/-- A vector of written elements is read back. -/
theorem mapM_map {α β : Type} {f : α → Option β} {g : β → α} {bs : List β}
    (h : ∀ b ∈ bs, f (g b) = some b) : (bs.map g).mapM f = some bs := by
  rw [mapM_eq_some_iff, List.forall₂_map_left_iff, List.forall₂_same]
  exact h

/-- A written `i64` is read back. -/
theorem deserializeI64_serializeI64 (n : Int64) : deserializeI64 (serializeI64 n) = some n := by
  unfold serializeI64
  split
  · rfl
  · rename_i hneg
    have hnonneg : 0 ≤ n.toInt := by
      rw [Int64.lt_iff_toInt_lt] at hneg
      exact Int.not_lt.mp hneg
    have hlt : n.toUInt64.toNat < 2 ^ 63 := by
      have hbits := n.toUInt64.toNat_lt
      rw [← Int64.toInt_toBitVec, BitVec.toInt_eq_toNat_cond, Int64.toNat_toBitVec] at hnonneg
      split at hnonneg <;> omega
    exact if_pos hlt

end JsonRpc
