import JsonRpc.Lib.SortedMap
import Mathlib.Data.String.Basic

/-!
# JSON trees and values

`Content` is a JSON document as the deserializer buffers it for untagged types:
a tree that keeps the entries of an object in the order of the text, duplicate
keys included. `Value` is a JSON value of the program. Its objects are ordered
maps, so it is a tree whose objects have strictly increasing keys. A value is
read from any tree by inserting the entries of each object one after another.
The texts of JSON are left to the two functions of `SerdeJson`.
-/

namespace JsonRpc

/-- A finite double, given by its bits. JSON has no text for the other doubles. -/
structure FiniteFloat where
  /-- The bits of the double. -/
  bits : UInt64
  exponent_ne : bits >>> 52 &&& 0x7FF ≠ 0x7FF
  deriving DecidableEq

/-- A number as the parser of JSON represents it. -/
inductive Number where
  /-- An integer that is not negative. -/
  | posInt (n : UInt64)
  /-- A negative integer. -/
  | negInt (n : Int64) (neg : n < 0)
  /-- Any other number. -/
  | float (x : FiniteFloat)
  deriving DecidableEq

/-- A JSON document with the entries of its objects in the order of the text. -/
inductive Content where
  | null
  | bool (b : Bool)
  | number (n : Number)
  | str (s : String)
  | seq (elems : List Content)
  | map (entries : List (String × Content))

namespace Content

/-- Induction over trees, with the hypothesis for every element of a sequence
and for the value of every entry of a map. -/
@[induction_eliminator]
theorem induction {motive : Content → Prop} (null : motive null)
    (bool : ∀ b, motive (bool b)) (number : ∀ n, motive (number n)) (str : ∀ s, motive (str s))
    (seq : ∀ elems, (∀ c ∈ elems, motive c) → motive (seq elems))
    (map : ∀ entries, (∀ e ∈ entries, motive e.2) → motive (map entries)) (c : Content) :
    motive c :=
  @Content.rec motive (fun elems => ∀ c ∈ elems, motive c)
    (fun entries => ∀ e ∈ entries, motive e.2) (fun e => motive e.2)
    null bool number str seq map (List.forall_mem_nil _)
    (fun _ _ hc helems => List.forall_mem_cons.mpr ⟨hc, helems⟩) (List.forall_mem_nil _)
    (fun _ _ he hentries => List.forall_mem_cons.mpr ⟨he, hentries⟩) (fun _ _ hc => hc) c

/-! ## Equality of trees -/

mutual

/-- Equality of two trees. -/
def beq : Content → Content → Bool
  | null, null => true
  | bool a, bool b => a == b
  | number a, number b => a == b
  | str a, str b => a == b
  | seq as, seq bs => beqSeq as bs
  | map as, map bs => beqMap as bs
  | _, _ => false

/-- Equality of two sequences. -/
def beqSeq : List Content → List Content → Bool
  | [], [] => true
  | a :: as, b :: bs => a.beq b && beqSeq as bs
  | _, _ => false

/-- Equality of the entries of two maps. -/
def beqMap : List (String × Content) → List (String × Content) → Bool
  | [], [] => true
  | (k, a) :: as, (l, b) :: bs => k == l && a.beq b && beqMap as bs
  | _, _ => false

end

theorem beqSeq_iff {as bs : List Content} (h : ∀ a ∈ as, ∀ b, a.beq b ↔ a = b) :
    beqSeq as bs ↔ as = bs := by
  induction as generalizing bs with
  | nil => cases bs <;> simp [beqSeq]
  | cons a as ih =>
    obtain ⟨ha, has⟩ := List.forall_mem_cons.mp h
    cases bs with
    | nil => simp [beqSeq]
    | cons b bs => simp [beqSeq, ha b, ih has]

theorem beqMap_iff {as bs : List (String × Content)}
    (h : ∀ a ∈ as, ∀ b, a.2.beq b ↔ a.2 = b) : beqMap as bs ↔ as = bs := by
  induction as generalizing bs with
  | nil => cases bs <;> simp [beqMap]
  | cons a as ih =>
    obtain ⟨ha, has⟩ := List.forall_mem_cons.mp h
    cases bs with
    | nil => simp [beqMap]
    | cons b bs => simp [beqMap, ha b.2, ih has, Prod.ext_iff]

/-- The equality test decides equality. -/
theorem beq_iff (a b : Content) : a.beq b ↔ a = b := by
  induction a generalizing b with
  | null => cases b <;> simp [beq]
  | bool => cases b <;> simp [beq]
  | number => cases b <;> simp [beq]
  | str => cases b <;> simp [beq]
  | seq as ih => cases b <;> simp [beq, beqSeq_iff ih]
  | map as ih => cases b <;> simp [beq, beqMap_iff ih]

instance : DecidableEq Content := fun a b => decidable_of_iff _ (beq_iff a b)

/-! ## Trees with ordered objects -/

mutual

/-- The keys of every object are strictly increasing. -/
def isCanonical : Content → Bool
  | seq elems => isCanonicalSeq elems
  | map entries => decide (SortedMap.IsSorted entries) && isCanonicalMap entries
  | _ => true

/-- Every element is canonical. -/
def isCanonicalSeq : List Content → Bool
  | [] => true
  | c :: elems => c.isCanonical && isCanonicalSeq elems

/-- The value of every entry is canonical. -/
def isCanonicalMap : List (String × Content) → Bool
  | [] => true
  | (_, c) :: entries => c.isCanonical && isCanonicalMap entries

end

mutual

/-- The tree with the entries of every object inserted into an ordered map. -/
def normalize : Content → Content
  | seq elems => seq (normalizeSeq elems)
  | map entries => map (SortedMap.ofList (normalizeMap entries))
  | c => c

/-- The normalized elements. -/
def normalizeSeq : List Content → List Content
  | [] => []
  | c :: elems => c.normalize :: normalizeSeq elems

/-- The entries with normalized values. -/
def normalizeMap : List (String × Content) → List (String × Content)
  | [] => []
  | (k, c) :: entries => (k, c.normalize) :: normalizeMap entries

end

/-- A sequence is canonical when its elements are. -/
theorem isCanonical_seq {elems : List Content} :
    (seq elems).isCanonical ↔ ∀ c ∈ elems, c.isCanonical := by
  rw [isCanonical]
  induction elems with
  | nil => simp [isCanonicalSeq]
  | cons c elems ih => simp only [isCanonicalSeq, Bool.and_eq_true, ih, List.forall_mem_cons]

/-- A map is canonical when it is sorted and its values are canonical. -/
theorem isCanonical_map {entries : List (String × Content)} :
    (map entries).isCanonical ↔
      SortedMap.IsSorted entries ∧ ∀ e ∈ entries, e.2.isCanonical := by
  rw [isCanonical, Bool.and_eq_true, decide_eq_true_iff]
  have hvalues : isCanonicalMap entries ↔ ∀ e ∈ entries, e.2.isCanonical := by
    induction entries with
    | nil => simp [isCanonicalMap]
    | cons e entries ih => simp only [isCanonicalMap, Bool.and_eq_true, ih, List.forall_mem_cons]
  rw [hvalues]

theorem normalizeSeq_eq_map (elems : List Content) : normalizeSeq elems = elems.map normalize := by
  induction elems with
  | nil => rfl
  | cons c elems ih => rw [normalizeSeq, ih, List.map_cons]

theorem normalizeMap_eq_map (entries : List (String × Content)) :
    normalizeMap entries = entries.map fun e => (e.1, e.2.normalize) := by
  induction entries with
  | nil => rfl
  | cons e entries ih => rw [normalizeMap, ih, List.map_cons]

/-- Normalization yields a canonical tree. -/
theorem isCanonical_normalize (c : Content) : c.normalize.isCanonical := by
  induction c with
  | null => rfl
  | bool => rfl
  | number => rfl
  | str => rfl
  | seq elems ih =>
    rw [normalize, isCanonical_seq, normalizeSeq_eq_map, List.forall_mem_map]
    exact ih
  | map entries ih =>
    rw [normalize, isCanonical_map, normalizeMap_eq_map]
    refine ⟨SortedMap.isSorted_ofList _, fun e he => ?_⟩
    obtain ⟨e, hmem, rfl⟩ := List.mem_map.mp (SortedMap.mem_of_mem_ofList he)
    exact ih e hmem

/-- A canonical tree is its own normalization. -/
theorem normalize_of_isCanonical {c : Content} (h : c.isCanonical) : c.normalize = c := by
  induction c with
  | null => rfl
  | bool => rfl
  | number => rfl
  | str => rfl
  | seq elems ih =>
    have helems := isCanonical_seq.mp h
    rw [normalize, normalizeSeq_eq_map, List.map_congr_left fun c hc => ih c hc (helems c hc),
      List.map_id']
  | map entries ih =>
    obtain ⟨hsorted, hvalues⟩ := isCanonical_map.mp h
    have hentries : entries.map (fun e => (e.1, e.2.normalize)) = entries := by
      refine (List.map_congr_left fun e he => ?_).trans (List.map_id entries)
      exact Prod.ext rfl (ih e he (hvalues e he))
    rw [normalize, normalizeMap_eq_map, hentries, SortedMap.ofList_of_isSorted hsorted]

end Content

/-! ## Values -/

/-- A JSON value: a tree whose objects are ordered maps. -/
structure Value where
  /-- The tree of the value. -/
  content : Content
  isCanonical : content.isCanonical
  deriving DecidableEq

/-- An object as a value holds it. -/
structure Map where
  /-- The entries, in strictly increasing key order. -/
  entries : List (String × Content)
  isCanonical : (Content.map entries).isCanonical
  deriving DecidableEq

namespace Value

/-- The value `null`. -/
def null : Value := ⟨.null, rfl⟩

/-- A boolean. -/
def bool (b : Bool) : Value := ⟨.bool b, rfl⟩

theorem isCanonical_str (s : String) : (Content.str s).isCanonical := rfl

/-- A string. -/
def str (s : String) : Value := ⟨.str s, isCanonical_str s⟩

theorem isCanonical_array (values : List Value) :
    (Content.seq (values.map content)).isCanonical :=
  Content.isCanonical_seq.mpr (List.forall_mem_map.mpr fun v _ => v.isCanonical)

/-- An array of values. -/
def array (values : List Value) : Value :=
  ⟨.seq (values.map content), isCanonical_array values⟩

/-- A value is written as its tree. -/
def serialize (v : Value) : Content := v.content

/-- A value is read from any tree. -/
def deserialize (c : Content) : Value := ⟨c.normalize, c.isCanonical_normalize⟩

/-- Reading a written value returns it. -/
@[simp] theorem deserialize_serialize (v : Value) : deserialize v.serialize = v := by
  obtain ⟨c, hc⟩ := v
  simp only [deserialize, serialize, Content.normalize_of_isCanonical hc]

end Value

namespace Map

/-- A map is written as its entries. -/
def serialize (m : Map) : Content := .map m.entries

/-- A map is read from the entries of an object. -/
def deserialize (entries : List (String × Content)) : Map :=
  ⟨SortedMap.ofList (Content.normalizeMap entries), (Content.map entries).isCanonical_normalize⟩

/-- Reading the entries of a map returns it. -/
@[simp] theorem deserialize_entries (m : Map) : deserialize m.entries = m := by
  obtain ⟨entries, hentries⟩ := m
  have h := Content.normalize_of_isCanonical hentries
  rw [Content.normalize, Content.map.injEq] at h
  simp only [deserialize, h]

end Map

/-- The functions between trees and texts of the JSON library. -/
structure SerdeJson where
  /-- The text of a tree. -/
  toString : Content → String
  /-- The tree of a text, if the text is a JSON document. -/
  fromStr : String → Option Content

/-- The JSON library on a table of trees and their texts. -/
def SerdeJson.ofTable (table : List (Content × String)) : SerdeJson where
  toString c := ((table.find? fun entry => entry.1 = c).map Prod.snd).getD ""
  fromStr s := (table.find? fun entry => entry.2 = s).map Prod.fst

end JsonRpc
