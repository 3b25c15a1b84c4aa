import Mathlib.Order.Lattice
import Mathlib.Tactic.Common

/-!
# Maps as key-sorted lists

A map over a linearly ordered key type is stored as the list of its entries in
strictly increasing key order. Inserting a key that is already present replaces
its value, so building a map from a list of entries keeps the last value of
each key. A list that is already sorted is the map it builds.
-/

namespace SortedMap

variable {K V : Type*} [LinearOrder K]

/-- The entries are in strictly increasing key order. -/
def IsSorted (entries : List (K × V)) : Prop :=
  entries.Pairwise fun a b => a.1 < b.1

instance (entries : List (K × V)) : Decidable (IsSorted entries) :=
  inferInstanceAs (Decidable (entries.Pairwise fun a b => a.1 < b.1))

/-- Insert a key with its value, replacing the value the key had. -/
def insert (key : K) (value : V) : List (K × V) → List (K × V)
  | [] => [(key, value)]
  | entry :: entries =>
    if key < entry.1 then (key, value) :: entry :: entries
    else if key = entry.1 then (key, value) :: entries
    else entry :: insert key value entries

/-- The map built by inserting the entries one after another. -/
def ofList (entries : List (K × V)) : List (K × V) :=
  entries.foldl (fun map entry => insert entry.1 entry.2 map) []

/-- An inserted map holds the new entry and entries of the old map. -/
theorem mem_insert {key : K} {value : V} {entries : List (K × V)} {entry : K × V}
    (h : entry ∈ insert key value entries) : entry = (key, value) ∨ entry ∈ entries := by
  induction entries with
  | nil => exact Or.inl (List.mem_singleton.mp h)
  | cons head tail ih =>
    unfold insert at h
    split at h
    · exact List.mem_cons.mp h
    · split at h
      · rcases List.mem_cons.mp h with rfl | h
        · exact Or.inl rfl
        · exact Or.inr (List.mem_cons_of_mem _ h)
      · rcases List.mem_cons.mp h with rfl | h
        · exact Or.inr List.mem_cons_self
        · exact (ih h).imp_right (List.mem_cons_of_mem _)

/-- Insertion keeps the entries sorted. -/
theorem isSorted_insert (key : K) (value : V) {entries : List (K × V)} (h : IsSorted entries) :
    IsSorted (insert key value entries) := by
  induction entries with
  | nil => exact List.pairwise_singleton _ _
  | cons head tail ih =>
    obtain ⟨hhead, htail⟩ := List.pairwise_cons.mp h
    unfold insert
    split
    case isTrue hlt =>
      refine List.pairwise_cons.mpr ⟨?_, h⟩
      intro entry hentry
      rcases List.mem_cons.mp hentry with rfl | hentry
      · exact hlt
      · exact lt_trans hlt (hhead entry hentry)
    case isFalse hlt =>
      split
      case isTrue heq =>
        subst heq
        exact List.pairwise_cons.mpr ⟨hhead, htail⟩
      case isFalse hne =>
        refine List.pairwise_cons.mpr ⟨?_, ih htail⟩
        intro entry hentry
        rcases mem_insert hentry with rfl | hentry
        · exact lt_of_le_of_ne (not_lt.mp hlt) (Ne.symm hne)
        · exact hhead entry hentry

/-- A key above all others is inserted at the end. -/
theorem insert_of_forall_lt {key : K} (value : V) {entries : List (K × V)}
    (h : ∀ entry ∈ entries, entry.1 < key) :
    insert key value entries = entries ++ [(key, value)] := by
  induction entries with
  | nil => rfl
  | cons head tail ih =>
    have hhead := h head List.mem_cons_self
    rw [insert, if_neg (lt_asymm hhead), if_neg (ne_of_gt hhead),
      ih fun entry hentry => h entry (List.mem_cons_of_mem _ hentry)]
    rfl

/-- Every built map is sorted. -/
theorem isSorted_ofList (entries : List (K × V)) : IsSorted (ofList entries) := by
  suffices hfold : ∀ map : List (K × V), IsSorted map →
      IsSorted (entries.foldl (fun map entry => insert entry.1 entry.2 map) map) from
    hfold [] List.Pairwise.nil
  induction entries with
  | nil => exact fun _ hmap => hmap
  | cons entry entries ih => exact fun map hmap => ih _ (isSorted_insert _ _ hmap)

/-- Every entry of a built map is one of the given entries. -/
theorem mem_of_mem_ofList {entries : List (K × V)} {entry : K × V} (h : entry ∈ ofList entries) :
    entry ∈ entries := by
  have hfold : ∀ map : List (K × V),
      entry ∈ entries.foldl (fun map entry => insert entry.1 entry.2 map) map →
        entry ∈ map ∨ entry ∈ entries := by
    clear h
    induction entries with
    | nil => exact fun _ h => Or.inl h
    | cons head tail ih =>
      intro map h
      rcases ih _ h with h | h
      · rcases mem_insert h with rfl | h
        · exact Or.inr List.mem_cons_self
        · exact Or.inl h
      · exact Or.inr (List.mem_cons_of_mem _ h)
  exact (hfold [] h).resolve_left List.not_mem_nil

/-- **Sorted lists are maps.** A sorted list is the map it builds. -/
theorem ofList_of_isSorted {entries : List (K × V)} (h : IsSorted entries) :
    ofList entries = entries := by
  have hfold : ∀ done : List (K × V), IsSorted (done ++ entries) →
      entries.foldl (fun map entry => insert entry.1 entry.2 map) done = done ++ entries := by
    clear h
    induction entries with
    | nil => exact fun done _ => (List.append_nil done).symm
    | cons entry entries ih =>
      intro done hdone
      have hlast : ∀ e ∈ done, e.1 < entry.1 := fun e he =>
        (List.pairwise_append.mp hdone).2.2 e he entry List.mem_cons_self
      rw [List.append_cons] at hdone
      rw [List.foldl_cons, insert_of_forall_lt _ hlast, ih _ hdone, List.append_assoc,
        List.singleton_append]
  exact hfold [] h

end SortedMap
