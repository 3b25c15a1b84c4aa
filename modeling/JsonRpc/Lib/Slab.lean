import Mathlib.Data.List.Infix
import Mathlib.Data.List.Nodup
import Mathlib.Data.List.Range
import Mathlib.Logic.Function.Basic
import Mathlib.Tactic.Common

/-!
# Slabs

A slab is a table that chooses the keys of its entries itself. A key can be used again once its
entry is removed, so a key says nothing about who inserted the entry. If every owner of an
entry removes it once, with the key it was given, then no two owners ever have the same key.
-/

/-- The operations of a slab, with what they do to its table. -/
structure Slab (α : Type) where
  Table : Type
  new : Table
  get : Table → ℕ → Option α
  /-- The keys of the entries, in the order of an iteration. -/
  keys : Table → List ℕ
  insert : Table → α → ℕ × Table
  /-- Remove an entry. There is no table if the key is vacant. -/
  remove : Table → ℕ → Option Table
  /-- Change every entry. -/
  modifyAll : Table → (α → α) → Table
  get_new : ∀ k, get new k = none
  mem_keys : ∀ s k, k ∈ keys s ↔ (get s k).isSome
  nodup_keys : ∀ s, (keys s).Nodup
  get_insert_eq_none : ∀ s a, get s (insert s a).1 = none
  get_insert : ∀ s a, get (insert s a).2 = Function.update (get s) (insert s a).1 (some a)
  remove_eq_none : ∀ s k, remove s k = none ↔ get s k = none
  get_remove : ∀ s s' k, remove s k = some s' → get s' = Function.update (get s) k none
  get_modifyAll : ∀ s f k, get (modifyAll s f) k = (get s k).map f

namespace Slab

/-! ## A slab that takes the first vacant key -/

section Vec

variable {α : Type}

/-- The key of the next entry. -/
def firstVacant (s : List (Option α)) : ℕ := s.findIdx (·.isNone)

theorem getElem?_firstVacant (s : List (Option α)) : s[firstVacant s]?.join = none := by
  by_cases hlt : firstVacant s < s.length
  · have hnone : s[firstVacant s].isNone = true := List.findIdx_getElem (w := hlt)
    simpa [List.getElem?_eq_getElem hlt] using hnone
  · rw [List.getElem?_eq_none (by omega)]
    rfl

theorem getElem?_set_join (s : List (Option α)) {k : ℕ} (hk : k < s.length) (a : Option α)
    (i : ℕ) :
    (s.set k a)[i]?.join = Function.update (fun i => s[i]?.join) k a i := by
  by_cases hik : i = k
  · subst hik
    simp [hk]
  · simp [hik, List.getElem?_set_ne (Ne.symm hik)]

theorem getElem?_concat_join (s : List (Option α)) (a : Option α) (i : ℕ) :
    (s ++ [a])[i]?.join = Function.update (fun i => s[i]?.join) s.length a i := by
  by_cases hi : i = s.length
  · subst hi
    simp
  · rw [Function.update_of_ne hi]
    by_cases hlt : i < s.length
    · rw [List.getElem?_append_left hlt]
    · rw [List.getElem?_eq_none (by simp; omega), List.getElem?_eq_none (by omega)]

theorem lt_length_of_isSome {s : List (Option α)} {k : ℕ} (h : s[k]?.join.isSome) :
    k < s.length := by
  by_contra hle
  rw [List.getElem?_eq_none (by omega)] at h
  cases h

/-- The slab whose table is a list of entries. -/
def vec (α : Type) : Slab α where
  Table := List (Option α)
  new := []
  get s k := s[k]?.join
  keys s := (List.range s.length).filter fun k => s[k]?.join.isSome
  insert s a :=
    (firstVacant s,
      if firstVacant s < s.length then s.set (firstVacant s) (some a) else s ++ [some a])
  remove s k := if s[k]?.join.isSome then some (s.set k none) else none
  modifyAll s f := s.map (Option.map f)
  get_new k := by simp
  mem_keys s k := by
    rw [List.mem_filter, List.mem_range]
    exact and_iff_right_of_imp lt_length_of_isSome
  nodup_keys s := List.nodup_range.filter _
  get_insert_eq_none s a := getElem?_firstVacant s
  get_insert s a := by
    funext i
    by_cases hlt : firstVacant s < s.length
    · simp only [if_pos hlt]
      exact getElem?_set_join s hlt (some a) i
    · have hlast : firstVacant s = s.length := le_antisymm List.findIdx_le_length (by omega)
      simp only [if_neg hlt]
      rw [hlast]
      exact getElem?_concat_join s (some a) i
  remove_eq_none s k := by simp
  get_remove s s' k h := by
    funext i
    obtain ⟨hsome, heq⟩ := Option.ite_none_right_eq_some.mp h
    cases heq
    exact getElem?_set_join s (lt_length_of_isSome hsome) none i
  get_modifyAll s f k := by
    rw [List.getElem?_map]
    rcases s[k]? with _ | _ | _ <;> rfl

end Vec

/-! ## Owners of entries -/

variable {α : Type} (S : Slab α) {I : Type}

/-- Each owner has the key and the content of its entry. -/
structure Custody (s : S.Table) (owner : I → Option (ℕ × α)) : Prop where
  get_eq : ∀ i k a, owner i = some (k, a) → S.get s k = some a
  key_inj : ∀ i j k a b, owner i = some (k, a) → owner j = some (k, b) → i = j
  owned : ∀ k a, S.get s k = some a → ∃ i, owner i = some (k, a)

variable {S}

theorem custody_new : S.Custody S.new fun _ : I => none where
  get_eq _ _ _ h := by cases h
  key_inj _ _ _ _ _ h := by cases h
  owned k a h := by
    rw [S.get_new] at h
    cases h

namespace Custody

variable {s : S.Table} {owner : I → Option (ℕ × α)} [DecidableEq I]

/-- A new owner gets a key that nobody has. -/
theorem insert (h : S.Custody s owner) {i : I} (hi : owner i = none) (a : α) :
    S.Custody (S.insert s a).2 (Function.update owner i (some ((S.insert s a).1, a))) := by
  have hvacant : ∀ j b, owner j ≠ some ((S.insert s a).1, b) := by
    intro j b hj
    cases (h.get_eq j _ b hj).symm.trans (S.get_insert_eq_none s a)
  refine ⟨fun j k b hj => ?_, fun j j' k b b' hj hj' => ?_, fun k b hk => ?_⟩
  · rw [S.get_insert]
    by_cases hji : j = i
    · subst hji
      rw [Function.update_self] at hj
      cases hj
      exact Function.update_self _ _ _
    · rw [Function.update_of_ne hji] at hj
      have hne : k ≠ (S.insert s a).1 := by
        rintro rfl
        exact hvacant j b hj
      rw [Function.update_of_ne hne]
      exact h.get_eq j k b hj
  · by_cases hji : j = i <;> by_cases hji' : j' = i
    · rw [hji, hji']
    · subst hji
      rw [Function.update_self] at hj
      rw [Function.update_of_ne hji'] at hj'
      cases hj
      exact absurd hj' (hvacant j' b')
    · subst hji'
      rw [Function.update_self] at hj'
      rw [Function.update_of_ne hji] at hj
      cases hj'
      exact absurd hj (hvacant j b)
    · rw [Function.update_of_ne hji] at hj
      rw [Function.update_of_ne hji'] at hj'
      exact h.key_inj j j' k b b' hj hj'
  · rw [S.get_insert] at hk
    by_cases hkey : k = (S.insert s a).1
    · subst hkey
      rw [Function.update_self] at hk
      cases hk
      exact ⟨i, Function.update_self _ _ _⟩
    · rw [Function.update_of_ne hkey] at hk
      obtain ⟨j, hj⟩ := h.owned k b hk
      refine ⟨j, ?_⟩
      rw [Function.update_of_ne]
      · exact hj
      · rintro rfl
        cases hi.symm.trans hj

/-- An owner can remove its entry, and has no entry afterwards. -/
theorem remove (h : S.Custody s owner) {i : I} {k : ℕ} {a : α} (hi : owner i = some (k, a)) :
    ∃ s', S.remove s k = some s' ∧ S.Custody s' (Function.update owner i none) := by
  have hsome : S.remove s k ≠ none := by
    rw [Ne, S.remove_eq_none, h.get_eq i k a hi]
    simp
  obtain ⟨s', hs'⟩ := Option.ne_none_iff_exists'.mp hsome
  have hget := S.get_remove s s' k hs'
  refine ⟨s', hs', fun j k' b hj => ?_, fun j j' k' b b' hj hj' => ?_, fun k' b hk' => ?_⟩
  · by_cases hji : j = i
    · subst hji
      rw [Function.update_self] at hj
      cases hj
    · rw [Function.update_of_ne hji] at hj
      have hne : k' ≠ k := by
        rintro rfl
        exact hji (h.key_inj j i k' b a hj hi)
      rw [hget, Function.update_of_ne hne]
      exact h.get_eq j k' b hj
  · have hold {j : I} {b : α} (hj : Function.update owner i none j = some (k', b)) :
        owner j = some (k', b) := by
      by_cases hji : j = i
      · subst hji
        rw [Function.update_self] at hj
        cases hj
      · rwa [Function.update_of_ne hji] at hj
    exact h.key_inj j j' k' b b' (hold hj) (hold hj')
  · rw [hget] at hk'
    by_cases hkey : k' = k
    · subst hkey
      rw [Function.update_self] at hk'
      cases hk'
    · rw [Function.update_of_ne hkey] at hk'
      obtain ⟨j, hj⟩ := h.owned k' b hk'
      refine ⟨j, ?_⟩
      rw [Function.update_of_ne]
      · exact hj
      · rintro rfl
        cases hi.symm.trans hj
        exact hkey rfl

omit [DecidableEq I] in
/-- Every owner keeps its key when the entries are changed. -/
theorem modifyAll (h : S.Custody s owner) (f : α → α) :
    S.Custody (S.modifyAll s f) fun i => (owner i).map (Prod.map id f) := by
  refine ⟨fun i k b hi => ?_, fun i j k b b' hi hj => ?_, fun k b hk => ?_⟩
  · obtain ⟨⟨k', a⟩, hi', heq⟩ := Option.map_eq_some_iff.mp hi
    cases heq
    rw [S.get_modifyAll]
    exact congrArg (Option.map f) (h.get_eq i _ a hi')
  · obtain ⟨⟨k', a⟩, hi', heq⟩ := Option.map_eq_some_iff.mp hi
    cases heq
    obtain ⟨⟨k'', a'⟩, hj', heq⟩ := Option.map_eq_some_iff.mp hj
    cases heq
    exact h.key_inj i j _ a a' hi' hj'
  · rw [S.get_modifyAll] at hk
    obtain ⟨a, ha, rfl⟩ := Option.map_eq_some_iff.mp hk
    obtain ⟨i, hi⟩ := h.owned k a ha
    exact ⟨i, by simp [hi]⟩

omit [DecidableEq I] in
/-- The occupied keys are those of the owners. -/
theorem isSome_get_iff (h : S.Custody s owner) (k : ℕ) :
    (S.get s k).isSome ↔ ∃ i a, owner i = some (k, a) := by
  rw [Option.isSome_iff_exists]
  constructor
  · rintro ⟨a, ha⟩
    obtain ⟨i, hi⟩ := h.owned k a ha
    exact ⟨i, a, hi⟩
  · rintro ⟨i, a, hi⟩
    exact ⟨a, h.get_eq i k a hi⟩

end Custody

end Slab
