import Mathlib.Data.List.Basic
import Mathlib.Data.List.Forall2
import Mathlib.Data.List.Nodup
import Mathlib.Data.List.Perm.Basic

/-!
# Partitions of a list

A list is split into the elements that satisfy a predicate and the ones that do not, or into
one group for each key of its elements. The parts put together are a permutation of the list.
-/

namespace List

section Relate

variable {α β : Type} {R S : α → β → Prop} {l : List α}

/-- Relations that agree on a list relate it to the same lists. -/
theorem forall₂_iff_of_mem (h : ∀ a ∈ l, ∀ b, R a b ↔ S a b) {u : List β} :
    Forall₂ R l u ↔ Forall₂ S l u := by
  induction l generalizing u with
  | nil => simp
  | cons a l ih =>
    rw [forall₂_cons_left_iff, forall₂_cons_left_iff]
    simp only [h a mem_cons_self, ih fun a' ha' => h a' (mem_cons_of_mem _ ha')]

theorem exists_forall₂ (h : ∀ a ∈ l, ∃ b, R a b) : ∃ u, Forall₂ R l u := by
  induction l with
  | nil => exact ⟨[], .nil⟩
  | cons a l ih =>
    obtain ⟨b, hb⟩ := h a mem_cons_self
    obtain ⟨u, hu⟩ := ih fun a' ha' => h a' (mem_cons_of_mem _ ha')
    exact ⟨b :: u, .cons hb hu⟩

/-- Related lists have the same parts, up to their order. -/
theorem Forall₂.flatMap_perm {γ : Type} {f : α → List γ} {g : β → List γ} {u : List β}
    (hu : Forall₂ R l u) (h : ∀ a b, R a b → (g b).Perm (f a)) :
    (u.flatMap g).Perm (l.flatMap f) := by
  induction hu with
  | nil => exact Perm.nil
  | cons hab _ ih =>
    rw [flatMap_cons, flatMap_cons]
    exact (h _ _ hab).append ih

end Relate

variable {α κ : Type} [DecidableEq κ]

/-- Two parts with nothing in common make up their union. -/
theorem filter_append_filter_perm {p q r : α → Bool} {l : List α}
    (hdisjoint : ∀ a ∈ l, p a → q a = false) (hunion : ∀ a ∈ l, r a = (p a || q a)) :
    (l.filter p ++ l.filter q).Perm (l.filter r) := by
  have hp : (l.filter r).filter p = l.filter p := by
    rw [filter_filter]
    apply filter_congr
    intro a ha
    rw [hunion a ha]
    cases p a <;> rfl
  have hq : (l.filter r).filter (fun a => !p a) = l.filter q := by
    rw [filter_filter]
    apply filter_congr
    intro a ha
    rw [hunion a ha]
    cases hpa : p a with
    | true => rw [hdisjoint a ha hpa]; rfl
    | false => simp
  have hperm := filter_append_perm p (l.filter r)
  rwa [hp, hq] at hperm

/-- The groups of some keys make up the elements with one of these keys. -/
theorem flatMap_filter_perm (key : α → Option κ) {keys : List κ} (hnodup : keys.Nodup)
    (l : List α) :
    (keys.flatMap fun k => l.filter fun a => key a = some k).Perm
      (l.filter fun a => (key a).any (keys.contains ·)) := by
  induction keys with
  | nil =>
    have hnone : (l.filter fun a => (key a).any (([] : List κ).contains ·)) = [] := by
      rw [filter_eq_nil_iff]
      intro a _
      cases key a <;> simp
    rw [hnone]
    exact Perm.nil
  | cons k keys ih =>
    rw [nodup_cons] at hnodup
    rw [flatMap_cons]
    refine (Perm.append_left _ (ih hnodup.2)).trans (filter_append_filter_perm ?_ ?_)
    · intro a _ ha
      rw [decide_eq_true_eq] at ha
      rw [ha]
      simpa using hnodup.1
    · intro a _
      cases key a with
      | none => simp
      | some k' => by_cases hk : k' = k <;> simp [hk]

end List
