import JsonRpc.Lib.Text
import Mathlib.Data.List.Forall2
import Mathlib.Data.List.Infix

/-!
# Wildcards

A pattern is a text in which `*` stands for some characters and `?` for one. Letters of ASCII
match up to their case. A pattern without `*` is compared with a text character by
character.
-/

namespace Text

/-- A text matches a pattern. -/
def wildMatch : Text → Text → Bool
  | [], s => s.isEmpty
  | c :: pattern, s =>
    if c = '*' then s.tails.any (wildMatch pattern)
    else
      match s with
      | [] => false
      | d :: s => (c == '?' || c.toLower == d.toLower) && wildMatch pattern s

/-- A character of a pattern stands for a character. -/
def StandsFor (c d : Char) : Prop := c = '?' ∨ c.toLower = d.toLower

variable {pattern s t : Text}

theorem wildMatch_star (pattern s : Text) :
    wildMatch ('*' :: pattern) s = s.tails.any (wildMatch pattern) := by
  simp [wildMatch]

theorem wildMatch_cons_nil {c : Char} (hc : c ≠ '*') : wildMatch (c :: pattern) [] = false := by
  simp [wildMatch, hc]

theorem wildMatch_cons_cons {c d : Char} (hc : c ≠ '*') :
    wildMatch (c :: pattern) (d :: s) =
      ((c == '?' || c.toLower == d.toLower) && wildMatch pattern s) := by
  simp [wildMatch, hc]

/-- Matching does not depend on the case of the text. -/
theorem wildMatch_map_toLower (pattern s : Text) :
    wildMatch pattern (s.map Char.toLower) = wildMatch pattern s := by
  induction pattern generalizing s with
  | nil => cases s <;> rfl
  | cons c pattern ih =>
    by_cases hc : c = '*'
    · have htails : (s.map Char.toLower).tails = s.tails.map (List.map Char.toLower) := by
        induction s with
        | nil => rfl
        | cons d s ihs => simp [ihs]
      rw [hc, wildMatch_star, wildMatch_star, htails, List.any_map]
      exact List.any_congr rfl ih
    · cases s with
      | nil => rfl
      | cons d s =>
        rw [List.map_cons, wildMatch_cons_cons hc, wildMatch_cons_cons hc, toLower_toLower, ih]

theorem wildMatch_congr (h : eqIgnoreAsciiCase s t = true) :
    wildMatch pattern s = wildMatch pattern t := by
  rw [← wildMatch_map_toLower, beq_iff_eq.mp h, wildMatch_map_toLower]

/-- A pattern without `*` matches character by character. -/
theorem wildMatch_iff_forall₂ (hpattern : '*' ∉ pattern) :
    wildMatch pattern s = true ↔ List.Forall₂ StandsFor pattern s := by
  induction pattern generalizing s with
  | nil => cases s <;> simp [wildMatch]
  | cons c pattern ih =>
    obtain ⟨hc, hpattern⟩ := not_or.mp (List.mem_cons.not.mp hpattern)
    cases s with
    | nil => simp [wildMatch_cons_nil (Ne.symm hc)]
    | cons d s => simp [wildMatch_cons_cons (Ne.symm hc), StandsFor, ih hpattern]

/-- A text matches as many marks. -/
theorem forall₂_replicate_mark (s : Text) :
    List.Forall₂ StandsFor (List.replicate s.length '?') s := by
  induction s with
  | nil => exact .nil
  | cons c s ih => exact .cons (.inl rfl) ih

/-- A pattern without wildcards matches the texts that are equal to it. -/
theorem wildMatch_eq_eqIgnoreAsciiCase (hpattern : ∀ c ∈ pattern, c ≠ '*' ∧ c ≠ '?') (s : Text) :
    wildMatch pattern s = eqIgnoreAsciiCase pattern s := by
  induction pattern generalizing s with
  | nil => cases s <;> rfl
  | cons c pattern ih =>
    obtain ⟨hstar, hmark⟩ := hpattern c (List.mem_cons_self ..)
    cases s with
    | nil => exact wildMatch_cons_nil hstar
    | cons d s =>
      rw [wildMatch_cons_cons hstar, ih fun e he => hpattern e (List.mem_cons_of_mem _ he),
        beq_false_of_ne hmark]
      rfl

end Text
