import Mathlib.Data.List.Basic
import Mathlib.Data.List.Induction
import Mathlib.Data.Nat.Digits.Defs

/-!
# Texts

A text is a list of characters. A text is cut at the first occurrence of a separator, parts
of it are replaced, and it is compared up to the case of ASCII letters. A number is
printed in a base, and read back from its decimal digits.
-/

/-- A text. -/
abbrev Text := List Char

namespace Text

/-- The part of a text before the first occurrence of a separator, and the part after it. -/
def splitOnce (sep : Text) : Text → Text × Option Text
  | [] => ([], none)
  | c :: s =>
    if sep <+: c :: s then ([], some ((c :: s).drop sep.length))
    else (c :: (splitOnce sep s).1, (splitOnce sep s).2)

/-- A text with every occurrence of a part replaced, after some characters are left out. -/
def replaceFrom (old new : Text) : ℕ → Text → Text
  | _, [] => []
  | skip + 1, _ :: s => replaceFrom old new skip s
  | 0, c :: s =>
    if old <+: c :: s then new ++ replaceFrom old new (old.length - 1) s
    else c :: replaceFrom old new 0 s

/-- A text with every occurrence of a part replaced. -/
def replace (old new : Text) (s : Text) : Text := replaceFrom old new 0 s

/-- The parts of a text between the occurrences of a separator, after some characters are
left out. -/
def splitFrom (sep : Text) : ℕ → Text → List Text
  | _, [] => [[]]
  | skip + 1, _ :: s => splitFrom sep skip s
  | 0, c :: s =>
    if sep <+: c :: s then [] :: splitFrom sep (sep.length - 1) s
    else
      match splitFrom sep 0 s with
      | part :: parts => (c :: part) :: parts
      | [] => [[c]]

/-- The parts of a text between the occurrences of a separator. -/
def split (sep : Text) (s : Text) : List Text := splitFrom sep 0 s

/-- Two texts are equal up to the case of ASCII letters. -/
def eqIgnoreAsciiCase (s t : Text) : Bool := s.map Char.toLower == t.map Char.toLower

/-- A number as decimal digits. -/
def decimal (n : ℕ) : Text := Nat.toDigits 10 n

/-- A number as hexadecimal digits. -/
def hex (n : ℕ) : Text := Nat.toDigits 16 n

/-- Read a number of 16 bits, which may have a sign in front. -/
def parseU16 (s : Text) : Option UInt16 :=
  let digits := if s.head? = some '+' then s.tail else s
  if digits ≠ [] ∧ digits.all Char.isDigit ∧ Nat.ofDigitChars 10 digits 0 < 65536 then
    some (.ofNat (Nat.ofDigitChars 10 digits 0))
  else none

section Split

variable {sep s t : Text} {c : Char}

/-- A text without the separator is not cut. -/
theorem splitOnce_eq_self (hs : ¬ sep <:+: s) : splitOnce sep s = (s, none) := by
  induction s with
  | nil => rfl
  | cons d s ih =>
    rw [List.infix_cons_iff, not_or] at hs
    rw [splitOnce, if_neg hs.1, ih hs.2]

/-- A text without some character of the separator is not cut. -/
theorem splitOnce_of_notMem (hsep : c ∈ sep) (hs : c ∉ s) : splitOnce sep s = (s, none) :=
  splitOnce_eq_self fun hpart => hs (hpart.subset hsep)

/-- A text is cut at the first occurrence of a character. -/
theorem splitOnce_append (hs : c ∉ s) : splitOnce [c] (s ++ c :: t) = (s, some t) := by
  induction s with
  | nil => simp [splitOnce]
  | cons d s ih =>
    obtain ⟨hne, hs⟩ := not_or.mp (List.mem_cons.not.mp hs)
    simp [splitOnce, hne, ih hs]

/-- What comes before the cut is a part of the text. -/
theorem splitOnce_fst_isPrefix : (splitOnce sep s).1 <+: s := by
  induction s with
  | nil => exact List.prefix_rfl
  | cons d s ih =>
    rw [splitOnce]
    split
    · exact List.nil_prefix
    · exact (List.prefix_cons_inj d).mpr ih

/-- There is no separator before the cut. -/
theorem not_infix_splitOnce_fst (hsep : sep ≠ []) : ¬ sep <:+: (splitOnce sep s).1 := by
  have hnil : ¬ sep <:+: ([] : Text) := fun hpart => hsep (List.infix_nil.mp hpart)
  induction s with
  | nil => exact hnil
  | cons d s ih =>
    rw [splitOnce]
    split
    · exact hnil
    · rename_i hno
      rw [List.infix_cons_iff]
      rintro (hpre | hpart)
      · exact hno (hpre.trans ((List.prefix_cons_inj d).mpr splitOnce_fst_isPrefix))
      · exact ih hpart

theorem notMem_splitOnce_fst : c ∉ (splitOnce [c] s).1 := by
  intro hmem
  obtain ⟨a, b, hab⟩ := List.append_of_mem hmem
  exact not_infix_splitOnce_fst (List.cons_ne_nil c []) ⟨a, b, by rw [hab]; simp⟩

/-- The parts before and after the cut make up the text. -/
theorem splitOnce_eq_append :
    (splitOnce sep s).1 ++ (splitOnce sep s).2.elim [] (sep ++ ·) = s := by
  induction s with
  | nil => rfl
  | cons d s ih =>
    rw [splitOnce]
    split
    · rename_i hpre
      exact List.prefix_iff_eq_append.mp hpre
    · exact congrArg (d :: ·) ih

/-- A text with the separator is cut. -/
theorem exists_splitOnce_eq (hsep : sep ≠ []) (hs : sep <:+: s) :
    ∃ a b, splitOnce sep s = (a, some b) ∧ s = a ++ sep ++ b := by
  cases hcut : splitOnce sep s with
  | mk a rest =>
    have happend := @splitOnce_eq_append sep s
    rw [hcut] at happend
    cases rest with
    | none =>
      have ha : a = s := (List.append_nil a).symm.trans happend
      have hfst := not_infix_splitOnce_fst (s := s) hsep
      rw [hcut, ha] at hfst
      exact absurd hs hfst
    | some b => exact ⟨a, b, rfl, by rw [← happend]; simp⟩

theorem splitFrom_eq_split_drop (skip : ℕ) (s : Text) :
    splitFrom sep skip s = split sep (s.drop skip) := by
  induction s generalizing skip with
  | nil => cases skip <;> rfl
  | cons d s ih =>
    cases skip with
    | zero => rfl
    | succ skip => exact ih skip

/-- A text has a first part. -/
theorem exists_split_eq_cons (sep s : Text) : ∃ part parts, split sep s = part :: parts := by
  induction s with
  | nil => exact ⟨[], [], rfl⟩
  | cons d s ih =>
    obtain ⟨part, parts, hrest⟩ := ih
    have hrest : splitFrom sep 0 s = part :: parts := hrest
    rw [split, splitFrom]
    split
    · exact ⟨[], _, rfl⟩
    · rw [hrest]
      exact ⟨d :: part, parts, rfl⟩

/-- A character before which there is no separator belongs to the first part. -/
theorem split_cons {part : Text} {parts : List Text} (hno : ¬ sep <+: c :: s)
    (hs : split sep s = part :: parts) : split sep (c :: s) = (c :: part) :: parts := by
  have hrest : splitFrom sep 0 s = part :: parts := hs
  rw [split, splitFrom, if_neg hno, hrest]

/-- A text without the separator is its only part. -/
theorem split_eq_singleton (hs : ¬ sep <:+: s) : split sep s = [s] := by
  induction s with
  | nil => rfl
  | cons d s ih =>
    rw [List.infix_cons_iff, not_or] at hs
    exact split_cons hs.1 (ih hs.2)

/-- The part before the first occurrence of the separator comes first. -/
theorem split_append (hs : c ∉ s) :
    split (c :: sep) (s ++ (c :: sep) ++ t) = s :: split (c :: sep) t := by
  induction s with
  | nil =>
    have hpre : c :: sep <+: c :: (sep ++ t) := ⟨t, rfl⟩
    change splitFrom (c :: sep) 0 (c :: (sep ++ t)) = _
    rw [splitFrom, if_pos hpre, splitFrom_eq_split_drop]
    simp
  | cons d s ih =>
    obtain ⟨hne, hs⟩ := not_or.mp (List.mem_cons.not.mp hs)
    have hno : ¬ c :: sep <+: d :: (s ++ (c :: sep) ++ t) := by
      simp [List.cons_prefix_cons, hne]
    exact split_cons hno (ih hs)

/-- A text is cut at every occurrence of a character. -/
theorem split_flatMap_cons (hs : c ∉ s) {parts : List Text} (hparts : ∀ part ∈ parts, c ∉ part) :
    split [c] (s ++ parts.flatMap (c :: ·)) = s :: parts := by
  induction parts generalizing s with
  | nil =>
    rw [List.flatMap_nil, List.append_nil]
    exact split_eq_singleton fun hpart => hs (hpart.subset (List.mem_singleton_self c))
  | cons part parts ih =>
    obtain ⟨hpart, hparts⟩ := List.forall_mem_cons.mp hparts
    have hsplit := @split_append [] s (part ++ parts.flatMap (c :: ·)) c hs
    rw [ih hpart hparts, List.append_assoc] at hsplit
    exact hsplit

/-- A text with two occurrences of a character is cut at both. -/
theorem exists_eq_append_of_two_le_count (h : 2 ≤ s.count c) :
    ∃ x y z, s = x ++ c :: (y ++ c :: z) ∧ c ∉ x ∧ c ∉ y := by
  have hmem : c ∈ s := List.count_pos_iff.mp (by omega)
  obtain ⟨x, rest, rfl, hx⟩ := List.eq_append_cons_of_mem hmem
  rw [List.count_append, List.count_cons_self, List.count_eq_zero_of_not_mem hx] at h
  have hmem' : c ∈ rest := List.count_pos_iff.mp (by omega)
  obtain ⟨y, z, rfl, hy⟩ := List.eq_append_cons_of_mem hmem'
  exact ⟨x, y, z, rfl, hx, hy⟩

end Split

/-! ## The case of letters -/

/-- An upper case letter of ASCII becomes a letter that is none. -/
theorem toLower_cases (c : Char) :
    c.toLower = c ∧ ¬ (65 ≤ c.toNat ∧ c.toNat ≤ 90) ∨
      c.toLower.toNat = c.toNat + 32 ∧ 65 ≤ c.toNat ∧ c.toNat ≤ 90 := by
  unfold Char.toLower
  split
  · rename_i hupper
    have hle : 65 ≤ c.toNat := UInt32.le_iff_toNat_le.mp hupper.1
    have hge : c.toNat ≤ 90 := UInt32.le_iff_toNat_le.mp hupper.2
    refine .inr ⟨?_, hle, hge⟩
    have hval : (c.val + 32).toNat = (c.toNat + 32) % 4294967296 := UInt32.toNat_add _ _
    exact hval.trans (Nat.mod_eq_of_lt (by omega))
  · rename_i hupper
    refine .inl ⟨rfl, fun h => hupper ⟨?_, ?_⟩⟩
    · exact UInt32.le_iff_toNat_le.mpr h.1
    · exact UInt32.le_iff_toNat_le.mpr h.2

theorem toLower_toLower (c : Char) : c.toLower.toLower = c.toLower := by
  rcases toLower_cases c.toLower with ⟨hsame, -⟩ | ⟨-, hle, hge⟩
  · exact hsame
  · rcases toLower_cases c with ⟨hsame, hnot⟩ | ⟨hlower, hle', -⟩
    · exact absurd ⟨hsame ▸ hle, hsame ▸ hge⟩ hnot
    · omega

/-- Only letters become other characters in lower case. -/
theorem eq_of_toLower_eq {c d : Char} (hd : d < 'a') (h : c.toLower = d) : c = d := by
  rcases toLower_cases c with ⟨hsame, -⟩ | ⟨hlower, hle, -⟩
  · exact hsame.symm.trans h
  · have hlt : d.toNat < 97 := hd
    rw [h] at hlower
    omega

theorem toNat_toLower_lt {c : Char} (h : c.toNat < 128) : c.toLower.toNat < 128 := by
  rcases toLower_cases c with ⟨hsame, -⟩ | ⟨hlower, -, hge⟩
  · rwa [hsame]
  · omega

theorem eqIgnoreAsciiCase_self (s : Text) : eqIgnoreAsciiCase s s = true := beq_self_eq_true _

/-- A character that is no letter tells two texts apart. -/
theorem eqIgnoreAsciiCase_eq_false {s t : Text} {d : Char} (hd : d < 'a' ∧ d.toLower = d)
    (hs : d ∉ s) (ht : d ∈ t) : eqIgnoreAsciiCase s t = false := by
  apply beq_false_of_ne
  intro heq
  obtain ⟨c, hc, hlower⟩ := List.mem_map.mp (heq ▸ List.mem_map_of_mem ht)
  have hchar : c = d := eq_of_toLower_eq hd.1 (hlower.trans hd.2)
  exact hs (hchar ▸ hc)

/-! ## Shorter texts -/

/-- A text is shorter than another, or is the other. -/
def Abbreviates (s t : Text) : Prop := s.length < t.length ∨ s = t

namespace Abbreviates

variable {r s t : Text}

theorem trans (hrs : Abbreviates r s) (hst : Abbreviates s t) : Abbreviates r t := by
  rcases hrs with hrs | rfl
  · rcases hst with hst | rfl
    · exact .inl (hrs.trans hst)
    · exact .inl hrs
  · exact hst

theorem append_left (r : Text) (h : Abbreviates s t) : Abbreviates (r ++ s) (r ++ t) := by
  rcases h with h | rfl
  · exact .inl (by simpa using h)
  · exact .inr rfl

theorem append_right (h : Abbreviates s t) (r : Text) : Abbreviates (s ++ r) (t ++ r) := by
  rcases h with h | rfl
  · exact .inl (by simpa using h)
  · exact .inr rfl

theorem of_isPrefix (h : s <+: t) : Abbreviates s t := by
  rcases h.length_le.lt_or_eq with hlt | heq
  · exact .inl hlt
  · exact .inr (h.eq_of_length heq)

theorem length_le (h : Abbreviates s t) : s.length ≤ t.length := by
  rcases h with h | rfl
  · exact h.le
  · exact le_rfl

theorem eq_of_length (h : Abbreviates s t) (hlength : s.length = t.length) : s = t :=
  h.resolve_left hlength.not_lt

end Abbreviates

/-! ## Digits -/

/-- The digits of a number are the digits of its base. -/
theorem exists_digitChar_of_mem_toDigits {b : ℕ} (hb : 1 < b) {n : ℕ} {c : Char}
    (hc : c ∈ Nat.toDigits b n) : ∃ d < b, c = Nat.digitChar d := by
  induction n using Nat.strong_induction_on with
  | h n ih =>
    rw [Nat.toDigits_eq_if hb] at hc
    split at hc
    · rename_i hlt
      exact ⟨n, hlt, List.mem_singleton.mp hc⟩
    · rename_i hle
      rcases List.mem_append.mp hc with hc | hc
      · exact ih (n / b) (Nat.div_lt_self (by omega) hb) hc
      · exact ⟨n % b, Nat.mod_lt _ (by omega), List.mem_singleton.mp hc⟩

/-- A decimal digit is not a sign. -/
theorem head?_decimal_ne (n : ℕ) : (decimal n).head? ≠ some '+' := by
  intro hhead
  have hdigit := Nat.isDigit_of_mem_toDigits (by omega) (by omega) (List.mem_of_mem_head? hhead)
  cases hdigit

/-- A number of 16 bits is read back. -/
theorem parseU16_decimal (n : UInt16) : parseU16 (decimal n.toNat) = some n := by
  have hdigits : (decimal n.toNat).all Char.isDigit = true :=
    List.all_eq_true.mpr fun c hc => Nat.isDigit_of_mem_toDigits (by omega) (by omega) hc
  have hvalue : Nat.ofDigitChars 10 (decimal n.toNat) 0 = n.toNat := Nat.ofDigitChars_ten_toDigits
  have hlt : n.toNat < 65536 := n.toNat_lt
  rw [parseU16, if_neg (head?_decimal_ne _)]
  rw [hvalue, if_pos ⟨Nat.toDigits_ne_nil, hdigits, hlt⟩, UInt16.ofNat_toNat]

/-- A digit is the digit of its value. -/
theorem digitChar_of_isDigit {c : Char} (hc : c.isDigit = true) :
    c.toNat - 48 < 10 ∧ Nat.digitChar (c.toNat - 48) = c := by
  obtain ⟨hle, hge⟩ := Bool.and_eq_true_iff.mp hc
  have hle : 48 ≤ c.toNat := UInt32.le_iff_toNat_le.mp (of_decide_eq_true hle)
  have hge : c.toNat ≤ 57 := UInt32.le_iff_toNat_le.mp (of_decide_eq_true hge)
  have hlt : c.toNat - 48 < 10 := by omega
  refine ⟨hlt, Char.toNat_inj.mp ?_⟩
  rw [Nat.toNat_digitChar_of_lt_ten hlt]
  omega

/-- The digits of a number, and one more. -/
theorem decimal_append (n : ℕ) {d : ℕ} (hd : d < 10) :
    decimal (10 * n + d) = (if n = 0 then [] else decimal n) ++ [Nat.digitChar d] := by
  have hdigit : Nat.toDigits 10 d = [Nat.digitChar d] := Nat.toDigits_of_lt_base hd
  rw [← hdigit]
  by_cases hn : n = 0
  · rw [if_pos hn, hn, Nat.mul_zero, Nat.zero_add, List.nil_append, decimal]
  · have hpos : 0 < n := Nat.pos_of_ne_zero hn
    rw [if_neg hn]
    exact (Nat.toDigits_append_toDigits (by omega) hpos hd).symm

/-- Printing the number that digits stand for drops the zeros in front. -/
theorem abbreviates_decimal_ofDigitChars {s : Text} (hne : s ≠ [])
    (hdigits : ∀ c ∈ s, c.isDigit = true) :
    Abbreviates (decimal (Nat.ofDigitChars 10 s 0)) s := by
  induction s using List.reverseRecOn with
  | nil => exact absurd rfl hne
  | append_singleton s c ih =>
    obtain ⟨hlt, hc⟩ := digitChar_of_isDigit (hdigits c (by simp))
    have hvalue : Nat.ofDigitChars 10 (s ++ [c]) 0 =
        10 * Nat.ofDigitChars 10 s 0 + (c.toNat - 48) := Nat.ofDigitChars_append 0
    rw [hvalue, decimal_append _ hlt, hc]
    apply Abbreviates.append_right
    by_cases hs : s = []
    · subst hs
      exact .inr (if_pos rfl)
    · split
      · exact .inl (List.length_pos_iff.mpr hs)
      · exact ih hs fun d hd => hdigits d (by simp [hd])

/-- Printing the number that a text is read as drops the sign, and zeros in front. -/
theorem abbreviates_decimal_of_parseU16 {s : Text} {n : UInt16} (h : parseU16 s = some n) :
    Abbreviates (decimal n.toNat) s := by
  have hsign : Abbreviates (if s.head? = some '+' then s.tail else s) s := by
    split
    · rename_i hplus
      cases s with
      | nil => cases hplus
      | cons c s => exact .inl (Nat.lt_succ_self _)
    · exact .inr rfl
  unfold parseU16 at h
  dsimp only at h
  generalize (if s.head? = some '+' then s.tail else s) = digits at h hsign
  split at h
  · rename_i hnumber
    obtain ⟨hne, hdigits, hlt⟩ := hnumber
    cases h
    rw [UInt16.toNat_ofNat', Nat.mod_eq_of_lt hlt]
    exact (abbreviates_decimal_ofDigitChars hne (List.all_eq_true.mp hdigits)).trans hsign
  · cases h

/-- The characters of a number have no case. -/
theorem toLower_of_parseU16 {s : Text} {n : UInt16} (h : parseU16 s = some n) {c : Char}
    (hc : c ∈ s) : c < 'a' ∧ c.toLower = c := by
  have hdigit {d : Char} (hd : d.isDigit = true) : d < 'a' ∧ d.toLower = d := by
    have hdigits : ∀ k < 10, k.digitChar < 'a' ∧ k.digitChar.toLower = k.digitChar := by decide
    obtain ⟨hlt, hd⟩ := digitChar_of_isDigit hd
    exact hd ▸ hdigits _ hlt
  have hsign : c = '+' ∨ c ∈ (if s.head? = some '+' then s.tail else s) := by
    split
    · rename_i hplus
      obtain ⟨rest, rfl⟩ := List.head?_eq_some_iff.mp hplus
      exact List.mem_cons.mp hc
    · exact .inr hc
  unfold parseU16 at h
  dsimp only at h
  generalize (if s.head? = some '+' then s.tail else s) = digits at h hsign
  split at h
  · rename_i hnumber
    rcases hsign with rfl | hmem
    · decide
    · exact hdigit (List.all_eq_true.mp hnumber.2.1 c hmem)
  · cases h

/-- A number is read in every case. -/
theorem parseU16_map_toLower (s : Text) : parseU16 (s.map Char.toLower) = parseU16 s := by
  have hself {n : UInt16} (h : parseU16 s = some n ∨ parseU16 (s.map Char.toLower) = some n) :
      s.map Char.toLower = s := by
    refine (List.map_congr_left fun c hc => ?_).trans (List.map_id s)
    rcases h with h | h
    · exact (toLower_of_parseU16 h hc).2
    · have hlower := (toLower_of_parseU16 h (List.mem_map_of_mem hc)).1
      exact (eq_of_toLower_eq hlower rfl).symm
  cases hparse : parseU16 s with
  | some n => rw [hself (.inl hparse), hparse]
  | none =>
    cases hlower : parseU16 (s.map Char.toLower) with
    | none => rfl
    | some n =>
      rw [hself (.inr hlower), hparse] at hlower
      cases hlower

end Text
