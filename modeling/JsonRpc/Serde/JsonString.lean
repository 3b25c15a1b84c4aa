import JsonRpc.Lib.Text
import JsonRpc.Serde.Content

/-!
# Texts of JSON strings

The characters between the quotes of a JSON string stand for themselves, unless they are
escaped. A quote, a backslash and a control character do not stand for themselves. An escape is
longer than the character it stands for, so a string is its own text if and only if nothing in
it is escaped.
-/

namespace JsonRpc

/-- A character that stands for itself in a JSON string. -/
def isOrdinary (c : Char) : Bool := 0x20 ≤ c.toNat && c.toNat ≠ 0x22 && c.toNat ≠ 0x5C

/-- The character of an escape with one letter. -/
def shortEscape (e : Char) : Option Char :=
  if e.toNat = 0x22 ∨ e.toNat = 0x5C ∨ e = '/' then some e
  else if e = 'b' then some (Char.ofNat 0x08)
  else if e = 'f' then some (Char.ofNat 0x0C)
  else if e = 'n' then some (Char.ofNat 0x0A)
  else if e = 'r' then some (Char.ofNat 0x0D)
  else if e = 't' then some (Char.ofNat 0x09)
  else none

/-- The value of a hexadecimal digit. -/
def hexValue (c : Char) : Option ℕ :=
  if c.isDigit then some (c.toNat - 0x30)
  else if 'a' ≤ c ∧ c ≤ 'f' then some (c.toNat - 0x57)
  else if 'A' ≤ c ∧ c ≤ 'F' then some (c.toNat - 0x37)
  else none

/-- The value of four hexadecimal digits. -/
def codeUnit (a b c d : Char) : Option ℕ := do
  return (((← hexValue a) * 16 + (← hexValue b)) * 16 + (← hexValue c)) * 16 + (← hexValue d)

/-- The character of two code units. -/
def surrogatePair (high low : ℕ) : Option Char :=
  if high < 0xDC00 ∧ 0xDC00 ≤ low ∧ low ≤ 0xDFFF then
    some (Char.ofNat (0x10000 + (high - 0xD800) * 0x400 + (low - 0xDC00)))
  else none

/-- The character of the escape at the start of a text, after the backslash, and the number of
characters that the escape takes. -/
def escapeAt : Text → Option (Char × ℕ)
  | 'u' :: a :: b :: c :: d :: s =>
    match codeUnit a b c d, s with
    | some high, backslash :: 'u' :: a :: b :: c :: d :: _ =>
      if 0xD800 ≤ high ∧ high ≤ 0xDFFF then
        if backslash.toNat = 0x5C then
          ((codeUnit a b c d).bind (surrogatePair high)).map (·, 11)
        else none
      else some (Char.ofNat high, 5)
    | some high, _ => if 0xD800 ≤ high ∧ high ≤ 0xDFFF then none else some (Char.ofNat high, 5)
    | none, _ => none
  | e :: _ => (shortEscape e).map (·, 1)
  | [] => none

/-- The string whose characters are written between quotes, after some characters are left
out. -/
def unescapeFrom : ℕ → Text → Option Text
  | _, [] => some []
  | skip + 1, _ :: s => unescapeFrom skip s
  | 0, c :: s =>
    if c.toNat = 0x5C then
      match escapeAt s with
      | some (ch, length) => (unescapeFrom length s).map (ch :: ·)
      | none => none
    else if isOrdinary c then (unescapeFrom 0 s).map (c :: ·)
    else none

/-- The string whose characters are written between quotes. -/
def unescape (s : Text) : Option Text := unescapeFrom 0 s

theorem toNat_ne_of_isOrdinary {c : Char} (hc : isOrdinary c = true) : c.toNat ≠ 0x5C := by
  simp only [isOrdinary, Bool.and_eq_true, decide_eq_true_eq] at hc
  exact hc.2

/-- Ordinary characters are read as they are. -/
theorem unescape_of_isOrdinary {s : Text} (hs : s.all isOrdinary = true) :
    unescape s = some s := by
  unfold unescape
  induction s with
  | nil => rfl
  | cons c s ih =>
    obtain ⟨hc, hs⟩ := Bool.and_eq_true_iff.mp hs
    rw [unescapeFrom, if_neg (toNat_ne_of_isOrdinary hc), if_pos hc, ih hs]
    rfl

theorem length_unescapeFrom_le {skip : ℕ} {s t : Text} (h : unescapeFrom skip s = some t) :
    t.length ≤ s.length := by
  induction s generalizing skip t with
  | nil =>
    rw [unescapeFrom] at h
    cases h
    exact Nat.le_refl _
  | cons c s ih =>
    have hcons {skip : ℕ} {ch : Char} (h : (unescapeFrom skip s).map (ch :: ·) = some t) :
        t.length ≤ (c :: s).length := by
      obtain ⟨rest, hrest, rfl⟩ := Option.map_eq_some_iff.mp h
      exact Nat.succ_le_succ (ih hrest)
    match skip with
    | skip + 1 => exact (ih h).trans (Nat.le_succ _)
    | 0 =>
      rw [unescapeFrom] at h
      split at h
      · split at h
        · exact hcons h
        · cases h
      · split at h
        · exact hcons h
        · cases h

/-- An escape takes at least one character after the backslash. -/
theorem escapeAt_eq_some {s : Text} {ch : Char} {length : ℕ} (h : escapeAt s = some (ch, length)) :
    0 < length ∧ s ≠ [] := by
  unfold escapeAt at h
  split at h
  · refine ⟨?_, List.cons_ne_nil _ _⟩
    split at h
    · split at h
      · split at h
        · obtain ⟨_, _, heq⟩ := Option.map_eq_some_iff.mp h
          cases heq
          omega
        · cases h
      · cases h
        omega
    · split at h
      · cases h
      · cases h
        omega
    · cases h
  · obtain ⟨_, _, heq⟩ := Option.map_eq_some_iff.mp h
    cases heq
    exact ⟨by omega, List.cons_ne_nil _ _⟩
  · cases h

/-- An escape is longer than what it stands for. -/
theorem length_lt_or_isOrdinary {s t : Text} (h : unescape s = some t) :
    t.length < s.length ∨ t = s ∧ s.all isOrdinary = true := by
  unfold unescape at h
  induction s generalizing t with
  | nil =>
    cases h
    exact .inr ⟨rfl, rfl⟩
  | cons c s ih =>
    rw [unescapeFrom] at h
    split at h
    · -- The characters of the escape are left out, and there is at least one.
      split at h
      · rename_i ch length hescape
        obtain ⟨hpos, hne⟩ := escapeAt_eq_some hescape
        obtain ⟨rest, hrest, rfl⟩ := Option.map_eq_some_iff.mp h
        obtain ⟨d, s, rfl⟩ := List.exists_cons_of_ne_nil hne
        obtain ⟨skip, rfl⟩ := Nat.exists_eq_succ_of_ne_zero hpos.ne'
        have hle : rest.length ≤ s.length := length_unescapeFrom_le hrest
        exact .inl (by simp only [List.length_cons]; omega)
      · cases h
    · split at h
      · rename_i hc
        obtain ⟨rest, hrest, rfl⟩ := Option.map_eq_some_iff.mp h
        rcases ih hrest with hlt | ⟨rfl, hall⟩
        · exact .inl (Nat.succ_lt_succ hlt)
        · exact .inr ⟨rfl, Bool.and_eq_true_iff.mpr ⟨hc, hall⟩⟩
      · cases h

/-- A string is its own text if and only if all its characters are ordinary. -/
theorem unescape_eq_self_iff (s : Text) : unescape s = some s ↔ s.all isOrdinary = true := by
  constructor
  · intro h
    rcases length_lt_or_isOrdinary h with hlt | ⟨-, hall⟩
    · omega
    · exact hall
  · exact unescape_of_isOrdinary

/-- A JSON library that reads the strings as JSON has them. -/
structure StringJson extends SerdeJson where
  fromStr_quoted : ∀ body : Text, fromStr ("\"" ++ String.ofList body ++ "\"") =
    (unescape body).map fun s => .str (String.ofList s)

/-- The JSON library that reads strings, and nothing else. -/
def StringJson.strings : StringJson where
  toString _ := ""
  fromStr text :=
    match text.toList with
    | quote :: rest =>
      if quote.toNat = 0x22 ∧ rest.getLast?.map Char.toNat = some 0x22 then
        (unescape rest.dropLast).map fun s => .str (String.ofList s)
      else none
    | [] => none
  fromStr_quoted body := by
    have htext : ("\"" ++ String.ofList body ++ "\"").toList =
        Char.ofNat 0x22 :: (body ++ [Char.ofNat 0x22]) := by
      simp
    rw [htext]
    simp

end JsonRpc
