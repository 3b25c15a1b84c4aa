import JsonRpc.Codec.BalancedText

/-!
# Texts of JSON documents

A concrete syntax of JSON, with every choice the grammar leaves to a writer:
whitespace between tokens, escapes inside strings, forms of numbers. The text
of an object or an array is a `BalancedText`, with the same nesting.
-/

namespace JsonRpc.JsonText

/-- JSON whitespace. -/
inductive Ws
  | space
  | tab
  | lineFeed
  | carriageReturn
  deriving DecidableEq, Repr

/-- The character of a whitespace token. -/
def Ws.char : Ws → Char
  | .space => Char.ofNat 0x20
  | .tab => Char.ofNat 0x09
  | .lineFeed => Char.ofNat 0x0A
  | .carriageReturn => Char.ofNat 0x0D

/-- The characters that may follow a backslash on their own. -/
inductive Escape
  | quote
  | backslash
  | slash
  | backspace
  | formFeed
  | lineFeed
  | carriageReturn
  | tab
  deriving DecidableEq, Repr

/-- The character that names an escape. -/
def Escape.char : Escape → Char
  | .quote => Char.ofNat 0x22
  | .backslash => Char.ofNat 0x5C
  | .slash => '/'
  | .backspace => 'b'
  | .formFeed => 'f'
  | .lineFeed => 'n'
  | .carriageReturn => 'r'
  | .tab => 't'

/-- A decimal digit. -/
def digitChar (d : Fin 10) : Char := Char.ofNat (0x30 + d)

/-- A hexadecimal digit, with its letters in either case. -/
def hexChar (d : Fin 16) (upper : Bool) : Char :=
  if d.val < 10 then Char.ofNat (0x30 + d)
  else if upper then Char.ofNat (0x37 + d) else Char.ofNat (0x57 + d)

/-- A character of a string: any character except quotes, backslashes and
controls, a short escape, or four hexadecimal digits. -/
inductive StrChar
  | raw (c : Char) (hcontrol : 0x20 ≤ c.toNat) (hquote : c.toNat ≠ 0x22)
      (hbackslash : c.toNat ≠ 0x5C)
  | short (e : Escape)
  | hex (digits : Fin 4 → Fin 16 × Bool)

/-- The characters of the text of a string character. -/
def StrChar.chars : StrChar → List Char
  | .raw c _ _ _ => [c]
  | .short e => [Char.ofNat 0x5C, e.char]
  | .hex digits => Char.ofNat 0x5C :: 'u' ::
      (List.ofFn fun i => hexChar (digits i).1 (digits i).2)

/-- A string with its quotes. -/
def strChars (cs : List StrChar) : List Char :=
  Char.ofNat 0x22 :: (cs.flatMap StrChar.chars ++ [Char.ofNat 0x22])

/-- One or more decimal digits. -/
structure Digits where
  first : Fin 10
  more : List (Fin 10)

/-- The characters of some digits. -/
def Digits.chars (ds : Digits) : List Char := digitChar ds.first :: ds.more.map digitChar

/-- The integer part of a number: zero, or digits that do not start with zero. -/
inductive IntPart
  | zero
  | digits (ds : Digits) (h : ds.first ≠ 0)

/-- The characters of an integer part. -/
def IntPart.chars : IntPart → List Char
  | .zero => [digitChar 0]
  | .digits ds _ => ds.chars

/-- The sign of an exponent. -/
inductive Sign
  | plus
  | minus

/-- The character of a sign. -/
def Sign.char : Sign → Char
  | .plus => '+'
  | .minus => '-'

/-- An exponent: the letter in either case, an optional sign, and digits. -/
structure Exponent where
  upper : Bool
  sign : Option Sign
  digits : Digits

/-- The characters of an exponent. -/
def Exponent.chars (e : Exponent) : List Char :=
  (if e.upper then 'E' else 'e') ::
    (e.sign.toList.map Sign.char ++ e.digits.chars)

/-- A number: a sign, an integer part, and optionally a fraction and an exponent. -/
structure Number where
  negative : Bool
  int : IntPart
  frac : Option Digits
  exp : Option Exponent

/-- The characters of a number. -/
def Number.chars (n : Number) : List Char :=
  (if n.negative then ['-'] else []) ++ n.int.chars ++
    (n.frac.toList.flatMap fun ds => '.' :: ds.chars) ++
    n.exp.toList.flatMap Exponent.chars

mutual

/-- A JSON value. -/
inductive Json
  | null
  | true
  | false
  | number (n : Number)
  | string (cs : List StrChar)
  | emptyArray (ws : List Ws)
  | array (elements : Elements)
  | emptyObject (ws : List Ws)
  | object (members : Members)

/-- One or more elements of an array, each with the whitespace around it. -/
inductive Elements
  | last (before : List Ws) (value : Json) (after : List Ws)
  | more (before : List Ws) (value : Json) (after : List Ws) (rest : Elements)

/-- One or more members of an object, each with the whitespace around its parts. -/
inductive Members
  | last (before : List Ws) (key : List StrChar) (colon beforeValue : List Ws) (value : Json)
      (after : List Ws)
  | more (before : List Ws) (key : List StrChar) (colon beforeValue : List Ws) (value : Json)
      (after : List Ws) (rest : Members)

end

/-- The characters of some whitespace. -/
def wsChars (ws : List Ws) : List Char := ws.map Ws.char

/-- The characters of a key with the whitespace around it, up to and with the colon. -/
def keyChars (before : List Ws) (key : List StrChar) (colon : List Ws) : List Char :=
  wsChars before ++ strChars key ++ wsChars colon ++ [':']

mutual

/-- The characters of the text of a value. -/
def Json.chars : Json → List Char
  | .null => "null".toList
  | .true => "true".toList
  | .false => "false".toList
  | .number n => n.chars
  | .string cs => strChars cs
  | .emptyArray ws => Char.ofNat 0x5B :: (wsChars ws ++ [Char.ofNat 0x5D])
  | .array elements => Char.ofNat 0x5B :: (elements.chars ++ [Char.ofNat 0x5D])
  | .emptyObject ws => Char.ofNat 0x7B :: (wsChars ws ++ [Char.ofNat 0x7D])
  | .object members => Char.ofNat 0x7B :: (members.chars ++ [Char.ofNat 0x7D])

/-- The characters of the text of elements, separated by commas. -/
def Elements.chars : Elements → List Char
  | .last before value after => wsChars before ++ value.chars ++ wsChars after
  | .more before value after rest =>
    wsChars before ++ value.chars ++ wsChars after ++ ',' :: rest.chars

/-- The characters of the text of members, separated by commas. -/
def Members.chars : Members → List Char
  | .last before key colon beforeValue value after =>
    keyChars before key colon ++ wsChars beforeValue ++ value.chars ++ wsChars after
  | .more before key colon beforeValue value after rest =>
    keyChars before key colon ++ wsChars beforeValue ++ value.chars ++ wsChars after ++
      ',' :: rest.chars

end

mutual

/-- The number of brackets open at once in a value. -/
def Json.nesting : Json → ℕ
  | .emptyArray _ | .emptyObject _ => 1
  | .array elements => elements.nesting + 1
  | .object members => members.nesting + 1
  | _ => 0

/-- The number of brackets open at once in elements. -/
def Elements.nesting : Elements → ℕ
  | .last _ value _ => value.nesting
  | .more _ value _ rest => max value.nesting rest.nesting

/-- The number of brackets open at once in members. -/
def Members.nesting : Members → ℕ
  | .last _ _ _ _ value _ => value.nesting
  | .more _ _ _ _ value _ rest => max value.nesting rest.nesting

end

/-- Objects and arrays. -/
def Json.isContainer : Json → Bool
  | .emptyArray _ | .array _ | .emptyObject _ | .object _ => Bool.true
  | _ => Bool.false

/-- A JSON document that is an object or an array. -/
structure Document where
  value : Json
  isContainer : value.isContainer

/-- The text of a document. -/
def Document.text (doc : Document) : String := String.ofList doc.value.chars

/-- The number of brackets open at once in a document. -/
def Document.nesting (doc : Document) : ℕ := doc.value.nesting

/-! ## Characters and their bytes -/

/-- The bytes of some characters. -/
def encode (cs : List Char) : Bytes := cs.flatMap String.utf8EncodeChar

@[simp] theorem encode_nil : encode [] = [] := rfl

@[simp] theorem encode_append (a b : List Char) : encode (a ++ b) = encode a ++ encode b :=
  List.flatMap_append

@[simp] theorem encode_cons (c : Char) (cs : List Char) :
    encode (c :: cs) = String.utf8EncodeChar c ++ encode cs := List.flatMap_cons

/-- Characters whose bytes stand for themselves outside strings. -/
def isPlainChar (c : Char) : Bool := (String.utf8EncodeChar c).all isPlain

theorem isPlainChar_ws (w : Ws) : isPlainChar w.char := by cases w <;> decide

theorem isPlainChar_digit (d : Fin 10) : isPlainChar (digitChar d) := by revert d; decide

theorem isPlainChar_sign (s : Sign) : isPlainChar s.char := by cases s <;> decide

/-- An ASCII byte occurs in the encoding of its own character only. -/
theorem toNat_eq_of_mem_utf8EncodeChar {c : Char} {byte : UInt8}
    (h : byte ∈ String.utf8EncodeChar c) (hbyte : byte.toNat < 0x80) : c.toNat = byte.toNat := by
  unfold String.utf8EncodeChar at h
  simp only at h
  have hc : c.toNat = c.val.toNat := rfl
  split at h
  · rename_i hle
    simp only [List.mem_singleton] at h
    subst h
    rw [hc, UInt8.toNat_ofNat']
    omega
  · split at h
    · simp only [List.mem_cons, List.not_mem_nil, or_false] at h
      rcases h with rfl | rfl <;> simp only [UInt8.toNat_ofNat'] at hbyte <;> omega
    · split at h
      · simp only [List.mem_cons, List.not_mem_nil, or_false] at h
        rcases h with rfl | rfl | rfl <;> simp only [UInt8.toNat_ofNat'] at hbyte <;> omega
      · simp only [List.mem_cons, List.not_mem_nil, or_false] at h
        rcases h with rfl | rfl | rfl | rfl <;> simp only [UInt8.toNat_ofNat'] at hbyte <;> omega

/-! ## Texts as balanced bodies -/

/-- Some characters, with at most `n` brackets open at once, can stand before
any sequence. -/
def Fits (cs : List Char) (n : ℕ) : Prop :=
  ∀ rest : Body, ∃ body : Body, body.bytes = encode cs ++ rest.bytes ∧
    body.nesting = max n rest.nesting

/-- Fitting texts can be concatenated. -/
theorem Fits.append {a b : List Char} {n k : ℕ} (ha : Fits a n) (hb : Fits b k) :
    Fits (a ++ b) (max n k) := by
  intro rest
  obtain ⟨later, hlater, hlaterNesting⟩ := hb rest
  obtain ⟨body, hbody, hnesting⟩ := ha later
  refine ⟨body, ?_, ?_⟩
  · rw [hbody, hlater, encode_append, List.append_assoc]
  · rw [hnesting, hlaterNesting, max_assoc]

/-- Plain characters fit. -/
theorem fits_plain {cs : List Char} (hcs : cs.all isPlainChar) : Fits cs 0 := by
  intro rest
  have hbytes : ∀ byte ∈ encode cs, isPlain byte := by
    intro byte hbyte
    obtain ⟨c, hc, hmem⟩ := List.mem_flatMap.mp hbyte
    exact List.all_eq_true.mp (List.all_eq_true.mp hcs c hc) byte hmem
  generalize encode cs = bytes at hbytes
  rw [Nat.zero_max]
  induction bytes with
  | nil => exact ⟨rest, rfl, rfl⟩
  | cons byte bytes ih =>
    obtain ⟨body, hbody, hnesting⟩ := ih (fun b hb => hbytes b (by simp [hb]))
    exact ⟨.plain byte (hbytes byte (by simp)) body, by simp [Body.bytes, hbody], hnesting⟩

/-- A bracketed fitting text has a sequence between its brackets. -/
theorem Fits.exists_inner {cs : List Char} {n : ℕ} {opening closing : Char} {o c : UInt8}
    (hcs : Fits cs n) (ho : String.utf8EncodeChar opening = [o])
    (hc : String.utf8EncodeChar closing = [c]) :
    ∃ inner : Body, encode (opening :: (cs ++ [closing])) = o :: (inner.bytes ++ [c]) ∧
      inner.nesting = n := by
  obtain ⟨inner, hinner, hnesting⟩ := hcs .nil
  refine ⟨inner, ?_, by simpa [Body.nesting] using hnesting⟩
  rw [Body.bytes, List.append_nil] at hinner
  simp [hinner, ho, hc]

/-- A bracketed fitting text fits, with one more bracket open. -/
theorem Fits.group {cs : List Char} {n : ℕ} {opening closing : Char} {o c : UInt8}
    (hcs : Fits cs n) (ho : String.utf8EncodeChar opening = [o])
    (hc : String.utf8EncodeChar closing = [c]) (hopening : isOpening o) (hclosing : isClosing c) :
    Fits (opening :: (cs ++ [closing])) (n + 1) := by
  intro rest
  obtain ⟨inner, hinner, rfl⟩ := hcs.exists_inner ho hc
  refine ⟨.group o c hopening hclosing inner rest, ?_, rfl⟩
  simp [Body.bytes, hinner]

/-- Bytes that are neither quotes nor backslashes are string units. -/
theorem exists_units_raw {bytes : Bytes}
    (hbytes : ∀ byte ∈ bytes, byte ≠ quote ∧ byte ≠ backslash) :
    ∃ units : List StrUnit, units.flatMap StrUnit.bytes = bytes := by
  induction bytes with
  | nil => exact ⟨[], rfl⟩
  | cons byte bytes ih =>
    obtain ⟨units, hunits⟩ := ih (fun b hb => hbytes b (by simp [hb]))
    obtain ⟨hquote, hbackslash⟩ := hbytes byte (by simp)
    exact ⟨.raw byte hquote hbackslash :: units, by simp [StrUnit.bytes, hunits]⟩

/-- A hexadecimal digit is neither a quote nor a backslash. -/
theorem encode_hexChar (d : Fin 16) (upper : Bool) :
    ∀ byte ∈ String.utf8EncodeChar (hexChar d upper), byte ≠ quote ∧ byte ≠ backslash := by
  have hall : ∀ (d : Fin 16) (upper : Bool), (String.utf8EncodeChar (hexChar d upper)).all
      fun byte => byte != quote && byte != backslash := by decide
  intro byte hbyte
  simpa using List.all_eq_true.mp (hall d upper) byte hbyte

/-- A string character is made of string units. -/
theorem exists_units_strChar (c : StrChar) :
    ∃ units : List StrUnit, units.flatMap StrUnit.bytes = encode c.chars := by
  cases c with
  | raw c _ hquote hbackslash =>
    simp only [StrChar.chars, encode_cons, encode_nil, List.append_nil]
    refine exists_units_raw fun byte hbyte => ⟨?_, ?_⟩
    · rintro rfl
      exact hquote (toNat_eq_of_mem_utf8EncodeChar hbyte (by decide))
    · rintro rfl
      exact hbackslash (toNat_eq_of_mem_utf8EncodeChar hbyte (by decide))
  | short e => cases e <;> exact ⟨[.escaped _], rfl⟩
  | hex digits =>
    have hdigits : ∀ byte ∈ encode (List.ofFn fun i => hexChar (digits i).1 (digits i).2),
        byte ≠ quote ∧ byte ≠ backslash := by
      intro byte hbyte
      obtain ⟨c, hc, hmem⟩ := List.mem_flatMap.mp hbyte
      obtain ⟨i, rfl⟩ := List.mem_ofFn.mp hc
      exact encode_hexChar _ _ byte hmem
    obtain ⟨units, hunits⟩ := exists_units_raw hdigits
    refine ⟨.escaped 0x75 :: units, ?_⟩
    rw [List.flatMap_cons, hunits]
    rfl

/-- A string fits. -/
theorem fits_str (cs : List StrChar) : Fits (strChars cs) 0 := by
  intro rest
  have hunits : ∃ units : List StrUnit,
      units.flatMap StrUnit.bytes = encode (cs.flatMap StrChar.chars) := by
    induction cs with
    | nil => exact ⟨[], rfl⟩
    | cons c cs ih =>
      obtain ⟨first, hfirst⟩ := exists_units_strChar c
      obtain ⟨later, hlater⟩ := ih
      exact ⟨first ++ later, by simp [hfirst, hlater]⟩
  obtain ⟨units, hunits⟩ := hunits
  have hquote : String.utf8EncodeChar (Char.ofNat 0x22) = [quote] := by decide
  exact ⟨.str units rest, by simp [Body.bytes, strChars, hunits, hquote],
    (Nat.zero_max _).symm⟩

/-- Whitespace fits. -/
theorem fits_ws (ws : List Ws) : Fits (wsChars ws) 0 :=
  fits_plain <| List.all_eq_true.mpr fun c hc => by
    obtain ⟨w, _, rfl⟩ := List.mem_map.mp hc
    exact isPlainChar_ws w

/-- Digits are plain. -/
theorem isPlainChar_digits {ds : Digits} : ∀ c ∈ ds.chars, isPlainChar c := by
  intro c hc
  rcases List.mem_cons.mp hc with rfl | hc
  · exact isPlainChar_digit _
  · obtain ⟨d, _, rfl⟩ := List.mem_map.mp hc
    exact isPlainChar_digit d

/-- A number fits. -/
theorem fits_number (n : Number) : Fits n.chars 0 := by
  refine fits_plain (List.all_eq_true.mpr fun c hc => ?_)
  simp only [Number.chars, List.mem_append, List.mem_flatMap, List.mem_cons] at hc
  rcases hc with ((hc | hc) | ⟨ds, _, rfl | hc⟩) | ⟨e, _, hc⟩
  · split at hc
    · rw [List.mem_singleton.mp hc]
      decide
    · simp at hc
  · cases hint : n.int with
    | zero =>
      rw [hint, IntPart.chars, List.mem_singleton] at hc
      rw [hc]
      exact isPlainChar_digit 0
    | digits ds _ =>
      rw [hint] at hc
      exact isPlainChar_digits c hc
  · decide
  · exact isPlainChar_digits c hc
  · simp only [Exponent.chars, List.mem_cons, List.mem_append, List.mem_map] at hc
    rcases hc with rfl | ⟨sign, _, rfl⟩ | hc
    · split <;> decide
    · exact isPlainChar_sign sign
    · exact isPlainChar_digits c hc

/-- A key with its colon fits. -/
theorem fits_key (before : List Ws) (key : List StrChar) (colon : List Ws) :
    Fits (keyChars before key colon) 0 :=
  (((fits_ws before).append (fits_str key)).append (fits_ws colon)).append
    (fits_plain (by decide))

mutual

/-- The text of a value fits. -/
theorem Json.fits : ∀ j : Json, Fits j.chars j.nesting
  | .null => fits_plain (by decide)
  | .true => fits_plain (by decide)
  | .false => fits_plain (by decide)
  | .number n => fits_number n
  | .string cs => fits_str cs
  | .emptyArray ws => (fits_ws ws).group rfl rfl (by decide) (by decide)
  | .array elements => elements.fits.group rfl rfl (by decide) (by decide)
  | .emptyObject ws => (fits_ws ws).group rfl rfl (by decide) (by decide)
  | .object members => members.fits.group rfl rfl (by decide) (by decide)

/-- The text of elements fits. -/
theorem Elements.fits : ∀ es : Elements, Fits es.chars es.nesting
  | .last before value after => by
    have h := ((fits_ws before).append value.fits).append (fits_ws after)
    simpa [Elements.chars, Elements.nesting] using h
  | .more before value after rest => by
    have hcomma : Fits [','] 0 := fits_plain (by decide)
    have h := (((fits_ws before).append value.fits).append (fits_ws after)).append
      (hcomma.append rest.fits)
    simpa [Elements.chars, Elements.nesting] using h

/-- The text of members fits. -/
theorem Members.fits : ∀ ms : Members, Fits ms.chars ms.nesting
  | .last before key colon beforeValue value after => by
    have h := (((fits_key before key colon).append (fits_ws beforeValue)).append
      value.fits).append (fits_ws after)
    simpa [Members.chars, Members.nesting] using h
  | .more before key colon beforeValue value after rest => by
    have hcomma : Fits [','] 0 := fits_plain (by decide)
    have h := ((((fits_key before key colon).append (fits_ws beforeValue)).append
      value.fits).append (fits_ws after)).append (hcomma.append rest.fits)
    simpa [Members.chars, Members.nesting] using h

end

/-- A document is a bracketed sequence. -/
theorem Document.exists_inner (doc : Document) :
    ∃ (opening closing : UInt8) (inner : Body), isOpening opening ∧ isClosing closing ∧
      encode doc.value.chars = opening :: (inner.bytes ++ [closing]) ∧
      inner.nesting + 1 = doc.nesting := by
  obtain ⟨value, hcontainer⟩ := doc
  have hleftBracket : String.utf8EncodeChar (Char.ofNat 0x5B) = [0x5B] := rfl
  have hrightBracket : String.utf8EncodeChar (Char.ofNat 0x5D) = [0x5D] := rfl
  have hleftBrace : String.utf8EncodeChar (Char.ofNat 0x7B) = [0x7B] := rfl
  have hrightBrace : String.utf8EncodeChar (Char.ofNat 0x7D) = [0x7D] := rfl
  cases value with
  | emptyArray ws =>
    obtain ⟨inner, hinner, hnesting⟩ := (fits_ws ws).exists_inner hleftBracket hrightBracket
    exact ⟨_, _, inner, by decide, by decide, hinner, congrArg (· + 1) hnesting⟩
  | array elements =>
    obtain ⟨inner, hinner, hnesting⟩ := elements.fits.exists_inner hleftBracket hrightBracket
    exact ⟨_, _, inner, by decide, by decide, hinner, congrArg (· + 1) hnesting⟩
  | emptyObject ws =>
    obtain ⟨inner, hinner, hnesting⟩ := (fits_ws ws).exists_inner hleftBrace hrightBrace
    exact ⟨_, _, inner, by decide, by decide, hinner, congrArg (· + 1) hnesting⟩
  | object members =>
    obtain ⟨inner, hinner, hnesting⟩ := members.fits.exists_inner hleftBrace hrightBrace
    exact ⟨_, _, inner, by decide, by decide, hinner, congrArg (· + 1) hnesting⟩
  | _ => simp [Json.isContainer] at hcontainer

/-- **Documents are balanced.** The text of an object or an array is balanced,
with the nesting of the document. -/
theorem Document.exists_balanced (doc : Document) :
    ∃ m : BalancedText, m.text = doc.text ∧ m.nesting = doc.nesting := by
  obtain ⟨opening, closing, inner, hopening, hclosing, hbytes, hnesting⟩ := doc.exists_inner
  exact ⟨⟨doc.text, opening, closing, inner, hopening, hclosing,
    (intoBytes_ofList _).trans hbytes⟩, rfl, hnesting⟩

end JsonRpc.JsonText
