import JsonRpc.Codec.StreamCodec
import Mathlib.Algebra.Group.Nat.Defs

/-!
# Texts with balanced brackets

A message of the separator-less codec starts with a bracket, ends with the
bracket that closes it, and has its brackets balanced outside strings. This
file describes such texts by their structure, independently of the decoder, and
runs the decoding loop over them. The decoder does not compare the kinds of
brackets, so neither does the description. The loop counts brackets in an
`i32`: its behaviour on a text is regular as long as fewer than `2 ^ 32`
brackets are open at once.
-/

namespace JsonRpc

/-- One unit of the inside of a string: a byte that is neither a quote nor a
backslash, or a backslash with the byte it escapes. -/
inductive StrUnit
  | raw (byte : UInt8) (hquote : byte ≠ quote) (hbackslash : byte ≠ backslash)
  | escaped (byte : UInt8)

/-- The bytes of a unit. -/
def StrUnit.bytes : StrUnit → Bytes
  | .raw byte _ _ => [byte]
  | .escaped byte => [backslash, byte]

/-- The bytes that stand for themselves outside strings. -/
def isPlain (byte : UInt8) : Bool := !isOpening byte && !isClosing byte && byte != quote

/-- A sequence of plain bytes, strings and bracketed groups. -/
inductive Body
  | nil
  | plain (byte : UInt8) (h : isPlain byte) (rest : Body)
  | str (units : List StrUnit) (rest : Body)
  | group (opening closing : UInt8) (hopening : isOpening opening) (hclosing : isClosing closing)
      (inner rest : Body)

/-- The bytes of a sequence. -/
def Body.bytes : Body → Bytes
  | .nil => []
  | .plain byte _ rest => byte :: rest.bytes
  | .str units rest => quote :: (units.flatMap StrUnit.bytes ++ quote :: rest.bytes)
  | .group opening closing _ _ inner rest => opening :: (inner.bytes ++ closing :: rest.bytes)

/-- The number of brackets open at once inside a sequence. -/
def Body.nesting : Body → ℕ
  | .nil => 0
  | .plain _ _ rest => rest.nesting
  | .str _ rest => rest.nesting
  | .group _ _ _ _ inner rest => max (inner.nesting + 1) rest.nesting

/-- A text that is one bracketed group. -/
structure BalancedText where
  /-- The text itself. -/
  text : String
  /-- The bracket it starts with. -/
  opening : UInt8
  /-- The bracket it ends with. -/
  closing : UInt8
  /-- What stands between the two. -/
  inner : Body
  opening_isOpening : isOpening opening
  closing_isClosing : isClosing closing
  bytes_eq : intoBytes text = opening :: (inner.bytes ++ [closing])

/-- The number of brackets open at once inside a text. -/
def BalancedText.nesting (m : BalancedText) : ℕ := m.inner.nesting + 1

/-- The number of bytes of a text that are not whitespace. -/
def BalancedText.solidCount (m : BalancedText) : ℕ :=
  (intoBytes m.text).countP (fun byte => !isWhitespace byte)

/-- The number of whitespace bytes among some bytes. -/
def whitespaceCount (bytes : Bytes) : ℕ := bytes.countP isWhitespace

@[simp] theorem whitespaceCount_nil : whitespaceCount [] = 0 := rfl

@[simp] theorem whitespaceCount_append (a b : Bytes) :
    whitespaceCount (a ++ b) = whitespaceCount a + whitespaceCount b := List.countP_append

@[simp] theorem whitespaceCount_cons (byte : UInt8) (bytes : Bytes) :
    whitespaceCount (byte :: bytes) = whitespaceCount bytes + (isWhitespace byte).toNat := by
  cases h : isWhitespace byte <;> simp [whitespaceCount, h]

/-- Every byte is solid or whitespace. -/
theorem BalancedText.solidCount_add_whitespaceCount (m : BalancedText) :
    m.solidCount + whitespaceCount (intoBytes m.text) = (intoBytes m.text).length := by
  have h := List.length_eq_countP_add_countP isWhitespace (l := intoBytes m.text)
  simp only [BalancedText.solidCount, whitespaceCount]
  simp only [Bool.not_eq_true, Bool.decide_eq_false] at h
  omega

/-! ## Kinds of bytes -/

/-- Opening brackets are neither closing brackets, quotes nor whitespace. -/
theorem isOpening_cases {byte : UInt8} (h : isOpening byte) :
    isClosing byte = false ∧ (byte == quote) = false ∧ (byte == backslash) = false ∧
      isWhitespace byte = false := by
  simp only [isOpening, Bool.or_eq_true, beq_iff_eq] at h
  rcases h with rfl | rfl <;> decide

/-- Closing brackets are neither opening brackets, quotes nor whitespace. -/
theorem isClosing_cases {byte : UInt8} (h : isClosing byte) :
    isOpening byte = false ∧ (byte == quote) = false ∧ (byte == backslash) = false ∧
      isWhitespace byte = false := by
  simp only [isClosing, Bool.or_eq_true, beq_iff_eq] at h
  rcases h with rfl | rfl <;> decide

/-- Whitespace bytes are plain. -/
theorem isPlain_of_isWhitespace {byte : UInt8} (h : isWhitespace byte) : isPlain byte := by
  simp only [isWhitespace, Bool.or_eq_true, beq_iff_eq] at h
  rcases h with ((rfl | rfl) | rfl) | rfl <;> decide

/-! ## What every iteration keeps -/

/-- The test that ends a frame, as a proposition. -/
theorem Scan.endsFrame_iff {scan : Scan} {idx : ℕ} :
    scan.endsFrame idx = true ↔
      scan.depth = 0 ∧ idx ≠ scan.startIdx ∧ scan.whitespaces < idx - scan.startIdx + 1 := by
  simp [Scan.endsFrame, and_assoc]

/-- Every iteration counts the whitespace byte it sees, in whatever state. -/
theorem Scan.advance_whitespaces (scan : Scan) (idx : ℕ) (byte : UInt8) :
    (scan.advance idx byte).whitespaces = scan.whitespaces + (isWhitespace byte).toNat := by
  by_cases hopening : isOpening byte
  · have hws := (isOpening_cases hopening).2.2.2
    cases hstr : scan.inStr <;> simp [Scan.advance, isOpening_cases hopening, *]
  · by_cases hclosing : isClosing byte
    · have hws := (isClosing_cases hclosing).2.2.2
      cases hstr : scan.inStr <;> simp [Scan.advance, isClosing_cases hclosing, *]
    · by_cases hquote : byte = quote
      · subst hquote
        have hws : isWhitespace quote = false := by decide
        cases hesc : scan.isEscaped <;> simp [Scan.advance, *]
      · cases hws : isWhitespace byte <;> simp [Scan.advance, *]

/-- The start index only grows, and never passes the current byte. -/
theorem Scan.advance_startIdx {scan : Scan} {idx : ℕ} (byte : UInt8) (h : scan.startIdx ≤ idx) :
    scan.startIdx ≤ (scan.advance idx byte).startIdx ∧ (scan.advance idx byte).startIdx ≤ idx := by
  simp only [Scan.advance]
  split
  · simp only
    split <;> omega
  · split
    · exact ⟨le_rfl, h⟩
    · split
      · exact ⟨le_rfl, h⟩
      · split <;> exact ⟨le_rfl, h⟩

/-- Where a frame ends, the bytes since the start index outnumber all the
whitespace counted up to there. -/
theorem Scan.whitespaces_lt_of_frameEnd {scan : Scan} {idx n : ℕ} {buf : Bytes}
    (hstart : scan.startIdx ≤ idx) (h : scan.frameEnd idx buf = some n) :
    scan.whitespaces + whitespaceCount (buf.take (n - idx)) < n - scan.startIdx := by
  induction buf generalizing scan idx with
  | nil => simp [Scan.frameEnd] at h
  | cons byte rest ih =>
    have hgrow := Scan.advance_startIdx byte hstart
    have hws := scan.advance_whitespaces idx byte
    simp only [Scan.frameEnd] at h
    split at h
    · rename_i hends
      have hlast := (Scan.endsFrame_iff.mp hends).2.2
      simp only [Option.some.injEq] at h
      subst h
      simp only [Nat.add_sub_cancel_left, List.take_succ_cons, List.take_zero,
        whitespaceCount_cons, whitespaceCount_nil]
      omega
    · have hbounds := Scan.frameEnd_bounds h
      have hlater := ih (by omega) h
      obtain ⟨k, rfl⟩ : ∃ k, n = idx + 1 + k := ⟨n - (idx + 1), by omega⟩
      rw [show idx + 1 + k - idx = k + 1 by omega, List.take_succ_cons, whitespaceCount_cons]
      rw [Nat.add_sub_cancel_left] at hlater
      omega

/-! ## The `i32` depth counter -/

/-- Below `2 ^ 32`, only the count zero is stored as zero. -/
theorem int32_ofNat_eq_zero {d : ℕ} (hd : d < 2 ^ 32) : Int32.ofNat d = 0 ↔ d = 0 := by
  constructor
  · intro h
    have hbits : BitVec.ofNat 32 d = 0#32 := congrArg Int32.toBitVec h
    have hnat := congrArg BitVec.toNat hbits
    rw [BitVec.toNat_ofNat, Nat.mod_eq_of_lt hd] at hnat
    exact hnat
  · rintro rfl
    rfl

/-- The loop variables between two units of the text, with `d` brackets open. -/
def Scan.mid (d startIdx whitespaces : ℕ) (inStr : Bool) : Scan :=
  ⟨Int32.ofNat d, inStr, false, startIdx, whitespaces⟩

section Steps

variable {d startIdx whitespaces idx : ℕ} {byte : UInt8}

/-- A frame does not end while a bracket is open. -/
theorem Scan.endsFrame_mid (hpos : 0 < d) (hd : d < 2 ^ 32) (inStr : Bool) :
    (Scan.mid d startIdx whitespaces inStr).endsFrame idx = false := by
  have hne : ¬ Int32.ofNat d = 0 := fun h => hpos.ne' ((int32_ofNat_eq_zero hd).mp h)
  simp [Scan.endsFrame, Scan.mid, hne]

/-- A plain byte is counted when it is whitespace. -/
theorem Scan.advance_plain (h : isPlain byte) :
    (Scan.mid d startIdx whitespaces false).advance idx byte =
      Scan.mid d startIdx (whitespaces + (isWhitespace byte).toNat) false := by
  simp only [isPlain, Bool.and_eq_true, Bool.not_eq_true', bne_iff_ne] at h
  obtain ⟨⟨hopening, hclosing⟩, hquote⟩ := h
  cases hws : isWhitespace byte <;> simp [Scan.advance, Scan.mid, *]

/-- An opening bracket outside strings raises the depth, and starts a group at
depth zero. -/
theorem Scan.advance_opening (h : isOpening byte) :
    (Scan.mid d startIdx whitespaces false).advance idx byte =
      Scan.mid (d + 1) (if Int32.ofNat d = 0 then idx else startIdx) whitespaces false := by
  obtain ⟨_, _, hbackslash, _⟩ := isOpening_cases h
  simp [Scan.advance, Scan.mid, h, hbackslash]

/-- A closing bracket outside strings lowers the depth. -/
theorem Scan.advance_closing (h : isClosing byte) :
    (Scan.mid (d + 1) startIdx whitespaces false).advance idx byte =
      Scan.mid d startIdx whitespaces false := by
  obtain ⟨hopening, _, hbackslash, _⟩ := isClosing_cases h
  simp [Scan.advance, Scan.mid, h, hopening, hbackslash]

/-- A quote enters or leaves a string. -/
theorem Scan.advance_quote (inStr : Bool) :
    (Scan.mid d startIdx whitespaces inStr).advance idx quote =
      Scan.mid d startIdx whitespaces (!inStr) := by
  have hopening : isOpening quote = false := by decide
  have hclosing : isClosing quote = false := by decide
  have hbackslash : (quote == backslash) = false := by decide
  simp [Scan.advance, Scan.mid, hopening, hclosing, hbackslash]

/-- Inside a string, a byte other than a quote or a backslash is counted when
it is whitespace. -/
theorem Scan.advance_raw (hquote : byte ≠ quote) (hbackslash : byte ≠ backslash) :
    (Scan.mid d startIdx whitespaces true).advance idx byte =
      Scan.mid d startIdx (whitespaces + (isWhitespace byte).toNat) true := by
  cases hws : isWhitespace byte <;> simp [Scan.advance, Scan.mid, *]

/-- Inside a string, a backslash and the byte it escapes are one unit. -/
theorem Scan.advance_escaped :
    ((Scan.mid d startIdx whitespaces true).advance idx backslash).advance (idx + 1) byte =
      Scan.mid d startIdx (whitespaces + (isWhitespace byte).toNat) true := by
  have hquote : (backslash == quote) = false := by decide
  have hws : isWhitespace backslash = false := by decide
  cases hbyte : isWhitespace byte <;> simp [Scan.advance, Scan.mid, *]

/-- After the backslash of an escape the loop goes on while a bracket is open. -/
theorem Scan.endsFrame_escape (hpos : 0 < d) (hd : d < 2 ^ 32) :
    ((Scan.mid d startIdx whitespaces true).advance idx backslash).endsFrame idx = false := by
  have hquote : (backslash == quote) = false := by decide
  have hws : isWhitespace backslash = false := by decide
  have hne : ¬ Int32.ofNat d = 0 := fun h => hpos.ne' ((int32_ofNat_eq_zero hd).mp h)
  simp [Scan.advance, Scan.mid, Scan.endsFrame, *]

end Steps

/-! ## Runs of the loop -/

/-- A step that does not end the frame moves to the next byte. -/
theorem Scan.frameEnd_cons {scan next : Scan} {idx : ℕ} {byte : UInt8} {rest : Bytes}
    (hnext : scan.advance idx byte = next) (hends : next.endsFrame idx = false) :
    scan.frameEnd idx (byte :: rest) = next.frameEnd (idx + 1) rest := by
  subst hnext
  simp [Scan.frameEnd, hends]

/-- Runs from equal counters are equal. -/
theorem Scan.frameEnd_congr {d startIdx ws ws' idx idx' : ℕ} {inStr : Bool} {rest : Bytes}
    (hws : ws = ws') (hidx : idx = idx') :
    (Scan.mid d startIdx ws inStr).frameEnd idx rest =
      (Scan.mid d startIdx ws' inStr).frameEnd idx' rest := by
  rw [hws, hidx]

/-- The loop runs over the inside of a string without ending the frame. -/
theorem Scan.frameEnd_units {d startIdx : ℕ} (hpos : 0 < d) (hd : d < 2 ^ 32)
    (units : List StrUnit) (whitespaces idx : ℕ) (rest : Bytes) :
    (Scan.mid d startIdx whitespaces true).frameEnd idx (units.flatMap StrUnit.bytes ++ rest) =
      (Scan.mid d startIdx (whitespaces + whitespaceCount (units.flatMap StrUnit.bytes))
        true).frameEnd (idx + (units.flatMap StrUnit.bytes).length) rest := by
  induction units generalizing whitespaces idx with
  | nil => simp
  | cons unit units ih =>
    cases unit with
    | raw byte hquote hbackslash =>
      simp only [List.flatMap_cons, StrUnit.bytes, List.cons_append, List.nil_append,
        List.length_cons, whitespaceCount_cons]
      rw [Scan.frameEnd_cons (Scan.advance_raw hquote hbackslash) (Scan.endsFrame_mid hpos hd _),
        ih]
      exact Scan.frameEnd_congr (by omega) (by omega)
    | escaped byte =>
      have hws : isWhitespace backslash = false := by decide
      simp only [List.flatMap_cons, StrUnit.bytes, List.cons_append, List.nil_append,
        List.length_cons, whitespaceCount_cons, hws]
      rw [Scan.frameEnd_cons rfl (Scan.endsFrame_escape hpos hd),
        Scan.frameEnd_cons Scan.advance_escaped (Scan.endsFrame_mid hpos hd _), ih]
      exact Scan.frameEnd_congr (by simp; omega) (by omega)

/-- The loop runs over a whole string without ending the frame. -/
theorem Scan.frameEnd_str {d startIdx : ℕ} (hpos : 0 < d) (hd : d < 2 ^ 32)
    (units : List StrUnit) (whitespaces idx : ℕ) (rest : Bytes) :
    (Scan.mid d startIdx whitespaces false).frameEnd idx
        (quote :: (units.flatMap StrUnit.bytes ++ quote :: rest)) =
      (Scan.mid d startIdx (whitespaces + whitespaceCount (units.flatMap StrUnit.bytes))
        false).frameEnd (idx + (units.flatMap StrUnit.bytes).length + 2) rest := by
  rw [Scan.frameEnd_cons (Scan.advance_quote false) (Scan.endsFrame_mid hpos hd _),
    Bool.not_false, Scan.frameEnd_units hpos hd,
    Scan.frameEnd_cons (Scan.advance_quote true) (Scan.endsFrame_mid hpos hd _), Bool.not_true]
  exact Scan.frameEnd_congr rfl (by omega)

/-- Inside a group, the loop runs over a sequence that does not open too many
brackets without ending the frame. -/
theorem Scan.frameEnd_body {startIdx : ℕ} (body : Body) {d : ℕ} (hpos : 0 < d)
    (hd : d + body.nesting < 2 ^ 32) (whitespaces idx : ℕ) (rest : Bytes) :
    (Scan.mid d startIdx whitespaces false).frameEnd idx (body.bytes ++ rest) =
      (Scan.mid d startIdx (whitespaces + whitespaceCount body.bytes) false).frameEnd
        (idx + body.bytes.length) rest := by
  induction body generalizing d whitespaces idx rest with
  | nil => simp [Body.bytes]
  | plain byte h tail ih =>
    simp only [Body.nesting] at hd
    simp only [Body.bytes, List.cons_append, List.length_cons, whitespaceCount_cons]
    rw [Scan.frameEnd_cons (Scan.advance_plain h) (Scan.endsFrame_mid hpos (by omega) _),
      ih hpos hd]
    exact Scan.frameEnd_congr (by omega) (by omega)
  | str units tail ih =>
    have hquote : isWhitespace quote = false := by decide
    simp only [Body.nesting] at hd
    simp only [Body.bytes, List.cons_append, List.append_assoc, List.length_cons,
      List.length_append, whitespaceCount_cons, whitespaceCount_append, hquote, Bool.toNat_false]
    rw [Scan.frameEnd_str hpos (by omega), ih hpos hd]
    exact Scan.frameEnd_congr (by omega) (by omega)
  | group opening closing hopening hclosing inner tail ihInner ihTail =>
    simp only [Body.nesting] at hd
    have hne : ¬ Int32.ofNat d = 0 := by
      rw [int32_ofNat_eq_zero (by omega)]
      omega
    have hwsOpening := (isOpening_cases hopening).2.2.2
    have hwsClosing := (isClosing_cases hclosing).2.2.2
    simp only [Body.bytes, List.cons_append, List.append_assoc, List.length_cons,
      List.length_append, whitespaceCount_cons, whitespaceCount_append, hwsOpening, hwsClosing,
      Bool.toNat_false]
    rw [Scan.frameEnd_cons (Scan.advance_opening hopening)
        (Scan.endsFrame_mid (by omega) (by omega) _), if_neg hne,
      ihInner (by omega) (by omega),
      Scan.frameEnd_cons (Scan.advance_closing hclosing) (Scan.endsFrame_mid hpos (by omega) _),
      ihTail hpos (by omega)]
    exact Scan.frameEnd_congr (by omega) (by omega)

/-- Inside a group, a sequence that opens too many brackets ends the frame at
the bracket that wraps the depth to zero. The bytes since the start of the
group suffice for that when fewer than `2 ^ 32` of the whitespace bytes precede
the group: `solid` of them are known not to be whitespace. -/
theorem Scan.frameEnd_overflow {startIdx spaces : ℕ} (hspaces : spaces < 2 ^ 32) (body : Body)
    {d : ℕ} (hpos : 0 < d) (hdlt : d < 2 ^ 32) (hd : 2 ^ 32 ≤ d + body.nesting)
    (whitespaces idx : ℕ) (hsolid : startIdx + whitespaces + d ≤ idx + spaces)
    (hstart : startIdx < idx) (rest : Bytes) :
    ∃ n, (Scan.mid d startIdx whitespaces false).frameEnd idx (body.bytes ++ rest) = some n ∧
      n ≤ idx + body.bytes.length := by
  induction body generalizing d whitespaces idx rest with
  | nil =>
    simp only [Body.nesting] at hd
    omega
  | plain byte h tail ih =>
    simp only [Body.nesting] at hd
    have hws : (isWhitespace byte).toNat ≤ 1 := Bool.toNat_le _
    obtain ⟨n, hn, hle⟩ := ih hpos hdlt hd (whitespaces + (isWhitespace byte).toNat) (idx + 1)
      (by omega) (by omega) rest
    refine ⟨n, ?_, ?_⟩
    · rw [Body.bytes, List.cons_append,
        Scan.frameEnd_cons (Scan.advance_plain h) (Scan.endsFrame_mid hpos hdlt _), hn]
    · simp only [Body.bytes, List.length_cons]
      omega
  | str units tail ih =>
    simp only [Body.nesting] at hd
    have hws : whitespaceCount (units.flatMap StrUnit.bytes) ≤
        (units.flatMap StrUnit.bytes).length := List.countP_le_length
    obtain ⟨n, hn, hle⟩ := ih hpos hdlt hd
      (whitespaces + whitespaceCount (units.flatMap StrUnit.bytes))
      (idx + (units.flatMap StrUnit.bytes).length + 2)
      (by omega) (by omega) rest
    refine ⟨n, ?_, ?_⟩
    · simp only [Body.bytes, List.cons_append, List.append_assoc]
      rw [Scan.frameEnd_str hpos hdlt, hn]
    · simp only [Body.bytes, List.length_cons, List.length_append]
      omega
  | group opening closing hopening hclosing inner tail ihInner ihTail =>
    simp only [Body.nesting] at hd
    have hne : ¬ Int32.ofNat d = 0 := by
      rw [int32_ofNat_eq_zero hdlt]
      omega
    simp only [Body.bytes, List.cons_append, List.append_assoc, List.length_cons,
      List.length_append]
    by_cases hwrap : d + 1 = 2 ^ 32
    · -- The opening bracket itself wraps the depth to zero.
      refine ⟨idx + 1, ?_, by omega⟩
      have hzero : Int32.ofNat (d + 1) = 0 := by
        rw [hwrap]
        decide
      have hends : ((Scan.mid d startIdx whitespaces false).advance idx opening).endsFrame idx := by
        rw [Scan.advance_opening hopening, if_neg hne]
        refine Scan.endsFrame_iff.mpr ⟨hzero, ?_, ?_⟩ <;> simp only [Scan.mid] <;> omega
      rw [Scan.frameEnd, if_pos hends]
    · have hopen : (Scan.mid d startIdx whitespaces false).frameEnd idx
          (opening :: (inner.bytes ++ closing :: (tail.bytes ++ rest))) =
          (Scan.mid (d + 1) startIdx whitespaces false).frameEnd (idx + 1)
            (inner.bytes ++ closing :: (tail.bytes ++ rest)) := by
        rw [Scan.frameEnd_cons (Scan.advance_opening hopening)
          (Scan.endsFrame_mid (by omega) (by omega) _), if_neg hne]
      rw [hopen]
      by_cases hinner : 2 ^ 32 ≤ d + 1 + inner.nesting
      · obtain ⟨n, hn, hle⟩ := ihInner (by omega) (by omega) hinner whitespaces (idx + 1)
          (by omega) (by omega) (closing :: (tail.bytes ++ rest))
        exact ⟨n, hn, by omega⟩
      · have hws : whitespaceCount inner.bytes ≤ inner.bytes.length := List.countP_le_length
        obtain ⟨n, hn, hle⟩ := ihTail hpos hdlt (by omega)
          (whitespaces + whitespaceCount inner.bytes) (idx + 1 + inner.bytes.length + 1)
          (by omega) (by omega) rest
        refine ⟨n, ?_, by omega⟩
        rw [Scan.frameEnd_body inner (by omega) (by omega),
          Scan.frameEnd_cons (Scan.advance_closing hclosing) (Scan.endsFrame_mid hpos hdlt _), hn]

/-! ## Whole messages -/

/-- Whitespace at the start of the buffer never ends a frame: it is counted as
fast as the index grows. -/
theorem Scan.frameEnd_spaces (spaces : Bytes) (hspaces : ∀ byte ∈ spaces, isWhitespace byte)
    (idx : ℕ) (rest : Bytes) :
    (Scan.mid 0 0 idx false).frameEnd idx (spaces ++ rest) =
      (Scan.mid 0 0 (idx + spaces.length) false).frameEnd (idx + spaces.length) rest := by
  induction spaces generalizing idx with
  | nil => simp
  | cons byte spaces ih =>
    have hbyte : isWhitespace byte := hspaces byte (by simp)
    have hnext : (Scan.mid 0 0 idx false).advance idx byte = Scan.mid 0 0 (idx + 1) false := by
      rw [Scan.advance_plain (isPlain_of_isWhitespace hbyte), hbyte]
      rfl
    have hends : (Scan.mid 0 0 (idx + 1) false).endsFrame idx = false := by
      simp [Scan.endsFrame, Scan.mid]
    rw [List.cons_append, Scan.frameEnd_cons hnext hends,
      ih (fun b hb => hspaces b (by simp [hb]))]
    exact Scan.frameEnd_congr (by simp; omega) (by simp; omega)

/-- On whitespace and then a message, the loop ends the frame at the end of the
message exactly when the message has more solid bytes than there is whitespace
before it. Otherwise it goes on with the next byte. -/
theorem Scan.frameEnd_message {spaces : Bytes} (hspaces : ∀ byte ∈ spaces, isWhitespace byte)
    (m : BalancedText) (hnesting : m.nesting < 2 ^ 32) (rest : Bytes) :
    ({} : Scan).frameEnd 0 (spaces ++ (intoBytes m.text ++ rest)) =
      if spaces.length < m.solidCount then some (spaces.length + (intoBytes m.text).length)
      else (Scan.mid 0 spaces.length (spaces.length + whitespaceCount (intoBytes m.text))
        false).frameEnd (spaces.length + (intoBytes m.text).length) rest := by
  have hwsOpening := (isOpening_cases m.opening_isOpening).2.2.2
  have hwsClosing := (isClosing_cases m.closing_isClosing).2.2.2
  have hsolid := m.solidCount_add_whitespaceCount
  have hinner : 1 + m.inner.nesting < 2 ^ 32 := by
    simp only [BalancedText.nesting] at hnesting
    omega
  have hwhole : ({} : Scan).frameEnd 0 (spaces ++ (intoBytes m.text ++ rest)) =
      (Scan.mid 1 spaces.length (spaces.length + whitespaceCount m.inner.bytes) false).frameEnd
        (spaces.length + 1 + m.inner.bytes.length) (m.closing :: rest) := by
    rw [show ({} : Scan) = Scan.mid 0 0 0 false from rfl, Scan.frameEnd_spaces spaces hspaces,
      m.bytes_eq, List.cons_append, List.append_assoc,
      Scan.frameEnd_cons (Scan.advance_opening m.opening_isOpening)
        (Scan.endsFrame_mid (by omega) (by omega) _),
      if_pos (by rfl), Scan.frameEnd_body m.inner (by omega) (by omega)]
    simp only [Nat.zero_add, List.singleton_append]
  have hlast : (Scan.mid 1 spaces.length (spaces.length + whitespaceCount m.inner.bytes)
      false).advance (spaces.length + 1 + m.inner.bytes.length) m.closing =
      Scan.mid 0 spaces.length (spaces.length + whitespaceCount m.inner.bytes) false :=
    Scan.advance_closing m.closing_isClosing
  rw [hwhole, Scan.frameEnd, hlast]
  simp only [m.bytes_eq, List.length_cons, List.length_append, List.length_nil,
    whitespaceCount_cons, whitespaceCount_append, whitespaceCount_nil, hwsOpening, hwsClosing,
    Bool.toNat_false] at hsolid ⊢
  by_cases hlt : spaces.length < m.solidCount
  · have hends : (Scan.mid 0 spaces.length (spaces.length + whitespaceCount m.inner.bytes)
        false).endsFrame (spaces.length + 1 + m.inner.bytes.length) = true := by
      refine Scan.endsFrame_iff.mpr ⟨rfl, ?_, ?_⟩ <;> simp only [Scan.mid] <;> omega
    rw [if_pos hends, if_pos hlt]
    congr 1
    omega
  · have hends : ¬ (Scan.mid 0 spaces.length (spaces.length + whitespaceCount m.inner.bytes)
        false).endsFrame (spaces.length + 1 + m.inner.bytes.length) = true := by
      simp only [Scan.endsFrame_iff, Scan.mid]
      omega
    rw [if_neg hends, if_neg hlt]
    exact Scan.frameEnd_congr (by omega) (by omega)

/-- On whitespace and then a message that opens too many brackets, the loop ends
the frame before the end of the message, unless the whitespace is as long as
the depth that wraps. -/
theorem Scan.frameEnd_message_overflow {spaces : Bytes}
    (hspaces : ∀ byte ∈ spaces, isWhitespace byte) (hlt : spaces.length < 2 ^ 32)
    (m : BalancedText) (hnesting : 2 ^ 32 ≤ m.nesting) (rest : Bytes) :
    ∃ n, ({} : Scan).frameEnd 0 (spaces ++ (intoBytes m.text ++ rest)) = some n ∧
      n < spaces.length + (intoBytes m.text).length := by
  simp only [BalancedText.nesting] at hnesting
  have hstart : spaces.length + spaces.length + 1 ≤ spaces.length + 1 + spaces.length := by omega
  obtain ⟨n, hn, hle⟩ := Scan.frameEnd_overflow hlt m.inner Nat.one_pos (by omega) (by omega)
    spaces.length (spaces.length + 1) hstart (by omega) (m.closing :: rest)
  refine ⟨n, ?_, ?_⟩
  · rw [show ({} : Scan) = Scan.mid 0 0 0 false from rfl, Scan.frameEnd_spaces spaces hspaces,
      m.bytes_eq, List.cons_append, List.append_assoc,
      Scan.frameEnd_cons (Scan.advance_opening m.opening_isOpening)
        (Scan.endsFrame_mid (by omega) (by omega) _),
      if_pos (by rfl)]
    simpa only [Nat.zero_add, List.singleton_append] using hn
  · simp only [m.bytes_eq, List.length_cons, List.length_append, List.length_nil]
    omega

end JsonRpc
