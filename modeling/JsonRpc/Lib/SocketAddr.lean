import JsonRpc.Lib.Text

/-!
# Socket addresses and their texts

A socket address is an IP address with a port. It is printed as the standard library does:
an IPv4 address in dotted decimal, an IPv6 address in brackets, with its longest run of
zero segments left out and with its scope. The text of an IPv6 address has at least two
colons.
-/

open Text

/-! ## IPv4 -/

/-- An IPv4 address. -/
structure Ipv4Addr where
  a : UInt8
  b : UInt8
  c : UInt8
  d : UInt8
  deriving DecidableEq

namespace Ipv4Addr

def unspecified : Ipv4Addr := ⟨0, 0, 0, 0⟩

def localhost : Ipv4Addr := ⟨127, 0, 0, 1⟩

def text (ip : Ipv4Addr) : Text :=
  decimal ip.a.toNat ++ '.' :: decimal ip.b.toNat ++ '.' :: decimal ip.c.toNat ++
    '.' :: decimal ip.d.toNat

end Ipv4Addr

/-! ## IPv6 -/

/-- An IPv6 address. -/
structure Ipv6Addr where
  segments : List UInt16
  length_segments : segments.length = 8
  deriving DecidableEq

/-- A run of zero segments. -/
structure Span where
  start : ℕ
  len : ℕ

namespace Ipv6Addr

/-- The IPv4 address that an address stands for. -/
def toIpv4Mapped (ip : Ipv6Addr) : Option Ipv4Addr :=
  if ip.segments.take 6 = [0, 0, 0, 0, 0, 0xffff] then
    match ip.segments.drop 6 with
    | [ab, cd] => some ⟨(ab >>> 8).toUInt8, ab.toUInt8, (cd >>> 8).toUInt8, cd.toUInt8⟩
    | _ => none
  else none

/-- One segment in the search for the longest run of zeros: the longest run and the current
one. -/
def nextSpan (spans : Span × Span) (segment : UInt16 × ℕ) : Span × Span :=
  let (longest, current) := spans
  if segment.1 = 0 then
    let current : Span := ⟨if current.len = 0 then segment.2 else current.start, current.len + 1⟩
    (if longest.len < current.len then current else longest, current)
  else (longest, ⟨0, 0⟩)

/-- The longest run of zeros. -/
def zeroes (ip : Ipv6Addr) : Span :=
  (ip.segments.zipIdx.foldl nextSpan (⟨0, 0⟩, ⟨0, 0⟩)).1

/-- Segments with colons between them. -/
def fmtSubslice : List UInt16 → Text
  | [] => []
  | first :: tail => hex first.toNat ++ tail.flatMap fun segment => ':' :: hex segment.toNat

def text (ip : Ipv6Addr) : Text :=
  match ip.toIpv4Mapped with
  | some ipv4 => "::ffff:".toList ++ ipv4.text
  | none =>
    if 1 < ip.zeroes.len then
      fmtSubslice (ip.segments.take ip.zeroes.start) ++ "::".toList ++
        fmtSubslice (ip.segments.drop (ip.zeroes.start + ip.zeroes.len))
    else fmtSubslice ip.segments

end Ipv6Addr

/-! ## Socket addresses -/

/-- An IP address. -/
inductive IpAddr where
  | v4 (ip : Ipv4Addr)
  | v6 (ip : Ipv6Addr)
  deriving DecidableEq

/-- An IP address with a port. An IPv6 address has a scope. -/
inductive SocketAddr where
  | v4 (ip : Ipv4Addr) (port : UInt16)
  | v6 (ip : Ipv6Addr) (port : UInt16) (scopeId : UInt32)
  deriving DecidableEq

namespace SocketAddr

def ip : SocketAddr → IpAddr
  | v4 ip _ => .v4 ip
  | v6 ip _ _ => .v6 ip

def isIpv4 : SocketAddr → Bool
  | v4 _ _ => true
  | v6 _ _ _ => false

/-- An IPv6 address with its scope. -/
def scopedText (ip : Ipv6Addr) (scopeId : UInt32) : Text :=
  if scopeId = 0 then ip.text else ip.text ++ '%' :: decimal scopeId.toNat

def text : SocketAddr → Text
  | v4 ip port => ip.text ++ ':' :: decimal port.toNat
  | v6 ip port scopeId => '[' :: (scopedText ip scopeId ++ ']' :: ':' :: decimal port.toNat)

end SocketAddr

/-! ## The characters of the texts -/

/-- The characters of an address. -/
def addressChars : Text := "0123456789abcdef.%:".toList

theorem mem_addressChars_of_mem_toDigits {b n : ℕ} (hb : 1 < b) (hle : b ≤ 16) {ch : Char}
    (hmem : ch ∈ Nat.toDigits b n) : ch ∈ addressChars ∧ ch ≠ ':' := by
  obtain ⟨d, hd, rfl⟩ := exists_digitChar_of_mem_toDigits hb hmem
  have hall : ∀ d < 16, Nat.digitChar d ∈ addressChars ∧ Nat.digitChar d ≠ ':' := by decide
  exact hall d (by omega)

theorem mem_addressChars_of_mem_decimal {n : ℕ} {ch : Char} (hmem : ch ∈ decimal n) :
    ch ∈ addressChars ∧ ch ≠ ':' :=
  mem_addressChars_of_mem_toDigits (by omega) (by omega) hmem

theorem Ipv4Addr.mem_addressChars {ip : Ipv4Addr} {ch : Char} (hmem : ch ∈ ip.text) :
    ch ∈ addressChars ∧ ch ≠ ':' := by
  have hdot : '.' ∈ addressChars ∧ '.' ≠ ':' := by decide
  simp only [text, List.mem_append, List.mem_cons] at hmem
  rcases hmem with ((hmem | rfl | hmem) | rfl | hmem) | rfl | hmem
  all_goals first
    | exact hdot
    | exact mem_addressChars_of_mem_decimal hmem

namespace Ipv6Addr

theorem mem_addressChars_of_mem_fmtSubslice {chunk : List UInt16} {ch : Char}
    (hmem : ch ∈ fmtSubslice chunk) : ch ∈ addressChars := by
  cases chunk with
  | nil => cases hmem
  | cons first tail =>
    rcases List.mem_append.mp hmem with hmem | hmem
    · exact (mem_addressChars_of_mem_toDigits (by omega) (by omega) hmem).1
    · obtain ⟨segment, -, hmem⟩ := List.mem_flatMap.mp hmem
      rcases List.mem_cons.mp hmem with rfl | hmem
      · decide
      · exact (mem_addressChars_of_mem_toDigits (by omega) (by omega) hmem).1

theorem mem_addressChars {ip : Ipv6Addr} {ch : Char} (hmem : ch ∈ ip.text) :
    ch ∈ addressChars := by
  have hmapped : "::ffff:".toList.all (· ∈ addressChars) = true := by decide
  have hspan : "::".toList.all (· ∈ addressChars) = true := by decide
  unfold text at hmem
  split at hmem
  · rcases List.mem_append.mp hmem with hmem | hmem
    · exact of_decide_eq_true (List.all_eq_true.mp hmapped ch hmem)
    · exact (Ipv4Addr.mem_addressChars hmem).1
  · split at hmem
    · rcases List.mem_append.mp hmem with hmem | hmem
      · rcases List.mem_append.mp hmem with hmem | hmem
        · exact mem_addressChars_of_mem_fmtSubslice hmem
        · exact of_decide_eq_true (List.all_eq_true.mp hspan ch hmem)
      · exact mem_addressChars_of_mem_fmtSubslice hmem
    · exact mem_addressChars_of_mem_fmtSubslice hmem

/-- There is a colon between any two segments. -/
theorem length_le_count_fmtSubslice (chunk : List UInt16) :
    chunk.length ≤ (fmtSubslice chunk).count ':' + 1 := by
  cases chunk with
  | nil => simp
  | cons first tail =>
    have htail : tail.length ≤
        (tail.flatMap fun segment => ':' :: hex segment.toNat).count ':' := by
      induction tail with
      | nil => simp
      | cons segment tail ih =>
        rw [List.flatMap_cons, List.count_append, List.count_cons_self, List.length_cons]
        omega
    rw [fmtSubslice, List.count_append, List.length_cons]
    omega

theorem two_le_count_text (ip : Ipv6Addr) : 2 ≤ ip.text.count ':' := by
  unfold text
  split
  · have hmapped : "::ffff:".toList.count ':' = 3 := by decide
    rw [List.count_append, hmapped]
    omega
  · split
    · have hspan : "::".toList.count ':' = 2 := by decide
      rw [List.count_append, List.count_append, hspan]
      omega
    · have hcount := length_le_count_fmtSubslice ip.segments
      rw [ip.length_segments] at hcount
      omega

end Ipv6Addr

namespace SocketAddr

theorem mem_addressChars_of_mem_scopedText {ip : Ipv6Addr} {scopeId : UInt32} {ch : Char}
    (hmem : ch ∈ scopedText ip scopeId) : ch ∈ addressChars := by
  unfold scopedText at hmem
  split at hmem
  · exact Ipv6Addr.mem_addressChars hmem
  · rcases List.mem_append.mp hmem with hmem | hmem
    · exact Ipv6Addr.mem_addressChars hmem
    · rcases List.mem_cons.mp hmem with rfl | hmem
      · decide
      · exact (mem_addressChars_of_mem_decimal hmem).1

theorem two_le_count_scopedText (ip : Ipv6Addr) (scopeId : UInt32) :
    2 ≤ (scopedText ip scopeId).count ':' := by
  have htext := ip.two_le_count_text
  unfold scopedText
  split
  · exact htext
  · rw [List.count_append]
    omega

/-- Every character of a socket address is in the text of an address, or is a bracket. -/
theorem mem_addressChars {a : SocketAddr} {ch : Char} (hmem : ch ∈ a.text) :
    ch ∈ addressChars ∨ ch = '[' ∨ ch = ']' := by
  cases a with
  | v4 ip port =>
    left
    rcases List.mem_append.mp hmem with hmem | hmem
    · exact (Ipv4Addr.mem_addressChars hmem).1
    · rcases List.mem_cons.mp hmem with rfl | hmem
      · decide
      · exact (mem_addressChars_of_mem_decimal hmem).1
  | v6 ip port scopeId =>
    rcases List.mem_cons.mp hmem with rfl | hmem
    · exact .inr (.inl rfl)
    · rcases List.mem_append.mp hmem with hmem | hmem
      · exact .inl (mem_addressChars_of_mem_scopedText hmem)
      · rcases List.mem_cons.mp hmem with rfl | hmem
        · exact .inr (.inr rfl)
        · left
          rcases List.mem_cons.mp hmem with rfl | hmem
          · decide
          · exact (mem_addressChars_of_mem_decimal hmem).1

end SocketAddr
