import JsonRpc.Codec.Framing
import JsonRpc.Codec.JsonText
import Mathlib.Data.List.Forall2

/-!
# Encoding and then decoding

With a separator byte on both sides, messages that do not contain it come back
exactly. Without a separator on the incoming side, the texts of JSON objects and
arrays come back up to the whitespace between them, as long as the depth counter
of the decoder does not wrap inside one of them.
-/

namespace JsonRpc

/-- The bytes that follow each outgoing message. -/
def Separator.suffix : Separator → Bytes
  | .empty => []
  | .byte separator => [separator]

/-- The encoder appends the message and the suffix of its separator. -/
theorem StreamCodec.encode_eq (codec : StreamCodec) (msg : String) (buf : Bytes) :
    codec.encode msg buf = buf ++ (intoBytes msg ++ codec.outgoingSeparator.suffix) := by
  cases h : codec.outgoingSeparator <;> simp [StreamCodec.encode, Separator.suffix, h]

/-- Messages are encoded one after another. -/
theorem StreamCodec.encodeAll_eq (codec : StreamCodec) (msgs : List String) :
    codec.encodeAll msgs =
      msgs.flatMap fun msg => intoBytes msg ++ codec.outgoingSeparator.suffix := by
  have hfold : ∀ buf : Bytes, msgs.foldl (fun buf msg => codec.encode msg buf) buf =
      buf ++ msgs.flatMap fun msg => intoBytes msg ++ codec.outgoingSeparator.suffix := by
    induction msgs with
    | nil => simp
    | cons msg msgs ih =>
      intro buf
      rw [List.foldl_cons, ih, codec.encode_eq, List.flatMap_cons]
      simp only [List.append_assoc]
  exact hfold []

/-! ## A separator byte on both sides -/

/-- The frame of a message that does not contain the separator is the message. -/
theorem cut_line {separator : UInt8} (outgoing : Separator) {msg : Bytes}
    (hmsg : separator ∉ msg) (rest : Bytes) :
    (StreamCodec.mk (.byte separator) outgoing).rule.cut (msg ++ separator :: rest) =
      some (msg.length + 1) := by
  have hnone : msg.findIdx? (· == separator) = none := by
    rw [List.findIdx?_eq_none_iff]
    intro byte hbyte
    simp only [beq_eq_false_iff_ne, ne_eq]
    rintro rfl
    exact hmsg hbyte
  change ((msg ++ separator :: rest).findIdx? (· == separator)).map (· + 1) = _
  simp [List.findIdx?_append, hnone, List.findIdx?_cons]

/-- Messages that do not contain the separator come back exactly. -/
theorem drain_encodeAll_line {separator : UInt8} {msgs : List String}
    (hmsgs : ∀ msg ∈ msgs, separator ∉ intoBytes msg) :
    (StreamCodec.mk (.byte separator) (.byte separator)).drain
        ((StreamCodec.mk (.byte separator) (.byte separator)).encodeAll msgs) =
      ⟨msgs, none, []⟩ := by
  have hframes : (StreamCodec.mk (.byte separator) (.byte separator)).rule.frames
      (msgs.flatMap fun msg => intoBytes msg ++ [separator]) =
      (msgs.map fun msg => intoBytes msg ++ [separator], []) := by
    induction msgs with
    | nil => exact PrefixCut.Rule.frames_of_cut_none rfl
    | cons msg msgs ih =>
      have hcut := cut_line (.byte separator) (hmsgs msg (by simp))
        (msgs.flatMap fun msg => intoBytes msg ++ [separator])
      have hlen : (intoBytes msg).length + 1 = (intoBytes msg ++ [separator]).length := by simp
      have hrest := ih (fun m hm => hmsgs m (by simp [hm]))
      rw [List.append_cons, hlen] at hcut
      rw [List.flatMap_cons, PrefixCut.Rule.frames_of_cut_some hcut, List.take_left,
        List.drop_left, hrest, List.map_cons]
  have hpayload : msgs.map intoBytes =
      (StreamCodec.mk (.byte separator) (.byte separator)).cutFrames
        (msgs.flatMap fun msg => intoBytes msg ++ [separator]) := by
    rw [StreamCodec.cutFrames, hframes, List.map_map]
    refine List.map_congr_left fun msg _ => ?_
    simp [StreamCodec.payload]
  rw [StreamCodec.encodeAll_eq, Separator.suffix, StreamCodec.drain_eq_frames hpayload, hframes]

/-! ## No separator on the incoming side -/

/-- The frames are the messages up to leading whitespace, without an error, and
only whitespace remains. -/
def Drained.IsUpToSpace (drained : Drained) (msgs : List Bytes) : Prop :=
  List.Forall₂
    (fun frame msg => ∃ space : Bytes, (∀ byte ∈ space, isWhitespace byte) ∧
      intoBytes frame = space ++ msg) drained.frames msgs ∧
    drained.error = none ∧ ∀ byte ∈ drained.rest, isWhitespace byte

/-- A balanced text has at least its two brackets that are not whitespace. -/
theorem BalancedText.two_le_solidCount (m : BalancedText) : 2 ≤ m.solidCount := by
  have hopening := (isOpening_cases m.opening_isOpening).2.2.2
  have hclosing := (isClosing_cases m.closing_isClosing).2.2.2
  simp only [BalancedText.solidCount, m.bytes_eq, List.countP_cons, List.countP_append, hopening,
    hclosing]
  simp

/-- The messages with the whitespace they meet in the buffer: the first one
some given whitespace, each other one the suffix written after the last. -/
def spread (suffix : Bytes) (hsuffix : ∀ byte ∈ suffix, isWhitespace byte) (space : Bytes)
    (hspace : ∀ byte ∈ space, isWhitespace byte) : List BalancedText → List Spaced
  | [] => []
  | m :: ms => ⟨space, m, hspace⟩ :: spread suffix hsuffix suffix hsuffix ms

section Suffix

variable {suffix space : Bytes} (hsuffix : ∀ byte ∈ suffix, isWhitespace byte)
  (hspace : ∀ byte ∈ space, isWhitespace byte)

include hspace in
/-- Whitespace before two equal buffers that go on with a bracket is the same. -/
theorem space_unique {space' : Bytes} (hspace' : ∀ byte ∈ space', isWhitespace byte)
    {opening : UInt8} (hopening : isWhitespace opening = false) {rest rest' : Bytes}
    (h : space ++ opening :: rest = space' ++ opening :: rest') : space = space' := by
  have htake := congrArg (List.takeWhile isWhitespace) h
  rw [List.takeWhile_append_of_pos hspace, List.takeWhile_append_of_pos hspace',
    List.takeWhile_cons_of_neg (by simp [hopening]),
    List.takeWhile_cons_of_neg (by simp [hopening])] at htake
  simpa using htake

/-- The encoded messages are spaced messages and then the last suffix. -/
theorem flatMap_spread (ms : List BalancedText) :
    ∃ tail : Bytes, (∀ byte ∈ tail, isWhitespace byte) ∧
      space ++ ms.flatMap (fun m => intoBytes m.text ++ suffix) =
        (spread suffix hsuffix space hspace ms).flatMap Spaced.bytes ++ tail := by
  induction ms generalizing space with
  | nil => exact ⟨space, hspace, by simp [spread]⟩
  | cons m ms ih =>
    obtain ⟨tail, htail, heq⟩ := ih hsuffix
    refine ⟨tail, htail, ?_⟩
    simp only [List.flatMap_cons, spread, Spaced.bytes, List.append_assoc] at heq ⊢
    rw [heq]

/-- The frames of spaced messages are the messages up to leading whitespace. -/
theorem forall₂_spread {ms : List BalancedText} {frames : List String}
    (h : frames.map intoBytes = (spread suffix hsuffix space hspace ms).map Spaced.bytes) :
    List.Forall₂
      (fun frame msg => ∃ space : Bytes, (∀ byte ∈ space, isWhitespace byte) ∧
        intoBytes frame = space ++ msg) frames (ms.map fun m => intoBytes m.text) := by
  induction ms generalizing space frames with
  | nil =>
    have hnil : frames = [] := by simpa [spread] using h
    simp [hnil]
  | cons m ms ih =>
    obtain ⟨frame, later, rfl, hframe, hlater⟩ := List.map_eq_cons_iff.mp h
    exact List.Forall₂.cons ⟨space, hspace, hframe⟩ (ih hsuffix hlater)

/-- Spaced messages are short of whitespace when the suffix is. -/
theorem bounds_spread (hsuffixLen : suffix.length ≤ 1) (hspaceLen : space.length ≤ 1)
    {ms : List BalancedText} (hms : ∀ m ∈ ms, m.nesting < 2 ^ 32) :
    ∀ m ∈ spread suffix hsuffix space hspace ms,
      m.space.length < m.message.solidCount ∧ m.message.nesting < 2 ^ 32 := by
  induction ms generalizing space with
  | nil => simp [spread]
  | cons m ms ih =>
    refine List.forall_mem_cons.mpr ⟨⟨?_, hms m (by simp)⟩, ?_⟩
    · have htwo := m.two_le_solidCount
      exact Nat.lt_of_le_of_lt hspaceLen htwo
    · exact ih hsuffix hsuffixLen (fun m' hm' => hms m' (by simp [hm']))

include hsuffix hspace in
/-- If the messages come back up to whitespace, no message wraps the depth. -/
theorem nesting_lt_of_isUpToSpace (hsuffixLen : suffix.length ≤ 1) (hspaceLen : space.length ≤ 1)
    {outgoing : Separator} {ms : List BalancedText}
    (h : ((StreamCodec.mk .empty outgoing).drain
      (space ++ ms.flatMap fun m => intoBytes m.text ++ suffix)).IsUpToSpace
        (ms.map fun m => intoBytes m.text)) :
    ∀ m ∈ ms, m.nesting < 2 ^ 32 := by
  induction ms generalizing space with
  | nil => simp
  | cons m ms ih =>
    obtain ⟨hframes, herror, hrest⟩ := h
    rw [List.flatMap_cons] at hframes herror hrest
    have hsplit : space ++ (intoBytes m.text ++ suffix ++
        ms.flatMap fun m => intoBytes m.text ++ suffix) =
        (⟨space, m, hspace⟩ : Spaced).bytes ++
          (suffix ++ ms.flatMap fun m => intoBytes m.text ++ suffix) := by
      simp only [Spaced.bytes, List.append_assoc]
    rw [hsplit] at hframes herror hrest
    cases hdrain : (StreamCodec.mk .empty outgoing).drain ((⟨space, m, hspace⟩ : Spaced).bytes ++
        (suffix ++ ms.flatMap fun m => intoBytes m.text ++ suffix)) with
    | mk frames error rest =>
      rw [hdrain] at hframes herror hrest
      obtain ⟨frame, later, ⟨space', hspace', hframe⟩, hlater, rfl⟩ :=
        List.forall₂_cons_right_iff.mp hframes
      obtain ⟨n, hcut, hpayload, hdrop⟩ := StreamCodec.cut_of_drain hdrain
      have hle := (StreamCodec.mk .empty outgoing).rule.cut_le hcut
      -- The frame and the buffer start with the same whitespace, so the frame is the message.
      have htake : space' ++ intoBytes m.text = ((⟨space, m, hspace⟩ : Spaced).bytes ++
          (suffix ++ ms.flatMap fun m => intoBytes m.text ++ suffix)).take n :=
        hframe.symm.trans hpayload
      have hsame : space = space' := by
        have hbuf := List.take_append_drop n ((⟨space, m, hspace⟩ : Spaced).bytes ++
          (suffix ++ ms.flatMap fun m => intoBytes m.text ++ suffix))
        rw [← htake] at hbuf
        simp only [Spaced.bytes, m.bytes_eq, List.append_assoc, List.cons_append] at hbuf
        exact space_unique hspace hspace' (isOpening_cases m.opening_isOpening).2.2.2 hbuf.symm
      have hn : n = (⟨space, m, hspace⟩ : Spaced).bytes.length := by
        have hlen := congrArg List.length htake
        simp only [List.length_append, List.length_take, Spaced.bytes, ← hsame] at hlen hle ⊢
        omega
      subst hn
      rw [List.drop_left] at hdrop
      have hbounds := (bounds_of_cut_spaced hcut).2
      refine List.forall_mem_cons.mpr ⟨?_, ih hsuffix hsuffixLen ?_⟩
      · simp only at hbounds
        omega
      · rw [hdrop]
        exact ⟨hlater, herror, hrest⟩

end Suffix

/-- Balanced texts, written with at most a whitespace byte between them, come
back up to whitespace exactly when none of them wraps the depth. -/
theorem isUpToSpace_iff (outgoing : Separator)
    (houtgoing : ∀ byte ∈ outgoing.suffix, isWhitespace byte) (ms : List BalancedText) :
    ((StreamCodec.mk .empty outgoing).drain
      ((StreamCodec.mk .empty outgoing).encodeAll (ms.map BalancedText.text))).IsUpToSpace
        (ms.map fun m => intoBytes m.text) ↔ ∀ m ∈ ms, m.nesting < 2 ^ 32 := by
  have hlen : outgoing.suffix.length ≤ 1 := by cases outgoing <;> simp [Separator.suffix]
  have hbuf : (StreamCodec.mk .empty outgoing).encodeAll (ms.map BalancedText.text) =
      [] ++ ms.flatMap fun m => intoBytes m.text ++ outgoing.suffix := by
    rw [StreamCodec.encodeAll_eq, List.flatMap_map, List.nil_append]
  rw [hbuf]
  constructor
  · exact nesting_lt_of_isUpToSpace houtgoing (by simp) hlen (by simp)
  · intro hms
    have hnil : ∀ byte ∈ ([] : Bytes), isWhitespace byte := List.forall_mem_nil _
    obtain ⟨tail, htail, heq⟩ := flatMap_spread houtgoing hnil ms
    have hframes := framesAs_spaced outgoing
      (bounds_spread houtgoing hnil hlen (Nat.zero_le 1) hms) htail
    rw [heq]
    exact ⟨forall₂_spread houtgoing hnil hframes.1, hframes.2.1, List.all_eq_true.mp hframes.2.2⟩

/-- **Stream codec round trip.** With one separator byte on both sides, messages
that do not contain it come back exactly. Without a separator on the incoming
side, and with nothing or a whitespace byte written between messages, the texts
of JSON objects and arrays come back up to leading whitespace if and only if
fewer than `2 ^ 32` brackets are open at once in each of them. -/
theorem encode_decode_roundTrip (separator : UInt8) (msgs : List String) (outgoing : Separator)
    (docs : List JsonText.Document) :
    ((∀ msg ∈ msgs, separator ∉ intoBytes msg) →
      (StreamCodec.mk (.byte separator) (.byte separator)).drain
        ((StreamCodec.mk (.byte separator) (.byte separator)).encodeAll msgs) =
          ⟨msgs, none, []⟩) ∧
    ((∀ byte ∈ outgoing.suffix, isWhitespace byte) →
      (((StreamCodec.mk .empty outgoing).drain
        ((StreamCodec.mk .empty outgoing).encodeAll
          (docs.map JsonText.Document.text))).IsUpToSpace
            (docs.map fun doc => intoBytes doc.text) ↔
        ∀ doc ∈ docs, doc.nesting < 2 ^ 32)) := by
  refine ⟨fun hmsgs => drain_encodeAll_line hmsgs, ?_⟩
  intro houtgoing
  choose balanced htext hnesting using JsonText.Document.exists_balanced
  have h := isUpToSpace_iff outgoing houtgoing (docs.map balanced)
  simpa only [List.map_map, Function.comp_def, htext, hnesting, List.forall_mem_map] using h

/-- Empty arrays nested `n` deep inside each other. -/
def nestedArray : ℕ → JsonText.Json
  | 0 => .emptyArray []
  | n + 1 => .array (.last [] (nestedArray n) [])

/-- The document of `n + 1` nested arrays. -/
def nestedDocument (n : ℕ) : JsonText.Document :=
  ⟨nestedArray n, by cases n <;> rfl⟩

theorem nesting_nestedDocument (n : ℕ) : (nestedDocument n).nesting = n + 1 := by
  induction n with
  | zero => rfl
  | succ n ih => exact congrArg (· + 1) ih

/-- The depth counter wraps inside `2 ^ 32` nested arrays, so this document does
not come back. -/
theorem not_isUpToSpace_nestedDocument :
    ¬ ((StreamCodec.mk .empty .empty).drain
      ((StreamCodec.mk .empty .empty).encodeAll
        ([nestedDocument (2 ^ 32 - 1)].map JsonText.Document.text))).IsUpToSpace
          ([nestedDocument (2 ^ 32 - 1)].map fun doc => intoBytes doc.text) := by
  intro h
  obtain ⟨m, htext, hnesting⟩ := (nestedDocument (2 ^ 32 - 1)).exists_balanced
  have hlt := (isUpToSpace_iff .empty (by simp [Separator.suffix]) [m]).mp
    (by simpa only [List.map_cons, List.map_nil, htext] using h) m (by simp)
  rw [hnesting, nesting_nestedDocument] at hlt
  omega

end JsonRpc
