import JsonRpc.Codec.BalancedText

/-!
# Framing without a separator

The separator-less decoder ends a frame where the brackets are balanced again,
but only if the bytes since the opening bracket outnumber the whitespace
counted since the start of the buffer. Whitespace between messages is therefore
tolerated as long as it is shorter than the solid part of the next message. A
longer run makes the decoder miss the end of that message.
-/

namespace JsonRpc

/-- A message with the whitespace that precedes it. -/
structure Spaced where
  /-- The whitespace before the message. -/
  space : Bytes
  /-- The message. -/
  message : BalancedText
  space_isWhitespace : ∀ byte ∈ space, isWhitespace byte

/-- The whitespace followed by the message. -/
def Spaced.bytes (m : Spaced) : Bytes := m.space ++ intoBytes m.message.text

/-- Calling `decode` until it returns `Ok(None)` yields exactly the given
frames, without an error, and leaves at most whitespace. -/
def StreamCodec.FramesAs (codec : StreamCodec) (buf : Bytes) (frames : List Bytes) : Prop :=
  (codec.drain buf).frames.map intoBytes = frames ∧ (codec.drain buf).error = none ∧
    (codec.drain buf).rest.all isWhitespace

instance (codec : StreamCodec) (buf : Bytes) (frames : List Bytes) :
    Decidable (codec.FramesAs buf frames) := inferInstanceAs (Decidable (_ ∧ _))

/-- Whitespace alone holds no frame. -/
theorem cut_spaces {outgoing : Separator} {tail : Bytes} (h : ∀ byte ∈ tail, isWhitespace byte) :
    (StreamCodec.mk .empty outgoing).rule.cut tail = none := by
  have hspaces := Scan.frameEnd_spaces tail h 0 []
  rw [List.append_nil] at hspaces
  exact hspaces

/-- Whitespace shorter than the solid part of the message that follows it, and
a message that does not open too many brackets, are cut off together. -/
theorem cut_spaced (outgoing : Separator) (m : Spaced)
    (hlt : m.space.length < m.message.solidCount) (hnesting : m.message.nesting < 2 ^ 32)
    (rest : Bytes) :
    (StreamCodec.mk .empty outgoing).rule.cut (m.bytes ++ rest) = some m.bytes.length := by
  have hmessage := Scan.frameEnd_message m.space_isWhitespace m.message hnesting rest
  rw [if_pos hlt, ← List.append_assoc] at hmessage
  rw [Spaced.bytes, List.length_append]
  exact hmessage

/-- Such messages, one after another, are exactly the frames of the buffer. -/
theorem frames_spaced (outgoing : Separator) {ms : List Spaced} {tail : Bytes}
    (hms : ∀ m ∈ ms, m.space.length < m.message.solidCount ∧ m.message.nesting < 2 ^ 32)
    (htail : ∀ byte ∈ tail, isWhitespace byte) :
    (StreamCodec.mk .empty outgoing).rule.frames (ms.flatMap Spaced.bytes ++ tail) =
      (ms.map Spaced.bytes, tail) := by
  induction ms with
  | nil => simp [PrefixCut.Rule.frames_of_cut_none (cut_spaces htail)]
  | cons m ms ih =>
    obtain ⟨hlt, hnesting⟩ := hms m (by simp)
    have hcut := cut_spaced outgoing m hlt hnesting (ms.flatMap Spaced.bytes ++ tail)
    have hrest := ih (fun m' hm' => hms m' (by simp [hm']))
    rw [List.flatMap_cons, List.append_assoc, PrefixCut.Rule.frames_of_cut_some hcut,
      List.drop_left, List.take_left, hrest, List.map_cons]

/-- Whitespace bytes are UTF-8. -/
theorem exists_intoBytes_spaces {space : Bytes} (h : ∀ byte ∈ space, isWhitespace byte) :
    ∃ s : String, intoBytes s = space := by
  refine ⟨String.ofList (space.map fun byte => Char.ofNat byte.toNat), ?_⟩
  rw [intoBytes_ofList, List.flatMap_map]
  induction space with
  | nil => rfl
  | cons byte space ih =>
    have hbyte : String.utf8EncodeChar (Char.ofNat byte.toNat) = [byte] := by
      have hws := h byte (by simp)
      simp only [isWhitespace, Bool.or_eq_true, beq_iff_eq] at hws
      rcases hws with ((rfl | rfl) | rfl) | rfl <;> decide
    rw [List.flatMap_cons, hbyte, ih (fun b hb => h b (by simp [hb]))]
    rfl

/-- The bytes of spaced messages are the encodings of some strings. -/
theorem exists_map_intoBytes_spaced (ms : List Spaced) :
    ∃ frames : List String, frames.map intoBytes = ms.map Spaced.bytes := by
  induction ms with
  | nil => exact ⟨[], rfl⟩
  | cons m ms ih =>
    obtain ⟨frames, hframes⟩ := ih
    obtain ⟨space, hspace⟩ := exists_intoBytes_spaces m.space_isWhitespace
    refine ⟨(space ++ m.message.text) :: frames, ?_⟩
    rw [List.map_cons, hframes, intoBytes_append, hspace, List.map_cons, Spaced.bytes]

/-- Short enough whitespace and few enough open brackets make the decoder
return each message with the whitespace before it. -/
theorem framesAs_spaced (outgoing : Separator) {ms : List Spaced} {tail : Bytes}
    (hms : ∀ m ∈ ms, m.space.length < m.message.solidCount ∧ m.message.nesting < 2 ^ 32)
    (htail : ∀ byte ∈ tail, isWhitespace byte) :
    (StreamCodec.mk .empty outgoing).FramesAs (ms.flatMap Spaced.bytes ++ tail)
      (ms.map Spaced.bytes) := by
  have hframes := frames_spaced outgoing hms htail
  obtain ⟨frames, hbytes⟩ := exists_map_intoBytes_spaced ms
  have hcut : frames.map intoBytes =
      (StreamCodec.mk .empty outgoing).cutFrames (ms.flatMap Spaced.bytes ++ tail) := by
    rw [StreamCodec.cutFrames, hframes, hbytes]
    exact (List.map_id _).symm
  have hdrain := StreamCodec.drain_eq_frames hcut
  rw [hframes] at hdrain
  simp only [StreamCodec.FramesAs, hdrain]
  exact ⟨hbytes, trivial, List.all_eq_true.mpr htail⟩

/-- If the decoder cuts a message off together with the whitespace before it,
the whitespace is shorter than the solid part of the message, and the depth
does not wrap inside the message, unless the whitespace is as long as that. -/
theorem bounds_of_cut_spaced {outgoing : Separator} {m : Spaced} {rest : Bytes}
    (h : (StreamCodec.mk .empty outgoing).rule.cut (m.bytes ++ rest) = some m.bytes.length) :
    m.space.length < m.message.solidCount ∧
      (m.message.nesting < 2 ^ 32 ∨ 2 ^ 32 ≤ m.space.length) := by
  have hend : ({} : Scan).frameEnd 0 (m.space ++ (intoBytes m.message.text ++ rest)) =
      some m.bytes.length := by
    rw [← List.append_assoc]
    exact h
  have hlen : m.bytes.length = m.space.length + (intoBytes m.message.text).length := by
    simp [Spaced.bytes]
  constructor
  · -- From the opening bracket on, the loop compares the message with all whitespace so far.
    have hsolid := m.message.solidCount_add_whitespaceCount
    have hwsOpening := (isOpening_cases m.message.opening_isOpening).2.2.2
    rw [show ({} : Scan) = Scan.mid 0 0 0 false from rfl,
      Scan.frameEnd_spaces m.space m.space_isWhitespace, Nat.zero_add, m.message.bytes_eq,
      List.cons_append,
      Scan.frameEnd_cons (Scan.advance_opening m.message.opening_isOpening)
        (Scan.endsFrame_mid (by omega) (by omega) _), if_pos (by rfl)] at hend
    have hlt := Scan.whitespaces_lt_of_frameEnd (by simp [Scan.mid]) hend
    simp only [m.message.bytes_eq, List.length_cons, whitespaceCount_cons, hwsOpening,
      Bool.toNat_false] at hsolid hlen
    rw [hlen, show m.space.length + ((m.message.inner.bytes ++ [m.message.closing]).length + 1) -
      (m.space.length + 1) = (m.message.inner.bytes ++ [m.message.closing]).length by omega,
      List.take_left] at hlt
    simp only [Scan.mid] at hlt
    omega
  · by_contra hcon
    push Not at hcon
    obtain ⟨n, hn, hlt⟩ := Scan.frameEnd_message_overflow m.space_isWhitespace hcon.2 m.message
      hcon.1 rest
    rw [hend] at hn
    simp only [Option.some.injEq] at hn
    omega

/-- If the decoder returns each message with the whitespace before it, then it
cuts each of them off so. -/
theorem bounds_of_framesAs_spaced {outgoing : Separator} {ms : List Spaced} {tail : Bytes}
    (h : (StreamCodec.mk .empty outgoing).FramesAs (ms.flatMap Spaced.bytes ++ tail)
      (ms.map Spaced.bytes)) :
    ∀ m ∈ ms, m.space.length < m.message.solidCount ∧
      (m.message.nesting < 2 ^ 32 ∨ 2 ^ 32 ≤ m.space.length) := by
  induction ms with
  | nil => simp
  | cons m ms ih =>
    obtain ⟨hframes, herror, hrest⟩ := h
    rw [List.flatMap_cons, List.append_assoc] at hframes herror hrest
    cases hdrain : (StreamCodec.mk .empty outgoing).drain
        (m.bytes ++ (ms.flatMap Spaced.bytes ++ tail)) with
    | mk frames error rest =>
      rw [hdrain] at hframes herror hrest
      obtain ⟨frame, later, hsplit, hframe, hlater⟩ := List.map_eq_cons_iff.mp hframes
      simp only at hsplit
      subst hsplit
      obtain ⟨n, hcut, hpayload, hdrop⟩ := StreamCodec.cut_of_drain hdrain
      have hle := (StreamCodec.mk .empty outgoing).rule.cut_le hcut
      have hn : n = m.bytes.length := by
        have hlen := congrArg List.length (hframe.symm.trans hpayload)
        simp only [StreamCodec.payload, List.length_take] at hlen
        omega
      subst hn
      rw [List.drop_left] at hdrop
      refine List.forall_mem_cons.mpr ⟨bounds_of_cut_spaced hcut, ih ?_⟩
      rw [StreamCodec.FramesAs, hdrop]
      exact ⟨hlater, herror, hrest⟩

/-- **Whitespace-tolerant framing.** For messages that each open fewer than
`2 ^ 32` brackets at once, the decoder returns exactly the messages with the
whitespace before them, and leaves nothing but whitespace, if and only if each
run of whitespace is shorter than the solid part of the message it precedes. A
message that opens more brackets is never returned so, short of `2 ^ 32`
whitespace bytes before it. -/
theorem framesAs_spaced_bounds (outgoing : Separator) (ms : List Spaced) :
    ((∀ m ∈ ms, m.space.length < m.message.solidCount ∧ m.message.nesting < 2 ^ 32) →
      (StreamCodec.mk .empty outgoing).FramesAs (ms.flatMap Spaced.bytes)
        (ms.map Spaced.bytes)) ∧
    ((StreamCodec.mk .empty outgoing).FramesAs (ms.flatMap Spaced.bytes) (ms.map Spaced.bytes) →
      ∀ m ∈ ms, m.space.length < m.message.solidCount ∧
        (m.message.nesting < 2 ^ 32 ∨ 2 ^ 32 ≤ m.space.length)) := by
  constructor
  · intro hms
    have hframes := framesAs_spaced outgoing hms (List.forall_mem_nil _)
    rwa [List.append_nil] at hframes
  · intro h
    rw [← List.append_nil (ms.flatMap Spaced.bytes)] at h
    exact bounds_of_framesAs_spaced h

/-- The text of an empty object. -/
def emptyObject : BalancedText where
  text := "\x7b\x7d"
  opening := 0x7B
  closing := 0x7D
  inner := .nil
  opening_isOpening := by decide
  closing_isClosing := by decide
  bytes_eq := by decide

/-- An empty object after two line feeds. -/
def linesBeforeObject : Spaced := ⟨[0x0A, 0x0A], emptyObject, by simp [isWhitespace]⟩

/-- The decoder does not return an empty object after two line feeds: it keeps
waiting for the end of a message that is already complete. -/
theorem not_framesAs_linesBeforeObject :
    ¬ StreamCodec.streamIncoming.FramesAs ([linesBeforeObject].flatMap Spaced.bytes)
      ([linesBeforeObject].map Spaced.bytes) := by
  decide

end JsonRpc
