import JsonRpc.Codec.StreamCodec

/-!
# Framing does not depend on how bytes arrive

The decoder keeps no state between calls: it scans the buffer from its start
each time. Its cut is a `PrefixCut.Rule`, so the frames of a byte stream are
those of the whole stream, for every splitting into chunks. No assumption is
made on the stream except that the frames cut off it are UTF-8.

A frame that is not UTF-8 breaks the contract between the decoder and its caller,
if there is no separator: it is taken off the buffer, and the caller is told to wait
for more bytes, although the next frame may be there already.
-/

namespace JsonRpc

/-- Byte strings that are all UTF-8 are the encodings of some strings. -/
theorem exists_map_intoBytes {frames : List Bytes} (h : ∀ f ∈ frames, (fromUtf8 f).isSome) :
    ∃ msgs : List String, msgs.map intoBytes = frames := by
  induction frames with
  | nil => exact ⟨[], rfl⟩
  | cons f frames ih =>
    obtain ⟨msg, hmsg⟩ := Option.isSome_iff_exists.mp (h f (by simp))
    obtain ⟨msgs, hmsgs⟩ := ih (fun g hg => h g (by simp [hg]))
    exact ⟨msg :: msgs, by simp [fromUtf8_eq_some.mp hmsg, hmsgs]⟩

/-- Feeding chunks returns the messages in the frames of the abstract feeding
rule, provided those frames are UTF-8. -/
theorem StreamCodec.feed_eq_feed {codec : StreamCodec} {start : Bytes} {chunks : List Bytes}
    {msgs : List String}
    (hmsgs : msgs.map intoBytes = (codec.rule.feed start chunks).1.map codec.payload) :
    codec.feed start chunks = ⟨msgs, none, (codec.rule.feed start chunks).2⟩ := by
  induction chunks generalizing start msgs with
  | nil =>
    have hnil : msgs = [] := by simpa [PrefixCut.Rule.feed] using hmsgs
    simp only [StreamCodec.feed, PrefixCut.Rule.feed, hnil]
  | cons chunk chunks ih =>
    simp only [PrefixCut.Rule.feed, List.map_append] at hmsgs ⊢
    obtain ⟨first, later, rfl, hfirst, hlater⟩ := List.map_eq_append_iff.mp hmsgs
    have hdrain := StreamCodec.drain_eq_frames hfirst
    simp only [StreamCodec.feed, hdrain, ih hlater]

/-- With a separator byte, every frame ends in that byte, and the payload is
what precedes it. -/
theorem StreamCodec.frame_eq_payload_append {codec : StreamCodec} {separator : UInt8}
    (hsep : codec.incomingSeparator = .byte separator) (s : Bytes) :
    ∀ f ∈ (codec.rule.frames s).1, f = codec.payload f ++ [separator] := by
  induction s using codec.rule.frames_induction with
  | incomplete s h => simp [PrefixCut.Rule.frames_of_cut_none h]
  | frame s n h ih =>
    rw [PrefixCut.Rule.frames_of_cut_some h]
    refine List.forall_mem_cons.mpr ⟨?_, ih⟩
    change codec.cut s = some n at h
    simp only [StreamCodec.cut, hsep] at h
    obtain ⟨i, hi, rfl⟩ := Option.map_eq_some_iff.mp h
    obtain ⟨hlt, hbyte, _⟩ := List.findIdx?_eq_some_iff_getElem.mp hi
    have hlast : s[i] = separator := by simpa using hbyte
    simp only [StreamCodec.payload, hsep, List.take_add_one, List.getElem?_eq_getElem hlt,
      Option.toList_some, hlast, List.dropLast_concat]

/-- **Chunk independence.** Every splitting of a byte stream into chunks gives
the same messages and leaves the same bytes in the buffer, and together these
are the whole stream: the messages one after another, each followed by the
separator if there is one, and then the bytes left. -/
theorem StreamCodec.feed_chunk_independent (codec : StreamCodec) (s : Bytes)
    (hutf8 : ∀ f ∈ codec.cutFrames s, (fromUtf8 f).isSome) :
    ∃ frames rest,
      (∀ chunks : List Bytes, chunks.flatten = s → codec.feed [] chunks = ⟨frames, none, rest⟩) ∧
      match codec.incomingSeparator with
      | .empty => frames.flatMap intoBytes ++ rest = s
      | .byte separator => frames.flatMap (fun f => intoBytes f ++ [separator]) ++ rest = s := by
  obtain ⟨msgs, hmsgs⟩ := exists_map_intoBytes hutf8
  unfold StreamCodec.cutFrames at hmsgs
  have hflatten := codec.rule.frames_flatten s
  refine ⟨msgs, (codec.rule.frames s).2, ?_, ?_⟩
  · intro chunks hchunks
    -- The empty buffer holds no frame, so feeding starts from the frames of the whole stream.
    have hempty : codec.rule.cut [] = none := by
      change codec.cut [] = none
      unfold StreamCodec.cut
      split <;> rfl
    have hfeed := codec.rule.feed_eq_frames hempty chunks
    rw [List.nil_append, hchunks] at hfeed
    rw [StreamCodec.feed_eq_feed (by rw [hfeed]; exact hmsgs), hfeed]
  · split
    · rename_i hsep
      have hframes : msgs.flatMap intoBytes = (codec.rule.frames s).1.flatten := by
        have hpayload : codec.payload = id := by
          funext f
          simp [StreamCodec.payload, hsep]
        rw [List.flatMap, hmsgs, hpayload, List.map_id]
      rw [hframes, hflatten]
    · rename_i separator hsep
      have hframes : msgs.map (fun f => intoBytes f ++ [separator]) =
          (codec.rule.frames s).1 := by
        calc msgs.map (fun f => intoBytes f ++ [separator])
            = (msgs.map intoBytes).map (· ++ [separator]) := by simp [List.map_map]
          _ = (codec.rule.frames s).1.map (fun f => codec.payload f ++ [separator]) := by
            rw [hmsgs, List.map_map]
            rfl
          _ = (codec.rule.frames s).1.map id :=
            List.map_congr_left fun f hf =>
              (StreamCodec.frame_eq_payload_append hsep s f hf).symm
          _ = (codec.rule.frames s).1 := List.map_id _
      rw [List.flatMap, hframes, hflatten]

/-- The hypothesis of chunk independence holds for a stream with one complete
message and the start of another. -/
theorem StreamCodec.feed_chunk_independent_example :
    (∀ f ∈ StreamCodec.streamIncoming.cutFrames [0x7B, 0x7D, 0x0A, 0x5B],
      (fromUtf8 f).isSome) ∧
    ∃ frames rest,
      (∀ chunks : List Bytes, chunks.flatten = [0x7B, 0x7D, 0x0A, 0x5B] →
        StreamCodec.streamIncoming.feed [] chunks = ⟨frames, none, rest⟩) ∧
      frames.flatMap intoBytes ++ rest = [0x7B, 0x7D, 0x0A, 0x5B] := by
  have hutf8 : ∀ f ∈ StreamCodec.streamIncoming.cutFrames [0x7B, 0x7D, 0x0A, 0x5B],
      (fromUtf8 f).isSome := by
    have hcut : StreamCodec.streamIncoming.rule.cut [0x7B, 0x7D, 0x0A, 0x5B] = some 2 := rfl
    have hrest : StreamCodec.streamIncoming.rule.cut [0x0A, 0x5B] = none := rfl
    rw [StreamCodec.cutFrames, PrefixCut.Rule.frames_of_cut_some hcut]
    simp only [List.drop_succ_cons, List.drop_zero, PrefixCut.Rule.frames_of_cut_none hrest]
    decide
  exact ⟨hutf8, StreamCodec.feed_chunk_independent _ _ hutf8⟩

/-! ## Waiting for more bytes -/

/-- The contract of a decoder that asks for more bytes: it leaves the buffer as it
is, asks again if it is called again, and no complete frame is in the buffer. -/
def StreamCodec.WaitsForInput (codec : StreamCodec) (buf : Bytes) : Prop :=
  (codec.decode buf).1 = .ok none →
    (codec.decode buf).2 = buf ∧
    (codec.decode (codec.decode buf).2).1 = .ok none ∧
    codec.cut (codec.decode buf).2 = none

/-- **The decoder asks for more bytes.** The contract is kept exactly when there is a
separator byte, or the first complete frame in the buffer, if there is one, is UTF-8. -/
theorem StreamCodec.waitsForInput_iff (codec : StreamCodec) (buf : Bytes) :
    codec.WaitsForInput buf ↔
      (codec.incomingSeparator = .empty →
        ∀ n, codec.cut buf = some n → (fromUtf8 (buf.take n)).isSome) := by
  cases hcut : codec.cut buf with
  | none =>
    have hdecode : codec.decode buf = (.ok none, buf) := StreamCodec.decode_of_cut_none hcut
    simp [StreamCodec.WaitsForInput, hdecode, hcut]
  | some n =>
    have hdecode := StreamCodec.decode_of_cut (show codec.rule.cut buf = some n from hcut)
    have hpos : 0 < n := codec.rule.cut_pos hcut
    have hle : n ≤ buf.length := codec.rule.cut_le hcut
    -- The cut bytes are gone, so the buffer is not the one before.
    have hchanged : buf.drop n ≠ buf := by
      intro h
      have hlength := congrArg List.length h
      rw [List.length_drop] at hlength
      omega
    cases hsep : codec.incomingSeparator with
    | byte separator =>
      cases hutf8 : fromUtf8 (codec.payload (buf.take n)) <;>
        simp [StreamCodec.WaitsForInput, hdecode, hutf8, hsep]
    | empty =>
      have hpayload : codec.payload (buf.take n) = buf.take n := by
        simp only [StreamCodec.payload, hsep]
      rw [hpayload, hsep] at hdecode
      cases hutf8 : fromUtf8 (buf.take n) <;>
        simp [StreamCodec.WaitsForInput, hdecode, hutf8, hchanged]

/-- A byte that is not UTF-8 between two braces, followed by an empty object. -/
def strayByte : Bytes := [0x7B, 0xFF, 0x7D, 0x7B, 0x7D]

/-- The decoder asks for more bytes, although the empty object is complete. -/
theorem StreamCodec.not_waitsForInput_strayByte :
    ¬ StreamCodec.streamIncoming.WaitsForInput strayByte ∧
    StreamCodec.streamIncoming.decode strayByte = (.ok none, [0x7B, 0x7D]) ∧
    StreamCodec.streamIncoming.decode [0x7B, 0x7D] = (.ok (some "\x7b\x7d"), []) := by
  have hdecode : StreamCodec.streamIncoming.decode strayByte = (.ok none, [0x7B, 0x7D]) := by
    decide
  refine ⟨fun hwaits => ?_, hdecode, by decide⟩
  have hkept := (hwaits (by rw [hdecode])).1
  rw [hdecode] at hkept
  revert hkept
  decide

end JsonRpc
