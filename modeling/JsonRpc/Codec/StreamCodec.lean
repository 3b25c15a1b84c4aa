import JsonRpc.Lib.PrefixCut
import Mathlib.Tactic.Common

/-!
# The codec of the streaming transports

This file models `server-utils/src/stream_codec.rs`: the decoder that cuts
messages off a byte buffer, with or without a separator byte, and the encoder.
A `BytesMut` buffer is the list of its bytes. Arithmetic on `depth`, an `i32`
in the source, wraps as in a release build; `start_idx` and `whitespaces` are
bounded by the buffer length, so natural numbers represent them.
-/

namespace JsonRpc

/-- The contents of a `BytesMut` or of a `Vec<u8>`. -/
abbrev Bytes := List UInt8

/-- `String::into_bytes`: the UTF-8 encoding of a string. -/
def intoBytes (s : String) : Bytes := s.toByteArray.data.toList

/-- `str::from_utf8` and `String::from_utf8`, up to the error value. -/
def fromUtf8 (bytes : Bytes) : Option String := String.fromUTF8? ⟨bytes.toArray⟩

/-- The bytes of a string decode to that string and to no other one. -/
theorem fromUtf8_eq_some {bytes : Bytes} {s : String} :
    fromUtf8 bytes = some s ↔ intoBytes s = bytes := by
  unfold fromUtf8 String.fromUTF8? intoBytes
  constructor
  · intro h
    split at h
    · simp only [Option.some.injEq] at h
      subst h
      simp [String.fromUTF8]
    · cases h
  · rintro rfl
    have hvalid : (⟨s.toByteArray.data.toList.toArray⟩ : ByteArray).IsValidUTF8 := by
      simpa using s.isValidUTF8
    rw [dif_pos hvalid]
    simp [String.fromUTF8]

/-- The encoding of a concatenation is the concatenation of the encodings. -/
theorem intoBytes_append (s t : String) : intoBytes (s ++ t) = intoBytes s ++ intoBytes t := by
  simp [intoBytes, String.toByteArray_append]

/-- A string is encoded character by character. -/
theorem intoBytes_ofList (l : List Char) :
    intoBytes (String.ofList l) = l.flatMap String.utf8EncodeChar := by
  simp [intoBytes, List.utf8Encode]

/-- Separator for enveloping messages in streaming codecs. -/
inductive Separator
  /-- No envelope is expected between messages. -/
  | empty
  /-- A byte is used as a sentinel between messages. -/
  | byte (separator : UInt8)
  deriving DecidableEq, Repr

/-- The default separator is a line feed. -/
instance : Inhabited Separator := ⟨.byte 0x0A⟩

/-- Stream codec for streaming protocols (ipc, tcp). -/
structure StreamCodec where
  /-- How incoming messages are told apart. -/
  incomingSeparator : Separator
  /-- What is written after each outgoing message. -/
  outgoingSeparator : Separator
  deriving DecidableEq, Repr

/-- Default codec with streaming input data. Input can be both enveloped and not. -/
def StreamCodec.streamIncoming : StreamCodec := ⟨.empty, default⟩

/-- Carriage return, line feed, space and tab. -/
def isWhitespace (byte : UInt8) : Bool :=
  byte == 0x0D || byte == 0x0A || byte == 0x20 || byte == 0x09

/-- The bytes of an opening brace and an opening bracket. -/
def isOpening (byte : UInt8) : Bool := byte == 0x7B || byte == 0x5B

/-- The bytes of a closing brace and a closing bracket. -/
def isClosing (byte : UInt8) : Bool := byte == 0x7D || byte == 0x5D

/-- The byte of a double quote. -/
def quote : UInt8 := 0x22

/-- The byte of a backslash. -/
def backslash : UInt8 := 0x5C

/-- The local variables of the separator-less decoding loop. -/
structure Scan where
  /-- Opening minus closing brackets outside strings, as an `i32`. -/
  depth : Int32 := 0
  /-- Whether the last byte is inside a string. -/
  inStr : Bool := false
  /-- Whether the last byte is a backslash that escapes the next one. -/
  isEscaped : Bool := false
  /-- Index of the last bracket that was opened at depth zero. -/
  startIdx : ℕ := 0
  /-- Number of whitespace bytes since the start of the buffer. -/
  whitespaces : ℕ := 0
  deriving DecidableEq, Repr

/-- One iteration of the decoding loop on the byte at index `idx`, up to the
test that ends a frame. -/
def Scan.advance (scan : Scan) (idx : ℕ) (byte : UInt8) : Scan :=
  let next :=
    if isOpening byte && !scan.inStr then
      { scan with
        startIdx := if scan.depth == 0 then idx else scan.startIdx
        depth := scan.depth + 1 }
    else if isClosing byte && !scan.inStr then { scan with depth := scan.depth - 1 }
    else if byte == quote && !scan.isEscaped then { scan with inStr := !scan.inStr }
    else if isWhitespace byte then { scan with whitespaces := scan.whitespaces + 1 }
    else scan
  { next with isEscaped := byte == backslash && !next.isEscaped && next.inStr }

/-- The test that ends a frame after the byte at index `idx`. -/
def Scan.endsFrame (scan : Scan) (idx : ℕ) : Bool :=
  scan.depth == 0 && idx != scan.startIdx && decide (idx - scan.startIdx + 1 > scan.whitespaces)

/-- The decoding loop from index `idx` on: the length of the first frame, when
the loop reaches its end. -/
def Scan.frameEnd (scan : Scan) (idx : ℕ) : Bytes → Option ℕ
  | [] => none
  | byte :: rest =>
    if (scan.advance idx byte).endsFrame idx then some (idx + 1)
    else (scan.advance idx byte).frameEnd (idx + 1) rest

/-- The `io::Error` of kind `Other` that the codec returns. -/
structure IoError where
  /-- The text of the error. -/
  message : String
  deriving DecidableEq, Repr

/-- `Decoder::decode`: the result, and the buffer it leaves behind. -/
def StreamCodec.decode (codec : StreamCodec) (buf : Bytes) :
    Except IoError (Option String) × Bytes :=
  match codec.incomingSeparator with
  | .byte separator =>
    match buf.findIdx? (· == separator) with
    | some i =>
      match fromUtf8 (buf.take i) with
      | some s => (.ok (some s), buf.drop (i + 1))
      | none => (.error ⟨"invalid UTF-8"⟩, buf.drop (i + 1))
    | none => (.ok none, buf)
  | .empty =>
    match ({} : Scan).frameEnd 0 buf with
    | some n =>
      -- A frame that is not UTF-8 is dropped, and the loop ends as if input were missing.
      match fromUtf8 (buf.take n) with
      | some val => (.ok (some val), buf.drop n)
      | none => (.ok none, buf.drop n)
    | none => (.ok none, buf)

/-- `Encoder::encode`: the buffer with a message and its separator appended. -/
def StreamCodec.encode (codec : StreamCodec) (msg : String) (buf : Bytes) : Bytes :=
  match codec.outgoingSeparator with
  | .byte separator => buf ++ (intoBytes msg ++ [separator])
  | .empty => buf ++ intoBytes msg

/-- What a caller holds after calling `decode` until it returns `Ok(None)` or
an error. -/
structure Drained where
  /-- The decoded messages, in order. -/
  frames : List String
  /-- The error that ended the calls, if one did. -/
  error : Option IoError
  /-- The bytes left in the buffer. -/
  rest : Bytes
  deriving DecidableEq, Repr

/-- Call `decode` until it returns `Ok(None)` or an error, at most `fuel` times. -/
def StreamCodec.drainWith (codec : StreamCodec) : ℕ → Bytes → Drained
  | 0, buf => ⟨[], none, buf⟩
  | fuel + 1, buf =>
    match codec.decode buf with
    | (.ok none, rest) => ⟨[], none, rest⟩
    | (.error e, rest) => ⟨[], some e, rest⟩
    | (.ok (some frame), rest) =>
      let later := codec.drainWith fuel rest
      ⟨frame :: later.frames, later.error, later.rest⟩

/-- Call `decode` until it returns `Ok(None)` or an error. Each message takes at
least one byte off the buffer, so the length of the buffer bounds the calls. -/
def StreamCodec.drain (codec : StreamCodec) (buf : Bytes) : Drained :=
  codec.drainWith (buf.length + 1) buf

/-- Append each chunk to the buffer as it arrives and drain the buffer, until
an error occurs. -/
def StreamCodec.feed (codec : StreamCodec) (buf : Bytes) : List Bytes → Drained
  | [] => ⟨[], none, buf⟩
  | chunk :: chunks =>
    let now := codec.drain (buf ++ chunk)
    match now.error with
    | some e => ⟨now.frames, some e, now.rest⟩
    | none =>
      let later := codec.feed now.rest chunks
      ⟨now.frames ++ later.frames, later.error, later.rest⟩

/-- Encode messages one after another onto an empty buffer. -/
def StreamCodec.encodeAll (codec : StreamCodec) (msgs : List String) : Bytes :=
  msgs.foldl (fun buf msg => codec.encode msg buf) []

/-! ## The end of the first frame -/

/-- A frame ends inside the scanned bytes, after at least one of them. -/
theorem Scan.frameEnd_bounds {scan : Scan} {idx n : ℕ} {buf : Bytes}
    (h : scan.frameEnd idx buf = some n) : idx < n ∧ n ≤ idx + buf.length := by
  induction buf generalizing scan idx with
  | nil => simp [Scan.frameEnd] at h
  | cons byte rest ih =>
    simp only [Scan.frameEnd] at h
    split at h
    · simp only [Option.some.injEq] at h
      simp only [List.length_cons]
      omega
    · have hrest := ih h
      simp only [List.length_cons]
      omega

/-- The end of a frame does not move when bytes are appended. -/
theorem Scan.frameEnd_append {scan : Scan} {idx n : ℕ} {buf : Bytes} (more : Bytes)
    (h : scan.frameEnd idx buf = some n) : scan.frameEnd idx (buf ++ more) = some n := by
  induction buf generalizing scan idx with
  | nil => simp [Scan.frameEnd] at h
  | cons byte rest ih =>
    simp only [Scan.frameEnd, List.cons_append] at h ⊢
    split at h
    · rename_i hend
      rwa [if_pos hend]
    · rename_i hend
      rw [if_neg hend]
      exact ih h

/-- The number of bytes the decoder takes off the buffer, when it takes any. -/
def StreamCodec.cut (codec : StreamCodec) (buf : Bytes) : Option ℕ :=
  match codec.incomingSeparator with
  | .byte separator => (buf.findIdx? (· == separator)).map (· + 1)
  | .empty => ({} : Scan).frameEnd 0 buf

/-- The decoder's cut is decided by the bytes before it. -/
def StreamCodec.rule (codec : StreamCodec) : PrefixCut.Rule UInt8 where
  cut := codec.cut
  cut_pos := by
    intro s n h
    unfold StreamCodec.cut at h
    split at h
    · obtain ⟨i, _, rfl⟩ := Option.map_eq_some_iff.mp h
      omega
    · exact (Scan.frameEnd_bounds h).1
  cut_le := by
    intro s n h
    unfold StreamCodec.cut at h
    split at h
    · obtain ⟨i, hi, rfl⟩ := Option.map_eq_some_iff.mp h
      have hlt := (List.findIdx?_eq_some_iff_getElem.mp hi).1
      omega
    · simpa using (Scan.frameEnd_bounds h).2
  cut_append := by
    intro s n t h
    unfold StreamCodec.cut at h ⊢
    split at h
    · obtain ⟨i, hi, rfl⟩ := Option.map_eq_some_iff.mp h
      simp [List.findIdx?_append, hi]
    · exact Scan.frameEnd_append t h

/-- The message inside the bytes that were cut off: the separator is not part of it. -/
def StreamCodec.payload (codec : StreamCodec) (frame : Bytes) : Bytes :=
  match codec.incomingSeparator with
  | .byte _ => frame.dropLast
  | .empty => frame

/-- The byte frames that the decoder cuts off a stream, whether or not they are UTF-8. -/
def StreamCodec.cutFrames (codec : StreamCodec) (s : Bytes) : List Bytes :=
  (codec.rule.frames s).1.map codec.payload

/-- Without a cut, the decoder asks for more bytes and leaves the buffer alone. -/
theorem StreamCodec.decode_of_cut_none {codec : StreamCodec} {buf : Bytes}
    (h : codec.rule.cut buf = none) : codec.decode buf = (.ok none, buf) := by
  change codec.cut buf = none at h
  unfold StreamCodec.cut at h
  unfold StreamCodec.decode
  split at h
  · rw [Option.map_eq_none_iff] at h
    simp only [h]
  · simp only [h]

/-- What the decoder makes of a cut: the payload is converted to a string, and
the cut bytes leave the buffer whether or not that succeeds. -/
theorem StreamCodec.decode_of_cut {codec : StreamCodec} {buf : Bytes} {n : ℕ}
    (h : codec.rule.cut buf = some n) :
    codec.decode buf =
      (match fromUtf8 (codec.payload (buf.take n)), codec.incomingSeparator with
        | some s, _ => .ok (some s)
        | none, .byte _ => .error ⟨"invalid UTF-8"⟩
        | none, .empty => .ok none, buf.drop n) := by
  have hle : n ≤ buf.length := codec.rule.cut_le h
  change codec.cut buf = some n at h
  unfold StreamCodec.cut at h
  unfold StreamCodec.payload StreamCodec.decode
  split at h
  · rename_i separator hsep
    obtain ⟨i, hi, rfl⟩ := Option.map_eq_some_iff.mp h
    have htake : (buf.take (i + 1)).dropLast = buf.take i := by
      rw [List.dropLast_eq_take, List.take_take, List.length_take]
      congr 1
      omega
    simp only [hsep, htake, hi]
    cases fromUtf8 (buf.take i) <;> rfl
  · rename_i hsep
    simp only [hsep, h]
    cases fromUtf8 (buf.take n) <;> rfl

/-- A cut whose payload is UTF-8 yields that payload as the message. -/
theorem StreamCodec.decode_of_cut_some {codec : StreamCodec} {buf : Bytes} {n : ℕ} {s : String}
    (h : codec.rule.cut buf = some n) (hs : intoBytes s = codec.payload (buf.take n)) :
    codec.decode buf = (.ok (some s), buf.drop n) := by
  rw [StreamCodec.decode_of_cut h, fromUtf8_eq_some.mpr hs]

/-- A decoded message is the payload of a cut. -/
theorem StreamCodec.cut_of_decode {codec : StreamCodec} {buf rest : Bytes} {s : String}
    (h : codec.decode buf = (.ok (some s), rest)) :
    ∃ n, codec.rule.cut buf = some n ∧ intoBytes s = codec.payload (buf.take n) ∧
      rest = buf.drop n := by
  cases hcut : codec.rule.cut buf with
  | none =>
    rw [StreamCodec.decode_of_cut_none hcut] at h
    cases h
  | some n =>
    rw [StreamCodec.decode_of_cut hcut] at h
    cases hutf8 : fromUtf8 (codec.payload (buf.take n)) with
    | none => cases hsep : codec.incomingSeparator <;> simp [hutf8, hsep] at h
    | some s' =>
      simp only [hutf8, Prod.mk.injEq, Except.ok.injEq, Option.some.injEq] at h
      obtain ⟨rfl, rfl⟩ := h
      exact ⟨n, rfl, fromUtf8_eq_some.mp hutf8, rfl⟩

/-! ## Draining a buffer -/

/-- Calls beyond the length of the buffer change nothing. -/
theorem StreamCodec.drainWith_eq_drainWith {codec : StreamCodec} {buf : Bytes} {fuel fuel' : ℕ}
    (hfuel : buf.length < fuel) (hfuel' : buf.length < fuel') :
    codec.drainWith fuel buf = codec.drainWith fuel' buf := by
  induction fuel generalizing buf fuel' with
  | zero => omega
  | succ fuel ih =>
    obtain ⟨k, rfl⟩ : ∃ k, fuel' = k + 1 := ⟨fuel' - 1, by omega⟩
    simp only [StreamCodec.drainWith]
    split
    · rfl
    · rfl
    · rename_i frame rest hdecode
      obtain ⟨n, hcut, _, rfl⟩ := StreamCodec.cut_of_decode hdecode
      have hpos := codec.rule.cut_pos hcut
      have hle := codec.rule.cut_le hcut
      have hlt : (buf.drop n).length < fuel ∧ (buf.drop n).length < k := by
        simp only [List.length_drop]
        omega
      rw [ih hlt.1 hlt.2]

/-- A message that draining returns first is the payload of the first cut, and
draining goes on behind it. -/
theorem StreamCodec.cut_of_drain {codec : StreamCodec} {buf rest : Bytes} {frame : String}
    {frames : List String} {error : Option IoError}
    (h : codec.drain buf = ⟨frame :: frames, error, rest⟩) :
    ∃ n, codec.rule.cut buf = some n ∧ intoBytes frame = codec.payload (buf.take n) ∧
      codec.drain (buf.drop n) = ⟨frames, error, rest⟩ := by
  simp only [StreamCodec.drain, StreamCodec.drainWith] at h
  split at h
  · simp at h
  · simp at h
  · rename_i first later hdecode
    obtain ⟨n, hcut, hframe, rfl⟩ := StreamCodec.cut_of_decode hdecode
    simp only [Drained.mk.injEq, List.cons.injEq] at h
    obtain ⟨⟨rfl, rfl⟩, rfl, rfl⟩ := h
    refine ⟨n, hcut, hframe, ?_⟩
    have hpos := codec.rule.cut_pos hcut
    have hle := codec.rule.cut_le hcut
    rw [StreamCodec.drain]
    exact StreamCodec.drainWith_eq_drainWith (by omega) (by simp only [List.length_drop]; omega)

/-- With enough calls, draining returns the messages in the frames of the
buffer and leaves the remainder, provided every frame is UTF-8. -/
theorem StreamCodec.drainWith_eq_frames {codec : StreamCodec} {buf : Bytes} {msgs : List String}
    (hmsgs : msgs.map intoBytes = codec.cutFrames buf) {fuel : ℕ} (hfuel : buf.length < fuel) :
    codec.drainWith fuel buf = ⟨msgs, none, (codec.rule.frames buf).2⟩ := by
  induction fuel generalizing buf msgs with
  | zero => omega
  | succ fuel ih =>
    unfold StreamCodec.cutFrames at hmsgs
    cases hcut : codec.rule.cut buf with
    | none =>
      rw [PrefixCut.Rule.frames_of_cut_none hcut] at hmsgs ⊢
      have hnil : msgs = [] := by simpa using hmsgs
      simp only [StreamCodec.drainWith, StreamCodec.decode_of_cut_none hcut, hnil]
    | some n =>
      rw [PrefixCut.Rule.frames_of_cut_some hcut] at hmsgs ⊢
      obtain ⟨msg, rest, rfl, hmsg, hrest⟩ := List.map_eq_cons_iff.mp hmsgs
      have hlt : (buf.drop n).length < fuel := by
        have hpos := codec.rule.cut_pos hcut
        have hle := codec.rule.cut_le hcut
        simp only [List.length_drop]
        omega
      simp only [StreamCodec.drainWith, StreamCodec.decode_of_cut_some hcut hmsg, ih hrest hlt]

/-- Draining returns the messages in the frames of the buffer and leaves the
remainder, provided every frame is UTF-8. -/
theorem StreamCodec.drain_eq_frames {codec : StreamCodec} {buf : Bytes} {msgs : List String}
    (hmsgs : msgs.map intoBytes = codec.cutFrames buf) :
    codec.drain buf = ⟨msgs, none, (codec.rule.frames buf).2⟩ :=
  StreamCodec.drainWith_eq_frames hmsgs (Nat.lt_succ_self _)

end JsonRpc
