import JsonRpc.Codec.FramedRead
import JsonRpc.Codec.RoundTrip

/-!
# Texts in transit

A writer encodes texts one after another into the bytes of a connection. The connection carries
the bytes in pieces of any size to a reader that decodes messages from them. If the texts are
those of JSON objects and arrays, the messages are the texts, in their order, up to whitespace
before them.
-/

namespace JsonRpc

/-- The frame is the text with whitespace before it. -/
def IsUpToSpace (frame text : String) : Prop :=
  ∃ space : Bytes, (∀ byte ∈ space, isWhitespace byte) ∧ intoBytes frame = space ++ intoBytes text

/-- The text of a JSON object or array that does not wrap the depth counter of the decoder. -/
def IsDocument (text : String) : Prop :=
  ∃ doc : JsonText.Document, doc.text = text ∧ doc.nesting < 2 ^ 32

/-- An element of the first part of a list is at the same position in the list. -/
theorem getElem?_of_initial {α : Type} {l l' : List α} (h : l <+: l') {i : ℕ} {x : α}
    (hx : l[i]? = some x) : l'[i]? = some x := by
  obtain ⟨hi, rfl⟩ := List.getElem?_eq_some_iff.mp hx
  exact List.prefix_iff_getElem?.mp h i hi

theorem StreamCodec.encodeAll_append (codec : StreamCodec) (texts texts' : List String) :
    codec.encodeAll (texts ++ texts') = codec.encodeAll texts ++ codec.encodeAll texts' := by
  simp only [codec.encodeAll_eq, List.flatMap_append]

/-! ## The messages of encoded texts -/

/-- The texts of documents are balanced. -/
theorem exists_balanced_of_isDocument {texts : List String} (h : ∀ text ∈ texts, IsDocument text) :
    ∃ ms : List BalancedText, ms.map BalancedText.text = texts ∧ ∀ m ∈ ms, m.nesting < 2 ^ 32 := by
  induction texts with
  | nil => exact ⟨[], rfl, List.forall_mem_nil _⟩
  | cons text texts ih =>
    obtain ⟨ms, rfl, hms⟩ := ih fun t ht => h t (List.mem_cons_of_mem _ ht)
    obtain ⟨doc, rfl, hnesting⟩ := h text List.mem_cons_self
    obtain ⟨m, htext, hm⟩ := doc.exists_balanced
    refine ⟨m :: ms, by rw [List.map_cons, htext], List.forall_mem_cons.mpr ⟨?_, hms⟩⟩
    rwa [hm]

/-- The messages of frames that are the bytes of some strings. -/
theorem StreamCodec.messages_eq {codec : StreamCodec} {s : Bytes} {frames : List String}
    (h : codec.cutFrames s = frames.map intoBytes) : codec.messages s = frames := by
  have hutf8 : fromUtf8 ∘ intoBytes = some := funext fun frame => fromUtf8_eq_some.mpr rfl
  rw [messages, h, List.filterMap_map, hutf8, List.filterMap_some]

/-- What is written after each message of a stream is whitespace. -/
theorem isWhitespace_suffix_streamIncoming :
    ∀ byte ∈ StreamCodec.streamIncoming.outgoingSeparator.suffix, isWhitespace byte :=
  List.forall_mem_singleton.mpr (by decide)

/-- The messages of encoded documents are the documents up to leading whitespace. -/
theorem forall₂_messages_encodeAll {reader writer : StreamCodec}
    (hreader : reader.incomingSeparator = .empty)
    (hwriter : ∀ byte ∈ writer.outgoingSeparator.suffix, isWhitespace byte)
    {texts : List String} (htexts : ∀ text ∈ texts, IsDocument text) :
    List.Forall₂ IsUpToSpace (reader.messages (writer.encodeAll texts)) texts := by
  obtain ⟨ms, rfl, hnesting⟩ := exists_balanced_of_isDocument htexts
  have hnil : ∀ byte ∈ ([] : Bytes), isWhitespace byte := List.forall_mem_nil _
  have hlen : writer.outgoingSeparator.suffix.length ≤ 1 := by
    cases writer.outgoingSeparator <;> simp [Separator.suffix]
  obtain ⟨tail, htail, hbytes⟩ := flatMap_spread hwriter hnil ms
  have hencoded : writer.encodeAll (ms.map BalancedText.text) =
      (spread _ hwriter [] hnil ms).flatMap Spaced.bytes ++ tail := by
    rw [writer.encodeAll_eq, List.flatMap_map, ← hbytes, List.nil_append]
  obtain ⟨incoming, outgoing⟩ := reader
  obtain rfl : incoming = .empty := hreader
  have hframes := frames_spaced outgoing
    (bounds_spread hwriter hnil hlen (Nat.zero_le 1) hnesting) htail
  obtain ⟨frames, hfrom⟩ := exists_map_intoBytes_spaced (spread _ hwriter [] hnil ms)
  have hmessages : (StreamCodec.mk .empty outgoing).messages
      (writer.encodeAll (ms.map BalancedText.text)) = frames := by
    refine StreamCodec.messages_eq ?_
    rw [hencoded, StreamCodec.cutFrames, hframes, hfrom]
    exact List.map_id _
  rw [hmessages]
  have hspread := forall₂_spread hwriter hnil hfrom
  rw [List.forall₂_map_right_iff] at hspread ⊢
  exact hspread

/-- What a reader took is what a writer wrote at the same position, however much of it has
arrived. -/
theorem FramedRead.Reads.exists_text {reader writer : StreamCodec} {arrived rest : Bytes}
    {framed : FramedRead} (h : Reads reader arrived framed)
    (hreader : reader.incomingSeparator = .empty)
    (hwriter : ∀ byte ∈ writer.outgoingSeparator.suffix, isWhitespace byte)
    {texts : List String} (htexts : ∀ text ∈ texts, IsDocument text)
    (hbytes : arrived ++ rest = writer.encodeAll texts) {i : ℕ} {frame : String}
    (hframe : framed.taken[i]? = some frame) :
    ∃ text, texts[i]? = some text ∧ IsUpToSpace frame text := by
  have hall := forall₂_messages_encodeAll hreader hwriter htexts
  rw [← hbytes, h rest] at hall
  obtain ⟨hi, hframe⟩ := List.getElem?_eq_some_iff.mp
    (getElem?_of_initial (List.prefix_append _ _) hframe)
  have hi' : i < texts.length := by
    rw [← hall.length_eq]
    exact hi
  refine ⟨texts[i], List.getElem?_eq_getElem hi', ?_⟩
  have hrel := hall.get hi hi'
  simp only [List.get_eq_getElem, hframe] at hrel
  exact hrel

/-! ## Lines -/

/-- The messages of a part of some bytes are the first ones of the messages of all of them. -/
theorem StreamCodec.messages_initial (codec : StreamCodec) (s more : Bytes) :
    codec.messages s <+: codec.messages (s ++ more) := by
  rw [messages, messages, cutFrames, cutFrames, codec.rule.frames_append, List.map_append,
    List.filterMap_append]
  exact List.prefix_append _ _

/-- A line of which the separator has arrived is a message. -/
theorem messages_line {separator : UInt8} (outgoing : Separator) {text : String}
    (htext : separator ∉ intoBytes text) (more : Bytes) :
    (StreamCodec.mk (.byte separator) outgoing).messages (intoBytes text ++ separator :: more) =
      text :: (StreamCodec.mk (.byte separator) outgoing).messages more := by
  have hcut := cut_line outgoing htext more
  have htake : (intoBytes text ++ separator :: more).take ((intoBytes text).length + 1) =
      intoBytes text ++ [separator] := by
    rw [List.append_cons, List.take_left' (by simp)]
  have hdrop : (intoBytes text ++ separator :: more).drop ((intoBytes text).length + 1) = more := by
    rw [List.append_cons, List.drop_left' (by simp)]
  have hframes : (StreamCodec.mk (.byte separator) outgoing).cutFrames
      (intoBytes text ++ separator :: more) =
      intoBytes text :: (StreamCodec.mk (.byte separator) outgoing).cutFrames more := by
    rw [StreamCodec.cutFrames, PrefixCut.Rule.frames_of_cut_some hcut, htake, hdrop]
    simp [StreamCodec.payload, StreamCodec.cutFrames]
  have hutf8 : fromUtf8 (intoBytes text) = some text := fromUtf8_eq_some.mpr rfl
  rw [StreamCodec.messages, hframes, List.filterMap_cons, hutf8]
  rfl

/-- The lines that were encoded are the messages. -/
theorem messages_encodeAll_line {separator : UInt8} {reader writer : StreamCodec}
    (hreader : reader.incomingSeparator = .byte separator)
    (hwriter : writer.outgoingSeparator = .byte separator) {texts : List String}
    (htexts : ∀ text ∈ texts, separator ∉ intoBytes text) :
    reader.messages (writer.encodeAll texts) = texts := by
  obtain ⟨incoming, outgoing⟩ := reader
  obtain rfl : incoming = .byte separator := hreader
  rw [writer.encodeAll_eq, hwriter]
  induction texts with
  | nil => exact StreamCodec.messages_nil _
  | cons text texts ih =>
    rw [List.flatMap_cons, Separator.suffix, List.append_assoc, List.singleton_append,
      messages_line outgoing (htexts text List.mem_cons_self)]
    exact congrArg (text :: ·) (ih fun t ht => htexts t (List.mem_cons_of_mem _ ht))

/-! ## Bytes that are carried -/

/-- What a connection does with the bytes that are on their way to the reader. -/
inductive Carry where
  /-- So many of the bytes arrive in one piece. -/
  | bytes (n : ℕ)
  /-- The reader reads the end of the input. -/
  | closed
  /-- The reader reads an error. -/
  | failed (e : IoError)

namespace Carry

/-- What the reader reads. A piece is not empty, since a read without bytes is the end. -/
def read (transit : Bytes) : Carry → Option (Except IoError Bytes)
  | .bytes n => if (transit.take n).isEmpty then none else some (.ok (transit.take n))
  | .closed => some (.ok [])
  | .failed e => some (.error e)

/-- The bytes that are still on their way. -/
def rest (transit : Bytes) : Carry → Bytes
  | .bytes n => transit.drop n
  | .closed | .failed _ => transit

/-- No byte is lost or changed. -/
theorem readBytes_read {transit : Bytes} {carry : Carry} {read : Except IoError Bytes}
    (h : carry.read transit = some read) : readBytes [read] ++ carry.rest transit = transit := by
  cases carry with
  | bytes n =>
    rw [Carry.read] at h
    split at h
    · cases h
    · cases h
      simp [readBytes, rest, Except.toOption]
  | closed =>
    cases h
    rfl
  | failed e =>
    cases h
    rfl

end Carry

end JsonRpc
