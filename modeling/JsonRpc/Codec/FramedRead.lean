import JsonRpc.Codec.StreamCodec
import JsonRpc.Lib.BufferUnordered

/-!
# Reading messages off a connection

The reading half of a framed connection appends what it reads to a buffer and decodes
messages from the buffer, as long as there are any, before it reads again. At the end of the
input no bytes may be left. What a connection gives to the next reads is a queue, to which
the environment appends.

However the bytes arrive and however often the connection is polled, the messages are
those of the bytes in one piece.
-/

namespace JsonRpc

open BufferUnordered

/-! ## The messages of some bytes -/

/-- The message in a result of the decoder. -/
def decoded : Except IoError (Option String) → List String
  | .ok (some message) => [message]
  | _ => []

namespace StreamCodec

variable (codec : StreamCodec)

/-- The messages in some bytes: the complete frames that are UTF-8. -/
def messages (s : Bytes) : List String := (codec.cutFrames s).filterMap fromUtf8

@[simp] theorem messages_nil : codec.messages [] = [] := by
  have hcut : codec.rule.cut [] = none := by
    by_contra hne
    obtain ⟨n, hn⟩ := Option.ne_none_iff_exists'.mp hne
    have hpos := codec.rule.cut_pos hn
    have hle := codec.rule.cut_le hn
    rw [List.length_nil] at hle
    omega
  rw [messages, cutFrames, PrefixCut.Rule.frames_of_cut_none hcut]
  rfl

/-- The decoder takes the first message off the buffer. -/
theorem messages_append (buf more : Bytes) :
    codec.messages (buf ++ more) =
      decoded (codec.decode buf).1 ++ codec.messages ((codec.decode buf).2 ++ more) := by
  cases hcut : codec.rule.cut buf with
  | none => simp [decode_of_cut_none hcut, decoded]
  | some n =>
    have hle := codec.rule.cut_le hcut
    have hframes : codec.cutFrames (buf ++ more) =
        codec.payload (buf.take n) :: codec.cutFrames (buf.drop n ++ more) := by
      rw [cutFrames, PrefixCut.Rule.frames_of_cut_some (codec.rule.cut_append more hcut),
        List.take_append_of_le_length hle, List.drop_append_of_le_length hle]
      rfl
    rw [messages, hframes, decode_of_cut hcut]
    cases hutf8 : fromUtf8 (codec.payload (buf.take n)) with
    | some message => simp [hutf8, messages, decoded]
    | none => cases codec.incomingSeparator <;> simp [hutf8, messages, decoded]

/-- `Decoder::decode_eof`, as the trait defines it. -/
def decodeEof (buf : Bytes) : Except IoError (Option String) × Bytes :=
  match codec.decode buf with
  | (.ok none, rest) =>
    if rest.isEmpty then (.ok none, rest) else (.error ⟨"bytes remaining on stream"⟩, rest)
  | other => other

/-- At the end of the input, the decoder takes the same bytes and the same message. -/
theorem decodeEof_eq (buf : Bytes) : (codec.decodeEof buf).2 = (codec.decode buf).2 ∧
    decoded (codec.decodeEof buf).1 = decoded (codec.decode buf).1 := by
  unfold decodeEof
  split
  · rename_i rest hdecode
    rw [hdecode]
    split
    · exact ⟨rfl, rfl⟩
    · exact ⟨rfl, rfl⟩
  · exact ⟨rfl, rfl⟩

end StreamCodec

/-! ## The reading half -/

/-- The reading half of a framed connection. -/
structure FramedRead where
  /-- What the next reads give. A read without bytes is the end of the input. -/
  incoming : List (Except IoError Bytes)
  buffer : Bytes
  eof : Bool
  isReadable : Bool
  /-- The messages so far. Nothing reads them. -/
  taken : List String

namespace FramedRead

/-- A new connection. -/
def new : FramedRead := ⟨[], [], false, false, []⟩

/-- The environment gives something to read. -/
def arrive (reader : FramedRead) (read : Except IoError Bytes) : FramedRead :=
  { reader with incoming := reader.incoming ++ [read] }

/-- What the decoder returned, and the answer of the connection if there is one. -/
def finish (reader : FramedRead) : Except IoError (Option String) × Bytes →
    FramedRead × Option (Next IoError String)
  | (.error e, buffer) => ({ reader with buffer }, some (.error e))
  | (.ok (some message), buffer) =>
    ({ reader with buffer, taken := reader.taken ++ [message] }, some (.item message))
  | (.ok none, buffer) =>
    ({ reader with buffer, isReadable := false }, if reader.eof then some .done else none)

/-- Decode a message, if the buffer may hold one. -/
def tryDecode (codec : StreamCodec) (reader : FramedRead) :
    FramedRead × Option (Next IoError String) :=
  if reader.isReadable then
    reader.finish
      (if reader.eof then codec.decodeEof reader.buffer else codec.decode reader.buffer)
  else (reader, none)

/-- The loop of a poll, on what the next reads give. -/
def pollLoop (codec : StreamCodec) :
    List (Except IoError Bytes) → FramedRead → FramedRead × Next IoError String
  | incoming, reader =>
    match reader.tryDecode codec with
    | (reader, some answer) => ({ reader with incoming }, answer)
    | (reader, none) =>
      match incoming with
      | [] => ({ reader with incoming := [] }, .pending)
      | .error e :: incoming => ({ reader with incoming }, .error e)
      | .ok data :: incoming =>
        pollLoop codec incoming
          { reader with
            buffer := reader.buffer ++ data
            eof := reader.eof || data.isEmpty
            isReadable := true }

def pollNext (codec : StreamCodec) (reader : FramedRead) : FramedRead × Next IoError String :=
  pollLoop codec reader.incoming reader

end FramedRead

/-! ## What is read -/

/-- The bytes of some reads. -/
def readBytes (reads : List (Except IoError Bytes)) : Bytes :=
  (reads.filterMap Except.toOption).flatten

@[simp] theorem readBytes_append (reads reads' : List (Except IoError Bytes)) :
    readBytes (reads ++ reads') = readBytes reads ++ readBytes reads' := by
  simp [readBytes]

namespace FramedRead

/-- The messages of all bytes that arrived are those that were taken and those of the bytes
that are left, whatever comes after. -/
def Reads (codec : StreamCodec) (arrived : Bytes) (reader : FramedRead) : Prop :=
  ∀ more, codec.messages (arrived ++ more) =
    reader.taken ++ codec.messages (reader.buffer ++ readBytes reader.incoming ++ more)

/-- The messages that were taken are the first ones of the bytes that arrived. -/
theorem Reads.taken_initial {codec : StreamCodec} {arrived : Bytes} {reader : FramedRead}
    (h : Reads codec arrived reader) : reader.taken <+: codec.messages arrived := by
  have heq := h []
  rw [List.append_nil] at heq
  exact ⟨_, heq.symm⟩

section Poll

variable {codec : StreamCodec} {arrived : Bytes} {reader : FramedRead}

theorem reads_new : Reads codec [] new := fun _ => rfl

theorem Reads.arrive (h : Reads codec arrived reader) (read : Except IoError Bytes) :
    Reads codec (arrived ++ readBytes [read]) (reader.arrive read) := by
  intro more
  rw [List.append_assoc, h]
  simp [FramedRead.arrive]

/-- What the connection makes of a result of the decoder. -/
theorem finish_eq (reader : FramedRead) (result : Except IoError (Option String) × Bytes) :
    (reader.finish result).1.buffer = result.2 ∧
      (reader.finish result).1.taken = reader.taken ++ decoded result.1 ∧
      (reader.finish result).1.eof = reader.eof ∧
      ((reader.finish result).2.elim [] Next.items) = decoded result.1 := by
  obtain ⟨message, buffer⟩ := result
  cases message with
  | error e => simp [finish, decoded, Next.items]
  | ok message =>
    cases message with
    | some message => simp [finish, decoded, Next.items]
    | none => cases heof : reader.eof <;> simp [finish, decoded, Next.items, heof]

/-- Decoding takes the first of the messages that are left. -/
theorem Reads.tryDecode {incoming : List (Except IoError Bytes)}
    (h : Reads codec arrived { reader with incoming }) :
    Reads codec arrived { (reader.tryDecode codec).1 with incoming } ∧
      (reader.tryDecode codec).1.taken =
        reader.taken ++ (reader.tryDecode codec).2.elim [] Next.items := by
  unfold FramedRead.tryDecode
  split
  · have hresult : ∃ result : Except IoError (Option String) × Bytes,
        (if reader.eof then codec.decodeEof reader.buffer else codec.decode reader.buffer) =
          result ∧ result.2 = (codec.decode reader.buffer).2 ∧
          decoded result.1 = decoded (codec.decode reader.buffer).1 := by
      split
      · exact ⟨_, rfl, codec.decodeEof_eq reader.buffer⟩
      · exact ⟨_, rfl, rfl, rfl⟩
    obtain ⟨result, heq, hbuffer, hdecoded⟩ := hresult
    rw [heq]
    obtain ⟨hbuffer', htaken, -, hitems⟩ := reader.finish_eq result
    rw [hitems]
    refine ⟨fun more => ?_, htaken⟩
    have hmore := h more
    dsimp only at hmore ⊢
    rw [hmore, List.append_assoc, codec.messages_append, htaken, hdecoded, hbuffer', hbuffer]
    simp only [List.append_assoc]
  · exact ⟨h, by simp⟩

/-- What a poll does. -/
structure Polls (codec : StreamCodec) (arrived : Bytes) (reader : FramedRead)
    (polled : FramedRead × Next IoError String) : Prop where
  reads : Reads codec arrived polled.1
  taken_eq : polled.1.taken = reader.taken ++ polled.2.items

theorem polls_pollLoop {incoming : List (Except IoError Bytes)}
    (h : Reads codec arrived { reader with incoming }) :
    Polls codec arrived reader (pollLoop codec incoming reader) := by
  induction incoming generalizing reader with
  | nil =>
    obtain ⟨hreads, htaken⟩ := h.tryDecode
    rw [pollLoop]
    generalize reader.tryDecode codec = tried at hreads htaken
    obtain ⟨next, answer⟩ := tried
    cases answer with
    | some answer => exact ⟨hreads, htaken⟩
    | none => exact ⟨hreads, htaken⟩
  | cons read incoming ih =>
    obtain ⟨hreads, htaken⟩ := h.tryDecode
    rw [pollLoop]
    generalize reader.tryDecode codec = tried at hreads htaken
    obtain ⟨next, answer⟩ := tried
    cases answer with
    | some answer => exact ⟨hreads, htaken⟩
    | none =>
      cases read with
      | error e => exact ⟨hreads, htaken⟩
      | ok data =>
        have hnext := @ih { next with
          buffer := next.buffer ++ data
          eof := next.eof || data.isEmpty
          isReadable := true } (fun more => by
            simpa [readBytes, Except.toOption] using hreads more)
        refine ⟨hnext.reads, ?_⟩
        rw [hnext.taken_eq]
        exact congrArg (· ++ _) (htaken.trans (List.append_nil _))

theorem polls_pollNext (h : Reads codec arrived reader) :
    Polls codec arrived reader (reader.pollNext codec) :=
  polls_pollLoop h

end Poll

/-! ## The end of the input -/

/-- The end of the input is read, or it is among what the next reads give. -/
def AtEnd (reader : FramedRead) : Prop :=
  reader.eof = true ∧ reader.isReadable = true ∨ .ok [] ∈ reader.incoming

/-- Decoding at the end of the input has a result, and never asks to wait. -/
theorem tryDecode_atEnd (codec : StreamCodec) (reader : FramedRead) :
    ((reader.tryDecode codec).2 = none → reader.isReadable = true → reader.eof = false) ∧
      (reader.tryDecode codec).2 ≠ some .pending ∧
      ∀ message, (reader.tryDecode codec).2 = some (.item message) →
        (reader.tryDecode codec).1.eof = reader.eof ∧
          (reader.tryDecode codec).1.isReadable = reader.isReadable := by
  unfold tryDecode
  split
  · generalize (if reader.eof then codec.decodeEof reader.buffer else codec.decode reader.buffer) =
      result
    obtain ⟨message, buffer⟩ := result
    cases message with
    | error e => simp [finish]
    | ok message =>
      cases message with
      | some message => simp [finish]
      | none => cases heof : reader.eof <;> simp [finish, heof]
  · rename_i hreadable
    simp [hreadable]

/-- At the end of the input there is an answer to every poll, and a message leaves the
connection there. -/
theorem atEnd_pollLoop {codec : StreamCodec} {incoming : List (Except IoError Bytes)}
    {reader : FramedRead} (h : AtEnd { reader with incoming }) :
    (pollLoop codec incoming reader).2 ≠ .pending ∧
      ∀ message, (pollLoop codec incoming reader).2 = .item message →
        (pollLoop codec incoming reader).1.AtEnd := by
  induction incoming generalizing reader with
  | nil =>
    obtain ⟨hnone, hpending, hitem⟩ := reader.tryDecode_atEnd codec
    rw [pollLoop]
    generalize reader.tryDecode codec = tried at hnone hpending hitem
    obtain ⟨next, answer⟩ := tried
    rcases h with ⟨heof, hreadable⟩ | hmem
    · cases answer with
      | none => cases (hnone rfl hreadable).symm.trans heof
      | some answer =>
        refine ⟨fun hp => hpending (congrArg some hp), fun message hm => .inl ?_⟩
        obtain ⟨heof', hreadable'⟩ := hitem message (congrArg some hm)
        exact ⟨heof'.trans heof, hreadable'.trans hreadable⟩
    · cases hmem
  | cons read incoming ih =>
    obtain ⟨hnone, hpending, hitem⟩ := reader.tryDecode_atEnd codec
    rw [pollLoop]
    generalize reader.tryDecode codec = tried at hnone hpending hitem
    obtain ⟨next, answer⟩ := tried
    cases answer with
    | some answer =>
      refine ⟨fun hp => hpending (congrArg some hp), fun message hm => ?_⟩
      obtain ⟨heof', hreadable'⟩ := hitem message (congrArg some hm)
      exact h.imp_left fun h => ⟨heof'.trans h.1, hreadable'.trans h.2⟩
    | none =>
      have hmem : .ok [] ∈ read :: incoming := by
        refine h.resolve_left fun h => ?_
        cases (hnone rfl h.2).symm.trans h.1
      cases read with
      | error e => exact ⟨by simp, by simp⟩
      | ok data =>
        refine ih ?_
        by_cases hdata : data = []
        · exact .inl ⟨by simp [hdata], rfl⟩
        · refine .inr ((List.mem_cons.mp hmem).resolve_left fun heq => hdata ?_)
          exact (Except.ok.inj heq).symm

theorem AtEnd.pollNext (codec : StreamCodec) {reader : FramedRead} (h : reader.AtEnd) :
    (reader.pollNext codec).2 ≠ .pending ∧
      ∀ message, (reader.pollNext codec).2 = .item message →
        (reader.pollNext codec).1.AtEnd :=
  atEnd_pollLoop h

/-! ## Nothing after the end of the input -/

/-- The read is the end of the input. -/
def isEnd : Except IoError Bytes → Bool
  | .ok data => data.isEmpty
  | .error _ => false

/-- If the end of the input has been given, no bytes come after it. -/
structure Ends (closed : Bool) (reader : FramedRead) : Prop where
  eof : reader.eof = true → closed = true ∧ readBytes reader.incoming = []
  closed : ∀ read ∈ reader.incoming, isEnd read = true → closed = true
  /-- Only the end of the input and errors come after the end of the input. -/
  incoming : ∀ before read after, reader.incoming = before ++ read :: after →
    isEnd read = true → readBytes after = []

section Ends

variable {closed : Bool} {codec : StreamCodec} {reader : FramedRead}

theorem ends_new (closed : Bool) : Ends closed new :=
  ⟨by simp [new], by simp [new], by simp [new]⟩

/-- Bytes arrive before the end. -/
theorem Ends.arrive (h : Ends closed reader) {read : Except IoError Bytes}
    (hread : closed = true → readBytes [read] = []) :
    Ends (closed || isEnd read) (reader.arrive read) where
  eof heof := by
    obtain ⟨hclosed, hbytes⟩ := h.eof heof
    simp [FramedRead.arrive, hclosed, hbytes, hread hclosed]
  closed read' hmem hend := by
    rcases List.mem_append.mp hmem with hmem | hmem
    · simp [h.closed read' hmem hend]
    · rw [List.mem_singleton] at hmem
      subst hmem
      simp [hend]
  incoming before read' after heq hend := by
    rcases List.eq_nil_or_concat' after with rfl | ⟨after, last, rfl⟩
    · rfl
    · rw [FramedRead.arrive, ← List.cons_append, ← List.append_assoc] at heq
      obtain ⟨hincoming, hlast⟩ := List.append_inj' heq rfl
      cases hlast
      have hclosed : closed = true := h.closed read' (by simp [hincoming]) hend
      rw [readBytes_append, h.incoming before read' after hincoming hend, hread hclosed]
      rfl

/-- Decoding does not read, and it ends only at the end of the input with nothing left. -/
theorem tryDecode_frame (codec : StreamCodec) (reader : FramedRead) :
    (reader.tryDecode codec).1.eof = reader.eof ∧
      ((reader.tryDecode codec).2 = some .done →
        reader.eof = true ∧ (reader.tryDecode codec).1.buffer = []) := by
  unfold tryDecode
  split
  · refine ⟨(reader.finish_eq _).2.2.1, fun hdone => ?_⟩
    rw [(reader.finish_eq _).1]
    cases heof : reader.eof with
    | false =>
      rw [heof, if_neg (by simp)] at hdone
      generalize codec.decode reader.buffer = result at hdone
      match result with
      | (.error e, buffer) => cases hdone
      | (.ok (some message), buffer) => cases hdone
      | (.ok none, buffer) => simp [finish, heof] at hdone
    | true =>
      rw [heof, if_pos rfl] at hdone
      refine ⟨rfl, ?_⟩
      rw [if_pos rfl]
      unfold StreamCodec.decodeEof at hdone ⊢
      split
      · rename_i rest hdecode
        rw [hdecode] at hdone
        split
        · rename_i hempty
          exact List.isEmpty_iff.mp hempty
        · rename_i hempty
          simp [hempty, finish] at hdone
      · rename_i other
        split at hdone
        · rename_i hdecode
          exact absurd hdecode (other _)
        · generalize codec.decode reader.buffer = result at hdone other
          match result with
          | (.error e, buffer) => cases hdone
          | (.ok (some message), buffer) => cases hdone
          | (.ok none, buffer) => exact absurd rfl (other buffer)
  · exact ⟨rfl, fun hdone => by cases hdone⟩

/-- A poll keeps the order, and ends only at the end of the input with nothing left. -/
theorem Ends.pollLoop {incoming : List (Except IoError Bytes)}
    (h : Ends closed { reader with incoming }) :
    Ends closed (pollLoop codec incoming reader).1 ∧
      ((pollLoop codec incoming reader).2 = .done →
        (pollLoop codec incoming reader).1.eof = true ∧
          (pollLoop codec incoming reader).1.buffer = []) := by
  induction incoming generalizing reader with
  | nil =>
    obtain ⟨heof, hdone⟩ := reader.tryDecode_frame codec
    rw [FramedRead.pollLoop]
    generalize reader.tryDecode codec = tried at heof hdone
    obtain ⟨next, answer⟩ := tried
    have hends : Ends closed { next with incoming := [] } := ⟨fun hnext => h.eof (heof ▸ hnext),
      h.closed, h.incoming⟩
    cases answer with
    | some answer =>
      refine ⟨hends, fun hanswer => ?_⟩
      obtain ⟨hend, hbuffer⟩ := hdone (congrArg some hanswer)
      exact ⟨heof.trans hend, hbuffer⟩
    | none => exact ⟨hends, by simp⟩
  | cons read incoming ih =>
    obtain ⟨heof, hdone⟩ := reader.tryDecode_frame codec
    rw [FramedRead.pollLoop]
    generalize reader.tryDecode codec = tried at heof hdone
    obtain ⟨next, answer⟩ := tried
    cases answer with
    | some answer =>
      refine ⟨⟨fun hnext => h.eof (heof ▸ hnext), h.closed, h.incoming⟩, fun hanswer => ?_⟩
      obtain ⟨hend, hbuffer⟩ := hdone (congrArg some hanswer)
      exact ⟨heof.trans hend, hbuffer⟩
    | none =>
      have hlater : ∀ before read' after, incoming = before ++ read' :: after →
          isEnd read' = true → readBytes after = [] := by
        intro before read' after heq
        exact h.incoming (read :: before) read' after (by simp [heq])
      have hclosed : ∀ read' ∈ incoming, isEnd read' = true → closed = true :=
        fun read' hmem => h.closed read' (List.mem_cons_of_mem _ hmem)
      have hrest : reader.eof = true → readBytes incoming = [] := by
        intro hreader
        have hbytes := (h.eof hreader).2
        change readBytes ([read] ++ incoming) = [] at hbytes
        rw [readBytes_append] at hbytes
        exact (List.append_eq_nil_iff.mp hbytes).2
      cases read with
      | error e =>
        exact ⟨⟨fun hnext => ⟨(h.eof (heof ▸ hnext)).1, hrest (heof ▸ hnext)⟩, hclosed, hlater⟩,
          by simp⟩
      | ok data =>
        refine ih ⟨fun hnext => ?_, hclosed, hlater⟩
        rcases Bool.or_eq_true_iff.mp hnext with hnext | hdata
        · exact ⟨(h.eof (heof ▸ hnext)).1, hrest (heof ▸ hnext)⟩
        · exact ⟨h.closed (.ok data) List.mem_cons_self hdata,
            h.incoming [] (.ok data) incoming rfl hdata⟩

end Ends

/-- A connection that answers its end has given all messages of the bytes that arrived. -/
theorem messages_of_done {closed : Bool} {codec : StreamCodec} {reader : FramedRead}
    {arrived : Bytes} (hreads : Reads codec arrived reader) (hends : Ends closed reader)
    (hdone : (reader.pollNext codec).2 = .done) :
    closed = true ∧ (reader.pollNext codec).1.taken = codec.messages arrived := by
  have hpoll : Ends closed (reader.pollNext codec).1 ∧ ((reader.pollNext codec).2 = .done →
    (reader.pollNext codec).1.eof = true ∧ (reader.pollNext codec).1.buffer = []) := hends.pollLoop
  obtain ⟨heof, hbuffer⟩ := hpoll.2 hdone
  obtain ⟨hclosed, hincoming⟩ := hpoll.1.eof heof
  have hmessages := (polls_pollNext hreads).reads []
  rw [hbuffer, hincoming] at hmessages
  exact ⟨hclosed, by simpa using hmessages.symm⟩

end FramedRead

end JsonRpc
