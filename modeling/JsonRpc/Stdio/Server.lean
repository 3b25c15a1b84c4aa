import JsonRpc.Codec.Transit
import JsonRpc.Core.Serving

/-!
# The server on the standard streams

The server reads its input line by line. It waits for the response to a line, removes the line
breaks in it, and writes it as one line, before it reads the next line. A line that cannot be
read is skipped, and so is the rest of a response that cannot be written.

One step of the model is one poll of what the loop waits for: the next line, the response, or
the output, which takes some bytes at a time.
-/

namespace JsonRpc.Stdio

/-- What the server needs to serve requests. The metadata is the default one. -/
structure Service (P M : Type) where
  json : SerdeJson
  handler : MetaIoHandler P
  metadata : M

variable {P M : Type}

/-! ## The loop -/

/-- The text of a response. -/
def process (json : SerdeJson) (response : Option Response) : String :=
  (response.map (writeResponse json)).getD ""

/-- `res.replace('\n', "")`. -/
def sanitize (res : String) : String := String.ofList (res.toList.filter (· ≠ '\n'))

/-- The line that is written for a response. -/
def lineOf (json : SerdeJson) (response : Option Response) : Bytes :=
  intoBytes (sanitize (process json response)) ++ [0x0A]

/-- What the loop waits for. -/
inductive Phase (P M : Type) where
  | reading
  | processing (line : String) (serving : Serving P M)
  /-- So many bytes are still to be written. -/
  | writing (rest : Bytes)
  | finished

/-- The server. Nothing reads the fields after the first one. -/
structure Server (P M : Type) where
  phase : Phase P M
  /-- The lines that were read. -/
  lines : List String
  answered : List (Answered P M)
  output : Bytes
  /-- A line could not be written. -/
  failed : Bool

/-- What is answered to a poll. Only the answer that is asked for is looked at. -/
structure PollAnswers where
  next : Poll (Option (Except IoError String))
  methods : ℕ → Poll (Except Error Value)
  /-- The number of bytes that the output takes. To take none is an error. -/
  write : Poll (Except IoError ℕ)

namespace Server

def init : Server P M := ⟨.reading, [], [], [], false⟩

/-- The next line is read. -/
def pollNext (service : Service P M) (s : Server P M) :
    Poll (Option (Except IoError String)) → Server P M
  | .ready (some (.ok line)) =>
    { s with
      phase := .processing line (.start service.json service.handler line service.metadata)
      lines := s.lines ++ [line] }
  | .ready (some (.error _)) => s
  | .ready none => { s with phase := .finished }
  | .pending => s

/-- The response is polled. -/
def pollProcess (service : Service P M) (s : Server P M) (line : String) (serving : Serving P M)
    (methods : ℕ → Poll (Except Error Value)) : Server P M :=
  match serving.poll methods with
  | (serving, none) => { s with phase := .processing line serving }
  | (_, some (response, returned)) =>
    { s with
      phase := .writing (lineOf service.json response)
      answered := s.answered ++ [⟨line, response, returned⟩] }

/-- `write_all`, one write of it. -/
def pollWrite (s : Server P M) (rest : Bytes) (write : Poll (Except IoError ℕ)) : Server P M :=
  if rest.isEmpty then { s with phase := .reading }
  else
    match write with
    | .ready (.ok n) =>
      if n = 0 then { s with phase := .reading, failed := true }
      else { s with phase := .writing (rest.drop n), output := s.output ++ rest.take n }
    | .ready (.error _) => { s with phase := .reading, failed := true }
    | .pending => s

def step (service : Service P M) (s : Server P M) (answers : PollAnswers) : Server P M :=
  match s.phase with
  | .reading => s.pollNext service answers.next
  | .processing line serving => s.pollProcess service line serving answers.methods
  | .writing rest => s.pollWrite rest answers.write
  | .finished => s

/-- The server after some polls. -/
def after (service : Service P M) (polls : List PollAnswers) : Server P M :=
  Runs.run (step service) init polls

end Server

/-! ## Lines -/

/-- The byte of the line break occurs only in the encoding of the line break. -/
theorem newline_not_mem_sanitize (res : String) : 0x0A ∉ intoBytes (sanitize res) := by
  rw [sanitize, intoBytes_ofList]
  intro hmem
  obtain ⟨c, hc, hbyte⟩ := List.mem_flatMap.mp hmem
  have hne : c ≠ '\n' := by simpa using (List.mem_filter.mp hc).2
  refine hne (Char.ext (UInt32.toNat_inj.mp ?_))
  exact JsonText.toNat_eq_of_mem_utf8EncodeChar hbyte (by decide)

/-- The text of the line that is written for a request. -/
def answer (json : SerdeJson) (answered : Answered P M) : String :=
  sanitize (process json answered.response)

/-- Lines are told apart by line breaks. -/
def lineCodec : StreamCodec := ⟨.byte 0x0A, .byte 0x0A⟩

/-- The output for some requests holds their lines. -/
theorem flatMap_lineOf (json : SerdeJson) (answered : List (Answered P M)) :
    (answered.flatMap fun a => lineOf json a.response) =
      lineCodec.encodeAll (answered.map (answer json)) := by
  rw [StreamCodec.encodeAll_eq, List.flatMap_map]
  rfl

/-! ## The invariant -/

namespace Server

/-- The line that is being served. -/
def serving (s : Server P M) : List String :=
  match s.phase with
  | .processing line _ => [line]
  | _ => []

/-- The bytes that are still to be written. -/
def unwritten (s : Server P M) : Bytes :=
  match s.phase with
  | .writing rest => rest
  | _ => []

/-- What holds of the server after every run. -/
structure Inv (service : Service P M) (s : Server P M) : Prop where
  lines_eq : s.lines = s.answered.map Answered.request ++ s.serving
  isOf : ∀ line serving, s.phase = .processing line serving →
    serving.IsOf service.json service.handler line service.metadata
  responds : ∀ answered ∈ s.answered,
    answered.IsResponse service.json service.handler service.metadata
  output_eq : s.failed = false → s.output ++ s.unwritten =
    s.answered.flatMap fun answered => lineOf service.json answered.response

section Steps

variable {service : Service P M} {s : Server P M}

theorem Inv.pollNext (h : s.Inv service) (hphase : s.phase = .reading)
    (next : Poll (Option (Except IoError String))) : (s.pollNext service next).Inv service := by
  have hlines : s.lines = s.answered.map Answered.request := by
    simpa [serving, hphase] using h.lines_eq
  have houtput := h.output_eq
  simp only [unwritten, hphase] at houtput
  match next with
  | .ready (some (.ok line)) =>
    refine ⟨by simp [Server.pollNext, serving, hlines], ?_, h.responds, houtput⟩
    intro line' serving hprocessing
    cases hprocessing
    exact Serving.isOf_start
  | .ready (some (.error e)) => exact h
  | .ready none =>
    exact ⟨by simp [Server.pollNext, serving, hlines], by simp [Server.pollNext], h.responds,
      houtput⟩
  | .pending => exact h

theorem Inv.pollProcess (h : s.Inv service) {line : String} {serving : Serving P M}
    (hphase : s.phase = .processing line serving) (methods : ℕ → Poll (Except Error Value)) :
    (s.pollProcess service line serving methods).Inv service := by
  have hlines : s.lines = s.answered.map Answered.request ++ [line] := by
    simpa [Server.serving, hphase] using h.lines_eq
  have houtput := h.output_eq
  simp only [unwritten, hphase, List.append_nil] at houtput
  have hisOf := h.isOf line serving hphase
  unfold Server.pollProcess
  cases hpoll : serving.poll methods with
  | mk serving' answer =>
    cases answer with
    | none =>
      obtain rfl : serving.next methods = serving' := congrArg Prod.fst hpoll
      refine ⟨hlines, ?_, h.responds, by simpa [unwritten] using houtput⟩
      rintro line' serving' ⟨⟩
      exact hisOf.next methods
    | some answer =>
      obtain ⟨response, returned⟩ := answer
      refine ⟨by simpa [Server.serving] using hlines, by simp, ?_, fun hfailed => ?_⟩
      · intro answered hmem
        rcases List.mem_append.mp hmem with hmem | hmem
        · exact h.responds answered hmem
        · rw [List.mem_singleton] at hmem
          subst hmem
          exact hisOf.responds (congrArg Prod.snd hpoll)
      · simp [unwritten, houtput hfailed]

theorem Inv.pollWrite (h : s.Inv service) {rest : Bytes} (hphase : s.phase = .writing rest)
    (write : Poll (Except IoError ℕ)) : (s.pollWrite rest write).Inv service := by
  have hlines : s.lines = s.answered.map Answered.request := by
    simpa [serving, hphase] using h.lines_eq
  have houtput := h.output_eq
  simp only [unwritten, hphase] at houtput
  have hfailed : Inv service { s with phase := .reading, failed := true } :=
    ⟨by simp [serving, hlines], by simp, h.responds, by simp⟩
  unfold Server.pollWrite
  split
  · rename_i hempty
    rw [List.isEmpty_iff] at hempty
    subst hempty
    exact ⟨by simp [serving, hlines], by simp, h.responds, houtput⟩
  · match write with
    | .ready (.ok n) =>
      dsimp only
      split
      · exact hfailed
      · refine ⟨by simp [serving, hlines], by simp, h.responds, fun hfailed => ?_⟩
        simpa [unwritten] using houtput hfailed
    | .ready (.error e) => exact hfailed
    | .pending => exact h

/-- Every poll keeps the invariant. -/
theorem Inv.step (h : s.Inv service) (answers : PollAnswers) :
    (s.step service answers).Inv service := by
  unfold Server.step
  split
  · rename_i hphase
    exact h.pollNext hphase answers.next
  · rename_i line serving hphase
    exact h.pollProcess hphase answers.methods
  · rename_i rest hphase
    exact h.pollWrite hphase answers.write
  · exact h

theorem inv_after (service : Service P M) (polls : List PollAnswers) :
    (after service polls).Inv service :=
  Runs.run_invariant ⟨rfl, by simp [init], by simp [init], fun _ => rfl⟩
    (fun _ answers h => h.step answers) polls

end Steps

/-- The bytes for the requests that were answered are written, or still to be written. -/
theorem Inv.output_append_unwritten {service : Service P M} {s : Server P M} (h : s.Inv service)
    (hfailed : s.failed = false) :
    s.output ++ s.unwritten = lineCodec.encodeAll (s.answered.map (answer service.json)) := by
  rw [h.output_eq hfailed, flatMap_lineOf]

theorem messages_encodeAll_answers (json : SerdeJson) (answered : List (Answered P M)) :
    lineCodec.messages (lineCodec.encodeAll (answered.map (answer json))) =
      answered.map (answer json) := by
  refine messages_encodeAll_line rfl rfl fun text htext => ?_
  obtain ⟨a, -, rfl⟩ := List.mem_map.mp htext
  exact newline_not_mem_sanitize _

/-- **One line for one line.** In every run, the lines are answered one after another, in their
order, and each answer is a response of the handler. As long as everything can be written, the
lines of the output are the responses without their line breaks, in the order of the requests:
all of them, unless one is being written. When the input has ended, there is a line for every line
that was read, and nothing else. -/
theorem output_lines (service : Service P M) (polls : List PollAnswers) :
    let s := after service polls
    s.answered.map Answered.request <+: s.lines ∧
      (∀ answered ∈ s.answered,
        answered.IsResponse service.json service.handler service.metadata) ∧
      (s.failed = false →
        lineCodec.messages s.output <+: s.answered.map (answer service.json) ∧
          ((∀ rest, s.phase ≠ .writing rest) →
            s.output = lineCodec.encodeAll (s.answered.map (answer service.json)) ∧
              lineCodec.messages s.output = s.answered.map (answer service.json)) ∧
          (s.phase = .finished → s.answered.map Answered.request = s.lines ∧
            s.output = lineCodec.encodeAll (s.answered.map (answer service.json)))) := by
  intro s
  have h : s.Inv service := inv_after service polls
  have hmessages := messages_encodeAll_answers service.json s.answered
  have hwritten (hfailed : s.failed = false) (hphase : ∀ rest, s.phase ≠ .writing rest) :
      s.output = lineCodec.encodeAll (s.answered.map (answer service.json)) := by
    have hnone : s.unwritten = [] := by
      unfold unwritten
      split
      · rename_i rest hwriting
        exact absurd hwriting (hphase rest)
      · rfl
    rw [← h.output_append_unwritten hfailed, hnone, List.append_nil]
  refine ⟨?_, h.responds, fun hfailed => ⟨?_, fun hphase => ⟨hwritten hfailed hphase, ?_⟩,
    fun hfinished => ⟨?_, hwritten hfailed (by simp [hfinished])⟩⟩⟩
  · rw [h.lines_eq]
    exact List.prefix_append _ _
  · rw [← hmessages, ← h.output_append_unwritten hfailed]
    exact lineCodec.messages_initial s.output s.unwritten
  · rw [hwritten hfailed hphase]
    exact hmessages
  · have hlines := h.lines_eq
    simp only [serving, hfinished, List.append_nil] at hlines
    exact hlines.symm

end Server

end JsonRpc.Stdio
