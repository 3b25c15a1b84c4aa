import JsonRpc.Ipc.Answers

/-!
# The end of an IPC connection

When the peer has closed its side, the server still answers the requests it has received.
If their methods return and the peer takes what is written, the future of the connection
completes, and the session is closed, after a bounded number of iterations. If it completes
without an error, the response to every request was written.
-/

namespace JsonRpc.Ipc

open BufferUnordered

variable {P M : Type}

/-- The methods of the first request return, and the writing half takes what it is given. -/
structure PollAnswers.IsPrompt (answers : PollAnswers) : Prop where
  schedule : ∃ methods rest, answers.schedule = (0, methods) :: rest ∧
    ∀ i, ∃ result, methods i = .ready result
  ready : answers.ready = .ready true
  startSend : answers.startSend = true
  flush : answers.flush = .ready true
  close : answers.close = .ready true

/-- The requests of a connection whose peer has closed its side. -/
def PoolAtEnd (b : Buffer FramedRead Job (Serving P M)) : Prop :=
  b.isDone = true ∨ b.source.AtEnd

section Pool

variable {service : Service P M} {b : Buffer FramedRead Job (Serving P M)}

/-- The reading half at the end of the input. -/
theorem atEnd_pull (service : Service P M) {reader : FramedRead} (h : reader.AtEnd) :
    (service.pull reader).2 ≠ .pending ∧
      ∀ job, (service.pull reader).2 = .item job → (service.pull reader).1.AtEnd := by
  have hnext := h.pollNext service.codec
  unfold Service.pull
  generalize reader.pollNext service.codec = polled at hnext
  obtain ⟨next, answer⟩ := polled
  cases answer with
  | item text => exact ⟨by simp, fun _ _ => hnext.2 text rfl⟩
  | error e => exact ⟨by simp, by simp⟩
  | done => exact ⟨by simp, by simp⟩
  | pending => exact absurd rfl hnext.1

theorem PoolAtEnd.took (h : PoolAtEnd b) (hopen : b.isDone = false)
    (hok : ∀ e, (service.pull b.source).2 ≠ .error e) :
    PoolAtEnd (b.took (service.pull b.source)) := by
  obtain ⟨hpending, hitem⟩ := atEnd_pull service (h.resolve_left (by simp [hopen]))
  cases hnext : (service.pull b.source).2 with
  | item job => exact .inr (hitem job hnext)
  | error e => exact absurd hnext (hok e)
  | done => exact .inl (by simp [Buffer.took, hnext, Next.isDone])
  | pending => exact absurd hnext hpending

/-- A connection stays at the end of its input, unless there is an error. -/
theorem PoolAtEnd.pollNext (service : Service P M) (h : PoolAtEnd b) (max : ℕ)
    (schedule : List (ℕ × (ℕ → Poll (Except Error Value))))
    (hok : ∀ e, (b.pollNext max service.pull Serving.poll schedule).2 ≠ .error e) :
    PoolAtEnd (b.pollNext max service.pull Serving.poll schedule).1 := by
  have hend := fill_invariant_of_ok (P := PoolAtEnd)
    (fun b hopen hb (hok : ∀ e, (service.pull b.source).2 ≠ .error e) => hb.took hopen hok)
    (max - b.inProgress.length) b h
  have hpolls := polls_pollNext max service.pull Serving.poll schedule b
  generalize b.fill service.pull (max - b.inProgress.length) = fill at hpolls hend
  generalize b.pollNext max service.pull Serving.poll schedule = result at hpolls hok
  cases hpolls with
  | error e _ => exact absurd rfl (hok e)
  | item _ _ hfill _ => exact hend hfill
  | done hfill _ _ => exact hend hfill
  | pending _ hfill _ _ => exact hend hfill

/-- There, a poll has an answer if the methods of the first request return. -/
theorem PoolAtEnd.pollNext_ne_pending (service : Service P M) (h : PoolAtEnd b) {max : ℕ}
    (hmax : 0 < max)
    {methods : ℕ → Poll (Except Error Value)} (hready : ∀ i, ∃ result, methods i = .ready result)
    (rest : List (ℕ × (ℕ → Poll (Except Error Value)))) :
    (b.pollNext max service.pull Serving.poll ((0, methods) :: rest)).2 ≠ .pending := by
  refine BufferUnordered.pollNext_ne_pending
    (fun serving => serving.exists_poll_eq_some hready) ?_
  intro hempty hok
  rcases h with hdone | hsource
  · rw [fill_of_isDone hdone]
    exact hdone
  · exact (fill_of_inProgress_eq_nil hmax hempty hok).resolve_right (atEnd_pull service hsource).1

end Pool

namespace Connection

variable {service : Service P M} {c : Connection P M}

/-- How many items can still be taken. -/
def weight (service : Service P M) (c : Connection P M) : ℕ :=
  (service.codec.messages c.arrived).length - c.answered.length + c.mailbox.length

/-- The length of the way to the end. -/
def rank (service : Service P M) (c : Connection P M) : ℕ :=
  4 * c.weight service +
    match c.phase with
    | .flushing => 5
    | .idle => 4
    | .sending => 3
    | .selecting _ => if c.useStrong then 1 else 2
    | .closing | .finished _ => 0

/-- There are at least as many messages as answers. -/
theorem Inv.answered_le (h : c.Inv service) :
    c.answered.length ≤ (service.codec.messages c.arrived).length := by
  have htaken := h.pool.reads.taken_initial.length_le
  have hjobs := h.pool.jobs_perm.length_eq
  simp only [jobsOf, List.length_mapIdx, List.length_append, List.length_map] at hjobs
  omega

/-- The connection is finished, or it is nearer to its end. -/
def Nearer (service : Service P M) (c c' : Connection P M) : Prop :=
  (∃ ok, c'.phase = .finished ok) ∨ c'.rank service < c.rank service ∧ PoolAtEnd c'.pool

theorem nearer_pollWeak (hend : PoolAtEnd c.pool) {checkedStrong : Bool}
    (hphase : c.phase = .selecting checkedStrong) (huse : c.useStrong = false) :
    Nearer service c (c.pollWeak checkedStrong) := by
  right
  rw [pollWeak]
  split
  · rename_i text mailbox hmailbox
    rw [select_item]
    refine ⟨?_, hend⟩
    simp only [rank, weight, hphase, huse, hmailbox, List.length_cons]
    simp
    omega
  · have heq : c.select checkedStrong .pending =
        { c with useStrong := true, phase := .selecting checkedStrong } := by
      obtain ⟨pool, mailbox, useStrong⟩ := c
      cases huse
      rfl
    rw [heq]
    refine ⟨?_, hend⟩
    simp [rank, weight, hphase, huse]

theorem Inv.nearer_pollStrong (h : c.Inv service) (hend : PoolAtEnd c.pool)
    (hsize : 0 < service.clientBufferSize) {checkedStrong : Bool}
    (hphase : c.phase = .selecting checkedStrong) (huse : c.useStrong = true)
    {methods : ℕ → Poll (Except Error Value)} (hready : ∀ i, ∃ result, methods i = .ready result)
    (rest : List (ℕ × (ℕ → Poll (Except Error Value)))) :
    Nearer service c (c.pollStrong service checkedStrong ((0, methods) :: rest)) := by
  have hpending := hend.pollNext_ne_pending service hsize hready rest
  have hstays := hend.pollNext service service.clientBufferSize ((0, methods) :: rest)
  have hle := (h.pollStrong huse hphase ((0, methods) :: rest)).answered_le
  rw [Connection.pollStrong] at hle ⊢
  generalize c.pool.pollNext service.clientBufferSize service.pull Serving.poll
    ((0, methods) :: rest) = polled at hpending hstays hle
  obtain ⟨pool, answer⟩ := polled
  cases answer with
  | item output =>
    obtain ⟨job, response, returned⟩ := output
    right
    cases response with
    | some response =>
      dsimp only at hle ⊢
      rw [Connection.select_item] at hle ⊢
      refine ⟨?_, hstays (by simp)⟩
      simp only [rank, weight, hphase, huse, List.length_append, List.length_singleton] at hle ⊢
      simp
      omega
    | none =>
      refine ⟨?_, hstays (by simp)⟩
      simp only [rank, weight, hphase, huse, List.length_append, List.length_singleton] at hle ⊢
      simp
      omega
  | error e =>
    left
    dsimp only
    rw [select_error]
    exact ⟨false, rfl⟩
  | done =>
    right
    dsimp only
    rw [select_done { c with pool } _ huse]
    refine ⟨?_, hstays (by simp)⟩
    simp [rank, weight, hphase, huse]
  | pending => exact absurd rfl hpending

/-- An iteration with prompt answers brings a connection at the end of its input nearer to its
own end. -/
theorem Inv.nearer_poll (h : c.Inv service) (hend : PoolAtEnd c.pool)
    (hsize : 0 < service.clientBufferSize) {answers : PollAnswers} (hprompt : answers.IsPrompt) :
    Nearer service c (c.poll service answers) := by
  obtain ⟨methods, rest, hschedule, hready⟩ := hprompt.schedule
  rw [Connection.poll]
  split
  · rename_i hphase
    right
    split
    · exact ⟨by simp [rank, weight, hphase], hend⟩
    · split
      · exact ⟨by simp [rank, weight, hphase], hend⟩
      · refine ⟨?_, hend⟩
        cases huse : c.useStrong <;> simp [rank, weight, hphase]
  · rename_i hphase
    rw [hprompt.ready, hprompt.startSend]
    right
    unfold Connection.pollSend
    cases hitem : c.bufferedItem with
    | none =>
      refine ⟨?_, hend⟩
      cases huse : c.useStrong <;> simp [rank, weight, hphase]
    | some item =>
      refine ⟨?_, hend⟩
      cases huse : c.useStrong <;> simp [rank, weight, hphase]
  · rename_i checkedStrong hphase
    split
    · rename_i huse
      rw [hschedule]
      exact h.nearer_pollStrong hend hsize hphase huse hready rest
    · rename_i huse
      exact nearer_pollWeak hend hphase (by simpa using huse)
  · rename_i hphase
    rw [hprompt.flush]
    exact .inr ⟨by simp [rank, weight, hphase], hend⟩
  · rw [hprompt.close]
    exact .inl ⟨true, rfl⟩
  · rename_i ok hphase
    exact .inl ⟨ok, hphase⟩

/-! ## The peer closes its side -/

/-- The connection is at the end of its input, or it is finished. -/
def IsClosing (c : Connection P M) : Prop := PoolAtEnd c.pool ∨ ∃ ok, c.phase = .finished ok

@[simp] theorem pool_select (checkedStrong : Bool) (answer : Poll (Option (Except IoError Item))) :
    (c.select checkedStrong answer).pool = c.pool := by
  unfold select
  dsimp only
  split <;> rfl

theorem isClosing_pollStrong (hend : PoolAtEnd c.pool) (checkedStrong : Bool)
    (schedule : List (ℕ × (ℕ → Poll (Except Error Value)))) :
    (c.pollStrong service checkedStrong schedule).IsClosing := by
  have hstays := hend.pollNext service service.clientBufferSize schedule
  rw [pollStrong]
  generalize c.pool.pollNext service.clientBufferSize service.pull Serving.poll schedule = polled
    at hstays
  obtain ⟨pool, answer⟩ := polled
  cases answer with
  | item output =>
    obtain ⟨job, response, returned⟩ := output
    left
    cases response with
    | some response =>
      dsimp only
      rw [pool_select]
      exact hstays (by simp)
    | none => exact hstays (by simp)
  | error e =>
    right
    dsimp only
    rw [select_error]
    exact ⟨false, rfl⟩
  | done =>
    left
    dsimp only
    rw [pool_select]
    exact hstays (by simp)
  | pending =>
    left
    dsimp only
    rw [pool_select]
    exact hstays (by simp)

theorem pool_pollWeak (checkedStrong : Bool) : (c.pollWeak checkedStrong).pool = c.pool := by
  rw [pollWeak]
  split
  · rw [pool_select]
  · rw [pool_select]

theorem pool_pollSend (ready : Poll Bool) (startSend : Bool) :
    (c.pollSend ready startSend).pool = c.pool := by
  unfold pollSend
  split
  · rfl
  · split <;> rfl
  · rfl
  · rfl

/-- The end of the input is not lost. -/
theorem IsClosing.step (h : c.IsClosing) (label : Label) : (c.step service label).IsClosing := by
  rcases h with hend | ⟨ok, hfinished⟩
  · cases label with
    | arrive read =>
      left
      exact hend.imp_right fun h => h.imp_right fun hmem => List.mem_append_left _ hmem
    | notify text => exact .inl hend
    | poll answers =>
      rw [Connection.step, Connection.poll]
      split
      · split
        · exact .inl hend
        · split
          · exact .inl hend
          · exact .inl hend
      · exact .inl (by rw [pool_pollSend]; exact hend)
      · split
        · exact isClosing_pollStrong hend _ _
        · exact .inl (by rw [pool_pollWeak]; exact hend)
      · split
        · exact .inl hend
        · exact .inl hend
      · split
        · exact .inl hend
        · exact .inl hend
      · exact .inl hend
  · right
    cases label with
    | arrive read => exact ⟨ok, hfinished⟩
    | notify text => exact ⟨ok, hfinished⟩
    | poll answers => exact ⟨ok, by simp [Connection.step, Connection.poll, hfinished]⟩

/-- A finished connection stays so. -/
theorem finished_run_of_finished {ok : Bool} (hfinished : c.phase = .finished ok)
    (polls : List PollAnswers) :
    (Runs.run (Connection.step service) c (polls.map .poll)).phase = .finished ok := by
  refine Runs.run_invariant_of_mem (I := fun c : Connection P M => c.phase = .finished ok)
    hfinished fun c label hmem hc => ?_
  obtain ⟨answers, -, rfl⟩ := List.mem_map.mp hmem
  simp [Connection.step, Connection.poll, hc]

/-- Prompt iterations finish a connection at the end of its input. -/
theorem Inv.finished_run (h : c.Inv service) (hend : PoolAtEnd c.pool)
    (hsize : 0 < service.clientBufferSize) {polls : List PollAnswers}
    (hpolls : ∀ answers ∈ polls, answers.IsPrompt) (hlength : c.rank service < polls.length) :
    ∃ ok, (Runs.run (Connection.step service) c (polls.map .poll)).phase = .finished ok := by
  induction polls generalizing c with
  | nil => simp at hlength
  | cons answers polls ih =>
    rcases h.nearer_poll hend hsize (hpolls answers (by simp)) with
      ⟨ok, hfinished⟩ | ⟨hrank, hend'⟩
    · exact ⟨ok, finished_run_of_finished hfinished polls⟩
    · rw [List.length_cons] at hlength
      exact ih (h.step (.poll answers)) hend'
        (fun answers hmem => hpolls answers (List.mem_cons_of_mem _ hmem))
        (by change (c.poll service answers).rank service < _; omega)

/-- A connection that is finished without an error has answered every request. -/
theorem Inv.finished_answers (h : c.Inv service) (hfinished : c.phase = .finished true) :
    (jobsOf c.pool.source.taken).Perm (c.answered.map Answered.job) ∧
      c.written.filterMap Item.asResponse = c.answered.filterMap (Answered.reply service.json) := by
  obtain ⟨hinProgress, hbuffered⟩ := h.phased.ended (h.phased.closing (.inr hfinished))
  constructor
  · have hperm := h.pool.jobs_perm
    rw [hinProgress] at hperm
    simpa using hperm
  · have hresponses := h.responses_eq
    rw [items, hbuffered] at hresponses
    simpa using hresponses

/-- **A closed connection is finished.** When the peer has closed its side, so many iterations in
which methods return and the peer takes what is written finish the connection, whatever went
before. If that is without an error, every request was answered, and every response written. -/
theorem finishes_after_end (service : Service P M) (hsize : 0 < service.clientBufferSize)
    (labels : List Label) (hend : .arrive (.ok []) ∈ labels) (polls : List PollAnswers)
    (hpolls : ∀ answers ∈ polls, answers.IsPrompt)
    (hlength : 4 * ((service.codec.messages (after service labels).arrived).length +
      (after service labels).mailbox.length) + 5 < polls.length) :
    let c := after service (labels ++ polls.map .poll)
    ∃ ok, c.phase = .finished ok ∧
      (ok = true → (jobsOf c.pool.source.taken).Perm (c.answered.map Answered.job) ∧
        c.written.filterMap Item.asResponse =
          c.answered.filterMap (Answered.reply service.json)) := by
  intro c
  have hclosing : (after service labels).IsClosing := by
    obtain ⟨before, rest, rfl⟩ := List.append_of_mem hend
    refine Runs.of_occurs (P := fun _ label => label = .arrive (.ok [])) ?_
      (fun _ label h => h.step label) ⟨before, _, rest, rfl, rfl⟩
    rintro c _ rfl
    exact .inl (.inr (.inr (by simp [Connection.step, FramedRead.arrive])))
  have hrun : c = Runs.run (step service) (after service labels) (polls.map .poll) :=
    Runs.run_append _ _ _
  have hfinished : ∃ ok, c.phase = .finished ok := by
    rw [hrun]
    rcases hclosing with hpool | ⟨ok, hfinished⟩
    · refine (inv_after service labels).finished_run hpool hsize hpolls ?_
      have hrank : (after service labels).rank service ≤
          4 * (after service labels).weight service + 5 := by
        unfold rank
        split
        · omega
        · omega
        · omega
        · split <;> omega
        · omega
        · omega
      unfold weight at hrank
      omega
    · exact ⟨ok, finished_run_of_finished hfinished polls⟩
  obtain ⟨ok, hok⟩ := hfinished
  refine ⟨ok, hok, ?_⟩
  rintro rfl
  exact (inv_after service (labels ++ polls.map .poll)).finished_answers hok

end Connection

/-! ## A request and the end of the input -/

/-- A server with the default codec and buffer. -/
def pongService : Service Unit Unit where
  json := sampleJson
  handler := MetaIoHandler.withCompatibility .both
  metadata := ()
  codec := .streamIncoming
  clientBufferSize := 5

/-- A request arrives, a message of the session is sent, and the peer closes its side. -/
def farewell : List Label :=
  [.arrive (.ok [0x7B, 0x7D]), .notify "bye", .arrive (.ok [])]

/-- Whatever is polled returns, and whatever is written is taken. -/
def promptAnswers : PollAnswers where
  schedule := [(0, fun _ => .ready (.ok .null))]
  ready := .ready true
  startSend := true
  flush := .ready true
  close := .ready true

theorem messages_farewell :
    pongService.codec.messages (Connection.after pongService farewell).arrived =
      ["\x7b\x7d"] := by
  have hcut : pongService.codec.rule.cut [0x7B, 0x7D] = some 2 := rfl
  have hrest : pongService.codec.rule.cut [] = none := rfl
  have harrived : (Connection.after pongService farewell).arrived = [0x7B, 0x7D] := rfl
  rw [harrived, StreamCodec.messages, StreamCodec.cutFrames,
    PrefixCut.Rule.frames_of_cut_some hcut]
  simp only [List.drop_succ_cons, List.drop_zero, PrefixCut.Rule.frames_of_cut_none hrest]
  decide

/-- The connection is finished after twenty iterations. -/
theorem Connection.finishes_after_end_farewell :
    let c := after pongService (farewell ++ (List.replicate 20 promptAnswers).map .poll)
    ∃ ok, c.phase = .finished ok ∧
      (ok = true → (jobsOf c.pool.source.taken).Perm (c.answered.map Answered.job) ∧
        c.written.filterMap Item.asResponse =
          c.answered.filterMap (Answered.reply pongService.json)) := by
  refine Connection.finishes_after_end pongService (by decide) farewell (by simp [farewell])
    (List.replicate 20 promptAnswers) ?_ ?_
  · intro answers hmem
    rw [List.eq_of_mem_replicate hmem]
    exact ⟨⟨_, _, rfl, fun _ => ⟨_, rfl⟩⟩, rfl, rfl, rfl, rfl⟩
  · rw [messages_farewell]
    decide

end JsonRpc.Ipc
