import JsonRpc.Ipc.Connection

/-!
# What the IPC server writes to a connection

The requests that the server takes from a connection are the first messages of the bytes
that arrived, and each of them is being served or answered, exactly once. What is written
consists of the responses of the handler to these requests, in the order in which they were
ready, and of the messages of the session, in their order. A connection that ends without an
error has written the response to every request.
-/

namespace JsonRpc.Ipc

open BufferUnordered

variable {P M : Type}

/-! ## The requests -/

/-- The requests of a connection, numbered in their order. -/
def jobsOf (texts : List String) : List Job := texts.mapIdx Job.mk

theorem jobsOf_concat (texts : List String) (text : String) :
    jobsOf (texts ++ [text]) = jobsOf texts ++ [⟨texts.length, text⟩] := by
  simp [jobsOf, List.mapIdx_append]

/-- The requests that are served, apart from the answers. `out` are the requests that were
answered. -/
structure PoolInv (service : Service P M) (arrived : Bytes) (out : List Job)
    (b : Buffer FramedRead Job (Serving P M)) : Prop where
  reads : FramedRead.Reads service.codec arrived b.source
  /-- Every request is served or answered. -/
  jobs_perm : (jobsOf b.source.taken).Perm (out ++ b.inProgress.map Prod.fst)
  /-- The futures are those of the texts. -/
  isOf : ∀ job ∈ b.inProgress,
    job.2.IsOf service.json service.handler job.1.text service.metadata

section Pool

variable {service : Service P M} {arrived : Bytes} {out : List Job}
  {b : Buffer FramedRead Job (Serving P M)}

/-- What the reading half gives. -/
structure Pulled (service : Service P M) (arrived : Bytes) (reader : FramedRead)
    (pulled : FramedRead × Next IoError (Job × Serving P M)) : Prop where
  reads : FramedRead.Reads service.codec arrived pulled.1
  jobs_eq : jobsOf pulled.1.taken = jobsOf reader.taken ++ pulled.2.items.map Prod.fst
  isOf : ∀ job ∈ pulled.2.items,
    job.2.IsOf service.json service.handler job.1.text service.metadata

theorem pulled_pull {reader : FramedRead}
    (h : FramedRead.Reads service.codec arrived reader) :
    Pulled service arrived reader (service.pull reader) := by
  have hpolls := FramedRead.polls_pollNext h
  unfold Service.pull
  generalize reader.pollNext service.codec = polled at hpolls
  obtain ⟨next, answer⟩ := polled
  have htaken : next.taken = reader.taken ++ answer.items := hpolls.taken_eq
  cases answer with
  | item text =>
    refine ⟨hpolls.reads, ?_, ?_⟩
    · rw [htaken]
      exact jobsOf_concat reader.taken text
    · intro job hmem
      rw [Next.items, List.mem_singleton] at hmem
      subst hmem
      exact Serving.isOf_start
  | error e => exact ⟨hpolls.reads, by simp [htaken, Next.items], by simp [Next.items]⟩
  | done => exact ⟨hpolls.reads, by simp [htaken, Next.items], by simp [Next.items]⟩
  | pending => exact ⟨hpolls.reads, by simp [htaken, Next.items], by simp [Next.items]⟩

theorem PoolInv.took (h : PoolInv service arrived out b) :
    PoolInv service arrived out (b.took (service.pull b.source)) := by
  have hpulled := pulled_pull h.reads
  refine ⟨hpulled.reads, ?_, ?_⟩
  · have hperm := h.jobs_perm.append_right ((service.pull b.source).2.items.map Prod.fst)
    rw [← hpulled.jobs_eq, List.append_assoc, ← List.map_append] at hperm
    exact hperm
  · intro job hmem
    exact (List.mem_append.mp hmem).elim (h.isOf job) (hpulled.isOf job)

/-- What a poll of the requests does. -/
structure PoolPolled (service : Service P M) (arrived : Bytes) (out : List Job)
    (polled : Buffer FramedRead Job (Serving P M) ×
      Next IoError (Job × Option Response × List (Returned P M))) : Prop where
  inv : PoolInv service arrived (out ++ polled.2.items.map Prod.fst) polled.1
  responds : ∀ output ∈ polled.2.items, Responds service.json service.handler output.1.text
    service.metadata output.2.2 output.2.1
  done : polled.2 = .done → polled.1.inProgress = []

theorem PoolInv.pollNext (h : PoolInv service arrived out b) (max : ℕ)
    (schedule : List (ℕ × (ℕ → Poll (Except Error Value)))) :
    PoolPolled service arrived out (b.pollNext max service.pull Serving.poll schedule) := by
  have hfilled : PoolInv service arrived out (b.fill service.pull (max - b.inProgress.length)).1 :=
    fill_invariant (fun b _ hb => hb.took) _ _ h
  have hpolls := polls_pollNext max service.pull Serving.poll schedule b
  generalize b.fill service.pull (max - b.inProgress.length) = fill at hfilled hpolls
  generalize b.pollNext max service.pull Serving.poll schedule = result at hpolls
  have hnext : ∀ (job : Job) (serving : Serving P M) (answers : ℕ → Poll (Except Error Value))
      (serving' : Serving P M),
      serving.IsOf service.json service.handler job.text service.metadata →
      serving.poll answers = (serving', none) →
      serving'.IsOf service.json service.handler job.text service.metadata := by
    intro job serving answers serving' hserving hpoll
    obtain rfl : serving.next answers = serving' := congrArg Prod.fst hpoll
    exact hserving.next answers
  have hperm := pollFutures_perm Serving.poll schedule fill.1.inProgress
  have hisOf := pollFutures_invariant hnext schedule fill.1.inProgress hfilled.isOf
  cases hpolls with
  | error e _ =>
    refine ⟨?_, fun _ hmem => (by simp [Next.items] at hmem), fun hdone => by cases hdone⟩
    simpa [Next.items] using hfilled
  | item output jobs _ hpoll =>
    rw [hpoll] at hperm hisOf
    refine ⟨⟨hfilled.reads, ?_, hisOf⟩, ?_, fun hdone => by cases hdone⟩
    · simpa [Next.items] using hfilled.jobs_perm.trans (hperm.append_left out)
    · intro output' hmem
      rw [Next.items, List.mem_singleton] at hmem
      subst hmem
      have houtput : (pollFutures Serving.poll schedule fill.1.inProgress).2 =
        some (output'.1, output'.2) := by rw [hpoll]
      obtain ⟨serving, answers, hserving, hready⟩ :=
        pollFutures_output hnext hfilled.isOf houtput
      exact hserving.responds hready
  | done _ hdone hpoll =>
    rw [hpoll] at hperm hisOf
    refine ⟨⟨hfilled.reads, ?_, hisOf⟩, fun _ hmem => (by simp [Next.items] at hmem), fun _ => rfl⟩
    simpa [Next.items] using hfilled.jobs_perm.trans (hperm.append_left out)
  | pending jobs _ hpoll _ =>
    rw [hpoll] at hperm hisOf
    refine ⟨⟨hfilled.reads, ?_, hisOf⟩, fun _ hmem => (by simp [Next.items] at hmem),
      fun hdone => by cases hdone⟩
    simpa [Next.items] using hfilled.jobs_perm.trans (hperm.append_left out)

end Pool

/-! ## The invariant -/

/-- The response in an item. -/
def Item.asResponse : Item → Option (Job × String)
  | response job text => some (job, text)
  | notification _ => none

/-- The message of the session in an item. -/
def Item.asNotification : Item → Option String
  | response _ _ => none
  | notification text => some text

/-- What is to be written for a request that was answered. -/
def Answered.reply (json : SerdeJson) (answered : Answered P M) : Option (Job × String) :=
  answered.response.map fun response => (answered.job, writeResponse json response)

/-- The answer is a response of the handler to the request. -/
def Answered.IsResponse (service : Service P M) (answered : Answered P M) : Prop :=
  Responds service.json service.handler answered.job.text service.metadata answered.returned
    answered.response

namespace Connection

/-- What was written and what is to be written next. -/
def items (c : Connection P M) : List Item := c.written ++ c.bufferedItem.toList

/-- What is known about the phases. -/
structure Phased (c : Connection P M) : Prop where
  /-- Nothing is buffered while a source is polled. -/
  free : ∀ checkedStrong, c.phase = .selecting checkedStrong →
    c.bufferedItem = none ∧ c.ended = false
  sending : c.phase = .sending → c.ended = false
  /-- At the end, all requests are answered and all items are written. -/
  ended : c.ended = true → c.pool.inProgress = [] ∧ c.bufferedItem = none
  closing : c.phase = .closing ∨ c.phase = .finished true → c.ended = true

/-- The invariant of a connection. -/
structure Inv (service : Service P M) (c : Connection P M) : Prop where
  pool : PoolInv service c.arrived (c.answered.map Answered.job) c.pool
  /-- No more requests are served at the same time than allowed. -/
  inProgress_le : c.pool.inProgress.length ≤ service.clientBufferSize
  /-- The answers are responses of the handler. -/
  responds : ∀ answered ∈ c.answered, answered.IsResponse service
  /-- The responses are written in the order of the answers. -/
  responses_eq : c.items.filterMap Item.asResponse =
    c.answered.filterMap (Answered.reply service.json)
  /-- The messages of the session are written in their order. -/
  notifications_eq : c.items.filterMap Item.asNotification ++ c.mailbox = c.notified
  phased : c.Phased

section Select

variable (c : Connection P M) (checkedStrong : Bool)

/-- An item is taken from the source whose turn it is. -/
theorem select_item (item : Item) :
    c.select checkedStrong (.ready (some (.ok item))) =
      { c with useStrong := !c.useStrong, bufferedItem := some item, phase := .sending } := by
  obtain ⟨pool, mailbox, useStrong⟩ := c
  cases useStrong <;> rfl

theorem select_error (e : IoError) :
    c.select checkedStrong (.ready (some (.error e))) =
      { c with useStrong := !c.useStrong, phase := .finished false } := by
  obtain ⟨pool, mailbox, useStrong⟩ := c
  cases useStrong <;> rfl

/-- The merged stream ends with the requests. -/
theorem select_done (huse : c.useStrong = true) :
    c.select checkedStrong (.ready none) = { c with ended := true, phase := .closing } := by
  obtain ⟨pool, mailbox, useStrong⟩ := c
  cases huse
  rfl

/-- Without an item, the other source is polled, or the poll is over. -/
theorem select_pending : ∃ useStrong phase,
    c.select checkedStrong .pending = { c with useStrong, phase } ∧
      (phase = .flushing ∨ ∃ checkedStrong', phase = .selecting checkedStrong') := by
  obtain ⟨pool, mailbox, useStrong⟩ := c
  cases useStrong with
  | false => exact ⟨true, .selecting checkedStrong, rfl, .inr ⟨_, rfl⟩⟩
  | true =>
    cases checkedStrong with
    | false => exact ⟨false, .selecting true, rfl, .inr ⟨_, rfl⟩⟩
    | true => exact ⟨true, .flushing, rfl, .inl rfl⟩

end Select

section Steps

variable {service : Service P M} {c : Connection P M}

/-- Nothing but the phase and the turn changes. -/
theorem Inv.turn (h : c.Inv service) {useStrong : Bool} {phase : Phase}
    (hfree : ∀ checkedStrong, phase = .selecting checkedStrong →
      c.bufferedItem = none ∧ c.ended = false)
    (hsending : phase = .sending → c.ended = false)
    (hclosing : phase = .closing ∨ phase = .finished true → c.ended = true) :
    Inv service { c with useStrong, phase } :=
  ⟨h.pool, h.inProgress_le, h.responds, h.responses_eq, h.notifications_eq,
    ⟨hfree, hsending, h.phased.ended, hclosing⟩⟩

/-- An item is taken. -/
theorem Inv.select_item {item : Item} {mailbox : List String}
    {pool : Buffer FramedRead Job (Serving P M)} {answered : List (Answered P M)}
    (h : c.Inv service) (hfree : c.bufferedItem = none ∧ c.ended = false)
    (hpool : PoolInv service c.arrived (answered.map Answered.job) pool)
    (hinProgress : pool.inProgress.length ≤ service.clientBufferSize)
    (hresponds : ∀ a ∈ answered, a.IsResponse service)
    (hresponses : c.answered.filterMap (Answered.reply service.json) ++ item.asResponse.toList =
      answered.filterMap (Answered.reply service.json))
    (hnotifications : item.asNotification.toList ++ mailbox = c.mailbox) (checkedStrong : Bool) :
    Inv service ({ c with pool, mailbox, answered }.select checkedStrong
      (.ready (some (.ok item)))) := by
  rw [Connection.select_item]
  refine ⟨hpool, hinProgress, hresponds, ?_, ?_, by simp, fun _ => hfree.2, ?_, by simp⟩
  · have hold := h.responses_eq
    rw [items, hfree.1, Option.toList_none, List.append_nil] at hold
    rw [← hresponses, ← hold]
    cases item <;> simp [items, Item.asResponse, List.filterMap_cons]
  · have hold := h.notifications_eq
    rw [items, hfree.1, Option.toList_none, List.append_nil, ← hnotifications] at hold
    rw [← hold]
    cases item <;> simp [items, Item.asNotification, List.filterMap_cons]
  · intro hended
    cases hfree.2.symm.trans hended

/-- A source without an item. -/
theorem Inv.select_pending (h : c.Inv service)
    (hfree : c.bufferedItem = none ∧ c.ended = false) (checkedStrong : Bool) :
    (c.select checkedStrong .pending).Inv service := by
  obtain ⟨useStrong, phase, heq, hphase⟩ := c.select_pending checkedStrong
  rw [heq]
  refine h.turn (fun _ _ => hfree) (fun _ => hfree.2) ?_
  rcases hphase with rfl | ⟨checkedStrong', rfl⟩
  · simp
  · simp

/-- A message of the session is taken. -/
theorem Inv.pollWeak (h : c.Inv service) {checkedStrong : Bool}
    (hphase : c.phase = .selecting checkedStrong) : (c.pollWeak checkedStrong).Inv service := by
  have hfree := h.phased.free checkedStrong hphase
  rw [Connection.pollWeak]
  split
  · rename_i text mailbox hmailbox
    refine h.select_item hfree h.pool h.inProgress_le h.responds ?_ ?_ checkedStrong
    · simp [Item.asResponse]
    · simp [Item.asNotification, hmailbox]
  · exact h.select_pending hfree checkedStrong

/-- The requests are polled. -/
theorem Inv.pollStrong (h : c.Inv service) {checkedStrong : Bool} (huse : c.useStrong = true)
    (hphase : c.phase = .selecting checkedStrong)
    (schedule : List (ℕ × (ℕ → Poll (Except Error Value)))) :
    (c.pollStrong service checkedStrong schedule).Inv service := by
  have hfree := h.phased.free checkedStrong hphase
  have hpolled := h.pool.pollNext service.clientBufferSize schedule
  have hbound := length_inProgress_pollNext service.pull Serving.poll schedule h.inProgress_le
  rw [Connection.pollStrong]
  generalize c.pool.pollNext service.clientBufferSize service.pull Serving.poll schedule = polled
    at hpolled hbound
  obtain ⟨pool, answer⟩ := polled
  have hsame (hitems : answer.items = []) : Inv service { c with pool } := by
    refine ⟨?_, hbound, h.responds, h.responses_eq, h.notifications_eq, h.phased.free,
      h.phased.sending, ?_, h.phased.closing⟩
    · have hinv := hpolled.inv
      rw [hitems] at hinv
      simpa using hinv
    · intro hended
      cases hfree.2.symm.trans hended
  cases answer with
  | item output =>
    obtain ⟨job, response, returned⟩ := output
    have hresponds : ∀ a ∈ c.answered ++ [⟨job, response, returned⟩], a.IsResponse service := by
      intro a hmem
      rcases List.mem_append.mp hmem with hmem | hmem
      · exact h.responds a hmem
      · rw [List.mem_singleton] at hmem
        subst hmem
        exact hpolled.responds (job, response, returned) (by simp [Next.items])
    have hpool : PoolInv service c.arrived
        ((c.answered ++ [(⟨job, response, returned⟩ : Answered P M)]).map Answered.job) pool := by
      simpa [Next.items] using hpolled.inv
    cases response with
    | some response =>
      refine h.select_item hfree hpool hbound hresponds ?_ ?_ checkedStrong
      · simp [Item.asResponse, Answered.reply]
      · simp [Item.asNotification]
    | none =>
      refine ⟨hpool, hbound, hresponds, ?_, h.notifications_eq, h.phased.free, h.phased.sending,
        ?_, h.phased.closing⟩
      · have hold := h.responses_eq
        simpa [items, Answered.reply, List.filterMap_cons] using hold
      · intro hended
        cases hfree.2.symm.trans hended
  | error e =>
    dsimp only
    rw [select_error]
    exact (hsame rfl).turn (by simp) (by simp) (by simp)
  | done =>
    dsimp only
    rw [select_done { c with pool } _ huse]
    have hinv := hsame rfl
    exact ⟨hinv.pool, hbound, hinv.responds, hinv.responses_eq, hinv.notifications_eq, by simp,
      by simp, fun _ => ⟨hpolled.done rfl, hfree.1⟩, fun _ => rfl⟩
  | pending => exact (hsame rfl).select_pending hfree checkedStrong

/-- The buffered item is written. -/
theorem Inv.pollSend (h : c.Inv service) (hphase : c.phase = .sending) (ready : Poll Bool)
    (startSend : Bool) : (c.pollSend ready startSend).Inv service := by
  have hended := h.phased.sending hphase
  unfold Connection.pollSend
  split
  · exact h.turn (by simp) (by simp) (by simp)
  · rename_i item hitem
    split
    · refine ⟨h.pool, h.inProgress_le, h.responds, ?_, ?_, fun _ _ => ⟨rfl, hended⟩, by simp, ?_,
        by simp⟩
      · have hold := h.responses_eq
        simpa [items, hitem] using hold
      · have hold := h.notifications_eq
        simpa [items, hitem] using hold
      · exact fun hend => by cases hended.symm.trans hend
    · exact h.turn (by simp) (by simp) (by simp)
  · rename_i hnone
    exact h.turn (fun _ _ => ⟨hnone, hended⟩) (by simp) (by simp)
  · exact h.turn (by simp) (by simp) (by simp)

/-- An iteration of a poll keeps the invariant. -/
theorem Inv.poll (h : c.Inv service) (answers : PollAnswers) :
    (c.poll service answers).Inv service := by
  rw [Connection.poll]
  split
  · split
    · rename_i hsome
      refine h.turn (by simp) (fun _ => ?_) (by simp)
      cases hended : c.ended with
      | false => rfl
      | true =>
        rw [(h.phased.ended hended).2] at hsome
        cases hsome
    · rename_i hnone
      split
      · rename_i hended
        exact h.turn (by simp) (by simp) (fun _ => hended)
      · rename_i hended
        exact h.turn (fun _ _ => ⟨by simpa using hnone, by simpa using hended⟩) (by simp) (by simp)
  · rename_i hphase
    exact h.pollSend hphase _ _
  · rename_i checkedStrong hphase
    split
    · rename_i huse
      exact h.pollStrong huse hphase _
    · exact h.pollWeak hphase
  · split
    · exact h.turn (by simp) (by simp) (by simp)
    · exact h.turn (by simp) (by simp) (by simp)
  · rename_i hphase
    split
    · exact h.turn (by simp) (by simp) (by simp)
    · exact h.turn (by simp) (by simp) (fun _ => h.phased.closing (.inl hphase))
  · exact h

/-- Every step keeps the invariant. -/
theorem Inv.step (h : c.Inv service) (label : Label) : (c.step service label).Inv service := by
  cases label with
  | arrive read =>
    exact ⟨⟨h.pool.reads.arrive read, h.pool.jobs_perm, h.pool.isOf⟩, h.inProgress_le, h.responds,
      h.responses_eq, h.notifications_eq, ⟨h.phased.free, h.phased.sending, h.phased.ended,
      h.phased.closing⟩⟩
  | notify text =>
    refine ⟨h.pool, h.inProgress_le, h.responds, h.responses_eq, ?_, ⟨h.phased.free,
      h.phased.sending, h.phased.ended, h.phased.closing⟩⟩
    have hold := h.notifications_eq
    simp only [Connection.step, items] at hold ⊢
    rw [← hold, List.append_assoc]
  | poll answers => exact h.poll answers

theorem inv_init (service : Service P M) : (init : Connection P M).Inv service where
  pool := ⟨FramedRead.reads_new, .refl _, by simp [Connection.init, Buffer.new]⟩
  inProgress_le := Nat.zero_le _
  responds := by simp [Connection.init]
  responses_eq := rfl
  notifications_eq := rfl
  phased := ⟨by simp [Connection.init], by simp [Connection.init], by simp [Connection.init],
    by simp [Connection.init]⟩

theorem inv_after (service : Service P M) (labels : List Label) :
    (after service labels).Inv service :=
  Runs.run_invariant (inv_init service) (fun _ label h => h.step label) labels

end Steps

/-- **Every response belongs to its request.** In every run, with requests served at the same
time and their methods returning in any order, the requests are the first messages of the bytes
that arrived, each of them is answered once or being served, and no more than allowed are being
served. What is written consists of the responses of the handler to the answered requests, in the
order of the answers, and of the messages of the session, in their order. -/
theorem written_responses (service : Service P M) (labels : List Label) :
    let c := after service labels
    c.pool.source.taken <+: service.codec.messages c.arrived ∧
      (jobsOf c.pool.source.taken).Perm
        (c.answered.map Answered.job ++ c.pool.inProgress.map Prod.fst) ∧
      c.pool.inProgress.length ≤ service.clientBufferSize ∧
      (∀ answered ∈ c.answered, answered.IsResponse service) ∧
      c.written.filterMap Item.asResponse <+: c.answered.filterMap (Answered.reply service.json) ∧
      c.written.filterMap Item.asNotification <+: c.notified := by
  intro c
  have h : c.Inv service := inv_after service labels
  refine ⟨h.pool.reads.taken_initial, h.pool.jobs_perm, h.inProgress_le, h.responds, ?_, ?_⟩
  · rw [← h.responses_eq, items, List.filterMap_append]
    exact List.prefix_append _ _
  · rw [← h.notifications_eq, items, List.filterMap_append, List.append_assoc]
    exact List.prefix_append _ _

end Connection

end JsonRpc.Ipc
