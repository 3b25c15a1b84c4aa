import JsonRpc.Ws.Connection

/-!
# What a WebSocket connection sends

A connection is given texts by the tasks of its messages and by the channels of the metadata.
Each of them is followed on its own: what a source has sent so far, and what it is about to
send. Nobody waits for anybody else, so there is no order between the sources.
-/

namespace JsonRpc.Ws

open ServerUtils

/-! ## A channel -/

namespace SenderFuture

/-- What can happen to a channel, with the texts that are handed to the connection. -/
inductive Steps (active : Bool) (s : SenderFuture) : SenderFuture → List String → Prop
  | same : Steps active s s []
  | push (text : String) : Steps active s (s.push text) []
  | close : Steps active s s.close []
  | pollNext : Steps active s s.pollNext []
  | checkActive : Steps active s (s.checkActive active) []
  | send (isOk : Bool) : Steps active s (s.send isOk) (if isOk then s.writes else [])

/-- What was sent are the first texts of the channel. As long as the future runs, the others are
still to be sent. -/
def Accounts (s : SenderFuture) (sent : List String) : Prop :=
  ∃ rest, sent ++ rest = s.pushed ∧ (s.phase ≠ .finished → rest = s.held ++ s.queue)

variable {active : Bool} {s s' : SenderFuture} {sent new : List String}

theorem accounts_new : SenderFuture.new.Accounts [] := ⟨[], rfl, fun _ => rfl⟩

theorem Accounts.step (h : s.Accounts sent) (hstep : s.Steps active s' new) :
    s'.Accounts (sent ++ new) := by
  obtain ⟨rest, hpushed, hrest⟩ := h
  cases hstep with
  | same => exact ⟨rest, by simpa using hpushed, hrest⟩
  | push text =>
    unfold SenderFuture.push
    split
    · exact ⟨rest, by simpa using hpushed, hrest⟩
    · rename_i hopen
      have hphase : s.phase ≠ .finished := by
        intro hfinished
        simp [hfinished] at hopen
      refine ⟨rest ++ [text], by simp [← hpushed], fun _ => ?_⟩
      rw [hrest hphase, List.append_assoc]
      rfl
  | close => exact ⟨rest, by simpa [SenderFuture.close] using hpushed, hrest⟩
  | pollNext =>
    unfold SenderFuture.pollNext
    split
    · rename_i text queue hphase hqueue
      refine ⟨rest, by simpa using hpushed, fun _ => ?_⟩
      rw [hrest (by simp [hphase])]
      simp [held, hphase, hqueue]
    · split
      · exact ⟨rest, by simpa using hpushed, fun hne => absurd rfl hne⟩
      · exact ⟨rest, by simpa using hpushed, hrest⟩
    · exact ⟨rest, by simpa using hpushed, hrest⟩
  | checkActive =>
    unfold SenderFuture.checkActive
    split
    · rename_i text hphase
      refine ⟨rest, by simpa using hpushed, fun hne => ?_⟩
      rw [hrest (by simp [hphase])]
      cases active with
      | true => simp [held, hphase]
      | false => exact absurd rfl hne
    · exact ⟨rest, by simpa using hpushed, hrest⟩
  | send isOk =>
    cases hphase : s.phase with
    | writing text =>
      have hheld := hrest (by simp [hphase])
      cases isOk with
      | true =>
        refine ⟨s.queue, ?_, fun _ => by simp [SenderFuture.send, hphase, held]⟩
        simp [SenderFuture.send, hphase, writes, ← hpushed, hheld, held]
      | false =>
        exact ⟨rest, by simpa [SenderFuture.send, hphase] using hpushed,
          fun hne => absurd (by simp [SenderFuture.send, hphase]) hne⟩
    | _ =>
      have hsend : s.send isOk = s := by simp [SenderFuture.send, hphase]
      have hwrites : s.writes = [] := by simp [writes, hphase]
      rw [hsend, hwrites]
      exact ⟨rest, by simpa using hpushed, hrest⟩

/-- While the session is not active, nothing more gets ready to be handed over. -/
theorem Steps.writes_of_inactive (hstep : s.Steps false s' new) :
    new ++ s'.writes <+: s.writes := by
  cases hstep with
  | same => exact List.prefix_rfl
  | push text =>
    unfold SenderFuture.push
    split <;> exact List.prefix_rfl
  | close => exact List.prefix_rfl
  | pollNext =>
    unfold SenderFuture.pollNext
    split
    · exact List.nil_prefix
    · split
      · exact List.nil_prefix
      · exact List.prefix_rfl
    · exact List.prefix_rfl
  | checkActive =>
    unfold SenderFuture.checkActive
    split
    · exact List.nil_prefix
    · exact List.prefix_rfl
  | send isOk =>
    cases hphase : s.phase with
    | writing text => cases isOk <;> simp [SenderFuture.send, writes, hphase]
    | _ => simp [SenderFuture.send, writes, hphase]

end SenderFuture

namespace Connection

variable {S : Slab (Option ℕ)} {G : Globset} {L : Library} {P M : Type}

/-! ## Responses -/

section Serving

variable {service : Service G L P M} {c : Connection S G P M}

theorem sentBy_handsOver (σ : Session S) (l : Ws.Label) (task : ℕ) :
    sentBy (.task task) ((σ.handsOver l).map fun sent => ⟨.task sent.1, sent.2⟩) =
      σ.handedBy l task := by
  simp [sentBy, Session.handedBy, List.filter_map, Function.comp_def]

/-- The future is one of the message, and an answer is a response of the handler to it. -/
structure IsServed (service : Service G L P M) (job : Job P M) : Prop where
  serving : job.serving.IsOf service.json service.handler job.text job.metadata
  answered : ∀ answered, job.answered = some answered → answered.request = job.text ∧
    answered.IsResponse service.json service.handler job.metadata

/-- A text is the answer to the message of a task. -/
def Replies (service : Service G L P M) (c : Connection S G P M) (task : ℕ) (text : String) :
    Prop :=
  ∃ job, c.jobs[task]? = some job ∧ job.reply service.json = some text

/-- What is sent for the messages. -/
structure Serves (service : Service G L P M) (c : Connection S G P M) : Prop where
  run : ∃ ls, c.session = Session.after S ls
  length_eq : c.session.tasks.length = c.jobs.length
  served : ∀ job ∈ c.jobs, IsServed service job
  holds : ∀ task t text, c.session.tasks[task]? = some t → t.phase.reply = some text →
    c.Replies service task text
  sent : ∀ task text, (task, text) ∈ c.session.sent → c.Replies service task text
  out_eq : ∀ task, sentBy (.task task) c.out =
    (c.session.sent.filter fun sent => sent.1 = task).map Prod.snd

theorem serves_new (sessionId : SessionId) :
    (new S sessionId : Connection S G P M).Serves service where
  run := ⟨[], rfl⟩
  length_eq := rfl
  served _ h := by cases h
  holds _ _ _ h := by cases h
  sent _ _ h := by cases h
  out_eq _ := rfl

theorem Serves.inv (h : c.Serves service) : c.session.Inv := by
  obtain ⟨ls, hls⟩ := h.run
  rw [hls]
  exact Session.inv_after S ls

theorem run_step (l : Ws.Label) (h : ∃ ls, c.session = Session.after S ls) :
    ∃ ls, c.session.step l = Session.after S ls := by
  obtain ⟨ls, hls⟩ := h
  exact ⟨ls ++ [l], by rw [hls, Session.after, Session.after, Runs.run_concat]⟩

/-- Only what a session says about messages matters. -/
theorem Serves.of_session (h : c.Serves service) {c' : Connection S G P M}
    (hsession : c'.session = c.session) (hjobs : c'.jobs = c.jobs)
    (hout : ∀ task, sentBy (.task task) c'.out = sentBy (.task task) c.out) :
    c'.Serves service := by
  constructor
  · rw [hsession]
    exact h.run
  · rw [hsession, hjobs]
    exact h.length_eq
  · rw [hjobs]
    exact h.served
  · rw [hsession]
    unfold Replies
    rw [hjobs]
    exact h.holds
  · rw [hsession]
    unfold Replies
    rw [hjobs]
    exact h.sent
  · intro task
    rw [hsession, hout]
    exact h.out_eq task

/-- A step of the session that starts no task. A response that it gives to a task is the answer
to the message. -/
theorem Serves.sessionStep (h : c.Serves service) {l : Ws.Label} (hl : l ≠ .onMessage true)
    (hcomplete : ∀ task text, l = .complete task (some text) → c.Replies service task text) :
    (c.sessionStep l).Serves service where
  run := run_step l h.run
  length_eq := by
    change (c.session.step l).tasks.length = c.jobs.length
    rw [Session.length_step, if_neg (fun hspawn => hl hspawn.2)]
    exact h.length_eq
  served := h.served
  holds task t text ht hreply := by
    rcases Session.reply_step ht hreply with ⟨t', ht', hreply'⟩ | hl'
    · exact h.holds task t' text ht' hreply'
    · exact hcomplete task text hl'
  sent task text hsent := by
    change (task, text) ∈ (c.session.step l).sent at hsent
    rw [Session.sent_step_eq] at hsent
    rcases List.mem_append.mp hsent with hold | hnew
    · exact h.sent task text hold
    · obtain ⟨t, ht, hreply, -⟩ := Session.of_mem_handsOver hnew
      exact h.holds task t text ht hreply
  out_eq task := by
    change sentBy (.task task) (c.out ++ _) = ((c.session.step l).sent.filter _).map _
    rw [Session.sent_step_eq, sentBy_append, List.filter_append, List.map_append, h.out_eq,
      sentBy_handsOver]
    rfl

/-- The job of a task that waits may change: nothing was sent for it yet. -/
theorem Serves.setJob (h : c.Serves service) {task : ℕ} {t : Task}
    (ht : c.session.tasks[task]? = some t) (hwaiting : t.phase = .waiting) (job : Job P M)
    (hserved : IsServed service job) :
    { c with jobs := c.jobs.set task job }.Serves service := by
  have hother {n : ℕ} {text : String} (hn : n ≠ task) (hreplies : c.Replies service n text) :
      { c with jobs := c.jobs.set task job }.Replies service n text := by
    obtain ⟨job', hjob', hreply⟩ := hreplies
    exact ⟨job', by rw [← hjob']; exact List.getElem?_set_ne (Ne.symm hn), hreply⟩
  refine ⟨h.run, ?_, ?_, ?_, ?_, h.out_eq⟩
  · simpa using h.length_eq
  · intro job' hmem
    rcases List.mem_or_eq_of_mem_set hmem with hold | rfl
    · exact h.served job' hold
    · exact hserved
  · intro n t' text ht' hreply
    refine hother ?_ (h.holds n t' text ht' hreply)
    rintro rfl
    cases ht.symm.trans ht'
    rw [hwaiting] at hreply
    cases hreply
  · intro n text hsent
    refine hother ?_ (h.sent n text hsent)
    rintro rfl
    obtain ⟨t', ht', hsettled⟩ := h.inv.sent n text hsent
    cases ht.symm.trans ht'
    simp [Task.isSettled, hwaiting] at hsettled

theorem Serves.pollTask (h : c.Serves service) (task : ℕ)
    (answers : ℕ → Poll (Except Error Value)) :
    (c.pollTask service task answers).Serves service := by
  unfold Connection.pollTask
  split
  · rename_i t job ht hjob
    split
    · rename_i hwaiting
      have hserved := h.served job (List.mem_of_getElem? hjob)
      have hset (job' : Job P M) :
          { c with jobs := c.jobs.set task job' }.jobs[task]? = some job' :=
        List.getElem?_set_self (List.getElem?_eq_some_iff.mp hjob).1
      split
      · rename_i serving response returned hpoll
        have hnext : serving = job.serving.next answers := (congrArg Prod.fst hpoll).symm
        have hresponds := hserved.serving.responds (congrArg Prod.snd hpoll)
        have hserves := h.setJob ht hwaiting
          { job with serving, answered := some ⟨job.text, response, returned⟩ }
          ⟨hnext ▸ hserved.serving.next answers, by rintro _ ⟨⟩; exact ⟨rfl, hresponds⟩⟩
        refine hserves.sessionStep (l := .complete task (response.map (writeResponse service.json)))
          (by simp) ?_
        intro n text hl
        injection hl with htask hreply
        subst htask
        exact ⟨_, hset _, hreply⟩
      · rename_i serving hpoll
        have hnext : serving = job.serving.next answers := (congrArg Prod.fst hpoll).symm
        have hserves := h.setJob ht hwaiting { job with serving }
          ⟨hnext ▸ hserved.serving.next answers, hserved.answered⟩
        exact hserves.sessionStep (l := .pollLiveness task) (by simp) (by simp)
    · exact h
  · exact h

theorem Serves.spawn (h : c.Serves service) (halive : c.session.phase = .alive) (req : String)
    (metadata : M) : (c.spawn service req metadata).Serves service := by
  have hreplies {n : ℕ} {text : String} (hreplies : c.Replies service n text) :
      (c.spawn service req metadata).Replies service n text := by
    obtain ⟨job, hjob, hreply⟩ := hreplies
    refine ⟨job, ?_, hreply⟩
    rw [← hjob]
    exact List.getElem?_append_left (List.getElem?_eq_some_iff.mp hjob).1
  have hsent : (c.session.step (.onMessage true)).sent = c.session.sent := by
    rw [Session.sent_step_eq]
    exact List.append_nil _
  refine ⟨run_step (.onMessage true) h.run, ?_, ?_, ?_, ?_, ?_⟩
  · change (c.session.step (.onMessage true)).tasks.length = _
    rw [Session.length_step, if_pos ⟨halive, rfl⟩, h.length_eq]
    simp [Connection.spawn]
  · intro job hmem
    rcases List.mem_append.mp hmem with hold | hnew
    · exact h.served job hold
    · rw [List.mem_singleton.mp hnew]
      exact ⟨Serving.isOf_start, by simp⟩
  · intro n t text ht hreply
    rcases Session.reply_step ht hreply with ⟨t', ht', hreply'⟩ | hl
    · exact hreplies (h.holds n t' text ht' hreply')
    · cases hl
  · intro n text hmem
    change (n, text) ∈ (c.session.step (.onMessage true)).sent at hmem
    rw [hsent] at hmem
    exact hreplies (h.sent n text hmem)
  · intro n
    change sentBy (.task n) c.out = ((c.session.step (.onMessage true)).sent.filter _).map _
    rw [hsent]
    exact h.out_eq n

theorem Serves.step (h : c.Serves service) (label : Label) :
    (c.step service label).Serves service := by
  cases label with
  | request req =>
    unfold Connection.step
    dsimp only
    split
    · exact h.of_session rfl rfl fun _ => rfl
    · exact h
  | message msg =>
    unfold Connection.step
    dsimp only
    split
    · rename_i hopened
      have hreceived : Serves service { c with received := c.received ++ [msg] } :=
        h.of_session rfl rfl fun _ => rfl
      unfold Connection.onMessage
      split
      · exact hreceived
      · split
        · exact h.of_session rfl rfl fun _ => rfl
        · exact hreceived.spawn hopened.2 _ _
    · exact h
  | pollTask task answers => exact h.pollTask task answers
  | session l =>
    unfold Connection.step
    dsimp only
    split
    · rename_i hown
      refine h.sessionStep ?_ ?_
      · rintro rfl
        cases hown
      · rintro _ _ rfl
        cases hown
    · exact h
  | send sender isOk =>
    refine h.of_session rfl rfl fun task => ?_
    change sentBy _ (c.out ++ _) = _
    rw [sentBy_append, sentBy_map, if_neg (by simp), List.append_nil]
  | _ => exact h.of_session rfl rfl fun _ => rfl

theorem serves_after (S : Slab (Option ℕ)) (service : Service G L P M) (sessionId : SessionId)
    (labels : List Label) : (after S service sessionId labels).Serves service :=
  Runs.run_invariant (serves_new sessionId) (fun _ label h => h.step label) labels

/-- No task sends two messages. -/
theorem Serves.length_sentBy_le (h : c.Serves service) (task : ℕ) :
    (sentBy (.task task) c.out).length ≤ 1 := by
  obtain ⟨ls, hls⟩ := h.run
  have hnodup := Session.nodup_sent S ls
  rw [h.out_eq, List.length_map, hls]
  have hcount : ((Session.after S ls).sent.filter fun sent => sent.1 = task).length =
      ((Session.after S ls).sent.map Prod.fst).count task := by
    rw [List.count_eq_countP, List.countP_map, List.countP_eq_length_filter]
    simp [Function.comp_def, BEq.beq]
  rw [hcount]
  exact List.nodup_iff_count_le_one.mp hnodup task

end Serving

/-! ## Channels -/

section Forwarding

variable {service : Service G L P M} {c : Connection S G P M}

/-- A change of a channel changes this channel only, if it is there. -/
theorem sender_modifySender (c : Connection S G P M) (sender i : ℕ)
    (f : SenderFuture → SenderFuture) :
    (c.modifySender sender f).sender i = c.sender i ∧ (sender = i → c.sender i = .new) ∨
      sender = i ∧ (c.modifySender sender f).sender i = f (c.sender i) := by
  have heq : (c.modifySender sender f).sender i =
      (c.senders[i]?.map fun s => if sender = i then f s else s).getD .new := by
    change (c.senders.modify sender f)[i]?.getD .new = _
    rw [List.getElem?_modify]
    by_cases hsender : sender = i <;> simp [hsender]
  rw [heq]
  unfold Connection.sender
  cases c.senders[i]? with
  | none => exact .inl ⟨rfl, fun _ => rfl⟩
  | some s =>
    by_cases hsender : sender = i
    · exact .inr ⟨hsender, by simp [hsender]⟩
    · exact .inl ⟨by simp [hsender], fun h => absurd h hsender⟩

theorem sentBy_sender_sessionStep (l : Ws.Label) (i : ℕ) :
    sentBy (.sender i) (c.sessionStep l).out = sentBy (.sender i) c.out := by
  simp [sessionStep, sentBy, List.filter_map, Function.comp_def]

/-- A step of a connection is a step of one channel at most. -/
theorem sender_step (service : Service G L P M) (c : Connection S G P M) (label : Label) (i : ℕ) :
    ∃ sent, (c.sender i).Steps c.session.active ((c.step service label).sender i) sent ∧
      sentBy (.sender i) (c.step service label).out = sentBy (.sender i) c.out ++ sent := by
  have hsame {c' : Connection S G P M} (hsender : c'.sender i = c.sender i)
      (hout : sentBy (.sender i) c'.out = sentBy (.sender i) c.out) :
      ∃ sent, (c.sender i).Steps c.session.active (c'.sender i) sent ∧
        sentBy (.sender i) c'.out = sentBy (.sender i) c.out ++ sent :=
    ⟨[], hsender ▸ .same, by rw [hout, List.append_nil]⟩
  have hmodify (sender : ℕ) {f : SenderFuture → SenderFuture}
      (hf : (c.sender i).Steps c.session.active (f (c.sender i)) []) :
      ∃ sent, (c.sender i).Steps c.session.active ((c.modifySender sender f).sender i) sent ∧
        sentBy (.sender i) c.out = sentBy (.sender i) c.out ++ sent := by
    refine ⟨[], ?_, (List.append_nil _).symm⟩
    rcases c.sender_modifySender sender i f with ⟨heq, -⟩ | ⟨-, heq⟩
    · rw [heq]
      exact .same
    · rw [heq]
      exact hf
  cases label with
  | request req =>
    unfold step
    dsimp only
    split <;> exact hsame rfl rfl
  | message msg =>
    unfold step onMessage
    dsimp only
    split
    · split
      · exact hsame rfl rfl
      · split <;> exact hsame rfl rfl
    · exact hsame rfl rfl
  | pollTask task answers =>
    unfold step pollTask
    dsimp only
    split
    · split
      · split
        · exact hsame rfl (sentBy_sender_sessionStep _ i)
        · exact hsame rfl (sentBy_sender_sessionStep _ i)
      · exact hsame rfl rfl
    · exact hsame rfl rfl
  | session l =>
    unfold step
    dsimp only
    split
    · exact hsame rfl (sentBy_sender_sessionStep l i)
    · exact hsame rfl rfl
  | openSender =>
    refine hsame ?_ rfl
    change (c.senders ++ [.new])[i]?.getD .new = c.senders[i]?.getD .new
    rw [List.getElem?_append]
    split
    · rfl
    · rename_i hi
      have hnone : c.senders[i]? = none := List.getElem?_eq_none (by omega)
      rw [hnone]
      cases i - c.senders.length <;> rfl
  | push sender text => exact hmodify sender (.push text)
  | closeSender sender => exact hmodify sender .close
  | pollSender sender => exact hmodify sender .pollNext
  | checkSender sender => exact hmodify sender .checkActive
  | send sender isOk =>
    have hout : sentBy (.sender i) (c.send sender isOk).out = sentBy (.sender i) c.out ++
        if sender = i then if isOk then (c.sender sender).writes else [] else [] := by
      change sentBy _ (c.out ++ _) = _
      rw [sentBy_append, sentBy_map]
      simp
    rcases c.sender_modifySender sender i (SenderFuture.send isOk) with ⟨heq, hnew⟩ | ⟨rfl, heq⟩
    · refine hsame heq (hout.trans ?_)
      by_cases hsender : sender = i
      · subst hsender
        rw [hnew rfl]
        simp [SenderFuture.new, SenderFuture.writes]
      · simp [hsender]
    · refine ⟨_, ?_, hout⟩
      have hsteps : (c.sender sender).Steps c.session.active ((c.sender sender).send isOk) _ :=
        .send isOk
      rw [if_pos rfl]
      exact heq ▸ hsteps

/-- What is sent for a channel. -/
def Forwards (c : Connection S G P M) : Prop :=
  ∀ i, (c.sender i).Accounts (sentBy (.sender i) c.out)

theorem forwards_after (S : Slab (Option ℕ)) (service : Service G L P M) (sessionId : SessionId)
    (labels : List Label) : (after S service sessionId labels).Forwards := by
  refine Runs.run_invariant (fun _ => SenderFuture.accounts_new) ?_ labels
  intro c label h i
  obtain ⟨sent, hsteps, hout⟩ := c.sender_step service label i
  rw [hout]
  exact (h i).step hsteps

end Forwarding

/-! ## After the end of the session -/

section Closing

variable {service : Service G L P M} {c : Connection S G P M}

/-- The text that a source is about to hand to the connection. -/
def writes (c : Connection S G P M) : Source → List String
  | .task task => c.session.writes task
  | .sender sender => (c.sender sender).writes

theorem sentBy_task_sessionStep (l : Ws.Label) (task : ℕ) :
    sentBy (.task task) (c.sessionStep l).out =
      sentBy (.task task) c.out ++ c.session.handedBy l task := by
  rw [← sentBy_handsOver]
  exact sentBy_append _ _ _

/-- A step of a connection is a step of the session, or leaves the session alone. -/
theorem session_step (service : Service G L P M) (c : Connection S G P M) (label : Label) :
    ((c.step service label).session = c.session ∧
      ∀ task, sentBy (.task task) (c.step service label).out = sentBy (.task task) c.out) ∨
    ∃ l, (c.step service label).session = c.session.step l ∧
      ∀ task, sentBy (.task task) (c.step service label).out =
        sentBy (.task task) c.out ++ c.session.handedBy l task := by
  cases label with
  | request req =>
    left
    unfold step
    dsimp only
    split <;> exact ⟨rfl, fun _ => rfl⟩
  | message msg =>
    unfold step onMessage
    dsimp only
    split
    · split
      · exact .inl ⟨rfl, fun _ => rfl⟩
      · split
        · exact .inl ⟨rfl, fun _ => rfl⟩
        · exact .inr ⟨.onMessage true, rfl, fun _ => (List.append_nil _).symm⟩
    · exact .inl ⟨rfl, fun _ => rfl⟩
  | pollTask task answers =>
    unfold step pollTask
    dsimp only
    split
    · split
      · split
        · exact .inr ⟨_, rfl, sentBy_task_sessionStep _⟩
        · exact .inr ⟨_, rfl, sentBy_task_sessionStep _⟩
      · exact .inl ⟨rfl, fun _ => rfl⟩
    · exact .inl ⟨rfl, fun _ => rfl⟩
  | session l =>
    unfold step
    dsimp only
    split
    · exact .inr ⟨l, rfl, sentBy_task_sessionStep l⟩
    · exact .inl ⟨rfl, fun _ => rfl⟩
  | send sender isOk =>
    refine .inl ⟨rfl, fun task => ?_⟩
    change sentBy _ (c.out ++ _) = _
    rw [sentBy_append, sentBy_map, if_neg (by simp), List.append_nil]
  | _ => exact .inl ⟨rfl, fun _ => rfl⟩

theorem active_step (h : c.session.active = false) (label : Label) :
    (c.step service label).session.active = false := by
  rcases c.session_step service label with ⟨heq, -⟩ | ⟨l, heq, -⟩
  · rw [heq]
    exact h
  · rw [heq]
    exact Session.active_step h l

/-- While the session is not active, a source sends what it is about to send, and nothing
more. -/
theorem writes_step_of_inactive (hactive : c.session.active = false) (label : Label)
    (source : Source) :
    sentBy source (c.step service label).out ++ (c.step service label).writes source <+:
      sentBy source c.out ++ c.writes source := by
  cases source with
  | task task =>
    rcases c.session_step service label with ⟨hsession, hout⟩ | ⟨l, hsession, hout⟩
    · simp only [writes, hsession, hout]
      exact List.prefix_rfl
    · simp only [writes, hsession, hout, List.append_assoc]
      exact (List.prefix_append_right_inj _).mpr (Session.writes_step_of_inactive hactive l task)
  | sender i =>
    obtain ⟨sent, hsteps, hout⟩ := c.sender_step service label i
    rw [hactive] at hsteps
    simp only [writes, hout, List.append_assoc]
    exact (List.prefix_append_right_inj _).mpr hsteps.writes_of_inactive

end Closing

/-! ## Every run -/

/-- **Who is served.** In every run, a message is handled only after a handshake whose request
passed the checks that the middleware asks for, and that was answered with the status 101. The
texts among the messages are handled in their order, with the metadata that was extracted from
that request, which is always there. No task finds its place in the slab taken. -/
theorem handled_after_upgrade (S : Slab (Option ℕ)) (service : Service G L P M)
    (sessionId : SessionId) (labels : List Label) :
    let c := after S service sessionId labels
    c.panicked = false ∧ c.session.panicked = false ∧
      c.jobs.map Job.text = c.received.filterMap Message.asText ∧
      (c.received ≠ [] → ∃ req, c.OpenedBy service sessionId req ∧
        ∀ job ∈ c.jobs, job.metadata = service.metadataOf sessionId req) := by
  intro c
  have h : c.Entered service sessionId := entered_after S service sessionId labels
  refine ⟨h.panicked, (serves_after S service sessionId labels).inv.panicked, h.texts_eq, ?_⟩
  intro hreceived
  obtain ⟨req, hreq⟩ := h.opened (h.received hreceived)
  refine ⟨req, hreq, fun job hmem => ?_⟩
  have hmetadata := (h.metadata job hmem).symm.trans hreq.metadata_eq
  exact Option.some.inj hmetadata

/-- **What is sent.** In every run, a task sends at most one message, which is the response of
the handler to the message of the task. What is sent for a channel are the first texts that
were put into it, in their order, and while its future runs no text is lost. -/
theorem sent_responses (S : Slab (Option ℕ)) (service : Service G L P M) (sessionId : SessionId)
    (labels : List Label) :
    let c := after S service sessionId labels
    (∀ task, (sentBy (.task task) c.out).length ≤ 1) ∧
      (∀ task, ∀ text ∈ sentBy (.task task) c.out,
        ∃ (metadata : M) (answered : Answered P M) (response : Response),
          c.handshake.metadata = some metadata ∧
          (c.received.filterMap Message.asText)[task]? = some answered.request ∧
          answered.IsResponse service.json service.handler metadata ∧
          answered.response = some response ∧ text = writeResponse service.json response) ∧
      ∀ i s, c.senders[i]? = some s →
        sentBy (.sender i) c.out <+: s.pushed ∧
          (s.phase ≠ .finished → s.pushed = sentBy (.sender i) c.out ++ (s.held ++ s.queue)) := by
  intro c
  have h : c.Serves service := serves_after S service sessionId labels
  have hentered : c.Entered service sessionId := entered_after S service sessionId labels
  have hforwards : c.Forwards := forwards_after S service sessionId labels
  refine ⟨h.length_sentBy_le, fun task text hmem => ?_, fun i s hs => ?_⟩
  · rw [h.out_eq] at hmem
    obtain ⟨⟨task', text'⟩, hfiltered, rfl⟩ := List.mem_map.mp hmem
    obtain ⟨hsent, htask⟩ := List.mem_filter.mp hfiltered
    obtain rfl : task' = task := by simpa using htask
    obtain ⟨job, hjob, hreply⟩ := h.sent task' text' hsent
    obtain ⟨response, hresponse, rfl⟩ := Option.map_eq_some_iff.mp hreply
    obtain ⟨answered, hanswered, hresponse⟩ := Option.bind_eq_some_iff.mp hresponse
    have hmem := List.mem_of_getElem? hjob
    obtain ⟨hrequest, hisResponse⟩ := (h.served job hmem).answered answered hanswered
    refine ⟨job.metadata, answered, response, hentered.metadata job hmem, ?_, hisResponse,
      hresponse, rfl⟩
    change c.texts[task']? = _
    rw [← hentered.texts_eq, List.getElem?_map, hjob, hrequest]
    rfl
  · obtain ⟨rest, hpushed, hrest⟩ := hforwards i
    have hsender : c.sender i = s := by rw [Connection.sender, hs]; rfl
    rw [hsender] at hpushed hrest
    refine ⟨⟨rest, hpushed⟩, fun hphase => ?_⟩
    rw [← hpushed, hrest hphase]

/-- **Nothing new after the end.** When the session is not active, because it was dropped or
because a send has found it closed, every task and every channel sends at most the one text that
it was about to hand over, whatever happens after. -/
theorem sent_after_close (S : Slab (Option ℕ)) (service : Service G L P M) (sessionId : SessionId)
    (before rest : List Label) (source : Source)
    (hactive : (after S service sessionId before).session.active = false) :
    sentBy source (after S service sessionId (before ++ rest)).out <+:
      sentBy source (after S service sessionId before).out ++
        (after S service sessionId before).writes source := by
  have hrun : (after S service sessionId (before ++ rest)).session.active = false ∧
      sentBy source (after S service sessionId (before ++ rest)).out ++
          (after S service sessionId (before ++ rest)).writes source <+:
        sentBy source (after S service sessionId before).out ++
          (after S service sessionId before).writes source := by
    rw [after, Runs.run_append]
    refine Runs.run_invariant (I := fun c : Connection S G P M => c.session.active = false ∧
      sentBy source c.out ++ c.writes source <+: _) ⟨hactive, List.prefix_rfl⟩ ?_ rest
    rintro c label ⟨hactive, hinitial⟩
    exact ⟨active_step hactive label, (writes_step_of_inactive hactive label source).trans hinitial⟩
  exact (List.prefix_append _ _).trans hrun.2

end Connection

/-! ## A connection that is closed -/

/-- A library of websockets whose responses are their status. -/
def statusLibrary : Library where
  Response := ℕ
  new code _ _ := code
  pushHeader response _ _ := response
  setProtocol response _ := response
  fromRequest _ := .ok 101
  status := id
  status_new _ _ _ := rfl
  status_pushHeader _ _ _ := rfl

/-- A server that everybody may use. -/
def openService {P : Type} (json : SerdeJson) (handler : MetaIoHandler P) :
    Service literalGlobset statusLibrary P Unit where
  unicode := asciiUnicode
  metaExtractor _ := ()
  allowedOrigins := none
  allowedHosts := none
  requestMiddleware := none
  json
  handler

/-- The request of a peer without an origin. -/
def plainRequest : Request := ⟨fun _ => none, .ok []⟩

/-- The session is dropped while one text is about to be sent and another one waits. -/
def closedEarly : List Connection.Label :=
  [.request plainRequest, .openSender, .push 0 "first", .push 0 "second", .pollSender 0,
    .checkSender 0, .session .close]

theorem Connection.sent_after_close_early :
    let service := openService (.ofTable []) (MetaIoHandler.withCompatibility (P := Unit) .both)
    let rest := [.send 0 true, .pollSender 0, .checkSender 0, .send 0 true]
    let c := Connection.after (.vec _) service 1 (closedEarly ++ rest)
    sentBy (.sender 0) c.out = ["first"] ∧ sentBy (.sender 0) c.out <+: [] ++ ["first"] :=
  ⟨by decide, Connection.sent_after_close (.vec _)
    (openService (.ofTable []) (MetaIoHandler.withCompatibility .both)) 1 closedEarly _ (.sender 0)
    (by decide)⟩

end JsonRpc.Ws
