import JsonRpc.Ws.Liveness

/-!
# Progress of the tasks of a session

What a step of a session does to a task is said once: which phase may come after which, and
what the session has to be like for it. So a text reaches a task only with its response, is
handed to the connection once, and goes no further when the session is not active.
-/

namespace JsonRpc.Ws

/-- The response that a task holds. -/
def TaskPhase.reply : TaskPhase → Option String
  | checking response | writing response => some response
  | _ => none

/-- How a task may go on when a step of a session happens. -/
inductive TaskPhase.Advances (active : Bool) (l : Label) (task : ℕ) : TaskPhase → TaskPhase → Prop
  | same {phase : TaskPhase} (h : l = .send task → ∀ result, phase ≠ .writing result) :
      Advances active l task phase phase
  | respond {result : String} (hl : l = .complete task (some result)) (hactive : active = true) :
      Advances active l task .waiting (.checking result)
  | giveUp : Advances active l task .waiting .finished
  | check {result : String} (hactive : active = true) :
      Advances active l task (.checking result) (.writing result)
  | refuse {result : String} : Advances active l task (.checking result) .reporting
  | send {result : String} (hl : l = .send task) :
      Advances active l task (.writing result) .finished
  | report : Advances active l task .reporting .finished
  | drop {phase : TaskPhase} : Advances active l task phase .dropped

namespace Task

open TaskPhase (Advances)

variable {task : ℕ}

theorem advances_complete (active : Bool) (response : Option String) (t : Task) :
    Advances active (.complete task response) task t.phase (t.complete active response).phase := by
  cases hphase : t.phase with
  | waiting =>
    cases response with
    | none =>
      simp only [complete, hphase]
      exact .giveUp
    | some result =>
      cases hactive : active with
      | true =>
        simp only [complete, hphase]
        exact .respond rfl rfl
      | false =>
        simp only [complete, hphase]
        exact .giveUp
  | _ =>
    simp only [complete, hphase]
    exact .same (fun h => by cases h)

theorem advances_checkActive (active : Bool) (t : Task) :
    Advances active (.checkActive task) task t.phase (t.checkActive active).phase := by
  cases hphase : t.phase with
  | checking result =>
    cases hactive : active with
    | true =>
      simp only [checkActive, hphase]
      exact .check rfl
    | false =>
      simp only [checkActive, hphase]
      exact .refuse
  | _ =>
    simp only [checkActive, hphase]
    exact .same (fun h => by cases h)

theorem advances_send (active : Bool) (t : Task) :
    Advances active (.send task) task t.phase t.send.phase := by
  cases hphase : t.phase with
  | writing result =>
    simp only [send, hphase]
    exact .send rfl
  | _ =>
    simp only [send, hphase]
    exact .same (fun _ _ h => by cases h)

theorem advances_storeInactive (active : Bool) (t : Task) :
    Advances active (.storeInactive task) task t.phase t.storeInactive.phase := by
  cases hphase : t.phase with
  | reporting =>
    simp only [storeInactive, hphase]
    exact .report
  | _ =>
    simp only [storeInactive, hphase]
    exact .same (fun h => by cases h)

theorem advances_pollLiveness (active : Bool) (t : Task) :
    Advances active (.pollLiveness task) task t.phase t.pollLiveness.phase := by
  unfold pollLiveness
  split
  · rename_i hphase
    split
    · rw [hphase]
      exact .giveUp
    · exact .same (fun h => by cases h)
  · exact .same (fun h => by cases h)

end Task

namespace Session

open TaskPhase (Advances)

variable {S : Slab (Option ℕ)} {σ : Session S}

/-- The response that a task is about to hand to the connection. -/
def writes (σ : Session S) (task : ℕ) : List String := σ.tasks[task]?.toList.flatMap Task.sends

/-- The responses that a step hands to the connection. -/
def handsOver (σ : Session S) : Label → List (ℕ × String)
  | .send task => (σ.writes task).map (task, ·)
  | _ => []

theorem sent_step_eq (σ : Session S) (l : Label) : (σ.step l).sent = σ.sent ++ σ.handsOver l := by
  cases l with
  | send task => rfl
  | dropTask task =>
    change (σ.dropTask task).sent = _
    rcases σ.dropTask_eq task with hdrop | ⟨taskSlab, panicked, hdrop⟩ <;>
      simp [hdrop, handsOver, modifyTask]
  | onMessage | storeInactive | close | signal =>
    unfold step
    dsimp only
    split <;> simp [handsOver, spawn, modifyTask, Session.signal]
  | complete | checkActive | pollLiveness | push => simp [step, handsOver, modifyTask]

/-- Only a message starts a task. -/
theorem length_step (σ : Session S) (l : Label) :
    (σ.step l).tasks.length =
      σ.tasks.length + if σ.phase = .alive ∧ l = .onMessage true then 1 else 0 := by
  cases l with
  | onMessage isText =>
    unfold step
    cases isText <;> by_cases halive : σ.phase = .alive <;> simp [halive, spawn]
  | dropTask task =>
    change (σ.dropTask task).tasks.length = _
    rcases σ.dropTask_eq task with hdrop | ⟨taskSlab, panicked, hdrop⟩ <;>
      simp [hdrop, modifyTask]
  | storeInactive | close | signal =>
    unfold step
    dsimp only
    split <;> simp [modifyTask, Session.signal]
  | complete | checkActive | send | pollLiveness | push => simp [step, modifyTask]

/-- A step that changes one task. -/
theorem advances_modifyTask {l : Label} {task n : ℕ} {f : Task → Task} {t' : Task}
    (hf : ∀ t : Task, Advances σ.active l task t.phase (f t).phase)
    (hother : task ≠ n → l ≠ .send n) (ht' : (σ.modifyTask task f).tasks[n]? = some t') :
    ∃ t, σ.tasks[n]? = some t ∧ Advances σ.active l n t.phase t'.phase := by
  rw [getElem?_modifyTask] at ht'
  obtain ⟨t, ht, rfl⟩ := Option.map_eq_some_iff.mp ht'
  refine ⟨t, ht, ?_⟩
  split
  · rename_i hn
    subst hn
    exact hf t
  · rename_i hn
    exact .same (fun hl => absurd hl (hother hn))

/-- **Progress.** A task after a step is one that was there before and has gone on, or it is the
one that a message has started. -/
theorem advances_step {l : Label} {n : ℕ} {t' : Task} (ht' : (σ.step l).tasks[n]? = some t') :
    (∃ t, σ.tasks[n]? = some t ∧ Advances σ.active l n t.phase t'.phase) ∨
      n = σ.tasks.length ∧ l = .onMessage true ∧ t'.phase = .waiting := by
  have hsame (h : σ.tasks[n]? = some t') (hl : l ≠ .send n) :
      ∃ t, σ.tasks[n]? = some t ∧ Advances σ.active l n t.phase t'.phase :=
    ⟨t', h, .same fun heq => absurd heq hl⟩
  cases l with
  | onMessage isText =>
    unfold step at ht'
    dsimp only at ht'
    split at ht'
    · rename_i halive
      rw [getElem?_spawn] at ht'
      split at ht'
      · rename_i hn
        cases ht'
        exact .inr ⟨hn, by rw [halive.2], rfl⟩
      · exact .inl (hsame ht' (by simp))
    · exact .inl (hsame ht' (by simp))
  | complete task response =>
    exact .inl (advances_modifyTask (Task.advances_complete σ.active response) (by simp) ht')
  | checkActive task =>
    exact .inl (advances_modifyTask (Task.advances_checkActive σ.active) (by simp) ht')
  | send task =>
    exact .inl (advances_modifyTask (Task.advances_send σ.active) (by simp) ht')
  | storeInactive task =>
    unfold step at ht'
    dsimp only at ht'
    split at ht'
    · exact .inl (advances_modifyTask (Task.advances_storeInactive σ.active) (by simp) ht')
    · exact .inl (hsame ht' (by simp))
  | pollLiveness task =>
    exact .inl (advances_modifyTask (Task.advances_pollLiveness σ.active) (by simp) ht')
  | dropTask task =>
    change (σ.dropTask task).tasks[n]? = some t' at ht'
    rcases σ.dropTask_eq task with hdrop | ⟨taskSlab, panicked, hdrop⟩
    · rw [hdrop] at ht'
      exact .inl (hsame ht' (by simp))
    · rw [hdrop] at ht'
      exact .inl (advances_modifyTask (f := Task.drop) (fun _ => .drop) (by simp) ht')
  | push => exact .inl (hsame ht' (by simp))
  | close =>
    unfold step at ht'
    dsimp only at ht'
    split at ht' <;> exact .inl (hsame ht' (by simp))
  | signal =>
    unfold step at ht'
    dsimp only at ht'
    split at ht'
    · rw [getElem?_signal] at ht'
      obtain ⟨t, ht, rfl⟩ := Option.map_eq_some_iff.mp ht'
      exact .inl ⟨t, ht, .same (fun h => by cases h)⟩
    · exact .inl (hsame ht' (by simp))

/-- A task holds a response that it has held before, or that it has just got. -/
theorem reply_step {l : Label} {n : ℕ} {t' : Task} {result : String}
    (ht' : (σ.step l).tasks[n]? = some t') (hreply : t'.phase.reply = some result) :
    (∃ t, σ.tasks[n]? = some t ∧ t.phase.reply = some result) ∨ l = .complete n (some result) := by
  rcases advances_step ht' with ⟨t, ht, hadvances⟩ | ⟨-, -, hwaiting⟩
  · generalize t'.phase = phase' at hadvances hreply
    generalize hphase : t.phase = phase at hadvances
    cases hadvances with
    | same => exact .inl ⟨t, ht, hphase ▸ hreply⟩
    | respond hl =>
      cases hreply
      exact .inr hl
    | check => exact .inl ⟨t, ht, hphase ▸ hreply⟩
    | giveUp | refuse | send | report | drop => cases hreply
  · rw [hwaiting] at hreply
    cases hreply

/-- A task hands over the response that it holds, and only one that is not settled. -/
theorem of_mem_handsOver {l : Label} {n : ℕ} {result : String}
    (h : (n, result) ∈ σ.handsOver l) :
    ∃ t, σ.tasks[n]? = some t ∧ t.phase.reply = some result ∧ t.isSettled = false := by
  cases l with
  | send task =>
    simp only [handsOver, writes, List.mem_map, List.mem_flatMap, Option.mem_toList] at h
    obtain ⟨result', ⟨t, ht, hresult'⟩, heq⟩ := h
    cases heq
    refine ⟨t, ht, ?_⟩
    cases hphase : t.phase <;>
      simp [Task.sends, Task.isSettled, TaskPhase.reply, hphase] at hresult' ⊢
    exact hresult'.symm
  | _ => cases h

/-- A step hands over at most one response. -/
theorem nodup_handsOver (σ : Session S) (l : Label) : ((σ.handsOver l).map Prod.fst).Nodup := by
  cases l with
  | send task =>
    simp only [handsOver, writes, List.map_map]
    cases σ.tasks[task]? with
    | none => simp
    | some t => cases hphase : t.phase <;> simp [Task.sends, hphase]
  | _ => exact List.nodup_nil

/-- No task sends two responses. -/
theorem nodup_sent (S : Slab (Option ℕ)) (ls : List Label) :
    ((after S ls).sent.map Prod.fst).Nodup := by
  have hinv : (after S ls).Inv ∧ ((after S ls).sent.map Prod.fst).Nodup := by
    refine Runs.run_invariant (I := fun σ : Session S => σ.Inv ∧ (σ.sent.map Prod.fst).Nodup)
      ⟨inv_new S, List.nodup_nil⟩ ?_ ls
    rintro σ l ⟨hinv, hnodup⟩
    refine ⟨hinv.step l, ?_⟩
    rw [sent_step_eq, List.map_append]
    refine List.Nodup.append hnodup (σ.nodup_handsOver l) ?_
    intro n hold hnew
    obtain ⟨⟨_, result⟩, hsent, rfl⟩ := List.mem_map.mp hold
    obtain ⟨⟨_, result'⟩, hhands, rfl⟩ := List.mem_map.mp hnew
    obtain ⟨t, ht, hsettled⟩ := hinv.sent _ _ hsent
    obtain ⟨t', ht', -, hnot⟩ := of_mem_handsOver hhands
    cases ht.symm.trans ht'
    rw [hsettled] at hnot
    cases hnot
  exact hinv.2

/-- What a step hands over for a task. -/
def handedBy (σ : Session S) (l : Label) (task : ℕ) : List String :=
  ((σ.handsOver l).filter fun sent => sent.1 = task).map Prod.snd

theorem handedBy_eq (σ : Session S) (l : Label) (n : ℕ) :
    σ.handedBy l n = if l = .send n then σ.writes n else [] := by
  cases l with
  | send task =>
    by_cases hn : task = n
    · subst hn
      simp [handedBy, handsOver, List.filter_map, Function.comp_def]
    · simp [handedBy, handsOver, List.filter_map, Function.comp_def, hn]
  | _ => simp [handedBy, handsOver]

/-- While the session is not active, no task gets further than to what it is about to hand
over. -/
theorem writes_step_of_inactive (hactive : σ.active = false) (l : Label) (n : ℕ) :
    σ.handedBy l n ++ (σ.step l).writes n <+: σ.writes n := by
  have hwrites : (σ.step l).writes n = [] ∨
      l ≠ .send n ∧ (σ.step l).writes n = σ.writes n := by
    cases ht' : (σ.step l).tasks[n]? with
    | none => exact .inl (by simp [writes, ht'])
    | some t' =>
      rcases advances_step ht' with ⟨t, ht, hadvances⟩ | ⟨-, -, hwaiting⟩
      · simp only [writes, ht', ht, Option.toList_some, List.flatMap_cons, List.flatMap_nil,
          List.append_nil, Task.sends]
        generalize t'.phase = phase' at hadvances
        generalize t.phase = phase at hadvances
        cases hadvances with
        | same hsend =>
          by_cases hl : l = .send n
          · have hphase := hsend hl
            cases phase' with
            | writing result => exact absurd rfl (hphase result)
            | _ => exact .inl rfl
          · exact .inr ⟨hl, rfl⟩
        | check hactive' => cases hactive.symm.trans hactive'
        | _ => exact .inl rfl
      · exact .inl (by simp [writes, ht', Task.sends, hwaiting])
  rw [handedBy_eq]
  rcases hwrites with hnil | ⟨hl, heq⟩
  · rw [hnil, List.append_nil]
    split
    · exact List.prefix_rfl
    · exact List.nil_prefix
  · rw [if_neg hl, heq]
    exact List.prefix_rfl

end Session

end JsonRpc.Ws
