import JsonRpc.Ws.Session

/-!
# Liveness of sessions

The slab of a session has one entry for each task that is there, under the key that the task
was given. The invariant names the entry of each task. It has the sender of the task until the
session is dropped, and no sender afterwards.
-/

namespace JsonRpc.Ws

namespace Task

/-- A task goes on, with its `LivenessPoll` as it is. -/
structure GoesOn (t t' : Task) : Prop where
  slabHandle : t'.slabHandle = t.slabHandle
  signals : t'.signals = t.signals
  isLive : t'.isLive = t.isLive
  settled : t.isSettled = true → t' = t

theorem GoesOn.refl (t : Task) : t.GoesOn t := ⟨rfl, rfl, rfl, fun _ => rfl⟩

theorem GoesOn.of_phase {t : Task} {phase : TaskPhase} (ht : t.isSettled = false)
    (hphase : phase ≠ .dropped) : t.GoesOn { t with phase } where
  slabHandle := rfl
  signals := rfl
  isLive := by
    have hlive : t.phase ≠ .dropped := by
      intro hdropped
      simp [isSettled, hdropped] at ht
    simp [Task.isLive, hlive, hphase]
  settled hsettled := by
    rw [ht] at hsettled
    cases hsettled

theorem goesOn_complete (active : Bool) (response : Option String) (t : Task) :
    t.GoesOn (t.complete active response) := by
  unfold complete
  split
  · rename_i hwaiting
    exact .of_phase (by simp [isSettled, hwaiting]) (by cases active <;> simp)
  · rename_i hwaiting
    exact .of_phase (by simp [isSettled, hwaiting]) (by simp)
  · exact .refl t

theorem goesOn_checkActive (active : Bool) (t : Task) : t.GoesOn (t.checkActive active) := by
  unfold checkActive
  split
  · rename_i hchecking
    exact .of_phase (by simp [isSettled, hchecking]) (by cases active <;> simp)
  · exact .refl t

theorem goesOn_send (t : Task) : t.GoesOn t.send := by
  unfold send
  split
  · rename_i hwriting
    exact .of_phase (by simp [isSettled, hwriting]) (by simp)
  · exact .refl t

theorem goesOn_storeInactive (t : Task) : t.GoesOn t.storeInactive := by
  unfold storeInactive
  split
  · rename_i hreporting
    exact .of_phase (by simp [isSettled, hreporting]) (by simp)
  · exact .refl t

theorem goesOn_pollLiveness (t : Task) : t.GoesOn t.pollLiveness := by
  unfold pollLiveness
  split
  · rename_i hwaiting
    split
    · exact .of_phase (by simp [isSettled, hwaiting]) (by simp)
    · exact .refl t
  · exact .refl t

end Task

namespace Session

variable {S : Slab (Option ℕ)}

/-- The entry of a task in the slab. -/
def owner (σ : Session S) (task : ℕ) : Option (ℕ × Option ℕ) :=
  match σ.tasks[task]? with
  | some t =>
    if t.isLive then some (t.slabHandle, if σ.phase = .dropped then none else some task) else none
  | none => none

/-- What holds in every run. -/
structure Inv (σ : Session S) : Prop where
  custody : S.Custody σ.taskSlab σ.owner
  signals : ∀ (task : ℕ) (t : Task), σ.tasks[task]? = some t → t.isLive = true →
    t.signals = if σ.phase = .dropped then 1 else 0
  signals_le : ∀ (task : ℕ) (t : Task), σ.tasks[task]? = some t →
    t.signals ≤ if σ.phase = .dropped then 1 else 0
  active : σ.phase ≠ .alive → σ.active = false
  panicked : σ.panicked = false
  sent : ∀ (task : ℕ) (result : String), (task, result) ∈ σ.sent →
    ∃ t, σ.tasks[task]? = some t ∧ t.isSettled = true

theorem inv_new (S : Slab (Option ℕ)) : (new S).Inv where
  custody := Slab.custody_new
  signals _ _ ht := by cases ht
  signals_le _ _ ht := by cases ht
  active halive := absurd rfl halive
  panicked := rfl
  sent _ _ hsent := by cases hsent

variable {σ : Session S}

theorem owner_eq_some {task k : ℕ} {a : Option ℕ} :
    σ.owner task = some (k, a) ↔ ∃ t, σ.tasks[task]? = some t ∧ t.isLive = true ∧
      t.slabHandle = k ∧ a = if σ.phase = .dropped then none else some task := by
  unfold owner
  constructor
  · intro howner
    split at howner
    · rename_i t ht
      obtain ⟨hlive, heq⟩ := Option.ite_none_right_eq_some.mp howner
      cases heq
      exact ⟨t, ht, hlive, rfl, rfl⟩
    · cases howner
  · rintro ⟨t, ht, hlive, rfl, rfl⟩
    simp [ht, hlive]

theorem getElem?_modifyTask (σ : Session S) (task n : ℕ) (f : Task → Task) :
    (σ.modifyTask task f).tasks[n]? = σ.tasks[n]?.map fun t => if task = n then f t else t := by
  change (σ.tasks.modify task f)[n]? = _
  rw [List.getElem?_modify]
  split <;> cases σ.tasks[n]? <;> rfl

/-! ## Steps of a task -/

theorem goesOn_modifyTask {f : Task → Task} (hf : ∀ t : Task, t.GoesOn (f t)) (σ : Session S)
    (task n : ℕ) (t' : Task) (ht' : (σ.modifyTask task f).tasks[n]? = some t') :
    ∃ t, σ.tasks[n]? = some t ∧ t.GoesOn t' := by
  rw [getElem?_modifyTask] at ht'
  obtain ⟨t, ht, rfl⟩ := Option.map_eq_some_iff.mp ht'
  refine ⟨t, ht, ?_⟩
  split
  · exact hf t
  · exact .refl t

theorem owner_modifyTask {f : Task → Task} (hf : ∀ t : Task, t.GoesOn (f t)) (σ : Session S)
    (task : ℕ) : (σ.modifyTask task f).owner = σ.owner := by
  funext n
  unfold owner
  rw [getElem?_modifyTask]
  cases σ.tasks[n]? with
  | none => rfl
  | some t =>
    by_cases hn : task = n
    · simp only [Option.map_some, if_pos hn, (hf t).isLive, (hf t).slabHandle]
      rfl
    · simp only [Option.map_some, if_neg hn]
      rfl

theorem settled_modifyTask {f : Task → Task} (hf : ∀ t : Task, t.GoesOn (f t)) (task : ℕ) {n : ℕ}
    (h : ∃ t, σ.tasks[n]? = some t ∧ t.isSettled = true) :
    ∃ t, (σ.modifyTask task f).tasks[n]? = some t ∧ t.isSettled = true := by
  obtain ⟨t, ht, hsettled⟩ := h
  refine ⟨t, ?_, hsettled⟩
  rw [getElem?_modifyTask, ht]
  by_cases hn : task = n <;> simp [hn, (hf t).settled hsettled]

theorem Inv.modifyTask (hinv : σ.Inv) (task : ℕ) {f : Task → Task}
    (hf : ∀ t : Task, t.GoesOn (f t)) : (σ.modifyTask task f).Inv where
  custody := by
    rw [owner_modifyTask hf]
    exact hinv.custody
  signals n t' ht' hlive := by
    obtain ⟨t, ht, hgoesOn⟩ := goesOn_modifyTask hf σ task n t' ht'
    rw [hgoesOn.signals]
    exact hinv.signals n t ht (hgoesOn.isLive ▸ hlive)
  signals_le n t' ht' := by
    obtain ⟨t, ht, hgoesOn⟩ := goesOn_modifyTask hf σ task n t' ht'
    rw [hgoesOn.signals]
    exact hinv.signals_le n t ht
  active := hinv.active
  panicked := hinv.panicked
  sent n result hsent := settled_modifyTask hf task (hinv.sent n result hsent)

/-- A response is sent by a task that then has nothing to do any more. -/
theorem Inv.send (hinv : σ.Inv) (task : ℕ) : (σ.step (.send task)).Inv := by
  have hmoved := hinv.modifyTask task Task.goesOn_send
  refine ⟨hmoved.custody, hmoved.signals, hmoved.signals_le, hmoved.active, hmoved.panicked,
    fun n result hsent => ?_⟩
  rcases List.mem_append.mp hsent with hold | hnew
  · exact hmoved.sent n result hold
  · simp only [List.mem_map, List.mem_flatMap, Option.mem_toList] at hnew
    obtain ⟨result', ⟨t, ht, hresult'⟩, heq⟩ := hnew
    cases heq
    have ht : σ.tasks[task]? = some t := ht
    refine ⟨t.send, ?_, ?_⟩
    · change (σ.modifyTask task Task.send).tasks[task]? = _
      simp [getElem?_modifyTask, ht]
    · cases hphase : t.phase <;> simp [Task.sends, Task.send, Task.isSettled, hphase] at hresult' ⊢

theorem Inv.storeInactive (hinv : σ.Inv) (task : ℕ) : (σ.step (.storeInactive task)).Inv := by
  have hmoved := hinv.modifyTask task Task.goesOn_storeInactive
  unfold step
  dsimp only
  split
  · exact ⟨hmoved.custody, hmoved.signals, hmoved.signals_le, fun _ => rfl, hmoved.panicked,
      hmoved.sent⟩
  · exact hinv

/-! ## Keys of the slab -/

theorem getElem?_spawn (σ : Session S) (n : ℕ) :
    σ.spawn.tasks[n]? =
      if n = σ.tasks.length then some ⟨(S.insert σ.taskSlab (some n)).1, .waiting, 0⟩
      else σ.tasks[n]? := by
  change (σ.tasks ++ [_])[n]? = _
  split
  · rename_i hn
    subst hn
    exact List.getElem?_concat_length
  · by_cases hlt : n < σ.tasks.length
    · exact List.getElem?_append_left hlt
    · rw [List.getElem?_eq_none (by simp; omega), List.getElem?_eq_none (by omega)]

theorem settled_spawn {n : ℕ} (h : ∃ t, σ.tasks[n]? = some t ∧ t.isSettled = true) :
    ∃ t, σ.spawn.tasks[n]? = some t ∧ t.isSettled = true := by
  obtain ⟨t, ht, hsettled⟩ := h
  refine ⟨t, ?_, hsettled⟩
  rw [getElem?_spawn, if_neg, ht]
  rintro rfl
  rw [List.getElem?_eq_none (Nat.le_refl _)] at ht
  cases ht

/-- A new task has the key that the slab gives it. -/
theorem owner_spawn (halive : σ.phase = .alive) :
    σ.spawn.owner = Function.update σ.owner σ.tasks.length
      (some ((S.insert σ.taskSlab (some σ.tasks.length)).1, some σ.tasks.length)) := by
  funext n
  unfold owner
  rw [getElem?_spawn]
  by_cases hn : n = σ.tasks.length
  · subst hn
    rw [if_pos rfl, Function.update_self]
    simp [Task.isLive, spawn, halive]
  · rw [if_neg hn, Function.update_of_ne hn]
    rfl

theorem Inv.spawn (hinv : σ.Inv) (halive : σ.phase = .alive) : σ.spawn.Inv := by
  have howner : σ.owner σ.tasks.length = none := by
    rw [owner, List.getElem?_eq_none (Nat.le_refl _)]
  have hzero : ∀ (n : ℕ) (t : Task), σ.spawn.tasks[n]? = some t → t.signals = 0 := by
    intro n t ht
    rw [getElem?_spawn] at ht
    split at ht
    · cases ht
      rfl
    · have hle := hinv.signals_le n t ht
      rw [halive] at hle
      exact Nat.le_zero.mp hle
  have hphase : σ.spawn.phase ≠ .dropped := by simp [Session.spawn, halive]
  refine ⟨?_, fun n t ht _ => ?_, fun n t ht => ?_, hinv.active, hinv.panicked,
    fun n result hsent => settled_spawn (hinv.sent n result hsent)⟩
  · rw [owner_spawn halive]
    exact hinv.custody.insert howner _
  · rw [if_neg hphase]
    exact hzero n t ht
  · rw [hzero n t ht]
    exact Nat.zero_le _

/-- To drop a task changes this task, the slab and whether there was a panic. -/
theorem dropTask_eq (σ : Session S) (task : ℕ) :
    σ.dropTask task = σ ∨ ∃ taskSlab panicked,
      σ.dropTask task = { σ.modifyTask task Task.drop with taskSlab, panicked } := by
  unfold dropTask
  split
  · split
    · split
      · exact .inr ⟨_, _, rfl⟩
      · exact .inr ⟨_, _, rfl⟩
    · exact .inl rfl
  · exact .inl rfl

theorem owner_modifyTask_drop (σ : Session S) (task : ℕ) :
    (σ.modifyTask task Task.drop).owner = Function.update σ.owner task none := by
  funext n
  unfold owner
  rw [getElem?_modifyTask]
  by_cases hn : n = task
  · subst hn
    rw [Function.update_self]
    cases σ.tasks[n]? <;> simp [Task.drop, Task.isLive]
  · rw [Function.update_of_ne hn]
    cases σ.tasks[n]? with
    | none => rfl
    | some t =>
      simp only [Option.map_some, if_neg (Ne.symm hn)]
      rfl

theorem settled_modifyTask_drop (task : ℕ) {n : ℕ}
    (h : ∃ t, σ.tasks[n]? = some t ∧ t.isSettled = true) :
    ∃ t, (σ.modifyTask task Task.drop).tasks[n]? = some t ∧ t.isSettled = true := by
  obtain ⟨t, ht, hsettled⟩ := h
  refine ⟨if task = n then t.drop else t, ?_, ?_⟩
  · rw [getElem?_modifyTask, ht]
    rfl
  · split
    · rfl
    · exact hsettled

theorem settled_dropTask (task : ℕ) {n : ℕ}
    (h : ∃ t, σ.tasks[n]? = some t ∧ t.isSettled = true) :
    ∃ t, (σ.dropTask task).tasks[n]? = some t ∧ t.isSettled = true := by
  rcases σ.dropTask_eq task with hdrop | ⟨taskSlab, panicked, hdrop⟩
  · rw [hdrop]
    exact h
  · rw [hdrop]
    exact settled_modifyTask_drop task h

/-- A task that is dropped finds its key in the slab. -/
theorem Inv.dropTask (hinv : σ.Inv) (task : ℕ) : (σ.dropTask task).Inv := by
  unfold Session.dropTask
  split
  · rename_i t ht
    split
    · rename_i hlive
      obtain ⟨taskSlab, hremove, hcustody⟩ :=
        hinv.custody.remove (owner_eq_some.mpr ⟨t, ht, hlive, rfl, rfl⟩)
      rw [hremove]
      dsimp only
      have hcases : ∀ (n : ℕ) (t' : Task), (σ.modifyTask task Task.drop).tasks[n]? = some t' →
          ∃ t, σ.tasks[n]? = some t ∧ t'.signals = t.signals ∧ (t'.isLive = true → t' = t) := by
        intro n t' ht'
        rw [getElem?_modifyTask] at ht'
        obtain ⟨t, ht, rfl⟩ := Option.map_eq_some_iff.mp ht'
        refine ⟨t, ht, ?_⟩
        split
        · exact ⟨rfl, fun hlive => by cases hlive⟩
        · exact ⟨rfl, fun _ => rfl⟩
      refine ⟨?_, fun n t' ht' hlive' => ?_, fun n t' ht' => ?_, hinv.active, hinv.panicked,
        fun n result hsent => settled_modifyTask_drop task (hinv.sent n result hsent)⟩
      · rw [← owner_modifyTask_drop] at hcustody
        exact hcustody
      · obtain ⟨t, ht, -, hsame⟩ := hcases n t' ht'
        cases hsame hlive'
        exact hinv.signals n t' ht hlive'
      · obtain ⟨t, ht, hsignals, -⟩ := hcases n t' ht'
        rw [hsignals]
        exact hinv.signals_le n t ht
    · exact hinv
  · exact hinv

/-! ## Signals -/

/-- A sender in the slab is that of the task whose key it has. -/
theorem Inv.owner_of_sender (hinv : σ.Inv) {k task : ℕ}
    (hk : (S.get σ.taskSlab k).join = some task) : σ.owner task = some (k, some task) := by
  obtain ⟨n, hn⟩ := hinv.custody.owned k (some task) (Option.join_eq_some_iff.mp hk)
  obtain ⟨t, -, -, -, hsender⟩ := owner_eq_some.mp hn
  split at hsender
  · cases hsender
  · cases hsender
    exact hn

theorem Inv.nodup_senders (hinv : σ.Inv) : σ.senders.Nodup := by
  refine List.Nodup.filterMap (fun k k' task hk hk' => ?_) (S.nodup_keys _)
  have heq := (hinv.owner_of_sender hk).symm.trans (hinv.owner_of_sender hk')
  cases heq
  rfl

/-- The tasks that are there have their senders in the slab, until they are signalled. -/
theorem Inv.mem_senders_iff (hinv : σ.Inv) (hphase : σ.phase ≠ .dropped) {task : ℕ} {t : Task}
    (ht : σ.tasks[task]? = some t) : task ∈ σ.senders ↔ t.isLive = true := by
  rw [senders, List.mem_filterMap]
  constructor
  · rintro ⟨k, -, hk⟩
    obtain ⟨t', ht', hlive, -⟩ := owner_eq_some.mp (hinv.owner_of_sender hk)
    cases ht.symm.trans ht'
    exact hlive
  · intro hlive
    have howner : σ.owner task = some (t.slabHandle, some task) :=
      owner_eq_some.mpr ⟨t, ht, hlive, rfl, by rw [if_neg hphase]⟩
    have hget := hinv.custody.get_eq task _ _ howner
    refine ⟨t.slabHandle, ?_, ?_⟩
    · rw [S.mem_keys, hget]
      rfl
    · rw [hget]
      rfl

theorem getElem?_signal (σ : Session S) (n : ℕ) :
    σ.signal.tasks[n]? = σ.tasks[n]?.map (Task.signal (σ.senders.count n)) :=
  List.getElem?_mapIdx

theorem settled_signal {n : ℕ} (h : ∃ t, σ.tasks[n]? = some t ∧ t.isSettled = true) :
    ∃ t, σ.signal.tasks[n]? = some t ∧ t.isSettled = true := by
  obtain ⟨t, ht, hsettled⟩ := h
  refine ⟨t.signal (σ.senders.count n), ?_, hsettled⟩
  rw [getElem?_signal, ht]
  rfl

theorem owner_signal (σ : Session S) :
    σ.signal.owner = fun n => (σ.owner n).map (Prod.map id fun _ => none) := by
  funext n
  unfold owner
  rw [getElem?_signal]
  cases σ.tasks[n]? with
  | none => rfl
  | some t =>
    change (if t.isLive then _ else _) = Option.map _ (if t.isLive then _ else _)
    cases t.isLive <;> rfl

/-- Each task that is there is signalled once. -/
theorem Inv.signal (hinv : σ.Inv) (hclosing : σ.phase = .closing) : σ.signal.Inv := by
  have hphase : σ.phase ≠ .dropped := by simp [hclosing]
  have hzero : ∀ (n : ℕ) (t : Task), σ.tasks[n]? = some t → t.signals = 0 := by
    intro n t ht
    have hle := hinv.signals_le n t ht
    rw [if_neg hphase] at hle
    exact Nat.le_zero.mp hle
  have hcases : ∀ (n : ℕ) (t' : Task), σ.signal.tasks[n]? = some t' →
      ∃ t, σ.tasks[n]? = some t ∧ t' = t.signal (σ.senders.count n) := by
    intro n t' ht'
    rw [getElem?_signal] at ht'
    obtain ⟨t, ht, rfl⟩ := Option.map_eq_some_iff.mp ht'
    exact ⟨t, ht, rfl⟩
  refine ⟨?_, fun n t' ht' hlive => ?_, fun n t' ht' => ?_, fun _ => ?_, hinv.panicked,
    fun n result hsent => settled_signal (hinv.sent n result hsent)⟩
  · rw [owner_signal]
    exact hinv.custody.modifyAll _
  · obtain ⟨t, ht, rfl⟩ := hcases n t' ht'
    have hone := List.count_eq_one_of_mem hinv.nodup_senders
      ((hinv.mem_senders_iff hphase ht).mpr hlive)
    change t.signals + σ.senders.count n = 1
    rw [hzero n t ht, hone]
  · obtain ⟨t, ht, rfl⟩ := hcases n t' ht'
    have hone := List.nodup_iff_count_le_one.mp hinv.nodup_senders n
    change t.signals + σ.senders.count n ≤ 1
    rw [hzero n t ht]
    omega
  · exact hinv.active (by simp [hclosing])

theorem Inv.step (hinv : σ.Inv) (l : Label) : (σ.step l).Inv := by
  cases l with
  | onMessage isText =>
    unfold Session.step
    dsimp only
    split
    · rename_i halive
      exact hinv.spawn halive.1
    · exact hinv
  | complete task response =>
    exact hinv.modifyTask task (Task.goesOn_complete σ.active response)
  | checkActive task => exact hinv.modifyTask task (Task.goesOn_checkActive σ.active)
  | send task => exact hinv.send task
  | storeInactive task => exact hinv.storeInactive task
  | pollLiveness task => exact hinv.modifyTask task Task.goesOn_pollLiveness
  | dropTask task => exact hinv.dropTask task
  | push => exact hinv
  | close =>
    unfold Session.step
    dsimp only
    split
    · rename_i halive
      have howner : Session.owner { σ with active := false, phase := .closing } = σ.owner := by
        funext n
        simp [owner, halive]
      refine ⟨howner ▸ hinv.custody, fun n t ht hlive => ?_, fun n t ht => ?_, fun _ => rfl,
        hinv.panicked, hinv.sent⟩
      · exact (hinv.signals n t ht hlive).trans (by simp [halive])
      · exact (hinv.signals_le n t ht).trans (by simp [halive])
    · exact hinv
  | signal =>
    unfold Session.step
    dsimp only
    split
    · rename_i hclosing
      exact hinv.signal hclosing
    · exact hinv

theorem inv_after (S : Slab (Option ℕ)) (ls : List Label) : (after S ls).Inv :=
  Runs.run_invariant (inv_new S) (fun _ l hinv => hinv.step l) ls

/-! ## Dropping the session -/

/-- A session is alive until it is closed. -/
theorem phase_step (σ : Session S) (l : Label) :
    (σ.step l).phase = .alive ↔ σ.phase = .alive ∧ l ≠ .close := by
  cases l with
  | onMessage | storeInactive =>
    unfold step
    dsimp only
    split <;> simp [spawn, modifyTask]
  | close =>
    unfold step
    dsimp only
    split <;> simp_all
  | signal =>
    unfold step
    dsimp only
    split <;> simp_all [Session.signal]
  | dropTask task =>
    change (σ.dropTask task).phase = .alive ↔ _
    rcases σ.dropTask_eq task with hdrop | ⟨taskSlab, panicked, hdrop⟩ <;>
      simp [hdrop, modifyTask]
  | complete | checkActive | send | pollLiveness | push => simp [step, modifyTask]

/-- The tasks are signalled when the lock of the slab is there. -/
theorem phase_signal (h : σ.phase ≠ .alive) : (σ.step .signal).phase = .dropped := by
  cases hphase : σ.phase with
  | alive => exact absurd hphase h
  | closing => simp [step, hphase, signal]
  | dropped => simp [step, hphase]

/-- However other threads interleave with it, the drop of the session comes to its end. -/
theorem phase_after_drop (S : Slab (Option ℕ)) (ls mid : List Label) :
    (after S (ls ++ .close :: mid ++ [.signal])).phase = .dropped := by
  rw [after, Runs.run_concat]
  refine phase_signal ?_
  rw [Runs.run_append, Runs.run, List.foldl_cons]
  exact Runs.run_invariant (I := fun σ : Session S => σ.phase ≠ .alive)
    (fun halive => ((phase_step _ .close).mp halive).2 rfl)
    (fun σ l h halive => h ((phase_step σ l).mp halive).1) mid

theorem exists_getElem?_signal {task : ℕ} {t : Task} (ht : σ.tasks[task]? = some t) :
    ∃ n, (σ.step .signal).tasks[task]? = some (t.signal n) := by
  rw [step]
  split
  · rw [getElem?_signal, ht]
    exact ⟨_, rfl⟩
  · exact ⟨0, ht⟩

/-- The drop of the session signals each task that is there, and changes nothing else of it. -/
theorem Inv.getElem?_drop (hinv : σ.Inv) {task : ℕ} {t : Task} (ht : σ.tasks[task]? = some t)
    (hlive : t.isLive = true) :
    ((σ.step .close).step .signal).tasks[task]? = some { t with signals := 1 } := by
  have hdropped : ((σ.step .close).step .signal).phase = .dropped :=
    phase_signal fun halive => ((phase_step σ .close).mp halive).2 rfl
  have htasks : (σ.step .close).tasks = σ.tasks := by
    unfold Session.step
    dsimp only
    split <;> rfl
  obtain ⟨n, hn⟩ := exists_getElem?_signal (htasks.symm ▸ ht)
  have hone : t.signals + n = 1 :=
    (((hinv.step .close).step .signal).signals task _ hn hlive).trans (if_pos hdropped)
  rw [hn, Task.signal, hone]

/-! ## Responses -/

/-- A session is never active again. -/
theorem active_step (h : σ.active = false) (l : Label) : (σ.step l).active = false := by
  cases l with
  | onMessage | storeInactive | close | signal =>
    unfold step
    dsimp only
    split
    · first | exact h | rfl
    · exact h
  | complete | checkActive | send | pollLiveness | push => exact h
  | dropTask task =>
    change (σ.dropTask task).active = false
    rcases σ.dropTask_eq task with hdrop | ⟨taskSlab, panicked, hdrop⟩
    · rw [hdrop]
      exact h
    · rw [hdrop]
      exact h

/-- A task that has nothing to do any more stays so. -/
theorem settled_step {n : ℕ} (h : ∃ t, σ.tasks[n]? = some t ∧ t.isSettled = true) (l : Label) :
    ∃ t, (σ.step l).tasks[n]? = some t ∧ t.isSettled = true := by
  cases l with
  | onMessage isText =>
    unfold step
    dsimp only
    split
    · exact settled_spawn h
    · exact h
  | complete task response =>
    exact settled_modifyTask (Task.goesOn_complete σ.active response) task h
  | checkActive task => exact settled_modifyTask (Task.goesOn_checkActive σ.active) task h
  | send task => exact settled_modifyTask Task.goesOn_send task h
  | storeInactive task =>
    unfold step
    dsimp only
    split
    · exact settled_modifyTask Task.goesOn_storeInactive task h
    · exact h
  | pollLiveness task => exact settled_modifyTask Task.goesOn_pollLiveness task h
  | dropTask task => exact settled_dropTask task h
  | push => exact h
  | close =>
    unfold step
    dsimp only
    split <;> exact h
  | signal =>
    unfold step
    dsimp only
    split
    · exact settled_signal h
    · exact h

/-- A response is sent by a task that is about to write it. -/
theorem sent_step {l : Label} {n : ℕ} {result : String} (h : (n, result) ∈ (σ.step l).sent) :
    (n, result) ∈ σ.sent ∨ ∃ t, σ.tasks[n]? = some t ∧ t.phase = .writing result := by
  cases l with
  | send task =>
    rcases List.mem_append.mp h with hold | hnew
    · exact .inl hold
    · simp only [List.mem_map, List.mem_flatMap, Option.mem_toList] at hnew
      obtain ⟨result', ⟨t, ht, hresult'⟩, heq⟩ := hnew
      cases heq
      refine .inr ⟨t, ht, ?_⟩
      cases hphase : t.phase <;> simp [Task.sends, hphase] at hresult' ⊢
      exact hresult'.symm
  | onMessage | storeInactive | close | signal =>
    unfold step at h
    dsimp only at h
    split at h <;> exact .inl h
  | complete | checkActive | pollLiveness | push => exact .inl h
  | dropTask task =>
    change (n, result) ∈ (σ.dropTask task).sent at h
    rcases σ.dropTask_eq task with hdrop | ⟨taskSlab, panicked, hdrop⟩
    · rw [hdrop] at h
      exact .inl h
    · rw [hdrop] at h
      exact .inl h

/-- The task does nothing any more, and has not sent a response. -/
def Silent (task : ℕ) (σ : Session S) : Prop :=
  (∃ t, σ.tasks[task]? = some t ∧ t.isSettled = true) ∧ ∀ result, (task, result) ∉ σ.sent

theorem Silent.step {task : ℕ} (h : σ.Silent task) (l : Label) : (σ.step l).Silent task := by
  refine ⟨settled_step h.1 l, fun result hsent => ?_⟩
  rcases sent_step hsent with hold | ⟨t, ht, hwriting⟩
  · exact h.2 result hold
  · obtain ⟨t', ht', hsettled⟩ := h.1
    cases ht.symm.trans ht'
    simp [Task.isSettled, hwriting] at hsettled

/-- A task that completes when the session is not active sends nothing. -/
theorem Inv.silent_complete (hinv : σ.Inv) (hactive : σ.active = false) {task : ℕ} {t : Task}
    (ht : σ.tasks[task]? = some t) (hwaiting : t.phase = .waiting) (response : Option String) :
    (σ.step (.complete task response)).Silent task := by
  refine ⟨⟨t.complete false response, ?_, ?_⟩, fun result hsent => ?_⟩
  · change (σ.modifyTask task _).tasks[task]? = _
    rw [getElem?_modifyTask, ht, hactive]
    simp
  · cases response <;> simp [Task.complete, Task.isSettled, hwaiting]
  · obtain ⟨t', ht', hsettled⟩ := hinv.sent task result hsent
    cases ht.symm.trans ht'
    simp [Task.isSettled, hwaiting] at hsettled

/-! ## Whole runs -/

/-- What a session guarantees. -/
structure Sound (S : Slab (Option ℕ)) (ls : List Label) : Prop where
  keys : ∀ k, (S.get (after S ls).taskSlab k).isSome ↔
    ∃ (task : ℕ) (t : Task), (after S ls).tasks[task]? = some t ∧ t.isLive = true ∧
      t.slabHandle = k
  distinct : ∀ (task task' : ℕ) (t t' : Task), (after S ls).tasks[task]? = some t →
    (after S ls).tasks[task']? = some t' → t.isLive = true → t'.isLive = true →
    t.slabHandle = t'.slabHandle → task = task'
  panicked : (after S ls).panicked = false
  signals : ∀ (task : ℕ) (t : Task), (after S ls).tasks[task]? = some t →
    (t.isLive = true → t.signals = if (after S ls).phase = .dropped then 1 else 0) ∧
      t.signals ≤ 1
  /-- The drop of the session comes to its end, and then each task that is there has its
  signal. -/
  dropped : ∀ mid : List Label, (after S (ls ++ .close :: mid ++ [.signal])).phase = .dropped ∧
    ∀ (task : ℕ) (t : Task),
      (after S (ls ++ .close :: mid ++ [.signal])).tasks[task]? = some t → t.isLive = true →
      t.signals = 1
  /-- The tasks that were there are still there after the drop. -/
  signalled : ∀ (task : ℕ) (t : Task), (after S ls).tasks[task]? = some t → t.isLive = true →
    (after S (ls ++ [.close, .signal])).tasks[task]? = some { t with signals := 1 }
  silent : ∀ (before : List Label) (task : ℕ) (response : Option String) (rest : List Label)
    (t : Task), ls = before ++ .complete task response :: rest →
    (after S before).tasks[task]? = some t → t.phase = .waiting →
    (after S before).phase ≠ .alive ∨ Runs.Occurs step (new S) Reports before →
    ∀ result, (task, result) ∉ (after S ls).sent

/-- **Liveness of a session.** For every slab and every interleaving, the keys of the slab are
those of the tasks that are there, and no two of these have the same key. So no task that is
dropped finds its key vacant. When the session is dropped, each task that is there is signalled
once. A task that completes after the session was dropped, or after a send has reported that the
connection is closed, sends no response. -/
theorem sound_after (S : Slab (Option ℕ)) (ls : List Label) : Sound S ls := by
  have hinv := inv_after S ls
  refine ⟨fun k => ?_, fun task task' t t' ht ht' hlive hlive' hkey => ?_, hinv.panicked,
    fun task t ht => ⟨hinv.signals task t ht, ?_⟩,
    fun mid => ⟨phase_after_drop S ls mid, fun task t ht hlive => ?_⟩,
    fun task t ht hlive => ?_, ?_⟩
  · rw [hinv.custody.isSome_get_iff]
    constructor
    · rintro ⟨task, a, howner⟩
      obtain ⟨t, ht, hlive, hkey, -⟩ := owner_eq_some.mp howner
      exact ⟨task, t, ht, hlive, hkey⟩
    · rintro ⟨task, t, ht, hlive, hkey⟩
      exact ⟨task, _, owner_eq_some.mpr ⟨t, ht, hlive, hkey, rfl⟩⟩
  · exact hinv.custody.key_inj task task' _ _ _
      (owner_eq_some.mpr ⟨t, ht, hlive, hkey, rfl⟩)
      (owner_eq_some.mpr ⟨t', ht', hlive', rfl, rfl⟩)
  · have hle := hinv.signals_le task t ht
    split at hle <;> omega
  · have hsignals := (inv_after S _).signals task t ht hlive
    rwa [if_pos (phase_after_drop S ls mid)] at hsignals
  · rw [after, Runs.run_append]
    exact hinv.getElem?_drop ht hlive
  · rintro before task response rest t rfl ht hwaiting hclosed
    have hactive : (after S before).active = false := by
      rcases hclosed with hphase | hreports
      · exact (inv_after S before).active hphase
      · exact Runs.of_occurs (Q := fun σ => σ.active = false)
          (fun σ l hreports => active_step hreports.1 l) (fun σ l h => active_step h l) hreports
    have hsilent := (inv_after S before).silent_complete hactive ht hwaiting response
    rw [after, Runs.run_append]
    exact (Runs.run_invariant (I := fun σ : Session S => σ.Silent task) hsilent
      (fun _ l h => h.step l) rest).2

/-- The session is dropped with one task that is there and one that was dropped before. -/
theorem sound_after_twoTasks :
    Sound (.vec _) [.onMessage true, .onMessage true, .dropTask 0] ∧
      (after (.vec _) [.onMessage true, .onMessage true, .dropTask 0, .close, .signal]).tasks =
        [⟨0, .dropped, 0⟩, ⟨1, .waiting, 1⟩] :=
  ⟨sound_after (.vec _) _, rfl⟩

end Session

end JsonRpc.Ws
