import JsonRpc.PubSub.Session

/-!
# The tasks of the manager

The manager of subscriptions keeps the sender of a task under the id of its subscription, to
cancel the task. An id that is used again stops the task that had it before. The manager
learns nothing of a task that ends by itself, or was never started, and so keeps its id.
-/

namespace JsonRpc

namespace PubSub

/-- The manager, with the subscriptions that were added. -/
structure ManagerHistory where
  manager : SubscriptionManager
  /-- The ids of the subscribers that accepted them, with their tasks, the last one first. -/
  added : List (SubscriptionId × ℕ)

/-- What happens to the manager. -/
inductive ManagerLabel where
  /-- A subscriber is added with the next id. It accepts the id or is closed, and the executor
  may fail to start the task. -/
  | add (id : SubscriptionId) (accepted spawned : Bool)
  | cancel (id : SubscriptionId)
  /-- A task ends by itself. -/
  | complete (task : ℕ)
  deriving DecidableEq

namespace ManagerHistory

def init : ManagerHistory := ⟨⟨∅, []⟩, []⟩

def step (h : ManagerHistory) : ManagerLabel → ManagerHistory
  | .add id accepted spawned =>
    if accepted then ⟨h.manager.start h.added.length id spawned, (id, h.added.length) :: h.added⟩
    else h
  | .cancel id => { h with manager := (h.manager.cancel id).1 }
  | .complete task => { h with manager := { h.manager with tasks := h.manager.tasks.erase task } }

def after (ls : List ManagerLabel) : ManagerHistory := Runs.run step init ls

/-- The task of the last subscription that was added with an id. -/
def latest (h : ManagerHistory) (id : SubscriptionId) : Option ℕ := h.added.lookup id

/-- The manager tracks the tasks that run. -/
structure Tracks (h : ManagerHistory) : Prop where
  active : ∀ id, id ∈ h.manager.activeSubscriptions ↔
    ∃ task, h.latest id = some task ∧ task ∈ h.manager.tasks
  cancel : ∀ id, (h.manager.cancel id).2 = true ↔
    ∃ task ∈ h.manager.tasks, task ∉ (h.manager.cancel id).1.tasks

/-- A task is not started, or ends by itself. -/
def Forgets (h : ManagerHistory) (l : ManagerLabel) : Prop :=
  (∃ id, l = .add id true false) ∨ ∃ task ∈ h.manager.tasks, l = .complete task

/-- What holds in every run. -/
structure Inv (h : ManagerHistory) : Prop where
  task_lt : ∀ entry ∈ h.added, entry.2 < h.added.length
  nodup_added : (h.added.map Prod.snd).Nodup
  nodup_tasks : h.manager.tasks.Nodup
  latest : ∀ id task, h.manager.activeSubscriptions.lookup id = some task →
    h.latest id = some task
  active : ∀ task ∈ h.manager.tasks, ∃ id, h.manager.activeSubscriptions.lookup id = some task

theorem inv_init : init.Inv where
  task_lt := List.forall_mem_nil _
  nodup_added := List.nodup_nil
  nodup_tasks := List.nodup_nil
  latest _ _ hlookup := by cases hlookup
  active := List.forall_mem_nil _

variable {h : ManagerHistory}

theorem mem_added_of_latest {id : SubscriptionId} {task : ℕ} (hlatest : h.latest id = some task) :
    (id, task) ∈ h.added := by
  obtain ⟨before, rest, hadded, -⟩ := List.lookup_eq_some_iff.mp hlatest
  simp [hadded]

/-- Two ids do not have the same task. -/
theorem Inv.id_eq (hinv : h.Inv) {id id' : SubscriptionId} {task : ℕ}
    (hid : h.latest id = some task) (hid' : h.latest id' = some task) : id = id' := by
  have heq := List.inj_on_of_nodup_map hinv.nodup_added (mem_added_of_latest hid)
    (mem_added_of_latest hid') rfl
  exact congrArg Prod.fst heq

/-- A task that runs is found under its id. -/
theorem Inv.lookup_eq (hinv : h.Inv) {id : SubscriptionId} {task : ℕ}
    (hlatest : h.latest id = some task) (htask : task ∈ h.manager.tasks) :
    h.manager.activeSubscriptions.lookup id = some task := by
  obtain ⟨id', hlookup⟩ := hinv.active task htask
  rw [hinv.id_eq hlatest (hinv.latest id' task hlookup)]
  exact hlookup

/-- The task of an id is stopped, and nothing else. -/
theorem Inv.mem_stop_iff (hinv : h.Inv) (id : SubscriptionId) (task : ℕ) :
    task ∈ h.manager.stop id ↔
      task ∈ h.manager.tasks ∧ h.manager.activeSubscriptions.lookup id ≠ some task := by
  unfold SubscriptionManager.stop
  cases hlookup : h.manager.activeSubscriptions.lookup id with
  | none => simp
  | some old =>
    rw [hinv.nodup_tasks.mem_erase_iff]
    simp [and_comm, eq_comm]

theorem Inv.nodup_stop (hinv : h.Inv) (id : SubscriptionId) : (h.manager.stop id).Nodup := by
  unfold SubscriptionManager.stop
  split
  · exact hinv.nodup_tasks.erase _
  · exact hinv.nodup_tasks

/-- The next task is a new one. -/
theorem Inv.notMem_tasks (hinv : h.Inv) : h.added.length ∉ h.manager.tasks := by
  intro htask
  obtain ⟨id, hlookup⟩ := hinv.active _ htask
  have hlt := hinv.task_lt _ (mem_added_of_latest (hinv.latest id _ hlookup))
  omega

/-- The tasks after a subscription was added. -/
theorem mem_tasks_add {id : SubscriptionId} {spawned : Bool} {task : ℕ} :
    task ∈ (h.step (.add id true spawned)).manager.tasks ↔
      spawned = true ∧ task = h.added.length ∨ task ∈ h.manager.stop id := by
  cases spawned with
  | true => exact List.mem_cons.trans (by simp)
  | false => simp [step, SubscriptionManager.start]

theorem Inv.add (hinv : h.Inv) (id : SubscriptionId) (spawned : Bool) :
    (h.step (.add id true spawned)).Inv := by
  refine ⟨?_, ?_, ?_, fun id' task hlookup => ?_, fun task htask => ?_⟩
  · refine List.forall_mem_cons.mpr ⟨Nat.lt_succ_self _, fun entry hentry => ?_⟩
    exact Nat.lt_succ_of_lt (hinv.task_lt entry hentry)
  · refine List.nodup_cons.mpr ⟨fun hmem => ?_, hinv.nodup_added⟩
    obtain ⟨entry, hentry, heq⟩ := List.mem_map.mp hmem
    have hlt := hinv.task_lt entry hentry
    omega
  · have hnew : h.added.length ∉ h.manager.stop id :=
      fun htask => hinv.notMem_tasks ((hinv.mem_stop_iff id _).mp htask).1
    cases spawned with
    | true => exact List.nodup_cons.mpr ⟨hnew, hinv.nodup_stop id⟩
    | false => exact hinv.nodup_stop id
  · by_cases hid : id' = id
    · subst hid
      have hinsert := AList.lookup_insert (a := id') (b := h.added.length)
        h.manager.activeSubscriptions
      cases hlookup.symm.trans hinsert
      simp [ManagerHistory.latest, step]
    · have hold := hinv.latest id' task ((AList.lookup_insert_ne hid).symm.trans hlookup)
      simpa [ManagerHistory.latest, step, List.lookup_cons, beq_false_of_ne hid] using hold
  · rcases mem_tasks_add.mp htask with ⟨-, rfl⟩ | hstop
    · exact ⟨id, AList.lookup_insert _⟩
    · obtain ⟨hrunning, hne⟩ := (hinv.mem_stop_iff id task).mp hstop
      obtain ⟨id', hlookup⟩ := hinv.active task hrunning
      have hid : id' ≠ id := by
        rintro rfl
        exact hne hlookup
      exact ⟨id', (AList.lookup_insert_ne hid).trans hlookup⟩

theorem Inv.cancel (hinv : h.Inv) (id : SubscriptionId) : (h.step (.cancel id)).Inv := by
  refine ⟨hinv.task_lt, hinv.nodup_added, hinv.nodup_stop id, fun id' task hlookup => ?_,
    fun task htask => ?_⟩
  · by_cases hid : id' = id
    · subst hid
      cases hlookup.symm.trans (AList.lookup_erase id' _)
    · exact hinv.latest id' task ((AList.lookup_erase_ne hid).symm.trans hlookup)
  · obtain ⟨hrunning, hne⟩ := (hinv.mem_stop_iff id task).mp htask
    obtain ⟨id', hlookup⟩ := hinv.active task hrunning
    have hid : id' ≠ id := by
      rintro rfl
      exact hne hlookup
    exact ⟨id', (AList.lookup_erase_ne hid).trans hlookup⟩

theorem Inv.complete (hinv : h.Inv) (task : ℕ) : (h.step (.complete task)).Inv :=
  ⟨hinv.task_lt, hinv.nodup_added, hinv.nodup_tasks.erase task, hinv.latest,
    fun task' htask' => hinv.active task' (List.mem_of_mem_erase htask')⟩

theorem Inv.step (hinv : h.Inv) (l : ManagerLabel) : (h.step l).Inv := by
  match l with
  | .add id true spawned => exact hinv.add id spawned
  | .add id false spawned => exact hinv
  | .cancel id => exact hinv.cancel id
  | .complete task => exact hinv.complete task

theorem inv_after (ls : List ManagerLabel) : (after ls).Inv :=
  Runs.run_invariant inv_init (fun _ l hinv => hinv.step l) ls

/-! ## When a task is forgotten -/

/-- Every task that the manager keeps runs. -/
def AllRun (h : ManagerHistory) : Prop :=
  ∀ id task, h.manager.activeSubscriptions.lookup id = some task → task ∈ h.manager.tasks

/-- The manager tracks the tasks if and only if every task that it keeps runs. -/
theorem Inv.tracks_iff (hinv : h.Inv) : h.Tracks ↔ h.AllRun := by
  constructor
  · intro htracks id task hlookup
    have hmem : id ∈ h.manager.activeSubscriptions := by
      rw [← AList.lookup_isSome, hlookup]
      rfl
    obtain ⟨task', hlatest, htask'⟩ := (htracks.active id).mp hmem
    cases hlatest.symm.trans (hinv.latest id task hlookup)
    exact htask'
  · intro hall
    refine ⟨fun id => ⟨fun hmem => ?_, fun hlatest => ?_⟩,
      fun id => ⟨fun hcancel => ?_, fun hstopped => ?_⟩⟩
    · rw [← AList.lookup_isSome] at hmem
      obtain ⟨task, hlookup⟩ := Option.isSome_iff_exists.mp hmem
      exact ⟨task, hinv.latest id task hlookup, hall id task hlookup⟩
    · obtain ⟨task, hlatest, htask⟩ := hlatest
      rw [← AList.lookup_isSome, hinv.lookup_eq hlatest htask]
      rfl
    · obtain ⟨task, hlookup⟩ := Option.isSome_iff_exists.mp hcancel
      refine ⟨task, hall id task hlookup, fun hstop => ?_⟩
      exact ((hinv.mem_stop_iff id task).mp hstop).2 hlookup
    · obtain ⟨task, htask, hstopped⟩ := hstopped
      have hlookup : h.manager.activeSubscriptions.lookup id = some task := by
        by_contra hne
        exact hstopped ((hinv.mem_stop_iff id task).mpr ⟨htask, hne⟩)
      change (h.manager.activeSubscriptions.lookup id).isSome = true
      rw [hlookup]
      rfl

theorem Inv.allRun_add (hinv : h.Inv) (hall : h.AllRun) (id : SubscriptionId) :
    (h.step (.add id true true)).AllRun := by
  intro id' task hlookup
  rw [mem_tasks_add]
  by_cases hid : id' = id
  · subst hid
    have hinsert := AList.lookup_insert (a := id') (b := h.added.length)
      h.manager.activeSubscriptions
    cases hlookup.symm.trans hinsert
    exact .inl ⟨rfl, rfl⟩
  · have hold := (AList.lookup_insert_ne hid).symm.trans hlookup
    refine .inr ((hinv.mem_stop_iff id task).mpr ⟨hall id' task hold, fun hsame => hid ?_⟩)
    exact hinv.id_eq (hinv.latest id' task hold) (hinv.latest id task hsame)

theorem Inv.allRun_cancel (hinv : h.Inv) (hall : h.AllRun) (id : SubscriptionId) :
    (h.step (.cancel id)).AllRun := by
  intro id' task hlookup
  by_cases hid : id' = id
  · subst hid
    cases hlookup.symm.trans (AList.lookup_erase id' _)
  · have hold := (AList.lookup_erase_ne hid).symm.trans hlookup
    refine (hinv.mem_stop_iff id task).mpr ⟨hall id' task hold, fun hsame => hid ?_⟩
    exact hinv.id_eq (hinv.latest id' task hold) (hinv.latest id task hsame)

/-- A task that is not started leaves its id behind. -/
theorem Inv.not_allRun_add (hinv : h.Inv) (id : SubscriptionId) :
    ¬ (h.step (.add id true false)).AllRun := by
  intro hall
  have htask := hall id h.added.length (AList.lookup_insert _)
  rcases mem_tasks_add.mp htask with ⟨hspawned, -⟩ | hstop
  · cases hspawned
  · exact hinv.notMem_tasks ((hinv.mem_stop_iff id _).mp hstop).1

/-- Only the tasks that are forgotten keep the manager from tracking the tasks. -/
theorem Inv.allRun_step_iff (hinv : h.Inv) (hall : h.AllRun) (l : ManagerLabel) :
    (h.step l).AllRun ↔ ¬ h.Forgets l := by
  match l with
  | .add id true true => exact iff_of_true (hinv.allRun_add hall id) (by simp [Forgets])
  | .add id true false => exact iff_of_false (hinv.not_allRun_add id) (by simp [Forgets])
  | .add id false spawned => exact iff_of_true hall (by simp [Forgets])
  | .cancel id => exact iff_of_true (hinv.allRun_cancel hall id) (by simp [Forgets])
  | .complete task =>
    by_cases htask : task ∈ h.manager.tasks
    · refine iff_of_false (fun hstep => ?_) (by simp [Forgets, htask])
      obtain ⟨id, hlookup⟩ := hinv.active task htask
      exact (hinv.nodup_tasks.mem_erase_iff.mp (hstep id task hlookup)).1 rfl
    · refine iff_of_true (fun id task' hlookup => ?_) (by simp [Forgets, htask])
      change task' ∈ h.manager.tasks.erase task
      rw [List.erase_of_not_mem htask]
      exact hall id task' hlookup

/-- An id that is used again stops the task that had it before. -/
theorem Inv.notMem_tasks_add (hinv : h.Inv) {id : SubscriptionId} {old : ℕ}
    (hlatest : h.latest id = some old) (spawned : Bool) :
    old ∉ (h.step (.add id true spawned)).manager.tasks := by
  rw [mem_tasks_add]
  rintro (⟨-, rfl⟩ | hstop)
  · have hlt := hinv.task_lt _ (mem_added_of_latest hlatest)
    omega
  · obtain ⟨hrunning, hne⟩ := (hinv.mem_stop_iff id old).mp hstop
    exact hne (hinv.lookup_eq hlatest hrunning)

/-- **Tracking.** In every interleaving, a subscription stops the task that had its id before.
The manager tracks the tasks that run at each point, if and only if every task is started and
none ends by itself. -/
theorem tracks_iff_not_forgets (ls : List ManagerLabel) :
    ((∀ before rest, ls = before ++ rest → (after before).Tracks) ↔
      ¬ Runs.Occurs step init Forgets ls) ∧
    ∀ before id spawned rest old, ls = before ++ .add id true spawned :: rest →
      (after before).latest id = some old →
      old ∉ (after (before ++ [.add id true spawned])).manager.tasks := by
  constructor
  · rw [← Runs.forall_prefix_iff_not_occurs (Q := fun h => h.Inv ∧ h.AllRun)
      ⟨inv_init, fun _ _ hlookup => by cases hlookup⟩ (fun h l hQ => by
        rw [and_iff_right (hQ.1.step l)]
        exact hQ.1.allRun_step_iff hQ.2 l)]
    refine forall_congr' fun before => forall_congr' fun rest => imp_congr_right fun _ => ?_
    rw [(inv_after before).tracks_iff]
    exact (and_iff_right (inv_after before)).symm
  · intro before id spawned rest old _ hlatest
    rw [after, Runs.run_concat]
    exact (inv_after before).notMem_tasks_add hlatest spawned

/-- The task of a subscription ends. -/
def taskEnds : List ManagerLabel := [.add (.number 1) true true, .complete 0]

/-- No task runs, and to cancel the subscription still answers that it existed. -/
theorem not_tracks_taskEnds :
    (after taskEnds).manager.tasks = [] ∧
      ((after taskEnds).manager.cancel (.number 1)).2 = true ∧ ¬ (after taskEnds).Tracks := by
  refine ⟨rfl, rfl, fun htracks => ?_⟩
  obtain ⟨task, htask, -⟩ := (htracks.cancel (.number 1)).mp rfl
  cases htask

end ManagerHistory

end PubSub

end JsonRpc
