import Mathlib.Data.List.Perm.Basic
import Mathlib.Tactic.Common

/-!
# Buffers of futures

A stream yields jobs, each with a future. A buffer takes jobs from the stream as long
as it has room, polls their futures in the order of a schedule, and yields the result of
the first one that completes. The stream may fail, and after its end it is not asked again.

What the buffer yields is a permutation of what it took: the identities of the jobs that
it holds, together with the one it yields, are those it held before.
-/

namespace BufferUnordered

/-- What a stream answers when it is asked for its next item. -/
inductive Next (E J : Type*) where
  | item (job : J)
  | error (e : E)
  | done
  | pending

namespace Next

variable {E J : Type*}

/-- The items of an answer. -/
def items : Next E J → List J
  | item job => [job]
  | _ => []

/-- The stream has ended. -/
def isDone : Next E J → Bool
  | done => true
  | _ => false

end Next

/-- A stream with the jobs that were taken from it and have not completed. Each job has an
identity and a future. -/
structure Buffer (S I F : Type*) where
  /-- The state of the stream. -/
  source : S
  /-- The stream has ended. -/
  isDone : Bool
  /-- The jobs that have not completed. -/
  inProgress : List (I × F)

variable {S I F E A R : Type*}

namespace Buffer

/-- A buffer that has taken nothing from its stream. -/
def new (source : S) : Buffer S I F := ⟨source, false, []⟩

/-- The buffer after its stream has answered. -/
def took (b : Buffer S I F) (answer : S × Next E (I × F)) : Buffer S I F where
  source := answer.1
  isDone := answer.2.isDone
  inProgress := b.inProgress ++ answer.2.items

/-- Take jobs from the stream as long as there is room. -/
def fill (pull : S → S × Next E (I × F)) : ℕ → Buffer S I F → Buffer S I F × Option E
  | 0, b => (b, none)
  | room + 1, b =>
    if b.isDone then (b, none)
    else
      let answer := pull b.source
      match answer.2 with
      | .item _ => fill pull room (b.took answer)
      | .error e => (b.took answer, some e)
      | _ => (b.took answer, none)

end Buffer

/-- Poll the futures of the jobs at the positions of a schedule, up to the first one that
completes. -/
def pollFutures (poll : A → F → F × Option R) :
    List (ℕ × A) → List (I × F) → List (I × F) × Option (I × R)
  | [], jobs => (jobs, none)
  | (position, a) :: schedule, jobs =>
    match jobs[position]? with
    | none => pollFutures poll schedule jobs
    | some (i, f) =>
      match poll a f with
      | (f', none) => pollFutures poll schedule (jobs.set position (i, f'))
      | (_, some r) => (jobs.eraseIdx position, some (i, r))

/-- Poll a buffer for at most `max` jobs at a time: first it takes jobs from its stream,
then it polls their futures. -/
def Buffer.pollNext (max : ℕ) (pull : S → S × Next E (I × F)) (poll : A → F → F × Option R)
    (schedule : List (ℕ × A)) (b : Buffer S I F) : Buffer S I F × Next E (I × R) :=
  match b.fill pull (max - b.inProgress.length) with
  | (b, some e) => (b, .error e)
  | (b, none) =>
    match pollFutures poll schedule b.inProgress with
    | (inProgress, some output) => ({ b with inProgress }, .item output)
    | (inProgress, none) =>
      ({ b with inProgress }, if inProgress.isEmpty && b.isDone then .done else .pending)

/-! ## Taking jobs -/

section Fill

variable {pull : S → S × Next E (I × F)}

/-- **Invariant rule for taking jobs.** What every answer of the stream keeps holds when the
buffer is full or the stream has nothing more to give. -/
theorem fill_invariant {P : Buffer S I F → Prop}
    (hpull : ∀ b, b.isDone = false → P b → P (b.took (pull b.source))) (room : ℕ)
    (b : Buffer S I F) (hb : P b) : P (b.fill pull room).1 := by
  induction room generalizing b with
  | zero => exact hb
  | succ room ih =>
    rw [Buffer.fill]
    split
    · exact hb
    · rename_i hdone
      have htook := hpull b (by simpa using hdone) hb
      dsimp only
      split
      · exact ih _ htook
      · exact htook
      · exact htook

/-- What every answer of the stream except an error keeps holds if there was no error. -/
theorem fill_invariant_of_ok {P : Buffer S I F → Prop}
    (hpull : ∀ b, b.isDone = false → P b → (∀ e, (pull b.source).2 ≠ .error e) →
      P (b.took (pull b.source)))
    (room : ℕ) (b : Buffer S I F) (hb : P b) (hok : (b.fill pull room).2 = none) :
    P (b.fill pull room).1 := by
  induction room generalizing b with
  | zero => exact hb
  | succ room ih =>
    rw [Buffer.fill] at hok ⊢
    by_cases hdone : b.isDone = true
    · rw [if_pos hdone]
      exact hb
    · rw [if_neg hdone] at hok ⊢
      have htook := hpull b (by simpa using hdone) hb
      cases hnext : (pull b.source).2 with
      | item job =>
        simp only [hnext] at hok ⊢
        exact ih _ (htook (by simp [hnext])) hok
      | error e =>
        simp only [hnext] at hok
        cases hok
      | done =>
        simp only [hnext]
        exact htook (by simp [hnext])
      | pending =>
        simp only [hnext]
        exact htook (by simp [hnext])

theorem length_inProgress_fill (pull : S → S × Next E (I × F)) (room : ℕ)
    (b : Buffer S I F) :
    (b.fill pull room).1.inProgress.length ≤ b.inProgress.length + room := by
  induction room generalizing b with
  | zero => exact Nat.le_refl _
  | succ room ih =>
    rw [Buffer.fill]
    split
    · exact Nat.le_add_right _ _
    · dsimp only
      split
      · rename_i job hitem
        have htook : (b.took (pull b.source)).inProgress.length = b.inProgress.length + 1 := by
          simp [Buffer.took, hitem, Next.items]
        have := ih (b.took (pull b.source))
        omega
      · rename_i e herror
        simp [Buffer.took, herror, Next.items]
      · rename_i hother _
        cases hnext : (pull b.source).2 with
        | item job => exact absurd hnext (by simpa using hother job)
        | error e => simp [Buffer.took, hnext, Next.items]
        | done => simp [Buffer.took, hnext, Next.items]
        | pending => simp [Buffer.took, hnext, Next.items]

theorem fill_of_isDone {b : Buffer S I F} (hdone : b.isDone = true) (room : ℕ) :
    b.fill pull room = (b, none) := by
  cases room with
  | zero => rfl
  | succ room => rw [Buffer.fill, if_pos hdone]

/-- A buffer that holds nothing after it has taken jobs, without an error, has ended before or
was told at once that there is nothing to take. -/
theorem fill_of_inProgress_eq_nil {max : ℕ} {b : Buffer S I F} (hmax : 0 < max)
    (hempty : (b.fill pull (max - b.inProgress.length)).1.inProgress = [])
    (hok : (b.fill pull (max - b.inProgress.length)).2 = none) :
    (b.fill pull (max - b.inProgress.length)).1.isDone = true ∨
      (pull b.source).2 = .pending := by
  by_cases hdone : b.isDone = true
  · rw [fill_of_isDone hdone]
    exact .inl hdone
  · obtain ⟨room, hroom⟩ : ∃ room, max - b.inProgress.length = room + 1 := by
      refine Nat.exists_eq_succ_of_ne_zero fun hfull => ?_
      rw [hfull] at hempty
      have hnil : b.inProgress = [] := hempty
      rw [hnil] at hfull
      exact absurd hfull (Nat.ne_of_gt hmax)
    rw [hroom, Buffer.fill, if_neg hdone] at hempty hok ⊢
    cases hnext : (pull b.source).2 with
    | item job =>
      -- A job that was taken stays in the buffer while more of them are taken.
      simp only [hnext] at hempty
      refine absurd hempty (fill_invariant (P := fun b => b.inProgress ≠ []) ?_ room _ ?_)
      · intro b _ hne hnil
        exact hne (List.append_eq_nil_iff.mp hnil).1
      · simp [Buffer.took, hnext, Next.items]
    | error e =>
      simp only [hnext] at hok
      cases hok
    | done =>
      left
      simp [Buffer.took, hnext, Next.isDone]
    | pending => exact .inr rfl

end Fill

/-! ## Polling the futures -/

section PollFutures

variable {poll : A → F → F × Option R}

/-- The jobs that are left, with the one that completed, are the jobs from before. -/
theorem pollFutures_perm (poll : A → F → F × Option R) (schedule : List (ℕ × A))
    (jobs : List (I × F)) :
    (jobs.map Prod.fst).Perm
      ((pollFutures poll schedule jobs).2.toList.map Prod.fst ++
        (pollFutures poll schedule jobs).1.map Prod.fst) := by
  fun_induction pollFutures poll schedule jobs with
  | case1 jobs => exact .refl _
  | case2 position a schedule jobs hnone ih => exact ih
  | case3 position a schedule jobs i f hjob f' hpoll ih =>
    have hsame : (jobs.set position (i, f')).map Prod.fst = jobs.map Prod.fst := by
      apply List.ext_getElem?
      intro n
      rw [List.getElem?_map, List.getElem?_map, List.getElem?_set]
      split
      · rename_i hn
        subst hn
        rw [hjob]
        have hlt := (List.getElem?_eq_some_iff.mp hjob).1
        simp [hlt]
      · rfl
    rwa [hsame] at ih
  | case4 position a schedule jobs i f hjob f' r hpoll =>
    obtain ⟨hlt, hget⟩ := List.getElem?_eq_some_iff.mp hjob
    have hperm := List.getElem_cons_eraseIdx_perm hlt
    rw [hget] at hperm
    simpa using (hperm.map Prod.fst).symm

private theorem forall_mem_set {P : I → F → Prop} {jobs : List (I × F)} {position : ℕ} {i : I}
    {f : F} (hjobs : ∀ job ∈ jobs, P job.1 job.2) (hf : P i f) :
    ∀ job ∈ jobs.set position (i, f), P job.1 job.2 := by
  intro job hmem
  rcases List.mem_or_eq_of_mem_set hmem with hmem | rfl
  · exact hjobs job hmem
  · exact hf

/-- **Invariant rule for futures.** What a poll without a result keeps of a job still holds
of the jobs that are left. -/
theorem pollFutures_invariant {P : I → F → Prop}
    (hpoll : ∀ i f a f', P i f → poll a f = (f', none) → P i f') (schedule : List (ℕ × A))
    (jobs : List (I × F)) (hjobs : ∀ job ∈ jobs, P job.1 job.2) :
    ∀ job ∈ (pollFutures poll schedule jobs).1, P job.1 job.2 := by
  fun_induction pollFutures poll schedule jobs with
  | case1 jobs => exact hjobs
  | case2 position a schedule jobs hnone ih => exact ih hjobs
  | case3 position a schedule jobs i f hjob f' hf ih =>
    exact ih (forall_mem_set hjobs (hpoll i f a f' (hjobs _ (List.mem_of_getElem? hjob)) hf))
  | case4 position a schedule jobs i f hjob f' r hf =>
    exact fun job hmem => hjobs job (List.mem_of_mem_eraseIdx hmem)

/-- The result of a job is what its own future answered. -/
theorem pollFutures_output {P : I → F → Prop}
    (hpoll : ∀ i f a f', P i f → poll a f = (f', none) → P i f') {schedule : List (ℕ × A)}
    {jobs : List (I × F)} (hjobs : ∀ job ∈ jobs, P job.1 job.2) {i : I} {r : R}
    (houtput : (pollFutures poll schedule jobs).2 = some (i, r)) :
    ∃ f a, P i f ∧ (poll a f).2 = some r := by
  fun_induction pollFutures poll schedule jobs with
  | case1 jobs => cases houtput
  | case2 position a schedule jobs hnone ih => exact ih hjobs houtput
  | case3 position a schedule jobs i' f hjob f' hf ih =>
    have hf' : P i' f' := hpoll i' f a f' (hjobs _ (List.mem_of_getElem? hjob)) hf
    exact ih (forall_mem_set hjobs hf') houtput
  | case4 position a schedule jobs i' f hjob f' r' hf =>
    cases houtput
    exact ⟨f, a, hjobs _ (List.mem_of_getElem? hjob), by rw [hf]⟩

/-- The first job completes if its future is polled first and has a result. -/
theorem pollFutures_head {i : I} {f : F} {a : A} {r : R} (hready : (poll a f).2 = some r)
    (schedule : List (ℕ × A)) (jobs : List (I × F)) :
    pollFutures poll ((0, a) :: schedule) ((i, f) :: jobs) = (jobs, some (i, r)) := by
  rw [pollFutures]
  obtain ⟨f', hpoll⟩ : ∃ f', poll a f = (f', some r) := ⟨_, Prod.ext rfl hready⟩
  simp [hpoll]

@[simp] theorem pollFutures_nil (schedule : List (ℕ × A)) :
    pollFutures poll schedule ([] : List (I × F)) = ([], none) := by
  induction schedule with
  | nil => rfl
  | cons head schedule ih => simpa [pollFutures] using ih

end PollFutures

/-! ## Polling the buffer -/

section PollNext

variable {max : ℕ} {pull : S → S × Next E (I × F)} {poll : A → F → F × Option R}
  {schedule : List (ℕ × A)} {b : Buffer S I F}

/-- What a poll of a buffer does, in terms of the buffer after it has taken jobs. -/
inductive Polls (poll : A → F → F × Option R) (schedule : List (ℕ × A))
    (fill : Buffer S I F × Option E) : Buffer S I F × Next E (I × R) → Prop
  /-- The stream has failed. -/
  | error (e : E) (hfill : fill.2 = some e) : Polls poll schedule fill (fill.1, .error e)
  /-- A job has completed. -/
  | item (output : I × R) (jobs : List (I × F)) (hfill : fill.2 = none)
      (hpoll : pollFutures poll schedule fill.1.inProgress = (jobs, some output)) :
      Polls poll schedule fill ({ fill.1 with inProgress := jobs }, .item output)
  /-- All jobs have completed and the stream has ended. -/
  | done (hfill : fill.2 = none) (hdone : fill.1.isDone = true)
      (hpoll : pollFutures poll schedule fill.1.inProgress = ([], none)) :
      Polls poll schedule fill ({ fill.1 with inProgress := [] }, .done)
  /-- No job has completed. -/
  | pending (jobs : List (I × F)) (hfill : fill.2 = none)
      (hpoll : pollFutures poll schedule fill.1.inProgress = (jobs, none))
      (hopen : jobs = [] → fill.1.isDone = false) :
      Polls poll schedule fill ({ fill.1 with inProgress := jobs }, .pending)

/-- A poll takes jobs and then polls their futures. -/
theorem polls_pollNext (max : ℕ) (pull : S → S × Next E (I × F)) (poll : A → F → F × Option R)
    (schedule : List (ℕ × A)) (b : Buffer S I F) :
    Polls poll schedule (b.fill pull (max - b.inProgress.length))
      (b.pollNext max pull poll schedule) := by
  rw [Buffer.pollNext]
  generalize b.fill pull (max - b.inProgress.length) = fill
  obtain ⟨filled, error⟩ := fill
  cases error with
  | some e => exact .error e rfl
  | none =>
    dsimp only
    split
    · rename_i jobs output hpoll
      exact .item output jobs rfl hpoll
    · rename_i jobs hpoll
      by_cases hend : (jobs.isEmpty && filled.isDone) = true
      · rw [if_pos hend]
        rw [Bool.and_eq_true, List.isEmpty_iff] at hend
        obtain ⟨rfl, hdone⟩ := hend
        exact .done rfl hdone hpoll
      · rw [if_neg hend]
        refine .pending jobs rfl hpoll fun hnil => ?_
        simpa [hnil] using hend

/-- A buffer never holds more than its bound. -/
theorem length_inProgress_pollNext (pull : S → S × Next E (I × F)) (poll : A → F → F × Option R)
    (schedule : List (ℕ × A)) (hb : b.inProgress.length ≤ max) :
    (b.pollNext max pull poll schedule).1.inProgress.length ≤ max := by
  have hfill := length_inProgress_fill pull (max - b.inProgress.length) b
  have hpolls := polls_pollNext max pull poll schedule b
  generalize b.fill pull (max - b.inProgress.length) = fill at hfill hpolls
  have hperm (jobs : List (I × F)) (output : Option (I × R))
      (hpoll : pollFutures poll schedule fill.1.inProgress = (jobs, output)) :
      jobs.length ≤ max := by
    have h := (pollFutures_perm poll schedule fill.1.inProgress).length_eq
    rw [hpoll] at h
    simp only [List.length_map, List.length_append] at h
    omega
  generalize b.pollNext max pull poll schedule = result at hpolls
  cases hpolls with
  | error e _ => exact Nat.le_trans hfill (by omega)
  | item output jobs _ hpoll => exact hperm jobs _ hpoll
  | done _ _ _ => exact Nat.zero_le _
  | pending jobs _ hpoll _ => exact hperm jobs _ hpoll

/-- **Progress.** If the first job completes when it is polled, and a buffer without jobs is at
its end, a poll has an answer. -/
theorem pollNext_ne_pending {a : A} (hready : ∀ f, ∃ r, (poll a f).2 = some r)
    (hdone : (b.fill pull (max - b.inProgress.length)).1.inProgress = [] →
      (b.fill pull (max - b.inProgress.length)).2 = none →
      (b.fill pull (max - b.inProgress.length)).1.isDone = true) :
    (b.pollNext max pull poll ((0, a) :: schedule)).2 ≠ .pending := by
  have hpolls := polls_pollNext max pull poll ((0, a) :: schedule) b
  generalize b.fill pull (max - b.inProgress.length) = fill at hpolls hdone
  generalize b.pollNext max pull poll ((0, a) :: schedule) = result at hpolls
  cases hpolls with
  | error e _ => simp
  | item output jobs _ _ => simp
  | done _ _ _ => simp
  | pending jobs hfill hpoll hopen =>
    cases hjobs : fill.1.inProgress with
    | nil =>
      rw [hjobs, pollFutures_nil] at hpoll
      cases hpoll
      cases (hopen rfl).symm.trans (hdone hjobs hfill)
    | cons job jobs' =>
      obtain ⟨r, hr⟩ := hready job.2
      rw [hjobs, pollFutures_head hr] at hpoll
      cases hpoll

end PollNext

end BufferUnordered
