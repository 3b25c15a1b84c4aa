import JsonRpc.PubSub.TearDown

/-!
# Orphaned subscriptions

A handler that has assigned an id holds a sink, and may run a task that writes to it.
The subscription is added to the session only when the future of the call is polled
afterwards. If the transport drops the future in between, the id is lost, and nobody
will ever unsubscribe.
-/

namespace JsonRpc

namespace PubSub

variable {H M : Type}

/-- What a step does to the subscribe call of a number. -/
def SubscribeCall.step (c : SubscribeCall H) (k : ℕ) : Label M → SubscribeCall H
  | .assignId call id | .add call id _ => if call = k then (c.send (.ok id)).1 else c
  | .reject call error => if call = k then (c.send (.error error)).1 else c
  | .dropSubscriber call => if call = k then c.dropSubscriber else c
  | .poll call => if call = k then c.poll else c
  | .dropFuture call => if call = k then c.dropFuture else c
  | _ => c

/-- A step in which the handler of a call assigns an id, directly or with the manager. -/
def Label.Assigns (l : Label M) (k : ℕ) (id : SubscriptionId) : Prop :=
  l = .assignId k id ∨ ∃ spawned, l = .add k id spawned

namespace SubscribeCall

variable {c : SubscribeCall H} {id : SubscriptionId}

/-- The call was assigned an id. -/
def IsAssigned (c : SubscribeCall H) (id : SubscriptionId) : Prop := c.oneshot = .sent (.ok id)

/-- The call was assigned an id, and its future is dropped. -/
def IsOrphaned (c : SubscribeCall H) : Prop := (∃ id, c.IsAssigned id) ∧ c.future = .dropped

/-- The call was assigned an id, and its future is still to be polled. -/
def HoldsId (c : SubscribeCall H) : Prop := (∃ id, c.IsAssigned id) ∧ c.future = .pending

theorem isAssigned_send (result : Except Error SubscriptionId) :
    (c.send result).1.IsAssigned id ↔
      c.IsAssigned id ∨ result = .ok id ∧ (c.send result).2 = true := by
  unfold send
  split
  · rename_i hwaiting hpending
    simp [IsAssigned, hwaiting]
  · rename_i hwaiting hfuture
    simp [IsAssigned, hwaiting]
  · simp

theorem isOrphaned_send (result : Except Error SubscriptionId) :
    (c.send result).1.IsOrphaned ↔ c.IsOrphaned := by
  unfold send
  split
  · rename_i hwaiting hpending
    simp [IsOrphaned, IsAssigned, hpending]
  · rename_i hwaiting hfuture
    simp [IsOrphaned, IsAssigned, hwaiting]
  · exact .rfl

theorem isAssigned_dropSubscriber : c.dropSubscriber.IsAssigned id ↔ c.IsAssigned id := by
  unfold dropSubscriber
  split
  · rename_i hwaiting
    simp [IsAssigned, hwaiting]
  · exact .rfl

@[simp] theorem future_dropSubscriber : c.dropSubscriber.future = c.future := by
  unfold dropSubscriber
  split <;> rfl

@[simp] theorem oneshot_poll : c.poll.oneshot = c.oneshot := by
  unfold poll
  split <;> rfl

@[simp] theorem oneshot_dropFuture : c.dropFuture.oneshot = c.oneshot := by
  unfold dropFuture
  split <;> rfl

/-- A future that was dropped is never polled. -/
theorem future_poll_eq_dropped : c.poll.future = .dropped ↔ c.future = .dropped := by
  unfold poll
  split
  · rename_i result hreceived
    simp [future_eq_of_received hreceived]
  · exact .rfl

theorem future_dropFuture_eq_dropped :
    c.dropFuture.future = .dropped ↔ c.future = .dropped ∨ c.future = .pending := by
  unfold dropFuture
  split
  · rename_i hpending
    simp [hpending]
  · rename_i hfuture
    simp [show ¬ c.future = .pending from hfuture]

/-- A call is assigned an id when its subscriber finds the future there. -/
theorem isAssigned_step (k : ℕ) (l : Label M) :
    (c.step k l).IsAssigned id ↔
      c.IsAssigned id ∨ l.Assigns k id ∧ (c.send (.ok id)).2 = true := by
  cases l with
  | assignId call id' | add call id' spawned =>
    rw [step, Label.Assigns]
    split
    · rename_i hcall
      rw [isAssigned_send]
      constructor
      · rintro (h | ⟨hid, hsend⟩)
        · exact .inl h
        · cases hid
          exact .inr ⟨by simp [hcall], hsend⟩
      · rintro (h | ⟨hl, hsend⟩)
        · exact .inl h
        · simp at hl
          exact .inr ⟨by simp [hl.2], hl.2 ▸ hsend⟩
    · rename_i hcall
      simp [hcall]
  | reject call error =>
    rw [step, Label.Assigns]
    split
    · simp [isAssigned_send]
    · simp
  | dropSubscriber call =>
    rw [step, Label.Assigns]
    split
    · simp [isAssigned_dropSubscriber]
    · simp
  | poll call | dropFuture call =>
    rw [step, Label.Assigns]
    split
    · simp [IsAssigned]
    · simp
  | subscribe | unsubscribe | invoke | dropSession | cancel | finish => simp [step, Label.Assigns]

/-- A call is orphaned when its future is dropped with the id. -/
theorem isOrphaned_step (k : ℕ) (l : Label M) :
    (c.step k l).IsOrphaned ↔ c.IsOrphaned ∨ l = .dropFuture k ∧ c.HoldsId := by
  cases l with
  | assignId call id | add call id spawned | reject call error =>
    rw [step]
    split <;> simp [isOrphaned_send]
  | dropSubscriber call =>
    rw [step]
    split <;> simp [IsOrphaned, isAssigned_dropSubscriber]
  | poll call =>
    rw [step]
    split <;> simp [IsOrphaned, IsAssigned, future_poll_eq_dropped]
  | dropFuture call =>
    rw [step]
    split
    · rename_i hcall
      simp [IsOrphaned, HoldsId, IsAssigned, future_dropFuture_eq_dropped, hcall, and_or_left]
    · rename_i hcall
      simp [hcall]
  | subscribe | unsubscribe | invoke | dropSession | cancel | finish => simp [step]

end SubscribeCall

namespace State

variable {server : Server H M} {σ : State H M} {k : ℕ}

theorem getElem?_modifyCall (σ : State H M) (call k : ℕ) (f : SubscribeCall H → SubscribeCall H) :
    (σ.modifyCall call f).calls[k]? = σ.calls[k]?.map fun c => if call = k then f c else c :=
  List.getElem?_modify f call σ.calls k

theorem calls_add (σ : State H M) (call : ℕ) (id : SubscriptionId) (spawned : Bool) :
    (σ.add call id spawned).calls = (σ.modifyCall call fun c => (c.send (.ok id)).1).calls := by
  rw [add, assignId, send]
  split
  · rename_i σ' heq
    exact (congrArg (State.calls ∘ Prod.fst) heq).symm
  · rename_i σ' heq
    exact (congrArg (State.calls ∘ Prod.fst) heq).symm

theorem calls_poll (σ : State H M) (call : ℕ) :
    (σ.poll call).calls = (σ.modifyCall call SubscribeCall.poll).calls := by
  unfold poll
  split
  · split <;> rfl
  · rename_i hnone
    rw [modifyCall, List.modify_eq_self (List.getElem?_eq_none_iff.mp hnone)]

theorem calls_unsubscribe (σ : State H M) (method : Unsubscribe H) (params : Params)
    (metadata : M) : (σ.unsubscribe server method params metadata).1.calls = σ.calls := by
  unfold unsubscribe
  split
  · dsimp only
    split <;> rfl
  all_goals rfl

/-- What a step does to the subscribe calls, and the calls that it adds. -/
theorem getElem?_calls_step (server : Server H M) (σ : State H M) (k : ℕ) (l : Label M) :
    (σ.step server l).calls[k]? = σ.calls[k]?.map (·.step k l) ∨
      σ.calls[k]? = none ∧ ∀ c ∈ (σ.step server l).calls[k]?, c.oneshot = .waiting := by
  -- Most steps that are about no call leave all calls as they are.
  have hquiet {calls : List (SubscribeCall H)} (hcalls : calls = σ.calls)
      (hstep : ∀ c : SubscribeCall H, c.step k l = c) :
      calls[k]? = σ.calls[k]?.map (·.step k l) := by
    rw [hcalls, show (fun c : SubscribeCall H => c.step k l) = id from funext hstep, Option.map_id]
    rfl
  cases l with
  | subscribe pair metadata =>
    rw [step]
    split
    · split
      · exact .inl (hquiet rfl fun _ => rfl)
      · unfold subscribe
        split
        · rcases lt_or_ge k σ.calls.length with hlt | hge
          · left
            rw [List.getElem?_append_left hlt]
            exact hquiet rfl fun _ => rfl
          · refine .inr ⟨List.getElem?_eq_none hge, fun c hc => ?_⟩
            rw [List.getElem?_append_right hge] at hc
            rw [List.mem_singleton.mp (List.mem_of_getElem? hc)]
        · exact .inl (hquiet rfl fun _ => rfl)
    · exact .inl (hquiet rfl fun _ => rfl)
  | assignId call id | reject call error | dropSubscriber call | dropFuture call =>
    exact .inl (getElem?_modifyCall σ call k _)
  | add call id spawned =>
    rw [step, calls_add]
    exact .inl (getElem?_modifyCall σ call k _)
  | poll call =>
    rw [step, calls_poll]
    exact .inl (getElem?_modifyCall σ call k _)
  | unsubscribe pair params metadata =>
    refine .inl (hquiet ?_ fun _ => rfl)
    rw [step]
    split
    · split
      · rfl
      · exact calls_unsubscribe σ _ params metadata
    · rfl
  | invoke n =>
    refine .inl (hquiet ?_ fun _ => rfl)
    rw [step, invoke]
    split <;> rfl
  | dropSession s =>
    refine .inl (hquiet ?_ fun _ => rfl)
    rw [step, dropSession]
    split <;> rfl
  | cancel | finish => exact .inl (hquiet rfl fun _ => rfl)

/-- A property of calls that a new call does not have, after a step. -/
theorem exists_call_step {P : SubscribeCall H → Prop} (hnew : ∀ c, c.oneshot = .waiting → ¬ P c)
    (l : Label M) : (∃ c, (σ.step server l).calls[k]? = some c ∧ P c) ↔
      ∃ c, σ.calls[k]? = some c ∧ P (c.step k l) := by
  rcases getElem?_calls_step server σ k l with hstep | ⟨hnone, hwaiting⟩
  · rw [hstep]
    cases σ.calls[k]? with
    | none => simp
    | some c => simp
  · rw [hnone]
    constructor
    · rintro ⟨c, hc, hP⟩
      exact absurd hP (hnew c (hwaiting c hc))
    · rintro ⟨c, hc, -⟩
      cases hc

/-! ### Runs -/

/-- The handler of a call has assigned an id, and was given a sink. -/
def Assigned (server : Server H M) (ls : List (Label M)) (k : ℕ) (id : SubscriptionId) : Prop :=
  Runs.Occurs (step server) init
    (fun σ l => l.Assigns k id ∧ (σ.assignId k id).2 = true) ls

/-- The transport has dropped the future of a call between the assignment of an id and the
next poll. -/
def Abandoned (server : Server H M) (ls : List (Label M)) (k : ℕ) : Prop :=
  Runs.Occurs (step server) init
    (fun σ l => l = .dropFuture k ∧ ∃ c, σ.calls[k]? = some c ∧ c.HoldsId) ls

theorem assigned_iff (server : Server H M) (ls : List (Label M)) (k : ℕ) (id : SubscriptionId) :
    Assigned server ls k id ↔ ∃ c, (after server ls).calls[k]? = some c ∧ c.IsAssigned id := by
  refine Runs.occurs_iff (Q := fun σ : State H M => ∃ c, σ.calls[k]? = some c ∧ c.IsAssigned id)
    (by simp [init]) (fun σ l => ?_) ls
  rw [exists_call_step (by simp +contextual [SubscribeCall.IsAssigned])]
  simp only [SubscribeCall.isAssigned_step, assignId, send]
  cases σ.calls[k]? with
  | none => simp
  | some c => simp

theorem abandoned_iff (server : Server H M) (ls : List (Label M)) (k : ℕ) :
    Abandoned server ls k ↔ ∃ c, (after server ls).calls[k]? = some c ∧ c.IsOrphaned := by
  refine Runs.occurs_iff (Q := fun σ : State H M => ∃ c, σ.calls[k]? = some c ∧ c.IsOrphaned)
    (by simp [init]) (fun σ l => ?_) ls
  rw [exists_call_step
    (by simp +contextual [SubscribeCall.IsOrphaned, SubscribeCall.IsAssigned])]
  simp only [SubscribeCall.isOrphaned_step]
  cases σ.calls[k]? with
  | none => simp
  | some c => simp

/-- Whoever was given a sink has the handler to unsubscribe called exactly once, with the
id that was assigned, when the session is dropped and the calls that are due are made. -/
def NoOrphans (server : Server H M) (ls : List (Label M)) : Prop :=
  ∀ k id c, Assigned server ls k id → (after server ls).calls[k]? = some c →
    c.session ∈ (after server ls).dropped →
    ∃ i : Invocation H M,
      ((after server (settled server ls)).invoked.filter fun i => i.entry.call = k) = [i] ∧
        i.unsubscribe = c.unsubscribe ∧ i.id = id

/-- **Orphans.** Nobody is orphaned in a run if and only if the transport drops no future
between the assignment of an id and the next poll, in the sessions that are dropped. -/
theorem noOrphans_iff (server : Server H M) (ls : List (Label M)) :
    NoOrphans server ls ↔
      ∀ k c, (after server ls).calls[k]? = some c → c.session ∈ (after server ls).dropped →
        ¬ Abandoned server ls k := by
  have hinv := inv_after server ls
  constructor
  · intro h k c hc hdropped habandoned
    obtain ⟨c', hc', ⟨id, hassigned⟩, hfuture⟩ := (abandoned_iff server ls k).mp habandoned
    cases hc.symm.trans hc'
    have hassigned' := (assigned_iff server ls k id).mpr ⟨c, hc, hassigned⟩
    obtain ⟨i, hi, -, -⟩ := h k id c hassigned' hc hdropped
    have hmem : i ∈ (after server (settled server ls)).invoked.filter
        fun i => i.entry.call = k := by rw [hi]; simp
    obtain ⟨hinvoked, hcall⟩ := List.mem_filter.mp hmem
    rw [after_settled] at hinvoked
    have hadded := hinv.mem_added_of_invocation (List.perm_append_comm.mem_iff.mp hinvoked)
    refine hinv.call_ne hc ?_ hadded (of_decide_eq_true hcall)
    rintro ⟨_, _, -, hcomplete⟩
    cases hfuture.symm.trans hcomplete
  · intro h k id c hassigned hc hdropped
    obtain ⟨c', hc', hid⟩ := (assigned_iff server ls k id).mp hassigned
    cases hc.symm.trans hc'
    cases hfuture : c.future with
    | pending => exact absurd hfuture (hinv.not_pending hc hdropped)
    | dropped =>
      exact absurd ((abandoned_iff server ls k).mpr ⟨c, hc, ⟨id, hid⟩, hfuture⟩) (h k c hc hdropped)
    | complete result =>
      obtain ⟨e, he, rfl⟩ := hinv.exists_added hc ⟨id, result, hid, hfuture⟩
      obtain ⟨c', hc', hadds⟩ := hinv.adds he
      cases hc.symm.trans hc'
      obtain ⟨metadata, hremoved⟩ :=
        exists_removedBy_of_mem_dropped he (hadds.session_eq ▸ hdropped)
      refine ⟨_, hremoved.invocationsOf_settled, hadds.unsubscribe_eq.symm, ?_⟩
      cases hid.symm.trans hadds.oneshot_eq
      rfl

/-! ### A future that is dropped too early -/

/-- A client subscribes. The handler passes the subscriber to the manager, which is given a
sink and starts a task. The connection closes before the future is polled again. -/
def lostId : List (Label ℕ) :=
  [.subscribe 0 0, .add 0 (.number 5) true, .dropFuture 0, .dropSession 0]

/-- The session is dropped, no handler to unsubscribe was called or is due, and the task of
the manager runs on. -/
theorem not_noOrphans_lostId :
    ¬ NoOrphans helloServer lostId ∧ (after helloServer lostId).IsDropped 0 ∧
      (after helloServer (settled helloServer lostId)).invoked = [] ∧
      (after helloServer lostId).manager.tasks = [0] ∧
      (after helloServer lostId).manager.activeSubscriptions.lookup (.number 5) = some 0 := by
  have hdropped : (after helloServer lostId).IsDropped 0 :=
    ⟨List.mem_cons_self, nofun⟩
  refine ⟨fun h => ?_, hdropped, rfl, rfl, rfl⟩
  have hassigned : Assigned helloServer lostId 0 (.number 5) :=
    (assigned_iff _ _ _ _).mpr ⟨_, rfl, rfl⟩
  obtain ⟨i, hi, -⟩ := h 0 (.number 5) _ hassigned rfl hdropped.1
  cases hi

end State

end PubSub

end JsonRpc
