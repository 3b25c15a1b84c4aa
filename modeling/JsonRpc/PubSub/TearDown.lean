import JsonRpc.PubSub.Invariant
import JsonRpc.PubSub.Sink

/-!
# Tearing subscriptions down

An entry leaves its session in one of three ways, and each way determines what the
handler to unsubscribe is told. Every subscription is torn down exactly once, by its own
handler and with its own id, by the time its session is dropped and the threads that
removed something have made their calls.
-/

namespace JsonRpc

namespace PubSub

namespace State

variable {H M : Type} {server : Server H M} {σ : State H M}

/-! ### How an entry leaves its session -/

/-- An entry is in its session. -/
def Active (σ : State H M) (e : Entry H) : Prop := σ.entry e.session (e.id, e.notification) = some e

/-- The calls of handlers for an entry, due or done. -/
def invocationsOf (e : Entry H) (invocations : List (Invocation H M)) : List (Invocation H M) :=
  invocations.filter fun i => i.entry.call = e.call

/-- A step removes an entry, and passes this metadata to the handler. -/
inductive Removes (server : Server H M) (σ : State H M) (e : Entry H) :
    Label M → Option M → Prop where
  /-- An unsubscribe call of the same session has its id and is for its notifications. -/
  | unsubscribed {pair : ℕ} {sub : Subscribe H} {unsub : Unsubscribe H} {metadata : M}
      (hmethods : server.methods pair = some (sub, unsub))
      (hname : unsub.notification = e.notification)
      (hsession : server.session metadata = some e.session) :
      Removes server σ e (.unsubscribe pair (.array [e.id.toValue]) metadata) (some metadata)
  /-- A subscribe call of the same session is assigned its id, and has its name. -/
  | replaced {k : ℕ} {c : SubscribeCall H} (hc : σ.calls[k]? = some c)
      (hpending : c.future = .pending) (hid : c.oneshot = .sent (.ok e.id))
      (hsession : c.session = e.session) (hname : c.notification = e.notification) :
      Removes server σ e (.poll k) none
  /-- The session is dropped. -/
  | dropped (hfree : σ.isHeld e.session = false) : Removes server σ e (.dropSession e.session) none

/-- A step of a run removed an entry, and passed this metadata to the handler. -/
def RemovedBy (server : Server H M) (ls : List (Label M)) (e : Entry H) (metadata : Option M) :
    Prop :=
  Runs.Occurs (step server) init (fun σ l => σ.Active e ∧ σ.Removes server e l metadata) ls

/-- The only parameters with an id are a list with the value of the id. -/
theorem parseId_eq_some {params : Params} {id : SubscriptionId} :
    parseId params = some id ↔ params = .array [id.toValue] := by
  constructor
  · intro h
    unfold parseId at h
    split at h
    · rename_i v
      obtain ⟨content, hcanonical⟩ := v
      unfold SubscriptionId.parseValue at h
      split at h
      all_goals
        rename_i hcontent
        first
        | cases h
          cases hcontent
          rfl
        | cases h
    · cases h
  · rintro rfl
    exact SubscriptionId.parseValue_toValue id

/-- What a step makes due: the handlers of the entries that it removes. -/
structure Progress (server : Server H M) (σ : State H M) (l : Label M) (σ' : State H M)
    (new : List (Invocation H M)) : Prop where
  perm : (σ'.due ++ σ'.invoked).Perm (σ.due ++ new ++ σ.invoked)
  removes : ∀ i ∈ new, σ.Active i.entry ∧ σ.Removes server i.entry l i.metadata

/-- A step that makes nothing due. -/
theorem Progress.quiet {l : Label M} {σ' : State H M} (hdue : σ'.due = σ.due)
    (hinvoked : σ'.invoked = σ.invoked) : Progress server σ l σ' [] :=
  ⟨by rw [hdue, hinvoked, List.append_nil], nofun⟩

/-- A step that makes something due. -/
theorem Progress.append {l : Label M} {σ' : State H M} {new : List (Invocation H M)}
    (hdue : σ'.due = σ.due ++ new) (hinvoked : σ'.invoked = σ.invoked)
    (hnew : ∀ i ∈ new, σ.Active i.entry ∧ σ.Removes server i.entry l i.metadata) :
    Progress server σ l σ' new :=
  ⟨by rw [hdue, hinvoked], hnew⟩

theorem exists_progress_poll (k : ℕ) : ∃ new, Progress server σ (.poll k) (σ.poll k) new := by
  unfold poll
  split
  · rename_i c hc
    split
    · rename_i id hreceived
      obtain ⟨hpending, honeshot⟩ := SubscribeCall.received_eq_ok.mp hreceived
      refine ⟨_, .append rfl rfl fun i hi => ?_⟩
      obtain ⟨e, he, rfl⟩ := List.mem_map.mp hi
      obtain ⟨remove, hremove, rfl⟩ := Option.map_eq_some_iff.mp (Option.mem_toList.mp he)
      exact ⟨congrArg (Option.map _) hremove, .replaced hc hpending honeshot rfl rfl⟩
    · exact ⟨[], .quiet rfl rfl⟩
  · exact ⟨[], .quiet rfl rfl⟩

theorem exists_progress_unsubscribe {pair : ℕ} {sub : Subscribe H} {method : Unsubscribe H}
    (hmethods : server.methods pair = some (sub, method)) (params : Params) (metadata : M) :
    ∃ new, Progress server σ (.unsubscribe pair params metadata)
      (σ.unsubscribe server method params metadata).1 new := by
  unfold unsubscribe
  split
  · rename_i s id hs hid
    dsimp only
    split
    · rename_i remove hremove
      refine ⟨_, .append rfl rfl fun i hi => ?_⟩
      rw [List.mem_singleton.mp hi, parseId_eq_some.mp hid]
      exact ⟨congrArg (Option.map _) hremove, .unsubscribed hmethods rfl hs⟩
    · exact ⟨[], .quiet rfl rfl⟩
  all_goals exact ⟨[], .quiet rfl rfl⟩

theorem exists_progress_dropSession (s : ℕ) :
    ∃ new, Progress server σ (.dropSession s) (σ.dropSession s) new := by
  unfold dropSession
  split
  · exact ⟨[], .quiet rfl rfl⟩
  · rename_i hfree
    rw [Bool.or_eq_true, not_or, Bool.not_eq_true] at hfree
    refine ⟨_, .append rfl rfl fun i hi => ?_⟩
    obtain ⟨e, he, rfl⟩ := List.mem_map.mp hi
    obtain ⟨rfl, hentry⟩ := Session.mem_drain.mp he
    exact ⟨hentry, .dropped hfree.1⟩

theorem progress_invoke (n : ℕ) : Progress server σ (.invoke n) (σ.invoke n) [] := by
  unfold invoke
  split
  · rename_i i hi
    obtain ⟨hlt, rfl⟩ := List.getElem?_eq_some_iff.mp hi
    refine ⟨?_, nofun⟩
    rw [List.append_nil, ← List.append_assoc]
    exact List.perm_append_comm.trans ((List.getElem_cons_eraseIdx_perm hlt).append_right _)
  · exact .quiet rfl rfl

/-- Every step makes the handlers of the entries due that it removes, and no others. -/
theorem exists_progress (server : Server H M) (σ : State H M) (l : Label M) :
    ∃ new, Progress server σ l (σ.step server l) new := by
  cases l with
  | subscribe pair metadata =>
    rw [step]
    split
    · split
      · exact ⟨[], .quiet rfl rfl⟩
      · unfold subscribe
        split <;> exact ⟨[], .quiet rfl rfl⟩
    · exact ⟨[], .quiet rfl rfl⟩
  | add k id spawned =>
    rw [step, add, assignId, send]
    split
    · rename_i σ' heq
      obtain rfl := congrArg Prod.fst heq
      exact ⟨[], .quiet rfl rfl⟩
    · rename_i σ' heq
      obtain rfl := congrArg Prod.fst heq
      exact ⟨[], .quiet rfl rfl⟩
  | poll k => exact exists_progress_poll k
  | unsubscribe pair params metadata =>
    rw [step]
    split
    · rename_i sub method hmethods
      split
      · exact ⟨[], .quiet rfl rfl⟩
      · exact exists_progress_unsubscribe hmethods params metadata
    · exact ⟨[], .quiet rfl rfl⟩
  | invoke n => exact ⟨[], progress_invoke n⟩
  | dropSession s => exact exists_progress_dropSession s
  | assignId | reject | dropSubscriber | dropFuture | cancel | finish =>
    exact ⟨[], .quiet rfl rfl⟩

/-- A handler that is due or was called stays so. -/
theorem mem_invocations_step (server : Server H M) {i : Invocation H M}
    (hi : i ∈ σ.due ++ σ.invoked) (l : Label M) :
    i ∈ (σ.step server l).due ++ (σ.step server l).invoked := by
  obtain ⟨new, hprogress⟩ := exists_progress server σ l
  rw [hprogress.perm.mem_iff]
  simp only [List.mem_append] at hi ⊢
  exact hi.imp_left .inl

/-- Every handler that is due or was called comes from a step that removed its entry. -/
theorem removes_of_mem_invocations {i : Invocation H M} {l : Label M}
    (hi : i ∈ (σ.step server l).due ++ (σ.step server l).invoked) :
    i ∈ σ.due ++ σ.invoked ∨ σ.Active i.entry ∧ σ.Removes server i.entry l i.metadata := by
  obtain ⟨new, hprogress⟩ := exists_progress server σ l
  rw [hprogress.perm.mem_iff] at hi
  simp only [List.mem_append] at hi ⊢
  rcases hi with (hi | hi) | hi
  · exact .inl (.inl hi)
  · exact .inr (hprogress.removes i hi)
  · exact .inl (.inr hi)

theorem Active.lookup_eq {e : Entry H} (h : σ.Active e) :
    (σ.sessions e.session).activeSubscriptions.lookup (e.id, e.notification) =
      some ⟨e.unsubscribe, e.call⟩ := by
  obtain ⟨⟨unsubscribe, call⟩, hlookup, he⟩ := Option.map_eq_some_iff.mp h
  obtain rfl : unsubscribe = e.unsubscribe := congrArg Entry.unsubscribe he
  obtain rfl : call = e.call := congrArg Entry.call he
  exact hlookup

theorem Inv.mem_added_of_active (h : σ.Inv server) {e : Entry H} (hactive : σ.Active e) :
    e ∈ σ.added :=
  (h.ledger.keyed (k := e.key) hactive).2

/-- The entry of every handler that is due or was called was added. -/
theorem Inv.mem_added_of_invocation (h : σ.Inv server) {i : Invocation H M}
    (hi : i ∈ σ.due ++ σ.invoked) : i.entry ∈ σ.added := by
  refine h.ledger.account_added (i.entry, i.metadata) ?_
  rw [State.ledger, ← List.map_append]
  exact List.mem_map_of_mem hi

/-- A removed entry has a handler that is due. -/
theorem Inv.mem_due (h : σ.Inv server) {e : Entry H} {l : Label M} {metadata : Option M}
    (hactive : σ.Active e) (hl : σ.Removes server e l metadata) :
    ⟨e, e.unsubscribe, e.id, metadata⟩ ∈ (σ.step server l).due := by
  have hlookup := hactive.lookup_eq
  have halive : e.session ∉ σ.dropped := by
    intro hdropped
    cases hactive.symm.trans (h.entry_eq_none hdropped _)
  cases hl with
  | @unsubscribed pair sub unsub metadata hmethods hname hsession =>
    obtain ⟨name, handler⟩ := unsub
    obtain rfl : name = e.notification := hname
    have hhandler : handler = e.unsubscribe :=
      server.unsubscribe_eq (Server.mem_subscriptions_of_methods hmethods).2
        (h.mem_subscriptions_of_added (h.mem_added_of_active hactive))
    have hid : parseId (.array [e.id.toValue]) = some e.id := parseId_eq_some.mpr rfl
    have hguard : ¬ ∃ s ∈ server.session metadata, s ∈ σ.dropped := by
      rintro ⟨s, hs, hdropped⟩
      rw [hsession] at hs
      cases hs
      exact halive hdropped
    rw [State.step, hmethods]
    dsimp only
    rw [if_neg hguard]
    simp only [State.unsubscribe, hsession, hid, Session.removeSubscription,
      hlookup, hhandler]
    exact List.mem_append_right _ List.mem_cons_self
  | @replaced k c hc hpending hid hsession hname =>
    obtain ⟨session, name, handler, oneshot, future⟩ := c
    obtain rfl : session = e.session := hsession
    obtain rfl : name = e.notification := hname
    obtain rfl : oneshot = .sent (.ok e.id) := hid
    obtain rfl : future = .pending := hpending
    rw [State.step, State.poll, hc]
    simp only [SubscribeCall.received, State.modifyCall, State.addSubscription,
      Session.addSubscription, hlookup]
    exact List.mem_append_right _ List.mem_cons_self
  | dropped hfree =>
    have hdrain : e ∈ (σ.sessions e.session).drain e.session := Session.mem_drain.mpr ⟨rfl, hactive⟩
    rw [State.step, State.dropSession, hfree, Bool.false_or, if_neg (by simpa using halive)]
    exact List.mem_append_right _ (List.mem_map_of_mem hdrain)

/-! ### Runs -/

/-- A session is dropped, and no thread is busy with it. -/
def IsDropped (σ : State H M) (s : ℕ) : Prop := s ∈ σ.dropped ∧ ∀ i ∈ σ.due, i.entry.session ≠ s

/-- A run after which the threads make the calls that are due. -/
def settled (server : Server H M) (ls : List (Label M)) : List (Label M) :=
  ls ++ List.replicate (after server ls).due.length (.invoke 0)

/-- The calls that are due are made one after the other. -/
theorem run_invoke (server : Server H M) (σ : State H M) (due : List (Invocation H M))
    (hdue : σ.due = due) :
    Runs.run (step server) σ (List.replicate due.length (.invoke 0)) =
      { σ with due := [], invoked := σ.invoked ++ due } := by
  induction due generalizing σ with
  | nil =>
    obtain ⟨sessions, dropped, calls, due, manager, added, invoked⟩ := σ
    obtain rfl : due = [] := hdue
    rw [List.append_nil]
    rfl
  | cons i due ih =>
    have hstep : σ.step server (.invoke 0) = { σ with due, invoked := σ.invoked ++ [i] } := by
      rw [step, invoke, hdue]
      rfl
    rw [List.length_cons, List.replicate_succ, Runs.run, List.foldl_cons, hstep]
    have hrest := ih { σ with due, invoked := σ.invoked ++ [i] } rfl
    rw [List.append_assoc] at hrest
    exact hrest

/-- Nothing but the calls changes when they are made. -/
theorem after_settled (server : Server H M) (ls : List (Label M)) :
    after server (settled server ls) =
      { after server ls with
        due := []
        invoked := (after server ls).invoked ++ (after server ls).due } := by
  rw [after, settled, Runs.run_append]
  exact run_invoke server (after server ls) _ rfl

/-- Every handler that is due or was called after a run comes from a step that removed its
entry. -/
theorem removedBy_of_mem (server : Server H M) (ls : List (Label M)) {i : Invocation H M}
    (hi : i ∈ (after server ls).due ++ (after server ls).invoked) :
    RemovedBy server ls i.entry i.metadata := by
  induction ls using List.reverseRecOn with
  | nil => cases hi
  | append_singleton ls l ih =>
    rw [after_concat] at hi
    exact Runs.occurs_concat.mpr ((removes_of_mem_invocations hi).imp_left ih)

/-- The handler of an entry that was removed is due or was called. -/
theorem RemovedBy.mem {ls : List (Label M)} {e : Entry H} {metadata : Option M}
    (h : RemovedBy server ls e metadata) :
    ⟨e, e.unsubscribe, e.id, metadata⟩ ∈ (after server ls).due ++ (after server ls).invoked := by
  induction ls using List.reverseRecOn with
  | nil => exact absurd h Runs.not_occurs_nil
  | append_singleton ls l ih =>
    rw [after_concat]
    rcases Runs.occurs_concat.mp h with h | ⟨hactive, hremoves⟩
    · exact mem_invocations_step server (ih h) l
    · exact List.mem_append_left _ ((inv_after server ls).mem_due hactive hremoves)

/-- How often the handler of an entry is due or was called. -/
theorem count_ledger (σ : State H M) (e : Entry H) :
    σ.ledger.count Entry.call e = (invocationsOf e (σ.due ++ σ.invoked)).length := by
  rw [Ledger.State.count, ledger, ← List.map_append, List.map_map, List.count_eq_countP,
    List.countP_map, List.countP_eq_length_filter]
  rfl

/-- The handler of an entry that was removed is due or was called once. -/
theorem RemovedBy.invocationsOf_eq {ls : List (Label M)} {e : Entry H} {metadata : Option M}
    (h : RemovedBy server ls e metadata) :
    invocationsOf e ((after server ls).due ++ (after server ls).invoked) =
      [⟨e, e.unsubscribe, e.id, metadata⟩] := by
  have hinv := inv_after server ls
  have hmem : ⟨e, e.unsubscribe, e.id, metadata⟩ ∈
      invocationsOf e ((after server ls).due ++ (after server ls).invoked) :=
    List.mem_filter.mpr ⟨h.mem, decide_eq_true rfl⟩
  have hone :
      (invocationsOf e ((after server ls).due ++ (after server ls).invoked)).length = 1 := by
    have hpos := List.length_pos_of_mem hmem
    rw [← count_ledger] at hpos ⊢
    rcases hinv.ledger.once e (hinv.mem_added_of_invocation h.mem) with ⟨-, hcount⟩ | ⟨-, hcount⟩
    · omega
    · exact hcount
  obtain ⟨i, hi⟩ := List.length_eq_one_iff.mp hone
  rw [hi, List.mem_singleton] at hmem
  rw [hi, hmem]

/-- The handler of every entry that is not in its session is due or was called. -/
theorem Inv.exists_invocation (h : σ.Inv server) {e : Entry H} (he : e ∈ σ.added)
    (hleft : ¬ σ.Active e) : ∃ i ∈ σ.due ++ σ.invoked, i.entry = e := by
  have hone : (invocationsOf e (σ.due ++ σ.invoked)).length = 1 := by
    rw [← count_ledger]
    rcases h.ledger.once e he with ⟨hactive, -⟩ | ⟨-, hcount⟩
    · exact absurd hactive hleft
    · exact hcount
  obtain ⟨i, hi⟩ := List.exists_mem_of_length_pos (hone ▸ Nat.one_pos)
  obtain ⟨hmem, hcall⟩ := List.mem_filter.mp hi
  have hadded := h.mem_added_of_invocation hmem
  exact ⟨i, hmem, h.ledger.eq_of_ident hadded he (of_decide_eq_true hcall)⟩

/-- The handler of an entry that was removed was called once, after the calls that are due. -/
theorem RemovedBy.invocationsOf_settled {ls : List (Label M)} {e : Entry H} {metadata : Option M}
    (h : RemovedBy server ls e metadata) :
    invocationsOf e (after server (settled server ls)).invoked =
      [⟨e, e.unsubscribe, e.id, metadata⟩] := by
  have hone := (RemovedBy.invocationsOf_eq (Runs.Occurs.append h _) : invocationsOf e
    ((after server (settled server ls)).due ++ (after server (settled server ls)).invoked) = _)
  have hdue : (after server (settled server ls)).due = [] :=
    congrArg State.due (after_settled server ls)
  rwa [hdue, List.nil_append] at hone

/-- Every entry of a session that is dropped was removed. -/
theorem exists_removedBy_of_mem_dropped {ls : List (Label M)} {e : Entry H}
    (he : e ∈ (after server ls).added) (hdropped : e.session ∈ (after server ls).dropped) :
    ∃ metadata, RemovedBy server ls e metadata := by
  have hinv := inv_after server ls
  have hleft : ¬ (after server ls).Active e := by
    intro hactive
    cases hactive.symm.trans (hinv.entry_eq_none hdropped _)
  obtain ⟨i, hi, rfl⟩ := hinv.exists_invocation he hleft
  exact ⟨i.metadata, removedBy_of_mem server ls hi⟩

/-- When nothing is due any more for a session, the handlers of its entries that were removed
were called. -/
theorem RemovedBy.invocationsOf_invoked {ls : List (Label M)} {e : Entry H}
    {metadata : Option M} (h : RemovedBy server ls e metadata)
    (hquiet : ∀ i ∈ (after server ls).due, i.entry.session ≠ e.session) :
    invocationsOf e (after server ls).invoked = [⟨e, e.unsubscribe, e.id, metadata⟩] := by
  have hinv := inv_after server ls
  have hadded := hinv.mem_added_of_invocation h.mem
  have hdue : (after server ls).due.filter (fun i => i.entry.call = e.call) = [] := by
    refine List.filter_eq_nil_iff.mpr fun i hi hcall => hquiet i hi ?_
    have hi := hinv.mem_added_of_invocation (List.mem_append_left _ hi)
    rw [hinv.ledger.eq_of_ident hi hadded (of_decide_eq_true hcall)]
  have hone := h.invocationsOf_eq
  rwa [invocationsOf, List.filter_append, hdue, List.nil_append] at hone

/-- A session that nothing holds can be dropped. -/
theorem mem_dropped_dropSession {s : ℕ} (hfree : σ.isHeld s = false) :
    s ∈ (σ.dropSession s).dropped := by
  rw [dropSession, hfree, Bool.false_or]
  split
  · rename_i hdropped
    exact of_decide_eq_true hdropped
  · exact List.mem_cons_self

/-- Every subscription is torn down once. -/
structure TornDown (server : Server H M) (ls : List (Label M)) : Prop where
  /-- Every subscribe call adds at most one entry, for its own subscription. -/
  nodup_added : ((after server ls).added.map Entry.call).Nodup
  mem_subscriptions : ∀ e ∈ (after server ls).added,
    (e.notification, e.unsubscribe) ∈ server.subscriptions
  /-- An entry that a step removes has its own handler called once, with its own id and the
  metadata that the step determines: the call is due, and after the calls that are due it was
  made. -/
  removed : ∀ e metadata, RemovedBy server ls e metadata →
    invocationsOf e ((after server ls).due ++ (after server ls).invoked) =
        [⟨e, e.unsubscribe, e.id, metadata⟩] ∧
      invocationsOf e (after server (settled server ls)).invoked =
        [⟨e, e.unsubscribe, e.id, metadata⟩]
  /-- A session that no future and no thread holds can be dropped. -/
  drops : ∀ s, (after server ls).isHeld s = false →
    s ∈ (after server (ls ++ [.dropSession s])).dropped
  /-- When its session is dropped, a step has removed every entry, and after the calls that
  are due its handler was called. -/
  dropped : ∀ e ∈ (after server ls).added, e.session ∈ (after server ls).dropped →
    ∃ metadata, RemovedBy server ls e metadata ∧
      invocationsOf e (after server (settled server ls)).invoked =
        [⟨e, e.unsubscribe, e.id, metadata⟩]
  /-- By the time no thread is busy with the dropped session, the handler was called. -/
  called : ∀ e ∈ (after server ls).added, (after server ls).IsDropped e.session →
    ∃ metadata, RemovedBy server ls e metadata ∧
      invocationsOf e (after server ls).invoked = [⟨e, e.unsubscribe, e.id, metadata⟩]
  /-- No handler is called otherwise. -/
  invoked : ∀ i ∈ (after server ls).invoked, i.entry ∈ (after server ls).added ∧
    RemovedBy server ls i.entry i.metadata ∧ i.unsubscribe = i.entry.unsubscribe ∧
    i.id = i.entry.id
  /-- An unsubscribe call changes no entry but the one of its session, with its name and
  with the id in its parameters. -/
  unsubscribe : ∀ pair params metadata s key,
    ((after server ls).step server (.unsubscribe pair params metadata)).entry s key ≠
      (after server ls).entry s key →
    server.session metadata = some s ∧ params = .array [key.1.toValue] ∧
      ∃ sub unsub, server.methods pair = some (sub, unsub) ∧ unsub.notification = key.2

/-- An unsubscribe call changes no entry but the one it names. -/
theorem entry_unsubscribe {pair : ℕ} {params : Params} {metadata : M} {s : ℕ}
    {key : SubscriptionId × String}
    (h : (σ.step server (.unsubscribe pair params metadata)).entry s key ≠ σ.entry s key) :
    server.session metadata = some s ∧ params = .array [key.1.toValue] ∧
      ∃ sub unsub, server.methods pair = some (sub, unsub) ∧ unsub.notification = key.2 := by
  rw [step] at h
  split at h
  · rename_i sub method hmethods
    split at h
    · exact absurd rfl h
    · unfold unsubscribe at h
      split at h
      · rename_i s' id hs' hid
        dsimp only at h
        split at h
        · have htable := congrFun (table_removeSubscription σ s' method.notification id) (s, key)
          by_cases hkey : (s, key) = (s', id, method.notification)
          · cases hkey
            exact ⟨hs', parseId_eq_some.mp hid, sub, method, hmethods, rfl⟩
          · rw [Function.update_of_ne hkey] at htable
            exact absurd htable h
        · exact absurd rfl h
      all_goals exact absurd rfl h
  · exact absurd rfl h

/-- **Tearing down.** Every subscription is torn down exactly once by the time its session
is dropped, by its own handler and with its own id. -/
theorem after_tornDown (server : Server H M) (ls : List (Label M)) : TornDown server ls := by
  have hinv := inv_after server ls
  refine { nodup_added := hinv.ledger.nodup_added,
           mem_subscriptions := fun e he => hinv.mem_subscriptions_of_added he,
           removed := fun e metadata h => ⟨h.invocationsOf_eq, h.invocationsOf_settled⟩,
           drops := fun s hfree => ?_,
           dropped := fun e he hdropped => ?_,
           called := fun e he hdropped => ?_,
           invoked := fun i hi => ?_,
           unsubscribe := fun pair params metadata s key h => entry_unsubscribe h }
  · rw [after_concat]
    exact mem_dropped_dropSession hfree
  · obtain ⟨metadata, hremoved⟩ := exists_removedBy_of_mem_dropped he hdropped
    exact ⟨metadata, hremoved, hremoved.invocationsOf_settled⟩
  · obtain ⟨metadata, hremoved⟩ := exists_removedBy_of_mem_dropped he hdropped.1
    exact ⟨metadata, hremoved, hremoved.invocationsOf_invoked hdropped.2⟩
  · have hmem := List.mem_append_right (after server ls).due hi
    exact ⟨hinv.mem_added_of_invocation hmem, removedBy_of_mem server ls hmem,
      hinv.invocation i hmem⟩

/-! ### A session with three subscriptions -/

/-- A server with one subscription. Its metadata are the numbers of sessions. -/
def helloServer : Server Unit ℕ where
  subscriptions := [("hello", ())]
  nodup_names := by decide
  session := some

/-- A client subscribes three times, and the second subscription gets the id of the first one.
The client unsubscribes from the third one, and the connection closes. -/
def closedHello : List (Label ℕ) :=
  [.subscribe 0 0, .assignId 0 (.number 5), .poll 0,
   .subscribe 0 0, .assignId 1 (.number 5), .poll 1, .invoke 0,
   .subscribe 0 0, .assignId 2 (.number 6), .poll 2,
   .unsubscribe 0 (.array [(SubscriptionId.number 6).toValue]) 0, .invoke 0, .dropSession 0]

/-- The handler is called once for each subscription: without metadata for the one that was
replaced and for the one in the session that is dropped. -/
theorem after_tornDown_closedHello :
    TornDown helloServer closedHello ∧ (after helloServer closedHello).dropped = [0] ∧
      (after helloServer (settled helloServer closedHello)).invoked =
        [⟨⟨0, 0, .number 5, "hello", ()⟩, (), .number 5, none⟩,
         ⟨⟨2, 0, .number 6, "hello", ()⟩, (), .number 6, some 0⟩,
         ⟨⟨1, 0, .number 5, "hello", ()⟩, (), .number 5, none⟩] :=
  ⟨after_tornDown helloServer closedHello, rfl, rfl⟩

end State

end PubSub

end JsonRpc
