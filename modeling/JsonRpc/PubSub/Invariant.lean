import JsonRpc.Lib.Ledger
import JsonRpc.PubSub.Session
import Mathlib.Data.List.Perm.Basic

/-!
# Sessions as a ledger

The active subscriptions of all sessions are the table of a ledger in the sense of
`Ledger`: an entry that leaves its session is owed a call of the handler to
unsubscribe. Every step of the server is a step of that ledger or none. Which handler an
unsubscribe call runs is decided by the name of the notification alone. It is the one
of the entry because the names are distinct.
-/

namespace JsonRpc

namespace PubSub

variable {H M : Type}

/-- Where an entry is. -/
def Entry.key (e : Entry H) : ℕ × SubscriptionId × String := (e.session, e.id, e.notification)

/-- The call has added its subscription to the session. -/
def SubscribeCall.IsAdded (c : SubscribeCall H) : Prop :=
  ∃ id result, c.oneshot = .sent (.ok id) ∧ c.future = .complete result

/-- The call has added the entry to the session. -/
structure SubscribeCall.Adds (c : SubscribeCall H) (e : Entry H) : Prop where
  session_eq : c.session = e.session
  notification_eq : c.notification = e.notification
  unsubscribe_eq : c.unsubscribe = e.unsubscribe
  oneshot_eq : c.oneshot = .sent (.ok e.id)
  future_eq : c.future = .complete (.ok e.id.toValue)

theorem SubscribeCall.Adds.isAdded {c : SubscribeCall H} {e : Entry H} (h : c.Adds e) :
    c.IsAdded := ⟨e.id, _, h.oneshot_eq, h.future_eq⟩

/-- A call goes on without adding its subscription. -/
structure SubscribeCall.GoesOn (c c' : SubscribeCall H) : Prop where
  session_eq : c'.session = c.session
  notification_eq : c'.notification = c.notification
  unsubscribe_eq : c'.unsubscribe = c.unsubscribe
  eq_of_isAdded : c.IsAdded → c' = c
  isAdded : c'.IsAdded → c.IsAdded
  pending : c'.future = .pending → c.future = .pending

namespace SubscribeCall

variable {c : SubscribeCall H}

theorem GoesOn.refl (c : SubscribeCall H) : c.GoesOn c := ⟨rfl, rfl, rfl, fun _ => rfl, id, id⟩

/-- A call without an id goes on. -/
theorem GoesOn.of_oneshot {oneshot : Oneshot} (hc : ∀ id, c.oneshot ≠ .sent (.ok id))
    (hnew : c.future = .pending ∨ ∀ id, oneshot ≠ .sent (.ok id)) :
    c.GoesOn { c with oneshot } where
  session_eq := rfl
  notification_eq := rfl
  unsubscribe_eq := rfl
  eq_of_isAdded := fun ⟨id, _, honeshot, _⟩ => absurd honeshot (hc id)
  isAdded := fun ⟨id, result, honeshot, hfuture⟩ => by
    rcases hnew with hpending | hnew
    · cases hpending.symm.trans hfuture
    · exact absurd honeshot (hnew id)
  pending := id

/-- A call with a pending future goes on. -/
theorem GoesOn.of_future {future : SubscribeFuture} (hc : c.future = .pending)
    (hnew : ¬ IsAdded { c with future }) : c.GoesOn { c with future } where
  session_eq := rfl
  notification_eq := rfl
  unsubscribe_eq := rfl
  eq_of_isAdded := fun ⟨_, _, _, hfuture⟩ => by cases hc.symm.trans hfuture
  isAdded := fun h => absurd h hnew
  pending := fun _ => hc

theorem goesOn_send (c : SubscribeCall H) (result : Except Error SubscriptionId) :
    c.GoesOn (c.send result).1 := by
  unfold send
  split
  · rename_i hwaiting hpending
    exact .of_oneshot (by simp [hwaiting]) (.inl hpending)
  · rename_i hwaiting _
    exact .of_oneshot (by simp [hwaiting]) (.inr (by simp))
  · exact .refl c

theorem goesOn_dropSubscriber (c : SubscribeCall H) : c.GoesOn c.dropSubscriber := by
  unfold dropSubscriber
  split
  · rename_i hwaiting
    exact .of_oneshot (by simp [hwaiting]) (.inr (by simp))
  · exact .refl c

theorem goesOn_dropFuture (c : SubscribeCall H) : c.GoesOn c.dropFuture := by
  unfold dropFuture
  split
  · rename_i hpending
    exact .of_future hpending fun ⟨_, _, _, hfuture⟩ => nomatch hfuture
  · exact .refl c

/-- What a future receives. -/
theorem received_eq_ok {id : SubscriptionId} :
    c.received = some (.ok id) ↔ c.future = .pending ∧ c.oneshot = .sent (.ok id) := by
  unfold received
  split
  · rename_i result hpending honeshot
    simp [hpending, honeshot]
  · rename_i hpending honeshot
    simp [hpending, honeshot]
  · rename_i hother _
    refine ⟨nofun, fun ⟨hpending, honeshot⟩ => absurd hpending fun h => ?_⟩
    exact hother _ h honeshot

/-- Only a pending future receives something. -/
theorem future_eq_of_received {result : Except Error SubscriptionId}
    (h : c.received = some result) : c.future = .pending := by
  unfold received at h
  split at h
  · assumption
  · assumption
  · cases h

/-- A future that receives no id goes on. -/
theorem goesOn_poll {c : SubscribeCall H} (h : ∀ id, c.received ≠ some (.ok id)) :
    c.GoesOn c.poll := by
  unfold poll
  split
  · rename_i result hresult
    have hpending := future_eq_of_received hresult
    exact .of_future hpending fun ⟨id, _, honeshot, _⟩ =>
      h id (received_eq_ok.mpr ⟨hpending, honeshot⟩)
  · exact .refl c

/-- A future that receives an id completes with it. -/
theorem poll_of_received {id : SubscriptionId} (h : c.received = some (.ok id)) :
    c.poll = { c with future := .complete (.ok id.toValue) } := by
  unfold poll
  rw [h]
  rfl

end SubscribeCall

namespace State

variable {server : Server H M} {σ : State H M}

/-- The sessions as a ledger. -/
def ledger (σ : State H M) : Ledger.State (ℕ × SubscriptionId × String) (Entry H) (Option M) where
  table := fun key => σ.entry key.1 key.2
  owed := σ.due.map fun invocation => (invocation.entry, invocation.metadata)
  settled := σ.invoked.map fun invocation => (invocation.entry, invocation.metadata)
  added := σ.added

/-- What holds after every step. -/
structure Inv (server : Server H M) (σ : State H M) : Prop where
  ledger : Ledger.Inv Entry.key Entry.call σ.ledger
  /-- Every call is one of a subscription of the server. -/
  mem_subscriptions : ∀ {k : ℕ} {c : SubscribeCall H}, σ.calls[k]? = some c →
    (c.notification, c.unsubscribe) ∈ server.subscriptions
  /-- Every entry was added by its call. -/
  adds : ∀ {e}, e ∈ σ.added → ∃ c, σ.calls[e.call]? = some c ∧ c.Adds e
  /-- Every call that completed with an id has added an entry. -/
  exists_added : ∀ {k : ℕ} {c : SubscribeCall H}, σ.calls[k]? = some c → c.IsAdded →
    ∃ e ∈ σ.added, e.call = k
  /-- Every call of a handler is the one for the entry that was removed. -/
  invocation : ∀ i ∈ σ.due ++ σ.invoked, i.unsubscribe = i.entry.unsubscribe ∧ i.id = i.entry.id
  /-- A dropped session has no entries. -/
  entry_eq_none : ∀ {s}, s ∈ σ.dropped → ∀ key, σ.entry s key = none
  /-- No future holds a dropped session. -/
  not_pending : ∀ {k : ℕ} {c : SubscribeCall H}, σ.calls[k]? = some c → c.session ∈ σ.dropped →
    c.future ≠ .pending

/-- A new server. -/
theorem inv_init (server : Server H M) : init.Inv server where
  ledger := .init
  mem_subscriptions := nofun
  adds := nofun
  exists_added := nofun
  invocation := nofun
  entry_eq_none := nofun
  not_pending := nofun

/-! ### Calls -/

/-- The calls after one of them has changed. -/
theorem getElem?_modify_cases {calls : List (SubscribeCall H)} {k k' : ℕ}
    {f : SubscribeCall H → SubscribeCall H} {c' : SubscribeCall H}
    (h : (calls.modify k f)[k']? = some c') :
    ∃ c, calls[k']? = some c ∧ (k' = k ∧ c' = f c ∨ k' ≠ k ∧ c' = c) := by
  rw [List.getElem?_modify] at h
  obtain ⟨c, hc, rfl⟩ := Option.map_eq_some_iff.mp h
  refine ⟨c, hc, ?_⟩
  by_cases hk : k' = k
  · exact .inl ⟨hk, if_pos hk.symm⟩
  · exact .inr ⟨hk, if_neg (Ne.symm hk)⟩

/-- A call that has not added its subscription has no entry. -/
theorem Inv.call_ne (h : σ.Inv server) {k : ℕ} {c : SubscribeCall H} (hc : σ.calls[k]? = some c)
    (hopen : ¬ c.IsAdded) {e : Entry H} (he : e ∈ σ.added) : e.call ≠ k := by
  rintro rfl
  obtain ⟨c', hc', hadds⟩ := h.adds he
  rw [hc] at hc'
  cases hc'
  exact hopen hadds.isAdded

/-- A call that goes on without adding its subscription keeps the invariant. -/
theorem Inv.modifyCall (h : σ.Inv server) {k : ℕ} {f : SubscribeCall H → SubscribeCall H}
    (hf : ∀ c, σ.calls[k]? = some c → c.GoesOn (f c)) : Inv server (σ.modifyCall k f) := by
  have hcall {k' : ℕ} {c' : SubscribeCall H} (h' : (σ.calls.modify k f)[k']? = some c') :
      ∃ c, σ.calls[k']? = some c ∧ c.GoesOn c' := by
    obtain ⟨c, hc, ⟨rfl, rfl⟩ | ⟨-, rfl⟩⟩ := getElem?_modify_cases h'
    · exact ⟨c, hc, hf c hc⟩
    · exact ⟨c', hc, .refl c'⟩
  refine { h with mem_subscriptions := fun {k' c'} h' => ?_, adds := fun {e} he => ?_,
                  exists_added := fun {k' c'} h' hadded => ?_,
                  not_pending := fun {k' c'} h' hdropped hpending => ?_ }
  · obtain ⟨c, hc, hgoes⟩ := hcall h'
    rw [hgoes.notification_eq, hgoes.unsubscribe_eq]
    exact h.mem_subscriptions hc
  · obtain ⟨c, hc, hadds⟩ := h.adds he
    refine ⟨c, ?_, hadds⟩
    rw [State.modifyCall, List.getElem?_modify, hc]
    by_cases hk : k = e.call
    · subst hk
      simp [(hf c hc).eq_of_isAdded hadds.isAdded]
    · simp [hk]
  · obtain ⟨c, hc, hgoes⟩ := hcall h'
    exact h.exists_added hc (hgoes.isAdded hadded)
  · obtain ⟨c, hc, hgoes⟩ := hcall h'
    rw [hgoes.session_eq] at hdropped
    exact h.not_pending hc hdropped (hgoes.pending hpending)

/-- A subscribe call keeps the invariant. -/
theorem Inv.subscribe (h : σ.Inv server) {method : Subscribe H}
    (hmethod : (method.notification, method.unsubscribe) ∈ server.subscriptions) {metadata : M}
    (halive : ¬ ∃ s ∈ server.session metadata, s ∈ σ.dropped) :
    Inv server (σ.subscribe server method metadata).1 := by
  unfold State.subscribe
  split
  · rename_i s hs
    let new : SubscribeCall H := ⟨s, method.notification, method.unsubscribe, .waiting, .pending⟩
    have hget {k : ℕ} {c : SubscribeCall H} (hk : (σ.calls ++ [new])[k]? = some c) :
        σ.calls[k]? = some c ∨ c = new := by
      rcases lt_or_ge k σ.calls.length with hlt | hge
      · rw [List.getElem?_append_left hlt] at hk
        exact .inl hk
      · rw [List.getElem?_append_right hge] at hk
        exact .inr (List.mem_singleton.mp (List.mem_of_getElem? hk))
    refine { h with mem_subscriptions := fun {k c} hk => ?_, adds := fun {e} he => ?_,
                    exists_added := fun {k c} hk hadded => ?_,
                    not_pending := fun {k c} hk hdropped => ?_ }
    · rcases hget hk with hk | rfl
      · exact h.mem_subscriptions hk
      · exact hmethod
    · obtain ⟨c, hc, hadds⟩ := h.adds he
      exact ⟨c, List.getElem?_append_left (List.getElem?_eq_some_iff.mp hc).1 ▸ hc, hadds⟩
    · rcases hget hk with hk | rfl
      · exact h.exists_added hk hadded
      · obtain ⟨id, result, honeshot, -⟩ := hadded
        cases honeshot
    · rcases hget hk with hk | rfl
      · exact h.not_pending hk hdropped
      · exact absurd ⟨s, hs, hdropped⟩ halive
  · exact h

/-- Sending to the future of a call keeps the invariant. -/
theorem Inv.send (h : σ.Inv server) (k : ℕ) (result : Except Error SubscriptionId) :
    Inv server (σ.send k result).1 :=
  h.modifyCall fun c _ => c.goesOn_send result

/-! ### Adding and removing entries -/

/-- The entries after the session of one number has changed. -/
theorem entry_update (σ : State H M) (s : ℕ) (session : Session H) (s' : ℕ)
    (key : SubscriptionId × String) :
    ((Function.update σ.sessions s session) s').entry s' key =
      if s' = s then session.entry s key else σ.entry s' key := by
  by_cases hs : s' = s
  · subst hs
    rw [Function.update_self, if_pos rfl]
  · rw [Function.update_of_ne hs, if_neg hs]
    rfl

/-- A session that changes at one key changes the table at one key. -/
theorem table_update (σ : State H M) {s : ℕ} {session : Session H} {key : SubscriptionId × String}
    {e : Option (Entry H)}
    (hsession : ∀ key', session.entry s key' = if key' = key then e else σ.entry s key') :
    (fun key' : ℕ × SubscriptionId × String =>
      ((Function.update σ.sessions s session) key'.1).entry key'.1 key'.2) =
      Function.update σ.ledger.table (s, key) e := by
  funext ⟨s', key'⟩
  refine (entry_update σ s session s' key').trans ?_
  by_cases hs : s' = s
  · subst hs
    rw [if_pos rfl, hsession]
    by_cases hkey : key' = key
    · subst hkey
      rw [if_pos rfl, Function.update_self]
    · rw [if_neg hkey, Function.update_of_ne (by simpa using hkey)]
      rfl
  · rw [if_neg hs, Function.update_of_ne (by simp [hs])]
    rfl

/-- Adding a subscription is adding an entry to the table. -/
theorem table_addSubscription (σ : State H M) (k : ℕ) (c : SubscribeCall H) (id : SubscriptionId) :
    (σ.addSubscription k c id).ledger.table =
      Function.update σ.ledger.table (c.session, id, c.notification)
        (some ⟨k, c.session, id, c.notification, c.unsubscribe⟩) := by
  refine table_update σ fun key => ?_
  by_cases hkey : key = (id, c.notification)
  · subst hkey
    simp [Session.entry, Remove.entry]
  · simp [Session.entry, State.entry, hkey]

/-- Removing a subscription is removing an entry from the table. -/
theorem table_removeSubscription (σ : State H M) (s : ℕ) (name : String) (id : SubscriptionId) :
    (fun key : ℕ × SubscriptionId × String => ((Function.update σ.sessions s
      ((σ.sessions s).removeSubscription name id).1) key.1).entry key.1 key.2) =
      Function.update σ.ledger.table (s, id, name) none := by
  refine table_update σ fun key => ?_
  by_cases hkey : key = (id, name)
  · subst hkey
    simp [Session.removeSubscription, Session.entry]
  · simp [Session.removeSubscription, Session.entry, State.entry, hkey]

/-- More handlers are due for entries that were removed. -/
theorem Inv.invocation_append (h : σ.Inv server) {new : List (Invocation H M)}
    (hnew : ∀ i ∈ new, i.unsubscribe = i.entry.unsubscribe ∧ i.id = i.entry.id) :
    ∀ i ∈ (σ.due ++ new) ++ σ.invoked,
      i.unsubscribe = i.entry.unsubscribe ∧ i.id = i.entry.id := by
  intro i hi
  simp only [List.mem_append] at hi
  rcases hi with (hi | hi) | hi
  · exact h.invocation i (List.mem_append_left _ hi)
  · exact hnew i hi
  · exact h.invocation i (List.mem_append_right _ hi)

/-- Adding the subscription of a call keeps the invariant. -/
theorem Inv.addSubscription (h : σ.Inv server) {k : ℕ} {c : SubscribeCall H}
    (hc : σ.calls[k]? = some c) {id : SubscriptionId} (hreceived : c.received = some (.ok id)) :
    Inv server ((σ.addSubscription k c id).modifyCall k SubscribeCall.poll) := by
  let e : Entry H := ⟨k, c.session, id, c.notification, c.unsubscribe⟩
  obtain ⟨hpending, honeshot⟩ := SubscribeCall.received_eq_ok.mp hreceived
  have hopen : ¬ c.IsAdded := fun ⟨_, _, _, hfuture⟩ => by cases hpending.symm.trans hfuture
  have hfresh : e.call ∉ σ.added.map Entry.call := by
    intro hmem
    obtain ⟨e', he', hcall⟩ := List.mem_map.mp hmem
    exact h.call_ne hc hopen he' hcall
  have hpoll := SubscribeCall.poll_of_received hreceived
  have hcall {k' : ℕ} {c' : SubscribeCall H}
      (h' : (σ.calls.modify k SubscribeCall.poll)[k']? = some c') :
      k' = k ∧ c' = c.poll ∨ σ.calls[k']? = some c' := by
    obtain ⟨c'', hc'', ⟨rfl, rfl⟩ | ⟨-, rfl⟩⟩ := getElem?_modify_cases h'
    · rw [hc] at hc''
      cases hc''
      exact .inl ⟨rfl, rfl⟩
    · exact .inr hc''
  refine { ledger := ?_, mem_subscriptions := fun {k' c'} h' => ?_, adds := fun {e'} he' => ?_,
           exists_added := fun {k' c'} h' hadded => ?_, invocation := fun i hi => ?_,
           entry_eq_none := fun {s} hs key => ?_, not_pending := fun {k' c'} h' hdropped => ?_ }
  · have howed : (σ.addSubscription k c id).ledger.owed =
        σ.ledger.owed ++ (σ.ledger.table e.key).toList.map (·, none) := by
      rw [State.ledger, State.addSubscription, List.map_append, List.map_map]
      rfl
    exact (h.ledger.step (.add e none hfresh)).of_eq (table_addSubscription σ k c id) howed rfl rfl
  · rcases hcall h' with ⟨-, rfl⟩ | h'
    · rw [hpoll]
      exact h.mem_subscriptions (c := c) hc
    · exact h.mem_subscriptions h'
  · rcases List.mem_append.mp he' with he' | he'
    · obtain ⟨c', hc', hadds'⟩ := h.adds he'
      refine ⟨c', ?_, hadds'⟩
      exact (List.getElem?_modify_ne _ _ (h.call_ne hc hopen he').symm).trans hc'
    · rw [List.mem_singleton.mp he']
      refine ⟨c.poll, ?_, ?_⟩
      · exact (List.getElem?_modify_eq _ _ _).trans (congrArg (Option.map _) hc)
      · rw [hpoll]
        exact ⟨rfl, rfl, rfl, honeshot, rfl⟩
  · rcases hcall h' with ⟨rfl, -⟩ | h'
    · exact ⟨e, List.mem_append_right _ List.mem_cons_self, rfl⟩
    · obtain ⟨e', he', hcall⟩ := h.exists_added h' hadded
      exact ⟨e', List.mem_append_left _ he', hcall⟩
  · refine h.invocation_append (fun i hi => ?_) i hi
    obtain ⟨e', -, rfl⟩ := List.mem_map.mp hi
    exact ⟨rfl, rfl⟩
  · have hne : s ≠ c.session := by
      rintro rfl
      exact h.not_pending hc hs hpending
    refine (entry_update σ _ _ s key).trans ?_
    rw [if_neg hne]
    exact h.entry_eq_none hs key
  · rcases hcall h' with ⟨-, rfl⟩ | h'
    · rw [hpoll]
      nofun
    · exact h.not_pending h' hdropped

/-- Polling the future of a call keeps the invariant. -/
theorem Inv.poll (h : σ.Inv server) (k : ℕ) : Inv server (σ.poll k) := by
  unfold State.poll
  split
  · rename_i c hc
    split
    · rename_i id hreceived
      exact h.addSubscription hc hreceived
    · rename_i hreceived
      refine h.modifyCall fun c' hc' => ?_
      cases hc.symm.trans hc'
      exact SubscribeCall.goesOn_poll hreceived
  · exact h

/-- The handler of an entry is the one of its subscription. -/
theorem Inv.mem_subscriptions_of_added (h : σ.Inv server) {e : Entry H} (he : e ∈ σ.added) :
    (e.notification, e.unsubscribe) ∈ server.subscriptions := by
  obtain ⟨c, hc, hadds⟩ := h.adds he
  have hmem := h.mem_subscriptions hc
  rwa [hadds.notification_eq, hadds.unsubscribe_eq] at hmem

end State

/-- The name of the notifications determines the handler. -/
theorem Server.unsubscribe_eq (server : Server H M) {name : String} {u u' : H}
    (hu : (name, u) ∈ server.subscriptions) (hu' : (name, u') ∈ server.subscriptions) : u = u' :=
  congrArg Prod.snd (List.inj_on_of_nodup_map server.nodup_names hu hu' rfl)

/-- The methods of a subscription are those of one in the list. -/
theorem Server.mem_subscriptions_of_methods {server : Server H M} {pair : ℕ} {sub : Subscribe H}
    {unsub : Unsubscribe H} (h : server.methods pair = some (sub, unsub)) :
    (sub.notification, sub.unsubscribe) ∈ server.subscriptions ∧
      (unsub.notification, unsub.unsubscribe) ∈ server.subscriptions := by
  obtain ⟨⟨name, u⟩, hpair, hmethods⟩ := Option.map_eq_some_iff.mp h
  cases hmethods
  exact ⟨List.mem_of_getElem? hpair, List.mem_of_getElem? hpair⟩

/-- The entries of a session. -/
theorem Session.mem_drain {session : Session H} {s : ℕ} {e : Entry H} :
    e ∈ session.drain s ↔ e.session = s ∧ session.entry s (e.id, e.notification) = some e := by
  constructor
  · intro he
    obtain ⟨⟨key, remove⟩, hmem, rfl⟩ := List.mem_map.mp he
    exact ⟨rfl, congrArg (Option.map _) (AList.mem_lookup_iff.mpr hmem)⟩
  · rintro ⟨rfl, he⟩
    obtain ⟨remove, hlookup, he⟩ := Option.map_eq_some_iff.mp he
    exact List.mem_map.mpr ⟨_, AList.mem_lookup_iff.mp hlookup, he⟩

theorem Session.nodup_drain (session : Session H) (s : ℕ) :
    ((session.drain s).map Entry.key).Nodup := by
  have hmap : (session.drain s).map Entry.key =
      session.activeSubscriptions.keys.map fun key => (s, key) := by
    rw [Session.drain, AList.keys, List.keys, List.map_map, List.map_map]
    rfl
  rw [hmap]
  exact session.activeSubscriptions.keys_nodup.map (Prod.mk_right_injective s)

namespace State

variable {server : Server H M} {σ : State H M}

/-- Removing an entry for an unsubscribe call keeps the invariant. -/
theorem Inv.unsubscribe (h : σ.Inv server) {method : Unsubscribe H}
    (hmethod : (method.notification, method.unsubscribe) ∈ server.subscriptions) (params : Params)
    (metadata : M) : Inv server (σ.unsubscribe server method params metadata).1 := by
  unfold State.unsubscribe
  split
  · rename_i s id hs hid
    dsimp only
    split
    · rename_i remove hremove
      have hentry : σ.ledger.table (s, id, method.notification) =
          some (remove.entry s (id, method.notification)) := congrArg (Option.map _) hremove
      have hadded := (h.ledger.keyed hentry).2
      have hhandler := server.unsubscribe_eq hmethod (h.mem_subscriptions_of_added hadded)
      refine { h with
        ledger := ?_
        invocation := h.invocation_append fun i hi => ?_
        entry_eq_none := fun {s'} hs' key => ?_ }
      · have hstep := h.ledger.step
          (.remove (remove.entry s (id, method.notification)) (some metadata) hentry)
        exact hstep.of_eq (table_removeSubscription σ s method.notification id) List.map_append rfl
          rfl
      · rw [List.mem_singleton.mp hi]
        exact ⟨hhandler, rfl⟩
      · refine (entry_update σ _ _ s' key).trans ?_
        split
        · rename_i heq
          subst heq
          cases hentry.symm.trans (h.entry_eq_none hs' _)
        · exact h.entry_eq_none hs' key
    · exact h
  · exact h
  · exact h

/-- Calling a handler that is due keeps the invariant. -/
theorem Inv.invoke (h : σ.Inv server) (n : ℕ) : Inv server (σ.invoke n) := by
  unfold State.invoke
  split
  · rename_i i hi
    obtain ⟨hlt, rfl⟩ := List.getElem?_eq_some_iff.mp hi
    have hperm : σ.due.Perm (σ.due[n] :: σ.due.eraseIdx n) :=
      (List.getElem_cons_eraseIdx_perm hlt).symm
    refine { h with ledger := ?_, invocation := fun j hj => h.invocation j ?_ }
    · have hstep := h.ledger.step (.settle _ _ (hperm.map _))
      exact hstep.of_eq rfl rfl List.map_append rfl
    · have hmoved : (σ.due.eraseIdx n ++ (σ.invoked ++ [σ.due[n]])).Perm (σ.due ++ σ.invoked) := by
        rw [← List.append_assoc]
        exact List.perm_append_comm.trans (hperm.symm.append_right σ.invoked)
      exact hmoved.mem_iff.mp hj
  · exact h

/-- Dropping a session keeps the invariant. -/
theorem Inv.dropSession (h : σ.Inv server) (s : ℕ) : Inv server (σ.dropSession s) := by
  unfold State.dropSession
  split
  · exact h
  · rename_i hfree
    rw [Bool.or_eq_true, not_or, decide_eq_true_eq, isHeld, Bool.or_eq_true, not_or] at hfree
    have htable : (fun key : ℕ × SubscriptionId × String =>
        ((Function.update σ.sessions s .new) key.1).entry key.1 key.2) =
        fun key => if key.1 = s then none else σ.ledger.table key := by
      funext ⟨s', key⟩
      exact entry_update σ s .new s' key
    refine { h with
      ledger := ?_
      invocation := h.invocation_append fun i hi => ?_
      entry_eq_none := fun {s'} hs' key => ?_
      not_pending := fun {k c} hc hdropped => ?_ }
    · have hout (e : Entry H) : e ∈ (σ.sessions s).drain s ↔
          e.key.1 = s ∧ σ.ledger.table e.key = some e := by
        rw [Session.mem_drain]
        refine and_congr_right fun hs => ?_
        rw [← hs]
        rfl
      have hnodup : (((σ.sessions s).drain s).map Entry.call).Nodup := by
        refine List.Nodup.map_on (fun e he e' he' hcall => ?_) ((Session.nodup_drain _ s).of_map _)
        exact h.ledger.eq_of_ident (h.ledger.keyed ((hout e).mp he).2).2
          (h.ledger.keyed ((hout e').mp he').2).2 hcall
      have howed : (σ.due ++ ((σ.sessions s).drain s).map Entry.remove).map
          (fun invocation : Invocation H M => (invocation.entry, invocation.metadata)) =
          σ.ledger.owed ++ ((σ.sessions s).drain s).map (·, none) := by
        rw [List.map_append, List.map_map]
        rfl
      have hstep := h.ledger.step (.clear (fun key => key.1 = s) _ none hnodup hout)
      exact hstep.of_eq htable howed rfl rfl
    · obtain ⟨e, -, rfl⟩ := List.mem_map.mp hi
      exact ⟨rfl, rfl⟩
    · refine (entry_update σ s .new s' key).trans ?_
      split
      · rfl
      · rename_i hne
        exact h.entry_eq_none ((List.mem_cons.mp hs').resolve_left hne) key
    · rcases List.mem_cons.mp hdropped with hs | hs
      · intro hpending
        apply hfree.1.1
        rw [List.any_eq_true]
        exact ⟨c, List.mem_of_getElem? hc, by simp [hs, hpending]⟩
      · exact h.not_pending hc hs

/-- Every step keeps the invariant. -/
theorem Inv.step (h : σ.Inv server) (l : Label M) : Inv server (σ.step server l) := by
  cases l with
  | subscribe pair metadata =>
    rw [State.step]
    split
    · rename_i method unsub hmethods
      split
      · exact h
      · rename_i halive
        exact h.subscribe (Server.mem_subscriptions_of_methods hmethods).1 halive
    · exact h
  | assignId k id => exact h.send k _
  | add k id spawned =>
    have hsend : Inv server (σ.assignId k id).1 := h.send k _
    rw [State.step, State.add]
    split
    · rename_i σ' heq
      rw [heq] at hsend
      exact { hsend with }
    · rename_i σ' heq
      rw [heq] at hsend
      exact hsend
  | reject k error => exact h.send k _
  | dropSubscriber k => exact h.modifyCall fun c _ => c.goesOn_dropSubscriber
  | poll k => exact h.poll k
  | dropFuture k => exact h.modifyCall fun c _ => c.goesOn_dropFuture
  | unsubscribe pair params metadata =>
    rw [State.step]
    split
    · rename_i sub method hmethods
      split
      · exact h
      · exact h.unsubscribe (Server.mem_subscriptions_of_methods hmethods).2 params metadata
    · exact h
  | invoke n => exact h.invoke n
  | dropSession s => exact h.dropSession s
  | cancel id => exact { h with }
  | finish k => exact { h with }

/-- The invariant holds after every run. -/
theorem inv_after (server : Server H M) (ls : List (Label M)) : (after server ls).Inv server :=
  Runs.run_invariant (inv_init server) (fun _ l h => h.step l) ls

end State

end PubSub

end JsonRpc
