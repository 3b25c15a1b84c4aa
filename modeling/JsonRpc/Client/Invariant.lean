import JsonRpc.Client.Duplex
import JsonRpc.Lib.Correlator
import Mathlib.Algebra.Group.Nat.Defs

/-!
# The duplex as a correlator

The request ids, the pending requests and the queue of incoming messages of the
duplex form a correlator. The invariant of the duplex says that its view as a
correlator is reachable, that the queue is empty outside the two loops that use
it, and that the ids and the channels of the clients are numbered one after
another. Every step keeps it.
-/

namespace JsonRpc

/-! ## The view -/

/-- The event of the correlator in what happened. -/
def Happening.event (json : SerdeJson) :
    Happening → Option (Correlator.Event Id PendingRequest Message)
  | .issued id => some (.issued id)
  | .registered call _ pending => some (.registered call.id pending)
  | .received response => (parseResponse json response).toOption.map .arrived
  | .processed message consumed => some (.handled message consumed)
  | _ => none

/-- The events of the correlator in a trace. -/
def events (json : SerdeJson) (trace : List Happening) :
    List (Correlator.Event Id PendingRequest Message) :=
  trace.filterMap (Happening.event json)

/-- The id of the request with a number. -/
def freshId (n : ℕ) : Id := .num (UInt64.ofNat n)

/-- The ids that were handed out. -/
def issuedIds (trace : List Happening) : List Id :=
  trace.filterMap fun
    | .issued id => some id
    | _ => none

/-- The results a call received. -/
def deliveries (sender : ℕ) (trace : List Happening) : List (RpcResult Value) :=
  trace.filterMap fun
    | .delivered s result => if s = sender then some result else none
    | _ => none

/-- The calls of the clients, with their methods and parameters. -/
def calledCalls (trace : List Happening) : List (ℕ × String × Params) :=
  trace.filterMap fun
    | .called sender method params => some (sender, method, params)
    | _ => none

/-- The calls that were registered, with their methods and parameters. -/
def registeredCalls (trace : List Happening) : List (ℕ × String × Params) :=
  trace.filterMap fun
    | .registered call _ (.call sender) => some (sender, call.method, call.params)
    | _ => none

/-- The channels of the subscriptions that were registered. -/
def registeredChannels (trace : List Happening) : List ℕ :=
  trace.filterMap fun
    | .registered _ _ (.subscription subscription) => some subscription.channel
    | _ => none

/-- The calls among the messages of the clients. -/
def mailboxCalls (mailbox : List RpcMessage) : List (ℕ × String × Params) :=
  mailbox.filterMap fun
    | .call method params sender => some (sender, method, params)
    | _ => none

/-- The channels of the subscriptions among the messages of the clients. -/
def mailboxChannels (mailbox : List RpcMessage) : List ℕ :=
  mailbox.filterMap fun
    | .subscribe _ _ _ _ sender => some sender
    | _ => none

/-- In these phases the queue of incoming messages is empty. -/
def Phase.isDrained : Phase → Bool
  | .idle | .client | .outgoing | .sink => true
  | _ => false

/-- The duplex as a correlator. -/
def World.view (json : SerdeJson) (w : World) : Correlator.State Id PendingRequest Message where
  count := (issuedIds w.trace).length
  pending id := w.pendingRequests.lookup id
  queue := w.incoming
  trace := events json w.trace

@[simp] theorem World.view_trace (json : SerdeJson) (w : World) :
    (w.view json).trace = events json w.trace := rfl

section Append

variable (json : SerdeJson) (trace trace' : List Happening)

@[simp] theorem events_append :
    events json (trace ++ trace') = events json trace ++ events json trace' :=
  List.filterMap_append

@[simp] theorem events_nil : events json [] = [] := rfl

@[simp] theorem events_cons (h : Happening) :
    events json (h :: trace) = (h.event json).toList ++ events json trace := by
  cases hevent : h.event json <;> simp [events, hevent]

@[simp] theorem issuedIds_append :
    issuedIds (trace ++ trace') = issuedIds trace ++ issuedIds trace' :=
  List.filterMap_append

@[simp] theorem deliveries_append (sender : ℕ) :
    deliveries sender (trace ++ trace') = deliveries sender trace ++ deliveries sender trace' :=
  List.filterMap_append

@[simp] theorem calledCalls_append :
    calledCalls (trace ++ trace') = calledCalls trace ++ calledCalls trace' :=
  List.filterMap_append

@[simp] theorem registeredCalls_append :
    registeredCalls (trace ++ trace') = registeredCalls trace ++ registeredCalls trace' :=
  List.filterMap_append

@[simp] theorem registeredChannels_append :
    registeredChannels (trace ++ trace') = registeredChannels trace ++ registeredChannels trace' :=
  List.filterMap_append

end Append

/-- The waiters of the correlator are the registered calls and subscriptions. -/
theorem mem_registered_events {json : SerdeJson} {trace : List Happening}
    {pending : PendingRequest} :
    pending ∈ Correlator.registered (events json trace) ↔
      ∃ call text, .registered call text pending ∈ trace := by
  simp only [Correlator.registered, events, List.mem_filterMap]
  constructor
  · rintro ⟨e, ⟨h, hmem, he⟩, hp⟩
    cases h with
    | registered call text p =>
      cases he
      cases hp
      exact ⟨call, text, hmem⟩
    | received s =>
      obtain ⟨m, _, rfl⟩ := Option.map_eq_some_iff.mp he
      cases hp
    | _ => cases he <;> cases hp
  · rintro ⟨call, text, hmem⟩
    exact ⟨_, ⟨_, hmem, rfl⟩, rfl⟩

/-- A call is a waiter when it is one of the registered calls. -/
theorem call_mem_registered_iff {json : SerdeJson} {trace : List Happening} {sender : ℕ} :
    .call sender ∈ Correlator.registered (events json trace) ↔
      sender ∈ (registeredCalls trace).map Prod.fst := by
  rw [mem_registered_events]
  simp only [registeredCalls, List.mem_map, List.mem_filterMap]
  constructor
  · rintro ⟨call, text, hmem⟩
    exact ⟨_, ⟨_, hmem, rfl⟩, rfl⟩
  · rintro ⟨_, ⟨h, hmem, hh⟩, rfl⟩
    split at hh
    · obtain rfl := Option.some.inj hh
      exact ⟨_, _, hmem⟩
    · cases hh

/-- The channel of a subscription that is a waiter is registered. -/
theorem channel_mem_registeredChannels {json : SerdeJson} {trace : List Happening}
    {subscription : Subscription}
    (h : .subscription subscription ∈ Correlator.registered (events json trace)) :
    subscription.channel ∈ registeredChannels trace := by
  obtain ⟨call, text, hmem⟩ := mem_registered_events.mp h
  exact List.mem_filterMap.mpr ⟨_, hmem, rfl⟩

/-- The ids that the correlator handed out. -/
theorem issued_events (json : SerdeJson) (trace : List Happening) :
    Correlator.issued (events json trace) = issuedIds trace := by
  induction trace with
  | nil => rfl
  | cons h trace ih =>
    rw [← List.singleton_append, events_append, Correlator.issued_append, issuedIds_append, ih]
    congr 1
    cases h with
    | received s =>
      simp only [events, List.filterMap_cons, Happening.event, List.filterMap_nil]
      cases (parseResponse json s).toOption <;> rfl
    | _ => rfl

/-! ## The invariant -/

/-- The ids, the calls and the channels are numbered one after another. -/
structure World.Numbered (json : SerdeJson) (w : World) : Prop where
  /-- The builder counts the ids it handed out. -/
  builder_eq : w.requestBuilder.id = UInt64.ofNat (issuedIds w.trace).length
  /-- The calls are registered in their order. -/
  calls_eq : registeredCalls w.trace ++ mailboxCalls w.mailbox = calledCalls w.trace
  /-- The calls are numbered. -/
  called_eq : (calledCalls w.trace).map Prod.fst = List.range w.nextCall
  /-- The subscriptions are numbered. -/
  channels_eq : registeredChannels w.trace ++ mailboxChannels w.mailbox = List.range w.nextChannel
  /-- The text of a request is that of its call. -/
  text_eq : ∀ {call text pending}, .registered call text pending ∈ w.trace →
    text = call.text json
  /-- As long as the ids are distinct, none is pending when it is handed out. -/
  not_reused : (issuedIds w.trace).length ≤ 2 ^ 64 → ∀ id, .reused id ∉ w.trace

/-- What holds of the duplex after every run. -/
structure World.Inv (json : SerdeJson) (w : World) : Prop extends w.Numbered json where
  /-- The view is a reachable correlator. -/
  reachable : Correlator.Reachable Message.id freshId (w.view json)
  /-- The queue is empty outside the loops that use it. -/
  drained : w.phase.isDrained → w.incoming = []
  /-- A call receives only results of messages that consumed it. -/
  deliveries_sublist : ∀ sender, (deliveries sender w.trace).Sublist
    ((Correlator.consumers (.call sender) (events json w.trace)).map Message.result)
  /-- A call whose receiver is there receives all of them. -/
  deliveries_eq : ∀ sender ∉ w.droppedCalls, deliveries sender w.trace =
    (Correlator.consumers (.call sender) (events json w.trace)).map Message.result

/-- What neither numbers nor registers anything. -/
def Happening.isQuiet : Happening → Bool
  | .queued _ | .sent _ | .received _ | .processed _ _ | .delivered _ _ | .notified _ _ => true
  | _ => false

/-- What neither the correlator nor a call sees. -/
def Happening.isSilent : Happening → Bool
  | .queued _ | .sent _ | .notified _ _ => true
  | _ => false

section Quiet

variable {happenings : List Happening} (hquiet : happenings.all Happening.isQuiet)
include hquiet

theorem issuedIds_quiet : issuedIds happenings = [] :=
  Runs.filterMap_eq_nil_of_all hquiet fun h hh => by
    cases h with
    | issued => cases hh
    | _ => rfl

theorem calledCalls_quiet : calledCalls happenings = [] :=
  Runs.filterMap_eq_nil_of_all hquiet fun h hh => by
    cases h with
    | called => cases hh
    | _ => rfl

theorem registered_notMem_quiet (call : MethodCall) (text : String) (pending : PendingRequest) :
    .registered call text pending ∉ happenings :=
  fun hmem => absurd (List.all_eq_true.mp hquiet _ hmem) nofun

theorem registeredCalls_quiet : registeredCalls happenings = [] :=
  Runs.filterMap_eq_nil_of_all hquiet fun h hh => by
    cases h with
    | registered => cases hh
    | _ => rfl

theorem registeredChannels_quiet : registeredChannels happenings = [] :=
  Runs.filterMap_eq_nil_of_all hquiet fun h hh => by
    cases h with
    | registered => cases hh
    | _ => rfl

/-- Quiet happenings keep everything numbered. -/
theorem World.Numbered.quiet {json : SerdeJson} {w : World} (h : w.Numbered json) :
    (w.emit happenings).Numbered json where
  builder_eq := by simpa [emit, issuedIds_quiet hquiet] using h.builder_eq
  calls_eq := by
    simpa [emit, registeredCalls_quiet hquiet, calledCalls_quiet hquiet] using h.calls_eq
  called_eq := by simpa [emit, calledCalls_quiet hquiet] using h.called_eq
  channels_eq := by simpa [emit, registeredChannels_quiet hquiet] using h.channels_eq
  text_eq hmem := h.text_eq (by simpa [emit, registered_notMem_quiet hquiet] using hmem)
  not_reused hcount id hmem := by
    rcases List.mem_append.mp hmem with hmem | hmem
    · exact h.not_reused (by simpa [emit, issuedIds_quiet hquiet] using hcount) id hmem
    · exact absurd (List.all_eq_true.mp hquiet _ hmem) nofun

end Quiet

/-- Inserting an entry updates the lookup function. -/
theorem lookup_insert_eq_update {α : Type} [DecidableEq α] {β : Type} (k : α) (v : β)
    (m : AList fun _ : α => β) :
    (fun k' => (m.insert k v).lookup k') = Function.update (fun k' => m.lookup k') k (some v) := by
  funext k'
  by_cases hne : k' = k
  · subst hne
    simp
  · simp [hne]

/-- Erasing an entry updates the lookup function. -/
theorem lookup_erase_eq_update {α : Type} [DecidableEq α] {β : Type} (k : α)
    (m : AList fun _ : α => β) :
    (fun k' => (m.erase k).lookup k') = Function.update (fun k' => m.lookup k') k none := by
  funext k'
  by_cases hne : k' = k
  · subst hne
    simp
  · simp [hne]

/-- Erasing a key without an entry changes nothing. -/
theorem erase_of_lookup_eq_none {α : Type} [DecidableEq α] {β : Type} {k : α}
    {m : AList fun _ : α => β} (h : m.lookup k = none) : m.erase k = m :=
  AList.ext (List.kerase_of_notMem_keys (AList.lookup_eq_none.mp h))

namespace World

variable {json : SerdeJson} {w : World}

/-- A new duplex satisfies the invariant. -/
theorem inv_init (json : SerdeJson) : init.Inv json where
  reachable := .refl
  builder_eq := rfl
  drained _ := rfl
  calls_eq := rfl
  called_eq := rfl
  channels_eq := rfl
  deliveries_sublist _ := .slnil
  deliveries_eq _ _ := rfl
  text_eq h := by cases h
  not_reused _ _ h := by cases h

/-- Distinct numbers below the bound have distinct ids. -/
theorem freshId_injective : ∀ a < 2 ^ 64, ∀ b < 2 ^ 64, freshId a = freshId b → a = b := by
  intro a ha b hb h
  have := congrArg UInt64.toNat (Id.num.inj h)
  rwa [UInt64.toNat_ofNat_of_lt' ha, UInt64.toNat_ofNat_of_lt' hb] at this

/-- As long as the ids are distinct, the view is a sound correlator. -/
theorem Inv.sound (h : w.Inv json) (hcount : (issuedIds w.trace).length ≤ 2 ^ 64) :
    Correlator.Sound Message.id freshId (w.view json) :=
  h.reachable.sound freshId_injective hcount

/-! ### The steps of the clients -/

/-- A call of a client keeps the invariant. -/
theorem Inv.called (h : w.Inv json) (method : String) (params : Params) :
    Inv json
      { w with
        nextCall := w.nextCall + 1
        mailbox := w.mailbox ++ [.call method params w.nextCall]
        trace := w.trace ++ [.called w.nextCall method params] } where
  reachable := by simpa [view, issuedIds, Happening.event] using h.reachable
  builder_eq := by simpa [issuedIds] using h.builder_eq
  drained := h.drained
  calls_eq := by
    simpa [registeredCalls, calledCalls, mailboxCalls, ← List.append_assoc] using h.calls_eq
  called_eq := by
    rw [calledCalls_append, List.map_append, h.called_eq, List.range_succ]
    rfl
  channels_eq := by
    simpa [registeredChannels, mailboxChannels, List.filterMap_cons] using h.channels_eq
  deliveries_sublist sender := by
    simpa [deliveries, Happening.event] using h.deliveries_sublist sender
  deliveries_eq sender hsender := by
    simpa [deliveries, Happening.event] using h.deliveries_eq sender hsender
  text_eq hmem := h.text_eq (by simpa using hmem)
  not_reused hcount id := by
    simpa using h.not_reused (by simpa [issuedIds] using hcount) id

/-- The notification of a client keeps the invariant. -/
theorem Inv.notify (h : w.Inv json) (method : String) (params : Params) :
    Inv json { w with mailbox := w.mailbox ++ [.notify method params] } :=
  { h with
    calls_eq := by simpa [mailboxCalls] using h.calls_eq
    channels_eq := by simpa [mailboxChannels] using h.channels_eq }

/-- The subscription of a client keeps the invariant. -/
theorem Inv.subscribed (h : w.Inv json) (subscribe : String) (params : Params)
    (notification unsubscribe : String) :
    Inv json
      { w with
        nextChannel := w.nextChannel + 1
        mailbox := w.mailbox ++
          [.subscribe subscribe params notification unsubscribe w.nextChannel] } :=
  { h with
    calls_eq := by simpa [mailboxCalls] using h.calls_eq
    channels_eq := by
      rw [mailboxChannels, List.filterMap_append, ← List.append_assoc]
      exact (congrArg (· ++ [w.nextChannel]) h.channels_eq).trans List.range_succ.symm }

/-! ### Registering a request -/

/-- The id of the next request. -/
theorem Numbered.num_id (h : w.Numbered json) :
    Id.num w.requestBuilder.id = freshId (issuedIds w.trace).length := by
  rw [h.builder_eq, freshId]

/-- The builder counts on. -/
theorem Numbered.id_add_one (h : w.Numbered json) :
    w.requestBuilder.id + 1 = UInt64.ofNat ((issuedIds w.trace).length + 1) := by
  rw [h.builder_eq, UInt64.ofNat_add]
  rfl

/-- The calls that are registered or wait in the mailbox are distinct. -/
theorem Numbered.nodup_calls (h : w.Numbered json) :
    ((registeredCalls w.trace).map Prod.fst ++ (mailboxCalls w.mailbox).map Prod.fst).Nodup := by
  rw [← List.map_append, h.calls_eq, h.called_eq]
  exact List.nodup_range

/-- The first call in the mailbox is not registered. -/
theorem Inv.call_notMem_registered (h : w.Inv json) {method : String} {params : Params}
    {sender : ℕ} {mailbox : List RpcMessage}
    (hmailbox : w.mailbox = .call method params sender :: mailbox) :
    .call sender ∉ Correlator.registered (events json w.trace) := by
  have hnodup := h.nodup_calls
  rw [hmailbox, List.nodup_append] at hnodup
  rw [call_mem_registered_iff]
  exact fun hmem => hnodup.2.2 _ hmem _ List.mem_cons_self rfl

/-- The channel of the first subscription in the mailbox is not registered. -/
theorem Inv.subscription_notMem_registered (h : w.Inv json) {message : RpcMessage}
    {subscription : Subscription} {mailbox : List RpcMessage}
    (hmailbox : w.mailbox = message :: mailbox)
    (hmessage : mailboxChannels [message] = [subscription.channel]) :
    .subscription subscription ∉ Correlator.registered (events json w.trace) := by
  have hnodup : (registeredChannels w.trace ++ mailboxChannels w.mailbox).Nodup := by
    rw [h.channels_eq]
    exact List.nodup_range
  rw [hmailbox, ← List.singleton_append, mailboxChannels, List.filterMap_append,
    ← mailboxChannels, hmessage, List.nodup_append] at hnodup
  exact fun hmem => hnodup.2.2 _ (channel_mem_registeredChannels hmem) _ List.mem_cons_self rfl

/-- As long as the ids are distinct, the next one is not pending. -/
theorem Inv.lookup_eq_none (h : w.Inv json) (hcount : (issuedIds w.trace).length < 2 ^ 64) :
    w.pendingRequests.lookup (.num w.requestBuilder.id) = none := by
  have hs := h.sound hcount.le
  rw [h.num_id]
  exact hs.pending_fresh (hs.fresh_notMem_issued freshId_injective hcount)

section Registration

variable (json w) (call : MethodCall) (pending : PendingRequest)

@[simp] theorem events_registration :
    events json (w.registration json call pending) =
      [.issued call.id, .registered call.id pending] := by
  unfold registration
  split <;> simp [Happening.event]

@[simp] theorem issuedIds_registration :
    issuedIds (w.registration json call pending) = [call.id] := by
  unfold registration
  split <;> rfl

@[simp] theorem deliveries_registration (sender : ℕ) :
    deliveries sender (w.registration json call pending) = [] := by
  unfold registration
  split <;> rfl

@[simp] theorem calledCalls_registration :
    calledCalls (w.registration json call pending) = [] := by
  unfold registration
  split <;> rfl

@[simp] theorem registeredCalls_registration :
    registeredCalls (w.registration json call pending) =
      registeredCalls [.registered call (call.text json) pending] := by
  unfold registration
  split <;> rfl

@[simp] theorem registeredChannels_registration :
    registeredChannels (w.registration json call pending) =
      registeredChannels [.registered call (call.text json) pending] := by
  unfold registration
  split <;> rfl

end Registration

/-- Registering the first message in the mailbox keeps everything numbered. -/
theorem Numbered.register (h : w.Numbered json) {message : RpcMessage} {mailbox : List RpcMessage}
    (hmailbox : w.mailbox = message :: mailbox) {call : MethodCall} {pending : PendingRequest}
    (hlookup : (issuedIds w.trace).length < 2 ^ 64 → w.pendingRequests.lookup call.id = none)
    (hcalls : registeredCalls [.registered call (call.text json) pending] =
      mailboxCalls [message])
    (hchannels : registeredChannels [.registered call (call.text json) pending] =
      mailboxChannels [message]) :
    Numbered json
      ({ w with mailbox }.register json (call, ⟨w.requestBuilder.id + 1⟩) pending) := by
  have htrace : ({ w with mailbox }.register json (call, ⟨w.requestBuilder.id + 1⟩) pending).trace =
      w.trace ++ w.registration json call pending := rfl
  refine { builder_eq := ?_, calls_eq := ?_, called_eq := ?_, channels_eq := ?_, text_eq := ?_,
           not_reused := ?_ }
  · rw [htrace, issuedIds_append, issuedIds_registration, List.length_append]
    exact h.id_add_one
  · rw [htrace, registeredCalls_append, calledCalls_append, registeredCalls_registration, hcalls,
      calledCalls_registration, List.append_nil, ← h.calls_eq, hmailbox, List.append_assoc]
    exact congrArg _ (List.filterMap_append (l := [message])).symm
  · rw [htrace, calledCalls_append, calledCalls_registration, List.append_nil]
    exact h.called_eq
  · refine Eq.trans ?_ h.channels_eq
    rw [htrace, registeredChannels_append, registeredChannels_registration, hchannels,
      List.append_assoc, hmailbox]
    exact congrArg _ (List.filterMap_append (l := [message])).symm
  · intro call' text pending' hmem
    rw [htrace, List.mem_append] at hmem
    rcases hmem with hmem | hmem
    · exact h.text_eq hmem
    · unfold registration at hmem
      split at hmem <;> simp_all
  · intro hcount id hmem
    rw [htrace, issuedIds_append, issuedIds_registration, List.length_append,
      List.length_singleton] at hcount
    have hnone := hlookup hcount
    simp [htrace, registration, hnone, h.not_reused (by omega) id] at hmem

/-- Registering the first message in the mailbox keeps the invariant. -/
theorem Inv.register (h : w.Inv json) {message : RpcMessage} {mailbox : List RpcMessage}
    (hmailbox : w.mailbox = message :: mailbox) (hincoming : w.incoming = [])
    {call : MethodCall} {pending : PendingRequest} (hid : call.id = .num w.requestBuilder.id)
    (hpending : pending ∉ Correlator.registered (events json w.trace))
    (hcalls : registeredCalls [.registered call (call.text json) pending] =
      mailboxCalls [message])
    (hchannels : registeredChannels [.registered call (call.text json) pending] =
      mailboxChannels [message]) :
    Inv json
      ({ w with mailbox }.register json (call, ⟨w.requestBuilder.id + 1⟩) pending) := by
  have hfresh : call.id = freshId (issuedIds w.trace).length := hid.trans h.num_id
  have htrace : ({ w with mailbox }.register json (call, ⟨w.requestBuilder.id + 1⟩) pending).trace =
      w.trace ++ w.registration json call pending := rfl
  refine { toNumbered := h.toNumbered.register hmailbox ?_ hcalls hchannels, reachable := ?_,
           drained := fun _ => hincoming, deliveries_sublist := fun sender => ?_,
           deliveries_eq := fun sender hsender => ?_ }
  · rw [hid]
    exact h.lookup_eq_none
  · have hview : ({ w with mailbox }.register json (call, ⟨w.requestBuilder.id + 1⟩) pending).view
        json = { w.view json with
          count := (w.view json).count + 1
          pending := Function.update (w.view json).pending (freshId (w.view json).count)
            (some pending)
          trace := (w.view json).trace ++ [.issued (freshId (w.view json).count),
            .registered (freshId (w.view json).count) pending] } := by
      simp only [view, htrace, events_append, events_registration, issuedIds_append,
        issuedIds_registration, hfresh, List.length_append, List.length_singleton]
      simp only [World.register, lookup_insert_eq_update, hfresh]
    rw [hview]
    exact h.reachable.step _ _ (.register _ pending hincoming hpending)
  · rw [htrace]
    simpa [Correlator.consumers] using h.deliveries_sublist sender
  · rw [htrace]
    simpa [Correlator.consumers] using h.deliveries_eq sender hsender

/-- What neither the correlator nor a call sees keeps the invariant. -/
theorem Inv.silent (h : w.Inv json) {happening : Happening} (hsilent : happening.isSilent) :
    Inv json (w.emit [happening]) := by
  have hquiet : [happening].all Happening.isQuiet := by
    cases happening with
    | queued | sent | notified => rfl
    | _ => cases hsilent
  have hevents : events json [happening] = [] := by
    cases happening with
    | queued | sent | notified => rfl
    | _ => cases hsilent
  have hdeliveries : ∀ sender, deliveries sender [happening] = [] := by
    cases happening with
    | queued | sent | notified => exact fun _ => rfl
    | _ => cases hsilent
  refine { toNumbered := h.toNumbered.quiet hquiet, reachable := ?_, drained := h.drained,
           deliveries_sublist := fun sender => ?_, deliveries_eq := fun sender hsender => ?_ }
  · simpa only [emit, view, issuedIds_append, issuedIds_quiet hquiet, events_append, hevents,
      List.append_nil] using h.reachable
  · simpa only [emit, deliveries_append, hdeliveries, events_append, hevents, List.append_nil]
      using h.deliveries_sublist sender
  · simpa only [emit, deliveries_append, hdeliveries, events_append, hevents, List.append_nil]
      using h.deliveries_eq sender hsender

/-- Handling a message of a client keeps the invariant. -/
theorem Inv.handleClient (h : w.Inv json) {message : RpcMessage} {mailbox : List RpcMessage}
    (hmailbox : w.mailbox = message :: mailbox) (hincoming : w.incoming = []) :
    Inv json ({ w with mailbox }.handleClient json message) := by
  cases message with
  | call method params sender =>
    exact h.register hmailbox hincoming rfl (h.call_notMem_registered hmailbox) rfl rfl
  | subscribe subscribe params notification unsubscribe sender =>
    exact h.register hmailbox hincoming rfl (h.subscription_notMem_registered hmailbox rfl) rfl rfl
  | notify method params =>
    have hcalls := h.calls_eq
    have hchannels := h.channels_eq
    rw [hmailbox] at hcalls hchannels
    have htaken : Inv json { w with mailbox } :=
      { h with calls_eq := hcalls, channels_eq := hchannels }
    have hqueued : (Happening.queued (RequestBuilder.notification method params)).isSilent := rfl
    exact { htaken.silent hqueued with }

/-- The loop over the messages of the clients keeps the invariant. -/
theorem Inv.pollClient (h : w.Inv json) (hphase : w.phase = .client) :
    Inv json (w.pollClient json) := by
  have hincoming : w.incoming = [] := h.drained (by rw [hphase]; rfl)
  unfold World.pollClient
  split
  · split
    · rename_i message mailbox hmailbox
      exact h.handleClient hmailbox hincoming
    · split <;> exact { h with drained := fun _ => hincoming }
  · exact { h with drained := fun _ => hincoming }

/-! ### Reading the stream -/

/-- A string from the stream that is no message keeps the invariant. -/
theorem Inv.received_error (h : w.Inv json) {response : String} {error : RpcError}
    (hparse : parseResponse json response = .error error) :
    Inv json (w.emit [.received response]) where
  toNumbered := h.toNumbered.quiet rfl
  reachable := by
    simpa [emit, view, issuedIds, Happening.event, hparse, Except.toOption] using h.reachable
  drained := h.drained
  deliveries_sublist sender := by
    simpa [emit, deliveries, Happening.event, hparse, Except.toOption] using
      h.deliveries_sublist sender
  deliveries_eq sender hsender := by
    simpa [emit, deliveries, Happening.event, hparse, Except.toOption] using
      h.deliveries_eq sender hsender

/-- A message from the stream that is queued keeps the invariant. -/
theorem Inv.received_ok (h : w.Inv json) (hphase : w.phase.isDrained = false) {response : String}
    {m : Message} (hparse : parseResponse json response = .ok m) :
    Inv json { w.emit [.received response] with incoming := w.incoming ++ [m] } where
  toNumbered := { h.toNumbered.quiet (show [.received response].all _ from rfl) with }
  reachable := by
    have hstep := h.reachable.step _ _ (.arrive _ m)
    simpa [emit, view, issuedIds, Happening.event, hparse, Except.toOption] using hstep
  drained hdrained := by simp [emit, hphase] at hdrained
  deliveries_sublist sender := by
    simpa [emit, deliveries, Happening.event, hparse, Except.toOption, Correlator.consumers] using
      h.deliveries_sublist sender
  deliveries_eq sender hsender := by
    simpa [emit, deliveries, Happening.event, hparse, Except.toOption, Correlator.consumers] using
      h.deliveries_eq sender hsender

/-- The loop that reads the stream keeps the invariant. -/
theorem Inv.pollStream (h : w.Inv json) (hphase : w.phase = .stream)
    (answer : Poll (Option String)) : Inv json (w.pollStream json answer) := by
  unfold World.pollStream
  split
  · rename_i response
    cases hparse : parseResponse json response with
    | ok m => exact h.received_ok (by rw [hphase]; rfl) hparse
    | error e => exact { h.received_error hparse with drained := nofun }
  · exact { h with drained := nofun }
  · exact { h with drained := nofun }

/-! ### Handling a message -/

/-- What a message delivers when it is handled. -/
def answer (w : World) (m : Message) : List Happening :=
  match w.pendingRequests.lookup m.id with
  | some (.call sender) => if sender ∈ w.droppedCalls then [] else [.delivered sender m.result]
  | _ => []

/-- Only calls are answered. -/
theorem isQuiet_answer (w : World) (m : Message) : (w.answer m).all Happening.isQuiet := by
  unfold answer
  split
  · split <;> rfl
  · rfl

@[simp] theorem events_answer (json : SerdeJson) (w : World) (m : Message) :
    events json (w.answer m) = [] := by
  unfold answer
  split
  · split <;> rfl
  · rfl

/-- The answer goes to the call that the message consumes, if its receiver is there. -/
theorem deliveries_answer (w : World) (m : Message) (sender : ℕ) :
    deliveries sender (w.answer m) =
      if w.pendingRequests.lookup m.id = some (.call sender) ∧ sender ∉ w.droppedCalls then
        [m.result] else [] := by
  unfold answer
  split
  · rename_i s hlookup
    by_cases hs : s = sender
    · subst hs
      by_cases hdropped : s ∈ w.droppedCalls <;> simp [hlookup, hdropped, deliveries]
    · split <;> simp [hlookup, hs, deliveries]
  · rename_i hlookup
    rw [if_neg fun h => hlookup sender h.1]
    rfl

/-- Handling the first message of the queue keeps the invariant. -/
theorem Inv.processed (h : w.Inv json) (hphase : w.phase.isDrained = false) {m : Message}
    {incoming : List Message} (hincoming : w.incoming = m :: incoming) :
    Inv json
      { w with
        pendingRequests := w.pendingRequests.erase m.id
        incoming
        trace := w.trace ++ (.processed m (w.pendingRequests.lookup m.id) :: w.answer m) } := by
  have hquiet : (.processed m (w.pendingRequests.lookup m.id) :: w.answer m).all
      Happening.isQuiet := isQuiet_answer w m
  have hdeliveries : ∀ sender, deliveries sender
      (.processed m (w.pendingRequests.lookup m.id) :: w.answer m) =
        deliveries sender (w.answer m) := fun _ => rfl
  refine { toNumbered := { h.toNumbered.quiet hquiet with }, reachable := ?_,
           drained := fun hdrained => by simp [hphase] at hdrained,
           deliveries_sublist := fun sender => ?_, deliveries_eq := fun sender hsender => ?_ }
  · have hstep := h.reachable.step _ _ (.handle _ hincoming)
    simpa [view, issuedIds_quiet hquiet, Happening.event, lookup_erase_eq_update] using hstep
  · simp only [deliveries_append, events_append, Correlator.consumers_append, List.map_append]
    refine (h.deliveries_sublist sender).append ?_
    rw [hdeliveries, deliveries_answer]
    by_cases hcall : w.pendingRequests.lookup m.id = some (.call sender)
    · by_cases hdropped : sender ∈ w.droppedCalls <;>
        simp [hcall, hdropped, Happening.event, Correlator.consumers]
    · simp [hcall]
  · simp only [deliveries_append, events_append, Correlator.consumers_append, List.map_append]
    rw [h.deliveries_eq sender hsender, hdeliveries, deliveries_answer]
    by_cases hcall : w.pendingRequests.lookup m.id = some (.call sender)
    · have hdropped : sender ∉ w.droppedCalls := hsender
      simp [hcall, hdropped, Happening.event, Correlator.consumers]
    · simp [hcall, Happening.event, Correlator.consumers]

/-- A result for the channel of a subscription keeps the invariant. -/
theorem Inv.notifyChannel (h : w.Inv json) (channel : ℕ) (result : RpcResult Value) :
    Inv json (w.notifyChannel channel result) := by
  unfold World.notifyChannel
  split
  · exact h
  · exact h.silent rfl

/-- Answering the request for a subscription keeps the invariant. -/
theorem Inv.answerSubscription (h : w.Inv json) (subscription : Subscription)
    (result : RpcResult Value) : Inv json (w.answerSubscription subscription result) := by
  unfold World.answerSubscription
  split
  · exact { h with }
  · exact h.notifyChannel _ _

/-- Handing out an id for an unsubscription keeps the invariant. -/
theorem Inv.issued (h : w.Inv json) :
    Inv json
      { w with
        requestBuilder := ⟨w.requestBuilder.id + 1⟩
        trace := w.trace ++ [.issued (.num w.requestBuilder.id)] } where
  builder_eq := by
    rw [issuedIds_append, List.length_append]
    exact h.id_add_one
  calls_eq := by simpa [registeredCalls, calledCalls] using h.calls_eq
  called_eq := by simpa [calledCalls] using h.called_eq
  channels_eq := by simpa [registeredChannels] using h.channels_eq
  text_eq hmem := h.text_eq (by simpa using hmem)
  not_reused hcount id := by
    rw [issuedIds_append, List.length_append] at hcount
    simpa using h.not_reused (by omega) id
  reachable := by
    have hstep := h.reachable.step _ _ (.issue _)
    simpa [view, issuedIds, Happening.event, h.num_id] using hstep
  drained := h.drained
  deliveries_sublist sender := by
    simpa [deliveries, Happening.event, Correlator.consumers] using h.deliveries_sublist sender
  deliveries_eq sender hsender := by
    simpa [deliveries, Happening.event, Correlator.consumers] using h.deliveries_eq sender hsender

/-- Unsubscribing keeps the invariant. -/
theorem Inv.unsubscribe (h : w.Inv json) (key : SubscriptionId × String)
    (subscription : Subscription) : Inv json (w.unsubscribe json key subscription) := by
  unfold World.unsubscribe
  split
  · rename_i sid _
    have hqueued : (Happening.queued (.single (.methodCall
      (w.requestBuilder.unsubscribeRequest subscription.unsubscribe sid).1))).isSilent := rfl
    have hinv := h.issued.silent hqueued
    simp only [emit, List.append_assoc] at hinv
    exact { hinv with }
  · exact { h with drained := nofun }

/-- Routing a notification keeps the invariant. -/
theorem Inv.routeNotification (h : w.Inv json) (m : Message) :
    Inv json (w.routeNotification json m) := by
  unfold World.routeNotification
  split
  · split
    · split
      · exact h.unsubscribe _ _
      · exact h.notifyChannel _ _
    · exact h
  · exact h

/-- Handling a message keeps the invariant. -/
theorem Inv.handleIncoming (h : w.Inv json) (hphase : w.phase.isDrained = false) {m : Message}
    {incoming : List Message} (hincoming : w.incoming = m :: incoming) :
    Inv json ({ w with incoming }.handleIncoming json m) := by
  have hprocessed := h.processed hphase hincoming
  unfold World.handleIncoming
  dsimp only
  unfold answer at hprocessed
  cases hlookup : w.pendingRequests.lookup m.id with
  | none =>
    rw [hlookup, erase_of_lookup_eq_none hlookup] at hprocessed
    exact hprocessed.routeNotification m
  | some pending =>
    rw [hlookup] at hprocessed
    cases pending with
    | call sender =>
      unfold answerCall
      by_cases hdropped : sender ∈ w.droppedCalls
      · simp only [consume, hdropped, if_true] at hprocessed ⊢
        exact { hprocessed with drained := nofun }
      · simp only [consume, emit, hdropped, if_false, List.append_assoc] at hprocessed ⊢
        exact hprocessed
    | subscription subscription =>
      exact hprocessed.answerSubscription subscription m.result

/-- The loop over the queue of incoming messages keeps the invariant. -/
theorem Inv.pollIncoming (h : w.Inv json) (hphase : w.phase = .incoming) :
    Inv json (w.pollIncoming json) := by
  unfold World.pollIncoming
  split
  · rename_i m incoming hincoming
    exact h.handleIncoming (by rw [hphase]; rfl) hincoming
  · rename_i hincoming
    exact { h with drained := fun _ => hincoming }

/-! ### Steps and runs -/

/-- Writing to the sink keeps the invariant. -/
theorem Inv.pollOutgoing (h : w.Inv json) (hphase : w.phase = .outgoing) (ready : Poll Bool)
    (startSend : Bool) : Inv json (w.pollOutgoing ready startSend) := by
  have hincoming : w.incoming = [] := h.drained (by rw [hphase]; rfl)
  unfold World.pollOutgoing
  split
  · split
    · rename_i request outgoing _
      have hinv : Inv json (w.emit [.sent request]) := h.silent rfl
      dsimp only
      split <;> exact { hinv with drained := fun _ => hincoming }
    · exact { h with drained := fun _ => hincoming }
  · exact { h with drained := fun _ => hincoming }
  · exact { h with drained := fun _ => hincoming }

/-- One iteration of the poll function keeps the invariant. -/
theorem Inv.poll (h : w.Inv json) (answers : TransportAnswers) :
    Inv json (w.poll json answers) := by
  unfold World.poll
  split <;> rename_i hphase
  · exact { h with drained := fun _ => h.drained (by rw [hphase]; rfl) }
  · exact h.pollClient hphase
  · exact h.pollStream hphase _
  · exact h.pollIncoming hphase
  · exact h.pollOutgoing hphase _ _
  · have hincoming : w.incoming = [] := h.drained (by rw [hphase]; rfl)
    unfold World.pollSink
    split <;> exact { h with drained := fun _ => hincoming }
  · exact h
  · exact h

/-- Every step keeps the invariant. -/
theorem Inv.step (h : w.Inv json) (l : Label) : Inv json (w.step json l) := by
  cases l with
  | callMethod method params =>
    simp only [World.step]
    split
    · exact h.called method params
    · exact h
  | notify method params =>
    simp only [World.step]
    split
    · exact h.notify method params
    · exact h
  | subscribe subscribe params notification unsubscribe =>
    simp only [World.step]
    split
    · exact h.subscribed subscribe params notification unsubscribe
    · exact h
  | dropClients => exact { h with }
  | dropCall sender =>
    simp only [World.step]
    split
    · exact { h with
        deliveries_eq := fun s hs => h.deliveries_eq s (List.not_mem_of_not_mem_cons hs) }
    · exact h
  | dropSubscription channel =>
    simp only [World.step]
    split
    · exact { h with }
    · exact h
  | poll answers => exact h.poll answers

/-- The invariant holds after every run. -/
theorem inv_after (json : SerdeJson) (ls : List Label) : Inv json (after json ls) :=
  Runs.run_invariant (inv_init json) (fun _ l h => h.step l) ls

end World

end JsonRpc
