import JsonRpc.Client.Correlation
import JsonRpc.Lib.Router

/-!
# Routing of subscriptions

A pending subscription becomes an entry of the duplex when the server answers it
with an id. Notifications that name the id and the method of the subscription go to
its channel. The duplex is a router in the sense of `Router`: every message that it
handles is one step of the router, and every other step keeps it.
-/

namespace JsonRpc

/-- The subscription that a message names, by its id and the method of the message. -/
def Message.key (m : Message) : Option (SubscriptionId × String) :=
  m.sid.bind fun sid => m.method.map fun method => (sid, method)

/-! ## What the handling of a message did -/

/-- A message that was handled, with what was done for it. -/
structure Handling where
  message : Message
  /-- The pending request it consumed. -/
  consumed : Option PendingRequest
  /-- The results that were sent to channels of subscriptions. -/
  sends : List (ℕ × RpcResult Value)
  /-- The requests to unsubscribe that were queued. -/
  unsubscribes : List MethodCall

/-- Add what happened to the handlings so far, the latest first. -/
def Handling.record (hs : List Handling) : Happening → List Handling
  | .processed message consumed => ⟨message, consumed, [], []⟩ :: hs
  | .notified channel result =>
    hs.modifyHead fun h => { h with sends := h.sends ++ [(channel, result)] }
  | .queued (.single (.methodCall call)) =>
    hs.modifyHead fun h => { h with unsubscribes := h.unsubscribes ++ [call] }
  | _ => hs

/-- The handlings in a trace. -/
def handlings (trace : List Happening) : List Handling :=
  (trace.foldl Handling.record []).reverse

/-- The entry that the handling of a message opened: the answer to a pending subscription
that is an id. -/
def Handling.opens (h : Handling) : Option ((SubscriptionId × String) × Subscription) :=
  match h.consumed with
  | some (.subscription sub) =>
    (h.message.result.toOption.bind SubscriptionId.parseValue).map fun sid =>
      ((sid, sub.notification), { sub with id := some sid })
  | _ => none

/-- What is not recorded in the handlings. -/
def Happening.isAside : Happening → Bool
  | .processed _ _ | .notified _ _ | .queued (.single (.methodCall _)) => false
  | _ => true

theorem handlings_aside {trace aside : List Happening} (haside : aside.all Happening.isAside) :
    handlings (trace ++ aside) = handlings trace := by
  unfold handlings
  rw [List.foldl_append]
  congr 1
  generalize trace.foldl Handling.record [] = hs
  induction aside with
  | nil => rfl
  | cons h aside ih =>
    rw [List.all_cons, Bool.and_eq_true] at haside
    have hrecord : Handling.record hs h = hs := by
      cases h with
      | processed | notified => cases haside.1
      | queued request =>
        rcases request with (call | n | id) | calls
        · cases haside.1
        all_goals rfl
      | _ => rfl
    rw [List.foldl_cons, hrecord]
    exact ih haside.2

section Record

variable (trace : List Happening) (m : Message) (consumed : Option PendingRequest)

@[simp] theorem handlings_processed :
    handlings (trace ++ [.processed m consumed]) = handlings trace ++ [⟨m, consumed, [], []⟩] := by
  simp [handlings, Handling.record]

@[simp] theorem handlings_notified (channel : ℕ) (result : RpcResult Value) :
    handlings (trace ++ [.processed m consumed, .notified channel result]) =
      handlings trace ++ [⟨m, consumed, [(channel, result)], []⟩] := by
  simp [handlings, Handling.record]

@[simp] theorem handlings_unsubscribed (id : Id) (call : MethodCall) :
    handlings (trace ++ [.processed m consumed, .issued id,
        .queued (.single (.methodCall call))]) =
      handlings trace ++ [⟨m, consumed, [], [call]⟩] := by
  simp [handlings, Handling.record]

@[simp] theorem handlings_delivered (sender : ℕ) (result : RpcResult Value) :
    handlings (trace ++ [.processed m consumed, .delivered sender result]) =
      handlings trace ++ [⟨m, consumed, [], []⟩] := by
  simp [handlings, Handling.record]

end Record

/-! ## The duplex as a router -/

/-- What a handling is for a router. -/
inductive Handling.Denotes :
    Handling → Router.Event (SubscriptionId × String) Subscription → Prop where
  | opened {m : Message} {sub : Subscription} {sid : SubscriptionId} (hkey : m.key = none)
      (hsid : m.result.toOption.bind SubscriptionId.parseValue = some sid) :
      Denotes ⟨m, some (.subscription sub), [], []⟩
        (.opened (sid, sub.notification) { sub with id := some sid })
  | rejected {m : Message} {sub : Subscription} {sends : List (ℕ × RpcResult Value)}
      (hkey : m.key = none) (hsid : m.result.toOption.bind SubscriptionId.parseValue = none)
      (hsends : ∀ send ∈ sends, send.1 = sub.channel) :
      Denotes ⟨m, some (.subscription sub), sends, []⟩ (.rejected sub)
  | sent {m : Message} {key : SubscriptionId × String} {sub : Subscription}
      (hkey : m.key = some key) :
      Denotes ⟨m, none, [(sub.channel, m.result)], []⟩ (.sent key sub)
  | closed {m : Message} {key : SubscriptionId × String} {sub : Subscription} {call : MethodCall}
      (hkey : m.key = some key) (hmethod : call.method = sub.unsubscribe)
      (hparams : call.params = .array [key.1.toValue]) :
      Denotes ⟨m, none, [], [call]⟩ (.closed key sub)
  | answered {m : Message} {sender : ℕ} (hkey : m.key = none) :
      Denotes ⟨m, some (.call sender), [], []⟩ (.passed none)
  | passed (m : Message) : Denotes ⟨m, none, [], []⟩ (.passed m.key)

/-- The channel of a request, if it is for a subscription. -/
def PendingRequest.channel : PendingRequest → Option ℕ
  | .subscription sub => some sub.channel
  | .call _ => none

/-- The channels of the pending subscriptions. -/
def pendingChannels (pending : AList fun _ : Id => PendingRequest) : List ℕ :=
  pending.entries.filterMap fun entry => entry.2.channel

/-- The channels of the subscriptions of a duplex: they wait in the mailbox or for a
response, or the response was handled. -/
def World.channels (w : World)
    (log : List (Router.Event (SubscriptionId × String) Subscription)) : List ℕ :=
  mailboxChannels w.mailbox ++ pendingChannels w.pendingRequests ++
    (Router.used log).map Subscription.channel

/-- The duplex is a router with a log of what it did. -/
structure World.Routes (json : SerdeJson) (w : World)
    (log : List (Router.Event (SubscriptionId × String) Subscription)) : Prop where
  reachable : Router.Reachable Subscription.channel ⟨fun key => w.subscriptions.lookup key, log⟩
  /-- The log is what the handlings say. -/
  denotes : List.Forall₂ Handling.Denotes (handlings w.trace) log
  /-- The messages are handled in the order in which they were received. -/
  messages_eq : receivedMessages json w.trace =
    (handlings w.trace).map Handling.message ++ w.incoming
  /-- Every entry is under its own key. -/
  keyed : ∀ {key sub}, w.subscriptions.lookup key = some sub →
    sub.id = some key.1 ∧ sub.notification = key.2
  nodup_channels : (w.channels log).Nodup
  channels_lt : ∀ c ∈ w.channels log, c < w.nextChannel
  /-- No request is pending without an id. -/
  pending_ne_null : .null ∉ w.pendingRequests
  /-- Notifications have no id. -/
  id_eq_null : ∀ m ∈ w.incoming, m.id ≠ .null → m.method = none
  not_panicked : w.phase ≠ .panicked
  /-- An entry is closed only if the receiver was dropped. -/
  dropped_of_closed : ∀ {key sub}, .closed key sub ∈ log → sub.channel ∈ w.droppedChannels

namespace World

variable {json : SerdeJson} {w : World}
  {log : List (Router.Event (SubscriptionId × String) Subscription)}

/-- A new duplex is a router that did nothing. -/
theorem routes_init (json : SerdeJson) : init.Routes json [] where
  reachable := .refl
  denotes := .nil
  messages_eq := rfl
  keyed := nofun
  nodup_channels := .nil
  channels_lt := nofun
  pending_ne_null := nofun
  id_eq_null _ hm := absurd hm List.not_mem_nil
  not_panicked := nofun
  dropped_of_closed := nofun

/-- What is recorded beside the handlings and the strings from the stream keeps the router. -/
theorem Routes.emit (h : w.Routes json log) {happenings : List Happening}
    (haside : happenings.all Happening.isAside)
    (hreceived : receivedMessages json happenings = []) : (w.emit happenings).Routes json log where
  reachable := h.reachable
  denotes := by
    rw [World.emit, handlings_aside haside]
    exact h.denotes
  messages_eq := by
    rw [World.emit, handlings_aside haside, receivedMessages, List.filterMap_append,
      ← receivedMessages, ← receivedMessages, hreceived, List.append_nil]
    exact h.messages_eq
  keyed := h.keyed
  nodup_channels := h.nodup_channels
  channels_lt := h.channels_lt
  pending_ne_null := h.pending_ne_null
  id_eq_null := h.id_eq_null
  not_panicked := h.not_panicked
  dropped_of_closed := h.dropped_of_closed

@[simp] theorem receivedMessages_append (json : SerdeJson) (trace trace' : List Happening) :
    receivedMessages json (trace ++ trace') =
      receivedMessages json trace ++ receivedMessages json trace' := List.filterMap_append

/-! ### The steps of the clients -/

/-- A message of a client without a channel keeps the router. -/
theorem Routes.mailed (h : w.Routes json log) {message : RpcMessage}
    (hchannels : mailboxChannels [message] = []) :
    Routes json { w with mailbox := w.mailbox ++ [message] } log := by
  have heq : channels { w with mailbox := w.mailbox ++ [message] } log = w.channels log := by
    rw [channels, channels, mailboxChannels, List.filterMap_append, ← mailboxChannels,
      ← mailboxChannels, hchannels, List.append_nil]
  exact { h with
    nodup_channels := heq ▸ h.nodup_channels
    channels_lt := heq ▸ h.channels_lt }

/-- The subscription of a client keeps the router. -/
theorem Routes.subscribed (h : w.Routes json log) (subscribe : String) (params : Params)
    (notification unsubscribe : String) :
    Routes json
      { w with
        nextChannel := w.nextChannel + 1
        mailbox := w.mailbox ++
          [.subscribe subscribe params notification unsubscribe w.nextChannel] } log := by
  have hperm : (channels
      { w with
        nextChannel := w.nextChannel + 1
        mailbox := w.mailbox ++
          [.subscribe subscribe params notification unsubscribe w.nextChannel] } log).Perm
      (w.nextChannel :: w.channels log) := by
    simp only [channels, mailboxChannels, List.filterMap_append, List.append_assoc]
    exact List.perm_middle
  have hfresh : w.nextChannel ∉ w.channels log := fun hmem => (h.channels_lt _ hmem).false
  exact { h with
    nodup_channels := hperm.nodup_iff.mpr (List.nodup_cons.mpr ⟨hfresh, h.nodup_channels⟩)
    channels_lt := fun c hc => by
      rcases List.mem_cons.mp (hperm.mem_iff.mp hc) with rfl | hc
      · exact Nat.lt_succ_self _
      · exact (h.channels_lt c hc).trans (Nat.lt_succ_self _) }

/-! ### Registering a request -/

/-- The channels after a request is registered: its own and those of the others. -/
theorem sublist_pendingChannels_insert (pending : AList fun _ : Id => PendingRequest) (id : Id)
    (request : PendingRequest) :
    (pendingChannels (pending.insert id request)).Sublist
      (request.channel.toList ++ pendingChannels pending) := by
  have hsublist := (List.kerase_sublist id pending.entries).filterMap fun entry => entry.2.channel
  rw [pendingChannels, AList.entries_insert, List.filterMap_cons]
  cases request with
  | call sender => exact hsublist
  | subscription sub => exact hsublist.cons_cons _

/-- The channels before a request is consumed: its own and those of the others. -/
theorem perm_pendingChannels_erase {pending : AList fun _ : Id => PendingRequest} {id : Id}
    {request : PendingRequest} (hlookup : pending.lookup id = some request) :
    (pendingChannels pending).Perm
      (request.channel.toList ++ pendingChannels (pending.erase id)) := by
  have hmem := AList.mem_lookup_iff.mp hlookup
  obtain ⟨request', before, after, -, hentries, herase⟩ :=
    List.exists_of_kerase (List.mem_keys_of_mem hmem)
  have hrequest : request' = request := by
    have hmem' : ⟨id, request'⟩ ∈ pending.entries := by
      rw [hentries]
      exact List.mem_append_right _ List.mem_cons_self
    have hlookup' := AList.mem_lookup_iff.mpr hmem'
    rw [hlookup] at hlookup'
    exact (Option.some.inj hlookup').symm
  have herased : (pending.erase id).entries = before ++ after := herase
  rw [pendingChannels, pendingChannels, herased, hentries, hrequest, List.filterMap_append,
    List.filterMap_append, List.filterMap_cons]
  cases request with
  | call sender => exact .rfl
  | subscription sub => exact List.perm_middle

/-- What is recorded when a method is called is no handling. -/
theorem isAside_called (sender : ℕ) (method : String) (params : Params) :
    [Happening.called sender method params].all Happening.isAside := rfl

/-- What is recorded when a request is registered is no handling. -/
theorem isAside_registration (json : SerdeJson) (w : World) (call : MethodCall)
    (pending : PendingRequest) : (w.registration json call pending).all Happening.isAside := by
  unfold registration
  split <;> rfl

theorem receivedMessages_registration (json : SerdeJson) (w : World) (call : MethodCall)
    (pending : PendingRequest) : receivedMessages json (w.registration json call pending) = [] := by
  unfold registration
  split <;> rfl

/-- Fewer channels are distinct and below the bound. -/
theorem Routes.nodup_of_subperm (h : w.Routes json log) {cs : List ℕ}
    (hcs : cs.Subperm (w.channels log)) : cs.Nodup ∧ ∀ c ∈ cs, c < w.nextChannel := by
  obtain ⟨cs', hperm, hsublist⟩ := hcs
  refine ⟨hperm.nodup_iff.mp (h.nodup_channels.sublist hsublist), fun c hc => ?_⟩
  exact h.channels_lt c (hsublist.subset (hperm.mem_iff.mpr hc))

/-- Registering the first message in the mailbox keeps the router. -/
theorem Routes.register (h : w.Routes json log) {message : RpcMessage} {mailbox : List RpcMessage}
    (hmailbox : w.mailbox = message :: mailbox) {call : MethodCall} {builder : RequestBuilder}
    {pending : PendingRequest} (hid : call.id ≠ .null)
    (hchannels : pending.channel.toList = mailboxChannels [message]) :
    Routes json ({ w with mailbox }.register json (call, builder) pending) log := by
  have haside := h.emit (isAside_registration json w call pending)
    (receivedMessages_registration json w call pending)
  have hsubperm : (channels ({ w with mailbox }.register json (call, builder) pending) log).Subperm
      (w.channels log) := by
    have hpending := sublist_pendingChannels_insert w.pendingRequests call.id pending
    rw [hchannels] at hpending
    have hmessages : mailboxChannels w.mailbox =
        mailboxChannels [message] ++ mailboxChannels mailbox := by
      rw [hmailbox]
      exact List.filterMap_append (l := [message])
    have hperm : (mailboxChannels mailbox ++ (mailboxChannels [message] ++
        pendingChannels w.pendingRequests) ++ (Router.used log).map Subscription.channel).Perm
        (w.channels log) := by
      rw [channels, hmessages]
      refine List.Perm.append_right _ ?_
      rw [← List.append_assoc]
      exact List.perm_append_comm.append_right _
    exact ((hpending.append_left _).append_right _).subperm.trans hperm.subperm
  obtain ⟨hnodup, hlt⟩ := h.nodup_of_subperm hsubperm
  exact { haside with
    nodup_channels := hnodup
    channels_lt := hlt
    pending_ne_null := fun hnull => by
      rcases (AList.mem_insert _).mp hnull with hnull | hnull
      · exact hid hnull.symm
      · exact h.pending_ne_null hnull }

/-- Handling a message of a client keeps the router. -/
theorem Routes.handleClient (h : w.Routes json log) {message : RpcMessage}
    {mailbox : List RpcMessage} (hmailbox : w.mailbox = message :: mailbox) :
    Routes json ({ w with mailbox }.handleClient json message) log := by
  cases message with
  | call method params sender => exact h.register hmailbox nofun rfl
  | subscribe subscribe params notification unsubscribe sender =>
    exact h.register hmailbox nofun rfl
  | notify method params =>
    have haside : [Happening.queued (RequestBuilder.notification method params)].all
        Happening.isAside := rfl
    have heq : channels { w with mailbox } log = w.channels log := by
      rw [channels, channels, hmailbox]
      rfl
    exact { h.emit haside rfl with
      nodup_channels := heq ▸ h.nodup_channels
      channels_lt := heq ▸ h.channels_lt }

/-- The loop over the messages of the clients keeps the router. -/
theorem Routes.pollClient (h : w.Routes json log) : Routes json (w.pollClient json) log := by
  unfold World.pollClient
  split
  · split
    · rename_i message mailbox hmailbox
      exact h.handleClient hmailbox
    · split <;> exact { h with not_panicked := nofun }
  · exact { h with not_panicked := nofun }

/-! ### Reading the stream -/

/-- The loop that reads the stream keeps the router. -/
theorem Routes.pollStream (h : w.Routes json log) (answer : Poll (Option String)) :
    Routes json (w.pollStream json answer) log := by
  unfold World.pollStream
  split
  · rename_i response
    have haside : [Happening.received response].all Happening.isAside := rfl
    have hreceived : receivedMessages json (w.trace ++ [.received response]) =
        receivedMessages json w.trace ++ (parseResponse json response).toOption.toList := by
      rw [receivedMessages, List.filterMap_append, ← receivedMessages]
      congr 1
    cases hparse : parseResponse json response with
    | ok m =>
      rw [hparse] at hreceived
      exact { h with
        denotes := (handlings_aside haside).symm ▸ h.denotes
        messages_eq := by
          rw [World.emit, hreceived, handlings_aside haside, h.messages_eq, List.append_assoc]
          rfl
        id_eq_null := fun m' hm' => by
          rcases List.mem_append.mp hm' with hm' | hm'
          · exact h.id_eq_null m' hm'
          · rw [List.mem_singleton.mp hm']
            exact method_eq_none_of_parseResponse hparse }
    | error e =>
      exact { h.emit haside (by simp [receivedMessages, hparse, Except.toOption]) with
        not_panicked := by simp }
  · exact { h with not_panicked := by simp }
  · exact { h with not_panicked := by simp }

/-! ### Handling a message -/

/-- A message that answers a pending request names no subscription. -/
theorem Routes.key_eq_none (h : w.Routes json log) {m : Message} {incoming : List Message}
    (hincoming : w.incoming = m :: incoming) {pending : PendingRequest}
    (hlookup : w.pendingRequests.lookup m.id = some pending) : m.key = none := by
  have hid : m.id ≠ .null := by
    intro hnull
    rw [hnull] at hlookup
    exact h.pending_ne_null (AList.lookup_isSome.mp (hlookup ▸ rfl))
  have hmethod : m.method = none := h.id_eq_null m (by rw [hincoming]; simp) hid
  rw [Message.key, hmethod]
  cases m.sid <;> rfl

/-- Handling a message as a router does keeps the router. -/
theorem Routes.handled (h : w.Routes json log) {w' : World} {hd : Handling}
    {e : Router.Event (SubscriptionId × String) Subscription}
    (hincoming : w.incoming = hd.message :: w'.incoming) (hdenotes : hd.Denotes e)
    {new : List Happening} (htrace : w'.trace = w.trace ++ new)
    (hhandlings : handlings (w.trace ++ new) = handlings w.trace ++ [hd])
    (hreceived : receivedMessages json new = [])
    (hstep : Router.Step Subscription.channel ⟨fun key => w.subscriptions.lookup key, log⟩
      ⟨fun key => w'.subscriptions.lookup key, log ++ [e]⟩)
    (hkeyed : ∀ {key sub}, w'.subscriptions.lookup key = some sub →
      sub.id = some key.1 ∧ sub.notification = key.2)
    (hchannels : (w'.channels (log ++ [e])).Perm (w.channels log))
    (hnext : w'.nextChannel = w.nextChannel)
    (hnull : .null ∉ w'.pendingRequests) (hphase : w'.phase ≠ .panicked)
    (hdropped : w'.droppedChannels = w.droppedChannels)
    (hclosed : ∀ key sub, e = .closed key sub → sub.channel ∈ w.droppedChannels) :
    w'.Routes json (log ++ [e]) := by
  obtain ⟨hnodup, hlt⟩ := h.nodup_of_subperm hchannels.subperm
  refine { reachable := h.reachable.tail hstep, denotes := ?_, messages_eq := ?_, keyed := hkeyed,
           nodup_channels := hnodup, channels_lt := hnext ▸ hlt, pending_ne_null := hnull,
           id_eq_null := fun m hm => h.id_eq_null m (hincoming ▸ List.mem_cons_of_mem _ hm),
           not_panicked := hphase, dropped_of_closed := fun {key sub} hmem => ?_ }
  · rw [htrace, hhandlings]
    exact List.rel_append h.denotes (.cons hdenotes .nil)
  · rw [htrace, receivedMessages_append, hreceived, List.append_nil, hhandlings, h.messages_eq,
      hincoming, List.map_append, List.append_assoc]
    rfl
  · rw [hdropped]
    rcases List.mem_append.mp hmem with hmem | hmem
    · exact h.dropped_of_closed hmem
    · exact hclosed key sub (List.mem_singleton.mp hmem).symm

section Handle

variable {m : Message} {incoming : List Message}

/-- The channels after a pending request is consumed. -/
theorem perm_channels_consumed {w' : World} {pending : PendingRequest} {id : Id}
    {e : Router.Event (SubscriptionId × String) Subscription}
    (hlookup : w.pendingRequests.lookup id = some pending) (hmailbox : w'.mailbox = w.mailbox)
    (hpending : w'.pendingRequests = w.pendingRequests.erase id)
    (he : (Router.used [e]).map Subscription.channel = pending.channel.toList) :
    (w'.channels (log ++ [e])).Perm (w.channels log) := by
  have hrotate : (pendingChannels (w.pendingRequests.erase id) ++
      (Router.used log).map Subscription.channel ++ pending.channel.toList).Perm
      (pending.channel.toList ++ pendingChannels (w.pendingRequests.erase id) ++
        (Router.used log).map Subscription.channel) := by
    rw [List.append_assoc pending.channel.toList]
    exact List.perm_append_comm
  rw [channels, channels, hmailbox, hpending, Router.used_append, List.map_append, he,
    List.append_assoc, List.append_assoc, ← List.append_assoc (pendingChannels _)]
  exact (hrotate.trans ((perm_pendingChannels_erase hlookup).symm.append_right _)).append_left _

/-- Handling the response to a call keeps the router. -/
theorem Routes.handleIncoming_call (h : w.Routes json log)
    (hincoming : w.incoming = m :: incoming) {sender : ℕ}
    (hlookup : w.pendingRequests.lookup m.id = some (.call sender)) :
    ∃ log', Routes json ({ w with incoming }.handleIncoming json m) log' := by
  have hkey := h.key_eq_none hincoming hlookup
  have hnull : .null ∉ w.pendingRequests.erase m.id :=
    fun hmem => h.pending_ne_null (AList.mem_erase.mp hmem).2
  refine ⟨log ++ [.passed none], ?_⟩
  rw [handleIncoming_of_call (w := { w with incoming }) hlookup]
  unfold answerCall
  split
  · exact h.handled hincoming (.answered hkey) rfl (handlings_processed _ _ _) rfl
      (.pass none nofun) h.keyed (perm_channels_consumed hlookup rfl rfl rfl) rfl hnull nofun rfl
      nofun
  · exact h.handled hincoming (.answered hkey) (List.append_assoc _ _ _)
      (handlings_delivered _ _ _ _ _) rfl (.pass none nofun) h.keyed
      (perm_channels_consumed hlookup rfl rfl rfl) rfl hnull h.not_panicked rfl nofun

/-- A pending subscription has not been opened or rejected. -/
theorem Routes.channel_notMem_used (h : w.Routes json log) {id : Id} {sub : Subscription}
    (hlookup : w.pendingRequests.lookup id = some (.subscription sub)) :
    sub.channel ∉ (Router.used log).map Subscription.channel := by
  have hmem : sub.channel ∈ pendingChannels w.pendingRequests :=
    (perm_pendingChannels_erase hlookup).mem_iff.mpr List.mem_cons_self
  have hnodup := h.nodup_channels
  rw [channels, List.nodup_append] at hnodup
  exact fun hused => hnodup.2.2 _ (List.mem_append_right _ hmem) _ hused rfl

/-- Handling the response to a subscription keeps the router. -/
theorem Routes.handleIncoming_subscription (h : w.Routes json log)
    (hincoming : w.incoming = m :: incoming) {sub : Subscription}
    (hlookup : w.pendingRequests.lookup m.id = some (.subscription sub)) :
    ∃ log', Routes json ({ w with incoming }.handleIncoming json m) log' := by
  have hkey := h.key_eq_none hincoming hlookup
  have hfresh := h.channel_notMem_used hlookup
  have hnull : .null ∉ w.pendingRequests.erase m.id :=
    fun hmem => h.pending_ne_null (AList.mem_erase.mp hmem).2
  rw [handleIncoming_of_subscription (w := { w with incoming }) hlookup]
  unfold answerSubscription
  split
  · rename_i sid hsid
    refine ⟨log ++ [.opened (sid, sub.notification) { sub with id := some sid }],
      h.handled hincoming (.opened hkey hsid) rfl (handlings_processed _ _ _) rfl ?_ ?_
      (perm_channels_consumed hlookup rfl rfl rfl) rfl hnull h.not_panicked rfl (by simp)⟩
    · have htable := lookup_insert_eq_update (sid, sub.notification)
        { sub with id := some sid } w.subscriptions
      simp only [consume]
      rw [htable]
      exact .accept _ _ hfresh
    · intro key sub' hentry
      simp only [consume] at hentry
      by_cases hk : key = (sid, sub.notification)
      · subst hk
        rw [AList.lookup_insert] at hentry
        cases hentry
        exact ⟨rfl, rfl⟩
      · rw [AList.lookup_insert_ne hk] at hentry
        exact h.keyed hentry
  · rename_i hsid
    unfold notifyChannel
    refine ⟨log ++ [.rejected sub], ?_⟩
    split
    · exact h.handled hincoming (.rejected hkey hsid (by simp)) rfl (handlings_processed _ _ _) rfl
        (.reject sub hfresh) h.keyed (perm_channels_consumed hlookup rfl rfl rfl) rfl hnull
        h.not_panicked rfl (by simp)
    · exact h.handled hincoming (.rejected hkey hsid (by simp)) (List.append_assoc _ _ _)
        (handlings_notified _ _ _ _ _) rfl (.reject sub hfresh) h.keyed
        (perm_channels_consumed hlookup rfl rfl rfl) rfl hnull h.not_panicked rfl (by simp)

/-- The channels after a message that answers no pending request. -/
theorem perm_channels_unchanged {w' : World}
    {e : Router.Event (SubscriptionId × String) Subscription} (hmailbox : w'.mailbox = w.mailbox)
    (hpending : w'.pendingRequests = w.pendingRequests) (he : Router.used [e] = []) :
    (w'.channels (log ++ [e])).Perm (w.channels log) := by
  rw [channels, channels, hmailbox, hpending, Router.used_append, he, List.append_nil]

/-- A message that names no entry keeps the router. -/
theorem Routes.passed (h : w.Routes json log) (hincoming : w.incoming = m :: incoming)
    (hentry : ∀ key ∈ m.key, w.subscriptions.lookup key = none) :
    Routes json ({ w with incoming }.emit [.processed m none]) (log ++ [.passed m.key]) :=
  h.handled hincoming (.passed m) rfl (handlings_processed _ _ _) rfl (.pass m.key hentry) h.keyed
    (perm_channels_unchanged rfl rfl rfl) rfl h.pending_ne_null h.not_panicked rfl nofun

/-- Unsubscribing from a subscription whose receiver is dropped keeps the router. -/
theorem Routes.unsubscribe (h : w.Routes json log) (hincoming : w.incoming = m :: incoming)
    {key : SubscriptionId × String} (hkey : m.key = some key) {sub : Subscription}
    (hentry : w.subscriptions.lookup key = some sub)
    (hdropped : sub.channel ∈ w.droppedChannels) :
    Routes json (({ w with incoming }.emit [.processed m none]).unsubscribe json key sub)
      (log ++ [.closed key sub]) := by
  obtain ⟨hid, -⟩ := h.keyed hentry
  have htable := lookup_erase_eq_update key w.subscriptions
  rw [World.unsubscribe, hid]
  refine h.handled hincoming (.closed hkey rfl rfl) (List.append_assoc _ _ _)
    (handlings_unsubscribed _ _ _ _ _) rfl ?_ ?_ (perm_channels_unchanged rfl rfl rfl) rfl
    h.pending_ne_null h.not_panicked rfl ?_
  · simp only [World.emit]
    rw [htable]
    exact .close key sub hentry
  · intro key' sub' hentry'
    by_cases hk : key' = key
    · subst hk
      rw [World.emit, AList.lookup_erase] at hentry'
      cases hentry'
    · rw [World.emit, AList.lookup_erase_ne hk] at hentry'
      exact h.keyed hentry'
  · rintro key' sub' he
    cases he
    exact hdropped

/-- Handling a message that answers no pending request keeps the router. -/
theorem Routes.handleIncoming_none (h : w.Routes json log)
    (hincoming : w.incoming = m :: incoming) (hlookup : w.pendingRequests.lookup m.id = none) :
    ∃ log', Routes json ({ w with incoming }.handleIncoming json m) log' := by
  rw [handleIncoming_of_none (w := { w with incoming }) hlookup]
  unfold routeNotification
  split
  · rename_i key hkey
    split
    · rename_i sub hentry
      split
      · rename_i hdropped
        exact ⟨_, h.unsubscribe hincoming hkey hentry hdropped⟩
      · rename_i halive
        rw [notifyChannel, if_neg halive]
        exact ⟨_, h.handled hincoming (.sent hkey) (List.append_assoc _ _ _)
          (handlings_notified _ _ _ _ _) rfl (.send key sub hentry) h.keyed
          (perm_channels_unchanged rfl rfl rfl) rfl h.pending_ne_null h.not_panicked rfl nofun⟩
    · rename_i hentry
      refine ⟨_, h.passed hincoming fun key' hkey' => ?_⟩
      cases hkey.symm.trans hkey'
      exact hentry
  · rename_i hkey
    refine ⟨_, h.passed hincoming fun key' hkey' => ?_⟩
    cases hkey.symm.trans hkey'

/-- The loop over the queue of incoming messages keeps the router. -/
theorem Routes.pollIncoming (h : w.Routes json log) :
    ∃ log', Routes json (w.pollIncoming json) log' := by
  unfold World.pollIncoming
  split
  · rename_i m incoming hincoming
    cases hlookup : w.pendingRequests.lookup m.id with
    | none => exact h.handleIncoming_none hincoming hlookup
    | some pending =>
      cases pending with
      | call sender => exact h.handleIncoming_call hincoming hlookup
      | subscription sub => exact h.handleIncoming_subscription hincoming hlookup
  · exact ⟨log, { h with not_panicked := nofun }⟩

end Handle

/-! ### Runs -/

/-- The loop that writes to the sink keeps the router. -/
theorem Routes.pollOutgoing (h : w.Routes json log) (ready : Poll Bool) (startSend : Bool) :
    Routes json (w.pollOutgoing ready startSend) log := by
  unfold World.pollOutgoing
  split
  · split
    · rename_i request outgoing houtgoing
      have hsent : Routes json (w.emit [.sent request]) log := h.emit rfl rfl
      dsimp only
      split
      · exact { hsent with }
      · exact { hsent with not_panicked := nofun }
    · exact { h with not_panicked := nofun }
  all_goals exact { h with not_panicked := nofun }

/-- One iteration of the poll function keeps the router. -/
theorem Routes.poll (h : w.Routes json log) (answers : TransportAnswers) :
    ∃ log', Routes json (w.poll json answers) log' := by
  unfold World.poll
  split
  · exact ⟨log, { h with not_panicked := nofun }⟩
  · exact ⟨log, h.pollClient⟩
  · exact ⟨log, h.pollStream answers.stream⟩
  · exact h.pollIncoming
  · exact ⟨log, h.pollOutgoing answers.ready answers.startSend⟩
  · unfold World.pollSink
    split <;> exact ⟨log, { h with not_panicked := nofun }⟩
  · exact ⟨log, h⟩
  · exact ⟨log, h⟩

/-- One step keeps the router. -/
theorem Routes.step (h : w.Routes json log) (l : Label) :
    ∃ log', Routes json (w.step json l) log' := by
  cases l with
  | poll answers => exact h.poll answers
  | callMethod method params =>
    rw [World.step]
    split
    · have hmailed : Routes json
          { w with mailbox := w.mailbox ++ [.call method params w.nextCall] } log := h.mailed rfl
      exact ⟨log, { hmailed.emit (isAside_called _ _ _) rfl with }⟩
    · exact ⟨log, h⟩
  | notify method params =>
    rw [World.step]
    split
    · exact ⟨log, h.mailed rfl⟩
    · exact ⟨log, h⟩
  | subscribe subscribe params notification unsubscribe =>
    rw [World.step]
    split
    · exact ⟨log, h.subscribed subscribe params notification unsubscribe⟩
    · exact ⟨log, h⟩
  | dropClients => exact ⟨log, { h with }⟩
  | dropCall sender =>
    rw [World.step]
    split
    · exact ⟨log, { h with }⟩
    · exact ⟨log, h⟩
  | dropSubscription channel =>
    rw [World.step]
    split
    · exact ⟨log, { h with
        dropped_of_closed := fun hmem => List.mem_cons_of_mem _ (h.dropped_of_closed hmem) }⟩
    · exact ⟨log, h⟩

/-- Every run is a run of a router. -/
theorem exists_routes_after (json : SerdeJson) (ls : List Label) :
    ∃ log, (after json ls).Routes json log := by
  refine Runs.run_invariant (I := fun w : World => ∃ log, w.Routes json log) ?_ ?_ ls
  · exact ⟨[], routes_init json⟩
  · rintro w l ⟨log, h⟩
    exact h.step l

end World

end JsonRpc
