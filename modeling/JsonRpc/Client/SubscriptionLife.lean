import JsonRpc.Client.Outgoing
import JsonRpc.Client.Routing

/-!
# The life of a subscription

The duplex is a router, so the life of every subscription follows: it receives each of
its notifications once and in order, until another subscription takes its entry or its
receiver is found to be dropped. In the second case one request unsubscribes from it, and
its text is queued for the sink. The loop over the queue of incoming messages handles all
of them, so no notification waits for the next one.
-/

namespace JsonRpc

/-! ## What a handling does for a subscription -/

section Denotes

variable {h : Handling} {e : Router.Event (SubscriptionId × String) Subscription}
  {key : SubscriptionId × String} {sub : Subscription}

theorem Handling.Denotes.key_eq (hd : h.Denotes e) : h.message.key = e.key := by
  cases hd with
  | opened hkey | rejected hkey | sent hkey | closed hkey | answered hkey => exact hkey
  | passed => rfl

/-- The handlings that open an entry are the events that open it. -/
theorem Handling.Denotes.opens_iff (hd : h.Denotes e) :
    h.opens = some (key, sub) ↔ e = .opened key sub := by
  cases hd with
  | opened hkey hsid =>
    rw [Handling.opens, hsid]
    constructor
    · rintro ⟨⟩
      rfl
    · rintro ⟨⟩
      rfl
  | rejected hkey hsid =>
    rw [Handling.opens, hsid]
    exact ⟨nofun, nofun⟩
  | sent | closed | answered | passed => exact ⟨nofun, nofun⟩

/-- What is sent goes to the channel of the subscription that the event is about. -/
theorem Handling.Denotes.exists_subscriber (hd : h.Denotes e) {send : ℕ × RpcResult Value}
    (hsend : send ∈ h.sends) : ∃ sub ∈ e.subscriber, send.1 = sub.channel := by
  cases hd with
  | @rejected m sub sends hkey hsid hsends => exact ⟨sub, rfl, hsends send hsend⟩
  | @sent m key sub hkey => exact ⟨sub, rfl, by rw [List.mem_singleton.mp hsend]⟩
  | opened | closed | answered | passed => cases hsend

/-- Nothing is sent to the channel of a subscription that is spared. -/
theorem Handling.Denotes.spares (hd : h.Denotes e)
    (hspares : Router.Spares Subscription.channel sub e) :
    ∀ send ∈ h.sends, send.1 ≠ sub.channel := by
  intro send hsend
  obtain ⟨sub', hsub', hchannel⟩ := hd.exists_subscriber hsend
  rw [hchannel]
  exact hspares sub' hsub'

/-- A handling that unsubscribes closes an entry. -/
theorem Handling.Denotes.exists_closed (hd : h.Denotes e) (hcalls : h.unsubscribes ≠ []) :
    ∃ key sub, e = .closed key sub := by
  cases hd with
  | closed => exact ⟨_, _, rfl⟩
  | opened | rejected | sent | answered | passed => exact absurd rfl hcalls

end Denotes

/-- While a subscription has the entry of a key, every notification that names the key is
sent to its channel, once and to no other channel, and nothing else is sent to it. -/
structure Handling.Serves (key : SubscriptionId × String) (sub : Subscription) (h : Handling) :
    Prop where
  sent : h.message.key = some key →
    h.sends = [(sub.channel, h.message.result)] ∧ h.unsubscribes = []
  spares : h.message.key ≠ some key → ∀ send ∈ h.sends, send.1 ≠ sub.channel
  keeps : ∀ sub', h.opens ≠ some (key, sub')

/-- A notification that names the key finds the receiver dropped: nothing is sent, and one
request calls the method to unsubscribe of the subscription with its id. -/
structure Handling.Unsubscribes (key : SubscriptionId × String) (sub : Subscription)
    (h : Handling) : Prop where
  key_eq : h.message.key = some key
  sends_eq : h.sends = []
  calls_eq : ∃ call, h.unsubscribes = [call] ∧ call.method = sub.unsubscribe ∧
    call.params = .array [key.1.toValue]

/-- What is handled after the answer to a subscription. -/
inductive World.Life (w : World) (key : SubscriptionId × String) (sub : Subscription) :
    List Handling → Prop where
  /-- It has the entry and is served. -/
  | active {live : List Handling} (hlive : ∀ h ∈ live, h.Serves key sub)
      (hentry : w.subscriptions.lookup key = some sub) : Life w key sub live
  /-- Another subscription has taken the entry. -/
  | replaced {live rest : List Handling} {h : Handling} {sub' : Subscription}
      (hlive : ∀ h ∈ live, h.Serves key sub) (hopens : h.opens = some (key, sub'))
      (hne : sub'.channel ≠ sub.channel)
      (hrest : ∀ h ∈ rest, ∀ send ∈ h.sends, send.1 ≠ sub.channel)
      (hentry : ∀ k s, w.subscriptions.lookup k = some s → s.channel ≠ sub.channel) :
      Life w key sub (live ++ h :: rest)
  /-- Its receiver was found to be dropped, and the entry was removed. Nobody unsubscribes
  with this key again before it is opened again. -/
  | gone {live rest : List Handling} {h : Handling} (hlive : ∀ h ∈ live, h.Serves key sub)
      (hcalls : h.Unsubscribes key sub) (hdropped : sub.channel ∈ w.droppedChannels)
      (hrest : ∀ h ∈ rest, ∀ send ∈ h.sends, send.1 ≠ sub.channel)
      (hentry : ∀ k s, w.subscriptions.lookup k = some s → s.channel ≠ sub.channel)
      (hagain : ∀ mid h' rest', rest = mid ++ h' :: rest' → h'.message.key = some key →
        h'.unsubscribes ≠ [] → ∃ b ∈ mid, ∃ sub', b.opens = some (key, sub')) :
      Life w key sub (live ++ h :: rest)

/-- Notifications are routed to the subscriptions they name. -/
structure World.Routed (json : SerdeJson) (w : World) : Prop where
  /-- Every entry is under its own key. -/
  keyed : ∀ {key sub}, w.subscriptions.lookup key = some sub →
    sub.id = some key.1 ∧ sub.notification = key.2
  /-- No expected value is missing. -/
  not_panicked : w.phase ≠ .panicked
  /-- The messages are handled in the order in which they were received. -/
  messages_eq : receivedMessages json w.trace =
    (handlings w.trace).map Handling.message ++ w.incoming
  /-- Outside the loops that fill and empty the queue, all messages are handled. -/
  drained : w.phase.isDrained → w.incoming = []
  /-- The loop that empties the queue takes one iteration for a message and one to end, unless
  a message answers a call whose receiver is dropped. -/
  drains : w.phase = .incoming → ∀ answers : List TransportAnswers,
    answers.length = w.incoming.length + 1 →
    (Runs.run (step json) w (answers.map .poll)).phase = .outgoing ∧
        (Runs.run (step json) w (answers.map .poll)).incoming = [] ∨
      (Runs.run (step json) w (answers.map .poll)).phase =
        .complete (.error (.client "oneshot channel closed"))
  /-- Every subscription that was answered with an id has its life. -/
  life : ∀ {before a after key sub}, handlings w.trace = before ++ a :: after →
    a.opens = some (key, sub) → w.Life key sub after
  /-- The texts of the requests wait for the sink or were given to it, once and in order. -/
  texts_eq : sentTexts w.trace ++ w.outgoing = (queuedRequests w.trace).map (Request.toString json)
  /-- Among them are the texts of the requests to unsubscribe. -/
  unsubscribes_sublist :
    (((handlings w.trace).flatMap Handling.unsubscribes).map (MethodCall.text json)).Sublist
      (sentTexts w.trace ++ w.outgoing)

section Correspondence

variable {α β : Type} {R : α → β → Prop}

/-- The parts of a list correspond to parts of the other list. -/
theorem exists_append_of_forall₂ {l l' : List α} {m : List β} (h : List.Forall₂ R (l ++ l') m) :
    ∃ m' m'', m = m' ++ m'' ∧ List.Forall₂ R l m' ∧ List.Forall₂ R l' m'' := by
  induction l generalizing m with
  | nil => exact ⟨[], m, rfl, .nil, h⟩
  | cons a l ih =>
    obtain ⟨b, m, hab, hrest, rfl⟩ := List.forall₂_cons_left_iff.mp h
    obtain ⟨m', m'', rfl, hl, hl'⟩ := ih hrest
    exact ⟨b :: m', m'', rfl, .cons hab hl, hl'⟩

theorem exists_mem_of_forall₂ {l : List α} {m : List β} (h : List.Forall₂ R l m) {a : α}
    (ha : a ∈ l) : ∃ b ∈ m, R a b := by
  obtain ⟨before, after, rfl⟩ := List.append_of_mem ha
  obtain ⟨m', _, rfl, -, hrest⟩ := exists_append_of_forall₂ h
  obtain ⟨b, m'', hab, -, rfl⟩ := List.forall₂_cons_left_iff.mp hrest
  exact ⟨b, List.mem_append_right _ List.mem_cons_self, hab⟩

/-- What holds of all entries of a list carries over to the corresponding entries. -/
theorem forall_mem_of_forall₂ {P : α → Prop} {Q : β → Prop} {l : List α} {m : List β}
    (h : List.Forall₂ R l m) (hR : ∀ a b, R a b → Q b → P a) (hQ : ∀ b ∈ m, Q b) :
    ∀ a ∈ l, P a := by
  intro a ha
  obtain ⟨b, hb, hab⟩ := exists_mem_of_forall₂ h ha
  exact hR a b hab (hQ b hb)

end Correspondence

namespace World

variable {json : SerdeJson} {w : World}
  {log : List (Router.Event (SubscriptionId × String) Subscription)}
  {key : SubscriptionId × String} {sub : Subscription}

/-- A subscription that the router serves is served by the handling. -/
theorem serves_of_denotes {h : Handling} {e : Router.Event (SubscriptionId × String) Subscription}
    (hd : h.Denotes e) (hserves : Router.Serves Subscription.channel key sub e) :
    h.Serves key sub where
  sent hkey := by
    rw [hserves.sent (hd.key_eq.symm.trans hkey)] at hd
    cases hd
    exact ⟨rfl, rfl⟩
  spares hkey := hd.spares (hserves.spares (hd.key_eq ▸ hkey))
  keeps sub' hopens := hserves.keeps sub' (hd.opens_iff.mp hopens)

/-- The router determines the life of a subscription. -/
theorem Routes.life (hr : w.Routes json log) {before after : List Handling} {a : Handling}
    (hhandlings : handlings w.trace = before ++ a :: after) (hopens : a.opens = some (key, sub)) :
    w.Life key sub after := by
  have hdenotes := hr.denotes
  rw [hhandlings] at hdenotes
  obtain ⟨before', _, rfl, -, hrest⟩ := exists_append_of_forall₂ hdenotes
  obtain ⟨e, after', he, hafter, rfl⟩ := List.forall₂_cons_left_iff.mp hrest
  obtain rfl := he.opens_iff.mp hopens
  cases hr.reachable.status rfl with
  | active hlive hentry =>
    exact .active (forall_mem_of_forall₂ hafter (fun _ _ => serves_of_denotes) hlive) hentry
  | ended hlife hnone =>
    obtain ⟨live', e, rest', rfl, hlive, hend, hspares⟩ := hlife
    obtain ⟨live, _, rfl, hlive', hafter⟩ := exists_append_of_forall₂ hafter.flip
    obtain ⟨h, rest, hh, hrest', rfl⟩ := List.forall₂_cons_left_iff.mp hafter
    have hserved := forall_mem_of_forall₂ hlive'.flip (fun _ _ => serves_of_denotes) hlive
    have hspared := forall_mem_of_forall₂ hrest'.flip (fun _ _ => Handling.Denotes.spares) hspares
    cases hend with
    | replaced sub' hne => exact .replaced hserved (hh.opens_iff.mpr rfl) hne hspared hnone
    | gone =>
      have hclosed : h.Unsubscribes key sub := by
        cases hh with
        | closed hkey hmethod hparams => exact ⟨hkey, rfl, _, rfl, hmethod, hparams⟩
      have hmem : .closed key sub ∈
          before' ++ .opened key sub :: (live' ++ .closed key sub :: rest') := by simp
      refine .gone hserved hclosed (hr.dropped_of_closed hmem) hspared hnone ?_
      intro mid h' rest'' hsplit hkey hcalls
      subst hsplit
      obtain ⟨mid', _, rfl, hmid, hlater⟩ := exists_append_of_forall₂ hrest'.flip
      obtain ⟨e', _, he', -, rfl⟩ := List.forall₂_cons_left_iff.mp hlater
      obtain ⟨key', s', rfl⟩ := he'.exists_closed hcalls
      obtain rfl : key' = key := Option.some.inj (he'.key_eq.symm.trans hkey)
      obtain ⟨s'', hs''⟩ :=
        hr.reachable.exists_opened (List.append_assoc before' (_ :: live') _).symm
      obtain ⟨b, hb, hopened⟩ := exists_mem_of_forall₂ hmid.flip hs''
      exact ⟨b, hb, s'', Handling.Denotes.opens_iff hopened |>.mpr rfl⟩

/-! ### The queues -/

/-- Handling a message takes nothing else from the queue. It stays in the loop, unless a
receiver of a call is dropped or an expected value is missing. -/
theorem handleIncoming_cases (json : SerdeJson) (w : World) (m : Message) :
    (w.handleIncoming json m).incoming = w.incoming ∧
      ((w.handleIncoming json m).phase = w.phase ∨
        (w.handleIncoming json m).phase =
          .complete (.error (.client "oneshot channel closed")) ∨
        (w.handleIncoming json m).phase = .panicked) := by
  have hnotify : ∀ (w : World) channel result, (w.notifyChannel channel result).incoming =
      w.incoming ∧ (w.notifyChannel channel result).phase = w.phase := by
    intro w channel result
    unfold notifyChannel
    split <;> exact ⟨rfl, rfl⟩
  unfold handleIncoming
  split
  · unfold answerCall
    split
    · exact ⟨rfl, .inr (.inl rfl)⟩
    · exact ⟨rfl, .inl rfl⟩
  · unfold answerSubscription
    split
    · exact ⟨rfl, .inl rfl⟩
    · obtain ⟨hincoming, hphase⟩ := hnotify (w.consume m (.subscription _)) _ m.result
      exact ⟨hincoming, .inl hphase⟩
  · unfold routeNotification
    split
    · split
      · split
        · unfold World.unsubscribe
          split
          · exact ⟨rfl, .inl rfl⟩
          · exact ⟨rfl, .inr (.inr rfl)⟩
        · obtain ⟨hincoming, hphase⟩ := hnotify (w.emit [.processed m none]) _ m.result
          exact ⟨hincoming, .inl hphase⟩
      · exact ⟨rfl, .inl rfl⟩
    · exact ⟨rfl, .inl rfl⟩

/-- A duplex that has completed does nothing. -/
theorem run_poll_of_complete {r : RpcResult Unit} (hphase : w.phase = .complete r)
    (answers : List TransportAnswers) : Runs.run (step json) w (answers.map .poll) = w := by
  induction answers with
  | nil => rfl
  | cons answer answers ih =>
    rw [List.map_cons, Runs.run, List.foldl_cons, step, poll_of_complete hphase]
    exact ih

/-- The loop over the queue of incoming messages handles all of them. -/
theorem run_poll_of_incoming (hroutes : ∃ log, w.Routes json log) (hphase : w.phase = .incoming)
    (answers : List TransportAnswers) (hlength : answers.length = w.incoming.length + 1) :
    (Runs.run (step json) w (answers.map .poll)).phase = .outgoing ∧
        (Runs.run (step json) w (answers.map .poll)).incoming = [] ∨
      (Runs.run (step json) w (answers.map .poll)).phase =
        .complete (.error (.client "oneshot channel closed")) := by
  induction answers generalizing w with
  | nil => simp at hlength
  | cons answer answers ih =>
    obtain ⟨log, hroutes⟩ := hroutes
    obtain ⟨log', hnext⟩ := hroutes.pollIncoming
    rw [List.map_cons, Runs.run, List.foldl_cons, step, poll_of_incoming hphase]
    unfold pollIncoming at hnext ⊢
    cases hincoming : w.incoming with
    | nil =>
      obtain rfl : answers = [] := by simpa [hincoming] using hlength
      exact .inl ⟨rfl, rfl⟩
    | cons m incoming =>
      rw [hincoming] at hnext
      dsimp only at hnext ⊢
      obtain ⟨hrest, hsame | hcomplete | hpanicked⟩ :=
        handleIncoming_cases json { w with incoming } m
      · have hlength' : answers.length = incoming.length + 1 := by simpa [hincoming] using hlength
        exact ih ⟨log', hnext⟩ (hsame.trans hphase) (by rw [hrest]; exact hlength')
      · have hstays := @run_poll_of_complete json _ _ hcomplete answers
        rw [Runs.run] at hstays
        rw [hstays]
        exact .inr hcomplete
      · exact absurd hpanicked hnext.not_panicked

/-- The calls to unsubscribe in the handlings are those of the requests that were queued. -/
theorem flatMap_unsubscribes_sublist (trace : List Happening) :
    (((handlings trace).flatMap Handling.unsubscribes).map
      fun call => Request.single (.methodCall call)).Sublist (queuedRequests trace) := by
  induction trace using List.reverseRecOn with
  | nil => exact .slnil
  | append_singleton trace h ih =>
    rw [queuedRequests_append]
    cases haside : h.isAside with
    | true =>
      rw [handlings_aside (by simp [haside])]
      exact ih.trans (List.sublist_append_left _ _)
    | false =>
      unfold handlings at ih ⊢
      rw [List.foldl_append]
      -- The other happenings add a handling without calls, or change the last one.
      cases h with
      | processed message consumed =>
        rw [List.foldl_cons, List.foldl_nil, Handling.record, List.reverse_cons]
        simpa [queuedRequests] using ih
      | notified channel result =>
        rw [List.foldl_cons, List.foldl_nil, Handling.record]
        cases hlast : trace.foldl Handling.record [] with
        | nil => simp
        | cons last hs =>
          rw [hlast] at ih
          simpa [queuedRequests] using ih
      | queued request =>
        rcases request with (call | n | id) | calls
        · rw [List.foldl_cons, List.foldl_nil, Handling.record]
          cases hlast : trace.foldl Handling.record [] with
          | nil => simp
          | cons last hs =>
            rw [hlast] at ih
            have hcall := ih.append (List.Sublist.refl [Request.single (.methodCall call)])
            simpa [queuedRequests] using hcall
        all_goals cases haside
      | _ => cases haside

/-! ### Dropped receivers -/

/-- The duplex goes on: nothing new is sent to a channel whose receiver is dropped. -/
structure Continues (w w' : World) : Prop where
  dropped_subset : w.droppedChannels ⊆ w'.droppedChannels
  exists_trace_eq : ∃ new, w'.trace = w.trace ++ new ∧
    ∀ c ∈ w.droppedChannels, ∀ result, .notified c result ∉ new

theorem Continues.refl (w : World) : w.Continues w :=
  ⟨fun _ h => h, [], (List.append_nil _).symm, by simp⟩

theorem Continues.trans {w' w'' : World} (h : w.Continues w') (h' : w'.Continues w'') :
    w.Continues w'' := by
  obtain ⟨new, htrace, hnew⟩ := h.exists_trace_eq
  obtain ⟨new', htrace', hnew'⟩ := h'.exists_trace_eq
  refine ⟨fun c hc => h'.dropped_subset (h.dropped_subset hc), new ++ new', ?_,
    fun c hc result hmem => ?_⟩
  · rw [htrace', htrace, List.append_assoc]
  · rcases List.mem_append.mp hmem with hmem | hmem
    · exact hnew c hc result hmem
    · exact hnew' c (h.dropped_subset hc) result hmem

/-- Recording what is sent to no dropped channel goes on. -/
theorem Continues.of_trace {w' : World} {new : List Happening}
    (hdropped : w'.droppedChannels = w.droppedChannels) (htrace : w'.trace = w.trace ++ new)
    (hnew : ∀ c ∈ w.droppedChannels, ∀ result, .notified c result ∉ new) : w.Continues w' :=
  ⟨fun _ h => hdropped ▸ h, new, htrace, hnew⟩

/-- Recording nothing goes on. -/
theorem Continues.of_eq {w' : World} (hdropped : w'.droppedChannels = w.droppedChannels)
    (htrace : w'.trace = w.trace) : w.Continues w' :=
  .of_trace hdropped (htrace.trans (List.append_nil _).symm) (by simp)

/-- Registering a request goes on. -/
theorem continues_register (json : SerdeJson) (w : World) (request : MethodCall × RequestBuilder)
    (pending : PendingRequest) : w.Continues (w.register json request pending) := by
  refine .of_trace rfl rfl fun c _ result => ?_
  unfold registration
  split <;> simp

theorem continues_pollClient (json : SerdeJson) (w : World) :
    w.Continues (w.pollClient json) := by
  unfold pollClient
  split
  · split
    · rename_i message mailbox hmailbox
      have hmailed : w.Continues { w with mailbox } := .of_eq rfl rfl
      refine hmailed.trans ?_
      cases message with
      | call | subscribe =>
        rw [World.handleClient]
        exact continues_register _ _ _ _
      | notify => exact .of_trace rfl rfl (by simp)
    · split <;> exact .of_eq rfl rfl
  · exact .of_eq rfl rfl

theorem continues_pollStream (json : SerdeJson) (w : World) (answer : Poll (Option String)) :
    w.Continues (w.pollStream json answer) := by
  unfold pollStream
  split
  · dsimp only
    split <;> exact .of_trace rfl rfl (by simp)
  · exact .of_eq rfl rfl
  · exact .of_eq rfl rfl

theorem continues_notifyChannel (w : World) (channel : ℕ) (result : RpcResult Value) :
    w.Continues (w.notifyChannel channel result) := by
  unfold notifyChannel
  split
  · exact .refl w
  · rename_i halive
    refine .of_trace rfl rfl fun c hc result' hmem => ?_
    cases List.mem_singleton.mp hmem
    exact halive hc

/-- Handling a message goes on. -/
theorem continues_handleIncoming (json : SerdeJson) (w : World) (m : Message) :
    w.Continues (w.handleIncoming json m) := by
  have hprocessed : ∀ pending, w.Continues (w.consume m pending) := fun _ =>
    .of_trace rfl rfl (by simp)
  unfold handleIncoming
  split
  · rename_i sender hlookup
    refine (hprocessed (.call sender)).trans ?_
    unfold answerCall
    split
    · exact .of_eq rfl rfl
    · exact .of_trace rfl rfl (by simp)
  · rename_i sub hlookup
    refine (hprocessed (.subscription sub)).trans ?_
    unfold answerSubscription
    split
    · exact .of_eq rfl rfl
    · exact continues_notifyChannel _ _ _
  · have hemit : w.Continues (w.emit [.processed m none]) := .of_trace rfl rfl (by simp)
    refine hemit.trans ?_
    unfold routeNotification
    split
    · split
      · split
        · unfold World.unsubscribe
          split
          · exact .of_trace rfl rfl (by simp)
          · exact .of_eq rfl rfl
        · exact continues_notifyChannel _ _ _
      · exact .refl _
    · exact .refl _

theorem continues_pollOutgoing (w : World) (ready : Poll Bool) (startSend : Bool) :
    w.Continues (w.pollOutgoing ready startSend) := by
  unfold pollOutgoing
  split
  · split
    · dsimp only
      split <;> exact .of_trace rfl rfl (by simp)
    · exact .of_eq rfl rfl
  all_goals exact .of_eq rfl rfl

theorem continues_poll (json : SerdeJson) (w : World) (answers : TransportAnswers) :
    w.Continues (w.poll json answers) := by
  unfold poll
  split
  · exact .of_eq rfl rfl
  · exact continues_pollClient json w
  · exact continues_pollStream json w _
  · unfold pollIncoming
    split
    · rename_i m incoming hincoming
      have htaken : w.Continues { w with incoming } := .of_eq rfl rfl
      exact htaken.trans (continues_handleIncoming json _ m)
    · exact .of_eq rfl rfl
  · exact continues_pollOutgoing w _ _
  · unfold pollSink
    split <;> exact .of_eq rfl rfl
  · exact .refl w
  · exact .refl w

theorem continues_step (json : SerdeJson) (w : World) (l : Label) :
    w.Continues (w.step json l) := by
  cases l with
  | poll answers => exact continues_poll json w answers
  | callMethod method params =>
    rw [World.step]
    split
    · exact .of_trace rfl rfl (by simp)
    · exact .refl w
  | dropSubscription channel =>
    rw [World.step]
    split
    · exact ⟨fun c hc => List.mem_cons_of_mem _ hc, [], (List.append_nil _).symm, by simp⟩
    · exact .refl w
  | notify | subscribe | dropCall =>
    rw [World.step]
    split
    · exact .of_eq rfl rfl
    · exact .refl w
  | dropClients => exact .of_eq rfl rfl

/-- A longer run goes on. -/
theorem continues_after (json : SerdeJson) (ls ls' : List Label) :
    (after json ls).Continues (after json (ls ++ ls')) := by
  rw [after, after, Runs.run_append]
  exact Runs.run_invariant (.refl _) (fun _ l h => h.trans (continues_step json _ l)) ls'

/-- **Routing.** After every run, every entry is under its own key, no expected value is
missing, and every subscription that was answered with an id receives each notification
that names it once, in the order of arrival, until another subscription takes its entry
or its receiver is found to be dropped. Then one request unsubscribes from it. The loops
of the poll function handle all messages, and all requests are queued for the sink. However
the run continues, nothing is sent to a channel whose receiver is dropped. -/
theorem after_routed (json : SerdeJson) (ls : List Label) :
    (after json ls).Routed json ∧
      ∀ ls', (after json ls).Continues (after json (ls ++ ls')) := by
  refine ⟨?_, continues_after json ls⟩
  have hroutes := exists_routes_after json ls
  have hwrites : (after json ls).Writes json :=
    Runs.run_invariant (writes_init json) (fun _ l h => h.step l) ls
  obtain ⟨log, h⟩ := hroutes
  exact { keyed := h.keyed, not_panicked := h.not_panicked, messages_eq := h.messages_eq,
          drained := (inv_after json ls).drained,
          drains := fun hphase answers hlength =>
            run_poll_of_incoming ⟨log, h⟩ hphase answers hlength,
          life := h.life, texts_eq := hwrites.texts_eq,
          unsubscribes_sublist := by
            have hsublist := (flatMap_unsubscribes_sublist (after json ls).trace).map
              (Request.toString json)
            rw [List.map_map, ← hwrites.texts_eq] at hsublist
            exact hsublist }

end World

/-! ## A subscription whose receiver is dropped -/

/-- The request to subscribe to news, and its text. -/
def subscribeNews : Request := .single (.methodCall ⟨some .v2, "subscribe_news", .none, .num 0⟩)

def subscribeNewsText : String :=
  "\x7b\"jsonrpc\":\"2.0\",\"method\":\"subscribe_news\",\"params\":null,\"id\":0\x7d"

/-- The id of the subscription, as the server answers it. -/
def newsIdText : String := "\x7b\"jsonrpc\":\"2.0\",\"result\":5,\"id\":0\x7d"

def newsNotification : Notification :=
  ⟨some .v2, "news", .map ⟨[("result", .bool true), ("subscription", .number (.posInt 5))], rfl⟩⟩

def newsText : String :=
  "\x7b\"jsonrpc\":\"2.0\",\"method\":\"news\",\"params\":" ++
    "\x7b\"result\":true,\"subscription\":5\x7d\x7d"

/-- The call to unsubscribe, and its text. -/
def unsubscribeNews : MethodCall :=
  ⟨some .v2, "unsubscribe_news", .array [(SubscriptionId.number 5).toValue], .num 1⟩

def unsubscribeNewsText : String :=
  "\x7b\"jsonrpc\":\"2.0\",\"method\":\"unsubscribe_news\",\"params\":[5],\"id\":1\x7d"

/-- The JSON library on these texts. -/
def newsJson : SerdeJson := .ofTable
  [(subscribeNews.serialize, subscribeNewsText),
    ((Output.success ⟨some .v2, (SubscriptionId.number 5).toValue, .num 0⟩).serialize, newsIdText),
    (newsNotification.serialize, newsText),
    ((Request.single (.methodCall unsubscribeNews)).serialize, unsubscribeNewsText)]

/-- A client subscribes and receives a notification. It drops the receiver, and another
notification arrives. -/
def droppedNews : List Label :=
  [.subscribe "subscribe_news" .none "news" "unsubscribe_news"] ++ List.replicate 10 turn ++
    [reads newsIdText, reads newsText] ++ List.replicate 8 turn ++
    [.dropSubscription 0, reads newsText] ++ List.replicate 3 turn

/-- The first notification is sent to the channel, and the second one queues the request to
unsubscribe. -/
theorem World.after_routed_droppedNews :
    let w := World.after newsJson droppedNews
    w.Routed newsJson ∧ w.phase = .outgoing ∧ w.incoming = [] ∧
      (handlings w.trace).map (fun h => (h.sends, h.unsubscribes)) =
        [([], []), ([(0, .ok (.bool true))], []), ([], [unsubscribeNews])] ∧
      w.subscriptions.keys = [] ∧ sentTexts w.trace = [subscribeNewsText] ∧
      w.outgoing = [unsubscribeNewsText] := by
  refine ⟨(World.after_routed newsJson droppedNews).1, ?_⟩
  decide +kernel

end JsonRpc
