import JsonRpc.Client.Invariant

/-!
# What the duplex writes

Every request whose text is queued is written to the sink once, and the requests
are written in the order in which they were queued. The method calls among them
carry the ids that the builder handed out, in their order.
-/

namespace JsonRpc

/-- The requests whose texts were queued. -/
def queuedRequests (trace : List Happening) : List Request :=
  trace.filterMap fun
    | .registered call _ _ => some (.single (.methodCall call))
    | .queued request => some request
    | _ => none

/-- The texts that the sink was given. -/
def sentTexts (trace : List Happening) : List String :=
  trace.filterMap fun
    | .sent text => some text
    | _ => none

/-- The id of a single method call. -/
def Request.callId : Request → Option Id
  | .single (.methodCall call) => some call.id
  | _ => none

/-- The requests that clients make: single calls of version 2.0. -/
def Request.isFromClient : Request → Bool
  | .single (.methodCall call) => call.jsonrpc = some .v2
  | .single (.notification n) => n.jsonrpc = some .v2
  | _ => false

section Append

variable (trace trace' : List Happening)

@[simp] theorem queuedRequests_append :
    queuedRequests (trace ++ trace') = queuedRequests trace ++ queuedRequests trace' :=
  List.filterMap_append

@[simp] theorem sentTexts_append :
    sentTexts (trace ++ trace') = sentTexts trace ++ sentTexts trace' :=
  List.filterMap_append

end Append

/-- The requests are written once and in their order. -/
structure World.Writes (json : SerdeJson) (w : World) : Prop where
  /-- The texts are those of the requests. -/
  texts_eq : sentTexts w.trace ++ w.outgoing = (queuedRequests w.trace).map (Request.toString json)
  /-- The ids are those that the builder handed out. -/
  ids_eq : (queuedRequests w.trace).filterMap Request.callId = issuedIds w.trace
  /-- All requests are requests of clients. -/
  fromClient : ∀ q ∈ queuedRequests w.trace, q.isFromClient

/-- What has nothing to do with the requests. -/
def Happening.isOffWire : Happening → Bool
  | .called _ _ _ | .received _ | .processed _ _ | .delivered _ _ | .notified _ _ => true
  | _ => false

/-- What is not exchanged with the transport. -/
def Happening.isInternal : Happening → Bool
  | .sent _ | .received _ => false
  | _ => true

section OffWire

variable {happenings : List Happening} (hoff : happenings.all Happening.isOffWire)
include hoff

theorem queuedRequests_offWire : queuedRequests happenings = [] :=
  Runs.filterMap_eq_nil_of_all hoff fun h hh => by
    cases h with
    | registered | queued => cases hh
    | _ => rfl

theorem sentTexts_offWire : sentTexts happenings = [] :=
  Runs.filterMap_eq_nil_of_all hoff fun h hh => by
    cases h with
    | sent => cases hh
    | _ => rfl

theorem issuedIds_offWire : issuedIds happenings = [] :=
  Runs.filterMap_eq_nil_of_all hoff fun h hh => by
    cases h with
    | issued => cases hh
    | _ => rfl

end OffWire

namespace World

variable {json : SerdeJson} {w : World}

/-- What has nothing to do with the requests keeps them. -/
theorem Writes.emit (h : w.Writes json) {happenings : List Happening}
    (hoff : happenings.all Happening.isOffWire) : (w.emit happenings).Writes json where
  texts_eq := by
    simpa [World.emit, sentTexts_offWire hoff, queuedRequests_offWire hoff] using h.texts_eq
  ids_eq := by
    simpa [World.emit, queuedRequests_offWire hoff, issuedIds_offWire hoff] using h.ids_eq
  fromClient := by simpa [World.emit, queuedRequests_offWire hoff] using h.fromClient

/-- A request that is queued is written after the others. -/
theorem Writes.queue (h : w.Writes json) (request : Request) {happenings : List Happening}
    (hclient : request.isFromClient) (hqueued : queuedRequests happenings = [request])
    (hsent : sentTexts happenings = [])
    (hissued : issuedIds happenings = request.callId.toList) :
    Writes json
      { w with
        outgoing := w.outgoing ++ [request.toString json]
        trace := w.trace ++ happenings } where
  texts_eq := by
    rw [sentTexts_append, hsent, List.append_nil, queuedRequests_append, hqueued, List.map_append,
      ← h.texts_eq, ← List.append_assoc]
    rfl
  ids_eq := by
    rw [queuedRequests_append, hqueued, List.filterMap_append, h.ids_eq, issuedIds_append, hissued]
    cases hid : request.callId <;> simp [hid]
  fromClient := by
    rw [queuedRequests_append, hqueued]
    intro q hq
    rcases List.mem_append.mp hq with hq | hq
    · exact h.fromClient q hq
    · rw [List.mem_singleton.mp hq]
      exact hclient

/-- Registering a request queues it. -/
theorem Writes.register (h : w.Writes json) {call : MethodCall} (hversion : call.jsonrpc = some .v2)
    (requestBuilder : RequestBuilder) (pending : PendingRequest) :
    (w.register json (call, requestBuilder) pending).Writes json := by
  have hqueued : queuedRequests (w.registration json call pending) =
      [.single (.methodCall call)] := by
    unfold registration
    split <;> rfl
  have hsent : sentTexts (w.registration json call pending) = [] := by
    unfold registration
    split <;> rfl
  have hclient : (Request.single (.methodCall call)).isFromClient := by
    simp [Request.isFromClient, hversion]
  exact { h.queue _ hclient hqueued hsent (issuedIds_registration json w call pending) with }

/-- Handling a message of a client queues its request. -/
theorem Writes.handleClient (h : w.Writes json) (message : RpcMessage) :
    (w.handleClient json message).Writes json := by
  cases message with
  | call method params sender => exact h.register rfl _ _
  | subscribe subscribe params notification unsubscribe sender => exact h.register rfl _ _
  | notify method params =>
    exact h.queue (RequestBuilder.notification method params) rfl rfl rfl rfl

theorem Writes.pollClient (h : w.Writes json) : (w.pollClient json).Writes json := by
  unfold World.pollClient
  split
  · split
    · rename_i message mailbox _
      exact Writes.handleClient (w := { w with mailbox }) { h with } message
    · split <;> exact { h with }
  · exact { h with }

theorem Writes.pollStream (h : w.Writes json) (answer : Poll (Option String)) :
    (w.pollStream json answer).Writes json := by
  fun_cases World.pollStream
  · rename_i response _ _ _
    have hreceived : [Happening.received response].all Happening.isOffWire := rfl
    exact { h.emit hreceived with }
  · rename_i response _ _ _
    have hreceived : [Happening.received response].all Happening.isOffWire := rfl
    exact { h.emit hreceived with }
  · exact { h with }
  · exact { h with }

theorem Writes.notifyChannel (h : w.Writes json) (channel : ℕ) (result : RpcResult Value) :
    (w.notifyChannel channel result).Writes json := by
  unfold World.notifyChannel
  split
  · exact h
  · exact h.emit rfl

/-- Unsubscribing queues a request. -/
theorem Writes.unsubscribe (h : w.Writes json) (key : SubscriptionId × String)
    (subscription : Subscription) : (w.unsubscribe json key subscription).Writes json := by
  unfold World.unsubscribe
  split
  · rename_i sid _
    exact { h.queue (.single (.methodCall
      (w.requestBuilder.unsubscribeRequest subscription.unsubscribe sid).1)) rfl rfl rfl rfl with }
  · exact { h with }

theorem Writes.routeNotification (h : w.Writes json) (m : Message) :
    (w.routeNotification json m).Writes json := by
  unfold World.routeNotification
  split
  · split
    · split
      · exact h.unsubscribe _ _
      · exact h.notifyChannel _ _
    · exact h
  · exact h

/-- Handling a message queues at most the request to unsubscribe. -/
theorem Writes.handleIncoming (h : w.Writes json) (m : Message) :
    (w.handleIncoming json m).Writes json := by
  have hprocessed : ∀ consumed, (w.emit [.processed m consumed]).Writes json := fun _ => h.emit rfl
  cases hlookup : w.pendingRequests.lookup m.id with
  | none =>
    rw [handleIncoming_of_none hlookup]
    exact (hprocessed none).routeNotification m
  | some pending =>
    have hconsumed : (w.consume m pending).Writes json := { hprocessed (some pending) with }
    cases pending with
    | call sender =>
      rw [handleIncoming_of_call hlookup, answerCall]
      split
      · exact { hconsumed with }
      · exact hconsumed.emit rfl
    | subscription subscription =>
      rw [handleIncoming_of_subscription hlookup, answerSubscription]
      split
      · exact { hconsumed with }
      · exact hconsumed.notifyChannel _ _

/-- The first text in the queue is the next one that is sent. -/
theorem Writes.pollOutgoing (h : w.Writes json) (ready : Poll Bool) (startSend : Bool) :
    (w.pollOutgoing ready startSend).Writes json := by
  have hsent : ∀ request outgoing, w.outgoing = request :: outgoing →
      Writes json { w with outgoing, trace := w.trace ++ [.sent request] } := by
    intro request outgoing houtgoing
    have htexts := h.texts_eq
    rw [houtgoing] at htexts
    refine { texts_eq := ?_, ids_eq := ?_, fromClient := ?_ }
    · simpa [sentTexts, queuedRequests] using htexts
    · simpa [queuedRequests, issuedIds] using h.ids_eq
    · simpa [queuedRequests] using h.fromClient
  unfold World.pollOutgoing
  split
  · split
    · rename_i request outgoing houtgoing
      dsimp only
      split <;> exact { hsent request outgoing houtgoing with }
    · exact { h with }
  · exact { h with }
  · exact { h with }

/-- A new duplex has written nothing. -/
theorem writes_init (json : SerdeJson) : init.Writes json where
  texts_eq := rfl
  ids_eq := rfl
  fromClient := by nofun

/-- Every step keeps the order of the requests. -/
theorem Writes.step (h : w.Writes json) (l : Label) : (w.step json l).Writes json := by
  cases l with
  | callMethod method params =>
    simp only [World.step]
    split
    · have hcalled : [Happening.called w.nextCall method params].all Happening.isOffWire := rfl
      exact { h.emit hcalled with }
    · exact h
  | poll answers =>
    simp only [World.step]
    cases hphase : w.phase with
    | idle =>
      rw [poll_of_idle hphase]
      exact { h with }
    | client =>
      rw [poll_of_client hphase]
      exact h.pollClient
    | stream =>
      rw [poll_of_stream hphase]
      exact h.pollStream _
    | incoming =>
      rw [poll_of_incoming hphase, pollIncoming]
      split
      · rename_i m incoming _
        exact Writes.handleIncoming (w := { w with incoming }) { h with } m
      · exact { h with }
    | outgoing =>
      rw [poll_of_outgoing hphase]
      exact h.pollOutgoing _ _
    | sink =>
      rw [poll_of_sink hphase, pollSink]
      split <;> exact { h with }
    | complete =>
      rw [poll_of_complete hphase]
      exact h
    | panicked =>
      rw [poll_of_panicked hphase]
      exact h
  | dropClients => exact { h with }
  | _ =>
    simp only [World.step]
    split
    · exact { h with }
    · exact h

/-! ## What the duplex exchanges with the transport -/

/-- Nothing is exchanged with the transport between two worlds. -/
def Internal (w w' : World) : Prop :=
  ∃ happenings, w'.trace = w.trace ++ happenings ∧ happenings.all Happening.isInternal

section Internal

variable {w' w'' : World}

/-- Nothing happens. -/
theorem Internal.of_eq (htrace : w'.trace = w.trace) : w.Internal w' :=
  ⟨[], by rw [htrace, List.append_nil], rfl⟩

theorem Internal.trans (h : w.Internal w') (h' : w'.Internal w'') : w.Internal w'' := by
  obtain ⟨happenings, htrace, hinternal⟩ := h
  obtain ⟨happenings', htrace', hinternal'⟩ := h'
  refine ⟨happenings ++ happenings', by rw [htrace', htrace, List.append_assoc], ?_⟩
  rw [List.all_append, hinternal, hinternal']
  rfl

/-- Handling a message of a client exchanges nothing. -/
theorem internal_handleClient (json : SerdeJson) (w : World) (message : RpcMessage) :
    w.Internal (w.handleClient json message) := by
  have hregister : ∀ request pending, w.Internal (w.register json request pending) := by
    intro request pending
    refine ⟨w.registration json request.1 pending, rfl, ?_⟩
    unfold registration
    split <;> rfl
  cases message with
  | call => exact hregister _ _
  | subscribe => exact hregister _ _
  | notify => exact ⟨_, rfl, rfl⟩

theorem internal_pollClient (json : SerdeJson) (w : World) : w.Internal (w.pollClient json) := by
  unfold pollClient
  split
  · split
    · rename_i message mailbox _
      exact internal_handleClient json { w with mailbox } message
    · split <;> exact .of_eq rfl
  · exact .of_eq rfl

theorem internal_notifyChannel (w : World) (channel : ℕ) (result : RpcResult Value) :
    w.Internal (w.notifyChannel channel result) := by
  unfold notifyChannel
  split
  · exact .of_eq rfl
  · exact ⟨_, rfl, rfl⟩

theorem internal_routeNotification (json : SerdeJson) (w : World) (m : Message) :
    w.Internal (w.routeNotification json m) := by
  unfold routeNotification
  split
  · split
    · split
      · unfold unsubscribe
        split
        · exact ⟨_, rfl, rfl⟩
        · exact .of_eq rfl
      · exact internal_notifyChannel _ _ _
    · exact .of_eq rfl
  · exact .of_eq rfl

/-- Handling a message exchanges nothing. -/
theorem internal_handleIncoming (json : SerdeJson) (w : World) (m : Message) :
    w.Internal (w.handleIncoming json m) := by
  have hconsume : ∀ pending, w.Internal (w.consume m pending) := fun _ => ⟨_, rfl, rfl⟩
  cases hlookup : w.pendingRequests.lookup m.id with
  | none =>
    rw [handleIncoming_of_none hlookup]
    exact Internal.trans ⟨_, rfl, rfl⟩ (internal_routeNotification _ _ _)
  | some pending =>
    refine (hconsume pending).trans ?_
    cases pending with
    | call sender =>
      rw [handleIncoming_of_call hlookup, answerCall]
      split
      · exact .of_eq rfl
      · exact ⟨_, rfl, rfl⟩
    | subscription subscription =>
      rw [handleIncoming_of_subscription hlookup, answerSubscription]
      split
      · exact .of_eq rfl
      · exact internal_notifyChannel _ _ _

theorem internal_pollIncoming (json : SerdeJson) (w : World) :
    w.Internal (w.pollIncoming json) := by
  unfold pollIncoming
  split
  · rename_i m incoming _
    exact internal_handleIncoming json { w with incoming } m
  · exact .of_eq rfl

/-- A step of a client exchanges nothing. -/
theorem internal_step (json : SerdeJson) (w : World) {l : Label}
    (hl : ∀ answers, l ≠ .poll answers) : w.Internal (w.step json l) := by
  cases l with
  | poll answers => exact absurd rfl (hl answers)
  | callMethod method params =>
    rw [step]
    split
    · exact ⟨_, rfl, rfl⟩
    · exact .of_eq rfl
  | dropClients => exact .of_eq rfl
  | notify | subscribe | dropCall | dropSubscription =>
    rw [step]
    split <;> exact .of_eq rfl

end Internal

/-- The string that the stream yields is recorded. -/
theorem trace_pollStream_ready (json : SerdeJson) (w : World) (text : String) :
    (w.pollStream json (.ready (some text))).trace = w.trace ++ [.received text] := by
  unfold pollStream
  dsimp only
  split <;> rfl

end World

end JsonRpc
