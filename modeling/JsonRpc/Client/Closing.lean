import JsonRpc.Client.Correlation

/-!
# Responses at the end of the connection

The duplex reads the stream until it is not ready, and only then handles what it
read. When the stream ends, it completes at once. Responses that it read before
in the same poll are then still in the queue, and their calls never receive them.
The same happens when a string cannot be parsed, and when a response meets a call
whose receiver is dropped.
-/

namespace JsonRpc

namespace World

variable {json : SerdeJson} {w : World}

/-- No response is lost: the first message with the id of a call that the stream
yields after the call was registered is delivered to the call, unless its
receiver is dropped. -/
def NoResponseLost (json : SerdeJson) (w : World) : Prop :=
  ∀ before call text sender after m,
    w.trace = before ++ .registered call text (.call sender) :: after →
    (receivedMessages json after).find? (fun m => m.id = call.id) = some m →
    sender ∉ w.droppedCalls → .delivered sender m.result ∈ w.trace

/-- The message answers a call whose receiver is there. -/
def isAwaited (w : World) (m : Message) : Bool :=
  match w.pendingRequests.lookup m.id with
  | some (.call sender) => sender ∉ w.droppedCalls
  | _ => false

/-- The messages that stay in the queue if the duplex completes now. In the loop
over the queue the first message is handled, and with it all messages with its id. -/
def leftover (w : World) : List Message :=
  match w.phase, w.incoming with
  | .incoming, m :: incoming => incoming.filter fun m' => m'.id ≠ m.id
  | _, incoming => incoming

theorem isAwaited_iff {m : Message} :
    w.isAwaited m ↔
      ∃ sender ∉ w.droppedCalls, w.pendingRequests.lookup m.id = some (.call sender) := by
  unfold isAwaited
  split
  · rename_i sender hlookup
    simp [hlookup]
  · rename_i hlookup
    refine iff_of_false nofun ?_
    rintro ⟨sender, -, hsender⟩
    exact hlookup sender hsender

/-! ## The queue -/

/-- The first message for a call that arrives, from the registration in the trace. -/
theorem Inv.firstAfter_arrival (h : w.Inv json) {before after : List Happening}
    {call : MethodCall} {text : String} {sender : ℕ}
    (htrace : w.trace = before ++ .registered call text (.call sender) :: after) :
    Correlator.firstAfter Message.id Correlator.Event.arrival (.call sender)
        (events json w.trace) =
      (receivedMessages json after).find? fun m => m.id = call.id := by
  have hnotMem : .call sender ∉ Correlator.registered (events json before) := by
    have hnodup := h.nodup_calls.of_append_left
    rw [htrace, registeredCalls_append, List.map_append, List.nodup_append] at hnodup
    rw [call_mem_registered_iff]
    exact fun hmem => hnodup.2.2 _ hmem _ List.mem_cons_self rfl
  have hevents : events json w.trace =
      events json before ++ .registered call.id (.call sender) :: events json after := by
    simp [htrace, Happening.event]
  rw [hevents, Correlator.firstAfter_append_registered Message.id hnotMem,
    filterMap_arrival_events]

/-- A result is delivered to a call whose receiver is there exactly when a message
with that result consumed it. -/
theorem Inv.delivered_mem_iff (h : w.Inv json) {sender : ℕ} (hsender : sender ∉ w.droppedCalls)
    (result : RpcResult Value) :
    .delivered sender result ∈ w.trace ↔
      ∃ m ∈ Correlator.consumers (.call sender) (events json w.trace), m.result = result := by
  rw [← List.mem_map, ← h.deliveries_eq sender hsender]
  simp only [deliveries, List.mem_filterMap]
  constructor
  · intro hmem
    exact ⟨_, hmem, if_pos rfl⟩
  · rintro ⟨happening, hmem, hsome⟩
    split at hsome
    · split at hsome
      · rename_i heq
        subst heq
        cases hsome
        exact hmem
      · cases hsome
    · cases hsome

/-- As long as the ids are distinct, no response is lost so far exactly when none
in the queue is awaited. -/
theorem Inv.noResponseLost_iff (h : w.Inv json) (hcount : (issuedIds w.trace).length ≤ 2 ^ 64) :
    w.NoResponseLost json ↔ ∀ m ∈ w.incoming, ¬ w.isAwaited m := by
  have hs := h.sound hcount
  constructor
  · intro hlost m hm hawaited
    obtain ⟨sender, hsender, hlookup⟩ := isAwaited_iff.mp hawaited
    obtain ⟨m', hfirst⟩ := hs.exists_firstAfter hm hlookup
    obtain ⟨before, id, after, hevents, -⟩ :=
      Correlator.exists_registered_of_firstAfter Message.id hfirst
    obtain ⟨before, call, text, after, htrace, -, -⟩ := exists_registered_of_events_eq hevents
    rw [view_trace, h.firstAfter_arrival htrace] at hfirst
    have hdelivered := hlost _ _ _ _ _ _ htrace hfirst hsender
    obtain ⟨m'', hconsumer, -⟩ := (h.delivered_mem_iff hsender _).mp hdelivered
    have hnone := hs.consumers_of_pending hlookup
    rw [view_trace] at hnone
    rw [hnone] at hconsumer
    cases hconsumer
  · intro hqueue before call text sender after m htrace hfind hsender
    rw [← h.firstAfter_arrival htrace] at hfind
    rcases hs.consumers_of_firstAfter hfind with hconsumers | ⟨hm, hpending⟩
    · rw [h.delivered_mem_iff hsender]
      exact ⟨m, hconsumers ▸ List.mem_singleton_self m, rfl⟩
    · exact absurd (isAwaited_iff.mpr ⟨sender, hsender, hpending⟩) (hqueue m hm)

/-! ## The last iteration -/

/-- Handling a message of a client does not end the poll. -/
theorem phase_handleClient (json : SerdeJson) (w : World) (message : RpcMessage) :
    (w.handleClient json message).phase = w.phase := by
  cases message <;> rfl

/-- The loop over the messages of the clients does not complete. -/
theorem phase_pollClient_ne_complete (hphase : w.phase = .client) (r : RpcResult Unit) :
    (w.pollClient json).phase ≠ .complete r := by
  unfold pollClient
  split
  · split
    · rw [phase_handleClient, hphase]
      nofun
    · split <;> nofun
  · nofun

/-- A notification does not complete the duplex. -/
theorem phase_routeNotification_ne_complete {r : RpcResult Unit} (hphase : w.phase ≠ .complete r)
    (m : Message) : (w.routeNotification json m).phase ≠ .complete r := by
  unfold routeNotification
  split
  · split
    · split
      · unfold unsubscribe
        split
        · exact hphase
        · nofun
      · unfold notifyChannel
        split <;> exact hphase
    · exact hphase
  · exact hphase

/-- A message completes the duplex only if it answers a call whose receiver is dropped. -/
theorem handleIncoming_of_complete {r : RpcResult Unit} (hphase : w.phase ≠ .complete r)
    {m : Message} (h : (w.handleIncoming json m).phase = .complete r) :
    (w.handleIncoming json m).incoming = w.incoming ∧
      (w.handleIncoming json m).pendingRequests = w.pendingRequests.erase m.id ∧
      (w.handleIncoming json m).droppedCalls = w.droppedCalls := by
  unfold handleIncoming at h ⊢
  split at h <;> rename_i hlookup
  · rename_i sender
    unfold answerCall at h ⊢
    split at h
    · rename_i hdropped
      simp only [hdropped, if_true]
      exact ⟨rfl, rfl, rfl⟩
    · exact absurd h hphase
  · rename_i subscription
    unfold answerSubscription at h
    split at h
    · exact absurd h hphase
    · unfold notifyChannel at h
      split at h <;> exact absurd h hphase
  · refine absurd h (phase_routeNotification_ne_complete ?_ m)
    exact hphase

/-- The iteration that completes the duplex handles the first message of the queue,
or it leaves the queue as it is. -/
theorem poll_complete_cases {r : RpcResult Unit} {answers : TransportAnswers}
    (h : (w.poll json answers).phase = .complete r) :
    (w.poll json answers).droppedCalls = w.droppedCalls ∧
      ((w.phase = .incoming ∧ ∃ m, w.incoming = m :: (w.poll json answers).incoming ∧
          (w.poll json answers).pendingRequests = w.pendingRequests.erase m.id) ∨
        (w.phase ≠ .incoming ∧ (w.poll json answers).incoming = w.incoming ∧
          (w.poll json answers).pendingRequests = w.pendingRequests)) := by
  cases hphase : w.phase with
  | idle =>
    rw [poll_of_idle hphase] at h
    cases h
  | client =>
    rw [poll_of_client hphase] at h
    exact absurd h (phase_pollClient_ne_complete hphase r)
  | stream =>
    rw [poll_of_stream hphase] at h ⊢
    generalize answers.stream = answer at h ⊢
    revert h
    fun_cases pollStream
    · intro h
      exact absurd (hphase.symm.trans h) nofun
    · exact fun _ => ⟨rfl, .inr ⟨nofun, rfl, rfl⟩⟩
    · exact fun _ => ⟨rfl, .inr ⟨nofun, rfl, rfl⟩⟩
    · nofun
  | incoming =>
    rw [poll_of_incoming hphase] at h ⊢
    revert h
    fun_cases pollIncoming
    · rename_i m incoming hincoming
      intro h
      obtain ⟨hqueue, hpending, hdropped⟩ := handleIncoming_of_complete (by simp [hphase]) h
      exact ⟨hdropped, .inl ⟨rfl, m, by rw [hqueue, hincoming], hpending⟩⟩
    · nofun
  | outgoing =>
    rw [poll_of_outgoing hphase]
    generalize answers.ready = ready, answers.startSend = startSend
    fun_cases pollOutgoing <;> exact ⟨rfl, .inr ⟨nofun, rfl, rfl⟩⟩
  | sink =>
    rw [poll_of_sink hphase]
    generalize answers.flush = flush
    fun_cases pollSink <;> exact ⟨rfl, .inr ⟨nofun, rfl, rfl⟩⟩
  | complete =>
    rw [poll_of_complete hphase]
    exact ⟨rfl, .inr ⟨nofun, rfl, rfl⟩⟩
  | panicked =>
    rw [poll_of_panicked hphase] at h
    exact absurd (hphase.symm.trans h) nofun

/-- When an iteration completes the duplex, the awaited messages in the queue are
those that were left over before it. -/
theorem forall_not_isAwaited_poll_iff {r : RpcResult Unit} {answers : TransportAnswers}
    (h : (w.poll json answers).phase = .complete r) :
    (∀ m ∈ (w.poll json answers).incoming, ¬ (w.poll json answers).isAwaited m) ↔
      ∀ m ∈ w.leftover, ¬ w.isAwaited m := by
  obtain ⟨hdropped, ⟨hphase, m, hincoming, hpending⟩ | ⟨hphase, hincoming, hpending⟩⟩ :=
    poll_complete_cases h
  · have hleftover : w.leftover = (w.poll json answers).incoming.filter fun m' => m'.id ≠ m.id := by
      simp only [leftover, hphase, hincoming]
    have herase : ∀ m', (w.poll json answers).isAwaited m' ↔ m'.id ≠ m.id ∧ w.isAwaited m' := by
      intro m'
      rw [isAwaited_iff, isAwaited_iff, hpending, hdropped]
      by_cases hid : m'.id = m.id
      · rw [hid]
        simp
      · simp [hid]
    simp only [hleftover, List.mem_filter, herase]
    grind
  · have hleftover : w.leftover = w.incoming := by
      unfold leftover
      split
      · contradiction
      · rfl
    simp only [hleftover, isAwaited_iff, hincoming, hpending, hdropped]

/-- **Closing.** When an iteration completes the duplex, no response is lost exactly
when no message that stays in the queue answers a call whose receiver is there. -/
theorem noResponseLost_iff_leftover (json : SerdeJson) (ls : List Label)
    (answers : TransportAnswers) {r : RpcResult Unit}
    (hcount : (issuedIds (after json (ls ++ [.poll answers])).trace).length < 2 ^ 64)
    (hcomplete : (after json (ls ++ [.poll answers])).phase = .complete r) :
    (after json (ls ++ [.poll answers])).NoResponseLost json ↔
      ∀ m ∈ (after json ls).leftover, ¬ (after json ls).isAwaited m := by
  rw [(inv_after json _).noResponseLost_iff hcount.le]
  have hafter : after json (ls ++ [.poll answers]) = (after json ls).poll json answers :=
    after_concat json ls _
  rw [hafter] at hcomplete ⊢
  exact forall_not_isAwaited_poll_iff hcomplete

end World

/-! ## A response read right before the end -/

/-- An iteration in which the stream ends. -/
def ends : Label := .poll ⟨.ready none, .ready true, true, .ready true⟩

/-- The response to the first call is read, and the stream ends in the same poll.
The duplex completes and the call never receives it. -/
theorem World.not_noResponseLost_samePoll :
    let w := World.after pingJson (twoPings ++ [reads (pingOutputText "0"), ends])
    w.phase = .complete (.ok ()) ∧ w.droppedCalls = [] ∧ ¬ w.NoResponseLost pingJson := by
  refine ⟨by decide, by decide, fun hlost => ?_⟩
  have hdelivered := hlost
    [.called 0 "ping" .none, .called 1 "ping" .none, .issued (.num 0)]
    (pingCall 0) (pingCallText "0") 0
    [.issued (.num 1), .registered (pingCall 1) (pingCallText "1") (.call 1),
      .sent (pingCallText "0"), .sent (pingCallText "1"), .received (pingOutputText "0")]
    ⟨.num 0, .ok (.bool true), none, none⟩ (by decide) (by decide) (by decide)
  exact absurd hdelivered (by decide)

/-- The response is delivered when the stream ends in the next poll. -/
theorem World.noResponseLost_nextPoll :
    let ls := twoPings ++ [reads (pingOutputText "0")] ++ List.replicate 7 turn
    let w := World.after pingJson (ls ++ [ends])
    (issuedIds w.trace).length < 2 ^ 64 ∧ w.phase = .complete (.ok ()) ∧
      deliveries 0 w.trace = [.ok (.bool true)] ∧ w.NoResponseLost pingJson := by
  have hcomplete : (World.after pingJson (twoPings ++ [reads (pingOutputText "0")] ++
      List.replicate 7 turn ++ [ends])).phase = .complete (.ok ()) := by decide
  refine ⟨by decide, hcomplete, by decide, ?_⟩
  exact (World.noResponseLost_iff_leftover pingJson _ _ (by decide) hcomplete).mpr (by decide)

end JsonRpc
