import JsonRpc.Client.Correlation

/-!
# Callers that share a duplex

A client that drops the receiver of its call should not be noticed by the others.
A run is compared with the same run in which one call is kept alive. The two
worlds stay the same up to the receivers that are dropped, until the response to
the call is handled: then the duplex fails and takes all other calls with it.
-/

namespace JsonRpc

/-- The step drops the receiver of this call. -/
def Label.isDropOf (sender : ℕ) : Label → Bool
  | .dropCall s => s = sender
  | _ => false

/-- The same run with the receiver of a call kept alive. -/
def keepAlive (sender : ℕ) (ls : List Label) : List Label :=
  ls.filter fun l => !l.isDropOf sender

/-- The results a subscription received. -/
def notifications (channel : ℕ) (trace : List Happening) : List (RpcResult Value) :=
  trace.filterMap fun
    | .notified c result => if c = channel then some result else none
    | _ => none

namespace World

/-- Nobody but the owner of a call sees a difference between two worlds. -/
structure Indistinguishable (sender : ℕ) (w w' : World) : Prop where
  /-- The duplex runs in both or completed with the same result. -/
  phase_eq : w.phase = w'.phase
  /-- The other calls received the same results. -/
  deliveries_eq : ∀ s ≠ sender, deliveries s w.trace = deliveries s w'.trace
  /-- The subscriptions received the same results. -/
  notifications_eq : ∀ channel, notifications channel w.trace = notifications channel w'.trace

/-- At no moment of the run somebody but the owner of the call notices that its
receiver is dropped. -/
def Independent (json : SerdeJson) (sender : ℕ) (ls : List Label) : Prop :=
  ∀ ls', ls' <+: ls →
    Indistinguishable sender (after json ls') (after json (keepAlive sender ls'))

/-- The step handles the response to a call whose receiver is dropped. -/
def answersDropped (sender : ℕ) (w : World) : Label → Bool
  | .poll _ =>
    match w.phase, w.incoming with
    | .incoming, m :: _ =>
      w.pendingRequests.lookup m.id = some (.call sender) && sender ∈ w.droppedCalls
    | _, _ => false
  | _ => false

variable {json : SerdeJson} {w : World}

/-! ## The dropped receivers matter only to responses -/

/-- The same world with other receivers dropped. -/
def setDropped (w : World) (droppedCalls : List ℕ) : World := { w with droppedCalls }

theorem pollClient_setDropped (d : List ℕ) :
    (w.setDropped d).pollClient json = (w.pollClient json).setDropped d := by
  unfold pollClient setDropped
  dsimp only
  split
  · split
    · rename_i message mailbox _
      cases message <;> rfl
    · split <;> rfl
  · rfl

theorem pollStream_setDropped (d : List ℕ) (answer : Poll (Option String)) :
    (w.setDropped d).pollStream json answer = (w.pollStream json answer).setDropped d := by
  unfold pollStream
  split
  · rename_i response
    dsimp only
    split <;> rfl
  · rfl
  · rfl

theorem notifyChannel_setDropped (d : List ℕ) (channel : ℕ) (result : RpcResult Value) :
    (w.setDropped d).notifyChannel channel result =
      (w.notifyChannel channel result).setDropped d := by
  unfold notifyChannel setDropped
  dsimp only
  split <;> rfl

theorem answerSubscription_setDropped (d : List ℕ) (subscription : Subscription)
    (result : RpcResult Value) :
    (w.setDropped d).answerSubscription subscription result =
      (w.answerSubscription subscription result).setDropped d := by
  unfold answerSubscription
  split
  · rfl
  · exact notifyChannel_setDropped d _ _

theorem routeNotification_setDropped (d : List ℕ) (m : Message) :
    (w.setDropped d).routeNotification json m = (w.routeNotification json m).setDropped d := by
  unfold routeNotification unsubscribe notifyChannel setDropped
  dsimp only
  split
  · split
    · split
      · split <;> rfl
      · rfl
    · rfl
  · rfl

/-- A message is handled in the same way if the call it answers is dropped in both
worlds or in none. -/
theorem handleIncoming_setDropped {d : List ℕ} {m : Message}
    (hcall : ∀ sender, w.pendingRequests.lookup m.id = some (.call sender) →
      (sender ∈ d ↔ sender ∈ w.droppedCalls)) :
    (w.setDropped d).handleIncoming json m = (w.handleIncoming json m).setDropped d := by
  cases hlookup : w.pendingRequests.lookup m.id with
  | none =>
    rw [handleIncoming_of_none hlookup, handleIncoming_of_none (w := w.setDropped d) hlookup]
    exact routeNotification_setDropped (w := w.emit [.processed m none]) d m
  | some pending =>
    cases pending with
    | call sender =>
      rw [handleIncoming_of_call hlookup, handleIncoming_of_call (w := w.setDropped d) hlookup]
      unfold answerCall
      by_cases hdropped : sender ∈ w.droppedCalls
      · have hd : sender ∈ d := (hcall sender hlookup).mpr hdropped
        simp only [consume, setDropped, hdropped, hd, if_true]
      · have hd : sender ∉ d := fun hmem => hdropped ((hcall sender hlookup).mp hmem)
        simp only [consume, setDropped, emit, hdropped, hd, if_false]
    | subscription subscription =>
      rw [handleIncoming_of_subscription hlookup,
        handleIncoming_of_subscription (w := w.setDropped d) hlookup]
      exact answerSubscription_setDropped (w := w.consume m _) d _ _

/-- An iteration does the same if the call it answers is dropped in both worlds or
in none. -/
theorem poll_setDropped {d : List ℕ} (answers : TransportAnswers)
    (hcall : ∀ m incoming sender, w.phase = .incoming → w.incoming = m :: incoming →
      w.pendingRequests.lookup m.id = some (.call sender) →
      (sender ∈ d ↔ sender ∈ w.droppedCalls)) :
    (w.setDropped d).poll json answers = (w.poll json answers).setDropped d := by
  have hset : (w.setDropped d).phase = w.phase := rfl
  cases hphase : w.phase with
  | idle =>
    rw [poll_of_idle hphase, poll_of_idle (hset.trans hphase)]
    rfl
  | client =>
    rw [poll_of_client hphase, poll_of_client (hset.trans hphase)]
    exact pollClient_setDropped d
  | stream =>
    rw [poll_of_stream hphase, poll_of_stream (hset.trans hphase)]
    exact pollStream_setDropped d _
  | incoming =>
    rw [poll_of_incoming hphase, poll_of_incoming (hset.trans hphase)]
    cases hincoming : w.incoming with
    | nil =>
      have hqueue : (w.setDropped d).incoming = [] := hincoming
      simp only [pollIncoming, hincoming, hqueue]
      rfl
    | cons m incoming =>
      have hqueue : (w.setDropped d).incoming = m :: incoming := hincoming
      simp only [pollIncoming, hincoming, hqueue]
      exact handleIncoming_setDropped (w := { w with incoming })
        fun sender => hcall m incoming sender hphase hincoming
  | outgoing =>
    rw [poll_of_outgoing hphase, poll_of_outgoing (hset.trans hphase)]
    unfold pollOutgoing setDropped
    dsimp only
    split
    · split
      · split <;> rfl
      · rfl
    · rfl
    · rfl
  | sink =>
    rw [poll_of_sink hphase, poll_of_sink (hset.trans hphase)]
    unfold pollSink setDropped
    dsimp only
    split <;> rfl
  | complete r => rw [poll_of_complete hphase, poll_of_complete (hset.trans hphase)]
  | panicked => rw [poll_of_panicked hphase, poll_of_panicked (hset.trans hphase)]

/-! ## Twins -/

/-- Two worlds that are the same but for the receiver of a call, which is there in
the second one. -/
structure Twin (sender : ℕ) (w w' : World) : Prop where
  eq_setDropped : w' = w.setDropped w'.droppedCalls
  alive : sender ∉ w'.droppedCalls
  dropped_iff : ∀ s ≠ sender, s ∈ w'.droppedCalls ↔ s ∈ w.droppedCalls

variable {sender : ℕ} {w' : World}

/-- Nobody but the owner of the call can tell twins apart. -/
theorem Twin.indistinguishable (h : Twin sender w w') : Indistinguishable sender w w' := by
  rw [h.eq_setDropped]
  exact ⟨rfl, fun _ _ => rfl, fun _ => rfl⟩

/-- The call that an iteration answers is dropped in both twins or in none, unless it
is the one they differ in. -/
theorem Twin.mem_dropped_iff (h : Twin sender w w') {answers : TransportAnswers}
    (hanswers : ¬ answersDropped sender w (.poll answers)) {m : Message} {incoming : List Message}
    {s : ℕ} (hphase : w.phase = .incoming) (hincoming : w.incoming = m :: incoming)
    (hlookup : w.pendingRequests.lookup m.id = some (.call s)) :
    s ∈ w'.droppedCalls ↔ s ∈ w.droppedCalls := by
  by_cases hs : s = sender
  · subst hs
    have hw : s ∉ w.droppedCalls := by
      simpa [answersDropped, hphase, hincoming, hlookup] using hanswers
    exact iff_of_false h.alive hw
  · exact h.dropped_iff s hs

/-- Twins stay twins when the receiver of the call is dropped. -/
theorem Twin.dropCall (h : Twin sender w w') : Twin sender (w.step json (.dropCall sender)) w' := by
  simp only [step]
  split
  · refine ⟨h.eq_setDropped, h.alive, fun s hs => ?_⟩
    rw [List.mem_cons, h.dropped_iff s hs]
    simp [hs]
  · exact h

/-- No iteration drops a receiver. -/
theorem droppedCalls_poll (answers : TransportAnswers) :
    (w.poll json answers).droppedCalls = w.droppedCalls := by
  have hpoll : (w.setDropped w.droppedCalls).poll json answers = _ :=
    poll_setDropped answers fun _ _ _ _ _ _ => Iff.rfl
  exact congrArg (fun v => v.droppedCalls) hpoll

/-- A step that does the same in both worlds keeps twins. -/
theorem Twin.of_eq {d : List ℕ} (h : Twin sender w (w.setDropped d)) {v : World}
    (hdropped : v.droppedCalls = w.droppedCalls) : Twin sender v (v.setDropped d) := by
  refine ⟨rfl, h.alive, fun s hs => ?_⟩
  rw [hdropped]
  exact h.dropped_iff s hs

/-- Twins that take the same branch stay twins. -/
theorem Twin.ite {p : Prop} [Decidable p] {v v' : World} (hv : p → Twin sender v v')
    (hw : Twin sender w w') : Twin sender (if p then v else w) (if p then v' else w') := by
  by_cases hp : p
  · rw [if_pos hp, if_pos hp]
    exact hv hp
  · rw [if_neg hp, if_neg hp]
    exact hw

/-- Twins stay twins in every step that neither drops nor answers the call. -/
theorem Twin.step (h : Twin sender w w') {l : Label} (hl : l.isDropOf sender = false)
    (hanswers : ¬ answersDropped sender w l) : Twin sender (w.step json l) (w'.step json l) := by
  obtain ⟨d, rfl⟩ : ∃ d, w' = w.setDropped d := ⟨_, h.eq_setDropped⟩
  cases l with
  | callMethod method params => exact .ite (fun _ => h.of_eq rfl) h
  | notify method params => exact .ite (fun _ => h.of_eq rfl) h
  | subscribe subscribe params notification unsubscribe => exact .ite (fun _ => h.of_eq rfl) h
  | dropClients => exact h.of_eq rfl
  | dropCall s =>
    have hs : s ≠ sender := by simpa [Label.isDropOf] using hl
    refine .ite (fun _ => ?_) h
    refine ⟨rfl, List.not_mem_cons_of_ne_of_not_mem hs.symm h.alive, fun s' hs' => ?_⟩
    have hiff := h.dropped_iff s' hs'
    simp only [List.mem_cons, hiff]
  | dropSubscription channel => exact .ite (fun _ => h.of_eq rfl) h
  | poll answers =>
    have hpoll : (w.setDropped d).poll json answers = (w.poll json answers).setDropped d :=
      poll_setDropped answers fun m incoming s => h.mem_dropped_iff hanswers
    simp only [World.step]
    rw [hpoll]
    exact h.of_eq (droppedCalls_poll answers)

/-- The response to a call fails the duplex if the receiver is dropped, and only then. -/
theorem phase_poll_of_call (json : SerdeJson) (answers : TransportAnswers) {m : Message}
    {incoming : List Message} (hphase : w.phase = .incoming)
    (hincoming : w.incoming = m :: incoming)
    (hlookup : w.pendingRequests.lookup m.id = some (.call sender)) :
    (w.poll json answers).phase =
      if sender ∈ w.droppedCalls then .complete (.error (.client "oneshot channel closed"))
      else .incoming := by
  rw [poll_of_incoming hphase]
  simp only [pollIncoming, hincoming]
  rw [handleIncoming_of_call (w := { w with incoming }) hlookup]
  unfold answerCall
  by_cases hdropped : sender ∈ w.droppedCalls
  · simp only [consume, hdropped, if_true]
  · simp only [consume, emit, hdropped, if_false, hphase]

/-- The response to the dropped call fails the duplex, but not its twin. -/
theorem Twin.phase_ne (h : Twin sender w w') {l : Label} (hanswers : answersDropped sender w l) :
    (w.step json l).phase ≠ (w'.step json l).phase := by
  obtain ⟨d, rfl⟩ : ∃ d, w' = w.setDropped d := ⟨_, h.eq_setDropped⟩
  revert hanswers
  fun_cases answersDropped
  · rename_i answers m incoming hincoming hphase
    intro hanswers
    simp only [Bool.and_eq_true, decide_eq_true_eq] at hanswers
    obtain ⟨hlookup, hdropped⟩ := hanswers
    have hfail := phase_poll_of_call json answers hphase hincoming hlookup
    have halive := phase_poll_of_call (w := w.setDropped d) json answers hphase hincoming hlookup
    rw [if_pos hdropped] at hfail
    rw [if_neg h.alive] at halive
    change (w.poll json answers).phase ≠ ((w.setDropped d).poll json answers).phase
    rw [hfail, halive]
    nofun
  · nofun
  · nofun

/-! ## Runs -/

/-- A step that does not drop the receiver of the call is kept. -/
theorem after_keepAlive_concat (json : SerdeJson) (ls : List Label) {l : Label}
    (hl : l.isDropOf sender = false) :
    after json (keepAlive sender (ls ++ [l])) =
      (after json (keepAlive sender ls)).step json l := by
  have hkeep : keepAlive sender (ls ++ [l]) = keepAlive sender ls ++ [l] := by
    simp [keepAlive, hl]
  rw [hkeep, after_concat]

/-- As long as no response to the dropped call is handled, the run and the run with
the call kept alive lead to twins. -/
theorem twin_after {ls : List Label}
    (h : ∀ ls' l, ls' ++ [l] <+: ls → ¬ answersDropped sender (after json ls') l) :
    Twin sender (after json ls) (after json (keepAlive sender ls)) := by
  induction ls using List.reverseRecOn with
  | nil => exact ⟨rfl, List.not_mem_nil, fun _ _ => Iff.rfl⟩
  | append_singleton ls l ih =>
    have htwin := ih fun ls' l' hinitial => h ls' l' (hinitial.trans (List.prefix_append _ _))
    rw [after_concat]
    cases hl : l.isDropOf sender with
    | true =>
      have hkeep : keepAlive sender (ls ++ [l]) = keepAlive sender ls := by
        simp [keepAlive, hl]
      have hdrop : l = .dropCall sender := by
        cases l with
        | dropCall s => exact congrArg _ (of_decide_eq_true hl)
        | _ => cases hl
      rw [hkeep, hdrop]
      exact htwin.dropCall
    | false =>
      rw [after_keepAlive_concat json ls hl]
      exact htwin.step hl (h ls l (List.prefix_refl _))

/-- **Independence of callers.** Nobody but its owner notices that the receiver of a call
is dropped, exactly as long as no response to the call is handled then. -/
theorem independent_iff (json : SerdeJson) (sender : ℕ) (ls : List Label) :
    Independent json sender ls ↔
      ∀ ls' l, ls' ++ [l] <+: ls → ¬ answersDropped sender (after json ls') l := by
  constructor
  · intro hindependent
    induction ls using List.reverseRecOn with
    | nil =>
      intro ls' l hinitial
      simp at hinitial
    | append_singleton ls l ih =>
      have hearlier := ih fun ls' hinitial =>
        hindependent ls' (hinitial.trans (List.prefix_append _ _))
      intro ls' l' hinitial hanswers
      rcases List.prefix_concat_iff.mp hinitial with heq | hinitial'
      · obtain ⟨rfl, rfl⟩ := List.concat_inj.mp (by simpa using heq)
        have hl : l'.isDropOf sender = false := by
          cases l' with
          | poll answers => rfl
          | _ => cases hanswers
        have hphase := (hindependent _ (List.prefix_refl _)).phase_eq
        rw [after_concat, after_keepAlive_concat json ls' hl] at hphase
        exact (twin_after hearlier).phase_ne hanswers hphase
      · exact hearlier ls' l' hinitial' hanswers
  · intro hanswers ls' hinitial
    refine (twin_after fun ls'' l hinitial' => ?_).indistinguishable
    exact hanswers ls'' l (hinitial'.trans hinitial)

end World

/-! ## A dropped call -/

/-- Two calls are made, the first one is dropped, and both responses are read. -/
def droppedPing : List Label :=
  twoPings ++
    [.dropCall 0, reads (pingOutputText "0"), reads (pingOutputText "1"), turn, turn, turn]

/-- The duplex fails on the response to the dropped call, and the second call never
receives its result. It would receive it if the first call were kept alive. -/
theorem World.not_independent_droppedPing :
    (World.after pingJson droppedPing).phase =
        .complete (.error (.client "oneshot channel closed")) ∧
      deliveries 1 (World.after pingJson droppedPing).trace = [] ∧
      deliveries 1 (World.after pingJson (keepAlive 0 droppedPing)).trace =
        [.ok (.bool true)] ∧
      ¬ World.Independent pingJson 0 droppedPing := by
  refine ⟨by decide, by decide, by decide, fun hindependent => ?_⟩
  have hphase := (hindependent droppedPing (List.prefix_refl _)).phase_eq
  exact absurd hphase (by decide)

end JsonRpc
