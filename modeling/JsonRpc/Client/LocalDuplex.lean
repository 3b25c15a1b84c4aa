import JsonRpc.Client.LocalResponses

/-!
# The duplex of the local client and its transport

The duplex uses the transport through the two halves it is split into. It gives a request to the
transport only at once after the transport was ready, and it never closes the transport. What
the duplex receives, followed by what is queued, are therefore the responses of the requests that
the transport handled, in their order.
-/

namespace JsonRpc

/-- The texts that the duplex received. -/
def receivedTexts (trace : List Happening) : List String :=
  trace.filterMap fun
    | .received text => some text
    | _ => none

theorem receivedTexts_append (trace trace' : List Happening) :
    receivedTexts (trace ++ trace') = receivedTexts trace ++ receivedTexts trace' :=
  List.filterMap_append

namespace World

variable {json : SerdeJson} {w w' : World}

/-- Nothing that is internal to the duplex is received. -/
theorem Internal.receivedTexts_eq (h : w.Internal w') :
    receivedTexts w'.trace = receivedTexts w.trace := by
  obtain ⟨happenings, htrace, hall⟩ := h
  have hnone : receivedTexts happenings = [] :=
    Runs.filterMap_eq_nil_of_all hall fun h hh => by
      cases h with
      | received => cases hh
      | _ => rfl
  rw [htrace, receivedTexts_append, hnone, List.append_nil]

theorem receivedTexts_pollStream (json : SerdeJson) (w : World) (answer : Poll (Option String)) :
    receivedTexts (w.pollStream json answer).trace =
      receivedTexts w.trace ++ Local.taken answer := by
  cases answer with
  | pending => exact (List.append_nil _).symm
  | ready response =>
    cases response with
    | none => exact (List.append_nil _).symm
    | some text =>
      rw [trace_pollStream_ready, receivedTexts_append]
      rfl

theorem receivedTexts_pollOutgoing (w : World) (ready : Poll Bool) (sent : Bool) :
    receivedTexts (w.pollOutgoing ready sent).trace = receivedTexts w.trace := by
  have hsent : ∀ request, receivedTexts (w.trace ++ [.sent request]) = receivedTexts w.trace := by
    intro request
    rw [receivedTexts_append]
    exact List.append_nil _
  unfold pollOutgoing
  split
  · split
    · dsimp only
      split <;> exact hsent _
    · rfl
  · rfl
  · rfl

theorem receivedTexts_pollSink (w : World) (flush : Poll Bool) :
    receivedTexts (w.pollSink flush).trace = receivedTexts w.trace := by
  unfold pollSink
  split <;> rfl

/-- The duplex reads the stream only in its loop over the stream. -/
theorem receivedTexts_poll (json : SerdeJson) (w : World) {answers : TransportAnswers}
    (hstream : w.phase ≠ .stream → answers.stream = .pending) :
    receivedTexts (w.poll json answers).trace =
      receivedTexts w.trace ++ Local.taken answers.stream := by
  by_cases hphase : w.phase = .stream
  · rw [poll_of_stream hphase]
    exact receivedTexts_pollStream json w answers.stream
  · have htaken : Local.taken answers.stream = [] := by
      rw [hstream hphase]
      rfl
    rw [htaken, List.append_nil]
    cases h : w.phase with
    | stream => exact absurd h hphase
    | idle => rw [poll_of_idle h]
    | client =>
      rw [poll_of_client h]
      exact (internal_pollClient json w).receivedTexts_eq
    | incoming =>
      rw [poll_of_incoming h]
      exact (internal_pollIncoming json w).receivedTexts_eq
    | outgoing =>
      rw [poll_of_outgoing h]
      exact receivedTexts_pollOutgoing w _ _
    | sink =>
      rw [poll_of_sink h]
      exact receivedTexts_pollSink w _
    | complete => rw [poll_of_complete h]
    | panicked => rw [poll_of_panicked h]

end World

namespace Local

variable {P M : Type} (json : SerdeJson) (handler : MetaIoHandler P) (metadata : M)

/-- The transport is used by operations that respect the contract of a sink and do not close
it, and these operations read the texts. -/
def InUse (texts : List String) (used : JsonRpc.LocalRpc P M) : Prop :=
  ∃ ls, .pollClose ∉ ls ∧
    (LocalUse.after (handlerFutures json handler metadata) ls).taken = texts ∧
    IsOpen handler metadata (LocalUse.after (handlerFutures json handler metadata) ls).rpc used

variable {json handler metadata} {texts : List String} {used : JsonRpc.LocalRpc P M}

theorem inUse_withMetadata : InUse json handler metadata [] (.withMetadata handler metadata) :=
  ⟨[], List.not_mem_nil, rfl, isOpen_new⟩

/-- One more operation. -/
theorem InUse.concat {ls : List (LocalUseLabel (ℕ → Poll (Except Error Value)))}
    (hls : .pollClose ∉ ls) (l : LocalUseLabel (ℕ → Poll (Except Error Value)))
    (hl : l ≠ .pollClose)
    (htaken : ((LocalUse.after (handlerFutures json handler metadata) ls).step
      (handlerFutures json handler metadata) l).taken = texts)
    (hopen : IsOpen handler metadata ((LocalUse.after (handlerFutures json handler metadata)
      ls).step (handlerFutures json handler metadata) l).rpc used) :
    InUse json handler metadata texts used := by
  refine ⟨ls ++ [l], ?_, ?_⟩
  · rw [List.mem_append, List.mem_singleton, not_or]
    exact ⟨hls, hl.symm⟩
  · rw [LocalUse.after_concat]
    exact ⟨htaken, hopen⟩

theorem InUse.pollNext (h : InUse json handler metadata texts used) :
    InUse json handler metadata (texts ++ taken used.pollNext.1) used.pollNext.2 := by
  obtain ⟨ls, hls, rfl, hopen⟩ := h
  obtain ⟨hopen', hanswer⟩ := hopen.pollNext
  refine .concat hls .pollNext (by simp) ?_ hopen'
  rw [← hanswer]
  rfl

theorem InUse.pollReady (h : InUse json handler metadata texts used)
    (answers : ℕ → Poll (Except Error Value)) :
    InUse json handler metadata texts (used.pollReady json answers).2 := by
  obtain ⟨ls, hls, htaken, hopen⟩ := h
  exact .concat hls (.pollReady answers) (by simp) htaken (hopen.pollReady json answers).1

theorem InUse.pollFlush (h : InUse json handler metadata texts used)
    (answers : ℕ → Poll (Except Error Value)) :
    InUse json handler metadata texts (used.pollFlush json answers).2 := by
  obtain ⟨ls, hls, htaken, hopen⟩ := h
  exact .concat hls (.pollFlush answers) (by simp) htaken (hopen.pollFlush json answers).1

/-- A request is sent at once when the transport is ready. -/
theorem InUse.pollReady_startSend (h : InUse json handler metadata texts used)
    (answers : ℕ → Poll (Except Error Value))
    (hready : (used.pollReady json answers).1 = .ready ()) (item : String) :
    InUse json handler metadata texts ((used.pollReady json answers).2.startSend json item) := by
  obtain ⟨ls, hls, htaken, hopen⟩ := h
  obtain ⟨hopen', hanswer⟩ := hopen.pollReady json answers
  rw [hready] at hanswer
  have hls' : .pollClose ∉ ls ++ [.pollReady answers] := by
    simpa using hls
  refine .concat hls' (.startSend item) (by simp) ?_ ?_
  · rw [LocalUse.after_concat, LocalUse.taken_startSend]
    exact htaken
  · rw [LocalUse.after_concat, LocalUse.rpc_startSend (LocalUse.isReady_pollReady hanswer)]
    exact hopen'.startSend item

/-! ## The two halves -/

variable {split : SplitRpc P M}

theorem InUse.pollFlushSlot (h : InUse json handler metadata texts split.rpc)
    (answers : ℕ → Poll (Except Error Value)) :
    InUse json handler metadata texts (split.pollFlushSlot json answers).2.rpc := by
  have hready := h.pollReady answers
  have hstart := h.pollReady_startSend answers
  unfold SplitRpc.pollFlushSlot
  cases split.slot with
  | none => exact h
  | some item =>
    dsimp only
    generalize split.rpc.pollReady json answers = result at hready hstart
    obtain ⟨answer, rpc⟩ := result
    cases answer with
    | pending => exact hready
    | ready => exact hstart rfl item

theorem InUse.splitPollFlush (h : InUse json handler metadata texts split.rpc)
    (answers answers' : ℕ → Poll (Except Error Value)) :
    InUse json handler metadata texts (split.pollFlush json answers answers').2.rpc := by
  have hslot := h.pollFlushSlot answers
  unfold SplitRpc.pollFlush
  generalize split.pollFlushSlot json answers = result at hslot
  obtain ⟨answer, split'⟩ := result
  cases answer with
  | pending => exact hslot
  | ready => exact hslot.pollFlush answers'

/-! ## Steps of the duplex -/

variable {s : LocalWorld P M}

/-- The stream is asked only in the loop over the stream. -/
theorem stream_exchange (json : SerdeJson) (hphase : s.duplex.phase ≠ .stream)
    (answers answers' : ℕ → Poll (Except Error Value)) :
    (s.exchange json answers answers').1.stream = .pending := by
  unfold LocalWorld.exchange
  cases h : s.duplex.phase with
  | stream => exact absurd h hphase
  | _ => rfl

theorem append_taken_pending (texts : List String) : texts ++ taken .pending = texts :=
  List.append_nil texts

theorem InUse.exchange (h : InUse json handler metadata texts s.split.rpc)
    (answers answers' : ℕ → Poll (Except Error Value)) :
    InUse json handler metadata (texts ++ taken (s.exchange json answers answers').1.stream)
      (s.exchange json answers answers').2.rpc := by
  unfold LocalWorld.exchange
  cases s.duplex.phase with
  | stream => exact h.pollNext
  | outgoing =>
    have hslot := h.pollFlushSlot answers
    dsimp only
    rw [append_taken_pending]
    split
    · exact hslot
    · exact hslot
  | sink =>
    rw [append_taken_pending]
    exact h.splitPollFlush answers answers'
  | _ =>
    rw [append_taken_pending]
    exact h

theorem InUse.step
    (h : InUse json handler metadata (receivedTexts s.duplex.trace) s.split.rpc)
    (l : LocalLabel) :
    InUse json handler metadata (receivedTexts (s.step json l).duplex.trace)
      (s.step json l).split.rpc := by
  have hclient : ∀ l, (∀ answers, l ≠ .poll answers) →
      InUse json handler metadata (receivedTexts (s.duplex.step json l).trace) s.split.rpc := by
    intro l hl
    rw [(World.internal_step json s.duplex hl).receivedTexts_eq]
    exact h
  cases l with
  | poll answers answers' =>
    have hreceived := World.receivedTexts_poll json s.duplex
      fun hphase => stream_exchange json hphase answers answers'
    have hexchange := h.exchange answers answers'
    rw [← hreceived] at hexchange
    exact hexchange
  | callMethod method params => exact hclient (.callMethod method params) (by simp)
  | notify method params => exact hclient (.notify method params) (by simp)
  | dropClients => exact hclient .dropClients (by simp)
  | dropCall sender => exact hclient (.dropCall sender) (by simp)

theorem inUse_after (json : SerdeJson) (handler : MetaIoHandler P) (metadata : M)
    (ls : List LocalLabel) :
    InUse json handler metadata
      (receivedTexts (LocalWorld.after json handler metadata ls).duplex.trace)
      (LocalWorld.after json handler metadata ls).split.rpc := by
  apply Runs.run_invariant (I := fun s : LocalWorld P M =>
    InUse json handler metadata (receivedTexts s.duplex.trace) s.split.rpc)
  · exact inUse_withMetadata
  · exact fun _ l h => h.step l

/-- **No lost response.** The duplex of the local client respects the contract of the transport
and never closes it. What it received, followed by what is queued, are the responses of the
requests that the transport handled, in their order. -/
theorem received_append_queue_eq_responses (json : SerdeJson) (handler : MetaIoHandler P)
    (metadata : M) (ls : List LocalLabel) :
    ∃ ops, .pollClose ∉ ops ∧
      IsOpen handler metadata (LocalUse.after (handlerFutures json handler metadata) ops).rpc
        (LocalWorld.after json handler metadata ls).split.rpc ∧
      receivedTexts (LocalWorld.after json handler metadata ls).duplex.trace ++
          (LocalWorld.after json handler metadata ls).split.rpc.queue =
        (LocalUse.after (handlerFutures json handler metadata) ops).rpc.responses := by
  obtain ⟨ops, hops, htaken, hopen⟩ := inUse_after json handler metadata ls
  refine ⟨ops, hops, hopen, ?_⟩
  rw [← LocalUse.outputs_after_of_not_mem _ hops, LocalUse.outputs, htaken, hopen.queue]

end Local

end JsonRpc
