import JsonRpc.Client.EndToEnd
import JsonRpc.Client.LocalDuplex
import JsonRpc.Core.Serving

/-!
# A duplex whose transport answers requests

Whatever the transport is, the duplex gives it the texts of its requests and receives texts
from it. If every text that is received answers one of the requests, the result of a call is
the one of dispatching the call. Nothing is assumed about the order of the answers, or how
many of them there are.
-/

namespace JsonRpc

/-! ## What is exchanged with the transport -/

namespace World

variable {json : SerdeJson} {w w' : World}

/-- The text that a step gives to the sink. -/
def sends (w : World) : Label → List String
  | .poll answers =>
    if w.phase = .outgoing ∧ answers.ready = .ready true then w.outgoing.head?.toList else []
  | _ => []

/-- The text that a step takes from the stream. -/
def receives (w : World) : Label → List String
  | .poll answers => if w.phase = .stream then Local.taken answers.stream else []
  | _ => []

/-- Nothing that is internal to the duplex is sent. -/
theorem Internal.sentTexts_eq (h : w.Internal w') : sentTexts w'.trace = sentTexts w.trace := by
  obtain ⟨happenings, htrace, hall⟩ := h
  have hnone : sentTexts happenings = [] :=
    Runs.filterMap_eq_nil_of_all hall fun h hh => by
      cases h with
      | sent => cases hh
      | _ => rfl
  rw [htrace, sentTexts_append, hnone, List.append_nil]

/-- What is recorded of the exchange with the transport. -/
structure Exchanges (w w' : World) (sent received : List String) : Prop where
  sentTexts_eq : sentTexts w'.trace = sentTexts w.trace ++ sent
  receivedTexts_eq : receivedTexts w'.trace = receivedTexts w.trace ++ received

theorem Internal.exchanges (h : w.Internal w') : w.Exchanges w' [] [] :=
  ⟨by simp [h.sentTexts_eq], by simp [h.receivedTexts_eq]⟩

theorem exchanges_pollStream (json : SerdeJson) (w : World) (answer : Poll (Option String)) :
    w.Exchanges (w.pollStream json answer) [] (Local.taken answer) where
  sentTexts_eq := by
    have hinternal : sentTexts (w.pollStream json answer).trace = sentTexts w.trace := by
      cases answer with
      | pending => rfl
      | ready text =>
        cases text with
        | none => rfl
        | some text =>
          rw [trace_pollStream_ready, sentTexts_append]
          exact List.append_nil _
    simp [hinternal]
  receivedTexts_eq := receivedTexts_pollStream json w answer

theorem exchanges_pollOutgoing (w : World) (ready : Poll Bool) (startSend : Bool) :
    w.Exchanges (w.pollOutgoing ready startSend)
      (if ready = .ready true then w.outgoing.head?.toList else []) [] where
  sentTexts_eq := by
    unfold pollOutgoing
    split
    · split
      · rename_i request outgoing houtgoing
        have hsent : sentTexts (w.trace ++ [.sent request]) = sentTexts w.trace ++ [request] :=
          sentTexts_append _ _
        simp only [houtgoing, if_true, List.head?_cons, Option.toList_some]
        split <;> exact hsent
      · rename_i houtgoing
        simp [houtgoing]
    · simp
    · simp
  receivedTexts_eq := by simp [receivedTexts_pollOutgoing]

/-- A step exchanges at most one text with the transport, and records it. -/
theorem exchanges_step (json : SerdeJson) (w : World) (l : Label) :
    w.Exchanges (w.step json l) (w.sends l) (w.receives l) := by
  by_cases hl : ∃ answers, l = .poll answers
  · obtain ⟨answers, rfl⟩ := hl
    simp only [step, sends, receives]
    cases hphase : w.phase with
    | idle =>
      rw [poll_of_idle hphase]
      simpa using (Internal.of_eq rfl : w.Internal { w with phase := .client }).exchanges
    | client =>
      rw [poll_of_client hphase]
      simpa using (internal_pollClient json w).exchanges
    | stream =>
      rw [poll_of_stream hphase]
      simpa using exchanges_pollStream json w answers.stream
    | incoming =>
      rw [poll_of_incoming hphase]
      simpa using (internal_pollIncoming json w).exchanges
    | outgoing =>
      rw [poll_of_outgoing hphase]
      simpa using exchanges_pollOutgoing w answers.ready answers.startSend
    | sink =>
      have hinternal : w.Internal (w.pollSink answers.flush) := by
        refine .of_eq ?_
        unfold pollSink
        split <;> rfl
      rw [poll_of_sink hphase]
      simpa using hinternal.exchanges
    | complete =>
      rw [poll_of_complete hphase]
      simpa using (Internal.of_eq rfl : w.Internal w).exchanges
    | panicked =>
      rw [poll_of_panicked hphase]
      simpa using (Internal.of_eq rfl : w.Internal w).exchanges
  · have hpoll : ∀ answers, l ≠ .poll answers := fun answers heq => hl ⟨answers, heq⟩
    have h := (internal_step json w hpoll).exchanges
    cases l with
    | poll answers => exact absurd rfl (hpoll answers)
    | _ => exact h

end World

/-! ## Answers -/

section Answers

variable {P M : Type} {json : SerdeJson} {handler : MetaIoHandler P} {metadata : M}
  {requests : List Request} {returned : List (Returned P M)}

/-- A message has no id, or it has the result of dispatching one of the requests. -/
def Message.Answers (handler : MetaIoHandler P) (metadata : M) (requests : List Request)
    (returned : List (Returned P M)) (m : Message) : Prop :=
  m.id = .null ∨ ∃ call, .single (.methodCall call) ∈ requests ∧ m.id = call.id ∧
    LocalWorld.Agrees handler metadata returned call m.result

/-- The message in a response of the handler to one of the requests is an answer. -/
theorem Responds.answers {request : Request} {response : Response} {m : Message}
    (hjson : json.IsFaithful) (hversion : handler.compatibility.isVersionValid (some .v2))
    (hclient : request.isFromClient) (hmem : request ∈ requests)
    {returned' : List (Returned P M)} (hreturned : returned' ⊆ returned)
    (h : Responds json handler (request.toString json) metadata returned' (some response))
    (hparse : parseResponse json (writeResponse json response) = .ok m) :
    m.Answers handler metadata requests returned := by
  obtain ⟨polls, rfl, hresponse⟩ := h
  obtain ⟨output, rfl, houtput⟩ :=
    (serves_after metadata hjson hversion hclient polls).response hresponse
  obtain ⟨hid, hresult⟩ := LocalWorld.parseResponse_writeResponse hjson hparse
  have hrequests : [request] ⊆ requests := by simpa using hmem
  rcases houtput.mono hrequests hreturned with hnull | ⟨call, hcall, hcallId, hdispatched⟩
  · exact .inl (hid.trans hnull)
  · refine .inr ⟨call, hcall, hid.trans hcallId, ?_⟩
    rw [hresult]
    exact .of_dispatched hdispatched

/-- **Agreement over any transport.** If what the duplex receives are answers to its requests,
then a call receives the result of dispatching it, as long as the ids are distinct. -/
theorem World.Inv.agrees {w : World} (h : w.Inv json) (hwrites : w.Writes json)
    (hcount : (issuedIds w.trace).length < 2 ^ 64)
    (hreceived : ∀ text ∈ receivedTexts w.trace, ∀ m, parseResponse json text = .ok m →
      m.Answers handler metadata (queuedRequests w.trace) returned)
    {sender : ℕ} {method : String} {params : Params} {result : RpcResult Value}
    (hcalled : .called sender method params ∈ w.trace)
    (hdelivered : .delivered sender result ∈ w.trace) :
    ∃ call text, .registered call text (.call sender) ∈ w.trace ∧ call.method = method ∧
      call.params = params ∧ LocalWorld.Agrees handler metadata returned call result := by
  have hcorrelated := h.correlated hcount
  obtain ⟨before, call, after, m, htrace, -, hfind, rfl⟩ :=
    hcorrelated.delivered_first hdelivered
  have hregistered : .registered call (call.text json) (.call sender) ∈ w.trace := by
    rw [htrace]
    exact List.mem_append_right _ List.mem_cons_self
  have hqueued : .single (.methodCall call) ∈ queuedRequests w.trace :=
    List.mem_filterMap.mpr ⟨_, hregistered, rfl⟩
  -- The call was registered as it was made, since every call has a number of its own.
  have hsame : (sender, call.method, call.params) = (sender, method, params) := by
    have hmem : (sender, call.method, call.params) ∈ calledCalls w.trace := by
      rw [← h.calls_eq]
      exact List.mem_append_left _ (List.mem_filterMap.mpr ⟨_, hregistered, rfl⟩)
    have hmem' : (sender, method, params) ∈ calledCalls w.trace :=
      List.mem_filterMap.mpr ⟨_, hcalled, rfl⟩
    have hnodup : ((calledCalls w.trace).map Prod.fst).Nodup := by
      rw [h.called_eq]
      exact List.nodup_range
    exact List.inj_on_of_nodup_map hnodup hmem hmem' rfl
  cases hsame
  refine ⟨call, _, hregistered, rfl, rfl, ?_⟩
  -- The message was read from a text that answers one of the requests.
  have hm : m ∈ processedMessages w.trace := by
    rw [htrace, processedMessages, List.filterMap_append]
    exact List.mem_append_right _ (List.mem_of_find?_eq_some hfind)
  obtain ⟨text, htext, hparse⟩ := World.exists_received_of_processed hcorrelated.messages_eq hm
  have hid : m.id = call.id := by simpa using List.find?_some hfind
  have hanswers := hreceived text (List.mem_filterMap.mpr ⟨_, htext, rfl⟩) m hparse
  rcases hanswers with hnull | ⟨call', hcall', hid', hagrees⟩
  · have hissued : call.id ∈ issuedIds w.trace := by
      rw [← hwrites.ids_eq]
      exact List.mem_filterMap.mpr ⟨_, hqueued, rfl⟩
    obtain ⟨k, hk, -⟩ := h.exists_num_of_issued hcount hissued
    rw [hnull, hk] at hid
    cases hid
  · have hnodup : ((queuedRequests w.trace).filterMap Request.callId).Nodup := by
      rw [hwrites.ids_eq]
      exact hcorrelated.nodup_issuedIds
    have hcallId : (Request.single (.methodCall call')).callId = some call.id :=
      congrArg some (hid'.symm.trans hid)
    cases LocalWorld.eq_of_callId hnodup hcall' hqueued hcallId rfl
    exact hagrees

end Answers

end JsonRpc
