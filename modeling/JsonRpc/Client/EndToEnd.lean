import JsonRpc.Client.Correlation
import JsonRpc.Client.Handling
import JsonRpc.Core.ResponseWire

/-!
# Agreement of the local client with the handler

A call that a client makes is registered under an id, written as a text, read and
dispatched by the handler, answered by a method some time later, written as a
text again, read by the duplex and routed by its id. In every run, the result the
caller receives is the one of dispatching its own call.
-/

namespace JsonRpc

section EndToEnd

variable {P M : Type} {json : SerdeJson} {handler : MetaIoHandler P} {metadata : M}

/-! ## The split transport -/

/-- What a poll of the sink does. -/
structure SplitRpc.Polled (json : SerdeJson) (handler : MetaIoHandler P) (metadata : M)
    (requests : List Request) (split : SplitRpc P M) (result : Poll Unit × SplitRpc P M) :
    Prop where
  /-- The transport stays sound. -/
  sound : result.2.rpc.Sound json handler metadata requests
  /-- No request is lost. -/
  texts_eq : result.2.rpc.handled ++ result.2.slot.toList =
    split.rpc.handled ++ split.slot.toList
  /-- What methods returned stays. -/
  returned_subset : split.rpc.returned ⊆ result.2.rpc.returned
  /-- The slot is free when the sink is ready. -/
  free : result.1 = .ready () → result.2.slot = none

section Split

variable {requests : List Request} {split : SplitRpc P M}
  (hjson : json.IsFaithful) (hversion : handler.compatibility.isVersionValid (some .v2))
  (hclient : ∀ request ∈ requests, request.isFromClient)
  (hsound : split.rpc.Sound json handler metadata requests)
  (htexts : split.rpc.handled ++ split.slot.toList <+: requests.map (Request.toString json))
include hjson hversion hclient hsound htexts

/-- Giving the request in the slot to the transport. -/
theorem SplitRpc.polled_pollFlushSlot (answers : ℕ → Poll (Except Error Value)) :
    split.Polled json handler metadata requests (split.pollFlushSlot json answers) := by
  unfold SplitRpc.pollFlushSlot
  cases hslot : split.slot with
  | none => exact ⟨hsound, rfl, fun _ h => h, fun _ => hslot⟩
  | some item =>
    have hpolled := hsound.pollBuffered answers
    dsimp only
    unfold LocalRpc.pollReady
    generalize split.rpc.pollBuffered json answers = result at hpolled
    obtain ⟨answer, rpc⟩ := result
    have hhandled : rpc.handled = split.rpc.handled := hpolled.handled_eq
    cases answer with
    | pending =>
      refine ⟨hpolled.sound, ?_, hpolled.returned_subset, nofun⟩
      simp [hhandled, hslot]
    | ready =>
      have hitem : rpc.handled ++ [item] <+: requests.map (Request.toString json) := by
        rw [hhandled]
        rwa [hslot] at htexts
      refine ⟨hpolled.sound.startSend hjson hversion hclient (hpolled.free rfl) hitem, ?_,
        hpolled.returned_subset, fun _ => rfl⟩
      simp [LocalRpc.startSend, hhandled, hslot]

/-- Flushing the sink. -/
theorem SplitRpc.polled_pollFlush (answers answers' : ℕ → Poll (Except Error Value)) :
    split.Polled json handler metadata requests (split.pollFlush json answers answers') := by
  have hslot := SplitRpc.polled_pollFlushSlot hjson hversion hclient hsound htexts answers
  unfold SplitRpc.pollFlush
  generalize split.pollFlushSlot json answers = result at hslot
  obtain ⟨answer, split'⟩ := result
  cases answer with
  | pending => exact { hslot with free := nofun }
  | ready =>
    have hpolled := hslot.sound.pollBuffered answers'
    dsimp only
    unfold LocalRpc.pollFlush
    generalize split'.rpc.pollBuffered json answers' = result at hpolled
    obtain ⟨answer, rpc⟩ := result
    have hhandled : rpc.handled = split'.rpc.handled := hpolled.handled_eq
    refine ⟨hpolled.sound, ?_, List.Subset.trans hslot.returned_subset hpolled.returned_subset,
      fun _ => hslot.free rfl⟩
    rw [← hslot.texts_eq, ← hhandled]

end Split

/-! ## The invariant -/

/-- What holds of the client and the handler after every run. -/
structure LocalWorld.Inv (json : SerdeJson) (handler : MetaIoHandler P) (metadata : M)
    (s : LocalWorld P M) : Prop where
  /-- The duplex keeps its invariant. -/
  duplex : s.duplex.Inv json
  /-- The duplex writes its requests in order. -/
  writes : s.duplex.Writes json
  /-- The transport answers the requests of the duplex. -/
  sound : s.split.rpc.Sound json handler metadata (queuedRequests s.duplex.trace)
  /-- The transport handles what the duplex writes. -/
  sent_eq : s.split.rpc.handled ++ s.split.slot.toList = sentTexts s.duplex.trace
  /-- What the duplex reads are answers to its requests. -/
  received : ∀ text, .received text ∈ s.duplex.trace →
    AccountedText json handler metadata (queuedRequests s.duplex.trace) s.split.rpc.returned text

namespace LocalWorld

variable {s : LocalWorld P M}

/-- What is handled or in the slot is a prefix of the requests. -/
theorem Inv.texts_initial (h : s.Inv json handler metadata) :
    s.split.rpc.handled ++ s.split.slot.toList <+:
      (queuedRequests s.duplex.trace).map (Request.toString json) := by
  rw [h.sent_eq, ← h.writes.texts_eq]
  exact List.prefix_append _ _

/-- Nothing that is internal to the duplex concerns the transport. -/
theorem Inv.internal (h : s.Inv json handler metadata) {w : World} (hduplex : w.Inv json)
    (hwrites : w.Writes json) (hinternal : s.duplex.Internal w) :
    LocalWorld.Inv json handler metadata { s with duplex := w } := by
  obtain ⟨happenings, htrace, hall⟩ := hinternal
  have hrequests : queuedRequests s.duplex.trace <+: queuedRequests w.trace := by
    rw [htrace, queuedRequests_append]
    exact List.prefix_append _ _
  refine ⟨hduplex, hwrites, h.sound.mono hrequests, ?_, fun text htext => ?_⟩
  · have hsent : sentTexts happenings = [] :=
      Runs.filterMap_eq_nil_of_all hall fun h hh => by
        cases h with
        | sent => cases hh
        | _ => rfl
    rw [htrace, sentTexts_append, hsent, List.append_nil]
    exact h.sent_eq
  · rw [htrace, List.mem_append] at htext
    rcases htext with htext | htext
    · exact (h.received text htext).mono hrequests.subset fun _ hr => hr
    · exact absurd (List.all_eq_true.mp hall _ htext) nofun

/-- A poll of the sink keeps the invariant. -/
theorem Inv.polled (h : s.Inv json handler metadata) {result : Poll Unit × SplitRpc P M}
    (hpolled : s.split.Polled json handler metadata (queuedRequests s.duplex.trace) result) :
    LocalWorld.Inv json handler metadata { s with split := result.2 } :=
  { h with
    sound := hpolled.sound
    sent_eq := hpolled.texts_eq.trans h.sent_eq
    received := fun text htext =>
      (h.received text htext).mono (fun _ hq => hq) hpolled.returned_subset }

/-- A text that the duplex writes is the next one in the slot. -/
theorem Inv.sent (h : s.Inv json handler metadata) (hslot : s.split.slot = none) {w : World}
    (hduplex : w.Inv json) (hwrites : w.Writes json) {text : String}
    (htrace : w.trace = s.duplex.trace ++ [.sent text]) :
    LocalWorld.Inv json handler metadata ⟨w, s.split.startSend text⟩ := by
  have hrequests : queuedRequests w.trace = queuedRequests s.duplex.trace := by
    simp [htrace, queuedRequests]
  refine ⟨hduplex, hwrites, hrequests ▸ h.sound, ?_, fun text' htext' => ?_⟩
  · have hsent := h.sent_eq
    rw [hslot] at hsent
    rw [htrace, sentTexts_append, ← hsent]
    simp [SplitRpc.startSend, sentTexts]
  · rw [hrequests]
    exact h.received text' (by simpa [htrace] using htext')

/-- A text that the duplex reads is the first one in the queue. -/
theorem Inv.read (h : s.Inv json handler metadata) {text : String} {queue : List String}
    (hqueue : s.split.rpc.queue = text :: queue) {w : World} (hduplex : w.Inv json)
    (hwrites : w.Writes json) (htrace : w.trace = s.duplex.trace ++ [.received text]) :
    LocalWorld.Inv json handler metadata ⟨w, { s.split with rpc := s.split.rpc.pollNext.2 }⟩ := by
  have hrequests : queuedRequests w.trace = queuedRequests s.duplex.trace := by
    simp [htrace, queuedRequests]
  have hnext : s.split.rpc.pollNext.2 = { s.split.rpc with queue } := by
    simp [LocalRpc.pollNext, hqueue]
  refine ⟨hduplex, hwrites, hrequests ▸ h.sound.pollNext, ?_, fun text' htext' => ?_⟩
  · rw [htrace, sentTexts_append, hnext]
    simpa [sentTexts] using h.sent_eq
  · rw [hrequests, hnext]
    rw [htrace, List.mem_append, List.mem_singleton] at htext'
    rcases htext' with htext' | htext'
    · exact h.received text' htext'
    · cases htext'
      exact h.sound.queue _ (hqueue ▸ List.mem_cons_self)

section Poll

variable (hjson : json.IsFaithful) (hversion : handler.compatibility.isVersionValid (some .v2))
include hjson hversion

/-- An iteration of the duplex keeps the invariant. -/
theorem Inv.poll (h : s.Inv json handler metadata)
    (answers answers' : ℕ → Poll (Except Error Value)) :
    (s.step json (.poll answers answers')).Inv json handler metadata := by
  have hduplex := fun transport => h.duplex.step (.poll transport)
  have hwrites := fun transport => h.writes.step (.poll transport)
  simp only [step, exchange]
  cases hphase : s.duplex.phase with
  | idle =>
    refine h.internal (hduplex _) (hwrites _) (.of_eq ?_)
    simp only [World.step, World.poll_of_idle hphase]
  | client =>
    refine h.internal (hduplex _) (hwrites _) ?_
    simp only [World.step, World.poll_of_client hphase]
    exact World.internal_pollClient json s.duplex
  | stream =>
    cases hqueue : s.split.rpc.queue with
    | nil =>
      have hnext : s.split.pollNext = (.pending, s.split) := by
        simp [SplitRpc.pollNext, LocalRpc.pollNext, hqueue]
      rw [hnext]
      refine h.internal (hduplex _) (hwrites _) (.of_eq ?_)
      simp only [World.step, World.poll_of_stream hphase, World.pollStream]
    | cons text queue =>
      have hnext : s.split.pollNext =
          (.ready (some text), { s.split with rpc := s.split.rpc.pollNext.2 }) := by
        simp [SplitRpc.pollNext, LocalRpc.pollNext, hqueue]
      rw [hnext]
      refine h.read hqueue (hduplex _) (hwrites _) ?_
      simp only [World.step, World.poll_of_stream hphase]
      exact World.trace_pollStream_ready json s.duplex text
  | incoming =>
    refine h.internal (hduplex _) (hwrites _) ?_
    simp only [World.step, World.poll_of_incoming hphase]
    exact World.internal_pollIncoming json s.duplex
  | outgoing =>
    have hpolled := SplitRpc.polled_pollFlushSlot hjson hversion h.writes.fromClient h.sound
      h.texts_initial answers
    unfold SplitRpc.pollReady
    generalize s.split.pollFlushSlot json answers = result at hpolled
    obtain ⟨answer, split⟩ := result
    have hinv := h.polled hpolled
    cases answer with
    | pending =>
      refine hinv.internal (hduplex _) (hwrites _) (.of_eq ?_)
      simp only [World.step, World.poll_of_outgoing hphase, sinkAnswer, World.pollOutgoing]
    | ready =>
      cases houtgoing : s.duplex.outgoing with
      | nil =>
        refine hinv.internal (hduplex _) (hwrites _) (.of_eq ?_)
        simp only [World.step, World.poll_of_outgoing hphase, sinkAnswer, World.pollOutgoing,
          houtgoing]
      | cons request outgoing =>
        refine hinv.sent (hpolled.free rfl) (hduplex _) (hwrites _) ?_
        simp only [World.step, World.poll_of_outgoing hphase, sinkAnswer, World.pollOutgoing,
          houtgoing, if_true]
  | sink =>
    have hpolled := SplitRpc.polled_pollFlush hjson hversion h.writes.fromClient h.sound
      h.texts_initial answers answers'
    generalize s.split.pollFlush json answers answers' = result at hpolled
    refine (h.polled hpolled).internal (hduplex _) (hwrites _) (.of_eq ?_)
    simp only [World.step, World.poll_of_sink hphase, World.pollSink]
    split <;> rfl
  | complete =>
    refine h.internal (hduplex _) (hwrites _) (.of_eq ?_)
    simp only [World.step, World.poll_of_complete hphase]
  | panicked =>
    refine h.internal (hduplex _) (hwrites _) (.of_eq ?_)
    simp only [World.step, World.poll_of_panicked hphase]

/-- Every step keeps the invariant. -/
theorem Inv.step (h : s.Inv json handler metadata) (l : LocalLabel) :
    (s.step json l).Inv json handler metadata := by
  have hclient : ∀ l, (∀ answers, l ≠ .poll answers) →
      LocalWorld.Inv json handler metadata { s with duplex := s.duplex.step json l } :=
    fun l hl =>
      h.internal (h.duplex.step l) (h.writes.step l) (World.internal_step json s.duplex hl)
  cases l with
  | callMethod method params => exact hclient (.callMethod method params) (by simp)
  | notify method params => exact hclient (.notify method params) (by simp)
  | dropClients => exact hclient .dropClients (by simp)
  | dropCall sender => exact hclient (.dropCall sender) (by simp)
  | poll answers answers' => exact h.poll hjson hversion answers answers'

omit hjson hversion in
/-- A new client satisfies the invariant. -/
theorem inv_connect (json : SerdeJson) (handler : MetaIoHandler P) (metadata : M) :
    (connect handler metadata).Inv json handler metadata where
  duplex := World.inv_init json
  writes := World.writes_init json
  sound := LocalRpc.sound_withMetadata json handler metadata
  sent_eq := rfl
  received := nofun

/-- The invariant holds after every run. -/
theorem inv_after (metadata : M) (ls : List LocalLabel) :
    (after json handler metadata ls).Inv json handler metadata :=
  Runs.run_invariant (inv_connect json handler metadata) (fun _ l h => h.step hjson hversion l) ls

end Poll

/-! ## Agreement -/

/-- The result of a call is what dispatching its method and its parameters gives. -/
inductive Agrees (handler : MetaIoHandler P) (metadata : M) (returned : List (Returned P M))
    (call : MethodCall) : RpcResult Value → Prop where
  /-- The method its name stands for returned the value. -/
  | ok {f : Procedure P} {v : Value} (hname : Resolves handler.get call.method (.method f))
      (hreturned : ⟨call.id, ⟨f, call.params, metadata⟩, .ok v⟩ ∈ returned) :
      Agrees handler metadata returned call (.ok v)
  /-- The method its name stands for returned the error. -/
  | error {f : Procedure P} {e : Error} (hname : Resolves handler.get call.method (.method f))
      (hreturned : ⟨call.id, ⟨f, call.params, metadata⟩, .error e⟩ ∈ returned) :
      Agrees handler metadata returned call (.error (.jsonRpcError e.norm))
  /-- Its name does not stand for a method. -/
  | notFound (hname : ∀ f, ¬ Resolves handler.get call.method (.method f)) :
      Agrees handler metadata returned call (.error (.jsonRpcError .methodNotFound))

/-- A client reads the result of dispatching its call. -/
theorem Agrees.of_dispatched {returned : List (Returned P M)} {call : MethodCall}
    {result : Except Error Value} (h : Dispatched handler metadata returned call result) :
    Agrees handler metadata returned call
      ((result.mapError Error.norm).mapError .jsonRpcError) := by
  cases h with
  | notFound hname => exact .notFound hname
  | returned hname hreturned =>
    cases result with
    | ok v => exact .ok hname hreturned
    | error e => exact .error hname hreturned

/-- The message that is read from the text of an output. -/
theorem parseResponse_writeResponse (hjson : json.IsFaithful) {output : Output} {m : Message}
    (hparse : parseResponse json (writeResponse json (.single output)) = .ok m) :
    m.id = output.id ∧
      m.result = (output.toResult.mapError Error.norm).mapError .jsonRpcError := by
  unfold parseResponse at hparse
  split at hparse
  · rename_i response hresponse
    obtain ⟨c, hc, hdeserialize⟩ := Option.bind_eq_some_iff.mp hresponse
    rw [hjson _ _ hc, Response.serialize, ClientResponse.deserialize,
      Output.deserialize_serialize] at hdeserialize
    obtain rfl := Option.some.inj hdeserialize
    obtain rfl := Except.ok.inj hparse
    refine ⟨Output.id_norm output, ?_⟩
    rw [← Output.toResult_norm]
    rfl
  · cases hparse

/-- Requests with the same id are the same, as long as the ids are distinct. -/
theorem eq_of_callId {requests : List Request} (hnodup : (requests.filterMap Request.callId).Nodup)
    {q q' : Request} (hq : q ∈ requests) (hq' : q' ∈ requests) {id : Id}
    (hid : q.callId = some id) (hid' : q'.callId = some id) : q = q' := by
  by_contra hne
  have hsymm : Std.Symm fun a b : Request =>
      ∀ x, a.callId = some x → ∀ y, b.callId = some y → x ≠ y :=
    ⟨fun a b hab x hx y hy => (hab y hy x hx).symm⟩
  exact (List.pairwise_filterMap.mp hnodup).forall hq hq' hne id hid id hid' rfl

/-- As long as the ids are distinct, a call receives the result of dispatching it. -/
theorem Inv.delivered (h : s.Inv json handler metadata) (hjson : json.IsFaithful)
    (hcount : (issuedIds s.duplex.trace).length < 2 ^ 64) {sender : ℕ} {result : RpcResult Value}
    (hdelivered : .delivered sender result ∈ s.duplex.trace) :
    ∃ call text, .registered call text (.call sender) ∈ s.duplex.trace ∧
      Agrees handler metadata s.split.rpc.returned call result := by
  have hcorrelated := h.duplex.correlated hcount
  obtain ⟨before, call, after, m, htrace, -, hfind, rfl⟩ :=
    hcorrelated.delivered_first hdelivered
  have hregistered : .registered call (call.text json) (.call sender) ∈ s.duplex.trace := by
    rw [htrace]
    exact List.mem_append_right _ List.mem_cons_self
  have hqueued : .single (.methodCall call) ∈ queuedRequests s.duplex.trace :=
    List.mem_filterMap.mpr ⟨_, hregistered, rfl⟩
  refine ⟨call, _, hregistered, ?_⟩
  -- The message was read from the text of an output that is accounted for.
  have hm : m ∈ processedMessages s.duplex.trace := by
    rw [htrace, processedMessages, List.filterMap_append]
    exact List.mem_append_right _ (List.mem_of_find?_eq_some hfind)
  obtain ⟨response, hreceived, hparse⟩ :=
    World.exists_received_of_processed hcorrelated.messages_eq hm
  obtain ⟨output, rfl, haccounted⟩ := h.received response hreceived
  obtain ⟨hid, hresult⟩ := parseResponse_writeResponse hjson hparse
  have hcall : output.id = call.id := by
    rw [← hid]
    simpa using List.find?_some hfind
  rcases haccounted with hnull | ⟨call', hcall', hid', hdispatched⟩
  · have hissued : call.id ∈ issuedIds s.duplex.trace := by
      rw [← h.writes.ids_eq]
      exact List.mem_filterMap.mpr ⟨_, hqueued, rfl⟩
    obtain ⟨k, hk, -⟩ := h.duplex.exists_num_of_issued hcount hissued
    rw [hnull, hk] at hcall
    cases hcall
  · have hnodup : ((queuedRequests s.duplex.trace).filterMap Request.callId).Nodup := by
      rw [h.writes.ids_eq]
      exact hcorrelated.nodup_issuedIds
    have hid : (Request.single (.methodCall call')).callId = some call.id :=
      congrArg some (hid'.symm.trans hcall)
    cases eq_of_callId hnodup hcall' hqueued hid rfl
    rw [hresult]
    exact .of_dispatched hdispatched

/-- As long as the ids are distinct, the method of a call returns at most once. -/
theorem Inv.nodup_returned (h : s.Inv json handler metadata)
    (hcount : (issuedIds s.duplex.trace).length < 2 ^ 64) :
    (s.split.rpc.returned.map Returned.id).Nodup := by
  have hsublist := (List.sublist_append_left _ _).trans h.sound.returned_sublist
  have htake := hsublist.trans ((List.take_sublist _ _).filterMap Request.callId)
  rw [h.writes.ids_eq] at htake
  exact (h.duplex.correlated hcount).nodup_issuedIds.sublist htake

/-- **Agreement of the local client with the handler.** In every run with fewer than
`2 ^ 64` ids, the result that a call of `method` with `params` receives is the one of
dispatching `method` and `params`: the result that the method returned to this call,
which it does at most once, or the error that there is no such method. -/
theorem delivered_agrees (json : SerdeJson) (hjson : json.IsFaithful) (handler : MetaIoHandler P)
    (hcompatibility : handler.compatibility ≠ .v1) (metadata : M) (ls : List LocalLabel)
    (hcount : (issuedIds (after json handler metadata ls).duplex.trace).length < 2 ^ 64) :
    let s := after json handler metadata ls
    (s.split.rpc.returned.map Returned.id).Nodup ∧
    ∀ sender method params result, .called sender method params ∈ s.duplex.trace →
      .delivered sender result ∈ s.duplex.trace →
      ∃ call text, .registered call text (.call sender) ∈ s.duplex.trace ∧
        call.method = method ∧ call.params = params ∧
        Agrees handler metadata s.split.rpc.returned call result := by
  intro s
  have hversion : handler.compatibility.isVersionValid (some .v2) := by
    cases hv : handler.compatibility with
    | v1 => exact absurd hv hcompatibility
    | v2 => rfl
    | both => rfl
  have h : s.Inv json handler metadata := inv_after hjson hversion metadata ls
  refine ⟨h.nodup_returned hcount, fun sender method params result hcalled hdelivered => ?_⟩
  obtain ⟨call, text, hregistered, hagrees⟩ := h.delivered hjson hcount hdelivered
  -- The call was registered as it was made, since every call has a number of its own.
  have hmem : (sender, call.method, call.params) ∈ calledCalls s.duplex.trace := by
    rw [← h.duplex.calls_eq]
    exact List.mem_append_left _ (List.mem_filterMap.mpr ⟨_, hregistered, rfl⟩)
  have hmem' : (sender, method, params) ∈ calledCalls s.duplex.trace :=
    List.mem_filterMap.mpr ⟨_, hcalled, rfl⟩
  have hnodup : ((calledCalls s.duplex.trace).map Prod.fst).Nodup := by
    rw [h.duplex.called_eq]
    exact List.nodup_range
  cases List.inj_on_of_nodup_map hnodup hmem hmem' rfl
  exact ⟨call, text, hregistered, rfl, rfl, hagrees⟩

end LocalWorld

end EndToEnd

/-! ## A call through an alias and a call of no method -/

/-- A table with distinct texts is faithful. -/
theorem SerdeJson.isFaithful_ofTable {table : List (Content × String)}
    (hnodup : (table.map Prod.snd).Nodup) (hempty : "" ∉ table.map Prod.snd) :
    (SerdeJson.ofTable table).IsFaithful := by
  intro c c' hc
  obtain ⟨entry, hentry, rfl⟩ := Option.map_eq_some_iff.mp hc
  have hmem := List.mem_of_find?_eq_some hentry
  have htext : entry.2 = (SerdeJson.ofTable table).toString c := by
    simpa using List.find?_some hentry
  cases hfind : table.find? fun entry => entry.1 = c with
  | none =>
    simp only [SerdeJson.ofTable, hfind, Option.map_none, Option.getD_none] at htext
    exact absurd (List.mem_map.mpr ⟨entry, hmem, htext⟩) hempty
  | some entry' =>
    simp only [SerdeJson.ofTable, hfind, Option.map_some, Option.getD_some] at htext
    have hmem' := List.mem_of_find?_eq_some hfind
    rw [List.inj_on_of_nodup_map hnodup hmem hmem' htext]
    simpa using List.find?_some hfind

/-- A handler with a method `ping`, an alias `pong` and nothing else. -/
def pongHandler : MetaIoHandler Unit :=
  ((MetaIoHandler.withCompatibility .both).addMethod "ping" ()).addAlias "pong" "ping"

/-- The JSON library on the requests and the responses of two calls. -/
def pongJson : SerdeJson := .ofTable
  [((Request.single (.methodCall ⟨some .v2, "pong", .none, .num 0⟩)).serialize,
      "\x7b\"jsonrpc\":\"2.0\",\"method\":\"pong\",\"params\":null,\"id\":0\x7d"),
    ((Request.single (.methodCall ⟨some .v2, "pang", .none, .num 1⟩)).serialize,
      "\x7b\"jsonrpc\":\"2.0\",\"method\":\"pang\",\"params\":null,\"id\":1\x7d"),
    ((Output.success ⟨some .v2, .bool true, .num 0⟩).serialize,
      "\x7b\"jsonrpc\":\"2.0\",\"result\":true,\"id\":0\x7d"),
    ((Output.failure ⟨some .v2, .methodNotFound, .num 1⟩).serialize,
      "\x7b\"jsonrpc\":\"2.0\",\"error\":\x7b\"code\":-32601,\"message\":" ++
        "\"Method not found\"\x7d,\"id\":1\x7d")]

/-- The alias `pong` and the unknown name `pang` are called, and the duplex is polled
until both responses are handled. -/
def pongRun : List LocalLabel :=
  [.callMethod "pong" .none, .callMethod "pang" .none] ++
    List.replicate 17 (.poll (fun _ => .ready (.ok (.bool true))) fun _ => .pending)

/-- The first call receives what the method returned, the second one that there is no
such method. -/
theorem LocalWorld.delivered_agrees_pongRun :
    let s := LocalWorld.after pongJson pongHandler () pongRun
    .delivered 0 (.ok (.bool true)) ∈ s.duplex.trace ∧
    .delivered 1 (.error (.jsonRpcError .methodNotFound)) ∈ s.duplex.trace ∧
    (∃ call text, .registered call text (.call 0) ∈ s.duplex.trace ∧ call.method = "pong" ∧
      call.params = .none ∧
      Agrees pongHandler () s.split.rpc.returned call (.ok (.bool true))) ∧
    ∃ call text, .registered call text (.call 1) ∈ s.duplex.trace ∧ call.method = "pang" ∧
      call.params = .none ∧
      Agrees pongHandler () s.split.rpc.returned call (.error (.jsonRpcError .methodNotFound)) := by
  have hjson : pongJson.IsFaithful := SerdeJson.isFaithful_ofTable (by decide) (by decide)
  have hagrees := (LocalWorld.delivered_agrees pongJson hjson pongHandler (by decide) ()
    pongRun (by decide)).2
  exact ⟨by decide, by decide, hagrees _ _ _ _ (by decide) (by decide),
    hagrees _ _ _ _ (by decide) (by decide)⟩

end JsonRpc
