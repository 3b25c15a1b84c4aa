import JsonRpc.Client.Invariant

/-!
# Correlation of requests and responses

As long as fewer than `2 ^ 64` ids were handed out, they are distinct, and every
pending request is registered under a number below the counter of the builder.
Responses arrive in any order, more than once, or for unknown ids. Still every
call receives at most one result, and that is the one of the first message with
its id that was handled after it was registered.
-/

namespace JsonRpc

/-- The messages among the strings that the stream yielded. -/
def receivedMessages (json : SerdeJson) (trace : List Happening) : List Message :=
  trace.filterMap fun
    | .received response => (parseResponse json response).toOption
    | _ => none

/-- The messages that were handled. -/
def processedMessages (trace : List Happening) : List Message :=
  trace.filterMap fun
    | .processed message _ => some message
    | _ => none

/-- The id that is written in the text of a call. -/
def writtenId (json : SerdeJson) (text : String) : Option Id :=
  match Request.fromStr json text with
  | some (.single (.methodCall call)) => some call.id
  | _ => none

/-- The text of a call has the id of the call in it, if the text can be read back. -/
theorem writtenId_text {json : SerdeJson} {call : MethodCall}
    (hjson : json.fromStr (call.text json) = some (Request.single (.methodCall call)).serialize) :
    writtenId json (call.text json) = some call.id := by
  have hread : Request.fromStr json (call.text json) = some (.single (.methodCall call)) := by
    rw [Request.fromStr, hjson, Option.bind_some, Request.deserialize_serialize]
  rw [writtenId, hread]

namespace World

variable {json : SerdeJson} {w : World}

/-- The messages that arrived are those among the received strings. -/
theorem filterMap_arrival_events (json : SerdeJson) (trace : List Happening) :
    (events json trace).filterMap Correlator.Event.arrival = receivedMessages json trace := by
  rw [events, List.filterMap_filterMap, receivedMessages]
  congr 1
  funext h
  cases h with
  | received response =>
    simp only [Happening.event]
    cases (parseResponse json response).toOption <;> rfl
  | _ => rfl

/-- The messages that the correlator handled. -/
theorem filterMap_handling_events (json : SerdeJson) (trace : List Happening) :
    (events json trace).filterMap Correlator.Event.handling = processedMessages trace := by
  rw [events, List.filterMap_filterMap, processedMessages]
  congr 1
  funext h
  cases h with
  | received response =>
    simp only [Happening.event]
    cases (parseResponse json response).toOption <;> rfl
  | _ => rfl

/-- Requests and responses are correlated. -/
structure Correlated (json : SerdeJson) (w : World) : Prop where
  /-- The ids that were handed out are distinct. -/
  nodup_issuedIds : (issuedIds w.trace).Nodup
  /-- Every pending id is a number below the counter of the builder. -/
  pending_lt : ∀ id ∈ w.pendingRequests.keys, ∃ k, id = .num k ∧ k < w.requestBuilder.id
  /-- No id was pending when it was handed out. -/
  not_reused : ∀ id, .reused id ∉ w.trace
  /-- The messages are handled in the order in which they were received. -/
  messages_eq : receivedMessages json w.trace = processedMessages w.trace ++ w.incoming
  /-- No notification and no message without an id consumes a pending request. -/
  consumed : ∀ {m pending}, .processed m (some pending) ∈ w.trace → m.id ≠ .null ∧ m.method = none
  /-- Every call is registered at most once. -/
  nodup_registered : ((registeredCalls w.trace).map Prod.fst).Nodup
  /-- Every call receives at most one result. -/
  length_deliveries : ∀ sender, (deliveries sender w.trace).length ≤ 1
  /-- That result is the one of the first message that was handled after the call
  was registered and that carries the id written in its request. -/
  delivered_first : ∀ {sender result}, .delivered sender result ∈ w.trace →
    ∃ before call after m,
      w.trace = before ++ .registered call (call.text json) (.call sender) :: after ∧
      (json.fromStr (call.text json) = some (Request.single (.methodCall call)).serialize →
        writtenId json (call.text json) = some call.id) ∧
      (processedMessages after).find? (fun m => m.id = call.id) = some m ∧ m.result = result

/-- A message that was handled was received. -/
theorem exists_received_of_processed {json : SerdeJson} {w : World}
    (hmessages : receivedMessages json w.trace = processedMessages w.trace ++ w.incoming)
    {m : Message} (hm : m ∈ processedMessages w.trace) :
    ∃ response, .received response ∈ w.trace ∧ parseResponse json response = .ok m := by
  have hreceived : m ∈ receivedMessages json w.trace := by
    rw [hmessages]
    exact List.mem_append_left _ hm
  obtain ⟨h, hmem, hh⟩ := List.mem_filterMap.mp hreceived
  split at hh
  · rename_i response
    refine ⟨response, hmem, ?_⟩
    cases hparse : parseResponse json response with
    | ok m' =>
      rw [hparse] at hh
      exact congrArg _ (Option.some.inj hh)
    | error e =>
      rw [hparse] at hh
      cases hh
  · cases hh

/-- The results a call receives are those of the message that answers it. -/
theorem Inv.deliveries_sublist_firstAfter (h : w.Inv json)
    (hcount : (issuedIds w.trace).length ≤ 2 ^ 64) (sender : ℕ) :
    (deliveries sender w.trace).Sublist
      ((Correlator.firstAfter Message.id Correlator.Event.handling (.call sender)
        (events json w.trace)).toList.map Message.result) := by
  have hconsumers := (h.sound hcount).consumers_eq_firstAfter (.call sender)
  rw [view_trace] at hconsumers
  rw [← hconsumers]
  exact h.deliveries_sublist sender

/-- A registration in the events is a registration in the trace. -/
theorem exists_registered_of_events_eq {json : SerdeJson} {trace : List Happening}
    {before after : List (Correlator.Event Id PendingRequest Message)} {id : Id}
    {pending : PendingRequest}
    (h : events json trace = before ++ .registered id pending :: after) :
    ∃ before' call text after', trace = before' ++ .registered call text pending :: after' ∧
      call.id = id ∧ events json after' = after := by
  obtain ⟨before', rest, rfl, -, hrest⟩ := List.filterMap_eq_append_iff.mp h
  obtain ⟨silent, happening, after', rfl, -, hevent, hafter⟩ := List.filterMap_eq_cons_iff.mp hrest
  cases happening with
  | registered call text pending' =>
    cases hevent
    exact ⟨before' ++ silent, call, text, after', by simp, rfl, hafter⟩
  | received response =>
    obtain ⟨_, _, hm⟩ := Option.map_eq_some_iff.mp hevent
    cases hm
  | _ => cases hevent

/-- As long as the ids are distinct, they are numbers below the counter of the builder. -/
theorem Inv.exists_num_of_issued (h : w.Inv json)
    (hcount : (issuedIds w.trace).length < 2 ^ 64) {id : Id} (hid : id ∈ issuedIds w.trace) :
    ∃ k, id = .num k ∧ k < w.requestBuilder.id := by
  have hissued := (h.sound hcount.le).issued_eq
  rw [view_trace, issued_events] at hissued
  rw [hissued] at hid
  obtain ⟨n, hn, rfl⟩ := List.mem_map.mp hid
  replace hn : n < (issuedIds w.trace).length := List.mem_range.mp hn
  refine ⟨UInt64.ofNat n, rfl, ?_⟩
  rw [h.builder_eq, UInt64.lt_iff_toNat_lt, UInt64.toNat_ofNat_of_lt' (hn.trans hcount),
    UInt64.toNat_ofNat_of_lt' hcount]
  exact hn

/-- As long as the ids are distinct, requests and responses are correlated. -/
theorem Inv.correlated (h : w.Inv json) (hcount : (issuedIds w.trace).length < 2 ^ 64) :
    w.Correlated json := by
  have hs := h.sound hcount.le
  have hmessages : receivedMessages json w.trace = processedMessages w.trace ++ w.incoming := by
    rw [← filterMap_arrival_events, ← filterMap_handling_events json]
    exact hs.queue_eq
  refine { nodup_issuedIds := ?_, pending_lt := fun id hid => ?_,
           not_reused := h.not_reused hcount.le, messages_eq := hmessages,
           consumed := fun {m pending} hmem => ?_, nodup_registered := ?_,
           length_deliveries := fun sender => ?_,
           delivered_first := fun {sender result} hmem => ?_ }
  · rw [← issued_events json]
    exact hs.nodup_issued freshId_injective hcount.le
  · obtain ⟨pending, hpending⟩ := Option.isSome_iff_exists.mp (AList.lookup_isSome.mpr hid)
    apply h.exists_num_of_issued hcount
    rw [← issued_events json]
    exact hs.pending_issued hpending
  · have hissued : m.id ∈ issuedIds w.trace := by
      rw [← issued_events json]
      exact hs.consumed_issued (List.mem_filterMap.mpr ⟨_, hmem, rfl⟩)
    obtain ⟨k, hk, -⟩ := h.exists_num_of_issued hcount hissued
    have hne : m.id ≠ .null := by rw [hk]; nofun
    obtain ⟨response, -, hparse⟩ := exists_received_of_processed hmessages
      (List.mem_filterMap.mpr ⟨_, hmem, rfl⟩)
    exact ⟨hne, method_eq_none_of_parseResponse hparse hne⟩
  · exact h.nodup_calls.of_append_left
  · refine (h.deliveries_sublist_firstAfter hcount.le sender).length_le.trans ?_
    rw [List.length_map]
    exact Option.length_toList_le
  · have hresult : result ∈ deliveries sender w.trace :=
      List.mem_filterMap.mpr ⟨_, hmem, if_pos rfl⟩
    obtain ⟨m, hm, rfl⟩ := List.mem_map.mp
      ((h.deliveries_sublist_firstAfter hcount.le sender).subset hresult)
    obtain ⟨before, id, after, hevents, hfind⟩ :=
      Correlator.exists_registered_of_firstAfter Message.id (Option.mem_toList.mp hm)
    obtain ⟨before', call, text, after', htrace, rfl, rfl⟩ := exists_registered_of_events_eq hevents
    have htext : text = call.text json :=
      h.text_eq (htrace ▸ List.mem_append_right _ List.mem_cons_self)
    refine ⟨before', call, after', m, htext ▸ htrace, writtenId_text, ?_, rfl⟩
    rw [← filterMap_handling_events json]
    exact hfind

/-- **Correlation.** After every run with fewer than `2 ^ 64` ids, requests and
responses are correlated. -/
theorem after_correlated (json : SerdeJson) (ls : List Label)
    (hcount : (issuedIds (after json ls).trace).length < 2 ^ 64) :
    (after json ls).Correlated json :=
  (inv_after json ls).correlated hcount

end World

/-! ## Two calls answered in reverse order -/

/-- The call of the method `ping` with an id. -/
def pingCall (id : UInt64) : MethodCall := ⟨some .v2, "ping", .none, .num id⟩

/-- The output `true` of the call with an id. -/
def pingOutput (id : UInt64) : Output := .success ⟨some .v2, .bool true, .num id⟩

/-- The text of the call with a digit as its id. -/
def pingCallText (digit : String) : String :=
  "\x7b\"jsonrpc\":\"2.0\",\"method\":\"ping\",\"params\":null,\"id\":" ++ digit ++ "\x7d"

/-- The text of the output with a digit as its id. -/
def pingOutputText (digit : String) : String :=
  "\x7b\"jsonrpc\":\"2.0\",\"result\":true,\"id\":" ++ digit ++ "\x7d"

/-- The JSON library on the first two calls and their outputs. -/
def pingJson : SerdeJson where
  toString c :=
    if c = (Request.single (.methodCall (pingCall 0))).serialize then pingCallText "0"
    else if c = (Request.single (.methodCall (pingCall 1))).serialize then pingCallText "1"
    else ""
  fromStr s :=
    if s = pingOutputText "0" then some (pingOutput 0).serialize
    else if s = pingOutputText "1" then some (pingOutput 1).serialize
    else none

/-- An iteration in which the stream is not ready and the sink takes everything. -/
def turn : Label := .poll ⟨.pending, .ready true, true, .ready true⟩

/-- An iteration in which the stream yields a string. -/
def reads (response : String) : Label :=
  .poll ⟨.ready (some response), .ready true, true, .ready true⟩

/-- Two calls are made, and the duplex is polled until both are written. It is
then polled again, until it reads the stream. -/
def twoPings : List Label :=
  [.callMethod "ping" .none, .callMethod "ping" .none] ++ List.replicate 12 turn

/-- The second call is answered before the first. -/
theorem World.after_correlated_twoPings :
    let w := World.after pingJson (twoPings ++
      [reads (pingOutputText "1"), reads (pingOutputText "0"), turn, turn, turn])
    (issuedIds w.trace).length < 2 ^ 64 ∧
      deliveries 0 w.trace = [.ok (.bool true)] ∧
      deliveries 1 w.trace = [.ok (.bool true)] ∧ w.Correlated pingJson := by
  refine ⟨by decide, by decide, by decide, World.after_correlated pingJson _ (by decide)⟩

end JsonRpc
