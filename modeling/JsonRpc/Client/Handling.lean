import JsonRpc.Client.Local
import JsonRpc.Client.Outgoing
import JsonRpc.Core.Dispatch

/-!
# What the transport of the local client answers

The transport handles requests one after another. Every response it queues
belongs to a request that it handled: it has the id of the request, and it is
what dispatching the request gives. What it takes over from the JSON library is
only that a tree that is written as a text is not read as another one.
-/

namespace JsonRpc

/-- What is read from the text of a tree is the tree. -/
def SerdeJson.IsFaithful (json : SerdeJson) : Prop :=
  ∀ c c', json.fromStr (json.toString c) = some c' → c' = c

section Handling

variable {P M : Type} {json : SerdeJson} {handler : MetaIoHandler P} {metadata : M}

/-! ## Outputs -/

/-- The result of dispatching a call: what the method its name stands for returned
to the call, or the error that there is no such method. -/
inductive Dispatched (handler : MetaIoHandler P) (metadata : M) (returned : List (Returned P M))
    (call : MethodCall) : Except Error Value → Prop where
  | returned {f : Procedure P} {result : Except Error Value}
      (hname : Resolves handler.get call.method (.method f))
      (hreturned : ⟨call.id, ⟨f, call.params, metadata⟩, result⟩ ∈ returned) :
      Dispatched handler metadata returned call result
  | notFound (hname : ∀ f, ¬ Resolves handler.get call.method (.method f)) :
      Dispatched handler metadata returned call (.error .methodNotFound)

/-- An output has no id, or it is the result of dispatching one of the requests. -/
def Accounted (handler : MetaIoHandler P) (metadata : M) (requests : List Request)
    (returned : List (Returned P M)) (output : Output) : Prop :=
  output.id = .null ∨ ∃ call, .single (.methodCall call) ∈ requests ∧ output.id = call.id ∧
    Dispatched handler metadata returned call output.toResult

/-- The text of such an output. -/
def AccountedText (json : SerdeJson) (handler : MetaIoHandler P) (metadata : M)
    (requests : List Request) (returned : List (Returned P M)) (text : String) : Prop :=
  ∃ output, text = writeResponse json (.single output) ∧
    Accounted handler metadata requests returned output

/-- A future that leads to such an output. -/
inductive Serves (handler : MetaIoHandler P) (metadata : M) (requests : List Request)
    (returned : List (Returned P M)) : FutureResult P M → Prop where
  /-- The request could not be read. -/
  | unreadable {output : Output} (houtput : Accounted handler metadata requests returned output) :
      Serves handler metadata requests returned (.ready (some (.single output)))
  /-- The method of a request is polled. -/
  | call {call : MethodCall} {f : Procedure P} (hcall : .single (.methodCall call) ∈ requests)
      (hname : Resolves handler.get call.method (.method f)) :
      Serves handler metadata requests returned
        (.request (.single (.call ⟨f, call.params, metadata⟩ call.id call.jsonrpc)))
  /-- The output is ready. -/
  | done {output : Output} (houtput : Accounted handler metadata requests returned output) :
      Serves handler metadata requests returned (.request (.single (.ready (some output))))
  /-- There is no output. -/
  | silent : Serves handler metadata requests returned (.request (.single (.ready none)))

/-- The id of the call whose method is polled. -/
def FutureResult.busyId : FutureResult P M → List Id
  | .request (.single (.call _ id _)) => [id]
  | _ => []

section Mono

variable {requests requests' : List Request} {returned returned' : List (Returned P M)}
  (hrequests : requests ⊆ requests') (hreturned : returned ⊆ returned')
include hrequests hreturned

/-- More requests and more results account for at least the same outputs. -/
theorem Accounted.mono {output : Output} (h : Accounted handler metadata requests returned output) :
    Accounted handler metadata requests' returned' output := by
  rcases h with hid | ⟨call, hcall, hid, hdispatched⟩
  · exact .inl hid
  · refine .inr ⟨call, hrequests hcall, hid, ?_⟩
    generalize output.toResult = result at hdispatched
    cases hdispatched with
    | returned hname hmem => exact .returned hname (hreturned hmem)
    | notFound hname => exact .notFound hname

theorem AccountedText.mono {text : String}
    (h : AccountedText json handler metadata requests returned text) :
    AccountedText json handler metadata requests' returned' text := by
  obtain ⟨output, htext, houtput⟩ := h
  exact ⟨output, htext, houtput.mono hrequests hreturned⟩

theorem Serves.mono {future : FutureResult P M}
    (h : Serves handler metadata requests returned future) :
    Serves handler metadata requests' returned' future := by
  cases h with
  | unreadable houtput => exact .unreadable (houtput.mono hrequests hreturned)
  | call hcall hname => exact .call (hrequests hcall) hname
  | done houtput => exact .done (houtput.mono hrequests hreturned)
  | silent => exact .silent

end Mono

/-! ## Futures -/

variable {requests : List Request} {returned : List (Returned P M)} {future : FutureResult P M}

/-- A future that is polled leads to the same output. -/
theorem Serves.poll (h : Serves handler metadata requests returned future)
    (answers : ℕ → Poll (Except Error Value)) :
    Serves handler metadata requests (returned ++ future.returned answers)
      (future.poll answers) := by
  have hmono := h.mono (fun _ hq => hq) (List.subset_append_left returned (future.returned answers))
  cases h with
  | unreadable => exact hmono
  | done => exact hmono
  | silent => exact hmono
  | @call call f hcall hname =>
    simp only [FutureResult.poll, FutureRpcResult.poll, FutureRpcOutput.poll]
    cases hanswer : answers 0 with
    | pending => exact hmono
    | ready result =>
      refine .done (.inr ⟨call, hcall, Output.id_from _ _ _, ?_⟩)
      rw [Output.toResult_from]
      refine .returned hname (List.mem_append_right _ ?_)
      simp [FutureResult.returned, FutureRpcResult.returned, FutureRpcOutput.returned, hanswer]

/-- A method that returned is not polled any more. -/
theorem Serves.busyId_poll (h : Serves handler metadata requests returned future)
    (answers : ℕ → Poll (Except Error Value)) :
    (future.returned answers).map Returned.id ++ (future.poll answers).busyId = future.busyId := by
  cases h with
  | unreadable | done | silent => rfl
  | call hcall hname =>
    simp only [FutureResult.poll, FutureRpcResult.poll, FutureRpcOutput.poll, FutureResult.returned,
      FutureRpcResult.returned, FutureRpcOutput.returned]
    cases answers 0 <;> rfl

/-- A future that is ready has such an output, or none. -/
theorem Serves.response (h : Serves handler metadata requests returned future)
    {response : Response} (hresponse : future.response = some (some response)) :
    ∃ output, response = .single output ∧ Accounted handler metadata requests returned output := by
  cases h with
  | unreadable houtput =>
    cases hresponse
    exact ⟨_, rfl, houtput⟩
  | call hcall hname => cases hresponse
  | done houtput =>
    cases hresponse
    exact ⟨_, rfl, houtput⟩
  | silent => cases hresponse

/-- The method of a future that is ready is not polled. -/
theorem Serves.busyId_of_response (h : Serves handler metadata requests returned future)
    {response : Option Response} (hresponse : future.response = some response) :
    future.busyId = [] := by
  cases h with
  | call hcall hname => cases hresponse
  | unreadable | done | silent => rfl

/-- Handling a method call of version 2.0 serves it. -/
theorem serves_handleCall (hversion : handler.compatibility.isVersionValid (some .v2))
    {call : MethodCall} (hcall : .single (.methodCall call) ∈ requests)
    (hjsonrpc : call.jsonrpc = some .v2) :
    Serves handler metadata requests returned
      (.request (.single (handler.handleCall (.methodCall call) metadata).future)) := by
  simp only [MetaIoHandler.handleCall, hjsonrpc]
  cases hresolve : handler.resolveMethod (handler.compatibility.isVersionValid (some .v2))
      call.method with
  | ok f =>
    obtain ⟨-, hname⟩ := handler.resolveMethod_eq_ok_iff.mp hresolve
    rw [← hjsonrpc]
    exact .call hcall hname
  | error error =>
    rcases handler.resolveMethod_eq_error hresolve with ⟨hinvalid, -⟩ | ⟨-, rfl⟩
    · rw [hversion] at hinvalid
      cases hinvalid
    · refine .done (.inr ⟨call, hcall, Output.id_from _ _ _, ?_⟩)
      rw [Output.toResult_from]
      refine .notFound fun f hname => ?_
      rw [handler.resolveMethod_eq_ok_iff.mpr ⟨hversion, hname⟩] at hresolve
      cases hresolve

/-- Handling a notification gives no output. -/
theorem future_handleCall_notification (n : Notification) :
    (handler.handleCall (.notification n) metadata).future = .ready none := by
  simp only [MetaIoHandler.handleCall]
  split
  · split <;> rfl
  · rfl

/-- The text of a request cannot be read, or it is handled as the request. -/
theorem future_handleRequest_toString (hjson : json.IsFaithful) (request : Request) :
    (handler.handleRequest json (request.toString json) metadata).future =
        .ready (some (Response.from (.new .parseError) handler.compatibility.defaultVersion)) ∨
      (handler.handleRequest json (request.toString json) metadata).future =
        .request (handler.handleRpcRequest request metadata).future := by
  unfold MetaIoHandler.handleRequest readRequest
  cases hread : Request.fromStr json (request.toString json) with
  | none => exact .inl rfl
  | some request' =>
    obtain ⟨c, hc, hrequest'⟩ := Option.bind_eq_some_iff.mp hread
    rw [hjson _ _ hc, Request.deserialize_serialize] at hrequest'
    obtain rfl := Option.some.inj hrequest'
    exact .inr rfl

/-- Handling the text of a request of a client serves the request. -/
theorem serves_handleRequest (hjson : json.IsFaithful)
    (hversion : handler.compatibility.isVersionValid (some .v2)) {request : Request}
    (hrequest : request ∈ requests) (hclient : request.isFromClient) :
    Serves handler metadata requests returned
      (handler.handleRequest json (request.toString json) metadata).future := by
  rcases future_handleRequest_toString hjson request with hfuture | hfuture
  · rw [hfuture]
    exact .unreadable (.inl rfl)
  · rw [hfuture]
    cases request with
    | single call =>
      cases call with
      | methodCall call => exact serves_handleCall hversion hrequest (of_decide_eq_true hclient)
      | notification n =>
        simp only [MetaIoHandler.handleRpcRequest, future_handleCall_notification]
        exact .silent
      | invalid => cases hclient
    | batch => cases hclient

/-- Then at most the method of the request is polled. -/
theorem busyId_handleRequest (hjson : json.IsFaithful) {request : Request}
    (hclient : request.isFromClient) :
    (handler.handleRequest json (request.toString json) metadata).future.busyId.Sublist
      request.callId.toList := by
  rcases future_handleRequest_toString hjson request with hfuture | hfuture
  · rw [hfuture]
    exact List.nil_sublist _
  · rw [hfuture]
    cases request with
    | single call =>
      cases call with
      | methodCall call =>
        simp only [MetaIoHandler.handleRpcRequest, MetaIoHandler.handleCall]
        split
        · exact List.Sublist.refl _
        · exact List.nil_sublist _
      | notification n =>
        simp only [MetaIoHandler.handleRpcRequest, future_handleCall_notification]
        exact List.nil_sublist _
      | invalid => cases hclient
    | batch => cases hclient

/-! ## The transport -/

/-- The id of the call whose method is polled. -/
def Buffered.busyId : Buffered P M → List Id
  | .request future => future.busyId
  | _ => []

/-- What the transport works on leads to an output that is accounted for. -/
def Buffered.WillServe (json : SerdeJson) (handler : MetaIoHandler P) (metadata : M)
    (requests : List Request) (returned : List (Returned P M)) : Buffered P M → Prop
  | .request future => Serves handler metadata requests returned future
  | .response text => AccountedText json handler metadata requests returned text
  | .none => True

/-- The transport handles the requests in their order and answers them. -/
structure LocalRpc.Sound (json : SerdeJson) (handler : MetaIoHandler P) (metadata : M)
    (requests : List Request) (rpc : LocalRpc P M) : Prop where
  handler_eq : rpc.handler = handler
  metadata_eq : rpc.metadata = metadata
  /-- The requests are handled in their order. -/
  handled_initial : rpc.handled <+: requests.map (Request.toString json)
  /-- The request that is handled will be answered. -/
  buffered : rpc.buffered.WillServe json handler metadata requests rpc.returned
  /-- The responses in the queue are answers to requests. -/
  queue : ∀ text ∈ rpc.queue, AccountedText json handler metadata requests rpc.returned text
  /-- The method of a request returns at most once. -/
  returned_sublist : (rpc.returned.map Returned.id ++ rpc.buffered.busyId).Sublist
    ((requests.take rpc.handled.length).filterMap Request.callId)

namespace LocalRpc

variable {rpc : LocalRpc P M}

/-- More requests keep a transport sound. -/
theorem Sound.mono (h : rpc.Sound json handler metadata requests) {requests' : List Request}
    (hrequests : requests <+: requests') : rpc.Sound json handler metadata requests' where
  handler_eq := h.handler_eq
  metadata_eq := h.metadata_eq
  handled_initial := h.handled_initial.trans (hrequests.map _)
  buffered := by
    have hbuffered := h.buffered
    cases hb : rpc.buffered with
    | request future =>
      rw [hb] at hbuffered
      exact Serves.mono hrequests.subset (fun _ hr => hr) hbuffered
    | response text =>
      rw [hb] at hbuffered
      exact AccountedText.mono hrequests.subset (fun _ hr => hr) hbuffered
    | none => trivial
  queue text htext := (h.queue text htext).mono hrequests.subset fun _ hr => hr
  returned_sublist := by
    have hlength : rpc.handled.length ≤ requests.length := by
      simpa using h.handled_initial.length_le
    obtain ⟨new, rfl⟩ := hrequests
    rw [List.take_append_of_le_length hlength]
    exact h.returned_sublist

/-- A new transport is sound. -/
theorem sound_withMetadata (json : SerdeJson) (handler : MetaIoHandler P) (metadata : M) :
    (withMetadata handler metadata).Sound json handler metadata [] where
  handler_eq := rfl
  metadata_eq := rfl
  handled_initial := ⟨_, rfl⟩
  buffered := trivial
  queue := nofun
  returned_sublist := List.nil_sublist _

/-- Reading a response keeps a transport sound. -/
theorem Sound.pollNext (h : rpc.Sound json handler metadata requests) :
    rpc.pollNext.2.Sound json handler metadata requests := by
  unfold LocalRpc.pollNext
  split
  · rename_i response queue hqueue
    exact { h with queue := fun text htext => h.queue text (hqueue ▸ List.mem_cons_of_mem _ htext) }
  · exact h

/-- Sending the response keeps a transport sound, and frees it. -/
theorem Sound.sendResponse (h : rpc.Sound json handler metadata requests)
    (hbusy : rpc.buffered.busyId = []) :
    rpc.sendResponse.Sound json handler metadata requests ∧ rpc.sendResponse.buffered = .none := by
  have hsublist := h.returned_sublist
  rw [hbusy] at hsublist
  unfold LocalRpc.sendResponse
  split
  · rename_i response hbuffered
    refine ⟨{ h with
      buffered := trivial, queue := fun text htext => ?_, returned_sublist := hsublist }, rfl⟩
    rcases List.mem_append.mp htext with htext | htext
    · exact h.queue text htext
    · rw [List.mem_singleton.mp htext]
      have hserves := h.buffered
      rw [hbuffered] at hserves
      exact hserves
  · exact ⟨{ h with buffered := trivial, returned_sublist := hsublist }, rfl⟩

@[simp] theorem handled_sendResponse (rpc : LocalRpc P M) :
    rpc.sendResponse.handled = rpc.handled := by
  unfold LocalRpc.sendResponse
  split <;> rfl

@[simp] theorem returned_sendResponse (rpc : LocalRpc P M) :
    rpc.sendResponse.returned = rpc.returned := by
  unfold LocalRpc.sendResponse
  split <;> rfl

/-- Polling the methods keeps a transport sound. -/
theorem Sound.poll (h : rpc.Sound json handler metadata requests) {future : FutureResult P M}
    (hbuffered : rpc.buffered = .request future) (answers : ℕ → Poll (Except Error Value)) :
    Sound json handler metadata requests
      { rpc with
        buffered := .request (future.poll answers)
        returned := rpc.returned ++ future.returned answers } := by
  have hserves : Serves handler metadata requests rpc.returned future := by
    have hserves := h.buffered
    rwa [hbuffered] at hserves
  refine { h with buffered := hserves.poll answers, queue := fun text htext => ?_,
                  returned_sublist := ?_ }
  · exact (h.queue text htext).mono (fun _ hq => hq) (List.subset_append_left _ _)
  · have hsublist := h.returned_sublist
    rw [hbuffered, Buffered.busyId, ← hserves.busyId_poll answers, ← List.append_assoc,
      ← List.map_append] at hsublist
    exact hsublist

/-- What a poll of the transport does. -/
structure Polled (json : SerdeJson) (handler : MetaIoHandler P) (metadata : M)
    (requests : List Request) (rpc : LocalRpc P M) (result : Poll Unit × LocalRpc P M) : Prop where
  /-- The transport stays sound. -/
  sound : result.2.Sound json handler metadata requests
  /-- No request is handled. -/
  handled_eq : result.2.handled = rpc.handled
  /-- What methods returned stays. -/
  returned_subset : rpc.returned ⊆ result.2.returned
  /-- The transport is free when it is ready. -/
  free : result.1 = .ready () → result.2.buffered = .none

/-- Sending the response is a poll of the transport that is ready. -/
theorem Sound.polled_sendResponse (h : rpc.Sound json handler metadata requests)
    (hbusy : rpc.buffered.busyId = []) :
    Polled json handler metadata requests rpc (.ready (), rpc.sendResponse) :=
  ⟨(h.sendResponse hbusy).1, handled_sendResponse rpc, by simp, fun _ => (h.sendResponse hbusy).2⟩

/-- Polling the request that is handled keeps a transport sound. -/
theorem Sound.pollBuffered (h : rpc.Sound json handler metadata requests)
    (answers : ℕ → Poll (Except Error Value)) :
    Polled json handler metadata requests rpc (rpc.pollBuffered json answers) := by
  unfold LocalRpc.pollBuffered
  cases hbuffered : rpc.buffered with
  | request future =>
    have hpoll := h.poll hbuffered answers
    have hserves := hpoll.buffered
    have hsubset : rpc.returned ⊆ rpc.returned ++ future.returned answers :=
      List.subset_append_left _ _
    dsimp only
    cases hresponse : (future.poll answers).response with
    | none => exact ⟨hpoll, rfl, hsubset, nofun⟩
    | some response =>
      cases response with
      | none =>
        have hpolled := hpoll.polled_sendResponse (hserves.busyId_of_response hresponse)
        exact { hpolled with
          returned_subset := List.Subset.trans hsubset hpolled.returned_subset }
      | some response =>
        obtain ⟨output, rfl, houtput⟩ := hserves.response hresponse
        have hready : Sound json handler metadata requests
            { rpc with
              buffered := .response (writeResponse json (.single output))
              returned := rpc.returned ++ future.returned answers } := by
          refine { hpoll with buffered := ⟨output, rfl, houtput⟩, returned_sublist := ?_ }
          have hsublist := hpoll.returned_sublist
          rwa [Buffered.busyId, hserves.busyId_of_response hresponse] at hsublist
        have hpolled := hready.polled_sendResponse rfl
        exact { hpolled with
          returned_subset := List.Subset.trans hsubset hpolled.returned_subset }
  | response text => exact h.polled_sendResponse (by rw [hbuffered]; rfl)
  | none => exact h.polled_sendResponse (by rw [hbuffered]; rfl)

/-- Handling the next request keeps a free transport sound. -/
theorem Sound.startSend (h : rpc.Sound json handler metadata requests) (hjson : json.IsFaithful)
    (hversion : handler.compatibility.isVersionValid (some .v2))
    (hclient : ∀ request ∈ requests, request.isFromClient) (hfree : rpc.buffered = .none)
    {item : String} (hitem : rpc.handled ++ [item] <+: requests.map (Request.toString json)) :
    (rpc.startSend json item).Sound json handler metadata requests := by
  obtain ⟨rest, hrest⟩ := hitem
  obtain ⟨front, back, rfl, hfront, -⟩ := List.map_eq_append_iff.mp hrest.symm
  obtain ⟨before, next, rfl, hbefore, hnext⟩ := List.map_eq_append_iff.mp hfront
  obtain ⟨request, rfl, rfl⟩ := List.map_eq_singleton_iff.mp hnext
  have hlength : rpc.handled.length = before.length := by rw [← hbefore, List.length_map]
  have hmem : request ∈ before ++ [request] ++ back := by simp
  refine ⟨h.handler_eq, h.metadata_eq, ⟨rest, hrest⟩, ?_, h.queue, ?_⟩
  · simp only [LocalRpc.startSend, h.handler_eq, h.metadata_eq]
    exact serves_handleRequest hjson hversion hmem (hclient request hmem)
  · have hreturned : (rpc.returned.map Returned.id).Sublist (before.filterMap Request.callId) := by
      have hsublist := h.returned_sublist
      rw [hfree, hlength, List.append_assoc, List.take_left] at hsublist
      simpa [Buffered.busyId] using hsublist
    have htake : (before ++ [request] ++ back).take (rpc.handled.length + 1) =
        before ++ [request] := by
      rw [List.take_append_of_le_length (by simp [hlength]),
        List.take_of_length_le (by simp [hlength])]
    simp only [LocalRpc.startSend, List.length_append, List.length_singleton]
    rw [htake, List.filterMap_append, h.handler_eq, h.metadata_eq]
    refine hreturned.append ?_
    have hid : [request].filterMap Request.callId = request.callId.toList := by
      cases hid : request.callId <;> simp [hid]
    rw [hid]
    exact busyId_handleRequest hjson (hclient request hmem)

end LocalRpc

end Handling

end JsonRpc
