import JsonRpc.Client.Handling

/-!
# Serving a request

A server gives the text of a request to the handler and polls the future it gets until the
future has a response. What the methods return in the meantime is recorded.
-/

namespace JsonRpc

variable {P M : Type}

/-- A future of the handler with what methods returned to it. -/
structure Serving (P M : Type) where
  future : FutureResult P M
  returned : List (Returned P M)

namespace Serving

/-- The future of a text. -/
def start (json : SerdeJson) (handler : MetaIoHandler P) (text : String) (metadata : M) :
    Serving P M :=
  ⟨(handler.handleRequest json text metadata).future, []⟩

/-- A poll of the future, when its methods answer with `answers`. -/
def next (serving : Serving P M) (answers : ℕ → Poll (Except Error Value)) : Serving P M :=
  ⟨serving.future.poll answers, serving.returned ++ serving.future.returned answers⟩

/-- Poll the future for its response. The response comes with what methods returned. -/
def poll (answers : ℕ → Poll (Except Error Value)) (serving : Serving P M) :
    Serving P M × Option (Option Response × List (Returned P M)) :=
  let serving := serving.next answers
  (serving, serving.future.response.map fun response => (response, serving.returned))

/-- The future of a text after some polls. -/
def after (json : SerdeJson) (handler : MetaIoHandler P) (text : String) (metadata : M)
    (polls : List (ℕ → Poll (Except Error Value))) : Serving P M :=
  Runs.run next (start json handler text metadata) polls

end Serving

/-- The handler can respond to a text: its future has the response after some polls, during
which the methods returned what is recorded. -/
def Responds (json : SerdeJson) (handler : MetaIoHandler P) (text : String) (metadata : M)
    (returned : List (Returned P M)) (response : Option Response) : Prop :=
  ∃ polls, (Serving.after json handler text metadata polls).returned = returned ∧
    (Serving.after json handler text metadata polls).future.response = some response

/-- A request with its response and what methods returned to it. -/
structure Answered (P M : Type) where
  request : String
  response : Option Response
  returned : List (Returned P M)

/-- The answer is a response of the handler to the request. -/
def Answered.IsResponse (json : SerdeJson) (handler : MetaIoHandler P) (metadata : M)
    (answered : Answered P M) : Prop :=
  Responds json handler answered.request metadata answered.returned answered.response

namespace Serving

variable {json : SerdeJson} {handler : MetaIoHandler P} {text : String} {metadata : M}

/-- A future of a text that was polled some times. -/
def IsOf (json : SerdeJson) (handler : MetaIoHandler P) (text : String) (metadata : M)
    (serving : Serving P M) : Prop :=
  ∃ polls, serving = after json handler text metadata polls

theorem isOf_start : (start json handler text metadata).IsOf json handler text metadata :=
  ⟨[], rfl⟩

theorem IsOf.next {serving : Serving P M} (h : serving.IsOf json handler text metadata)
    (answers : ℕ → Poll (Except Error Value)) :
    (serving.next answers).IsOf json handler text metadata := by
  obtain ⟨polls, rfl⟩ := h
  exact ⟨polls ++ [answers], (Runs.run_concat _ _ _).symm⟩

/-- What a poll returns is a response to the text. -/
theorem IsOf.responds {serving : Serving P M} (h : serving.IsOf json handler text metadata)
    {answers : ℕ → Poll (Except Error Value)} {response : Option Response}
    {returned : List (Returned P M)}
    (hpoll : (serving.poll answers).2 = some (response, returned)) :
    Responds json handler text metadata returned response := by
  obtain ⟨polls, heq⟩ := h.next answers
  obtain ⟨response', hresponse, hpair⟩ := Option.map_eq_some_iff.mp hpoll
  cases hpair
  rw [heq] at hresponse ⊢
  exact ⟨polls, rfl, hresponse⟩

/-- The outputs of a batch are there when each of them is. -/
theorem exists_mapM_output (outputs : List (FutureRpcOutput P M))
    (houtputs : ∀ output ∈ outputs, ∃ x, output.output = some x) :
    ∃ xs, outputs.mapM FutureRpcOutput.output = some xs := by
  induction outputs with
  | nil => exact ⟨[], rfl⟩
  | cons output outputs ih =>
    obtain ⟨x, hx⟩ := houtputs output (by simp)
    obtain ⟨xs, hxs⟩ := ih fun output hmem => houtputs output (List.mem_cons_of_mem _ hmem)
    exact ⟨x :: xs, by rw [List.mapM_cons, hx, hxs]; rfl⟩

/-- A future whose methods all return has a response. -/
theorem exists_poll_eq_some (serving : Serving P M) {answers : ℕ → Poll (Except Error Value)}
    (hready : ∀ i, ∃ result, answers i = .ready result) :
    ∃ output, (serving.poll answers).2 = some output := by
  have houtput (output : FutureRpcOutput P M) (i : ℕ) :
      ∃ x, (output.poll (answers i)).output = some x := by
    obtain ⟨result, hresult⟩ := hready i
    cases output with
    | call invocation id jsonrpc => exact ⟨_, by rw [hresult]; rfl⟩
    | ready output => exact ⟨output, rfl⟩
  have hresponse : ∃ response, (serving.future.poll answers).response = some response := by
    cases serving.future with
    | ready response => exact ⟨response, rfl⟩
    | request result =>
      cases result with
      | single output =>
        obtain ⟨x, hx⟩ := houtput output 0
        exact ⟨outputAsResponse x, by
          simp [FutureResult.poll, FutureRpcResult.poll, FutureResult.response,
            FutureRpcResult.response, hx]⟩
      | batch outputs =>
        obtain ⟨xs, hxs⟩ := exists_mapM_output
          (outputs.mapIdx fun i output => output.poll (answers i)) (by
            intro output hmem
            obtain ⟨i, hi, rfl⟩ := List.mem_mapIdx.mp hmem
            exact houtput _ i)
        exact ⟨outputsAsBatch xs, by
          simp [FutureResult.poll, FutureRpcResult.poll, FutureResult.response,
            FutureRpcResult.response, hxs]⟩
  obtain ⟨response, hresponse⟩ := hresponse
  refine ⟨(response, (serving.next answers).returned), ?_⟩
  simp [poll, next, hresponse]

end Serving

/-! ## Requests of a client -/

/-- Requests of version 2.0 are served, unless only those of version 1.0 are. -/
theorem isVersionValid_of_ne_v1 {compatibility : Compatibility} (h : compatibility ≠ .v1) :
    compatibility.isVersionValid (some .v2) := by
  cases compatibility with
  | v1 => exact absurd rfl h
  | v2 => rfl
  | both => rfl

section Client

variable {json : SerdeJson} {handler : MetaIoHandler P} {metadata : M}

/-- While the future of a request of a client is polled, it leads to an output that is
accounted for. -/
theorem serves_after (metadata : M) {request : Request} (hjson : json.IsFaithful)
    (hversion : handler.compatibility.isVersionValid (some .v2)) (hclient : request.isFromClient)
    (polls : List (ℕ → Poll (Except Error Value))) :
    Serves handler metadata [request]
      (Serving.after json handler (request.toString json) metadata polls).returned
      (Serving.after json handler (request.toString json) metadata polls).future :=
  Runs.run_invariant
    (I := fun s : Serving P M => Serves handler metadata [request] s.returned s.future)
    (serves_handleRequest hjson hversion (by simp) hclient) (fun _ answers h => h.poll answers)
    polls

/-- A future that will have an output with an id. -/
def FutureResult.HasId (id : Id) : FutureResult P M → Prop
  | .request (.single (.call _ id' _)) => id' = id
  | .request (.single (.ready (some output))) => output.id = id
  | _ => False

theorem FutureResult.HasId.poll {id : Id} {future : FutureResult P M} (h : future.HasId id)
    (answers : ℕ → Poll (Except Error Value)) : (future.poll answers).HasId id := by
  match future, h with
  | .request (.single (.call invocation id' jsonrpc)), h =>
    simp only [FutureResult.poll, FutureRpcResult.poll, FutureRpcOutput.poll]
    cases answers 0 with
    | pending => exact h
    | ready result => exact (Output.id_from _ _ _).trans h
  | .request (.single (.ready (some output))), h => exact h

/-- The future of a call that is read has the id of the call. -/
theorem hasId_handleRequest {call : MethodCall}
    (hread : json.fromStr (call.text json) = some (Request.single (.methodCall call)).serialize) :
    (handler.handleRequest json (call.text json) metadata).future.HasId call.id := by
  have hrequest : Request.fromStr json (call.text json) = some (.single (.methodCall call)) := by
    rw [Request.fromStr, hread]
    exact Request.deserialize_serialize _
  simp only [MetaIoHandler.handleRequest, readRequest, hrequest, MetaIoHandler.handleRpcRequest,
    MetaIoHandler.handleCall]
  split
  · rfl
  · exact Output.id_from _ _ _

/-- The response to a call that is read is the result of dispatching it. -/
theorem Responds.dispatched {call : MethodCall} {returned : List (Returned P M)}
    {response : Option Response} (hjson : json.IsFaithful)
    (hversion : handler.compatibility.isVersionValid (some .v2))
    (hread : json.fromStr (call.text json) = some (Request.single (.methodCall call)).serialize)
    (hjsonrpc : call.jsonrpc = some .v2) (hid : call.id ≠ .null)
    (h : Responds json handler (call.text json) metadata returned response) :
    ∃ output, response = some (.single output) ∧
      Dispatched handler metadata returned call output.toResult := by
  obtain ⟨polls, rfl, hresponse⟩ := h
  have hclient : (Request.single (.methodCall call)).isFromClient := by
    simp [Request.isFromClient, hjsonrpc]
  have hserves := serves_after metadata hjson hversion hclient polls
  have hhas : (Serving.after json handler (call.text json) metadata polls).future.HasId call.id :=
    Runs.run_invariant (I := fun s : Serving P M => s.future.HasId call.id)
      (hasId_handleRequest hread) (fun _ answers h => h.poll answers) polls
  change Serves handler metadata [.single (.methodCall call)]
    (Serving.after json handler (call.text json) metadata polls).returned
    (Serving.after json handler (call.text json) metadata polls).future at hserves
  generalize Serving.after json handler (call.text json) metadata polls = serving
    at hserves hhas hresponse
  obtain ⟨future, returned⟩ := serving
  cases hserves with
  | unreadable => cases hhas
  | call => cases hresponse
  | silent => cases hhas
  | @done output houtput =>
    cases hresponse
    refine ⟨output, rfl, ?_⟩
    rcases houtput with hnull | ⟨call', hcall', -, hdispatched⟩
    · exact absurd (Eq.trans (Eq.symm hhas) hnull) hid
    · cases List.mem_singleton.mp hcall'
      exact hdispatched

end Client

end JsonRpc
