import JsonRpc.Client.Duplex
import JsonRpc.Core.Handler

/-!
# The local client

The local client connects a duplex with a handler in the same process. What the
duplex writes is handled at once, and the text of the response is queued for the
duplex to read. The connection is split into a sink and a stream: the sink holds
one request back until the connection is ready for it.

When methods return is up to them. Every poll of a method is answered as part of
the step, and what the methods return is recorded.
-/

namespace JsonRpc

/-! ## Polling the futures of the handler -/

section Futures

variable {P M : Type}

/-- A result that a method returned. -/
structure Returned (P M : Type) where
  /-- The id of the call. -/
  id : Id
  /-- The method with the arguments it was given. -/
  invocation : Invocation P M
  /-- What it returned. -/
  result : Except Error Value
  deriving DecidableEq

namespace FutureRpcOutput

/-- Poll the future of a call, when its method answers with `answer`. -/
def poll (answer : Poll (Except Error Value)) : FutureRpcOutput P M → FutureRpcOutput P M
  | .call invocation id jsonrpc =>
    match answer with
    | .pending => .call invocation id jsonrpc
    | .ready result => .ready (some (Output.from result id jsonrpc))
  | .ready output => .ready output

/-- What the method of a call returns when it is polled. -/
def returned (answer : Poll (Except Error Value)) : FutureRpcOutput P M → List (Returned P M)
  | .call invocation id _ =>
    match answer with
    | .pending => []
    | .ready result => [⟨id, invocation, result⟩]
  | .ready _ => []

/-- The output of a future that is ready. -/
def output : FutureRpcOutput P M → Option (Option Output)
  | .call _ _ _ => none
  | .ready output => some output

end FutureRpcOutput

namespace FutureRpcResult

/-- Poll the future of a request, when the method at position `i` answers with
`answers i`. The futures of a batch are polled until all of them are ready. -/
def poll (answers : ℕ → Poll (Except Error Value)) : FutureRpcResult P M → FutureRpcResult P M
  | .single output => .single (output.poll (answers 0))
  | .batch outputs => .batch (outputs.mapIdx fun i output => output.poll (answers i))

/-- What the methods of a request return when they are polled. -/
def returned (answers : ℕ → Poll (Except Error Value)) : FutureRpcResult P M → List (Returned P M)
  | .single output => output.returned (answers 0)
  | .batch outputs => (outputs.mapIdx fun i output => output.returned (answers i)).flatten

/-- The response of a future that is ready. -/
def response : FutureRpcResult P M → Option (Option Response)
  | .single output => output.output.map outputAsResponse
  | .batch outputs => (outputs.mapM FutureRpcOutput.output).map outputsAsBatch

end FutureRpcResult

namespace FutureResult

def poll (answers : ℕ → Poll (Except Error Value)) : FutureResult P M → FutureResult P M
  | .ready response => .ready response
  | .request result => .request (result.poll answers)

def returned (answers : ℕ → Poll (Except Error Value)) : FutureResult P M → List (Returned P M)
  | .ready _ => []
  | .request result => result.returned answers

def response : FutureResult P M → Option (Option Response)
  | .ready response => some response
  | .request result => result.response

end FutureResult

end Futures

/-! ## The transport -/

section Transport

variable {P M : Type}

/-- What the transport works on. -/
inductive Buffered (P M : Type) where
  /-- A request that is handled. -/
  | request (future : FutureResult P M)
  /-- The text of a response. -/
  | response (text : String)
  | none

/-- The transport of the local client. The first four fields are those of the source. -/
structure LocalRpc (P M : Type) where
  /-- The handler. -/
  handler : MetaIoHandler P
  /-- The metadata of all requests. -/
  metadata : M
  /-- The request or response the transport works on. -/
  buffered : Buffered P M
  /-- The responses that are not read. -/
  queue : List String
  /-- The requests that were handled so far. -/
  handled : List String
  /-- What the methods returned so far. -/
  returned : List (Returned P M)

namespace LocalRpc

/-- A new transport. -/
def withMetadata (handler : MetaIoHandler P) (metadata : M) : LocalRpc P M where
  handler
  metadata
  buffered := .none
  queue := []
  handled := []
  returned := []

/-- Read a response. The transport holds a sender, so the queue never ends. -/
def pollNext (rpc : LocalRpc P M) : Poll (Option String) × LocalRpc P M :=
  match rpc.queue with
  | response :: queue => (.ready (some response), { rpc with queue })
  | [] => (.pending, rpc)

/-- Queue the response, if there is one. -/
def sendResponse (rpc : LocalRpc P M) : LocalRpc P M :=
  match rpc.buffered with
  | .response response => { rpc with buffered := .none, queue := rpc.queue ++ [response] }
  | _ => { rpc with buffered := .none }

/-- Poll the request that is handled. -/
def pollBuffered (json : SerdeJson) (answers : ℕ → Poll (Except Error Value))
    (rpc : LocalRpc P M) : Poll Unit × LocalRpc P M :=
  match rpc.buffered with
  | .request future =>
    let rpc := { rpc with
      buffered := .request (future.poll answers)
      returned := rpc.returned ++ future.returned answers }
    match (future.poll answers).response with
    | none => (.pending, rpc)
    | some (some response) =>
      (.ready (), { rpc with buffered := .response (writeResponse json response) }.sendResponse)
    | some none => (.ready (), rpc.sendResponse)
  | _ => (.ready (), rpc.sendResponse)

def pollReady (json : SerdeJson) (answers : ℕ → Poll (Except Error Value)) (rpc : LocalRpc P M) :
    Poll Unit × LocalRpc P M :=
  rpc.pollBuffered json answers

def pollFlush (json : SerdeJson) (answers : ℕ → Poll (Except Error Value)) (rpc : LocalRpc P M) :
    Poll Unit × LocalRpc P M :=
  rpc.pollBuffered json answers

/-- Handle a request. -/
def startSend (json : SerdeJson) (rpc : LocalRpc P M) (item : String) : LocalRpc P M :=
  { rpc with
    buffered := .request (rpc.handler.handleRequest json item rpc.metadata).future
    handled := rpc.handled ++ [item] }

end LocalRpc

/-- The transport, split into a sink and a stream. -/
structure SplitRpc (P M : Type) where
  /-- The transport. -/
  rpc : LocalRpc P M
  /-- The request that the sink holds back. -/
  slot : Option String

namespace SplitRpc

/-- The stream reads from the transport. -/
def pollNext (split : SplitRpc P M) : Poll (Option String) × SplitRpc P M :=
  let (answer, rpc) := split.rpc.pollNext
  (answer, { split with rpc })

/-- Give the request in the slot to the transport. -/
def pollFlushSlot (json : SerdeJson) (answers : ℕ → Poll (Except Error Value))
    (split : SplitRpc P M) : Poll Unit × SplitRpc P M :=
  match split.slot with
  | some item =>
    match split.rpc.pollReady json answers with
    | (.ready _, rpc) => (.ready (), { rpc := rpc.startSend json item, slot := none })
    | (.pending, rpc) => (.pending, { split with rpc })
  | none => (.ready (), split)

/-- The sink is ready when its slot is free. -/
def pollReady (json : SerdeJson) (answers : ℕ → Poll (Except Error Value))
    (split : SplitRpc P M) : Poll Unit × SplitRpc P M :=
  split.pollFlushSlot json answers

/-- The sink holds the request back. -/
def startSend (split : SplitRpc P M) (item : String) : SplitRpc P M :=
  { split with slot := some item }

/-- The sink is flushed when its slot is free and the transport is flushed. The
transport is polled twice if the slot was taken. -/
def pollFlush (json : SerdeJson) (answers answers' : ℕ → Poll (Except Error Value))
    (split : SplitRpc P M) : Poll Unit × SplitRpc P M :=
  match split.pollFlushSlot json answers with
  | (.ready _, split) =>
    let (answer, rpc) := split.rpc.pollFlush json answers'
    (answer, { split with rpc })
  | (.pending, split) => (.pending, split)

end SplitRpc

/-! ## The client and the handler -/

/-- The duplex of the local client with its transport. -/
structure LocalWorld (P M : Type) where
  /-- The duplex with its clients. -/
  duplex : World
  /-- The transport. -/
  split : SplitRpc P M

/-- A step of a client or of the duplex. A step of the duplex has the answers of the
methods that are polled in it. -/
inductive LocalLabel where
  | callMethod (method : String) (params : Params)
  | notify (method : String) (params : Params)
  | dropClients
  | dropCall (sender : ℕ)
  | poll (answers answers' : ℕ → Poll (Except Error Value))

namespace LocalWorld

/-- Connect a new client to a handler. -/
def connect (handler : MetaIoHandler P) (metadata : M) : LocalWorld P M where
  duplex := .init
  split := ⟨.withMetadata handler metadata, none⟩

/-- A poll of the sink that does not fail. -/
def sinkAnswer : Poll Unit → Poll Bool
  | .pending => .pending
  | .ready _ => .ready true

/-- What the transport answers in one iteration of the duplex, and what becomes of it. -/
def exchange (json : SerdeJson) (answers answers' : ℕ → Poll (Except Error Value))
    (s : LocalWorld P M) : TransportAnswers × SplitRpc P M :=
  match s.duplex.phase with
  | .stream =>
    let (stream, split) := s.split.pollNext
    (⟨stream, .pending, true, .pending⟩, split)
  | .outgoing =>
    let (ready, split) := s.split.pollReady json answers
    let sent := match ready, s.duplex.outgoing with
      | .ready _, request :: _ => split.startSend request
      | _, _ => split
    (⟨.pending, sinkAnswer ready, true, .pending⟩, sent)
  | .sink =>
    let (flush, split) := s.split.pollFlush json answers answers'
    (⟨.pending, .pending, true, sinkAnswer flush⟩, split)
  | _ => (⟨.pending, .pending, true, .pending⟩, s.split)

/-- One step. -/
def step (json : SerdeJson) (s : LocalWorld P M) : LocalLabel → LocalWorld P M
  | .callMethod method params =>
    { s with duplex := s.duplex.step json (.callMethod method params) }
  | .notify method params => { s with duplex := s.duplex.step json (.notify method params) }
  | .dropClients => { s with duplex := s.duplex.step json .dropClients }
  | .dropCall sender => { s with duplex := s.duplex.step json (.dropCall sender) }
  | .poll answers answers' =>
    let (transport, split) := s.exchange json answers answers'
    { duplex := s.duplex.step json (.poll transport), split }

/-- The client and the handler after a run. -/
def after (json : SerdeJson) (handler : MetaIoHandler P) (metadata : M) (ls : List LocalLabel) :
    LocalWorld P M :=
  Runs.run (step json) (connect handler metadata) ls

end LocalWorld

end Transport

end JsonRpc
