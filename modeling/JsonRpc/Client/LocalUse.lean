import JsonRpc.Client.Local
import JsonRpc.Lib.SinkContract

/-!
# Use of the local client

The transport of the local client is a sink of requests and a stream of responses. Its user asks
whether it is ready, gives it requests, flushes it, closes it and reads responses, in any order
that respects the contract of a sink. A future of a request is polled any number of times before
it completes, with the text of a response or without one.

The duplex never closes the transport. As long as nobody does, the transport here is the one
that the duplex uses.
-/

namespace JsonRpc.Local

open SinkContract

/-! ## The queue of responses -/

/-- An error of the queue. The transport returns it as `RpcError::Other`. -/
inductive SendError where
  | disconnected
  deriving DecidableEq

/-- The two ends of an unbounded queue. -/
structure UnboundedQueue where
  items : List String
  /-- The sender is connected. -/
  connected : Bool
  deriving DecidableEq

namespace UnboundedQueue

def unbounded : UnboundedQueue := ⟨[], true⟩

def startSend (q : UnboundedQueue) (item : String) : UnboundedQueue × Except SendError Unit :=
  if q.connected then ({ q with items := q.items ++ [item] }, .ok ())
  else (q, .error .disconnected)

def pollReady (q : UnboundedQueue) : Poll (Except SendError Unit) :=
  if q.connected then .ready (.ok ()) else .ready (.error .disconnected)

/-- There is nothing to flush. -/
def pollFlush (_ : UnboundedQueue) : Poll (Except SendError Unit) := .ready (.ok ())

/-- To close the queue disconnects its sender. -/
def pollClose (q : UnboundedQueue) : UnboundedQueue × Poll (Except SendError Unit) :=
  ({ q with connected := false }, .ready (.ok ()))

/-- A queue without a sender ends when it is empty. -/
def pollNext (q : UnboundedQueue) : UnboundedQueue × Poll (Option String) :=
  match q.items with
  | item :: items => ({ q with items }, .ready (some item))
  | [] => (q, if q.connected then .pending else .ready none)

end UnboundedQueue

/-! ## The transport -/

/-- A handler with the futures of its requests. A poll of a future depends on an answer of the
environment. -/
structure RequestFutures (F A : Type) where
  handleRequest : String → F
  poll : A → F → F × Poll (Option String)

namespace RequestFutures

variable {F A : Type} (H : RequestFutures F A)

/-- A future after a poll. -/
def next (future : F) (a : A) : F := (H.poll a future).1

/-- The answer of a future to a poll. -/
def answer (future : F) (a : A) : Poll (Option String) := (H.poll a future).2

end RequestFutures

/-- What the transport works on. Requests are numbered in the order in which they are
accepted. -/
inductive Buffered (F : Type) where
  /-- A request that is handled. -/
  | request (number : ℕ) (future : F)
  /-- The text of a response. -/
  | response (text : String)
  | none

/-- The transport of the local client. -/
structure LocalRpc (F : Type) where
  buffered : Buffered F
  queue : UnboundedQueue
  /-- The requests that were accepted so far. -/
  accepted : List String
  /-- The polls of the requests so far, with their numbers. Nothing reads them. -/
  polls : List (ℕ × Poll (Option String))

namespace LocalRpc

variable {F A : Type}

def new : LocalRpc F := ⟨.none, .unbounded, [], []⟩

/-- Read a response. -/
def pollNext (rpc : LocalRpc F) : LocalRpc F × Poll (Option String) :=
  let (queue, answer) := rpc.queue.pollNext
  ({ rpc with queue }, answer)

/-- Queue the response, if there is one. The place is free afterwards. -/
def sendResponse (rpc : LocalRpc F) : LocalRpc F × Poll (Except SendError Unit) :=
  match rpc.buffered with
  | .response text =>
    let (queue, result) := rpc.queue.startSend text
    ({ rpc with buffered := .none, queue }, .ready result)
  | _ => ({ rpc with buffered := .none }, .ready (.ok ()))

variable (H : RequestFutures F A)

/-- Poll the request that is handled. -/
def pollBuffered (a : A) (rpc : LocalRpc F) : LocalRpc F × Poll (Except SendError Unit) :=
  match rpc.buffered with
  | .request number future =>
    let (future, answer) := H.poll a future
    let rpc := { rpc with
      buffered := .request number future
      polls := rpc.polls ++ [(number, answer)] }
    match answer with
    | .pending => (rpc, .pending)
    | .ready (some text) => { rpc with buffered := .response text }.sendResponse
    | .ready none => rpc.sendResponse
  | _ => rpc.sendResponse

/-- Poll the request that is handled, and then the queue. -/
def pollBufferedThen (a : A) (poll : UnboundedQueue → Poll (Except SendError Unit))
    (rpc : LocalRpc F) : LocalRpc F × Poll (Except SendError Unit) :=
  match rpc.pollBuffered H a with
  | (rpc, .ready (.ok ())) => (rpc, poll rpc.queue)
  | (rpc, result) => (rpc, result)

def pollReady (a : A) (rpc : LocalRpc F) : LocalRpc F × Poll (Except SendError Unit) :=
  rpc.pollBufferedThen H a UnboundedQueue.pollReady

/-- Handle a request. -/
def startSend (rpc : LocalRpc F) (item : String) : LocalRpc F :=
  { rpc with
    buffered := .request rpc.accepted.length (H.handleRequest item)
    accepted := rpc.accepted ++ [item] }

def pollFlush (a : A) (rpc : LocalRpc F) : LocalRpc F × Poll (Except SendError Unit) :=
  rpc.pollBufferedThen H a UnboundedQueue.pollFlush

/-- Close the queue. The request that is handled is not polled. -/
def pollClose (rpc : LocalRpc F) : LocalRpc F × Poll (Except SendError Unit) :=
  let (queue, result) := rpc.queue.pollClose
  ({ rpc with queue }, result)

end LocalRpc

/-! ## Use of the transport -/

/-- The transport with the calls of its user and the responses that were read so far. -/
structure LocalUse (F : Type) where
  rpc : LocalRpc F
  calls : List (SinkCall String)
  taken : List String

/-- An operation on the transport. -/
inductive LocalUseLabel (A : Type) where
  | startSend (item : String)
  | pollReady (a : A)
  | pollFlush (a : A)
  | pollClose
  | pollNext

/-- The response that a poll reads. -/
def taken : Poll (Option String) → List String
  | .ready (some item) => [item]
  | _ => []

namespace LocalUse

variable {F A : Type} (H : RequestFutures F A)

def init : LocalUse F := ⟨.new, [], []⟩

/-- One operation. The user respects the contract of a sink, and starts to send only after the
transport was ready. -/
def step (u : LocalUse F) : LocalUseLabel A → LocalUse F
  | .startSend item =>
    if isReady u.calls then
      { u with rpc := u.rpc.startSend H item, calls := u.calls ++ [.send item] }
    else u
  | .pollReady a =>
    let (rpc, result) := u.rpc.pollReady H a
    { u with rpc, calls := u.calls ++ [.ready (result == .ready (.ok ()))] }
  | .pollFlush a => { u with rpc := (u.rpc.pollFlush H a).1, calls := u.calls ++ [.other] }
  | .pollClose => { u with rpc := u.rpc.pollClose.1, calls := u.calls ++ [.other] }
  | .pollNext =>
    let (rpc, answer) := u.rpc.pollNext
    { u with rpc, taken := u.taken ++ Local.taken answer }

def after (ls : List (LocalUseLabel A)) : LocalUse F := Runs.run (step H) init ls

/-- The responses that were read, followed by the ones that are queued. -/
def outputs (u : LocalUse F) : List String := u.taken ++ u.rpc.queue.items

end LocalUse

/-! ## The transport of a handler -/

section Handler

variable {P M : Type} (json : SerdeJson) (handler : MetaIoHandler P) (metadata : M)

/-- The futures of the requests of a handler, with the texts of their responses. -/
def handlerFutures : RequestFutures (FutureResult P M) (ℕ → Poll (Except Error Value)) where
  handleRequest item := (handler.handleRequest json item metadata).future
  poll answers future :=
    (future.poll answers,
      match (future.poll answers).response with
      | none => .pending
      | some response => .ready (response.map (writeResponse json)))

/-- The place without the number of the request. -/
def Buffered.unnumbered : Buffered (FutureResult P M) → JsonRpc.Buffered P M
  | .request _ future => .request future
  | .response text => .response text
  | .none => .none

/-- The answer of a transport that does not fail. -/
def succeeds : Poll Unit → Poll (Except SendError Unit)
  | .pending => .pending
  | .ready _ => .ready (.ok ())

/-- As long as the transport is not closed, it is the transport that the duplex of the local
client uses. -/
structure IsOpen (rpc : LocalRpc (FutureResult P M)) (used : JsonRpc.LocalRpc P M) : Prop where
  handler_eq : used.handler = handler
  metadata_eq : used.metadata = metadata
  buffered : rpc.buffered.unnumbered = used.buffered
  queue : rpc.queue = ⟨used.queue, true⟩
  accepted : rpc.accepted = used.handled

variable {json handler metadata} {rpc : LocalRpc (FutureResult P M)} {used : JsonRpc.LocalRpc P M}

theorem isOpen_new :
    IsOpen handler metadata .new (JsonRpc.LocalRpc.withMetadata handler metadata) :=
  ⟨rfl, rfl, rfl, rfl, rfl⟩

theorem IsOpen.startSend (h : IsOpen handler metadata rpc used) (item : String) :
    IsOpen handler metadata (rpc.startSend (handlerFutures json handler metadata) item)
      (used.startSend json item) := by
  obtain ⟨rfl, rfl, -, hqueue, haccepted⟩ := h
  exact ⟨rfl, rfl, rfl, hqueue, congrArg (· ++ [item]) haccepted⟩

theorem IsOpen.pollNext (h : IsOpen handler metadata rpc used) :
    IsOpen handler metadata rpc.pollNext.1 used.pollNext.2 ∧
      rpc.pollNext.2 = used.pollNext.1 := by
  obtain ⟨hhandler, hmetadata, hbuffered, hqueue, haccepted⟩ := h
  unfold LocalRpc.pollNext JsonRpc.LocalRpc.pollNext
  rw [hqueue]
  cases hitems : used.queue with
  | nil => exact ⟨⟨hhandler, hmetadata, hbuffered, by rw [hitems]; rfl, haccepted⟩, rfl⟩
  | cons item items => exact ⟨⟨hhandler, hmetadata, hbuffered, rfl, haccepted⟩, rfl⟩

theorem IsOpen.sendResponse (h : IsOpen handler metadata rpc used) :
    IsOpen handler metadata rpc.sendResponse.1 used.sendResponse ∧
      rpc.sendResponse.2 = .ready (.ok ()) := by
  obtain ⟨hhandler, hmetadata, hbuffered, hqueue, haccepted⟩ := h
  unfold LocalRpc.sendResponse JsonRpc.LocalRpc.sendResponse
  rw [← hbuffered, hqueue]
  cases rpc.buffered with
  | request number future => exact ⟨⟨hhandler, hmetadata, rfl, rfl, haccepted⟩, rfl⟩
  | response text => exact ⟨⟨hhandler, hmetadata, rfl, rfl, haccepted⟩, rfl⟩
  | none => exact ⟨⟨hhandler, hmetadata, rfl, rfl, haccepted⟩, rfl⟩

theorem IsOpen.pollBuffered (json : SerdeJson) (h : IsOpen handler metadata rpc used)
    (answers : ℕ → Poll (Except Error Value)) :
    IsOpen handler metadata
        (rpc.pollBuffered (handlerFutures json handler metadata) answers).1
        (used.pollBuffered json answers).2 ∧
      (rpc.pollBuffered (handlerFutures json handler metadata) answers).2 =
        succeeds (used.pollBuffered json answers).1 := by
  have hsend := h.sendResponse
  obtain ⟨hhandler, hmetadata, hbuffered, hqueue, haccepted⟩ := h
  unfold LocalRpc.pollBuffered JsonRpc.LocalRpc.pollBuffered
  rw [← hbuffered]
  cases rpc.buffered with
  | response text => exact hsend
  | none => exact hsend
  | request number future =>
    simp only [handlerFutures, Buffered.unnumbered]
    cases (future.poll answers).response with
    | none => exact ⟨⟨hhandler, hmetadata, rfl, hqueue, haccepted⟩, rfl⟩
    | some response =>
      have hopen : ∀ buffered polls returned, IsOpen handler metadata { rpc with buffered, polls }
          { used with buffered := buffered.unnumbered, returned } :=
        fun _ _ _ => ⟨hhandler, hmetadata, rfl, hqueue, haccepted⟩
      cases response with
      | none => exact (hopen (.request number (future.poll answers)) _ _).sendResponse
      | some response =>
        exact (hopen (.response (writeResponse json response)) _ _).sendResponse

/-- The queue is ready, and there is nothing to flush. -/
theorem IsOpen.pollBufferedThen (json : SerdeJson) (h : IsOpen handler metadata rpc used)
    (answers : ℕ → Poll (Except Error Value))
    {poll : UnboundedQueue → Poll (Except SendError Unit)}
    (hpoll : ∀ items, poll ⟨items, true⟩ = .ready (.ok ())) :
    IsOpen handler metadata
        (rpc.pollBufferedThen (handlerFutures json handler metadata) answers poll).1
        (used.pollBuffered json answers).2 ∧
      (rpc.pollBufferedThen (handlerFutures json handler metadata) answers poll).2 =
        succeeds (used.pollBuffered json answers).1 := by
  obtain ⟨hopen, hanswer⟩ := h.pollBuffered json answers
  unfold LocalRpc.pollBufferedThen
  split
  · rename_i rpc' hresult
    rw [hresult] at hopen hanswer
    refine ⟨hopen, ?_⟩
    rw [← hanswer, hopen.queue]
    exact hpoll _
  · rename_i hresult
    rw [hresult] at hopen hanswer
    exact ⟨hopen, hanswer⟩

theorem IsOpen.pollReady (json : SerdeJson) (h : IsOpen handler metadata rpc used)
    (answers : ℕ → Poll (Except Error Value)) :
    IsOpen handler metadata (rpc.pollReady (handlerFutures json handler metadata) answers).1
        (used.pollReady json answers).2 ∧
      (rpc.pollReady (handlerFutures json handler metadata) answers).2 =
        succeeds (used.pollReady json answers).1 :=
  h.pollBufferedThen json answers fun _ => rfl

theorem IsOpen.pollFlush (json : SerdeJson) (h : IsOpen handler metadata rpc used)
    (answers : ℕ → Poll (Except Error Value)) :
    IsOpen handler metadata (rpc.pollFlush (handlerFutures json handler metadata) answers).1
        (used.pollFlush json answers).2 ∧
      (rpc.pollFlush (handlerFutures json handler metadata) answers).2 =
        succeeds (used.pollFlush json answers).1 :=
  h.pollBufferedThen json answers fun _ => rfl

end Handler

end JsonRpc.Local
