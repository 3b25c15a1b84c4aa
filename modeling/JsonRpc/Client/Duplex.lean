import JsonRpc.Client.Transport
import JsonRpc.Lib.Runs
import Mathlib.Data.List.AList

/-!
# The duplex of the client

The duplex multiplexes the requests of all clients over one transport. Its poll
function runs through five loops: it takes messages from the clients, reads the
stream, handles what was read, writes to the sink and flushes it. One step of the
model is one iteration of one of these loops, or something the environment does:
a client sends a message, or drops the receiver of a call or of a subscription,
between any two iterations. What the transport answers is part of the step.

The trace records what happened, in order. Nothing in the duplex reads it.
-/

namespace JsonRpc

/-! ## State -/

/-- A subscription of a client. -/
structure Subscription where
  /-- The id received when subscribing. -/
  id : Option SubscriptionId
  /-- The method name of its notifications. -/
  notification : String
  /-- The method to unsubscribe. -/
  unsubscribe : String
  /-- The channel of the client, by its number. -/
  channel : ℕ
  deriving DecidableEq

/-- A request that waits for its response. -/
inductive PendingRequest where
  /-- A call, with the oneshot channel of the client, by its number. -/
  | call (sender : ℕ)
  /-- A subscription. -/
  | subscription (subscription : Subscription)
  deriving DecidableEq

/-- A message from a client to the duplex. -/
inductive RpcMessage where
  | call (method : String) (params : Params) (sender : ℕ)
  | notify (method : String) (params : Params)
  | subscribe (subscribe : String) (params : Params) (notification unsubscribe : String)
      (sender : ℕ)
  deriving DecidableEq

/-- Where the poll function is. -/
inductive Phase where
  /-- Between two polls. -/
  | idle
  /-- In the loop over the messages of the clients. -/
  | client
  /-- In the loop that reads the stream. -/
  | stream
  /-- In the loop over the queue of incoming messages. -/
  | incoming
  /-- In the loop that writes to the sink. -/
  | outgoing
  /-- Before the sink is flushed. -/
  | sink
  /-- The future has completed. -/
  | complete (result : RpcResult Unit)
  /-- An expected value was missing. -/
  | panicked
  deriving DecidableEq

/-- What happened in a run. -/
inductive Happening where
  /-- A client called a method and holds the receiver of this number. -/
  | called (sender : ℕ) (method : String) (params : Params)
  /-- The builder handed out an id. -/
  | issued (id : Id)
  /-- A request was registered as pending, and its text was queued. -/
  | registered (call : MethodCall) (text : String) (pending : PendingRequest)
  /-- The id of a request was pending already. -/
  | reused (id : Id)
  /-- The text of a request that no client waits for was queued. -/
  | queued (request : Request)
  /-- The sink was given a text. -/
  | sent (text : String)
  /-- The stream yielded a string. -/
  | received (response : String)
  /-- An incoming message was handled, and the pending request it consumed. -/
  | processed (message : Message) (consumed : Option PendingRequest)
  /-- The oneshot channel of a call received its result. -/
  | delivered (sender : ℕ) (result : RpcResult Value)
  /-- The channel of a subscription received a result. -/
  | notified (channel : ℕ) (result : RpcResult Value)
  deriving DecidableEq

/-- The duplex with its clients. The first six fields are those of the duplex. -/
structure World where
  /-- The builder of requests. -/
  requestBuilder : RequestBuilder
  /-- The channel from the clients is still there. -/
  channel : Bool
  /-- The requests without a response. -/
  pendingRequests : AList fun _ : Id => PendingRequest
  /-- The subscriptions by their id and the method of their notifications. -/
  subscriptions : AList fun _ : SubscriptionId × String => Subscription
  /-- The incoming messages that are not handled. -/
  incoming : List Message
  /-- The outgoing messages that are not written. -/
  outgoing : List String
  /-- Where the poll function is. -/
  phase : Phase
  /-- The messages of the clients that are not taken. -/
  mailbox : List RpcMessage
  /-- Some client still holds a sender. -/
  clients : Bool
  /-- The number of the next oneshot channel. -/
  nextCall : ℕ
  /-- The number of the next channel of a subscription. -/
  nextChannel : ℕ
  /-- The calls whose receiver is dropped. -/
  droppedCalls : List ℕ
  /-- The channels whose receiver is dropped. -/
  droppedChannels : List ℕ
  /-- What happened so far. -/
  trace : List Happening

namespace World

/-- A new duplex with a client. -/
def init : World where
  requestBuilder := .new
  channel := true
  pendingRequests := ∅
  subscriptions := ∅
  incoming := []
  outgoing := []
  phase := .idle
  mailbox := []
  clients := true
  nextCall := 0
  nextChannel := 0
  droppedCalls := []
  droppedChannels := []
  trace := []

/-- Record what happens. -/
def emit (w : World) (happenings : List Happening) : World :=
  { w with trace := w.trace ++ happenings }

/-! ## The loop over the messages of the clients -/

/-- What is recorded when a request is registered. -/
def registration (json : SerdeJson) (w : World) (call : MethodCall) (pending : PendingRequest) :
    List Happening :=
  [.issued call.id] ++
    (if (w.pendingRequests.lookup call.id).isSome then [.reused call.id] else []) ++
    [.registered call (call.text json) pending]

/-- Register a request as pending under its id, and queue its text. -/
def register (json : SerdeJson) (w : World) (request : MethodCall × RequestBuilder)
    (pending : PendingRequest) : World :=
  let (call, requestBuilder) := request
  { w with
    requestBuilder
    pendingRequests := w.pendingRequests.insert call.id pending
    outgoing := w.outgoing ++ [call.text json]
    trace := w.trace ++ w.registration json call pending }

/-- Handle a message of a client. -/
def handleClient (json : SerdeJson) (w : World) : RpcMessage → World
  | .call method params sender =>
    w.register json (w.requestBuilder.callRequest method params) (.call sender)
  | .subscribe subscribe params notification unsubscribe sender =>
    w.register json (w.requestBuilder.subscribeRequest subscribe params)
      (.subscription { id := none, notification, unsubscribe, channel := sender })
  | .notify method params =>
    let request := RequestBuilder.notification method params
    { w with
      outgoing := w.outgoing ++ [request.toString json]
      trace := w.trace ++ [.queued request] }

/-- One iteration of the loop over the messages of the clients. -/
def pollClient (json : SerdeJson) (w : World) : World :=
  if w.channel then
    match w.mailbox with
    | message :: mailbox => { w with mailbox }.handleClient json message
    | [] =>
      if w.clients then { w with phase := .stream }
      -- The outstanding requests are still finished when the channel is dropped.
      else { w with channel := false, phase := .stream }
  else { w with phase := .stream }

/-! ## The loop that reads the stream -/

/-- One iteration of the loop that reads the stream. -/
def pollStream (json : SerdeJson) (w : World) : Poll (Option String) → World
  | .ready (some response) =>
    let w := w.emit [.received response]
    match parseResponse json response with
    | .ok message => { w with incoming := w.incoming ++ [message] }
    | .error error => { w with phase := .complete (.error error) }
  | .ready none => { w with phase := .complete (.ok ()) }
  | .pending => { w with phase := .incoming }

/-! ## The loop over the queue of incoming messages -/

/-- Remove a pending request that a message consumes. -/
def consume (w : World) (message : Message) (pending : PendingRequest) : World :=
  { w with
    pendingRequests := w.pendingRequests.erase message.id
    trace := w.trace ++ [.processed message (some pending)] }

/-- Answer a call. -/
def answerCall (w : World) (sender : ℕ) (result : RpcResult Value) : World :=
  if sender ∈ w.droppedCalls then
    { w with phase := .complete (.error (.client "oneshot channel closed")) }
  else w.emit [.delivered sender result]

/-- Send a result to the channel of a subscription, if its receiver is there. -/
def notifyChannel (w : World) (channel : ℕ) (result : RpcResult Value) : World :=
  if channel ∈ w.droppedChannels then w else w.emit [.notified channel result]

/-- Turn the request for a subscription into a subscription, or reject it. -/
def answerSubscription (w : World) (subscription : Subscription) (result : RpcResult Value) :
    World :=
  match result.toOption.bind SubscriptionId.parseValue with
  | some sid =>
    { w with
      subscriptions := w.subscriptions.insert (sid, subscription.notification)
        { subscription with id := some sid } }
  | none => w.notifyChannel subscription.channel result

/-- Unsubscribe from a subscription whose receiver is dropped. -/
def unsubscribe (json : SerdeJson) (w : World) (key : SubscriptionId × String)
    (subscription : Subscription) : World :=
  match subscription.id with
  | some sid =>
    let (call, requestBuilder) :=
      w.requestBuilder.unsubscribeRequest subscription.unsubscribe sid
    { w with
      subscriptions := w.subscriptions.erase key
      requestBuilder
      outgoing := w.outgoing ++ [call.text json]
      trace := w.trace ++ [.issued call.id, .queued (.single (.methodCall call))] }
  | none => { w with phase := .panicked }

/-- Route a message that answers no pending request to its subscription. -/
def routeNotification (json : SerdeJson) (w : World) (message : Message) : World :=
  match message.sid.bind fun sid => message.method.map fun method => (sid, method) with
  | some key =>
    match w.subscriptions.lookup key with
    | some subscription =>
      if subscription.channel ∈ w.droppedChannels then w.unsubscribe json key subscription
      else w.notifyChannel subscription.channel message.result
    | none => w
  | none => w

/-- Handle an incoming message. -/
def handleIncoming (json : SerdeJson) (w : World) (message : Message) : World :=
  match w.pendingRequests.lookup message.id with
  | some (.call sender) => (w.consume message (.call sender)).answerCall sender message.result
  | some (.subscription subscription) =>
    (w.consume message (.subscription subscription)).answerSubscription subscription message.result
  | none => (w.emit [.processed message none]).routeNotification json message

section Lookup

variable {json : SerdeJson} {w : World} {m : Message}

theorem handleIncoming_of_call {sender : ℕ}
    (h : w.pendingRequests.lookup m.id = some (.call sender)) :
    w.handleIncoming json m = (w.consume m (.call sender)).answerCall sender m.result := by
  simp only [handleIncoming, h]

theorem handleIncoming_of_subscription {subscription : Subscription}
    (h : w.pendingRequests.lookup m.id = some (.subscription subscription)) :
    w.handleIncoming json m =
      (w.consume m (.subscription subscription)).answerSubscription subscription m.result := by
  simp only [handleIncoming, h]

theorem handleIncoming_of_none (h : w.pendingRequests.lookup m.id = none) :
    w.handleIncoming json m = (w.emit [.processed m none]).routeNotification json m := by
  simp only [handleIncoming, h]

end Lookup

/-- One iteration of the loop over the queue of incoming messages. -/
def pollIncoming (json : SerdeJson) (w : World) : World :=
  match w.incoming with
  | message :: incoming => { w with incoming }.handleIncoming json message
  | [] => { w with phase := .outgoing }

/-! ## Writing to the sink -/

/-- One iteration of the loop that writes to the sink. The sink answers whether
it is ready and, if it is given a request, whether it takes it. An answer `false`
is an error. -/
def pollOutgoing (w : World) (ready : Poll Bool) (startSend : Bool) : World :=
  match ready with
  | .ready true =>
    match w.outgoing with
    | request :: outgoing =>
      let w := { w with outgoing, trace := w.trace ++ [.sent request] }
      if startSend then w else { w with phase := .complete (.error (.client "closing")) }
    | [] => { w with phase := .sink }
  | .ready false => { w with phase := .complete (.error (.client "closing")) }
  | .pending => { w with phase := .sink }

/-- Flush the sink and complete if nothing is outstanding. An error of the sink
counts as flushed. -/
def pollSink (w : World) (flush : Poll Bool) : World :=
  if !w.channel && w.outgoing.isEmpty && w.incoming.isEmpty && w.pendingRequests.keys.isEmpty &&
      w.subscriptions.keys.isEmpty && flush.isReady
  then { w with phase := .complete (.ok ()) }
  else { w with phase := .idle }

end World

/-! ## Steps -/

/-- What the transport answers in one iteration. Only the answers that the
iteration asks for are looked at. -/
structure TransportAnswers where
  /-- What the stream answers. -/
  stream : Poll (Option String)
  /-- Whether the sink is ready. -/
  ready : Poll Bool
  /-- Whether the sink takes a request. -/
  startSend : Bool
  /-- Whether the sink is flushed. -/
  flush : Poll Bool

/-- A step of a client or of the duplex. -/
inductive Label where
  | callMethod (method : String) (params : Params)
  | notify (method : String) (params : Params)
  | subscribe (subscribe : String) (params : Params) (notification unsubscribe : String)
  /-- The last client drops its sender. -/
  | dropClients
  /-- The owner of a call drops its future. -/
  | dropCall (sender : ℕ)
  /-- The owner of a subscription drops its stream. -/
  | dropSubscription (channel : ℕ)
  /-- One iteration of the poll function. -/
  | poll (answers : TransportAnswers)

namespace World

/-- One iteration of the poll function. -/
def poll (json : SerdeJson) (w : World) (answers : TransportAnswers) : World :=
  match w.phase with
  | .idle => { w with phase := .client }
  | .client => w.pollClient json
  | .stream => w.pollStream json answers.stream
  | .incoming => w.pollIncoming json
  | .outgoing => w.pollOutgoing answers.ready answers.startSend
  | .sink => w.pollSink answers.flush
  | .complete _ | .panicked => w

section Phases

variable {json : SerdeJson} {w : World} {answers : TransportAnswers}

theorem poll_of_idle (h : w.phase = .idle) : w.poll json answers = { w with phase := .client } := by
  simp only [poll, h]

theorem poll_of_client (h : w.phase = .client) : w.poll json answers = w.pollClient json := by
  simp only [poll, h]

theorem poll_of_stream (h : w.phase = .stream) :
    w.poll json answers = w.pollStream json answers.stream := by
  simp only [poll, h]

theorem poll_of_incoming (h : w.phase = .incoming) : w.poll json answers = w.pollIncoming json := by
  simp only [poll, h]

theorem poll_of_outgoing (h : w.phase = .outgoing) :
    w.poll json answers = w.pollOutgoing answers.ready answers.startSend := by
  simp only [poll, h]

theorem poll_of_sink (h : w.phase = .sink) : w.poll json answers = w.pollSink answers.flush := by
  simp only [poll, h]

theorem poll_of_complete {r : RpcResult Unit} (h : w.phase = .complete r) :
    w.poll json answers = w := by
  simp only [poll, h]

theorem poll_of_panicked (h : w.phase = .panicked) : w.poll json answers = w := by
  simp only [poll, h]

end Phases

/-- One step. Without a client there is nobody to send a message. -/
def step (json : SerdeJson) (w : World) : Label → World
  | .callMethod method params =>
    if w.clients then
      { w with
        nextCall := w.nextCall + 1
        mailbox := w.mailbox ++ [.call method params w.nextCall]
        trace := w.trace ++ [.called w.nextCall method params] }
    else w
  | .notify method params =>
    if w.clients then { w with mailbox := w.mailbox ++ [.notify method params] } else w
  | .subscribe subscribe params notification unsubscribe =>
    if w.clients then
      { w with
        nextChannel := w.nextChannel + 1
        mailbox := w.mailbox ++
          [.subscribe subscribe params notification unsubscribe w.nextChannel] }
    else w
  | .dropClients => { w with clients := false }
  | .dropCall sender =>
    if sender < w.nextCall then { w with droppedCalls := sender :: w.droppedCalls } else w
  | .dropSubscription channel =>
    if channel < w.nextChannel then { w with droppedChannels := channel :: w.droppedChannels }
    else w
  | .poll answers => w.poll json answers

/-- The world after a run of a new duplex. -/
def after (json : SerdeJson) (ls : List Label) : World := Runs.run (step json) init ls

/-- The last step of a run. -/
theorem after_concat (json : SerdeJson) (ls : List Label) (l : Label) :
    after json (ls ++ [l]) = (after json ls).step json l :=
  Runs.run_concat _ _ _

end World

end JsonRpc
