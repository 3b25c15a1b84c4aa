import JsonRpc.Client.Duplex
import JsonRpc.Http.Request
import JsonRpc.Lib.BufferUnordered

/-!
# The HTTP client

The client over HTTP has no connection to multiplex. Its worker takes the messages of the
clients, turns each call and each notification into a POST request, keeps at most eight of
them going at the same time, and handles the responses in the order in which they arrive,
one after another. The response of a call goes to the channel that came with the call: the
id in the response plays no role.

One step of the model is one iteration of the loop that handles the responses, or something
a client does. What the HTTP library answers is part of the step.
-/

namespace JsonRpc.HttpClient

open BufferUnordered Http

/-- The libraries that the client uses. -/
structure Libraries where
  json : SerdeJson
  /-- `String::from_utf8_lossy`. -/
  fromUtf8Lossy : Bytes → String
  /-- The text of a status code. -/
  displayStatus : ℕ → String
  /-- What is UTF-8 is read as it is. -/
  fromUtf8Lossy_intoBytes : ∀ s, fromUtf8Lossy (intoBytes s) = s

/-- The errors of a call over HTTP. -/
inductive CallError where
  /-- An error that a client over any transport can have. -/
  | rpc (error : RpcError)
  /-- `RpcError::Other`: the error of the HTTP library. -/
  | other (error : HyperError)
  deriving DecidableEq

/-! ## The requests -/

/-- A request to the server, with the channel of the client that waits for the response. -/
structure Exchange where
  /-- The position among all requests. -/
  number : ℕ
  request : JsonRpc.Request
  sender : Option ℕ
  deriving DecidableEq

/-- The request that is sent for the text of a JSON-RPC request. -/
def post (path : Text) (text : String) : Http.Request where
  method := .post
  path := path
  headers :=
    [("content-type".toList, intoBytes "application/json"),
      ("accept".toList, intoBytes "application/json")]
  body := [.chunk (intoBytes text)]

/-- The messages of the clients, and the builder that turns them into requests. -/
structure Source where
  requestBuilder : RequestBuilder
  /-- The messages that are not taken. -/
  mailbox : List RpcMessage
  /-- Some client still holds a sender. -/
  clients : Bool
  /-- The requests so far. Nothing reads them except to number the next one. -/
  requested : List Exchange

namespace Source

/-- Hand out a request. -/
def request (source : Source) (requestBuilder : RequestBuilder) (mailbox : List RpcMessage)
    (request : JsonRpc.Request) (sender : Option ℕ) :
    Source × Next Empty (Exchange × Unit) :=
  let exchange := { number := source.requested.length, request, sender }
  ({ source with requestBuilder, mailbox, requested := source.requested ++ [exchange] },
    .item (exchange, ()))

/-- Take messages up to the first one that makes a request. Subscriptions are not supported
and are dropped. -/
def take (source : Source) : List RpcMessage → Source × Next Empty (Exchange × Unit)
  | .call method params sender :: mailbox =>
    let (call, requestBuilder) := source.requestBuilder.callRequest method params
    source.request requestBuilder mailbox (.single (.methodCall call)) (some sender)
  | .notify method params :: mailbox =>
    source.request source.requestBuilder mailbox (RequestBuilder.notification method params) none
  | .subscribe _ _ _ _ _ :: mailbox => source.take mailbox
  | [] => ({ source with mailbox := [] }, if source.clients then .pending else .done)

def pull (source : Source) : Source × Next Empty (Exchange × Unit) := source.take source.mailbox

end Source

/-! ## The responses -/

/-- What the HTTP library answers to a request: a status code, with a body to be read, or an
error. -/
abbrev Outcome := Except HyperError ℕ

/-- What is read from a response. -/
abbrev Fetched := Except CallError Bytes

def isSuccess (status : ℕ) : Bool := 200 ≤ status && status < 300

/-- The result of a call, from what was read of the response. -/
def Libraries.result (L : Libraries) (fetched : Fetched) : Except CallError Value :=
  match fetched with
  | .error e => .error e
  | .ok response =>
    match parseResponse L.json (L.fromUtf8Lossy response) with
    | .error e => .error (.rpc e)
    | .ok message => message.result.mapError .rpc

/-- Read a response. The body answers when it is polled. -/
def Libraries.fetch (L : Libraries) (outcome : Outcome) (body : Poll (Except HyperError Bytes)) :
    Poll Fetched :=
  match outcome with
  | .ok status =>
    if !isSuccess status then
      .ready (.error (.rpc
        (.client ("Unexpected response status code: " ++ L.displayStatus status))))
    else
      match body with
      | .pending => .pending
      | .ready (.error _) => .ready (.error (.rpc .parseError))
      | .ready (.ok bytes) => .ready (.ok bytes)
  | .error e => .ready (.error (.other e))

/-! ## The worker -/

/-- The worker with its clients. The first three fields are those of the worker. -/
structure Worker where
  /-- The requests that wait for a response. -/
  buffer : Buffer Source Exchange Unit
  /-- The response that is being read. -/
  handling : Option (Exchange × Outcome)
  isComplete : Bool
  /-- The number of the next oneshot channel. -/
  nextCall : ℕ
  /-- The calls whose receiver is dropped. -/
  droppedCalls : List ℕ
  /-- The messages that clients sent so far. -/
  sent : List RpcMessage
  /-- The requests whose response is read, with what was read. -/
  handled : List (Exchange × Fetched)
  /-- What the oneshot channels of calls received. -/
  delivered : List (ℕ × Except CallError Value)

/-- What can happen. -/
inductive Label where
  /-- A client calls a method. -/
  | call (method : String) (params : Params)
  /-- A client notifies the server. -/
  | notify (method : String) (params : Params)
  /-- A client asks for a subscription. -/
  | subscribe (subscribe : String) (params : Params) (notification unsubscribe : String)
  /-- The last client is dropped. -/
  | dropClients
  /-- The receiver of a call is dropped. -/
  | dropCall (sender : ℕ)
  /-- The worker goes on. The requests at the positions of the schedule are polled, in this
  order, or else the body that is being read. -/
  | poll (schedule : List (ℕ × Option Outcome)) (body : Poll (Except HyperError Bytes))

namespace Worker

def maxParallel : ℕ := 8

/-- A new worker with a client. -/
def init : Worker where
  buffer := .new ⟨.new, [], true, []⟩
  handling := none
  isComplete := false
  nextCall := 0
  droppedCalls := []
  sent := []
  handled := []
  delivered := []

/-- A client sends a message. -/
def send (w : Worker) (message : RpcMessage) : Worker :=
  { w with
    buffer.source.mailbox := w.buffer.source.mailbox ++ [message]
    sent := w.sent ++ [message] }

/-- Poll a request that waits for its response. The HTTP library answers. -/
def pollRequest (answer : Option Outcome) (_ : Unit) : Unit × Option Outcome := ((), answer)

/-- Poll the requests. -/
def pollBuffer (w : Worker) (schedule : List (ℕ × Option Outcome)) : Worker :=
  match w.buffer.pollNext maxParallel Source.pull pollRequest schedule with
  | (buffer, .item response) => { w with buffer, handling := some response }
  | (buffer, .done) => { w with buffer, isComplete := true }
  | (buffer, _) => { w with buffer }

/-- Send the result of a call, unless its receiver is dropped. -/
def sendResult (w : Worker) (sender : Option ℕ) (result : Except CallError Value) : Worker :=
  match sender with
  | some sender =>
    if sender ∈ w.droppedCalls then w
    else { w with delivered := w.delivered ++ [(sender, result)] }
  | none => w

/-- Read the response of a request. -/
def handle (L : Libraries) (w : Worker) (exchange : Exchange) (outcome : Outcome)
    (body : Poll (Except HyperError Bytes)) : Worker :=
  match L.fetch outcome body with
  | .pending => w
  | .ready fetched =>
    { w with handling := none, handled := w.handled ++ [(exchange, fetched)] }.sendResult
      exchange.sender (L.result fetched)

def poll (L : Libraries) (w : Worker) (schedule : List (ℕ × Option Outcome))
    (body : Poll (Except HyperError Bytes)) : Worker :=
  if w.isComplete then w
  else
    match w.handling with
    | some (exchange, outcome) => w.handle L exchange outcome body
    | none => w.pollBuffer schedule

def step (L : Libraries) (w : Worker) : Label → Worker
  | .call method params =>
    if w.buffer.source.clients then
      { w with nextCall := w.nextCall + 1 }.send (.call method params w.nextCall)
    else w
  | .notify method params =>
    if w.buffer.source.clients then w.send (.notify method params) else w
  | .subscribe subscribe params notification unsubscribe =>
    -- The channel of the subscription is dropped with the message, so it needs no number.
    if w.buffer.source.clients then
      w.send (.subscribe subscribe params notification unsubscribe 0)
    else w
  | .dropClients => { w with buffer.source.clients := false }
  | .dropCall sender => { w with droppedCalls := sender :: w.droppedCalls }
  | .poll schedule body => w.poll L schedule body

/-- The worker after a run. -/
def after (L : Libraries) (labels : List Label) : Worker := Runs.run (step L) init labels

end Worker

end JsonRpc.HttpClient
