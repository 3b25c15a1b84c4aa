import JsonRpc.Codec.FramedRead
import JsonRpc.Core.Serving
import JsonRpc.Ipc.SelectWithWeak

/-!
# A connection of the IPC server

The server decodes requests from a connection, and serves a number of them at the same time.
The responses, in the order in which they are ready, and the messages of the session, in the
order in which they were sent, are merged into one stream, which is forwarded to the writing
half of the connection. The session is closed when that is over.

One step of the model is one iteration of one of the loops of a poll, or something that
happens outside: bytes arrive, or a message of the session is sent. What the methods and the
writing half answer is part of the step. The writing half takes texts one after another.
-/

namespace JsonRpc.Ipc

open BufferUnordered

/-- What a connection needs to serve requests. -/
structure Service (P M : Type) where
  json : SerdeJson
  handler : MetaIoHandler P
  metadata : M
  codec : StreamCodec
  clientBufferSize : ℕ

/-- A request of the connection. -/
structure Job where
  /-- The position among all requests of the connection. -/
  number : ℕ
  text : String
  deriving DecidableEq

/-- What is written to the connection. -/
inductive Item where
  /-- The text of the response to a request. -/
  | response (job : Job) (text : String)
  /-- A message of the session. -/
  | notification (text : String)
  deriving DecidableEq

def Item.text : Item → String
  | response _ text => text
  | notification text => text

/-- A request with its response and what methods returned to it. -/
structure Answered (P M : Type) where
  job : Job
  response : Option Response
  returned : List (Returned P M)

/-- Where the future of the connection is. -/
inductive Phase where
  /-- Between two polls. -/
  | idle
  /-- Before the buffered item is given to the writing half. -/
  | sending
  /-- In the loop that takes an item from the two sources. -/
  | selecting (checkedStrong : Bool)
  /-- Before the writing half is flushed. -/
  | flushing
  /-- Before the writing half is closed. -/
  | closing
  /-- The session is closed. The flag tells an end from an error. -/
  | finished (ok : Bool)
  deriving DecidableEq

/-- A connection. The first six fields are those of the source. -/
structure Connection (P M : Type) where
  /-- The reading half, with the requests that are served. -/
  pool : Buffer FramedRead Job (Serving P M)
  /-- The messages of the session that are not taken. -/
  mailbox : List String
  useStrong : Bool
  /-- The merged stream has ended. -/
  ended : Bool
  /-- The item that is to be written. -/
  bufferedItem : Option Item
  phase : Phase
  /-- The bytes that arrived so far. -/
  arrived : Bytes
  /-- The messages of the session that were sent so far. -/
  notified : List String
  /-- The requests that were answered, in the order of their answers. -/
  answered : List (Answered P M)
  /-- What the writing half was given, in order. -/
  written : List Item

/-- What is answered in one iteration. Only the answers that the iteration asks for are
looked at. An answer `false` is an error. -/
structure PollAnswers where
  /-- The requests that are polled, by their positions, with what their methods answer. -/
  schedule : List (ℕ × (ℕ → Poll (Except Error Value)))
  /-- Whether the writing half is ready. -/
  ready : Poll Bool
  /-- Whether the writing half takes an item. -/
  startSend : Bool
  flush : Poll Bool
  close : Poll Bool

/-- What can happen. -/
inductive Label where
  /-- Something can be read. -/
  | arrive (read : Except IoError Bytes)
  /-- A message of the session is sent. -/
  | notify (text : String)
  /-- The future of the connection goes on. -/
  | poll (answers : PollAnswers)

variable {P M : Type}

/-- The next request of the reading half, with its future. -/
def Service.pull (service : Service P M) (reader : FramedRead) :
    FramedRead × Next IoError (Job × Serving P M) :=
  let (next, answer) := reader.pollNext service.codec
  (next,
    match answer with
    | .item text =>
      .item (⟨reader.taken.length, text⟩,
        .start service.json service.handler text service.metadata)
    | .error e => .error e
    | .done => .done
    | .pending => .pending)

/-- A stream that gives the same answer to every poll. -/
def FusedStream.const {α : Type} (answer : Poll (Option α)) : FusedStream α where
  answer _ := answer
  fused _ h := h

namespace Connection

/-- A new connection. -/
def init : Connection P M where
  pool := .new .new
  mailbox := []
  useStrong := false
  ended := false
  bufferedItem := none
  phase := .idle
  arrived := []
  notified := []
  answered := []
  written := []

/-- An iteration of the loop that merges the two sources, when the source whose turn it is
has given its answer. -/
def select (c : Connection P M) (checkedStrong : Bool)
    (answer : Poll (Option (Except IoError Item))) : Connection P M :=
  let this : SelectWithWeak (Except IoError Item) := ⟨.const answer, .const answer, c.useStrong⟩
  let (this, _, next) := this.iteration checkedStrong
  let c := { c with useStrong := this.useStrong }
  match next with
  | .inl checkedStrong => { c with phase := .selecting checkedStrong }
  | .inr (.ready (some (.ok item))) => { c with bufferedItem := some item, phase := .sending }
  | .inr (.ready (some (.error _))) => { c with phase := .finished false }
  | .inr (.ready none) => { c with ended := true, phase := .closing }
  | .inr .pending => { c with phase := .flushing }

/-- Poll the requests that are served. A request without a response is skipped, and the loop
goes on. -/
def pollStrong (service : Service P M) (c : Connection P M) (checkedStrong : Bool)
    (schedule : List (ℕ × (ℕ → Poll (Except Error Value)))) : Connection P M :=
  match c.pool.pollNext service.clientBufferSize service.pull Serving.poll schedule with
  | (pool, .item (job, response, returned)) =>
    let c := { c with pool, answered := c.answered ++ [⟨job, response, returned⟩] }
    match response with
    | some response =>
      c.select checkedStrong
        (.ready (some (.ok (.response job (writeResponse service.json response)))))
    | none => c
  | (pool, .error e) => { c with pool }.select checkedStrong (.ready (some (.error e)))
  | (pool, .done) => { c with pool }.select checkedStrong (.ready none)
  | (pool, .pending) => { c with pool }.select checkedStrong .pending

/-- Take a message of the session. -/
def pollWeak (c : Connection P M) (checkedStrong : Bool) : Connection P M :=
  match c.mailbox with
  | text :: mailbox =>
    { c with mailbox }.select checkedStrong (.ready (some (.ok (.notification text))))
  -- That the channel is closed makes no difference.
  | [] => c.select checkedStrong .pending

/-- Give the buffered item to the writing half. -/
def pollSend (c : Connection P M) (ready : Poll Bool) (startSend : Bool) : Connection P M :=
  match ready, c.bufferedItem with
  | .pending, _ => { c with phase := .idle }
  | .ready true, some item =>
    if startSend then
      { c with
        bufferedItem := none
        written := c.written ++ [item]
        phase := .selecting false }
    else { c with phase := .finished false }
  | .ready true, none => { c with phase := .selecting false }
  | .ready false, _ => { c with phase := .finished false }

/-- An iteration of a poll. -/
def poll (service : Service P M) (c : Connection P M) (answers : PollAnswers) : Connection P M :=
  match c.phase with
  | .idle =>
    if c.bufferedItem.isSome then { c with phase := .sending }
    else if c.ended then { c with phase := .closing }
    else { c with phase := .selecting false }
  | .sending => c.pollSend answers.ready answers.startSend
  | .selecting checkedStrong =>
    if c.useStrong then c.pollStrong service checkedStrong answers.schedule
    else c.pollWeak checkedStrong
  | .flushing =>
    match answers.flush with
    | .ready false => { c with phase := .finished false }
    | _ => { c with phase := .idle }
  | .closing =>
    match answers.close with
    | .pending => { c with phase := .idle }
    | .ready ok => { c with phase := .finished ok }
  | .finished _ => c

def step (service : Service P M) (c : Connection P M) : Label → Connection P M
  | .arrive read =>
    { c with
      pool.source := c.pool.source.arrive read
      arrived := c.arrived ++ readBytes [read] }
  | .notify text => { c with mailbox := c.mailbox ++ [text], notified := c.notified ++ [text] }
  | .poll answers => c.poll service answers

/-- The connection after a run. -/
def after (service : Service P M) (labels : List Label) : Connection P M :=
  Runs.run (step service) init labels

end Connection

end JsonRpc.Ipc
