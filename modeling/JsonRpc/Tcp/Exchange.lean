import JsonRpc.Client.EndToEnd
import JsonRpc.Codec.Transit
import JsonRpc.Core.Serving
import JsonRpc.Tcp.Server

/-!
# The exchange with a TCP peer

The task of a TCP connection reads requests, serves them one after another, and writes one
response for each of them, which is empty if the handler has none. The messages that the
dispatcher pushes are written in between.

One step of the model is one iteration of the task, or something that happens outside: bytes
arrive, or a message is pushed. What the methods of the request and the writing half answer is
part of the step. A message is pushed between two iterations.
-/

namespace JsonRpc.Tcp

open BufferUnordered (Next)

/-- What a connection needs to serve requests. -/
structure Service (P M : Type) where
  json : SerdeJson
  handler : MetaIoHandler P
  metadata : M
  codec : StreamCodec

variable {P M : Type}

/-! ## The stream of responses -/

/-- What is written for a request that was answered. -/
def reply (json : SerdeJson) (answered : Answered P M) : String :=
  response (.ok (answered.response.map (writeResponse json)))

/-- The answer is a response of the handler to the request. -/
def Service.Answers (service : Service P M) (answered : Answered P M) : Prop :=
  answered.IsResponse service.json service.handler service.metadata

/-- The stream of responses: the reading half, and the request that is served. -/
structure Responses (P M : Type) where
  reader : FramedRead
  serving : Option (String × Serving P M)

namespace Responses

/-- Poll the future of a request. -/
def pollServing (r : Responses P M) (request : String) (serving : Serving P M)
    (methods : ℕ → Poll (Except Error Value)) :
    Responses P M × Next IoError (Answered P M) :=
  match serving.poll methods with
  | (_, some (response, returned)) =>
    ({ r with serving := none }, .item ⟨request, response, returned⟩)
  | (serving, none) => ({ r with serving := some (request, serving) }, .pending)

/-- The next response. The next request is read when the last one is answered. -/
def pollNext (service : Service P M) (r : Responses P M)
    (methods : ℕ → Poll (Except Error Value)) :
    Responses P M × Next IoError (Answered P M) :=
  match r.serving with
  | some (request, serving) => r.pollServing request serving methods
  | none =>
    match r.reader.pollNext service.codec with
    | (reader, .item request) =>
      { r with reader }.pollServing request
        (.start service.json service.handler request service.metadata) methods
    | (reader, .error e) => ({ r with reader }, .error e)
    | (reader, .done) => ({ r with reader }, .done)
    | (reader, .pending) => ({ r with reader }, .pending)

end Responses

/-! ## The task -/

/-- What is written to the connection. -/
inductive Item where
  | response (text : String)
  | message (text : String)
  deriving DecidableEq

def Item.text : Item → String
  | response text => text
  | message text => text

/-- The response in an item. -/
def Item.asResponse : Item → Option String
  | response text => some text
  | message _ => none

/-- The message in an item. -/
def Item.asMessage : Item → Option String
  | response _ => none
  | message text => some text

/-- A connection with its peer. -/
structure Exchange (P M : Type) where
  responses : Responses P M
  /-- The messages that were pushed and not taken. -/
  receiver : Option (List String)
  /-- The item that the writer could not take yet. -/
  buffered : Option Item
  /-- The queue has answered that there is nothing more. -/
  isDone : Bool
  /-- The result of the task. -/
  result : Option (Except IoError Unit)
  /-- The bytes that arrived so far. -/
  arrived : Bytes
  /-- The peer has closed its side. -/
  closed : Bool
  /-- The messages that were pushed so far. -/
  pushed : List String
  /-- The requests that were answered. -/
  answered : List (Answered P M)
  /-- What the writing half was given, in order. -/
  written : List Item

/-- What is answered in one iteration. -/
structure PollAnswers where
  /-- What the methods of the request answer. -/
  methods : ℕ → Poll (Except Error Value)
  write : Poll (Except IoError Unit)
  flush : Poll (Except IoError Unit)

/-- What can happen to a connection. -/
inductive ExchangeLabel where
  /-- Something can be read. -/
  | arrive (read : Except IoError Bytes)
  | pushMessage (msg : String)
  | poll (answers : PollAnswers)

namespace Exchange

/-- A new connection. -/
def init : Exchange P M where
  responses := ⟨.new, none⟩
  receiver := some []
  buffered := none
  isDone := false
  result := none
  arrived := []
  closed := false
  pushed := []
  answered := []
  written := []

/-- Give an item to the writer. -/
def tryStartSend (x : Exchange P M) (item : Item) :
    Poll (Except IoError Unit) → Exchange P M × Poll (Except IoError Unit)
  | .ready (.ok ()) => ({ x with buffered := none, written := x.written ++ [item] }, .pending)
  | .ready (.error e) => (x, .ready (.error e))
  | .pending => ({ x with buffered := some item }, .pending)

/-- The answer of the stream of responses as that of a stream of texts. -/
def upOf (json : SerdeJson) : Next IoError (Answered P M) → Poll (Option (Except IoError String))
  | .item answered => .ready (some (.ok (reply json answered)))
  | .error e => .ready (some (.error e))
  | .done => .ready none
  | .pending => .pending

/-- What comes out of the queue is a response if there is one. -/
def itemOf (up : Next IoError (Answered P M)) (text : String) : Item :=
  match up with
  | .item _ => .response text
  | .error _ | .done | .pending => .message text

/-- Poll the queue of messages to the peer, and give what it yields to the writer. -/
def pollQueue (service : Service P M) (x : Exchange P M) (answers : PollAnswers) :
    Exchange P M × Poll (Except IoError Unit) :=
  let (responses, up) := x.responses.pollNext service answers.methods
  let x := { x with responses, answered := x.answered ++ up.items }
  match Tcp.pollNext (upOf service.json up) x.receiver with
  | (receiver, .ready (some (.ok text))) =>
    { x with receiver }.tryStartSend (itemOf up text) answers.write
  | (receiver, .ready (some (.error e))) => ({ x with receiver }, .ready (.error e))
  | (receiver, .ready none) => ({ x with receiver, isDone := true }, answers.flush)
  | (receiver, .pending) =>
    match answers.flush with
    | .ready (.error e) => ({ x with receiver }, .ready (.error e))
    | _ => ({ x with receiver }, .pending)

/-- One iteration of the task. -/
def sendAll (service : Service P M) (x : Exchange P M) (answers : PollAnswers) :
    Exchange P M × Poll (Except IoError Unit) :=
  match x.buffered with
  | some item => x.tryStartSend item answers.write
  | none => if x.isDone then (x, answers.flush) else x.pollQueue service answers

/-- The task ends, and drops what it owns. -/
def finish (x : Exchange P M) (result : Except IoError Unit) : Exchange P M :=
  { x with receiver := none, result := some result }

/-- The connection after an iteration of its task. -/
def settle : Exchange P M × Poll (Except IoError Unit) → Exchange P M
  | (x, .pending) => x
  | (x, .ready result) => x.finish result

def poll (service : Service P M) (x : Exchange P M) (answers : PollAnswers) : Exchange P M :=
  if x.result.isSome then x else settle (x.sendAll service answers)

def step (service : Service P M) (x : Exchange P M) : ExchangeLabel → Exchange P M
  | .arrive read =>
    -- No bytes come after the end of the input.
    if x.closed && !(readBytes [read]).isEmpty then x
    else
      { x with
        responses.reader := x.responses.reader.arrive read
        arrived := x.arrived ++ readBytes [read]
        closed := x.closed || FramedRead.isEnd read }
  | .pushMessage msg =>
    match x.receiver with
    | some queue => { x with receiver := some (queue ++ [msg]), pushed := x.pushed ++ [msg] }
    | none => x
  | .poll answers => x.poll service answers

/-- The connection after a run. -/
def after (service : Service P M) (labels : List ExchangeLabel) : Exchange P M :=
  Runs.run (step service) init labels

/-! ## The task of the server -/

/-- The connection in the state of the server. -/
def connection {A : Type} (peerAddr : A) (x : Exchange P M) : Connection A where
  peerAddr
  receiver := x.receiver
  buffered := x.buffered.map Item.text
  isDone := x.isDone
  result := x.result

/-- What the reader of the server answers in an iteration, with the result of the service. -/
def readerAnswer (json : SerdeJson) :
    Next IoError (Answered P M) → Poll (Option (Except IoError (Except Unit (Option String))))
  | .item answered => .ready (some (.ok (.ok (answered.response.map (writeResponse json)))))
  | .error e => .ready (some (.error e))
  | .done => .ready none
  | .pending => .pending

/-- The answers that the task of the server sees. -/
def serverAnswers (service : Service P M) (x : Exchange P M) (answers : PollAnswers) : Answers where
  reader := readerAnswer service.json (x.responses.pollNext service answers.methods).2
  write := answers.write
  flush := answers.flush

theorem connection_tryStartSend {A : Type} (peerAddr : A) (x : Exchange P M) (item : Item)
    (answers : Answers) :
    ((x.connection peerAddr).tryStartSend item.text answers) =
      ((x.tryStartSend item answers.write).1.connection peerAddr,
        (x.tryStartSend item answers.write).2) := by
  unfold Connection.tryStartSend
  split <;> simp_all [tryStartSend, connection]

/-- The responses of the server are those of the stream of responses. -/
theorem up_serverAnswers (service : Service P M) (x : Exchange P M) (answers : PollAnswers) :
    (x.serverAnswers service answers).up =
      upOf service.json (x.responses.pollNext service answers.methods).2 := by
  unfold serverAnswers Answers.up
  cases (x.responses.pollNext service answers.methods).2 <;> rfl

/-- **The exchange refines the task of the server.** An iteration does what the task of the
server does, when the reader answers what the requests give. -/
theorem connection_sendAll {A : Type} (peerAddr : A) (service : Service P M) (x : Exchange P M)
    (answers : PollAnswers) :
    (x.connection peerAddr).sendAll (x.serverAnswers service answers) =
      ((x.sendAll service answers).1.connection peerAddr, (x.sendAll service answers).2) := by
  have hwrite : (x.serverAnswers service answers).write = answers.write := rfl
  cases hbuffered : x.buffered with
  | some item =>
    have hsend := connection_tryStartSend peerAddr x item (x.serverAnswers service answers)
    rw [hwrite] at hsend
    simpa [Connection.sendAll, sendAll, connection, hbuffered] using hsend
  | none =>
    by_cases hdone : x.isDone = true
    · simp [Connection.sendAll, sendAll, connection, hbuffered, hdone, serverAnswers]
    · have hup := up_serverAnswers service x answers
      simp only [Connection.sendAll, sendAll, pollQueue, connection, hbuffered, hdone,
        Option.map_none, hup]
      generalize x.responses.pollNext service answers.methods = polled
      obtain ⟨responses, up⟩ := polled
      dsimp only
      generalize Tcp.pollNext (upOf service.json up) x.receiver = next
      obtain ⟨receiver, answer⟩ := next
      rcases answer with _ | _ | e | text
      · simp only [serverAnswers]
        rcases answers.flush with _ | e | _ <;> simp
      · simp [serverAnswers]
      · simp
      · have hitem : (itemOf up text).text = text := by cases up <;> rfl
        have hsend := connection_tryStartSend peerAddr
          { x with responses, answered := x.answered ++ up.items, receiver } (itemOf up text)
          (x.serverAnswers service answers)
        rw [hitem, hwrite] at hsend
        simpa [connection, hbuffered, hdone] using hsend

variable {A : Type} [DecidableEq A]

/-- The events at the server that belong to a step. Bytes arrive unnoticed. -/
def serverLabels (service : Service P M) (peerAddr : A) (x : Exchange P M) :
    ExchangeLabel → List (Label A)
  | .arrive _ => []
  | .pushMessage msg => [.pushMessage peerAddr msg]
  | .poll answers => [.poll 0 (x.serverAnswers service answers)]

/-- The events at a server that accepts the connection, and serves it. -/
def serverRun (service : Service P M) (peerAddr : A) (labels : List ExchangeLabel) :
    List (Label A) :=
  .accept peerAddr ::
    (Runs.outputs (step service) (serverLabels service peerAddr) init labels).flatten

/-- The server has the connection, and its peer is registered until the task ends well. -/
structure Represents (peerAddr : A) (σ : State A) (x : Exchange P M) : Prop where
  connections_eq : σ.connections = [x.connection peerAddr]
  lookup_eq : σ.channels.lookup peerAddr = if x.result = some (.ok ()) then none else some 0
  /-- The task owns the receiver. -/
  receiver_eq : x.result ≠ none → x.receiver = none

section Represents

variable {service : Service P M} {peerAddr : A} {σ : State A} {x : Exchange P M}

theorem represents_init (peerAddr : A) :
    Represents peerAddr (State.init.accept peerAddr) (init : Exchange P M) where
  connections_eq := rfl
  lookup_eq := AList.lookup_insert _
  receiver_eq h := absurd rfl h

/-- A message reaches the connection through the registry. -/
theorem Represents.pushMessage (h : Represents peerAddr σ x) (msg : String) :
    Represents peerAddr (σ.pushMessage peerAddr msg).1 (x.step service (.pushMessage msg)) := by
  have hget : σ.connections[0]? = some (x.connection peerAddr) := by
    rw [h.connections_eq]
    rfl
  cases hreceiver : x.receiver with
  | none =>
    have hsame : (σ.pushMessage peerAddr msg).1 = σ := by
      unfold State.pushMessage
      rw [h.lookup_eq]
      split
      · rename_i c hc
        split at hc
        · cases hc
        · cases hc
          rw [hget]
          simp [connection, hreceiver]
      · rfl
    rw [hsame, Exchange.step, hreceiver]
    exact h
  | some queue =>
    have hresult : x.result = none := by
      by_contra hne
      cases hreceiver.symm.trans (h.receiver_eq hne)
    have hlookup : σ.channels.lookup peerAddr = some 0 := by
      rw [h.lookup_eq, hresult]
      rfl
    rw [Exchange.step, hreceiver]
    refine ⟨?_, ?_, fun hne => absurd hresult hne⟩
    · simp [State.pushMessage, hlookup, connection, hreceiver, h.connections_eq]
    · simpa [State.pushMessage, hlookup, hget, connection, hreceiver] using h.lookup_eq

/-- An iteration of the task. -/
theorem Represents.poll (h : Represents peerAddr σ x) (answers : PollAnswers) :
    Represents peerAddr (σ.poll 0 (x.serverAnswers service answers)) (x.poll service answers) := by
  have hget : σ.connections[0]? = some (x.connection peerAddr) := by
    rw [h.connections_eq]
    rfl
  have hserved : (x.connection peerAddr).isServed = !x.result.isSome := by
    cases hresult : x.result <;> simp [Connection.isServed, connection, hresult]
  have hsend := connection_sendAll peerAddr service x answers
  have hframe := (x.connection peerAddr).sendAll_frame (x.serverAnswers service answers)
  unfold State.poll Exchange.poll
  rw [hget]
  dsimp only
  rw [hserved]
  cases hresult : x.result with
  | some result => exact h
  | none =>
    have hlookup : σ.channels.lookup peerAddr = some 0 := by
      rw [h.lookup_eq, hresult]
      rfl
    rw [hsend] at hframe ⊢
    generalize x.sendAll service answers = sent at hframe
    obtain ⟨x', answer⟩ := sent
    have hresult' : x'.result = none := hframe.2.trans hresult
    have hset (conn : Connection A) : σ.connections.set 0 conn = [conn] := by
      rw [h.connections_eq]
      rfl
    cases answer with
    | pending =>
      refine ⟨hset _, ?_, fun hne => absurd hresult' hne⟩
      change σ.channels.lookup peerAddr = if x'.result = some (.ok ()) then none else some 0
      rw [hresult']
      exact hlookup
    | ready result =>
      cases result with
      | error e => exact ⟨hset _, hlookup, fun _ => rfl⟩
      | ok _ => exact ⟨hset _, AList.lookup_erase peerAddr _, fun _ => rfl⟩

theorem Represents.step (h : Represents peerAddr σ x) (label : ExchangeLabel) :
    Represents peerAddr (Runs.run State.step σ (serverLabels service peerAddr x label))
      (x.step service label) := by
  cases label with
  | arrive read =>
    rw [Exchange.step]
    split
    · exact h
    · exact ⟨h.connections_eq, h.lookup_eq, h.receiver_eq⟩
  | pushMessage msg => exact h.pushMessage msg
  | poll answers => exact h.poll answers

end Represents

/-- **The exchange refines the server.** What happens to a connection happens to the connection
of a server that accepts it, and the server has its peer registered until the task ends well. -/
theorem represents_after (service : Service P M) (peerAddr : A) (labels : List ExchangeLabel) :
    Represents peerAddr (State.after (serverRun service peerAddr labels))
      (after service labels) := by
  induction labels using List.reverseRecOn with
  | nil => exact represents_init peerAddr
  | append_singleton labels label ih =>
    have hrun : serverRun service peerAddr (labels ++ [label]) =
        serverRun service peerAddr labels ++
          serverLabels service peerAddr (after service labels) label := by
      simp [serverRun, after]
    have hstep : after service (labels ++ [label]) = (after service labels).step service label :=
      Runs.run_concat _ labels label
    rw [hrun, hstep, State.after, Runs.run_append]
    exact ih.step label

end Exchange

/-! ## One request after another -/

/-- The requests that were read are those that were answered, `out`, and the one that is
served. -/
structure ResponsesInv (service : Service P M) (arrived : Bytes) (closed : Bool)
    (out : List String) (r : Responses P M) : Prop where
  reads : FramedRead.Reads service.codec arrived r.reader
  ends : FramedRead.Ends closed r.reader
  taken_eq : r.reader.taken = out ++ r.serving.toList.map Prod.fst
  /-- The future is the one of the request. -/
  isOf : ∀ job ∈ r.serving, job.2.IsOf service.json service.handler job.1 service.metadata

/-- What a poll of the stream of responses does. -/
structure ResponsesPolled (service : Service P M) (arrived : Bytes) (closed : Bool)
    (out : List String) (polled : Responses P M × Next IoError (Answered P M)) : Prop where
  inv : ResponsesInv service arrived closed (out ++ polled.2.items.map Answered.request) polled.1
  responds : ∀ answered ∈ polled.2.items, service.Answers answered
  done : polled.2 = .done → closed = true ∧ polled.1.serving = none ∧
    polled.1.reader.taken = service.codec.messages arrived

section Responses

variable {service : Service P M} {arrived : Bytes} {closed : Bool} {out : List String}
  {r : Responses P M}

/-- The future of a request is polled. -/
theorem polled_pollServing {request : String} {serving : Serving P M}
    (hreads : FramedRead.Reads service.codec arrived r.reader)
    (hends : FramedRead.Ends closed r.reader) (htaken : r.reader.taken = out ++ [request])
    (hisOf : serving.IsOf service.json service.handler request service.metadata)
    (methods : ℕ → Poll (Except Error Value)) :
    ResponsesPolled service arrived closed out (r.pollServing request serving methods) := by
  unfold Responses.pollServing
  cases hpoll : serving.poll methods with
  | mk next output =>
    cases output with
    | none =>
      obtain rfl : serving.next methods = next := congrArg Prod.fst hpoll
      refine ⟨⟨hreads, hends, by simpa [Next.items] using htaken, ?_⟩, by simp [Next.items],
        by simp⟩
      rintro job hjob
      cases hjob
      exact hisOf.next methods
    | some output =>
      obtain ⟨response, returned⟩ := output
      refine ⟨⟨hreads, hends, by simpa [Next.items] using htaken, by simp⟩, ?_, by simp⟩
      intro answered hmem
      rw [Next.items, List.mem_singleton] at hmem
      subst hmem
      exact hisOf.responds (congrArg Prod.snd hpoll)

theorem ResponsesInv.pollNext (h : ResponsesInv service arrived closed out r)
    (methods : ℕ → Poll (Except Error Value)) :
    ResponsesPolled service arrived closed out (r.pollNext service methods) := by
  unfold Responses.pollNext
  cases hserving : r.serving with
  | some job =>
    obtain ⟨request, serving⟩ := job
    refine polled_pollServing h.reads h.ends ?_ (h.isOf _ hserving) methods
    simpa [hserving] using h.taken_eq
  | none =>
    have htaken : r.reader.taken = out := by simpa [hserving] using h.taken_eq
    have hpolls := FramedRead.polls_pollNext h.reads
    have hends : FramedRead.Ends closed (r.reader.pollNext service.codec).1 := h.ends.pollLoop.1
    have hdone := FramedRead.messages_of_done h.reads h.ends
    dsimp only
    generalize r.reader.pollNext service.codec = polled at hpolls hends hdone
    obtain ⟨reader, answer⟩ := polled
    have htaken' : reader.taken = out ++ answer.items := by
      rw [← htaken]
      exact hpolls.taken_eq
    have hidle (hitems : answer.items = []) :
        ResponsesInv service arrived closed (out ++ []) ⟨reader, none⟩ :=
      ⟨hpolls.reads, hends, by simpa [hitems] using htaken', by simp⟩
    cases answer with
    | item request =>
      exact polled_pollServing hpolls.reads hends htaken' Serving.isOf_start methods
    | error e => exact ⟨hidle rfl, by simp [Next.items], by simp⟩
    | done => exact ⟨hidle rfl, by simp [Next.items], fun _ => ⟨(hdone rfl).1, rfl, (hdone rfl).2⟩⟩
    | pending => exact ⟨hidle rfl, by simp [Next.items], by simp⟩

end Responses

/-! ## The invariant -/

namespace Exchange

/-- What was written and what is to be written next. -/
def items (x : Exchange P M) : List Item := x.written ++ x.buffered.toList

/-- What holds of a connection after every run. -/
structure Inv (service : Service P M) (x : Exchange P M) : Prop where
  responses : ResponsesInv service x.arrived x.closed (x.answered.map Answered.request) x.responses
  /-- The answers are responses of the handler. -/
  responds : ∀ answered ∈ x.answered, service.Answers answered
  /-- The responses are written in the order of the requests. An error may lose the last one. -/
  replies_initial : x.items.filterMap Item.asResponse <+:
    x.answered.map (reply service.json)
  replies_eq : (∀ e, x.result ≠ some (.error e)) →
    x.items.filterMap Item.asResponse = x.answered.map (reply service.json)
  /-- The messages are written in their order. -/
  messages_initial : x.items.filterMap Item.asMessage <+: x.pushed
  messages_eq : ∀ queue, x.receiver = some queue →
    x.items.filterMap Item.asMessage ++ queue = x.pushed
  receiver : x.result = none → x.isDone = false → ∃ queue, x.receiver = some queue
  /-- At the end, all requests are answered. -/
  done : x.isDone = true → x.closed = true ∧ x.responses.serving = none ∧ x.buffered = none ∧
    x.responses.reader.taken = service.codec.messages x.arrived
  ended : x.result = some (.ok ()) → x.isDone = true

section Steps

variable {service : Service P M} {x : Exchange P M}

theorem inv_init (service : Service P M) : (init : Exchange P M).Inv service where
  responses := ⟨FramedRead.reads_new, FramedRead.ends_new _, rfl, by simp [init]⟩
  responds := by simp [init]
  replies_initial := by simp [init, items]
  replies_eq := by simp [init, items]
  messages_initial := by simp [init, items]
  messages_eq := by simp [init, items]
  receiver := by simp [init]
  done := by simp [init]
  ended := by simp [init]

/-- An error ends the task. -/
theorem Inv.finish_error (h : x.Inv service) (e : IoError) : (x.finish (.error e)).Inv service :=
  { h with
    replies_eq := fun hresult => absurd rfl (hresult e)
    messages_eq := by simp [finish]
    receiver := by simp [finish]
    ended := by simp [finish] }

/-- The task flushes the writing half, and ends well when there is nothing more. -/
theorem Inv.settle_flush (h : x.Inv service) (hresult : x.result = none) (hdone : x.isDone = true)
    (flush : Poll (Except IoError Unit)) : (settle (x, flush)).Inv service := by
  match flush with
  | .pending => exact h
  | .ready (.error e) => exact h.finish_error e
  | .ready (.ok ()) =>
    exact
      { h with
        replies_eq := fun _ => h.replies_eq (by simp [hresult])
        messages_eq := by simp [settle, finish]
        receiver := by simp [settle, finish]
        ended := fun _ => hdone }

/-- An item is given to the writing half. -/
theorem Inv.settle_tryStartSend (x : Exchange P M) {item : Item}
    (h : Inv service { x with buffered := some item })
    (hbuffered : x.buffered = none ∨ x.buffered = some item)
    (write : Poll (Except IoError Unit)) : (settle (x.tryStartSend item write)).Inv service := by
  have hdone : x.isDone ≠ true := fun hdone => by cases (h.done hdone).2.2.1
  match write with
  | .pending => exact h
  | .ready (.ok ()) =>
    have hitems : ({ x with buffered := none, written := x.written ++ [item] }).items =
        ({ x with buffered := some item }).items := by simp [items]
    exact
      { responses := h.responses
        responds := h.responds
        replies_initial := hitems ▸ h.replies_initial
        replies_eq := hitems ▸ h.replies_eq
        messages_initial := hitems ▸ h.messages_initial
        messages_eq := hitems ▸ h.messages_eq
        receiver := h.receiver
        done := fun h => absurd h hdone
        ended := h.ended }
  | .ready (.error e) =>
    have hitems : x.items <+: ({ x with buffered := some item }).items := by
      rcases hbuffered with hnone | hsome
      · simp [items, hnone]
      · simp [items, hsome]
    exact
      { responses := h.responses
        responds := h.responds
        replies_initial := (hitems.filterMap _).trans h.replies_initial
        replies_eq := fun hresult => absurd rfl (hresult e)
        messages_initial := (hitems.filterMap _).trans h.messages_initial
        messages_eq := by simp [tryStartSend, settle, finish]
        receiver := by simp [tryStartSend, settle, finish]
        done := fun h => absurd h hdone
        ended := by simp [tryStartSend, settle, finish] }

/-- The stream of responses is polled, and gives no response. -/
theorem Inv.polled (h : x.Inv service) (hdone : x.isDone = false) {responses : Responses P M}
    (hresponses : ResponsesInv service x.arrived x.closed (x.answered.map Answered.request)
      responses) :
    Inv service { x with responses } :=
  { h with
    responses := hresponses
    done := by simp [hdone] }

/-- The stream of responses is polled, and gives a response. -/
theorem Inv.answered (h : x.Inv service) (hbuffered : x.buffered = none) (hresult : x.result = none)
    (hdone : x.isDone = false) {responses : Responses P M} {a : Answered P M}
    (hresponses : ResponsesInv service x.arrived x.closed
      (x.answered.map Answered.request ++ [a.request]) responses)
    (ha : service.Answers a) :
    Inv service
      { x with
        responses
        answered := x.answered ++ [a]
        buffered := some (.response (reply service.json a)) } := by
  have hreplies := h.replies_eq (by simp [hresult])
  have heq : ({ x with
      responses
      answered := x.answered ++ [a]
      buffered := some (.response (reply service.json a)) }).items.filterMap Item.asResponse =
      (x.answered ++ [a]).map (reply service.json) := by
    simpa [items, hbuffered, Item.asResponse] using hreplies
  refine ⟨by simpa using hresponses, ?_, by rw [heq], fun _ => heq, ?_, ?_, h.receiver,
    by simp [hdone], h.ended⟩
  · intro answered hmem
    rcases List.mem_append.mp hmem with hmem | hmem
    · exact h.responds answered hmem
    · rw [List.mem_singleton] at hmem
      exact hmem ▸ ha
  · simpa [items, hbuffered, Item.asMessage, List.filterMap_cons] using h.messages_initial
  · simpa [items, hbuffered, Item.asMessage, List.filterMap_cons] using h.messages_eq

/-- A message is taken. -/
theorem Inv.message (h : x.Inv service) (hbuffered : x.buffered = none) (hdone : x.isDone = false)
    {msg : String} {queue : List String} (hreceiver : x.receiver = some (msg :: queue)) :
    Inv service { x with receiver := some queue, buffered := some (.message msg) } := by
  have hmessages := h.messages_eq _ hreceiver
  have heq : ({ x with
      receiver := some queue
      buffered := some (.message msg) }).items.filterMap Item.asMessage ++ queue = x.pushed := by
    simpa [items, hbuffered, Item.asMessage] using hmessages
  have hsame : ({ x with
      receiver := some queue
      buffered := some (.message msg) }).items.filterMap Item.asResponse =
      x.items.filterMap Item.asResponse := by
    simp [items, hbuffered, Item.asResponse, List.filterMap_cons]
  refine ⟨h.responses, h.responds, ?_, ?_, ⟨_, heq⟩, ?_, fun _ _ => ⟨_, rfl⟩, by simp [hdone],
    h.ended⟩
  · rw [hsame]
    exact h.replies_initial
  · rw [hsame]
    exact h.replies_eq
  · rintro _ ⟨⟩
    exact heq

theorem Inv.settle_message (h : x.Inv service) (hbuffered : x.buffered = none)
    (hdone : x.isDone = false) {msg : String} {queue : List String}
    (hreceiver : x.receiver = some (msg :: queue)) (write : Poll (Except IoError Unit)) :
    (settle ({ x with receiver := some queue }.tryStartSend (.message msg) write)).Inv service :=
  Inv.settle_tryStartSend { x with receiver := some queue } (h.message hbuffered hdone hreceiver)
    (.inl hbuffered) write

/-- There is nothing more. -/
theorem Inv.settle_done (h : x.Inv service) (hresult : x.result = none)
    (hclosed : x.closed = true) (hserving : x.responses.serving = none)
    (hbuffered : x.buffered = none)
    (htaken : x.responses.reader.taken = service.codec.messages x.arrived)
    (flush : Poll (Except IoError Unit)) :
    (settle ({ x with receiver := none, isDone := true }, flush)).Inv service := by
  have hinv : Inv service { x with receiver := none, isDone := true } :=
    { h with
      messages_eq := by simp
      receiver := by simp
      done := fun _ => ⟨hclosed, hserving, hbuffered, htaken⟩
      ended := fun _ => rfl }
  exact hinv.settle_flush hresult rfl flush

/-- The queue of messages is polled. -/
theorem Inv.settle_pollQueue (h : x.Inv service) (hresult : x.result = none)
    (hbuffered : x.buffered = none) (hdone : x.isDone = false) (answers : PollAnswers) :
    (settle (x.pollQueue service answers)).Inv service := by
  have hpolled := h.responses.pollNext answers.methods
  obtain ⟨queue, hreceiver⟩ := h.receiver hresult hdone
  unfold pollQueue
  generalize x.responses.pollNext service answers.methods = polled at hpolled
  obtain ⟨responses, up⟩ := polled
  have hinv := hpolled.inv
  have hidle (hitems : up.items = []) :
      Inv service { x with responses, answered := x.answered ++ up.items } := by
    rw [hitems, List.map_nil, List.append_nil] at hinv
    have hsame := h.polled hdone hinv
    rw [hitems, List.append_nil]
    exact hsame
  dsimp only
  cases up with
  | item a =>
    have hanswered := h.answered hbuffered hresult hdone (by simpa [Next.items] using hinv)
      (hpolled.responds a (by simp [Next.items]))
    exact Inv.settle_tryStartSend { x with responses, answered := x.answered ++ [a] } hanswered
      (.inl hbuffered) answers.write
  | error e => exact (hidle rfl).finish_error e
  | done =>
    obtain ⟨hclosed, hserving, htaken⟩ := hpolled.done rfl
    cases queue with
    | cons msg queue =>
      simp only [upOf, Tcp.pollNext, hreceiver]
      exact (hidle rfl).settle_message hbuffered hdone hreceiver answers.write
    | nil =>
      simp only [upOf, Tcp.pollNext, hreceiver]
      exact (hidle rfl).settle_done hresult hclosed hserving hbuffered htaken answers.flush
  | pending =>
    cases queue with
    | cons msg queue =>
      simp only [upOf, Tcp.pollNext, hreceiver]
      exact (hidle rfl).settle_message hbuffered hdone hreceiver answers.write
    | nil =>
      simp only [upOf, Tcp.pollNext, hreceiver]
      have hidle := hidle rfl
      simp only [hreceiver] at hidle
      rcases answers.flush with _ | e | _
      · exact hidle
      · exact hidle.finish_error e
      · exact hidle

/-- An iteration of the task keeps the invariant. -/
theorem Inv.poll (h : x.Inv service) (answers : PollAnswers) :
    (x.poll service answers).Inv service := by
  unfold Exchange.poll
  split
  · exact h
  · rename_i hrunning
    have hresult : x.result = none := by simpa using hrunning
    unfold sendAll
    split
    · rename_i item hbuffered
      refine Inv.settle_tryStartSend x ?_ (.inr hbuffered) answers.write
      rw [← hbuffered]
      exact h
    · rename_i hbuffered
      split
      · rename_i hdone
        exact h.settle_flush hresult hdone answers.flush
      · rename_i hdone
        exact h.settle_pollQueue hresult hbuffered (by simpa using hdone) answers

/-- Every step keeps the invariant. -/
theorem Inv.step (h : x.Inv service) (label : ExchangeLabel) :
    (x.step service label).Inv service := by
  cases label with
  | arrive read =>
    rw [Exchange.step]
    split
    · exact h
    · rename_i hbytes
      have hread : x.closed = true → readBytes [read] = [] := by simpa using hbytes
      refine
        { h with
          responses := ⟨h.responses.reads.arrive read, h.responses.ends.arrive hread,
            h.responses.taken_eq, h.responses.isOf⟩
          done := fun hdone => ?_ }
      obtain ⟨hclosed, hserving, hbuffered, htaken⟩ := h.done hdone
      refine ⟨by simp [hclosed], hserving, hbuffered, ?_⟩
      simpa [hread hclosed, FramedRead.arrive] using htaken
  | pushMessage msg =>
    rw [Exchange.step]
    split
    · rename_i queue hreceiver
      have hmessages := h.messages_eq queue hreceiver
      refine
        { h with
          messages_initial := h.messages_initial.trans (List.prefix_append _ _)
          messages_eq := ?_
          receiver := fun _ _ => ⟨_, rfl⟩ }
      rintro _ ⟨⟩
      change x.items.filterMap Item.asMessage ++ (queue ++ [msg]) = x.pushed ++ [msg]
      rw [← hmessages, List.append_assoc]
    · exact h
  | poll answers => exact h.poll answers

theorem inv_after (service : Service P M) (labels : List ExchangeLabel) :
    (after service labels).Inv service :=
  Runs.run_invariant (inv_init service) (fun _ label h => h.step label) labels

/-- What was written are the first responses. -/
theorem Inv.written_initial (h : x.Inv service) :
    x.written.filterMap Item.asResponse <+: x.answered.map (reply service.json) := by
  refine List.IsPrefix.trans ?_ h.replies_initial
  rw [items, List.filterMap_append]
  exact List.prefix_append _ _

/-- The requests that were answered are the first messages. -/
theorem Inv.answered_initial (h : x.Inv service) :
    x.answered.map Answered.request <+: x.responses.reader.taken := by
  rw [h.responses.taken_eq]
  exact List.prefix_append _ _

end Steps

/-- **One response for each request, in order.** In every run, the requests that are answered
are the first messages of the bytes that arrived, each answer is a response of the handler, and
what is written consists of the responses in the order of the requests, and of messages in the
order in which they were pushed. If the task ends well, every message that arrived is answered,
and every response is written. -/
theorem written_in_order (service : Service P M) (labels : List ExchangeLabel) :
    let x := after service labels
    x.answered.map Answered.request <+: service.codec.messages x.arrived ∧
      (∀ answered ∈ x.answered, service.Answers answered) ∧
      x.written.filterMap Item.asResponse <+: x.answered.map (reply service.json) ∧
      x.written.filterMap Item.asMessage <+: x.pushed ∧
      (x.result = some (.ok ()) →
        x.answered.map Answered.request = service.codec.messages x.arrived ∧
          x.written.filterMap Item.asResponse = x.answered.map (reply service.json)) := by
  intro x
  have h : x.Inv service := inv_after service labels
  refine ⟨h.answered_initial.trans h.responses.reads.taken_initial, h.responds, h.written_initial,
    ?_, fun hended => ?_⟩
  · refine List.IsPrefix.trans ?_ h.messages_initial
    rw [items, List.filterMap_append]
    exact List.prefix_append _ _
  · obtain ⟨-, hserving, hbuffered, htaken⟩ := h.done (h.ended hended)
    have hanswered := h.responses.taken_eq
    have hreplies := h.replies_eq (by simp [hended])
    rw [hserving] at hanswered
    rw [items, hbuffered] at hreplies
    rw [← htaken, hanswered]
    exact ⟨by simp, by simpa using hreplies⟩

/-- **The line protocol.** A peer sends requests as lines and reads lines back, while nothing is
pushed. However the bytes are cut into pieces on both ways, the line that it reads at a position
is the response of the handler to the request that it sent at this position. -/
theorem line_answers_request (service : Service P M) {separator : UInt8}
    (hcodec : service.codec = ⟨.byte separator, .byte separator⟩) (labels : List ExchangeLabel)
    (hpushed : (after service labels).pushed = []) {requests : List String}
    (hrequests : ∀ text ∈ requests, separator ∉ intoBytes text) {rest : Bytes}
    (hsent : (after service labels).arrived ++ rest = service.codec.encodeAll requests)
    (hreplies : ∀ item ∈ (after service labels).written, separator ∉ intoBytes item.text)
    {received transit : Bytes}
    (hreceived : received ++ transit =
      service.codec.encodeAll ((after service labels).written.map Item.text))
    {i : ℕ} {line : String}
    (hline : (service.codec.messages received)[i]? = some line) :
    ∃ answered : Answered P M, requests[i]? = some answered.request ∧
      service.Answers answered ∧ line = reply service.json answered := by
  have h := inv_after service labels
  generalize after service labels = x at h hpushed hsent hreplies hreceived
  obtain ⟨hincoming, houtgoing⟩ : service.codec.incomingSeparator = .byte separator ∧
      service.codec.outgoingSeparator = .byte separator := by simp [hcodec]
  -- Without messages, what is written are the responses.
  have hmessages : x.items.filterMap Item.asMessage = [] := by
    have hinitial := h.messages_initial
    rw [hpushed] at hinitial
    exact List.prefix_nil.mp hinitial
  have htexts : x.written.map Item.text = x.written.filterMap Item.asResponse := by
    rw [← List.filterMap_eq_map]
    refine List.filterMap_congr fun item hmem => ?_
    have hnone := List.filterMap_eq_nil_iff.mp hmessages item (List.mem_append_left _ hmem)
    cases item with
    | response text => rfl
    | message text => cases hnone
  have hwritten : (x.written.map Item.text)[i]? = some line := by
    have hlines := messages_encodeAll_line hincoming houtgoing (List.forall_mem_map.mpr hreplies)
    rw [← hlines, ← hreceived]
    exact getElem?_of_initial (service.codec.messages_initial received transit) hline
  rw [htexts] at hwritten
  have hreply := getElem?_of_initial h.written_initial hwritten
  rw [List.getElem?_map] at hreply
  obtain ⟨answered, hanswered, rfl⟩ := Option.map_eq_some_iff.mp hreply
  refine ⟨answered, ?_, h.responds answered (List.mem_of_getElem? hanswered), rfl⟩
  have htaken : x.responses.reader.taken <+: requests := by
    have hreads := h.responses.reads rest
    rw [hsent, messages_encodeAll_line hincoming houtgoing hrequests] at hreads
    exact ⟨_, hreads.symm⟩
  refine getElem?_of_initial (h.answered_initial.trans htaken) ?_
  rw [List.getElem?_map, hanswered]
  rfl

end Exchange

/-! ## A call over TCP -/

/-- A server with the method of the call. -/
def pongTcp : Service Unit Unit := ⟨pongJson, pongHandler, (), ⟨.byte 0x0A, .byte 0x0A⟩⟩

/-- A call of `pong`. -/
def pongLine : String := "\x7b\"jsonrpc\":\"2.0\",\"method\":\"pong\",\"params\":null,\"id\":0\x7d"

/-- The line arrives in two pieces, and the method returns. -/
def pongArrives : List ExchangeLabel :=
  [.arrive (.ok ((intoBytes pongLine).take 20)),
    .poll ⟨fun _ => .pending, .ready (.ok ()), .pending⟩,
    .arrive (.ok ((intoBytes pongLine).drop 20 ++ [0x0A])),
    .poll ⟨fun _ => .ready (.ok (.bool true)), .ready (.ok ()), .pending⟩]

/-- The peer reads the response. -/
theorem Exchange.line_answers_request_pong :
    ∃ answered : Answered Unit Unit, [pongLine][0]? = some answered.request ∧
      pongTcp.Answers answered ∧
      "\x7b\"jsonrpc\":\"2.0\",\"result\":true,\"id\":0\x7d" = reply pongJson answered := by
  have hrequests : ∀ text ∈ [pongLine], 0x0A ∉ intoBytes text := by decide +kernel
  have hsent : (Exchange.after pongTcp pongArrives).arrived ++ [] =
      pongTcp.codec.encodeAll [pongLine] := by decide +kernel
  have hreplies : ∀ item ∈ (Exchange.after pongTcp pongArrives).written,
      0x0A ∉ intoBytes item.text := by decide +kernel
  have hline : (pongTcp.codec.messages (pongTcp.codec.encodeAll
      ((Exchange.after pongTcp pongArrives).written.map Item.text)))[0]? =
      some "\x7b\"jsonrpc\":\"2.0\",\"result\":true,\"id\":0\x7d" := by
    rw [messages_encodeAll_line rfl rfl (List.forall_mem_map.mpr hreplies)]
    decide +kernel
  exact Exchange.line_answers_request pongTcp rfl pongArrives (by decide +kernel) hrequests hsent
    hreplies (List.append_nil _) hline

end JsonRpc.Tcp
