import JsonRpc.Client.Websocket

/-!
# The queue of the websocket client

A request goes to the inner sink at once if the queue is empty, and to the end of the queue
otherwise. The answer to a ping goes to the front of the queue. Read the messages that the
inner sink has been given, and after them those of the queue: forwarding the queue does not
change this list, a request goes to its end, and an answer goes somewhere into it. So no
request is lost, and no request overtakes another.
-/

namespace JsonRpc

open SinkContract

/-- The behaviour of an inner sink that takes every message. -/
structure Readiness where
  ready : ℕ → Poll Bool
  flush : Poll Bool
  close : Poll Bool

def Readiness.answers (inner : Readiness) : SinkAnswers :=
  ⟨inner.ready, fun _ => true, inner.flush, inner.close⟩

namespace OwnedMessage

/-- The request of a message. -/
def request : OwnedMessage → Option String
  | text data => some data
  | _ => none

/-- The message is an answer to the server, and no request. -/
def isAnswer : OwnedMessage → Bool
  | text _ => false
  | _ => true

/-- The answer to a message of the server. -/
def answer : OwnedMessage → Option OwnedMessage
  | ping data => some (pong data)
  | close data => some (close data)
  | _ => none

end OwnedMessage

/-- The message of a call of the inner sink. -/
def sentMessage : SinkCall (OwnedMessage × Origin) → Option OwnedMessage
  | .send (message, _) => some message
  | _ => none

namespace WebsocketClient

/-- The messages that the inner sink was given. -/
def handedOver (c : WebsocketClient) : List OwnedMessage := c.sink.filterMap sentMessage

/-- The messages that the inner sink was given, and those of the queue. -/
def messages (c : WebsocketClient) : List OwnedMessage := c.handedOver ++ c.queue

/-- The messages that the stream takes from the inner stream in one poll. -/
def received : List (StreamAnswer OwnedMessage) → List OwnedMessage
  | .ready (some (some (.text data))) :: _ => [.text data]
  | .ready (some (some message)) :: answers => message :: received answers
  | _ => []

end WebsocketClient

/-- The client with the requests that it accepted, and the messages that it received. -/
structure WebsocketHistory where
  client : WebsocketClient
  accepted : List String
  received : List OwnedMessage

/-- An operation on the client. -/
inductive WebsocketOp where
  | startSend (request : String) (inner : Readiness)
  | pollReady (inner : Readiness)
  | pollFlush (inner : Readiness)
  | pollClose (inner : Readiness)
  | pollNext (answers : List (StreamAnswer OwnedMessage))

namespace WebsocketHistory

def init : WebsocketHistory := ⟨.new, [], []⟩

/-- One operation. The user may start to send at any time. -/
def step (h : WebsocketHistory) : WebsocketOp → WebsocketHistory
  | .startSend request inner =>
    let (client, isOk) := h.client.startSend request inner.answers
    { h with client, accepted := if isOk then h.accepted ++ [request] else h.accepted }
  | .pollReady inner => { h with client := (h.client.pollReady inner.answers).1 }
  | .pollFlush inner => { h with client := (h.client.pollFlush inner.answers).1 }
  | .pollClose inner => { h with client := (h.client.pollClose inner.answers).1 }
  | .pollNext answers =>
    { h with
      client := (h.client.pollNext answers).1
      received := h.received ++ WebsocketClient.received answers }

def after (ops : List WebsocketOp) : WebsocketHistory := Runs.run step init ops

/-- The requests are in order, and each message of the server has its answer. -/
structure InOrder (h : WebsocketHistory) : Prop where
  requests : h.client.handedOver.filterMap OwnedMessage.request ++
    h.client.queue.filterMap OwnedMessage.request = h.accepted
  answers : ((h.client.handedOver ++ h.client.queue).filter OwnedMessage.isAnswer).Perm
    (h.received.filterMap OwnedMessage.answer)
  /-- The inner sink is asked to flush only after the queue is empty. -/
  flush (inner : Readiness) : ∃ calls,
    (h.client.pollFlush inner.answers).1.sink = h.client.sink ++ calls ∧
      (.other ∈ calls → (h.client.pollFlush inner.answers).1.queue = [])

end WebsocketHistory

/-! ## What an operation does to the messages -/

namespace WebsocketClient

variable {c : WebsocketClient} {inner : Readiness}

/-- The messages of the calls, and the rest of the queue, are the queue. -/
theorem forward_messages (inner : Readiness) (queue : List OwnedMessage) (n : ℕ) :
    (forward inner.answers n queue).2.1.filterMap sentMessage ++
      (forward inner.answers n queue).1 = queue := by
  induction queue generalizing n with
  | nil => rfl
  | cons item queue ih =>
    have hsend : inner.answers.startSend n = true := rfl
    rw [forward, if_pos hsend]
    split
    · rename_i hempty
      rw [List.isEmpty_iff.mp hempty]
      rfl
    · split
      · exact congrArg (item :: ·) (ih (n + 1))
      · rfl
      · rfl

/-- Calls that give the inner sink nothing do not change the messages. -/
theorem messages_calls {call : SinkCall (OwnedMessage × Origin)}
    (hcall : sentMessage call = none) : (c.calls [call]).messages = c.messages := by
  have hsent : (c.calls [call]).handedOver = c.handedOver := by
    rw [handedOver, calls, List.filterMap_append, List.filterMap_cons_none hcall,
      List.filterMap_nil, List.append_nil, handedOver]
  exact congrArg (· ++ c.queue) hsent

theorem messages_tryEmptyBuffer : (c.tryEmptyBuffer inner.answers).1.messages = c.messages := by
  unfold tryEmptyBuffer
  split
  · have hforward := forward_messages inner c.queue 0
    dsimp only [messages, handedOver]
    rw [List.filterMap_append, List.filterMap_cons_none rfl, List.append_assoc, hforward]
  · exact messages_calls rfl
  · exact messages_calls rfl

theorem messages_emptyBufferThen (answer : Poll Bool) :
    (c.emptyBufferThen inner.answers answer).1.messages = c.messages := by
  have hmessages : (c.tryEmptyBuffer inner.answers).1.messages = c.messages :=
    messages_tryEmptyBuffer
  unfold emptyBufferThen
  split
  · rename_i c' heq
    rw [heq] at hmessages
    exact (messages_calls rfl).trans hmessages
  · rename_i c' result hne heq
    rw [heq] at hmessages
    exact hmessages

theorem messages_pollReady : (c.pollReady inner.answers).1.messages = c.messages := by
  have hmessages : (c.tryEmptyBuffer inner.answers).1.messages = c.messages :=
    messages_tryEmptyBuffer
  unfold pollReady
  split
  · exact messages_calls rfl
  · split
    · rename_i c' heq
      rw [heq] at hmessages
      exact hmessages
    · rename_i c' result hne heq
      rw [heq] at hmessages
      exact hmessages

/-- A request goes to the end, whether it goes through the queue or past it. -/
theorem messages_startSend (request : String) :
    (c.startSend request inner.answers).1.messages = c.messages ++ [.text request] ∧
      (c.startSend request inner.answers).2 = true := by
  unfold startSend
  split
  · rename_i hempty
    refine ⟨?_, rfl⟩
    dsimp only [messages, handedOver, calls]
    rw [List.isEmpty_iff.mp hempty, List.filterMap_append, List.append_nil, List.append_nil]
    rfl
  · exact ⟨(List.append_assoc _ _ _).symm, rfl⟩

/-- The stream puts the answers to what it takes before the queue. -/
theorem pollNext_client (answers : List (StreamAnswer OwnedMessage)) :
    (c.pollNext answers).1 =
      { c with
        queue := ((received answers).filterMap OwnedMessage.answer).reverse ++ c.queue } := by
  induction answers generalizing c with
  | nil => rfl
  | cons answer answers ih =>
    match answer with
    | .ready (some (some (.text data))) => rfl
    | .ready (some (some (.binary data))) => exact ih
    | .ready (some (some (.ping data))) =>
      have hreplies : (received (.ready (some (some (.ping data))) :: answers)).filterMap
          OwnedMessage.answer =
            .pong data :: (received answers).filterMap OwnedMessage.answer := rfl
      rw [pollNext, ih, hreplies, List.reverse_cons, List.append_assoc]
      rfl
    | .ready (some (some (.pong data))) => exact ih
    | .ready (some (some (.close data))) =>
      have hreplies : (received (.ready (some (some (.close data))) :: answers)).filterMap
          OwnedMessage.answer =
            .close data :: (received answers).filterMap OwnedMessage.answer := rfl
      rw [pollNext, ih, hreplies, List.reverse_cons, List.append_assoc]
      rfl
    | .ready none => rfl
    | .ready (some none) => rfl
    | .pending => rfl

/-- The loop ends with an empty queue, or fails or stops before. It does not flush. -/
theorem forward_queue (answers : SinkAnswers) (queue : List OwnedMessage) (n : ℕ) :
    ((forward answers n queue).2.2 = .ready true → (forward answers n queue).1 = []) ∧
      .other ∉ (forward answers n queue).2.1 := by
  induction queue generalizing n with
  | nil => exact ⟨fun _ => rfl, List.not_mem_nil⟩
  | cons item queue ih =>
    rw [forward]
    split
    · split
      · exact ⟨fun _ => rfl, by simp⟩
      · split
        · obtain ⟨hend, hother⟩ := ih (n + 1)
          exact ⟨hend, by simpa using hother⟩
        · exact ⟨(fun h => by cases h), by simp⟩
        · exact ⟨(fun h => by cases h), by simp⟩
    · exact ⟨(fun h => by cases h), by simp⟩

theorem tryEmptyBuffer_queue (c : WebsocketClient) (answers : SinkAnswers) :
    ((c.tryEmptyBuffer answers).2 = .ready true → (c.tryEmptyBuffer answers).1.queue = []) ∧
      ∃ calls, (c.tryEmptyBuffer answers).1.sink = c.sink ++ calls ∧ .other ∉ calls := by
  unfold tryEmptyBuffer
  split
  · obtain ⟨hend, hother⟩ := forward_queue answers c.queue 0
    exact ⟨hend, _, rfl, by simpa using hother⟩
  · exact ⟨(fun h => by cases h), [.ready false], rfl, by simp⟩
  · exact ⟨(fun h => by cases h), [.ready false], rfl, by simp⟩

/-- The inner sink is asked to flush only after the queue is empty. -/
theorem pollFlush_queue (c : WebsocketClient) (answers : SinkAnswers) :
    ∃ calls, (c.pollFlush answers).1.sink = c.sink ++ calls ∧
      (.other ∈ calls → (c.pollFlush answers).1.queue = []) := by
  obtain ⟨hend, calls, hsink, hother⟩ := c.tryEmptyBuffer_queue answers
  unfold pollFlush emptyBufferThen
  split
  · rename_i c' heq
    rw [heq] at hend hsink
    refine ⟨calls ++ [.other], ?_, fun _ => hend rfl⟩
    rw [WebsocketClient.calls, hsink, List.append_assoc]
  · rename_i c' result hne heq
    rw [heq] at hsink
    exact ⟨calls, hsink, fun hmem => absurd hmem hother⟩

end WebsocketClient

/-! ## Every run -/

namespace WebsocketHistory

open WebsocketClient

/-- The requests among the messages are those that were accepted, and the others are the
answers to what was received. -/
structure Inv (h : WebsocketHistory) : Prop where
  requests : h.client.messages.filterMap OwnedMessage.request = h.accepted
  answers : (h.client.messages.filter OwnedMessage.isAnswer).Perm
    (h.received.filterMap OwnedMessage.answer)

/-- What answers the server is no request. -/
theorem isAnswer_of_answer {message reply : OwnedMessage} (h : message.answer = some reply) :
    reply.isAnswer = true ∧ reply.request = none := by
  cases message with
  | ping data | close data =>
    cases h
    exact ⟨rfl, rfl⟩
  | text data | binary data | pong data => cases h

/-- An operation that keeps the messages keeps the invariant. -/
theorem Inv.of_messages {h : WebsocketHistory} (hinv : h.Inv) {client : WebsocketClient}
    (hmessages : client.messages = h.client.messages) : { h with client }.Inv :=
  ⟨hmessages ▸ hinv.requests, hmessages ▸ hinv.answers⟩

theorem Inv.step {h : WebsocketHistory} (hinv : h.Inv) (op : WebsocketOp) : (h.step op).Inv := by
  cases op with
  | startSend request inner =>
    obtain ⟨hmessages, hok⟩ := @messages_startSend h.client inner request
    constructor
    · dsimp only [WebsocketHistory.step]
      rw [hmessages, hok, if_pos rfl, List.filterMap_append, hinv.requests]
      rfl
    · dsimp only [WebsocketHistory.step]
      rw [hmessages, List.filter_append, List.filter_cons_of_neg Bool.false_ne_true,
        List.filter_nil, List.append_nil]
      exact hinv.answers
  | pollReady inner => exact hinv.of_messages messages_pollReady
  | pollFlush inner => exact hinv.of_messages (messages_emptyBufferThen _)
  | pollClose inner => exact hinv.of_messages (messages_emptyBufferThen _)
  | pollNext answers =>
    have hreplies :
        ∀ reply ∈ ((WebsocketClient.received answers).filterMap OwnedMessage.answer).reverse,
          reply.isAnswer = true ∧ reply.request = none := by
      intro reply hmem
      obtain ⟨message, -, hanswer⟩ := List.mem_filterMap.mp (List.mem_reverse.mp hmem)
      exact isAnswer_of_answer hanswer
    have hrequests := hinv.requests
    have hanswers := hinv.answers
    dsimp only [messages] at hrequests hanswers
    rw [List.filterMap_append] at hrequests
    rw [List.filter_append] at hanswers
    constructor
    · dsimp only [WebsocketHistory.step, messages]
      rw [pollNext_client, List.filterMap_append, List.filterMap_append,
        List.filterMap_eq_nil_iff.mpr fun reply hmem => (hreplies reply hmem).2, List.nil_append]
      exact hrequests
    · dsimp only [WebsocketHistory.step, messages]
      rw [pollNext_client, List.filter_append, List.filter_append,
        List.filter_eq_self.mpr fun reply hmem => (hreplies reply hmem).1,
        List.filterMap_append]
      -- The answers go before the queue, in the reverse of their order.
      refine (List.perm_append_comm.append_left _).trans ?_
      rw [← List.append_assoc]
      exact hanswers.append (List.reverse_perm _)

/-- **Order of requests.** After every run, the requests that the inner sink was given and
those of the queue are the accepted ones, in their order. -/
theorem inOrder_after (ops : List WebsocketOp) : (after ops).InOrder := by
  have hinv : (after ops).Inv :=
    Runs.run_invariant ⟨rfl, .refl _⟩ (fun _ op hinv => hinv.step op) ops
  refine ⟨?_, hinv.answers, fun inner => pollFlush_queue _ _⟩
  rw [← List.filterMap_append]
  exact hinv.requests

end WebsocketHistory

end JsonRpc
