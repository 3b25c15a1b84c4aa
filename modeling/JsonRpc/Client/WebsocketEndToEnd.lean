import JsonRpc.Client.Answering
import JsonRpc.Client.Routing
import JsonRpc.Client.WebsocketQueue
import JsonRpc.Ws.Sending

/-!
# The WebSocket client and the WebSocket server

The WebSocket client runs a duplex over its queue of messages. Messages are on their way in both
directions, with the control messages of the libraries between them. A message of the client may
get lost, since the client may give it to a sink that is not ready for it. The handshake has
happened before: the client is created when the server has answered it.

The server handles requests in the order in which they were sent, and each of them once. So the
result of a call is the one of dispatching it, although the tasks respond in any order.
-/

namespace JsonRpc

/-! ## The queue of the client -/

namespace WebsocketClient

variable {c : WebsocketClient}

theorem sink_tryEmptyBuffer (c : WebsocketClient) (answers : SinkAnswers) :
    c.sink <+: (c.tryEmptyBuffer answers).1.sink := by
  obtain ⟨-, calls, hsink, -⟩ := c.tryEmptyBuffer_queue answers
  exact ⟨calls, hsink.symm⟩

theorem sink_pollReady (c : WebsocketClient) (answers : SinkAnswers) :
    c.sink <+: (c.pollReady answers).1.sink := by
  have hsink := c.sink_tryEmptyBuffer answers
  unfold pollReady
  split
  · exact List.prefix_append _ _
  · split
    · rename_i c' heq
      rwa [heq] at hsink
    · rename_i c' result hne heq
      rwa [heq] at hsink

theorem sink_startSend (c : WebsocketClient) (request : String) (answers : SinkAnswers) :
    c.sink <+: (c.startSend request answers).1.sink := by
  unfold startSend
  split
  · exact List.prefix_append _ _
  · exact List.prefix_rfl

theorem sink_pollFlush (c : WebsocketClient) (answers : SinkAnswers) :
    c.sink <+: (c.pollFlush answers).1.sink := by
  obtain ⟨calls, hsink, -⟩ := c.pollFlush_queue answers
  exact ⟨calls, hsink.symm⟩

end WebsocketClient

namespace Ws

open ServerUtils

/-! ## The two sides -/

/-- What the inner stream of the client answers after its messages. -/
inductive StreamEnd where
  | pending
  | closed
  | failed
  deriving DecidableEq

def StreamEnd.answer : StreamEnd → StreamAnswer OwnedMessage
  | pending => .pending
  | closed => .ready none
  | failed => .ready (some none)

/-- What the transport answers to an iteration of the duplex. -/
structure PollAnswers where
  inner : Readiness
  /-- The number of messages that the inner stream has. -/
  available : ℕ
  last : StreamEnd

/-- The stream of the duplex ends with the first error. -/
def streamAnswer : StreamAnswer String → Poll (Option String)
  | .ready (some (some text)) => .ready (some text)
  | .ready (some none) | .ready none => .ready none
  | .pending => .pending

/-- A client and a server with a connection between them. -/
structure ClientServer (S : Slab (Option ℕ)) (G : Globset) (P M : Type) where
  duplex : World
  client : WebsocketClient
  /-- The messages on their way to the server. -/
  toServer : List OwnedMessage
  connection : Connection S G P M
  /-- The messages on their way to the client. -/
  toClient : List OwnedMessage

namespace ClientServer

/-- What can happen. -/
inductive Label where
  /-- A step of a client. -/
  | client (label : JsonRpc.Label)
  /-- An iteration of the duplex. -/
  | poll (answers : PollAnswers)
  /-- A step of the server, other than the receipt of a message. -/
  | server (label : Connection.Label)
  /-- The library of the server sends a message that is no text. -/
  | control (message : OwnedMessage)
  /-- A message arrives at the server. -/
  | arrive
  /-- A message to the server is lost. -/
  | lose

variable {S : Slab (Option ℕ)} {G : Globset} {L : Library} {P M : Type}

/-- The two sides after the handshake. -/
def init (S : Slab (Option ℕ)) (service : Service G L P M) (sessionId : SessionId) (req : Request) :
    ClientServer S G P M :=
  ⟨.init, .new, [], .after S service sessionId [.request req], []⟩

/-- An iteration of the duplex, after its transport has answered. -/
def turn (json : SerdeJson) (s : ClientServer S G P M) (client : WebsocketClient)
    (answers : TransportAnswers) : ClientServer S G P M :=
  { s with
    duplex := s.duplex.step json (.poll answers)
    client
    toServer := s.toServer ++ client.handedOver.drop s.client.handedOver.length }

/-- The iteration that polls the stream. -/
def pollStream (json : SerdeJson) (s : ClientServer S G P M) (answers : PollAnswers) :
    ClientServer S G P M :=
  let inbox := (s.toClient.take answers.available).map (fun message => .ready (some (some message)))
    ++ [answers.last.answer]
  let (client, answer) := s.client.pollNext inbox
  { s.turn json client ⟨streamAnswer answer, .pending, true, .pending⟩ with
    toClient := s.toClient.drop (WebsocketClient.received inbox).length }

/-- The iteration that sends a request. -/
def pollOutgoing (json : SerdeJson) (s : ClientServer S G P M) (inner : Readiness) :
    ClientServer S G P M :=
  let (client, ready) := s.client.pollReady inner.answers
  match ready, s.duplex.outgoing with
  | .ready true, request :: _ =>
    let (client, startSend) := client.startSend request inner.answers
    s.turn json client ⟨.pending, ready, startSend, .pending⟩
  | _, _ => s.turn json client ⟨.pending, ready, true, .pending⟩

def pollDuplex (json : SerdeJson) (s : ClientServer S G P M) (answers : PollAnswers) :
    ClientServer S G P M :=
  match s.duplex.phase with
  | .stream => s.pollStream json answers
  | .outgoing => s.pollOutgoing json answers.inner
  | .sink =>
    let (client, flush) := s.client.pollFlush answers.inner.answers
    s.turn json client ⟨.pending, .pending, true, flush⟩
  | _ => s.turn json s.client ⟨.pending, .pending, true, .pending⟩

/-- A step of the server, with what it sends to the client. -/
def stepServer (service : Service G L P M) (s : ClientServer S G P M) (label : Connection.Label) :
    ClientServer S G P M :=
  let connection := s.connection.step service label
  { s with
    connection
    toClient := s.toClient ++
      (connection.out.drop s.connection.out.length).map fun output => .text output.text }

def step (service : Service G L P M) (s : ClientServer S G P M) : Label → ClientServer S G P M
  | .client (.poll _) => s
  | .client label => { s with duplex := s.duplex.step service.json label }
  | .poll answers => s.pollDuplex service.json answers
  | .server (.message _) => s
  | .server label => s.stepServer service label
  | .control message =>
    if message.isAnswer then { s with toClient := s.toClient ++ [message] } else s
  | .arrive =>
    match s.toServer with
    | .text data :: toServer =>
      { s with toServer }.stepServer service (.message (.text data))
    | _ :: toServer => { s with toServer }
    | [] => s
  | .lose => { s with toServer := s.toServer.tail }

/-- The client and the server after a run. -/
def after (S : Slab (Option ℕ)) (service : Service G L P M) (sessionId : SessionId) (req : Request)
    (labels : List Label) : ClientServer S G P M :=
  Runs.run (step service) (init S service sessionId req) labels

end ClientServer

/-! ## What a step of the server changes -/

namespace Connection

variable {S : Slab (Option ℕ)} {G : Globset} {L : Library} {P M : Type}

/-- What was sent stays sent. -/
theorem out_step (service : Service G L P M) (c : Connection S G P M) (label : Label) :
    c.out <+: (c.step service label).out := by
  cases label with
  | request req =>
    unfold step
    dsimp only
    split <;> exact List.prefix_rfl
  | message msg =>
    unfold step onMessage
    dsimp only
    split
    · split
      · exact List.prefix_rfl
      · split <;> exact List.prefix_rfl
    · exact List.prefix_rfl
  | pollTask task answers =>
    unfold step pollTask
    dsimp only
    split
    · split
      · split <;> exact List.prefix_append _ _
      · exact List.prefix_rfl
    · exact List.prefix_rfl
  | session l =>
    unfold step
    dsimp only
    split
    · exact List.prefix_append _ _
    · exact List.prefix_rfl
  | send sender isOk => exact List.prefix_append _ _
  | _ => exact List.prefix_rfl

/-- Only messages are received. -/
theorem texts_step (service : Service G L P M) (c : Connection S G P M) {label : Label}
    (hlabel : ∀ msg, label ≠ .message msg) : (c.step service label).texts = c.texts := by
  cases label with
  | request req =>
    unfold step
    dsimp only
    split <;> rfl
  | message msg => exact absurd rfl (hlabel msg)
  | pollTask task answers =>
    unfold step pollTask
    dsimp only
    split
    · split
      · split <;> rfl
      · rfl
    · rfl
  | session l =>
    unfold step
    dsimp only
    split <;> rfl
  | _ => rfl

/-- A text is received once, if at all. -/
theorem texts_step_text (service : Service G L P M) (c : Connection S G P M) (data : String) :
    (c.step service (.message (.text data))).texts.Sublist (c.texts ++ [data]) := by
  have htexts : { c with received := c.received ++ [Message.text data] }.texts =
      c.texts ++ [data] :=
    List.filterMap_append
  unfold step
  dsimp only
  split
  · rw [← htexts]
    unfold onMessage
    dsimp only [Message.asText]
    split <;> exact List.Sublist.refl _
  · exact List.sublist_append_left _ _

/-- The request of the handshake does not change. -/
theorem request_after (S : Slab (Option ℕ)) (service : Service G L P M) (sessionId : SessionId)
    (req : Request) (labels : List Label) :
    (after S service sessionId (.request req :: labels)).request = some req := by
  have hrun : (after S service sessionId (.request req :: labels)).link ≠ .connecting ∧
      (after S service sessionId (.request req :: labels)).request = some req := by
    refine Runs.run_invariant
      (I := fun c : Connection S G P M => c.link ≠ .connecting ∧ c.request = some req)
      (s := (new S sessionId).step service (.request req)) ?_ ?_ labels
    · refine ⟨?_, rfl⟩
      change (if Handshake.isUpgrade
            ((Handshake.new sessionId).onRequest service.toAccess req).2 then
          Link.opened else Link.refused) ≠ .connecting
      cases Handshake.isUpgrade ((Handshake.new sessionId).onRequest service.toAccess req).2 <;>
        simp
    · rintro c label ⟨hlink, hreq⟩
      cases label with
      | request req' =>
        unfold step
        dsimp only
        rw [if_neg hlink]
        exact ⟨hlink, hreq⟩
      | message msg =>
        unfold step onMessage
        dsimp only
        split
        · split
          · exact ⟨hlink, hreq⟩
          · split <;> exact ⟨hlink, hreq⟩
        · exact ⟨hlink, hreq⟩
      | pollTask task answers =>
        unfold step pollTask
        dsimp only
        split
        · split
          · split <;> exact ⟨hlink, hreq⟩
          · exact ⟨hlink, hreq⟩
        · exact ⟨hlink, hreq⟩
      | session l =>
        unfold step
        dsimp only
        split <;> exact ⟨hlink, hreq⟩
      | _ => exact ⟨hlink, hreq⟩
  exact hrun.2

end Connection

/-! ## What is in transit -/

namespace ClientServer

variable {S : Slab (Option ℕ)} {G : Globset} {L : Library} {P M : Type}
  {service : Service G L P M} {sessionId : SessionId} {req : Request} {s : ClientServer S G P M}

/-- What holds of the client and the server after every run. -/
structure Inv (service : Service G L P M) (sessionId : SessionId) (req : Request)
    (s : ClientServer S G P M) : Prop where
  duplex : s.duplex.Inv service.json
  writes : s.duplex.Writes service.json
  routes : ∃ log, s.duplex.Routes service.json log
  run : ∃ labels, s.connection = .after S service sessionId (.request req :: labels)
  /-- The requests among the messages of the client are the texts that the duplex sent. -/
  requests_eq : s.client.messages.filterMap OwnedMessage.request = sentTexts s.duplex.trace
  /-- What the server received, and what is on its way, was handed over in this order. -/
  received : (s.connection.texts ++ s.toServer.filterMap OwnedMessage.request).Sublist
    (s.client.handedOver.filterMap OwnedMessage.request)
  /-- What the client received, and what is on its way, was sent in this order. -/
  sent_eq : receivedTexts s.duplex.trace ++ s.toClient.filterMap OwnedMessage.request =
    s.connection.out.map Output.text

theorem inv_init (S : Slab (Option ℕ)) (service : Service G L P M) (sessionId : SessionId)
    (req : Request) : (init S service sessionId req).Inv service sessionId req where
  duplex := World.inv_init _
  writes := World.writes_init _
  routes := ⟨[], World.routes_init _⟩
  run := ⟨[], rfl⟩
  requests_eq := rfl
  received := .refl _
  sent_eq := rfl

/-- An iteration of the duplex that takes messages from those on their way. -/
theorem Inv.turn (h : s.Inv service sessionId req) {client : WebsocketClient}
    {answers : TransportAnswers} {toClient : List OwnedMessage}
    (hsink : s.client.sink <+: client.sink)
    (hmessages : client.messages.filterMap OwnedMessage.request =
      s.client.messages.filterMap OwnedMessage.request ++ s.duplex.sends (.poll answers))
    (htoClient : s.toClient.filterMap OwnedMessage.request =
      s.duplex.receives (.poll answers) ++ toClient.filterMap OwnedMessage.request) :
    { s.turn service.json client answers with toClient }.Inv service sessionId req := by
  have hexchanges := World.exchanges_step service.json s.duplex (.poll answers)
  obtain ⟨log, hroutes⟩ := h.routes
  refine ⟨h.duplex.step (.poll answers), h.writes.step (.poll answers),
    hroutes.step (.poll answers), h.run, ?_, ?_, ?_⟩
  · exact (hmessages.trans (congrArg (· ++ _) h.requests_eq)).trans hexchanges.sentTexts_eq.symm
  · obtain ⟨calls, hcalls⟩ := hsink
    have hhanded : client.handedOver =
        s.client.handedOver ++ client.handedOver.drop s.client.handedOver.length := by
      have heq : client.handedOver = s.client.handedOver ++ calls.filterMap sentMessage := by
        rw [WebsocketClient.handedOver, ← hcalls, List.filterMap_append]
        rfl
      rw [heq, List.drop_left]
    change (s.connection.texts ++ (s.toServer ++ client.handedOver.drop _).filterMap _).Sublist
      (client.handedOver.filterMap _)
    rw [hhanded, List.drop_left, List.filterMap_append, List.filterMap_append, ← List.append_assoc]
    exact h.received.append (.refl _)
  · change receivedTexts (s.duplex.step service.json (.poll answers)).trace ++ _ = _
    rw [hexchanges.receivedTexts_eq, List.append_assoc, ← htoClient]
    exact h.sent_eq

/-- The messages that the client takes are the first of those on their way. -/
theorem received_initial (frames : List OwnedMessage) (last : StreamEnd) :
    WebsocketClient.received
      (frames.map (fun message => .ready (some (some message))) ++ [last.answer]) <+: frames := by
  induction frames with
  | nil => cases last <;> exact List.nil_prefix
  | cons frame frames ih =>
    cases frame with
    | text data => exact ⟨frames, rfl⟩
    | binary data | close data | ping data | pong data =>
      exact List.cons_prefix_cons.mpr ⟨rfl, ih⟩

/-- The text that the stream gives is the one among the messages that the client takes. -/
theorem taken_pollNext (client : WebsocketClient) (answers : List (StreamAnswer OwnedMessage)) :
    Local.taken (streamAnswer (client.pollNext answers).2) =
      (WebsocketClient.received answers).filterMap OwnedMessage.request := by
  induction answers generalizing client with
  | nil => rfl
  | cons answer answers ih =>
    match answer with
    | .ready (some (some (.text data))) => rfl
    | .ready (some (some (.binary data))) => exact ih client
    | .ready (some (some (.ping data))) =>
      exact ih { client with queue := .pong data :: client.queue }
    | .ready (some (some (.pong data))) => exact ih client
    | .ready (some (some (.close data))) =>
      exact ih { client with queue := .close data :: client.queue }
    | .ready none => rfl
    | .ready (some none) => rfl
    | .pending => rfl

/-- What answers the server is no request. -/
theorem requests_pollNext (client : WebsocketClient) (answers : List (StreamAnswer OwnedMessage)) :
    (client.pollNext answers).1.messages.filterMap OwnedMessage.request =
      client.messages.filterMap OwnedMessage.request := by
  have hreplies :
      (((WebsocketClient.received answers).filterMap OwnedMessage.answer).reverse.filterMap
        OwnedMessage.request) = [] := by
    refine List.filterMap_eq_nil_iff.mpr fun reply hmem => ?_
    obtain ⟨message, -, hanswer⟩ := List.mem_filterMap.mp (List.mem_reverse.mp hmem)
    exact (WebsocketHistory.isAnswer_of_answer hanswer).2
  rw [WebsocketClient.pollNext_client]
  simp [WebsocketClient.messages, WebsocketClient.handedOver, List.filterMap_append, hreplies]

theorem Inv.pollStream (h : s.Inv service sessionId req) (hphase : s.duplex.phase = .stream)
    (answers : PollAnswers) : (s.pollStream service.json answers).Inv service sessionId req := by
  have hinitial := received_initial (s.toClient.take answers.available) answers.last
  unfold ClientServer.pollStream
  generalize (s.toClient.take answers.available).map _ ++ [answers.last.answer] = inbox
    at hinitial ⊢
  have hsplit : s.toClient = WebsocketClient.received inbox ++
      s.toClient.drop (WebsocketClient.received inbox).length := by
    obtain ⟨rest, hrest⟩ := hinitial.trans (List.take_prefix _ _)
    rw [← hrest, List.drop_left]
  refine h.turn ?_ ?_ ?_
  · rw [WebsocketClient.pollNext_client]
  · rw [requests_pollNext, World.sends, if_neg (by simp [hphase]), List.append_nil]
  · rw [World.receives, if_pos hphase, taken_pollNext, ← List.filterMap_append, ← hsplit]

/-- An iteration in which the transport gives the duplex no message. -/
theorem Inv.turn_of_ne_stream (h : s.Inv service sessionId req) (hphase : s.duplex.phase ≠ .stream)
    {client : WebsocketClient} {answers : TransportAnswers} (hsink : s.client.sink <+: client.sink)
    (hmessages : client.messages.filterMap OwnedMessage.request =
      s.client.messages.filterMap OwnedMessage.request ++ s.duplex.sends (.poll answers)) :
    (s.turn service.json client answers).Inv service sessionId req := by
  refine h.turn hsink hmessages ?_
  rw [World.receives, if_neg hphase, List.nil_append]

theorem Inv.pollOutgoing (h : s.Inv service sessionId req) (hphase : s.duplex.phase = .outgoing)
    (inner : Readiness) : (s.pollOutgoing service.json inner).Inv service sessionId req := by
  have hsink := s.client.sink_pollReady inner.answers
  have hmessages := @WebsocketClient.messages_pollReady s.client inner
  have hne : s.duplex.phase ≠ .stream := by simp [hphase]
  unfold ClientServer.pollOutgoing
  generalize s.client.pollReady inner.answers = polled at hsink hmessages
  obtain ⟨client, ready⟩ := polled
  dsimp only at hsink hmessages ⊢
  have hnothing (ready : Poll Bool) (hsends : s.duplex.sends
      (.poll ⟨.pending, ready, true, .pending⟩) = []) :
      (s.turn service.json client ⟨.pending, ready, true, .pending⟩).Inv service sessionId req := by
    refine h.turn_of_ne_stream hne hsink ?_
    rw [hmessages, hsends, List.append_nil]
  cases ready with
  | pending => exact hnothing .pending (if_neg (by simp))
  | ready isOk =>
    cases isOk with
    | false => exact hnothing (.ready false) (if_neg (by simp))
    | true =>
      cases houtgoing : s.duplex.outgoing with
      | nil => exact hnothing (.ready true) (by simp [World.sends, houtgoing])
      | cons request outgoing =>
        obtain ⟨hstart, -⟩ := @WebsocketClient.messages_startSend client inner request
        refine h.turn_of_ne_stream hne
          (hsink.trans (client.sink_startSend request inner.answers)) ?_
        rw [hstart, hmessages, World.sends, if_pos ⟨hphase, rfl⟩, houtgoing, List.filterMap_append]
        rfl

theorem Inv.pollDuplex (h : s.Inv service sessionId req) (answers : PollAnswers) :
    (s.pollDuplex service.json answers).Inv service sessionId req := by
  unfold ClientServer.pollDuplex
  split
  · rename_i hphase
    exact h.pollStream hphase answers
  · rename_i hphase
    exact h.pollOutgoing hphase answers.inner
  · rename_i hphase
    have hmessages := @WebsocketClient.messages_emptyBufferThen s.client answers.inner
      answers.inner.answers.flush
    refine h.turn_of_ne_stream (by simp [hphase]) (s.client.sink_pollFlush _) ?_
    rw [World.sends, if_neg (by simp [hphase]), List.append_nil]
    exact congrArg (List.filterMap OwnedMessage.request) hmessages
  · rename_i hstream houtgoing hsink
    refine h.turn_of_ne_stream hstream List.prefix_rfl ?_
    rw [World.sends, if_neg (fun hand => houtgoing hand.1), List.append_nil]

/-- A step of the server. -/
theorem Inv.stepServer (h : s.Inv service sessionId req) (toServer : List OwnedMessage)
    {label : Connection.Label}
    (hreceived : ((s.connection.step service label).texts ++
      toServer.filterMap OwnedMessage.request).Sublist
        (s.connection.texts ++ s.toServer.filterMap OwnedMessage.request)) :
    ({ s with toServer }.stepServer service label).Inv service sessionId req := by
  obtain ⟨labels, hrun⟩ := h.run
  obtain ⟨sent, hsent⟩ := s.connection.out_step service label
  refine ⟨h.duplex, h.writes, h.routes, ⟨labels ++ [label], ?_⟩, h.requests_eq,
    hreceived.trans h.received, ?_⟩
  · change s.connection.step service label = _
    rw [hrun, Connection.after, Connection.after, ← List.cons_append, Runs.run_concat]
  · change receivedTexts s.duplex.trace ++ (s.toClient ++
        ((s.connection.step service label).out.drop s.connection.out.length).map _).filterMap _ =
      (s.connection.step service label).out.map _
    rw [← hsent, List.drop_left, List.filterMap_append, ← List.append_assoc, h.sent_eq,
      List.map_append, List.filterMap_map]
    exact congrArg (_ ++ ·) (congrFun List.filterMap_eq_map sent)

theorem Inv.step (h : s.Inv service sessionId req) (label : Label) :
    (s.step service label).Inv service sessionId req := by
  have hclient {label : JsonRpc.Label} (hsends : s.duplex.sends label = [])
      (hreceives : s.duplex.receives label = []) :
      Inv service sessionId req { s with duplex := s.duplex.step service.json label } := by
    have hexchanges := World.exchanges_step service.json s.duplex label
    rw [hsends, hreceives] at hexchanges
    obtain ⟨log, hroutes⟩ := h.routes
    refine ⟨h.duplex.step label, h.writes.step label, hroutes.step label, h.run, ?_, h.received, ?_⟩
    · rw [hexchanges.sentTexts_eq, List.append_nil]
      exact h.requests_eq
    · rw [hexchanges.receivedTexts_eq, List.append_nil]
      exact h.sent_eq
  cases label with
  | client label =>
    cases label with
    | poll answers => exact h
    | callMethod method params => exact hclient rfl rfl
    | notify method params => exact hclient rfl rfl
    | subscribe subscribe params notification unsubscribe => exact hclient rfl rfl
    | dropClients => exact hclient rfl rfl
    | dropCall sender => exact hclient rfl rfl
    | dropSubscription channel => exact hclient rfl rfl
  | poll answers => exact h.pollDuplex answers
  | server label =>
    have hserver (hlabel : ∀ msg, label ≠ .message msg) :
        (s.stepServer service label).Inv service sessionId req := by
      refine h.stepServer s.toServer ?_
      rw [Connection.texts_step service s.connection hlabel]
    cases label with
    | message msg => exact h
    | _ => exact hserver (by simp)
  | control message =>
    unfold ClientServer.step
    dsimp only
    split
    · rename_i hanswer
      refine ⟨h.duplex, h.writes, h.routes, h.run, h.requests_eq, h.received, ?_⟩
      have hnone : message.request = none := by
        cases message with
        | text data => cases hanswer
        | _ => rfl
      rw [List.filterMap_append, List.filterMap_cons_none hnone, List.filterMap_nil,
        List.append_nil]
      exact h.sent_eq
    · exact h
  | arrive =>
    have hcontrol {message : OwnedMessage} {toServer : List OwnedMessage}
        (htoServer : s.toServer = message :: toServer) :
        Inv service sessionId req { s with toServer } := by
      refine ⟨h.duplex, h.writes, h.routes, h.run, h.requests_eq, ?_, h.sent_eq⟩
      refine List.Sublist.trans ?_ h.received
      rw [htoServer]
      exact (List.Sublist.refl _).append ((List.sublist_cons_self _ _).filterMap _)
    unfold ClientServer.step
    dsimp only
    split
    · rename_i data toServer htoServer
      refine h.stepServer toServer ?_
      have hdata : (OwnedMessage.text data).request = some data := rfl
      rw [htoServer, List.filterMap_cons_some hdata, List.append_cons]
      exact (Connection.texts_step_text service s.connection data).append (.refl _)
    · rename_i htoServer
      exact hcontrol htoServer
    · exact h
  | lose =>
    refine ⟨h.duplex, h.writes, h.routes, h.run, h.requests_eq, ?_, h.sent_eq⟩
    refine List.Sublist.trans ?_ h.received
    exact (List.Sublist.refl _).append ((List.tail_sublist _).filterMap _)

theorem inv_after (S : Slab (Option ℕ)) (service : Service G L P M) (sessionId : SessionId)
    (req : Request) (labels : List Label) :
    (after S service sessionId req labels).Inv service sessionId req :=
  Runs.run_invariant (inv_init S service sessionId req) (fun _ label h => h.step label) labels

/-! ## Agreement -/

section Results

/-- What methods returned to the messages that the server handled. -/
def returned (s : ClientServer S G P M) : List (Returned P M) :=
  s.connection.jobs.flatMap fun job => job.answered.toList.flatMap Answered.returned

/-- What the server received are requests of the duplex. -/
theorem Inv.received_sublist (h : s.Inv service sessionId req) :
    s.connection.texts.Sublist
      ((queuedRequests s.duplex.trace).map (Request.toString service.json)) := by
  have hhanded : s.connection.texts.Sublist
      (s.client.handedOver.filterMap OwnedMessage.request) :=
    (List.sublist_append_left _ _).trans h.received
  have hsent : (s.client.handedOver.filterMap OwnedMessage.request).Sublist
      (sentTexts s.duplex.trace) := by
    rw [← h.requests_eq, WebsocketClient.messages, List.filterMap_append]
    exact List.sublist_append_left _ _
  have hqueued : (sentTexts s.duplex.trace).Sublist
      ((queuedRequests s.duplex.trace).map (Request.toString service.json)) := by
    rw [← h.writes.texts_eq]
    exact List.sublist_append_left _ _
  exact (hhanded.trans hsent).trans hqueued

/-- The answer to a message that the server handled is a response to a request of the duplex. -/
theorem Inv.replies (h : s.Inv service sessionId req) {task : ℕ} {text : String}
    (hreplies : s.connection.Replies service task text) :
    ∃ request ∈ queuedRequests s.duplex.trace, ∃ response returned,
      text = writeResponse service.json response ∧ returned ⊆ s.returned ∧
      Responds service.json service.handler (request.toString service.json)
        (service.metadataOf sessionId req) returned (some response) := by
  obtain ⟨labels, hrun⟩ := h.run
  have hentered := Connection.entered_after S service sessionId (.request req :: labels)
  have hserves := Connection.serves_after S service sessionId (.request req :: labels)
  have hrequest := Connection.request_after S service sessionId req labels
  rw [← hrun] at hentered hserves hrequest
  obtain ⟨job, hjob, hreply⟩ := hreplies
  have hmem := List.mem_of_getElem? hjob
  obtain ⟨response, hresponse, rfl⟩ := Option.map_eq_some_iff.mp hreply
  obtain ⟨answered, hanswered, hresponse⟩ := Option.bind_eq_some_iff.mp hresponse
  obtain ⟨htext, hisResponse⟩ := (hserves.served job hmem).answered answered hanswered
  -- The message was received, so it is one of the requests.
  have hreceived : job.text ∈ s.connection.texts := by
    rw [← hentered.texts_eq]
    exact List.mem_map_of_mem hmem
  obtain ⟨request, hqueued, hrequestText⟩ :=
    List.mem_map.mp (h.received_sublist.subset hreceived)
  -- The metadata is the one of the handshake.
  obtain ⟨req', hopened⟩ := hentered.opened (hentered.link_eq hmem)
  have hreq : req' = req := Option.some.inj (hopened.request_eq.symm.trans hrequest)
  have hmetadata : job.metadata = service.metadataOf sessionId req := by
    rw [← hreq]
    exact Option.some.inj ((hentered.metadata job hmem).symm.trans hopened.metadata_eq)
  refine ⟨request, hqueued, response, answered.returned, rfl, ?_, ?_⟩
  · intro returned hreturned
    exact List.mem_flatMap.mpr ⟨job, hmem, by simpa [hanswered] using hreturned⟩
  · rw [Answered.IsResponse, htext, hresponse, hmetadata] at hisResponse
    rw [hrequestText]
    exact hisResponse

/-- What a task has sent is the answer to its message. -/
theorem Inv.replies_of_mem (h : s.Inv service sessionId req) {task : ℕ} {text : String}
    (hmem : ⟨.task task, text⟩ ∈ s.connection.out) : s.connection.Replies service task text := by
  obtain ⟨labels, hrun⟩ := h.run
  have hserves := Connection.serves_after S service sessionId (.request req :: labels)
  rw [← hrun] at hserves
  have hsent := mem_sentBy.mpr hmem
  rw [hserves.out_eq] at hsent
  obtain ⟨⟨task', text'⟩, hfiltered, rfl⟩ := List.mem_map.mp hsent
  obtain ⟨hsession, htask⟩ := List.mem_filter.mp hfiltered
  obtain rfl : task' = task := by simpa using htask
  exact hserves.sent task' text' hsession

theorem Inv.forwards (h : s.Inv service sessionId req) : s.connection.Forwards := by
  obtain ⟨labels, hrun⟩ := h.run
  rw [hrun]
  exact Connection.forwards_after S service sessionId (.request req :: labels)

/-- What was sent for a channel was put into it. -/
theorem Inv.pushed_of_mem (h : s.Inv service sessionId req) {i : ℕ} {text : String}
    (hmem : ⟨.sender i, text⟩ ∈ s.connection.out) : text ∈ (s.connection.sender i).pushed := by
  obtain ⟨rest, hpushed, -⟩ := h.forwards i
  rw [← hpushed]
  exact List.mem_append_left _ (mem_sentBy.mpr hmem)

/-- What the duplex receives are answers to its requests. -/
theorem Inv.answers (h : s.Inv service sessionId req) (hjson : service.json.IsFaithful)
    (hversion : service.handler.compatibility.isVersionValid (some .v2))
    (hpushed : ∀ i, ∀ text ∈ (s.connection.sender i).pushed, ∀ m,
      parseResponse service.json text = .ok m → m.id = .null) :
    ∀ text ∈ receivedTexts s.duplex.trace, ∀ m, parseResponse service.json text = .ok m →
      m.Answers service.handler (service.metadataOf sessionId req)
        (queuedRequests s.duplex.trace) s.returned := by
  intro text hmem m hparse
  have hsent : text ∈ s.connection.out.map Output.text := by
    rw [← h.sent_eq]
    exact List.mem_append_left _ hmem
  obtain ⟨⟨source, text⟩, houtput, rfl⟩ := List.mem_map.mp hsent
  cases source with
  | task task =>
    obtain ⟨request, hqueued, response, returned, htext, hreturned, hresponds⟩ :=
      h.replies (h.replies_of_mem houtput)
    dsimp only at hparse
    rw [htext] at hparse
    exact hresponds.answers hjson hversion (h.writes.fromClient request hqueued) hqueued hreturned
      hparse
  | sender i => exact .inl (hpushed i text (h.pushed_of_mem houtput) m hparse)

end Results

/-- **Requests are handled in order and once.** In every run, the messages that the server
handles are requests of the duplex, in the order in which these were made. What the client
receives are the first texts that the server has sent. -/
theorem handled_in_order (S : Slab (Option ℕ)) (service : Service G L P M) (sessionId : SessionId)
    (req : Request) (labels : List Label) :
    let s := after S service sessionId req labels
    (s.connection.jobs.map Job.text).Sublist
        ((queuedRequests s.duplex.trace).map (Request.toString service.json)) ∧
      receivedTexts s.duplex.trace <+: s.connection.out.map Output.text := by
  intro s
  have h : s.Inv service sessionId req := inv_after S service sessionId req labels
  obtain ⟨labels', hrun⟩ := h.run
  have hentered := Connection.entered_after S service sessionId (.request req :: labels')
  rw [← hrun] at hentered
  refine ⟨?_, ?_⟩
  · rw [hentered.texts_eq]
    exact h.received_sublist
  · rw [← h.sent_eq]
    exact List.prefix_append _ _

/-- **Agreement of the WebSocket client with the server.** Let no text that is put into a channel
be a response. In every run with fewer than `2 ^ 64` ids, in whatever order the tasks respond and
whatever is lost, the result that a call receives is the one of dispatching its method and its
parameters, with the metadata of the handshake. -/
theorem results_dispatched (S : Slab (Option ℕ)) (service : Service G L P M)
    (hjson : service.json.IsFaithful) (hcompatibility : service.handler.compatibility ≠ .v1)
    (sessionId : SessionId) (req : Request) (labels : List Label)
    (hpushed : ∀ i, ∀ text ∈ ((after S service sessionId req labels).connection.sender i).pushed,
      ∀ m, parseResponse service.json text = .ok m → m.id = .null)
    (hcount : (issuedIds (after S service sessionId req labels).duplex.trace).length < 2 ^ 64) :
    let s := after S service sessionId req labels
    ∀ sender method params result, .called sender method params ∈ s.duplex.trace →
      .delivered sender result ∈ s.duplex.trace →
      ∃ call text, .registered call text (.call sender) ∈ s.duplex.trace ∧
        call.method = method ∧ call.params = params ∧
        LocalWorld.Agrees service.handler (service.metadataOf sessionId req) s.returned call
          result := by
  intro s sender method params result hcalled hdelivered
  have h : s.Inv service sessionId req := inv_after S service sessionId req labels
  have hversion := isVersionValid_of_ne_v1 hcompatibility
  exact h.duplex.agrees h.writes hcount (h.answers hjson hversion hpushed) hcalled hdelivered

end ClientServer

/-! ## A call over WebSocket -/

/-- A server that everybody may use. -/
def pongWebsocket : Service literalGlobset statusLibrary Unit Unit :=
  openService pongJson pongHandler

/-- An iteration of the duplex, with everything ready. -/
def pollClient : ClientServer.Label :=
  .poll ⟨⟨fun _ => .ready true, .ready true, .ready true⟩, 2, .pending⟩

/-- A call of `pong`. The server sends a ping before the response. -/
def pongExchange : List ClientServer.Label :=
  [.client (.callMethod "pong" .none)] ++ List.replicate 7 pollClient ++
    [.arrive, .server (.pollTask 0 fun _ => .ready (.ok (.bool true))),
      .server (.session (.checkActive 0)), .control (.ping []), .server (.session (.send 0))] ++
    List.replicate 7 pollClient

/-- The call receives what the method returned. -/
theorem ClientServer.results_dispatched_pong :
    let s := ClientServer.after (.vec _) pongWebsocket 1 plainRequest pongExchange
    .delivered 0 (.ok (.bool true)) ∈ s.duplex.trace ∧
      ∃ call text, .registered call text (.call 0) ∈ s.duplex.trace ∧ call.method = "pong" ∧
        call.params = .none ∧ LocalWorld.Agrees pongHandler () s.returned call
          (.ok (.bool true)) := by
  have hjson : pongJson.IsFaithful := SerdeJson.isFaithful_ofTable (by decide) (by decide)
  have hsenders : (ClientServer.after (.vec _) pongWebsocket 1 plainRequest
      pongExchange).connection.senders = [] := by decide +kernel
  have hpushed : ∀ i, ((ClientServer.after (.vec _) pongWebsocket 1 plainRequest
      pongExchange).connection.sender i).pushed = [] := by
    intro i
    rw [Connection.sender, hsenders]
    rfl
  have hagrees := ClientServer.results_dispatched (.vec _) pongWebsocket hjson (by decide) 1
    plainRequest pongExchange (by simp [hpushed]) (by decide +kernel)
  exact ⟨by decide +kernel, hagrees 0 "pong" .none _ (by decide +kernel) (by decide +kernel)⟩

end Ws

end JsonRpc
