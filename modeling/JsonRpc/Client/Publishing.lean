import JsonRpc.Client.SubscriptionLife
import JsonRpc.Client.WebsocketEndToEnd
import JsonRpc.PubSub.Sink

/-!
# Subscriptions from the server to the client

A server publishes results of subscriptions by putting the texts of notifications into the
channel of a connection. The client routes the notifications that it reads to the channels of
its subscriptions. What a subscription receives is one uninterrupted part of what was published
for it: it starts when the client has handled the response to the subscription, and ends when the
subscription is dropped or replaced, or with what has not arrived yet.
-/

namespace JsonRpc

/-! ## What a subscription of the client receives -/

/-- The results that are sent to the channel of a subscription. -/
def resultsOn (channel : ℕ) (hs : List Handling) : List (RpcResult Value) :=
  (hs.flatMap Handling.sends).filterMap fun send => if send.1 = channel then some send.2 else none

theorem resultsOn_append (channel : ℕ) (hs hs' : List Handling) :
    resultsOn channel (hs ++ hs') = resultsOn channel hs ++ resultsOn channel hs' := by
  simp [resultsOn, List.filterMap_append]

theorem resultsOn_eq_nil {channel : ℕ} {hs : List Handling}
    (h : ∀ h ∈ hs, ∀ send ∈ h.sends, send.1 ≠ channel) : resultsOn channel hs = [] := by
  refine List.filterMap_eq_nil_iff.mpr fun send hmem => ?_
  obtain ⟨handling, hhandling, hsend⟩ := List.mem_flatMap.mp hmem
  rw [if_neg (h handling hhandling send hsend)]

/-- The messages that name a subscription. -/
def naming (key : SubscriptionId × String) (ms : List Message) : List Message :=
  ms.filter fun m => m.key = some key

theorem naming_append (key : SubscriptionId × String) (ms ms' : List Message) :
    naming key (ms ++ ms') = naming key ms ++ naming key ms' := List.filter_append _ _

/-- While a subscription is served, it receives the results of the messages that name it. -/
theorem resultsOn_of_serves {key : SubscriptionId × String} {sub : Subscription}
    {live : List Handling} (hlive : ∀ h ∈ live, h.Serves key sub) :
    resultsOn sub.channel live =
      (naming key (live.map Handling.message)).map Message.result := by
  induction live with
  | nil => rfl
  | cons h live ih =>
    have hserves := hlive h List.mem_cons_self
    have htail := ih fun h' hmem => hlive h' (List.mem_cons_of_mem _ hmem)
    have hhead : resultsOn sub.channel [h] =
        (naming key [h.message]).map Message.result := by
      by_cases hkey : h.message.key = some key
      · simp [resultsOn, naming, (hserves.sent hkey).1, hkey]
      · have hnil : resultsOn sub.channel [h] = [] :=
          resultsOn_eq_nil fun h' hmem => by
            rw [List.mem_singleton.mp hmem]
            exact hserves.spares hkey
        rw [hnil]
        simp [naming, hkey]
    have hcons : naming key ((h :: live).map Handling.message) =
        naming key [h.message] ++ naming key (live.map Handling.message) :=
      naming_append key [h.message] _
    rw [hcons, List.map_append, ← htail, ← hhead]
    exact resultsOn_append sub.channel [h] live

/-- A message that opens a subscription is sent nowhere. -/
theorem World.Routes.sends_of_opens {json : SerdeJson} {w : World}
    {log : List (Router.Event (SubscriptionId × String) Subscription)} (hr : w.Routes json log)
    {h : Handling} (hmem : h ∈ handlings w.trace)
    {entry : (SubscriptionId × String) × Subscription} (hopens : h.opens = some entry) :
    h.sends = [] := by
  obtain ⟨e, -, hdenotes⟩ := exists_mem_of_forall₂ hr.denotes hmem
  cases hdenotes with
  | opened => rfl
  | rejected hkey hsid =>
    rw [Handling.opens, hsid] at hopens
    cases hopens
  | sent | closed | answered | passed => cases hopens

/-- After the response to a subscription, its channel receives the results of the messages that
name it, in their order and without a gap. -/
theorem World.Life.resultsOn_eq {w : World} {key : SubscriptionId × String} {sub : Subscription}
    {after : List Handling} (hlife : w.Life key sub after)
    (hopening : ∀ h ∈ after, ∀ entry, h.opens = some entry → h.sends = []) :
    ∃ live, live <+: after ∧
      resultsOn sub.channel after =
        (naming key (live.map Handling.message)).map Message.result ∧
      (w.subscriptions.lookup key = some sub → live = after) := by
  -- When the subscription ends, nothing is sent to its channel any more.
  have hended {live rest : List Handling} {h : Handling} (hlive : ∀ h ∈ live, h.Serves key sub)
      (hsends : h.sends = []) (hrest : ∀ h ∈ rest, ∀ send ∈ h.sends, send.1 ≠ sub.channel) :
      resultsOn sub.channel (live ++ h :: rest) =
        (naming key (live.map Handling.message)).map Message.result := by
    have hlast : resultsOn sub.channel (h :: rest) = [] := by
      refine resultsOn_eq_nil fun h' hmem => ?_
      rcases List.mem_cons.mp hmem with rfl | hmem
      · simp [hsends]
      · exact hrest h' hmem
    rw [resultsOn_append, hlast, List.append_nil, resultsOn_of_serves hlive]
  cases hlife with
  | active hlive hentry =>
    exact ⟨after, List.prefix_rfl, resultsOn_of_serves hlive, fun _ => rfl⟩
  | @replaced live rest h sub' hlive hopens hne hrest hentry =>
    exact ⟨live, List.prefix_append _ _, hended hlive (hopening h (by simp) _ hopens) hrest,
      fun hlookup => absurd rfl (hentry key sub hlookup)⟩
  | @gone live rest h hlive hcalls hdropped hrest hentry hagain =>
    exact ⟨live, List.prefix_append _ _, hended hlive hcalls.sends_eq hrest,
      fun hlookup => absurd rfl (hentry key sub hlookup)⟩

/-- The messages in texts. -/
def messagesIn (json : SerdeJson) (texts : List String) : List Message :=
  texts.filterMap fun text => (parseResponse json text).toOption

theorem receivedMessages_eq (json : SerdeJson) (trace : List Happening) :
    receivedMessages json trace = messagesIn json (receivedTexts trace) := by
  rw [messagesIn, receivedTexts, List.filterMap_filterMap, receivedMessages]
  congr 1
  funext h
  cases h <;> rfl

/-- The text is a message that names a subscription. -/
def names (json : SerdeJson) (key : SubscriptionId × String) (text : String) : Bool :=
  (parseResponse json text).toOption.bind Message.key = some key

/-- The messages that name a subscription are those in the texts that name it. -/
theorem naming_messagesIn (json : SerdeJson) (key : SubscriptionId × String)
    (texts : List String) :
    naming key (messagesIn json texts) = messagesIn json (texts.filter (names json key)) := by
  induction texts with
  | nil => rfl
  | cons text texts ih =>
    unfold naming messagesIn at ih ⊢
    unfold names at ih ⊢
    cases hparse : (parseResponse json text).toOption with
    | none => simpa [hparse] using ih
    | some m =>
      by_cases hkey : m.key = some key
      · simpa [hparse, hkey] using ih
      · simpa [hparse, hkey] using ih

/-- **A part without gaps.** Let the texts that the client has received be the first of `texts`,
as far as they name a subscription. What the channel of the subscription received since the
response was handled is a part without gaps of the results in `texts`. It reaches up to the end
if the subscription is there, the client has received all of `texts` and handled it. -/
theorem World.Routes.resultsOn_isPart {json : SerdeJson} {w : World}
    {log : List (Router.Event (SubscriptionId × String) Subscription)} (hr : w.Routes json log)
    {texts : List String} {key : SubscriptionId × String} {sub : Subscription}
    (htexts : naming key (messagesIn json (receivedTexts w.trace)) <+:
      naming key (messagesIn json texts))
    {before after : List Handling} {a : Handling}
    (hhandlings : handlings w.trace = before ++ a :: after) (hopens : a.opens = some (key, sub)) :
    resultsOn sub.channel after <:+: (naming key (messagesIn json texts)).map Message.result ∧
      (w.subscriptions.lookup key = some sub → w.incoming = [] →
        naming key (messagesIn json (receivedTexts w.trace)) = naming key (messagesIn json texts) →
        resultsOn sub.channel after <:+
          (naming key (messagesIn json texts)).map Message.result) := by
  obtain ⟨live, hinitial, hresults, hactive⟩ := (hr.life hhandlings hopens).resultsOn_eq
    fun h hmem entry => hr.sends_of_opens (by rw [hhandlings]; simp [hmem])
  have hreceived : naming key (messagesIn json (receivedTexts w.trace)) =
      naming key (before.map Handling.message ++ [a.message]) ++
        (naming key (after.map Handling.message) ++ naming key w.incoming) := by
    rw [← receivedMessages_eq, hr.messages_eq, hhandlings, ← naming_append, ← naming_append]
    simp
  constructor
  · obtain ⟨rest, rfl⟩ := hinitial
    rw [hresults]
    refine List.IsInfix.map _ (List.IsInfix.trans ?_ htexts.isInfix)
    have hafter : naming key ((live ++ rest).map Handling.message) =
        naming key (live.map Handling.message) ++ naming key (rest.map Handling.message) := by
      rw [List.map_append, naming_append]
    rw [hreceived, hafter, List.append_assoc]
    exact ⟨_, _, List.append_assoc _ _ _⟩
  · intro hlookup hincoming hall
    rw [hactive hlookup] at hresults
    rw [hresults, ← hall, hreceived, hincoming]
    exact List.IsSuffix.map _ ⟨_, congrArg (_ ++ ·) (List.append_nil _).symm⟩

/-! ## What a server publishes -/

/-- A result of a subscription that is published. -/
structure Published where
  sink : PubSub.TypedSink
  val : Except Error Value

namespace Published

/-- The subscription that is named. -/
def key (p : Published) : SubscriptionId × String := (p.sink.id, p.sink.sink.notification)

def notification (p : Published) : Notification :=
  p.sink.sink.paramsToNotification (p.sink.valToParams Value.serialize Error.serialize p.val)

def text (json : SerdeJson) (p : Published) : String :=
  p.sink.notify Value.serialize Error.serialize json p.val

/-- The result as a client reads it. -/
def result (p : Published) : RpcResult Value := (p.val.mapError Error.norm).mapError .jsonRpcError

/-- The message that a client reads. -/
def message (p : Published) : Message :=
  ⟨.null, p.result, some p.sink.sink.notification, some p.sink.id⟩

theorem parseResponse_text {json : SerdeJson} {p : Published}
    (hjson : json.RoundTrips p.notification.serialize) :
    parseResponse json (p.text json) = .ok p.message := by
  have htext : json.fromStr (p.text json) = some p.notification.serialize := hjson.2
  rw [parseResponse, htext, Option.bind_some, ClientResponse.deserialize_notification]
  exact congrArg Except.ok (p.sink.toMessage_notification p.val)

/-- A text names the subscription that it is published for. -/
theorem names_text_iff {json : SerdeJson} {p : Published}
    (hjson : json.RoundTrips p.notification.serialize) (key : SubscriptionId × String) :
    names json key (p.text json) = true ↔ p.key = key := by
  rw [names, parseResponse_text hjson, decide_eq_true_iff]
  exact Option.some_inj

theorem messagesIn_texts {json : SerdeJson} {published : List Published}
    (hjson : ∀ p ∈ published, json.RoundTrips p.notification.serialize) :
    messagesIn json (published.map (text json)) = published.map message := by
  induction published with
  | nil => rfl
  | cons p published ih =>
    have htail := ih fun p' hmem => hjson p' (List.mem_cons_of_mem _ hmem)
    have hhead := parseResponse_text (hjson p List.mem_cons_self)
    rw [List.map_cons, List.map_cons, ← htail]
    exact List.filterMap_cons_some (by rw [hhead]; rfl)

end Published

/-! ## Over WebSocket -/

/-- The message in a response to a client names no subscription. -/
theorem Responds.key_eq_none {P M : Type} {json : SerdeJson} {handler : MetaIoHandler P}
    {metadata : M} {request : Request} {returned : List (Returned P M)} {response : Response}
    {m : Message} (hjson : json.IsFaithful)
    (hversion : handler.compatibility.isVersionValid (some .v2)) (hclient : request.isFromClient)
    (h : Responds json handler (request.toString json) metadata returned (some response))
    (hparse : parseResponse json (writeResponse json response) = .ok m) : m.key = none := by
  obtain ⟨polls, -, hresponse⟩ := h
  obtain ⟨output, rfl, -⟩ :=
    (serves_after metadata hjson hversion hclient polls).response hresponse
  unfold parseResponse at hparse
  split at hparse
  · rename_i response hread
    obtain ⟨c, hc, hdeserialize⟩ := Option.bind_eq_some_iff.mp hread
    rw [hjson _ _ hc, Response.serialize, ClientResponse.deserialize_output] at hdeserialize
    cases hdeserialize
    cases hparse
    rfl
  · cases hparse

namespace Ws

open ServerUtils

/-- If nothing that the other sources send names a subscription, only one source matters. -/
theorem naming_out {json : SerdeJson} {source : Source} {key : SubscriptionId × String}
    {out : List Output} (hothers : ∀ output ∈ out, output.source ≠ source →
      ∀ m, parseResponse json output.text = .ok m → m.key ≠ some key) :
    naming key (messagesIn json (out.map Output.text)) =
      naming key (messagesIn json (sentBy source out)) := by
  induction out with
  | nil => rfl
  | cons output out ih =>
    have htail := ih fun o hmem => hothers o (List.mem_cons_of_mem _ hmem)
    have hcons (texts : List String) : naming key (messagesIn json (output.text :: texts)) =
        naming key (messagesIn json [output.text]) ++ naming key (messagesIn json texts) := by
      rw [← naming_append, messagesIn, messagesIn, messagesIn, ← List.filterMap_append]
      rfl
    by_cases hsource : output.source = source
    · have hsent : sentBy source (output :: out) = output.text :: sentBy source out := by
        simp [sentBy, hsource]
      rw [hsent, List.map_cons, hcons, htail]
      exact (hcons _).symm
    · have hsent : sentBy source (output :: out) = sentBy source out := by
        simp [sentBy, hsource]
      have hnone : naming key (messagesIn json [output.text]) = [] := by
        cases hparse : parseResponse json output.text with
        | error e => simp [messagesIn, naming, hparse, Except.toOption]
        | ok m =>
          have hkey := hothers output List.mem_cons_self hsource m hparse
          simp [messagesIn, naming, hparse, Except.toOption, hkey]
      rw [hsent, List.map_cons, hcons, hnone, List.nil_append, htail]

namespace ClientServer

variable {S : Slab (Option ℕ)} {G : Globset} {L : Library} {P M : Type}
  {service : Service G L P M} {sessionId : SessionId} {req : Request} {s : ClientServer S G P M}

/-- What the tasks send names no subscription. -/
theorem Inv.key_eq_none (h : s.Inv service sessionId req) (hjson : service.json.IsFaithful)
    (hversion : service.handler.compatibility.isVersionValid (some .v2)) {task : ℕ}
    {text : String} (hmem : ⟨.task task, text⟩ ∈ s.connection.out) {m : JsonRpc.Message}
    (hparse : parseResponse service.json text = .ok m) : m.key = none := by
  obtain ⟨request, hqueued, response, returned, rfl, -, hresponds⟩ :=
    h.replies (h.replies_of_mem hmem)
  exact hresponds.key_eq_none hjson hversion (h.writes.fromClient request hqueued) hparse

/-- Nothing that was put into a channel is on its way. -/
structure Settled (s : ClientServer S G P M) (channel : ℕ) : Prop where
  queue : (s.connection.sender channel).queue = []
  phase : (s.connection.sender channel).phase = .waiting
  toClient : s.toClient = []
  incoming : s.duplex.incoming = []

/-- If no other channel has a text that names a subscription, what the client received are the
first texts of the channel, as far as they name it. -/
theorem Inv.naming_received (h : s.Inv service sessionId req) (hjson : service.json.IsFaithful)
    (hversion : service.handler.compatibility.isVersionValid (some .v2)) {channel : ℕ}
    {key : SubscriptionId × String}
    (hothers : ∀ i ≠ channel, ∀ text ∈ (s.connection.sender i).pushed,
      names service.json key text = false) :
    naming key (messagesIn service.json (receivedTexts s.duplex.trace)) <+:
        naming key (messagesIn service.json (s.connection.sender channel).pushed) ∧
      (s.Settled channel →
        naming key (messagesIn service.json (receivedTexts s.duplex.trace)) =
          naming key (messagesIn service.json (s.connection.sender channel).pushed)) := by
  have hout : naming key (messagesIn service.json (s.connection.out.map Output.text)) =
      naming key (messagesIn service.json (sentBy (.sender channel) s.connection.out)) := by
    refine naming_out fun output hmem hsource m hparse => ?_
    obtain ⟨source, text⟩ := output
    cases source with
    | task task => simp [h.key_eq_none hjson hversion hmem hparse]
    | sender i =>
      have hi : i ≠ channel := by
        rintro rfl
        exact hsource rfl
      have hnames := hothers i hi text (h.pushed_of_mem hmem)
      intro hkey
      simp [names, hparse, Except.toOption, hkey] at hnames
  obtain ⟨rest, hpushed, hrest⟩ := h.forwards channel
  constructor
  · have hreceived : receivedTexts s.duplex.trace <+: s.connection.out.map Output.text := by
      rw [← h.sent_eq]
      exact List.prefix_append _ _
    refine ((hreceived.filterMap _).filter _).trans ?_
    change naming key (messagesIn service.json (s.connection.out.map Output.text)) <+: _
    rw [hout, ← hpushed]
    exact ((List.prefix_append _ _).filterMap _).filter _
  · intro hsettled
    have hreceived := h.sent_eq
    rw [hsettled.toClient, List.filterMap_nil, List.append_nil] at hreceived
    rw [hreceived, hout]
    have hnil := hrest (by simp [hsettled.phase])
    rw [hsettled.queue] at hnil
    simp only [SenderFuture.held, hsettled.phase, List.append_nil] at hnil
    rw [← hpushed, hnil, List.append_nil]

/-- **Subscriptions over WebSocket.** Let the texts that name a subscription, among all that the
server puts into the channels of the connection, be in one channel and be the results that it
publishes for the subscription. In every run, what the channel of the subscription of the client
receives, since the response to the subscription was handled, is a part without gaps of what was
published, in the order in which it was published. It reaches up to the last result if the
subscription is there and nothing is on its way. -/
theorem published_without_gaps (S : Slab (Option ℕ)) (service : Service G L P M)
    (hjson : service.json.IsFaithful) (hcompatibility : service.handler.compatibility ≠ .v1)
    (sessionId : SessionId) (req : Request) (labels : List Label)
    (key : SubscriptionId × String) (channel : ℕ) (published : List Published)
    (hpushed : ((after S service sessionId req labels).connection.sender channel).pushed.filter
      (names service.json key) = published.map (Published.text service.json))
    (hothers : ∀ i ≠ channel,
      ∀ text ∈ ((after S service sessionId req labels).connection.sender i).pushed,
        names service.json key text = false)
    (htrips : ∀ p ∈ published, service.json.RoundTrips p.notification.serialize) :
    let s := after S service sessionId req labels
    (∀ p ∈ published, p.key = key) ∧
      ∀ before a rest sub, handlings s.duplex.trace = before ++ a :: rest →
        a.opens = some (key, sub) →
        resultsOn sub.channel rest <:+: published.map Published.result ∧
          (s.duplex.subscriptions.lookup key = some sub → s.Settled channel →
            resultsOn sub.channel rest <:+ published.map Published.result) := by
  intro s
  refine ⟨fun p hp => ?_, fun before a rest sub hhandlings hopens => ?_⟩
  · have hmem : p.text service.json ∈ published.map (Published.text service.json) :=
      List.mem_map_of_mem hp
    rw [← hpushed] at hmem
    exact (Published.names_text_iff (htrips p hp) key).mp (List.mem_filter.mp hmem).2
  · have h : s.Inv service sessionId req := inv_after S service sessionId req labels
    obtain ⟨log, hroutes⟩ := h.routes
    have hversion := isVersionValid_of_ne_v1 hcompatibility
    obtain ⟨hinitial, hall⟩ := h.naming_received hjson hversion hothers
    obtain ⟨hpart, hsuffix⟩ := hroutes.resultsOn_isPart hinitial hhandlings hopens
    have hresults : (naming key (messagesIn service.json (s.connection.sender channel).pushed)).map
        Message.result = published.map Published.result := by
      rw [naming_messagesIn, hpushed, Published.messagesIn_texts htrips, List.map_map]
      rfl
    rw [hresults] at hpart hsuffix
    exact ⟨hpart, fun hlookup hsettled => hsuffix hlookup hsettled.incoming (hall hsettled)⟩

end ClientServer

/-! ## A subscription to ticks -/

/-- A tick that is published. -/
def tick (b : Bool) : Published := ⟨tickSink, .ok (.bool b)⟩

/-- The JSON library on a request, its response and two notifications. -/
def tickJson : SerdeJson := .ofTable
  [((Request.single (.methodCall ⟨some .v2, "subscribe_tick", .none, .num 0⟩)).serialize,
      "\x7b\"jsonrpc\":\"2.0\",\"method\":\"subscribe_tick\",\"params\":null,\"id\":0\x7d"),
    ((Output.success ⟨some .v2, tickSink.id.toValue, .num 0⟩).serialize,
      "\x7b\"jsonrpc\":\"2.0\",\"result\":\"a\",\"id\":0\x7d"),
    ((tick true).notification.serialize,
      "\x7b\"jsonrpc\":\"2.0\",\"method\":\"tick\",\"params\":" ++
        "\x7b\"result\":true,\"subscription\":\"a\"\x7d\x7d"),
    ((tick false).notification.serialize,
      "\x7b\"jsonrpc\":\"2.0\",\"method\":\"tick\",\"params\":" ++
        "\x7b\"result\":false,\"subscription\":\"a\"\x7d\x7d")]

def tickService : Service literalGlobset statusLibrary Unit Unit :=
  openService tickJson ((MetaIoHandler.withCompatibility .both).addMethod "subscribe_tick" ())

/-- Publish a tick, and send it. -/
def sendTick (b : Bool) : List ClientServer.Label :=
  [.server (.push 0 ((tick b).text tickJson)), .server (.pollSender 0), .server (.checkSender 0),
    .server (.send 0 true)]

/-- A tick is published before the response to the subscription is sent, and one after it. -/
def tickExchange : List ClientServer.Label :=
  [.client (.subscribe "subscribe_tick" .none "tick" "unsubscribe_tick")] ++
    List.replicate 7 pollClient ++ [.arrive, .server .openSender] ++ sendTick true ++
    [.server (.pollTask 0 fun _ => .ready (.ok tickSink.id.toValue)),
      .server (.session (.checkActive 0)), .server (.session (.send 0))] ++
    sendTick false ++ List.replicate 12 pollClient

/-- The subscription receives the second tick. -/
theorem ClientServer.published_without_gaps_tick :
    let s := ClientServer.after (.vec _) tickService 1 plainRequest tickExchange
    ∃ before a rest sub, handlings s.duplex.trace = before ++ a :: rest ∧
      a.opens = some ((.string "a", "tick"), sub) ∧
      resultsOn sub.channel rest = [.ok (.bool false)] ∧
      resultsOn sub.channel rest <:+ [.ok (.bool true), .ok (.bool false)] := by
  intro s
  have hjson : tickJson.IsFaithful :=
    SerdeJson.isFaithful_ofTable (by decide +kernel) (by decide +kernel)
  have hpushed : (s.connection.sender 0).pushed.filter (names tickJson (.string "a", "tick")) =
      [tick true, tick false].map (Published.text tickJson) := by decide +kernel
  have hothers : ∀ i ≠ 0, ∀ text ∈ (s.connection.sender i).pushed,
      names tickJson (.string "a", "tick") text = false := by
    intro i hi text hmem
    have hlength : s.connection.senders.length = 1 := by decide +kernel
    have hnone : s.connection.senders[i]? = none := List.getElem?_eq_none (by omega)
    rw [Connection.sender, hnone] at hmem
    cases hmem
  have htrips : ∀ p ∈ [tick true, tick false], tickJson.RoundTrips p.notification.serialize := by
    intro p hmem
    rcases List.mem_pair.mp hmem with rfl | rfl
    · exact ⟨by decide +kernel, by decide +kernel⟩
    · exact ⟨by decide +kernel, by decide +kernel⟩
  -- The second message is the response to the subscription.
  have hopens : (handlings s.duplex.trace)[1]?.bind Handling.opens =
      some ((.string "a", "tick"), ⟨some (.string "a"), "tick", "unsubscribe_tick", 0⟩) := by
    decide +kernel
  obtain ⟨a, ha, hopens⟩ := Option.bind_eq_some_iff.mp hopens
  obtain ⟨hlt, heq⟩ := List.getElem?_eq_some_iff.mp ha
  have hhandlings : handlings s.duplex.trace =
      (handlings s.duplex.trace).take 1 ++ a :: (handlings s.duplex.trace).drop 2 := by
    rw [← heq, ← List.drop_eq_getElem_cons hlt, List.take_append_drop]
  have hresults := ClientServer.published_without_gaps (.vec _) tickService hjson (by decide) 1
    plainRequest tickExchange (.string "a", "tick") 0 [tick true, tick false] hpushed hothers htrips
  obtain ⟨-, hreceived⟩ := hresults.2 _ _ _ _ hhandlings hopens
  exact ⟨_, a, _, _, hhandlings, hopens, by decide +kernel, hreceived (by decide +kernel)
    ⟨by decide +kernel, by decide +kernel, by decide +kernel, by decide +kernel⟩⟩

end Ws

end JsonRpc
