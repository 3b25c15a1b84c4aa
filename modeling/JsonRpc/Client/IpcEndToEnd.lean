import JsonRpc.Client.Answering
import JsonRpc.Codec.Transit
import JsonRpc.Ipc.Answers

/-!
# The IPC client and the IPC server

The IPC client runs a duplex over a framed connection to the server. Bytes are on their way in
both directions, and arrive in pieces of any size at any time. Each side is polled at any time,
the methods return in any order, and the server sends messages of the session in between.

What the server reads are the texts of the requests, and what the client reads are the texts
that the server wrote, up to whitespace before them. So the result of a call is the one of
dispatching it, as on the local transport.
-/

namespace JsonRpc

variable {P M : Type}

/-! ## Whitespace before a text -/

/-- The JSON library skips whitespace before a text. -/
def SerdeJson.SkipsSpace (json : SerdeJson) : Prop :=
  ∀ frame text, IsUpToSpace frame text → json.fromStr frame = json.fromStr text

namespace SerdeJson.SkipsSpace

variable {json : SerdeJson} {frame text : String}

theorem parseResponse_eq (hjson : json.SkipsSpace) (h : IsUpToSpace frame text) :
    parseResponse json frame = parseResponse json text := by
  rw [parseResponse, parseResponse, hjson frame text h]

theorem responds (hjson : json.SkipsSpace) (h : IsUpToSpace frame text)
    {handler : MetaIoHandler P} {metadata : M} {returned : List (Returned P M)}
    {response : Option Response}
    (hresponds : Responds json handler frame metadata returned response) :
    Responds json handler text metadata returned response := by
  have hhandle : handler.handleRequest json frame metadata =
      handler.handleRequest json text metadata := by
    unfold MetaIoHandler.handleRequest readRequest Request.fromStr
    rw [hjson frame text h]
  unfold Responds Serving.after Serving.start at *
  rwa [hhandle] at hresponds

end SerdeJson.SkipsSpace

namespace Ipc

open BufferUnordered

/-! ## The two sides -/

/-- What a poll of the connection writes. -/
def Connection.sends (c : Connection P M) (answers : PollAnswers) : List Item :=
  if c.phase = .sending ∧ answers.ready = .ready true ∧ answers.startSend = true then
    c.bufferedItem.toList
  else []

/-- The codec of the client. -/
def clientCodec : StreamCodec := .streamIncoming

/-- The stream of the client ends with the first error. -/
def streamAnswer : Next IoError String → Poll (Option String)
  | .item text => .ready (some text)
  | .error _ | .done => .ready none
  | .pending => .pending

/-- A client and a server with a connection between them. -/
structure ClientServer (P M : Type) where
  duplex : World
  /-- The reading half of the client. -/
  reader : FramedRead
  /-- The bytes on their way to the server. -/
  toServer : Bytes
  connection : Connection P M
  /-- The bytes on their way to the client. -/
  toClient : Bytes
  /-- The bytes that arrived at the client. Nothing reads them. -/
  arrived : Bytes

namespace ClientServer

/-- What can happen. -/
inductive Label where
  /-- A step of a client or of the duplex. What the stream answers to the duplex is not part
  of the step but comes from the reading half. -/
  | client (label : JsonRpc.Label)
  /-- An iteration of the future of the server. -/
  | server (answers : PollAnswers)
  /-- The server sends a message of the session. -/
  | notify (text : String)
  | toServer (carry : Carry)
  | toClient (carry : Carry)

/-- A new connection. -/
def init : ClientServer P M := ⟨.init, .new, [], .init, [], []⟩

/-- An iteration of the duplex. The encoder takes every text. -/
def pollDuplex (json : SerdeJson) (s : ClientServer P M) (answers : TransportAnswers) :
    ClientServer P M :=
  let (reader, stream) :=
    if s.duplex.phase = .stream then
      let (reader, next) := s.reader.pollNext clientCodec
      (reader, streamAnswer next)
    else (s.reader, .pending)
  let label := .poll { answers with stream, startSend := true }
  { s with
    duplex := s.duplex.step json label
    reader
    toServer := s.toServer ++ clientCodec.encodeAll (s.duplex.sends label) }

def step (service : Service P M) (s : ClientServer P M) : Label → ClientServer P M
  | .client (.poll answers) => s.pollDuplex service.json answers
  | .client label => { s with duplex := s.duplex.step service.json label }
  | .server answers =>
    { s with
      connection := s.connection.step service (.poll answers)
      toClient := s.toClient ++
        service.codec.encodeAll ((s.connection.sends answers).map Item.text) }
  | .notify text => { s with connection := s.connection.step service (.notify text) }
  | .toServer carry =>
    match carry.read s.toServer with
    | some read =>
      { s with
        connection := s.connection.step service (.arrive read)
        toServer := carry.rest s.toServer }
    | none => s
  | .toClient carry =>
    match carry.read s.toClient with
    | some read =>
      { s with
        reader := s.reader.arrive read
        arrived := s.arrived ++ readBytes [read]
        toClient := carry.rest s.toClient }
    | none => s

/-- The client and the server after a run. -/
def after (service : Service P M) (labels : List Label) : ClientServer P M :=
  Runs.run (step service) init labels

end ClientServer

/-! ## What the server writes -/

namespace Connection

variable {service : Service P M} {c : Connection P M}

/-- Taking an item neither reads nor writes bytes. -/
@[simp] theorem wire_select (checkedStrong : Bool)
    (answer : Poll (Option (Except IoError Item))) :
    (c.select checkedStrong answer).arrived = c.arrived ∧
      (c.select checkedStrong answer).written = c.written := by
  unfold select
  dsimp only
  split <;> exact ⟨rfl, rfl⟩

theorem wire_pollStrong (checkedStrong : Bool)
    (schedule : List (ℕ × (ℕ → Poll (Except Error Value)))) :
    (c.pollStrong service checkedStrong schedule).arrived = c.arrived ∧
      (c.pollStrong service checkedStrong schedule).written = c.written := by
  unfold pollStrong
  split
  · dsimp only
    split
    · simp
    · exact ⟨rfl, rfl⟩
  · simp
  · simp
  · simp

theorem wire_pollWeak (checkedStrong : Bool) :
    (c.pollWeak checkedStrong).arrived = c.arrived ∧
      (c.pollWeak checkedStrong).written = c.written := by
  unfold pollWeak
  split <;> simp

theorem wire_pollSend (ready : Poll Bool) (startSend : Bool) :
    (c.pollSend ready startSend).arrived = c.arrived ∧
      (c.pollSend ready startSend).written = c.written ++
        if ready = .ready true ∧ startSend = true then c.bufferedItem.toList else [] := by
  unfold pollSend
  split
  · simp
  · rename_i item hitem
    split
    · rename_i hstart
      simp [hstart, hitem]
    · rename_i hstart
      simp [hstart]
  · rename_i hitem
    simp [hitem]
  · simp

theorem sends_of_ne (hphase : c.phase ≠ .sending) (answers : PollAnswers) :
    c.sends answers = [] := if_neg fun h => hphase h.1

/-- A poll writes at most the buffered item. -/
theorem wire_poll (service : Service P M) (c : Connection P M) (answers : PollAnswers) :
    (c.poll service answers).arrived = c.arrived ∧
      (c.poll service answers).written = c.written ++ c.sends answers := by
  by_cases hsending : c.phase = .sending
  · rw [poll, hsending]
    simp [wire_pollSend, sends, hsending]
  · rw [sends_of_ne hsending, List.append_nil, poll]
    split
    · split
      · exact ⟨rfl, rfl⟩
      · split <;> exact ⟨rfl, rfl⟩
    · rename_i hphase
      exact absurd hphase hsending
    · split
      · exact wire_pollStrong _ _
      · exact wire_pollWeak _
    · split <;> exact ⟨rfl, rfl⟩
    · split <;> exact ⟨rfl, rfl⟩
    · exact ⟨rfl, rfl⟩

end Connection

/-! ## What is in transit -/

namespace ClientServer

variable {service : Service P M} {s : ClientServer P M}

/-- What holds of the client and the server after every run. -/
structure Inv (service : Service P M) (s : ClientServer P M) : Prop where
  duplex : s.duplex.Inv service.json
  writes : s.duplex.Writes service.json
  connection : s.connection.Inv service
  reads : FramedRead.Reads clientCodec s.arrived s.reader
  /-- What arrived at the server and what is on its way are the texts that the duplex sent. -/
  requests_eq : s.connection.arrived ++ s.toServer =
    clientCodec.encodeAll (sentTexts s.duplex.trace)
  /-- What arrived at the client and what is on its way are the texts that the server wrote. -/
  responses_eq : s.arrived ++ s.toClient =
    service.codec.encodeAll (s.connection.written.map Item.text)
  received_eq : receivedTexts s.duplex.trace = s.reader.taken

theorem inv_init (service : Service P M) : (init : ClientServer P M).Inv service where
  duplex := World.inv_init _
  writes := World.writes_init _
  connection := Connection.inv_init service
  reads := FramedRead.reads_new
  requests_eq := rfl
  responses_eq := rfl
  received_eq := rfl

/-- The text that the stream gives is the one that the reading half takes. -/
theorem taken_streamAnswer (next : Next IoError String) :
    Local.taken (streamAnswer next) = next.items := by
  cases next <;> rfl

/-- A step of the duplex that takes what the reading half gives. -/
theorem Inv.stepDuplex (h : s.Inv service) {reader : FramedRead} {label : JsonRpc.Label}
    (hreads : FramedRead.Reads clientCodec s.arrived reader)
    (htaken : reader.taken = s.reader.taken ++ s.duplex.receives label) :
    Inv service
      { s with
        duplex := s.duplex.step service.json label
        reader
        toServer := s.toServer ++ clientCodec.encodeAll (s.duplex.sends label) } := by
  have hexchanges := World.exchanges_step service.json s.duplex label
  refine ⟨h.duplex.step label, h.writes.step label, h.connection, hreads, ?_, h.responses_eq, ?_⟩
  · rw [← List.append_assoc, h.requests_eq, hexchanges.sentTexts_eq,
      StreamCodec.encodeAll_append]
  · rw [hexchanges.receivedTexts_eq, htaken, h.received_eq]

theorem Inv.pollDuplex (h : s.Inv service) (answers : TransportAnswers) :
    (s.pollDuplex service.json answers).Inv service := by
  unfold ClientServer.pollDuplex
  by_cases hphase : s.duplex.phase = .stream
  · have hpolls := FramedRead.polls_pollNext h.reads
    rw [if_pos hphase]
    generalize s.reader.pollNext clientCodec = polled at hpolls
    refine h.stepDuplex hpolls.reads ?_
    rw [hpolls.taken_eq, World.receives, if_pos hphase, taken_streamAnswer]
  · rw [if_neg hphase]
    refine h.stepDuplex h.reads ?_
    rw [World.receives, if_neg hphase, List.append_nil]

theorem Inv.stepClient (h : s.Inv service) (label : JsonRpc.Label) :
    (s.step service (.client label)).Inv service := by
  have hclient (label : JsonRpc.Label) (hsends : s.duplex.sends label = [])
      (hreceives : s.duplex.receives label = []) :
      Inv service { s with duplex := s.duplex.step service.json label } := by
    have htaken : s.reader.taken = s.reader.taken ++ s.duplex.receives label := by
      rw [hreceives, List.append_nil]
    have hstep := h.stepDuplex h.reads htaken
    rw [hsends] at hstep
    simpa [StreamCodec.encodeAll] using hstep
  cases label with
  | poll answers => exact h.pollDuplex answers
  | callMethod method params => exact hclient _ rfl rfl
  | notify method params => exact hclient _ rfl rfl
  | subscribe subscribe params notification unsubscribe => exact hclient _ rfl rfl
  | dropClients => exact hclient _ rfl rfl
  | dropCall sender => exact hclient _ rfl rfl
  | dropSubscription channel => exact hclient _ rfl rfl

/-- Every step keeps the invariant. -/
theorem Inv.step (h : s.Inv service) (label : Label) : (s.step service label).Inv service := by
  cases label with
  | client label => exact h.stepClient label
  | server answers =>
    obtain ⟨harrived, hwritten⟩ := Connection.wire_poll service s.connection answers
    refine ⟨h.duplex, h.writes, h.connection.step (.poll answers), h.reads, ?_, ?_, h.received_eq⟩
    · exact (congrArg (· ++ s.toServer) harrived).trans h.requests_eq
    · rw [ClientServer.step, Connection.step, hwritten, List.map_append,
        StreamCodec.encodeAll_append, ← h.responses_eq, List.append_assoc]
  | notify text =>
    exact ⟨h.duplex, h.writes, h.connection.step (.notify text), h.reads, h.requests_eq,
      h.responses_eq, h.received_eq⟩
  | toServer carry =>
    rw [ClientServer.step]
    split
    · rename_i read hread
      refine ⟨h.duplex, h.writes, h.connection.step (.arrive read), h.reads, ?_, h.responses_eq,
        h.received_eq⟩
      rw [← h.requests_eq, Connection.step, List.append_assoc, Carry.readBytes_read hread]
    · exact h
  | toClient carry =>
    rw [ClientServer.step]
    split
    · rename_i read hread
      refine ⟨h.duplex, h.writes, h.connection, h.reads.arrive read, h.requests_eq, ?_,
        h.received_eq⟩
      rw [← h.responses_eq, List.append_assoc, Carry.readBytes_read hread]
    · exact h

theorem inv_after (service : Service P M) (labels : List Label) :
    (after service labels).Inv service :=
  Runs.run_invariant (inv_init service) (fun _ label h => h.step label) labels

/-! ## Agreement -/

section Results

/-- What the server answers are requests of the duplex. -/
theorem Inv.exists_request (h : s.Inv service) (hcodec : service.codec.incomingSeparator = .empty)
    (hdocs : ∀ text ∈ sentTexts s.duplex.trace, IsDocument text) {answered : Answered P M}
    (hmem : answered ∈ s.connection.answered) :
    ∃ request, (queuedRequests s.duplex.trace)[answered.job.number]? = some request ∧
      IsUpToSpace answered.job.text (request.toString service.json) := by
  have hjob : answered.job ∈ jobsOf s.connection.pool.source.taken := by
    rw [h.connection.pool.jobs_perm.mem_iff]
    exact List.mem_append_left _ (List.mem_map_of_mem hmem)
  have htaken : s.connection.pool.source.taken[answered.job.number]? = some answered.job.text := by
    obtain ⟨i, hi, hjob⟩ := List.mem_mapIdx.mp hjob
    rw [← hjob]
    exact List.getElem?_eq_getElem hi
  obtain ⟨text, htext, hframe⟩ := h.connection.pool.reads.exists_text hcodec
    isWhitespace_suffix_streamIncoming hdocs h.requests_eq htaken
  have hqueued : ((queuedRequests s.duplex.trace).map
      (Request.toString service.json))[answered.job.number]? = some text := by
    rw [← h.writes.texts_eq]
    exact getElem?_of_initial (List.prefix_append _ _) htext
  rw [List.getElem?_map] at hqueued
  obtain ⟨request, hrequest, rfl⟩ := Option.map_eq_some_iff.mp hqueued
  exact ⟨request, hrequest, hframe⟩

/-- What the duplex receives is what the server wrote. -/
theorem Inv.exists_item (h : s.Inv service)
    (hcodec : ∀ byte ∈ service.codec.outgoingSeparator.suffix, isWhitespace byte)
    (hdocs : ∀ item ∈ s.connection.written, IsDocument item.text) {text : String}
    (hmem : text ∈ receivedTexts s.duplex.trace) :
    ∃ item ∈ s.connection.written, IsUpToSpace text item.text := by
  rw [h.received_eq] at hmem
  obtain ⟨i, htaken⟩ := List.mem_iff_getElem?.mp hmem
  have htexts : ∀ text ∈ s.connection.written.map Item.text, IsDocument text :=
    List.forall_mem_map.mpr hdocs
  obtain ⟨text', htext', hframe⟩ := h.reads.exists_text rfl hcodec htexts h.responses_eq htaken
  obtain ⟨item, hitem, rfl⟩ := List.mem_map.mp (List.mem_of_getElem? htext')
  exact ⟨item, hitem, hframe⟩

/-- What the server wrote is the response to a request that it answered, or a message of the
session. -/
theorem Inv.item_cases (h : s.Inv service) {item : Item} (hmem : item ∈ s.connection.written) :
    (∃ answered ∈ s.connection.answered, ∃ response, answered.response = some response ∧
      item.text = writeResponse service.json response) ∨
      item.text ∈ s.connection.notified := by
  have hitems : item ∈ s.connection.items := List.mem_append_left _ hmem
  cases item with
  | response job text =>
    left
    have hreply : (job, text) ∈ s.connection.answered.filterMap (Answered.reply service.json) := by
      rw [← h.connection.responses_eq]
      exact List.mem_filterMap.mpr ⟨_, hitems, rfl⟩
    obtain ⟨answered, hanswered, hreply⟩ := List.mem_filterMap.mp hreply
    obtain ⟨response, hresponse, heq⟩ := Option.map_eq_some_iff.mp hreply
    cases heq
    exact ⟨answered, hanswered, response, hresponse, rfl⟩
  | notification text =>
    right
    rw [← h.connection.notifications_eq]
    exact List.mem_append_left _ (List.mem_filterMap.mpr ⟨_, hitems, rfl⟩)

/-- What the duplex receives are answers to its requests. -/
theorem Inv.answers (h : s.Inv service) (hjson : service.json.IsFaithful)
    (hskips : service.json.SkipsSpace)
    (hversion : service.handler.compatibility.isVersionValid (some .v2))
    (hincoming : service.codec.incomingSeparator = .empty)
    (houtgoing : ∀ byte ∈ service.codec.outgoingSeparator.suffix, isWhitespace byte)
    (hrequests : ∀ text ∈ sentTexts s.duplex.trace, IsDocument text)
    (hresponses : ∀ item ∈ s.connection.written, IsDocument item.text)
    (hnotified : ∀ text ∈ s.connection.notified, ∀ m, parseResponse service.json text = .ok m →
      m.id = .null) :
    ∀ text ∈ receivedTexts s.duplex.trace, ∀ m, parseResponse service.json text = .ok m →
      m.Answers service.handler service.metadata (queuedRequests s.duplex.trace)
        (s.connection.answered.flatMap Answered.returned) := by
  intro text hmem m hparse
  obtain ⟨item, hitem, hframe⟩ := h.exists_item houtgoing hresponses hmem
  rw [hskips.parseResponse_eq hframe] at hparse
  rcases h.item_cases hitem with ⟨answered, hanswered, response, hresponse, htext⟩ | htext
  · obtain ⟨request, hrequest, hframe'⟩ := h.exists_request hincoming hrequests hanswered
    have hqueued := List.mem_of_getElem? hrequest
    have hresponds := hskips.responds hframe' (h.connection.responds answered hanswered)
    rw [hresponse] at hresponds
    rw [htext] at hparse
    exact hresponds.answers hjson hversion (h.writes.fromClient request hqueued) hqueued
      (fun _ hreturned => List.mem_flatMap.mpr ⟨answered, hanswered, hreturned⟩) hparse
  · exact .inl (hnotified _ htext m hparse)

end Results

/-- **Requests arrive whole and once.** Let the texts that the client sends be JSON objects. In
every run, however the bytes are cut into pieces, a request that the server answers is the one
that the client sent at this position, up to whitespace before it, and no request is answered
twice. -/
theorem answered_requests (service : Service P M)
    (hincoming : service.codec.incomingSeparator = .empty) (labels : List Label)
    (hrequests : ∀ text ∈ sentTexts (after service labels).duplex.trace, IsDocument text) :
    let s := after service labels
    (s.connection.answered.map fun answered => answered.job.number).Nodup ∧
      ∀ answered ∈ s.connection.answered,
        ∃ request, (queuedRequests s.duplex.trace)[answered.job.number]? = some request ∧
          IsUpToSpace answered.job.text (request.toString service.json) := by
  intro s
  have h : s.Inv service := inv_after service labels
  refine ⟨?_, fun answered hmem => h.exists_request hincoming hrequests hmem⟩
  have hnumbers : ((jobsOf s.connection.pool.source.taken).map Job.number).Nodup := by
    have heq : (jobsOf s.connection.pool.source.taken).map Job.number =
        List.range s.connection.pool.source.taken.length := by
      apply List.ext_getElem
      · simp [jobsOf]
      · intro i hi hi'
        simp [jobsOf]
    rw [heq]
    exact List.nodup_range
  have hperm := h.connection.pool.jobs_perm.map Job.number
  rw [List.map_append, List.map_map] at hperm
  exact (hperm.nodup_iff.mp hnumbers).of_append_left

/-- **Agreement of the IPC client with the server.** Let the texts that both sides write be JSON
objects or arrays, and let no message of the session be a response. In every run with fewer than
`2 ^ 64` ids, however the bytes are cut into pieces and in whatever order the methods return, the
result that a call receives is the one of dispatching its method and its parameters. -/
theorem delivered_dispatched (service : Service P M) (hjson : service.json.IsFaithful)
    (hskips : service.json.SkipsSpace) (hcompatibility : service.handler.compatibility ≠ .v1)
    (hincoming : service.codec.incomingSeparator = .empty)
    (houtgoing : ∀ byte ∈ service.codec.outgoingSeparator.suffix, isWhitespace byte)
    (labels : List Label)
    (hrequests : ∀ text ∈ sentTexts (after service labels).duplex.trace, IsDocument text)
    (hresponses : ∀ item ∈ (after service labels).connection.written, IsDocument item.text)
    (hnotified : ∀ text ∈ (after service labels).connection.notified, ∀ m,
      parseResponse service.json text = .ok m → m.id = .null)
    (hcount : (issuedIds (after service labels).duplex.trace).length < 2 ^ 64) :
    let s := after service labels
    ∀ sender method params result, .called sender method params ∈ s.duplex.trace →
      .delivered sender result ∈ s.duplex.trace →
      ∃ call text, .registered call text (.call sender) ∈ s.duplex.trace ∧
        call.method = method ∧ call.params = params ∧
        LocalWorld.Agrees service.handler service.metadata
          (s.connection.answered.flatMap Answered.returned) call result := by
  intro s sender method params result hcalled hdelivered
  have h : s.Inv service := inv_after service labels
  have hversion := isVersionValid_of_ne_v1 hcompatibility
  exact h.duplex.agrees h.writes hcount
    (h.answers hjson hskips hversion hincoming houtgoing hrequests hresponses hnotified)
    hcalled hdelivered

end ClientServer

/-! ## A call over IPC -/

/-- The JSON library on a table, which skips whitespace before a text. -/
def spacedJson (table : List (Content × String)) : SerdeJson where
  toString := (SerdeJson.ofTable table).toString
  fromStr text :=
    (table.find? fun entry => intoBytes entry.2 = (intoBytes text).dropWhile isWhitespace).map
      Prod.fst

theorem skipsSpace_spacedJson (table : List (Content × String)) :
    (spacedJson table).SkipsSpace := by
  rintro frame text ⟨space, hspace, hframe⟩
  simp only [spacedJson, hframe, List.dropWhile_append_of_pos hspace]

/-- A text without whitespace before it is looked up as it is. -/
theorem fromStr_spacedJson (table : List (Content × String)) {text : String}
    (htext : (intoBytes text).dropWhile isWhitespace = intoBytes text) :
    (spacedJson table).fromStr text = (SerdeJson.ofTable table).fromStr text := by
  have hinj : ∀ entry : Content × String, intoBytes entry.2 = intoBytes text ↔ entry.2 = text := by
    intro entry
    constructor
    · intro h
      have hsome := (fromUtf8_eq_some.mpr rfl : fromUtf8 (intoBytes entry.2) = some entry.2)
      rw [h, fromUtf8_eq_some.mpr rfl] at hsome
      exact (Option.some.inj hsome).symm
    · exact congrArg intoBytes
  simp only [spacedJson, SerdeJson.ofTable, htext, hinj]

theorem isFaithful_spacedJson {table : List (Content × String)}
    (hnodup : (table.map Prod.snd).Nodup) (hempty : "" ∉ table.map Prod.snd)
    (hspace : ∀ entry ∈ table, (intoBytes entry.2).dropWhile isWhitespace = intoBytes entry.2) :
    (spacedJson table).IsFaithful := by
  intro c c' hc
  have htext : (intoBytes ((SerdeJson.ofTable table).toString c)).dropWhile isWhitespace =
      intoBytes ((SerdeJson.ofTable table).toString c) := by
    simp only [SerdeJson.ofTable]
    cases hfind : table.find? fun entry => entry.1 = c with
    | none => rfl
    | some entry => exact hspace entry (List.mem_of_find?_eq_some hfind)
  refine SerdeJson.isFaithful_ofTable hnodup hempty c c' ?_
  rw [← fromStr_spacedJson table htext]
  exact hc

/-- The characters of a text as those of a JSON string, without escapes. -/
def rawChars (text : String) : List JsonText.StrChar :=
  text.toList.filterMap fun c =>
    if h : 0x20 ≤ c.toNat ∧ c.toNat ≠ 0x22 ∧ c.toNat ≠ 0x5C then some (.raw c h.1 h.2.1 h.2.2)
    else none

/-- The members of an object, without whitespace. -/
def membersOf (first : String × JsonText.Json) : List (String × JsonText.Json) → JsonText.Members
  | [] => .last [] (rawChars first.1) [] [] first.2 []
  | next :: rest => .more [] (rawChars first.1) [] [] first.2 [] (membersOf next rest)

/-- A call of `pong`. -/
def pongRequest : JsonText.Document where
  value := .object (membersOf ("jsonrpc", .string (rawChars "2.0"))
    [("method", .string (rawChars "pong")), ("params", .null),
      ("id", .number ⟨false, .zero, none, none⟩)])
  isContainer := rfl

/-- The response to the call. -/
def pongResponse : JsonText.Document where
  value := .object (membersOf ("jsonrpc", .string (rawChars "2.0"))
    [("result", .true), ("id", .number ⟨false, .zero, none, none⟩)])
  isContainer := rfl

/-- A server with the method of the call. -/
def pongIpc : Service Unit Unit where
  json := spacedJson
    [((Request.single (.methodCall ⟨some .v2, "pong", .none, .num 0⟩)).serialize, pongRequest.text),
      ((Output.success ⟨some .v2, .bool true, .num 0⟩).serialize, pongResponse.text)]
  handler := pongHandler
  metadata := ()
  codec := .streamIncoming
  clientBufferSize := 5

/-- An iteration of the duplex, when the writing half takes everything. -/
def pollClient : ClientServer.Label := .client (.poll ⟨.pending, .ready true, true, .ready true⟩)

/-- An iteration of the server, when the method returns and the writing half takes everything. -/
def pollServer : ClientServer.Label :=
  .server ⟨[(0, fun _ => .ready (.ok (.bool true)))], .ready true, true, .ready true, .ready true⟩

/-- A call of `pong`. The request arrives in two pieces, the response in three. -/
def pongExchange : List ClientServer.Label :=
  [.client (.callMethod "pong" .none)] ++ List.replicate 7 pollClient ++
    [.toServer (.bytes 20), pollServer, .toServer (.bytes 100)] ++ List.replicate 5 pollServer ++
    [.toClient (.bytes 1), .toClient (.bytes 20), .toClient (.bytes 100)] ++
    List.replicate 7 pollClient

theorem isDocument_pongRequest : ∀ text ∈
    sentTexts (ClientServer.after pongIpc pongExchange).duplex.trace, IsDocument text := by
  have hsent : sentTexts (ClientServer.after pongIpc pongExchange).duplex.trace =
      [pongRequest.text] := by decide +kernel
  intro text hmem
  rw [hsent, List.mem_singleton] at hmem
  exact ⟨pongRequest, hmem.symm, by decide⟩

theorem isDocument_pongResponse : ∀ item ∈
    (ClientServer.after pongIpc pongExchange).connection.written, IsDocument item.text := by
  have hwritten : (ClientServer.after pongIpc pongExchange).connection.written.map Item.text =
      [pongResponse.text] := by decide +kernel
  intro item hmem
  have htext := List.mem_map_of_mem (f := Item.text) hmem
  rw [hwritten, List.mem_singleton] at htext
  exact ⟨pongResponse, htext.symm, by decide⟩

/-- The server answers the request of the client. -/
theorem ClientServer.answered_requests_pong :
    let s := ClientServer.after pongIpc pongExchange
    s.connection.answered.length = 1 ∧
      ∀ answered ∈ s.connection.answered,
        ∃ request, (queuedRequests s.duplex.trace)[answered.job.number]? = some request ∧
          IsUpToSpace answered.job.text (request.toString pongIpc.json) :=
  ⟨by decide +kernel,
    (ClientServer.answered_requests pongIpc rfl pongExchange isDocument_pongRequest).2⟩

/-- The call receives what the method returned. -/
theorem ClientServer.delivered_dispatched_pong :
    let s := ClientServer.after pongIpc pongExchange
    .delivered 0 (.ok (.bool true)) ∈ s.duplex.trace ∧
      ∃ call text, .registered call text (.call 0) ∈ s.duplex.trace ∧ call.method = "pong" ∧
        call.params = .none ∧
        LocalWorld.Agrees pongHandler () (s.connection.answered.flatMap Answered.returned) call
          (.ok (.bool true)) := by
  have hjson : pongIpc.json.IsFaithful :=
    isFaithful_spacedJson (by decide +kernel) (by decide +kernel) (by decide +kernel)
  have hnotified : (ClientServer.after pongIpc pongExchange).connection.notified = [] := by
    decide +kernel
  have hagrees := ClientServer.delivered_dispatched pongIpc hjson (skipsSpace_spacedJson _)
    (by decide) rfl isWhitespace_suffix_streamIncoming pongExchange isDocument_pongRequest
    isDocument_pongResponse (by simp [hnotified]) (by decide +kernel)
  exact ⟨by decide +kernel, hagrees 0 "pong" .none _ (by decide +kernel) (by decide +kernel)⟩

end Ipc

end JsonRpc
