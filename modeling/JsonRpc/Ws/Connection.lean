import JsonRpc.Core.Serving
import JsonRpc.Ws.Progress
import JsonRpc.Ws.Upgrade

/-!
# A connection of the WebSocket server

A connection starts with a handshake. Every message after it starts a task, which waits for the
response of the handler and sends it. The extractor of the metadata may open channels, through
which texts are sent to the peer: for each of them there is a task that takes the texts from
the channel. The tasks run in threads of their own, so every access to the connection is a step
of the model. What the methods and the library of websockets answer is part of a step.

The library calls the session with a message only after it has answered the handshake with the
status 101, and before it drops the session.
-/

namespace JsonRpc.Ws

open ServerUtils

/-- What a connection needs to serve requests. -/
structure Service (G : Globset) (L : Library) (P M : Type) extends Access G L M where
  json : SerdeJson
  handler : MetaIoHandler P

/-- A message of the peer. -/
inductive Message where
  | text (data : String)
  | binary (data : Bytes)
  deriving DecidableEq

def Message.asText : Message → Option String
  | text data => some data
  | binary data => fromUtf8 data

/-- The step of a session is not part of another step of the connection. -/
def Label.isOwn : Label → Bool
  | onMessage _ | complete _ _ | pollLiveness _ | push => false
  | _ => true

/-! ## Responses -/

/-- A message that is handled, with the future of its response. -/
structure Job (P M : Type) where
  text : String
  metadata : M
  serving : Serving P M
  answered : Option (Answered P M)

/-- The text that is sent as an answer. -/
def Job.reply {P M : Type} (json : SerdeJson) (job : Job P M) : Option String :=
  (job.answered.bind Answered.response).map (writeResponse json)

/-! ## Channels -/

/-- Where a `SenderFuture` is. -/
inductive SenderPhase where
  | waiting
  /-- A text was taken from the channel. -/
  | checking (text : String)
  /-- `Sender::check_active` has succeeded. -/
  | writing (text : String)
  | finished
  deriving DecidableEq

/-- A `SenderFuture` with its channel. -/
structure SenderFuture where
  queue : List String
  /-- All senders of the channel are dropped. -/
  closed : Bool
  phase : SenderPhase
  /-- The texts that were put into the channel. Nothing reads them. -/
  pushed : List String
  deriving DecidableEq

namespace SenderFuture

def new : SenderFuture := ⟨[], false, .waiting, []⟩

/-- Put a text into the channel, unless it is closed. -/
def push (text : String) (s : SenderFuture) : SenderFuture :=
  if s.closed || s.phase = .finished then s
  else { s with queue := s.queue ++ [text], pushed := s.pushed ++ [text] }

def close (s : SenderFuture) : SenderFuture := { s with closed := true }

/-- Take a text from the channel. -/
def pollNext (s : SenderFuture) : SenderFuture :=
  match s.phase, s.queue with
  | .waiting, text :: queue => { s with queue, phase := .checking text }
  | .waiting, [] => if s.closed then { s with phase := .finished } else s
  | _, _ => s

def checkActive (active : Bool) (s : SenderFuture) : SenderFuture :=
  match s.phase with
  | .checking text => { s with phase := if active then .writing text else .finished }
  | _ => s

/-- The text is handed to the connection, which may fail. -/
def send (isOk : Bool) (s : SenderFuture) : SenderFuture :=
  match s.phase with
  | .writing _ => { s with phase := if isOk then .waiting else .finished }
  | _ => s

/-- The text that is about to be handed to the connection. -/
def writes (s : SenderFuture) : List String :=
  match s.phase with
  | .writing text => [text]
  | _ => []

/-- The text that was taken from the channel. -/
def held (s : SenderFuture) : List String :=
  match s.phase with
  | .checking text | .writing text => [text]
  | _ => []

end SenderFuture

/-! ## The connection -/

/-- Who sends a message. -/
inductive Source where
  | task (task : ℕ)
  | sender (sender : ℕ)
  deriving DecidableEq

/-- A message to the peer. -/
structure Output where
  source : Source
  text : String
  deriving DecidableEq

/-- The texts of a source. -/
def sentBy (source : Source) (out : List Output) : List String :=
  (out.filter fun output => output.source = source).map Output.text

@[simp] theorem sentBy_append (source : Source) (out out' : List Output) :
    sentBy source (out ++ out') = sentBy source out ++ sentBy source out' := by
  simp [sentBy]

theorem mem_sentBy {source : Source} {text : String} {out : List Output} :
    text ∈ sentBy source out ↔ ⟨source, text⟩ ∈ out := by
  simp only [sentBy, List.mem_map, List.mem_filter, decide_eq_true_eq]
  constructor
  · rintro ⟨output, ⟨hmem, rfl⟩, rfl⟩
    exact hmem
  · intro hmem
    exact ⟨_, ⟨hmem, rfl⟩, rfl⟩

theorem sentBy_map (source source' : Source) (texts : List String) :
    sentBy source (texts.map fun text => ⟨source', text⟩) =
      if source' = source then texts else [] := by
  by_cases hsource : source' = source <;> simp [sentBy, hsource, List.filter_map, Function.comp_def]

/-- What the library does with the connection. -/
inductive Link where
  | connecting
  | opened
  | refused
  deriving DecidableEq

/-- A connection. -/
structure Connection (S : Slab (Option ℕ)) (G : Globset) (P M : Type) where
  link : Link
  handshake : Handshake G M
  session : Session S
  /-- The handled messages, each with the number of its task. -/
  jobs : List (Job P M)
  senders : List SenderFuture
  out : List Output
  /-- The metadata was not there when a message came. -/
  panicked : Bool
  /-- The request of the handshake. Nothing reads it. -/
  request : Option Request
  /-- The messages of the peer that the library passes on. Nothing reads them. -/
  received : List Message

namespace Connection

/-- What can happen. -/
inductive Label where
  | request (req : Request)
  | message (msg : Message)
  /-- A poll of the task of a message, when the methods answer with `answers`. -/
  | pollTask (task : ℕ) (answers : ℕ → Poll (Except Error Value))
  /-- Another step of a task, or of the session. -/
  | session (l : Ws.Label)
  | openSender
  | push (sender : ℕ) (text : String)
  | closeSender (sender : ℕ)
  | pollSender (sender : ℕ)
  | checkSender (sender : ℕ)
  | send (sender : ℕ) (isOk : Bool)

variable {S : Slab (Option ℕ)} {G : Globset} {L : Library} {P M : Type}

def new (S : Slab (Option ℕ)) (sessionId : SessionId) : Connection S G P M :=
  ⟨.connecting, .new sessionId, .new S, [], [], [], false, none, []⟩

/-- A step of the session, with what it hands to the connection. -/
def sessionStep (c : Connection S G P M) (l : Ws.Label) : Connection S G P M :=
  { c with
    session := c.session.step l
    out := c.out ++ (c.session.handsOver l).map fun sent => ⟨.task sent.1, sent.2⟩ }

def onRequest (service : Service G L P M) (c : Connection S G P M) (req : Request) :
    Connection S G P M :=
  let (handshake, response) := c.handshake.onRequest service.toAccess req
  { c with
    handshake
    link := if Handshake.isUpgrade response then .opened else .refused
    request := some req }

/-- Start a task for a request. -/
def spawn (service : Service G L P M) (c : Connection S G P M) (req : String) (metadata : M) :
    Connection S G P M :=
  { c with
    session := c.session.step (.onMessage true)
    jobs := c.jobs ++ [⟨req, metadata, .start service.json service.handler req metadata, none⟩] }

/-- Handle a message. A message that is no text is an error for the library. -/
def onMessage (service : Service G L P M) (c : Connection S G P M) (msg : Message) :
    Connection S G P M :=
  match msg.asText with
  | none => c
  | some req =>
    match c.handshake.metadata with
    | none => { c with panicked := true }
    | some metadata => c.spawn service req metadata

/-- Poll the response first, and then whether the session is live. -/
def pollTask (service : Service G L P M) (c : Connection S G P M) (task : ℕ)
    (answers : ℕ → Poll (Except Error Value)) : Connection S G P M :=
  match c.session.tasks[task]?, c.jobs[task]? with
  | some t, some job =>
    if t.phase = .waiting then
      match job.serving.poll answers with
      | (serving, some (response, returned)) =>
        { c.sessionStep (.complete task (response.map (writeResponse service.json))) with
          jobs := c.jobs.set task
            { job with serving, answered := some ⟨job.text, response, returned⟩ } }
      | (serving, none) =>
        { c.sessionStep (.pollLiveness task) with jobs := c.jobs.set task { job with serving } }
    else c
  | _, _ => c

def modifySender (c : Connection S G P M) (sender : ℕ) (f : SenderFuture → SenderFuture) :
    Connection S G P M :=
  { c with senders := c.senders.modify sender f }

/-- A channel. A channel that is not there is like a new one. -/
def sender (c : Connection S G P M) (i : ℕ) : SenderFuture := c.senders[i]?.getD .new

/-- Hand a text to the connection. -/
def send (c : Connection S G P M) (sender : ℕ) (isOk : Bool) : Connection S G P M :=
  let texts := if isOk then (c.sender sender).writes else []
  { c.modifySender sender (SenderFuture.send isOk) with
    out := c.out ++ texts.map fun text => ⟨.sender sender, text⟩ }

def step (service : Service G L P M) (c : Connection S G P M) : Label → Connection S G P M
  | .request req => if c.link = .connecting then c.onRequest service req else c
  | .message msg =>
    if c.link = .opened ∧ c.session.phase = .alive then
      { c with received := c.received ++ [msg] }.onMessage service msg
    else c
  | .pollTask task answers => c.pollTask service task answers
  | .session l => if l.isOwn then c.sessionStep l else c
  | .openSender => { c with senders := c.senders ++ [.new] }
  | .push sender text => c.modifySender sender (SenderFuture.push text)
  | .closeSender sender => c.modifySender sender SenderFuture.close
  | .pollSender sender => c.modifySender sender SenderFuture.pollNext
  | .checkSender sender => c.modifySender sender (SenderFuture.checkActive c.session.active)
  | .send sender isOk => c.send sender isOk

/-- A connection after a run. -/
def after (S : Slab (Option ℕ)) (service : Service G L P M) (sessionId : SessionId)
    (labels : List Label) : Connection S G P M :=
  Runs.run (step service) (new S sessionId) labels

/-- The texts among the messages of the peer. -/
def texts (c : Connection S G P M) : List String := c.received.filterMap Message.asText

/-! ## Who is served -/

section Entering

variable {service : Service G L P M} {sessionId : SessionId} {c : Connection S G P M}

/-- The connection was opened by a request that passed, and has its metadata. -/
structure OpenedBy (service : Service G L P M) (sessionId : SessionId) (c : Connection S G P M)
    (req : Request) : Prop where
  request_eq : c.request = some req
  passes : service.Passes req
  upgrade : service.isUpgrade sessionId req = true
  metadata_eq : c.handshake.metadata = some (service.metadataOf sessionId req)

/-- Messages are handled only on a connection that is open. -/
structure Entered (service : Service G L P M) (sessionId : SessionId) (c : Connection S G P M) :
    Prop where
  connecting : c.link = .connecting → c.handshake = .new sessionId
  opened : c.link = .opened → ∃ req, c.OpenedBy service sessionId req
  received : c.received ≠ [] → c.link = .opened
  metadata : ∀ job ∈ c.jobs, c.handshake.metadata = some job.metadata
  texts_eq : c.jobs.map Job.text = c.texts
  panicked : c.panicked = false

theorem entered_new : (new S sessionId : Connection S G P M).Entered service sessionId where
  connecting _ := rfl
  opened h := by cases h
  received h := absurd rfl h
  metadata _ h := by cases h
  texts_eq := rfl
  panicked := rfl

/-- A message is handled on a connection that is open. -/
theorem Entered.link_eq (h : c.Entered service sessionId) {job : Job P M} (hmem : job ∈ c.jobs) :
    c.link = .opened := by
  refine h.received fun hnil => ?_
  have htext : job.text ∈ c.texts := h.texts_eq ▸ List.mem_map_of_mem hmem
  rw [texts, hnil] at htext
  cases htext

/-- A step that leaves the handshake and the messages alone. -/
theorem Entered.of_jobs (h : c.Entered service sessionId) {c' : Connection S G P M}
    (hlink : c'.link = c.link) (hhandshake : c'.handshake = c.handshake)
    (hrequest : c'.request = c.request) (hreceived : c'.received = c.received)
    (hpanicked : c'.panicked = c.panicked)
    (hjobs : c'.jobs.map (fun job => (job.text, job.metadata)) =
      c.jobs.map fun job => (job.text, job.metadata)) : c'.Entered service sessionId := by
  have htexts : c'.jobs.map Job.text = c.jobs.map Job.text := by
    simpa [Function.comp_def] using congrArg (List.map Prod.fst) hjobs
  have hmetadata : c'.jobs.map Job.metadata = c.jobs.map Job.metadata := by
    simpa [Function.comp_def] using congrArg (List.map Prod.snd) hjobs
  constructor
  · rw [hlink, hhandshake]
    exact h.connecting
  · intro hopened
    obtain ⟨req, hreq⟩ := h.opened (hlink ▸ hopened)
    exact ⟨req, hrequest ▸ hreq.request_eq, hreq.passes, hreq.upgrade,
      hhandshake ▸ hreq.metadata_eq⟩
  · rw [hreceived, hlink]
    exact h.received
  · intro job hmem
    have hmem' : job.metadata ∈ c.jobs.map Job.metadata := hmetadata ▸ List.mem_map_of_mem hmem
    obtain ⟨job', hmem', heq⟩ := List.mem_map.mp hmem'
    rw [hhandshake, ← heq]
    exact h.metadata job' hmem'
  · rw [htexts, texts, hreceived]
    exact h.texts_eq
  · rw [hpanicked]
    exact h.panicked

theorem Entered.onRequest (h : c.Entered service sessionId) (hlink : c.link = .connecting)
    (req : Request) : (c.onRequest service req).Entered service sessionId := by
  have hreceived : c.received = [] := by
    by_contra hne
    rw [h.received hne] at hlink
    cases hlink
  have hjobs : c.jobs = [] := by
    have htexts := h.texts_eq
    rw [texts, hreceived] at htexts
    exact List.map_eq_nil_iff.mp htexts
  constructor
  · intro hconnecting
    unfold Connection.onRequest at hconnecting
    dsimp only at hconnecting
    split at hconnecting <;> cases hconnecting
  · intro hopened
    have hupgrade : Handshake.isUpgrade (c.handshake.onRequest service.toAccess req).2 = true := by
      unfold Connection.onRequest at hopened
      dsimp only at hopened
      split at hopened
      · assumption
      · cases hopened
    rw [h.connecting hlink] at hupgrade
    obtain ⟨hpasses, hrespond, hmetadata⟩ := Handshake.of_isUpgrade hupgrade
    refine ⟨req, rfl, hpasses, hrespond, ?_⟩
    change (c.handshake.onRequest service.toAccess req).1.metadata = _
    rw [h.connecting hlink, hmetadata]
  · intro hne
    exact absurd hreceived hne
  · intro job hmem
    change job ∈ c.jobs at hmem
    rw [hjobs] at hmem
    cases hmem
  · exact h.texts_eq
  · exact h.panicked

/-- The metadata is there when a message comes. -/
theorem Entered.onMessage (h : c.Entered service sessionId) (hlink : c.link = .opened)
    (msg : Message) :
    ({ c with received := c.received ++ [msg] }.onMessage service msg).Entered service
      sessionId := by
  obtain ⟨req, hreq⟩ := h.opened hlink
  unfold Connection.onMessage
  cases htext : msg.asText with
  | none =>
    refine { h with opened := fun _ => ?_, received := fun _ => hlink, texts_eq := ?_ }
    · exact ⟨req, hreq.1, hreq.2, hreq.3, hreq.4⟩
    · rw [texts, List.filterMap_append, List.filterMap_cons_none htext, List.filterMap_nil,
        List.append_nil]
      exact h.texts_eq
  | some text =>
    simp only [hreq.metadata_eq]
    refine ⟨fun hconnecting => ?_, fun _ => ⟨req, hreq.1, hreq.2, hreq.3, hreq.4⟩, fun _ => hlink,
      ?_, ?_, h.panicked⟩
    · cases hlink.symm.trans hconnecting
    · intro job hmem
      rcases List.mem_append.mp hmem with hold | hnew
      · exact h.metadata job hold
      · rw [List.mem_singleton.mp hnew]
        exact hreq.metadata_eq
    · have htexts := h.texts_eq
      rw [texts] at htexts ⊢
      simp [spawn, htexts, htext]

theorem Entered.pollTask (h : c.Entered service sessionId) (task : ℕ)
    (answers : ℕ → Poll (Except Error Value)) :
    (c.pollTask service task answers).Entered service sessionId := by
  have hset (job job' : Job P M) (hjob : c.jobs[task]? = some job) (htext : job'.text = job.text)
      (hmetadata : job'.metadata = job.metadata) :
      (c.jobs.set task job').map (fun job => (job.text, job.metadata)) =
        c.jobs.map fun job => (job.text, job.metadata) := by
    rw [List.map_set, htext, hmetadata]
    apply List.ext_getElem?
    intro i
    rw [List.getElem?_set]
    split
    · rename_i hi
      subst hi
      simp only [List.length_map, List.getElem?_map, hjob, Option.map_some]
      rw [if_pos (List.getElem?_eq_some_iff.mp hjob).1]
    · rfl
  unfold Connection.pollTask
  split
  · rename_i t job ht hjob
    split
    · split
      · exact h.of_jobs rfl rfl rfl rfl rfl (hset job _ hjob rfl rfl)
      · exact h.of_jobs rfl rfl rfl rfl rfl (hset job _ hjob rfl rfl)
    · exact h
  · exact h

theorem Entered.step (h : c.Entered service sessionId) (label : Label) :
    (c.step service label).Entered service sessionId := by
  cases label with
  | request req =>
    unfold Connection.step
    dsimp only
    split
    · rename_i hlink
      exact h.onRequest hlink req
    · exact h
  | message msg =>
    unfold Connection.step
    dsimp only
    split
    · rename_i hopened
      exact h.onMessage hopened.1 msg
    · exact h
  | pollTask task answers => exact h.pollTask task answers
  | session l =>
    unfold Connection.step
    dsimp only
    split
    · exact h.of_jobs rfl rfl rfl rfl rfl rfl
    · exact h
  | _ => exact h.of_jobs rfl rfl rfl rfl rfl rfl

theorem entered_after (S : Slab (Option ℕ)) (service : Service G L P M) (sessionId : SessionId)
    (labels : List Label) : (after S service sessionId labels).Entered service sessionId :=
  Runs.run_invariant entered_new (fun _ label h => h.step label) labels

end Entering

end Connection

end JsonRpc.Ws
