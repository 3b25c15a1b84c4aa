import JsonRpc.Client.Transport
import JsonRpc.Lib.SinkContract

/-!
# The websocket client

The websocket client is a sink of requests over a sink of messages. It keeps a queue of
messages, because the stream answers a ping with a pong and has to send it some time.
A user of the client who respects the contract of a sink relies on the client to respect
the contract of the inner sink. The client does so, except after it has emptied its
queue: the last message of the queue takes up the readiness of the inner sink, and the
user is told that the client is ready.
-/

namespace JsonRpc

open SinkContract

/-- What a server says when it closes a connection. -/
structure CloseData where
  statusCode : UInt16
  reason : String
  deriving DecidableEq

/-- A message of a websocket. -/
inductive OwnedMessage where
  | text (data : String)
  | binary (data : List UInt8)
  | close (data : Option CloseData)
  | ping (data : List UInt8)
  | pong (data : List UInt8)
  deriving DecidableEq

/-- Where a message for the inner sink comes from. -/
inductive Origin where
  /-- From the user, past the queue. -/
  | direct
  | queued
  deriving DecidableEq

/-- What the inner sink answers to the calls of one operation, call by call. An answer
`false` is an error. -/
structure SinkAnswers where
  ready : ℕ → Poll Bool
  startSend : ℕ → Bool
  flush : Poll Bool
  close : Poll Bool

/-- What the stream answers. An answer without a message is an error. -/
abbrev StreamAnswer (α : Type) := Poll (Option (Option α))

/-- The websocket client. -/
structure WebsocketClient where
  queue : List OwnedMessage
  /-- The calls of the inner sink so far. Nothing reads them. -/
  sink : List (SinkCall (OwnedMessage × Origin))

namespace WebsocketClient

def new : WebsocketClient := ⟨[], []⟩

/-- Record calls of the inner sink. -/
def calls (c : WebsocketClient) (new : List (SinkCall (OwnedMessage × Origin))) : WebsocketClient :=
  { c with sink := c.sink ++ new }

/-- The call that asks the inner sink whether it is ready. -/
def readyCall (answer : Poll Bool) : SinkCall (OwnedMessage × Origin) :=
  .ready (answer == .ready true)

/-- The loop that forwards the queue to the inner sink, from the call of a number on: the
rest of the queue, the calls, and the result. -/
def forward (answers : SinkAnswers) :
    ℕ → List OwnedMessage → List OwnedMessage × List (SinkCall (OwnedMessage × Origin)) × Poll Bool
  | _, [] => ([], [], .ready true)
  | n, item :: queue =>
    if answers.startSend n then
      if queue.isEmpty then ([], [.send (item, .queued)], .ready true)
      else
        match answers.ready (n + 1) with
        | .ready true =>
          let (rest, calls, result) := forward answers (n + 1) queue
          (rest, .send (item, .queued) :: .ready true :: calls, result)
        | .ready false => (queue, [.send (item, .queued), .ready false], .ready false)
        | .pending => (queue, [.send (item, .queued), .ready false], .pending)
    else (queue, [.send (item, .queued)], .ready false)

/-- Forward as much of the queue as possible to the inner sink. -/
def tryEmptyBuffer (c : WebsocketClient) (answers : SinkAnswers) : WebsocketClient × Poll Bool :=
  match answers.ready 0 with
  | .ready true =>
    let (queue, calls, result) := forward answers 0 c.queue
    ({ queue, sink := c.sink ++ .ready true :: calls }, result)
  | .ready false => (c.calls [.ready false], .ready false)
  | .pending => (c.calls [.ready false], .pending)

/-! ## The sink of requests -/

def startSend (c : WebsocketClient) (request : String) (answers : SinkAnswers) :
    WebsocketClient × Bool :=
  if c.queue.isEmpty then (c.calls [.send (.text request, .direct)], answers.startSend 0)
  else ({ c with queue := c.queue ++ [.text request] }, true)

def pollReady (c : WebsocketClient) (answers : SinkAnswers) : WebsocketClient × Poll Bool :=
  if c.queue.isEmpty then (c.calls [readyCall (answers.ready 0)], answers.ready 0)
  else
    match c.tryEmptyBuffer answers with
    | (c, .ready false) => (c, .ready false)
    -- It does not matter here whether the queue is empty.
    | (c, _) => (c, .ready true)

/-- Forward the whole queue, and then ask the inner sink for something that it answers. -/
def emptyBufferThen (c : WebsocketClient) (answers : SinkAnswers) (answer : Poll Bool) :
    WebsocketClient × Poll Bool :=
  match c.tryEmptyBuffer answers with
  | (c, .ready true) => (c.calls [.other], answer)
  | (c, result) => (c, result)

def pollFlush (c : WebsocketClient) (answers : SinkAnswers) : WebsocketClient × Poll Bool :=
  c.emptyBufferThen answers answers.flush

def pollClose (c : WebsocketClient) (answers : SinkAnswers) : WebsocketClient × Poll Bool :=
  c.emptyBufferThen answers answers.close

/-! ## The stream of responses -/

/-- Poll the stream until there is something to answer. The inner stream is pending after its
last answer. -/
def pollNext (c : WebsocketClient) :
    List (StreamAnswer OwnedMessage) → WebsocketClient × StreamAnswer String
  | .ready (some (some (.text data))) :: _ => (c, .ready (some (some data)))
  | .ready (some (some (.binary _))) :: answers => c.pollNext answers
  | .ready (some (some (.ping data))) :: answers =>
    { c with queue := .pong data :: c.queue }.pollNext answers
  | .ready (some (some (.pong _))) :: answers => c.pollNext answers
  | .ready (some (some (.close data))) :: answers =>
    { c with queue := .close data :: c.queue }.pollNext answers
  | .ready none :: _ => (c, .ready none)
  | .ready (some none) :: _ => (c, .ready (some none))
  | .pending :: _ | [] => (c, .pending)

end WebsocketClient

/-! ## Use of the client -/

/-- The client with the calls of its user so far. -/
structure WebsocketUse where
  client : WebsocketClient
  calls : List (SinkCall String)

/-- An operation on the client. -/
inductive WebsocketLabel where
  | startSend (request : String) (answers : SinkAnswers)
  | pollReady (answers : SinkAnswers)
  | pollFlush (answers : SinkAnswers)
  | pollClose (answers : SinkAnswers)
  | pollNext (answers : List (StreamAnswer OwnedMessage))

namespace WebsocketUse

def init : WebsocketUse := ⟨.new, []⟩

/-- One operation. The user respects the contract of the client, and starts to send only
after the client was ready. -/
def step (u : WebsocketUse) : WebsocketLabel → WebsocketUse
  | .startSend request answers =>
    if isReady u.calls then
      ⟨(u.client.startSend request answers).1, u.calls ++ [.send request]⟩
    else u
  | .pollReady answers =>
    let (client, result) := u.client.pollReady answers
    ⟨client, u.calls ++ [.ready (result == .ready true)]⟩
  | .pollFlush answers => ⟨(u.client.pollFlush answers).1, u.calls ++ [.other]⟩
  | .pollClose answers => ⟨(u.client.pollClose answers).1, u.calls ++ [.other]⟩
  | .pollNext answers => { u with client := (u.client.pollNext answers).1 }

def after (ls : List WebsocketLabel) : WebsocketUse := Runs.run step init ls

end WebsocketUse

/-! ## The contract of the inner sink -/

/-- Whether the last message for the inner sink came from the queue, after a call, and the
sink was not ready since. -/
def nextDrained (drained : Bool) : SinkCall (OwnedMessage × Origin) → Bool
  | .ready true | .send (_, .direct) => false
  | .send (_, .queued) => true
  | .ready false | .other => drained

/-- The last message for the inner sink came from the queue, and the sink was not ready
since. -/
def isDrained (calls : List (SinkCall (OwnedMessage × Origin))) : Bool :=
  Runs.run nextDrained false calls

section Drained

variable {calls calls' : List (SinkCall (OwnedMessage × Origin))}

theorem isReady_append : isReady (calls ++ calls') = Runs.run next (isReady calls) calls' :=
  Runs.run_append _ _ _

theorem isDrained_append :
    isDrained (calls ++ calls') = Runs.run nextDrained (isDrained calls) calls' :=
  Runs.run_append _ _ _

/-- The sink is not ready after a message of the queue. -/
theorem isReady_eq_false_of_isDrained (h : isDrained calls = true) : isReady calls = false := by
  induction calls using List.reverseRecOn with
  | nil => rfl
  | append_singleton calls call ih =>
    rw [isDrained_append] at h
    rw [isReady_append]
    match call with
    | .ready true => cases h
    | .ready false => exact ih h
    | .send _ => rfl
    | .other => exact ih h

end Drained

namespace WebsocketClient

/-- Forwarding respects the contract of a sink that is ready. If the queue gets empty, it is
the last message of the queue that was sent last. -/
theorem forward_spec (answers : SinkAnswers) (item : OwnedMessage) (queue : List OwnedMessage)
    (n : ℕ) :
    RespectsFrom true (forward answers n (item :: queue)).2.1 ∧
      ((forward answers n (item :: queue)).1 = [] →
        ∀ drained,
          Runs.run nextDrained drained (forward answers n (item :: queue)).2.1 = true) := by
  induction queue generalizing item n with
  | nil =>
    unfold forward
    split
    · exact ⟨⟨rfl, trivial⟩, fun _ _ => rfl⟩
    · exact ⟨⟨rfl, trivial⟩, fun _ _ => rfl⟩
  | cons item' queue ih =>
    obtain ⟨hrespects, hdrained⟩ := ih item' (n + 1)
    rw [forward]
    split
    · rw [if_neg (by simp)]
      split
      · exact ⟨⟨rfl, hrespects⟩, fun hempty _ => hdrained hempty false⟩
      · exact ⟨⟨rfl, trivial⟩, nofun⟩
      · exact ⟨⟨rfl, trivial⟩, nofun⟩
    · exact ⟨⟨rfl, trivial⟩, nofun⟩

/-- If the queue is empty, the inner sink is ready, or was given the last message of the
queue. -/
def Settled (c : WebsocketClient) : Prop :=
  c.queue = [] → isReady c.sink = true ∨ isDrained c.sink = true

/-- An operation respects the contract of the inner sink. -/
structure Keeps (c c' : WebsocketClient) : Prop where
  respects : Respects c'.sink ↔ Respects c.sink
  settled : c.Settled → c'.Settled

theorem Keeps.refl (c : WebsocketClient) : c.Keeps c := ⟨.rfl, id⟩

theorem Keeps.trans {c c' c'' : WebsocketClient} (h : c.Keeps c') (h' : c'.Keeps c'') :
    c.Keeps c'' :=
  ⟨h'.respects.trans h.respects, h'.settled ∘ h.settled⟩

/-- Calls that give the inner sink nothing respect the contract. -/
theorem keeps_calls (c : WebsocketClient) {call : SinkCall (OwnedMessage × Origin)}
    (hcall : ∀ item, call ≠ .send item) : c.Keeps (c.calls [call]) := by
  constructor
  · rw [calls, respects_concat]
    exact and_iff_left fun item h => absurd h (hcall item)
  · intro hsettled hempty
    rw [calls, isReady_append, isDrained_append]
    match call with
    | .ready true => exact .inl rfl
    | .ready false => exact hsettled hempty
    | .send item => exact absurd rfl (hcall item)
    | .other => exact hsettled hempty

/-- Forwarding the queue respects the contract. -/
theorem keeps_tryEmptyBuffer (c : WebsocketClient) (answers : SinkAnswers) :
    c.Keeps (c.tryEmptyBuffer answers).1 := by
  unfold tryEmptyBuffer
  split
  · cases hqueue : c.queue with
    | nil =>
      have hkeeps : c.Keeps (c.calls [.ready true]) := c.keeps_calls nofun
      rw [calls, hqueue] at hkeeps
      exact hkeeps
    | cons item queue =>
      obtain ⟨hrespects, hdrained⟩ := forward_spec answers item queue 0
      constructor
      · dsimp only
        rw [respects_append]
        exact and_iff_left hrespects
      · intro _ hempty
        right
        dsimp only
        rw [isDrained_append]
        exact hdrained hempty _
  · exact c.keeps_calls nofun
  · exact c.keeps_calls nofun

theorem keeps_emptyBufferThen (c : WebsocketClient) (answers : SinkAnswers) (answer : Poll Bool) :
    c.Keeps (c.emptyBufferThen answers answer).1 := by
  have hkeeps := c.keeps_tryEmptyBuffer answers
  unfold emptyBufferThen
  split
  · rename_i c' heq
    rw [heq] at hkeeps
    exact hkeeps.trans (c'.keeps_calls nofun)
  · rename_i c' result hne heq
    rw [heq] at hkeeps
    exact hkeeps

/-- Asking whether the client is ready respects the contract, and if the client is ready
and its queue is empty, then the inner sink was ready or was given the last message of the
queue. -/
theorem keeps_pollReady (c : WebsocketClient) (answers : SinkAnswers) :
    c.Keeps (c.pollReady answers).1 ∧
      ((c.pollReady answers).2 = .ready true → (c.pollReady answers).1.Settled) := by
  unfold pollReady
  split
  · refine ⟨c.keeps_calls nofun, fun hready hempty => .inl ?_⟩
    dsimp only at hready
    rw [calls, isReady_append, hready]
    rfl
  · rename_i hqueue
    have hkeeps := c.keeps_tryEmptyBuffer answers
    have hsettled := hkeeps.settled fun hempty => absurd (List.isEmpty_iff.mpr hempty) hqueue
    split
    · rename_i c' heq
      rw [heq] at hkeeps
      exact ⟨hkeeps, nofun⟩
    · rename_i c' result hne heq
      rw [heq] at hkeeps hsettled
      exact ⟨hkeeps, fun _ => hsettled⟩

/-- Polling the stream respects the contract: it only makes the queue longer. -/
theorem keeps_pollNext (c : WebsocketClient) (answers : List (StreamAnswer OwnedMessage)) :
    c.Keeps (c.pollNext answers).1 := by
  have hpush (c : WebsocketClient) (message : OwnedMessage) :
      c.Keeps { c with queue := message :: c.queue } := ⟨.rfl, fun _ => nofun⟩
  induction answers generalizing c with
  | nil => exact .refl c
  | cons answer answers ih =>
    match answer with
    | .ready (some (some (.text data))) => exact .refl c
    | .ready (some (some (.binary data))) => exact ih c
    | .ready (some (some (.ping data))) => exact (hpush c _).trans (ih _)
    | .ready (some (some (.pong data))) => exact ih c
    | .ready (some (some (.close data))) => exact (hpush c _).trans (ih _)
    | .ready none => exact .refl c
    | .ready (some none) => exact .refl c
    | .pending => exact .refl c

end WebsocketClient

namespace WebsocketUse

/-- The user starts to send when the client was ready and has emptied its queue since the
inner sink was last ready. -/
def Oversends (u : WebsocketUse) (l : WebsocketLabel) : Prop :=
  (∃ request answers, l = .startSend request answers) ∧ isReady u.calls = true ∧
    u.client.queue = [] ∧ isDrained u.client.sink = true

/-- The client was ready and has an empty queue only if the inner sink is ready, or was given
the last message of the queue. -/
def Inv (u : WebsocketUse) : Prop := isReady u.calls = true → u.client.Settled

theorem Inv.step {u : WebsocketUse} (h : u.Inv) (l : WebsocketLabel) : (u.step l).Inv := by
  have hother : isReady (u.calls ++ [.other]) = isReady u.calls := isReady_concat _ _
  cases l with
  | startSend request answers =>
    rw [WebsocketUse.step]
    split
    · intro hready
      rw [isReady_concat] at hready
      cases hready
    · exact h
  | pollReady answers =>
    obtain ⟨hkeeps, hsettled⟩ := u.client.keeps_pollReady answers
    intro hready
    rw [WebsocketUse.step, isReady_concat] at hready
    by_cases hresult : (u.client.pollReady answers).2 = .ready true
    · exact hsettled hresult
    · rw [beq_false_of_ne hresult] at hready
      exact hkeeps.settled (h hready)
  | pollFlush answers | pollClose answers =>
    exact fun hready => (u.client.keeps_emptyBufferThen answers _).settled (h (hother ▸ hready))
  | pollNext answers => exact fun hready => (u.client.keeps_pollNext answers).settled (h hready)

/-- The only operation that can break the contract of the inner sink is to start to send. -/
theorem Inv.respects_step {u : WebsocketUse} (h : u.Inv) (l : WebsocketLabel) :
    ¬ Respects (u.step l).client.sink ↔ ¬ Respects u.client.sink ∨ u.Oversends l := by
  have hquiet {c : WebsocketClient} (hkeeps : u.client.Keeps c)
      (hl : ∀ request answers, l ≠ .startSend request answers) :
      ¬ Respects c.sink ↔ ¬ Respects u.client.sink ∨ u.Oversends l := by
    rw [hkeeps.respects]
    exact (or_iff_left fun ⟨⟨request, answers, hstart⟩, _⟩ => hl request answers hstart).symm
  cases l with
  | startSend request answers =>
    rw [WebsocketUse.step]
    split
    · rename_i hready
      unfold WebsocketClient.startSend
      split
      · rename_i hqueue
        have hempty := List.isEmpty_iff.mp hqueue
        rw [WebsocketClient.calls, respects_concat, not_and_or]
        refine or_congr_right ⟨fun hnot => ?_, fun ⟨_, _, _, hdrained⟩ hsend => ?_⟩
        · refine ⟨⟨request, answers, rfl⟩, hready, hempty, ?_⟩
          exact (h hready hempty).resolve_left fun hinner => hnot fun _ _ => hinner
        · rw [isReady_eq_false_of_isDrained hdrained] at hsend
          cases hsend _ rfl
      · rename_i hqueue
        exact (or_iff_left fun hover => hqueue (List.isEmpty_iff.mpr hover.2.2.1)).symm
    · rename_i hready
      exact (or_iff_left fun hover => hready hover.2.1).symm
  | pollReady answers => exact hquiet (u.client.keeps_pollReady answers).1 nofun
  | pollFlush answers => exact hquiet (u.client.keeps_emptyBufferThen answers _) nofun
  | pollClose answers => exact hquiet (u.client.keeps_emptyBufferThen answers _) nofun
  | pollNext answers => exact hquiet (u.client.keeps_pollNext answers) nofun

/-- **The contract of the inner sink.** In every run in which the user of the client respects
the contract, the client respects the contract of the inner sink if and only if the user
never starts to send when the client has emptied its queue since the inner sink was last
ready. -/
theorem respects_iff_not_oversends (ls : List WebsocketLabel) :
    Respects (after ls).client.sink ↔ ¬ Runs.Occurs step init Oversends ls := by
  have hoccurs := Runs.occurs_iff_of_invariant (I := Inv)
    (Q := fun u => ¬ Respects u.client.sink) (s := init) (P := Oversends) nofun
    (fun _ l h => h.step l) (by simp [init, WebsocketClient.new, Respects])
    (fun _ l h => h.respects_step l) ls
  rw [hoccurs, not_not]
  rfl

/-- An inner sink that is always ready and takes every message. -/
def willing : SinkAnswers := ⟨fun _ => .ready true, fun _ => true, .ready true, .ready true⟩

/-- The server sends a ping. The user asks whether the client is ready, and sends a request. -/
def pingThenSend : List WebsocketLabel :=
  [.pollNext [.ready (some (some (.ping [])))], .pollReady willing, .startSend "ping" willing]

/-- The inner sink is given the pong and the request, although it was ready only once. -/
theorem not_respects_pingThenSend :
    ¬ Respects (after pingThenSend).client.sink ∧
      (after pingThenSend).calls = [.ready true, .send "ping"] ∧
      (after pingThenSend).client.sink =
        [.ready true, .send (.pong [], .queued), .send (.text "ping", .direct)] := by
  refine ⟨fun h => ?_, rfl, rfl⟩
  cases ((respects_iff _).mp h).2.1

end WebsocketUse

end JsonRpc
