import JsonRpc.Tcp.Server
import Mathlib.Data.List.ReduceOption

/-!
# The queue of messages to a peer

The task of a connection writes what the queue of messages yields: the responses, and the
messages that the dispatcher pushes. The dispatcher belongs to other threads, and can push
a message at any time, also in the middle of a poll. A poll that finds the end of the
responses and no message takes the receiver down, and a message that was pushed after it
looked is lost. Otherwise every message comes out once, in order, or is refused. A poll that
finds the end of the responses and a message returns the message, and the next poll asks the
responses again.
-/

namespace JsonRpc.Tcp

/-- What the responses answer. They are given by their items and the points where there is no
item yet, and then they stay at their end. -/
def upAnswer : List (Option (Except IoError String)) → Poll (Option (Except IoError String))
  | [] => .ready none
  | none :: _ => .pending
  | some item :: _ => .ready (some item)

/-- Where a poll is. -/
inductive Position where
  | idle
  /-- The responses have been polled. -/
  | polled (upClosed : Bool)
  /-- There are no more responses, and there was no message. -/
  | closing
  deriving DecidableEq

/-- `PeerMessageQueue`, in the middle of a poll. -/
structure PeerMessageQueue where
  up : List (Option (Except IoError String))
  receiver : Option (List String)
  position : Position
  deriving DecidableEq

/-- What a part of a poll returns. -/
inductive Move where
  | response (item : Except IoError String)
  | message (msg : String)
  | pending
  | ended
  /-- The poll goes on. -/
  | goesOn
  deriving DecidableEq

/-- The answer of the poll that is over. -/
def Move.answer : Move → Option (Poll (Option (Except IoError String)))
  | response item => some (.ready (some item))
  | message msg => some (.ready (some (.ok msg)))
  | pending => some .pending
  | ended => some (.ready none)
  | goesOn => none

namespace PeerMessageQueue

def new (up : List (Option (Except IoError String))) : PeerMessageQueue := ⟨up, some [], .idle⟩

/-- A poll, up to the next point where another thread can push a message. -/
def advance (q : PeerMessageQueue) : PeerMessageQueue × Move :=
  match q.position with
  | .idle =>
    match q.up with
    | some item :: up => ({ q with up }, .response item)
    | none :: up => ({ q with up, position := .polled false }, .goesOn)
    | [] => ({ q with position := .polled true }, .goesOn)
  | .polled upClosed =>
    match q.receiver with
    | none => ({ q with position := .idle }, .ended)
    | some (item :: rest) => ({ q with receiver := some rest, position := .idle }, .message item)
    | some [] =>
      if upClosed then ({ q with position := .closing }, .goesOn)
      else ({ q with position := .idle }, .pending)
  | .closing => ({ q with receiver := none, position := .idle }, .ended)

/-- `Dispatcher::push_message`, on the channel of the queue. -/
def pushMessage (q : PeerMessageQueue) (msg : String) :
    PeerMessageQueue × Except PushMessageError Unit :=
  match q.receiver with
  | some queue => ({ q with receiver := some (queue ++ [msg]) }, .ok ())
  | none => (q, .error (.send msg))

/-- A poll is pending only if the responses were, and there is no message. -/
theorem pending_of_advance {q : PeerMessageQueue} (h : q.advance.2 = .pending) :
    q.position = .polled false ∧ q.receiver = some [] := by
  obtain ⟨up, receiver, position⟩ := q
  match position, up, receiver with
  | .polled false, _, some [] => exact ⟨rfl, rfl⟩
  | .polled true, _, some [] | .polled _, _, some (item :: queue) => cases h
  | .idle, some item :: up, _ | .idle, none :: up, _ | .idle, [], _ => cases h
  | .polled _, _, none | .closing, _, _ => cases h

/-- A poll ends the queue if the receiver is down, or when it takes the receiver down. -/
theorem ended_of_advance {q : PeerMessageQueue} (h : q.advance.2 = .ended) :
    (∃ upClosed, q.position = .polled upClosed) ∧ q.receiver = none ∨ q.position = .closing := by
  obtain ⟨up, receiver, position⟩ := q
  match position, up, receiver with
  | .polled upClosed, _, none => exact .inl ⟨⟨upClosed, rfl⟩, rfl⟩
  | .closing, _, _ => exact .inr rfl
  | .idle, some item :: up, _ | .idle, none :: up, _ | .idle, [], _ => cases h
  | .polled true, _, some [] | .polled false, _, some [] => cases h
  | .polled _, _, some (item :: queue) => cases h

end PeerMessageQueue

/-! ## Interleavings -/

/-- The queue with what went into it and came out of it. -/
structure PeerHistory where
  queue : PeerMessageQueue
  /-- The last answer of the responses. -/
  lastUp : Poll (Option (Except IoError String))
  /-- The responses that came out. -/
  responses : List (Except IoError String)
  /-- The messages that came out. -/
  messages : List String
  /-- The messages that were pushed. -/
  pushed : List String
  /-- The messages that were pushed before the poll. -/
  pushedBefore : List String
  /-- A poll has answered that there is nothing more. -/
  isEnded : Bool

/-- What a thread does. -/
inductive PeerLabel where
  | poll
  | pushMessage (msg : String)
  deriving DecidableEq

namespace PeerHistory

def init (up : List (Option (Except IoError String))) : PeerHistory :=
  ⟨.new up, .pending, [], [], [], [], false⟩

/-- The history of a poll that goes on and returns something. -/
def record (h : PeerHistory) (queue : PeerMessageQueue) : Move → PeerHistory
  | .response item => { h with queue, responses := h.responses ++ [item] }
  | .message msg => { h with queue, messages := h.messages ++ [msg] }
  | .ended => { h with queue, isEnded := true }
  | .pending | .goesOn => { h with queue }

/-- The history with the start of a poll. -/
def start (h : PeerHistory) : PeerHistory :=
  if h.queue.position = .idle then
    { h with lastUp := upAnswer h.queue.up, pushedBefore := h.pushed }
  else h

def step (h : PeerHistory) : PeerLabel → PeerHistory
  | .poll => h.start.record h.queue.advance.1 h.queue.advance.2
  | .pushMessage msg =>
    match h.queue.pushMessage msg with
    | (queue, .ok ()) => { h with queue, pushed := h.pushed ++ [msg] }
    | (queue, .error _) => { h with queue }

def after (up : List (Option (Except IoError String))) (ls : List PeerLabel) : PeerHistory :=
  Runs.run step (init up) ls

/-- The responses and the messages come out once and in order, and a poll ends the queue only
if there will be no more of them. -/
structure Delivers (up : List (Option (Except IoError String))) (h : PeerHistory) : Prop where
  responses : h.responses ++ h.queue.up.reduceOption = up.reduceOption
  messages : h.messages ++ h.queue.receiver.getD [] = h.pushed
  pending : h.queue.advance.2 = .pending → h.lastUp = .pending ∧ h.queue.receiver = some []
  ended : h.queue.advance.2 = .ended → h.lastUp = .ready none ∧ h.pushedBefore <+: h.messages
  refuses : h.isEnded = true → ∀ msg, (h.queue.pushMessage msg).2 = .error (.send msg)

/-- The poll takes the receiver down, with a message that was pushed after it looked. -/
def Loses (h : PeerHistory) (l : PeerLabel) : Prop :=
  l = .poll ∧ h.queue.position = .closing ∧ ∃ msg rest, h.queue.receiver = some (msg :: rest)

/-- What holds in every run. -/
structure Inv (up : List (Option (Except IoError String))) (h : PeerHistory) : Prop where
  responses : h.responses ++ h.queue.up.reduceOption = up.reduceOption
  messages : ∀ queue, h.queue.receiver = some queue → h.messages ++ queue = h.pushed
  pushedBefore : h.pushedBefore <+: h.pushed
  lastUp : h.lastUp = .ready none → h.queue.up = []
  polled : ∀ upClosed, h.queue.position = .polled upClosed →
    h.lastUp = if upClosed then .ready none else .pending
  closing : h.queue.position = .closing →
    h.lastUp = .ready none ∧ h.pushedBefore <+: h.messages ∧ h.queue.receiver ≠ none
  refuses : h.isEnded = true → h.queue.receiver = none
  closed : h.queue.receiver = none →
    h.queue.up = [] ∧ ∀ upClosed, h.queue.position = .polled upClosed → upClosed = true

/-- No message was lost. -/
def Complete (h : PeerHistory) : Prop := h.queue.receiver = none → h.messages = h.pushed

variable {up : List (Option (Except IoError String))} {h : PeerHistory}

theorem inv_init (up : List (Option (Except IoError String))) : (init up).Inv up where
  responses := rfl
  messages _ hqueue := by cases hqueue; rfl
  pushedBefore := List.prefix_rfl
  lastUp := nofun
  polled := nofun
  closing := nofun
  refuses := nofun
  closed := nofun

/-- The responses are polled. -/
theorem Inv.poll_idle (hinv : h.Inv up) (hidle : h.queue.position = .idle) :
    (h.step .poll).Inv up := by
  obtain ⟨⟨rest, receiver, position⟩, lastUp, responses, messages, pushed, pushedBefore,
    isEnded⟩ := h
  cases hidle
  match rest with
  | some item :: rest =>
    refine ⟨?_, hinv.messages, List.prefix_rfl, nofun, nofun, nofun, hinv.refuses,
      fun hclosed => ?_⟩
    · have hresponses := hinv.responses
      dsimp only at hresponses
      rw [List.reduceOption_cons_of_some] at hresponses
      exact (List.append_assoc _ _ _).trans hresponses
    · cases (hinv.closed hclosed).1
  | none :: rest =>
    refine ⟨hinv.responses, hinv.messages, List.prefix_rfl, nofun, fun upClosed hpolled => ?_,
      nofun, hinv.refuses, fun hclosed => ?_⟩
    · cases hpolled
      rfl
    · cases (hinv.closed hclosed).1
  | [] =>
    refine ⟨hinv.responses, hinv.messages, List.prefix_rfl, fun _ => rfl,
      fun upClosed hpolled => ?_, nofun, hinv.refuses,
      fun hclosed => ⟨rfl, fun upClosed hpolled => ?_⟩⟩
    · cases hpolled
      rfl
    · cases hpolled
      rfl

/-- The receiver is polled. -/
theorem Inv.poll_polled (hinv : h.Inv up) {upClosed : Bool}
    (hpolled : h.queue.position = .polled upClosed) : (h.step .poll).Inv up := by
  obtain ⟨⟨rest, receiver, position⟩, lastUp, responses, messages, pushed, pushedBefore,
    isEnded⟩ := h
  cases hpolled
  match receiver, upClosed with
  | none, upClosed =>
    exact ⟨hinv.responses, nofun, hinv.pushedBefore, hinv.lastUp, nofun, nofun,
      fun _ => rfl, fun hclosed => ⟨(hinv.closed hclosed).1, nofun⟩⟩
  | some (item :: queue), upClosed =>
    refine ⟨hinv.responses, fun queue' hqueue => ?_, hinv.pushedBefore, hinv.lastUp, nofun, nofun,
      fun hended => ?_, nofun⟩
    · cases hqueue
      exact (List.append_assoc _ _ _).trans (hinv.messages _ rfl)
    · cases hinv.refuses hended
  | some [], true =>
    have hall : messages = pushed := by
      simpa using hinv.messages [] rfl
    refine ⟨hinv.responses, hinv.messages, hinv.pushedBefore, hinv.lastUp, nofun,
      fun _ => ⟨hinv.polled true rfl, ?_, nofun⟩, hinv.refuses, nofun⟩
    change pushedBefore <+: messages
    rw [hall]
    exact hinv.pushedBefore
  | some [], false =>
    exact ⟨hinv.responses, hinv.messages, hinv.pushedBefore, hinv.lastUp, nofun, nofun,
      hinv.refuses, nofun⟩

/-- The receiver is taken down. -/
theorem Inv.poll_closing (hinv : h.Inv up) (hclosing : h.queue.position = .closing) :
    (h.step .poll).Inv up := by
  obtain ⟨⟨rest, receiver, position⟩, lastUp, responses, messages, pushed, pushedBefore,
    isEnded⟩ := h
  cases hclosing
  exact ⟨hinv.responses, nofun, hinv.pushedBefore, hinv.lastUp, nofun, nofun, fun _ => rfl,
    fun _ => ⟨hinv.lastUp (hinv.closing rfl).1, nofun⟩⟩

theorem Inv.pushMessage (hinv : h.Inv up) (msg : String) : (h.step (.pushMessage msg)).Inv up := by
  obtain ⟨⟨rest, receiver, position⟩, lastUp, responses, messages, pushed, pushedBefore,
    isEnded⟩ := h
  match receiver with
  | none => exact hinv
  | some queue =>
    refine ⟨hinv.responses, fun queue' hqueue => ?_,
      hinv.pushedBefore.trans (List.prefix_append _ _), hinv.lastUp, hinv.polled,
      fun hclosing => ?_, fun hended => ?_, nofun⟩
    · cases hqueue
      have hall := congrArg (· ++ [msg]) (hinv.messages queue rfl)
      exact (List.append_assoc _ _ _).symm.trans hall
    · obtain ⟨hlastUp, hpushed, -⟩ := hinv.closing hclosing
      exact ⟨hlastUp, hpushed, nofun⟩
    · cases hinv.refuses hended

theorem Inv.step (hinv : h.Inv up) (l : PeerLabel) : (h.step l).Inv up := by
  cases l with
  | poll =>
    cases hposition : h.queue.position with
    | idle => exact hinv.poll_idle hposition
    | polled upClosed => exact hinv.poll_polled hposition
    | closing => exact hinv.poll_closing hposition
  | pushMessage msg => exact hinv.pushMessage msg

theorem inv_after (up : List (Option (Except IoError String))) (ls : List PeerLabel) :
    (after up ls).Inv up :=
  Runs.run_invariant (inv_init up) (fun _ l hinv => hinv.step l) ls

/-! ## When a message is lost -/

/-- Only a poll that takes the receiver down can lose a message. -/
theorem Inv.complete_step_iff (hinv : h.Inv up) (hcomplete : h.Complete) (l : PeerLabel) :
    (h.step l).Complete ↔ ¬ h.Loses l := by
  obtain ⟨⟨rest, receiver, position⟩, lastUp, responses, messages, pushed, pushedBefore,
    isEnded⟩ := h
  have hkept {l : PeerLabel} (hposition : l = .poll → position ≠ .closing) :
      ¬ Loses ⟨⟨rest, receiver, position⟩, lastUp, responses, messages, pushed, pushedBefore,
        isEnded⟩ l :=
    fun hloses => hposition hloses.1 hloses.2.1
  match l, position, rest, receiver with
  | .pushMessage msg, _, _, none => exact iff_of_true hcomplete (hkept nofun)
  | .pushMessage msg, _, _, some queue => exact iff_of_true nofun (hkept nofun)
  | .poll, .idle, some item :: rest, _ => exact iff_of_true hcomplete (hkept nofun)
  | .poll, .idle, none :: rest, _ => exact iff_of_true hcomplete (hkept nofun)
  | .poll, .idle, [], _ => exact iff_of_true hcomplete (hkept nofun)
  | .poll, .polled upClosed, _, none => exact iff_of_true hcomplete (hkept nofun)
  | .poll, .polled upClosed, _, some (item :: queue) => exact iff_of_true nofun (hkept nofun)
  | .poll, .polled true, _, some [] => exact iff_of_true nofun (hkept nofun)
  | .poll, .polled false, _, some [] => exact iff_of_true nofun (hkept nofun)
  | .poll, .closing, _, none => exact absurd rfl (hinv.closing rfl).2.2
  | .poll, .closing, _, some [] =>
    have hall : messages = pushed := by
      simpa using hinv.messages [] rfl
    refine iff_of_true (fun _ => hall) ?_
    rintro ⟨-, -, msg, queue, hqueue⟩
    cases hqueue
  | .poll, .closing, _, some (msg :: queue) =>
    refine iff_of_false (fun hlost => ?_) fun hnot => hnot ⟨rfl, rfl, msg, queue, rfl⟩
    have hall : messages ++ msg :: queue = messages :=
      (hinv.messages (msg :: queue) rfl).trans (hlost rfl).symm
    cases List.append_right_eq_self.mp hall

/-- A queue delivers what it was given if and only if no message was lost. -/
theorem Inv.delivers_iff (hinv : h.Inv up) : h.Delivers up ↔ h.Complete := by
  constructor
  · intro hdelivers hnone
    have hall := hdelivers.messages
    rw [hnone, Option.getD_none, List.append_nil] at hall
    exact hall
  · intro hcomplete
    refine ⟨hinv.responses, ?_, fun hpending => ?_, fun hended => ?_, fun hended msg => ?_⟩
    · cases hreceiver : h.queue.receiver with
      | none => exact (List.append_nil _).trans (hcomplete hreceiver)
      | some queue => exact hinv.messages queue hreceiver
    · obtain ⟨hpolled, hempty⟩ := PeerMessageQueue.pending_of_advance hpending
      exact ⟨hinv.polled false hpolled, hempty⟩
    · rcases PeerMessageQueue.ended_of_advance hended with ⟨⟨upClosed, hpolled⟩, hnone⟩ | hclosing
      · have htrue := (hinv.closed hnone).2 upClosed hpolled
        refine ⟨(hinv.polled upClosed hpolled).trans (if_pos htrue), ?_⟩
        rw [hcomplete hnone]
        exact hinv.pushedBefore
      · exact ⟨(hinv.closing hclosing).1, (hinv.closing hclosing).2.1⟩
    · rw [PeerMessageQueue.pushMessage, hinv.refuses hended]

/-- **Delivery.** In every interleaving of polls and pushes, the queue delivers what it was
given at each point, if and only if no poll takes the receiver down after a message has been
pushed since it looked. -/
theorem delivers_iff_not_loses (up : List (Option (Except IoError String))) (ls : List PeerLabel) :
    (∀ before rest, ls = before ++ rest → (after up before).Delivers up) ↔
      ¬ Runs.Occurs step (init up) Loses ls := by
  have hinv : ∀ before, (after up before).Inv up := inv_after up
  rw [← Runs.forall_prefix_iff_not_occurs (Q := fun h => h.Inv up ∧ h.Complete)
    ⟨inv_init up, nofun⟩ (fun h l hQ => by
      rw [and_iff_right (hQ.1.step l)]
      exact hQ.1.complete_step_iff hQ.2 l)]
  refine forall_congr' fun before => forall_congr' fun rest => imp_congr_right fun _ => ?_
  rw [(hinv before).delivers_iff]
  exact (and_iff_right (hinv before)).symm

/-- The poll finds the end of the responses and no message. Then a message is pushed. -/
def pushWhileClosing : List PeerLabel := [.poll, .poll, .pushMessage "ping", .poll]

/-- The message is accepted, and does not come out before the queue ends. -/
theorem not_delivers_pushWhileClosing :
    (after [] pushWhileClosing).pushed = ["ping"] ∧
      (after [] pushWhileClosing).messages = [] ∧
      (after [] pushWhileClosing).isEnded = true ∧
      ¬ (after [] pushWhileClosing).Delivers [] := by
  refine ⟨rfl, rfl, rfl, fun hdelivers => ?_⟩
  cases hdelivers.messages

/-! ## Polls that are not interrupted -/

/-- The queue as the task of a connection polls it, with the answers so far. -/
structure WholeQueue where
  up : List (Option (Except IoError String))
  receiver : Option (List String)
  answers : List (Poll (Option (Except IoError String)))

namespace WholeQueue

def step (q : WholeQueue) : PeerLabel → WholeQueue
  | .poll =>
    let (receiver, answer) := pollNext (upAnswer q.up) q.receiver
    ⟨q.up.tail, receiver, q.answers ++ [answer]⟩
  | .pushMessage msg => { q with receiver := q.receiver.map (· ++ [msg]) }

def after (up : List (Option (Except IoError String))) (ls : List PeerLabel) : WholeQueue :=
  Runs.run step ⟨up, some [], []⟩ ls

end WholeQueue

/-- The answer of a poll, in its last part. -/
def answer (h : PeerHistory) : PeerLabel → Option (Poll (Option (Except IoError String)))
  | .poll => h.queue.advance.2.answer
  | .pushMessage _ => none

theorem Complete.pushMessage (hcomplete : h.Complete) (msg : String) :
    (h.step (.pushMessage msg)).Complete := by
  obtain ⟨⟨rest, receiver, position⟩, lastUp, responses, messages, pushed, pushedBefore,
    isEnded⟩ := h
  cases receiver with
  | none => exact hcomplete
  | some queue => exact nofun

/-- The responses are polled, although they have ended. The queue has not ended yet. -/
def Repolls (h : PeerHistory) (l : PeerLabel) : Prop :=
  l = .poll ∧ h.queue.position = .idle ∧ h.lastUp = .ready none ∧ h.isEnded = false

/-- The poll has found the end of the responses, and returns a message. -/
def Outlives (h : PeerHistory) (l : PeerLabel) : Prop :=
  l = .poll ∧ h.queue.position = .polled true ∧ ∃ msg rest, h.queue.receiver = some (msg :: rest)

/-- After a poll that outlives the responses, the next poll asks them again. -/
theorem Inv.repolls_of_outlives (hinv : h.Inv up) {l : PeerLabel} (houtlives : h.Outlives l) :
    (h.step l).Repolls .poll := by
  obtain ⟨rfl, hpolled, msg, rest, hqueue⟩ := houtlives
  have hlastUp : h.lastUp = .ready none := hinv.polled true hpolled
  have hnotEnded : h.isEnded = false := by
    rw [Bool.eq_false_iff]
    intro hended
    rw [hinv.refuses hended] at hqueue
    cases hqueue
  obtain ⟨⟨up', receiver, position⟩, lastUp, responses, messages, pushed, pushedBefore,
    isEnded⟩ := h
  cases hpolled
  cases hqueue
  exact ⟨rfl, rfl, hlastUp, hnotEnded⟩

/-- Only a poll that outlives the responses brings the queue to ask them again. -/
theorem Inv.outlives_of_repolls (hinv : h.Inv up) (l : PeerLabel)
    (hrepolls : (h.step l).Repolls .poll) : h.Repolls .poll ∨ h.Outlives l := by
  obtain ⟨⟨rest, receiver, position⟩, lastUp, responses, messages, pushed, pushedBefore,
    isEnded⟩ := h
  obtain ⟨-, hidle, hlastUp, hnotEnded⟩ := hrepolls
  match l, position, rest, receiver with
  | .pushMessage msg, _, _, none => exact .inl ⟨rfl, hidle, hlastUp, hnotEnded⟩
  | .pushMessage msg, _, _, some queue => exact .inl ⟨rfl, hidle, hlastUp, hnotEnded⟩
  | .poll, .idle, some item :: rest, _ => cases hlastUp
  | .poll, .idle, none :: rest, _ => cases hidle
  | .poll, .idle, [], _ => cases hidle
  | .poll, .polled upClosed, _, none => cases hnotEnded
  | .poll, .polled true, _, some (msg :: queue) => exact .inr ⟨rfl, rfl, msg, queue, rfl⟩
  | .poll, .polled true, _, some [] => cases hidle
  | .poll, .polled false, _, some queue =>
    -- The responses were not ready, so their last answer is not the end.
    have hpending : lastUp = .pending := hinv.polled false rfl
    cases queue <;> cases hpending.symm.trans hlastUp
  | .poll, .closing, _, _ => cases hnotEnded

/-- A message that is pushed changes nothing about the next poll. -/
theorem Repolls.pushMessage (hrepolls : h.Repolls .poll) (msg : String) :
    (h.step (.pushMessage msg)).Repolls .poll := by
  obtain ⟨⟨rest, receiver, position⟩, lastUp, responses, messages, pushed, pushedBefore,
    isEnded⟩ := h
  cases receiver <;> exact hrepolls

theorem Repolls.run (hrepolls : h.Repolls .poll) {ls : List PeerLabel} (hls : .poll ∉ ls) :
    (Runs.run step h ls).Repolls .poll := by
  induction ls generalizing h with
  | nil => exact hrepolls
  | cons l ls ih =>
    rw [List.mem_cons, not_or] at hls
    cases l with
    | poll => exact absurd rfl hls.1
    | pushMessage msg => exact ih (hrepolls.pushMessage msg) hls.2

/-- **Polls after the end.** In every interleaving of polls and pushes, the responses are not
polled again after they have ended and before the queue ends, if and only if no poll that finds
their end returns a message, or it is the last poll. -/
theorem not_repolls_iff_not_outlives (up : List (Option (Except IoError String)))
    (ls : List PeerLabel) :
    ¬ Runs.Occurs step (init up) Repolls ls ↔
      ∀ before rest, ls = before ++ .poll :: rest → (after up before).Outlives .poll →
        .poll ∉ rest := by
  have hinv : ∀ before, (after up before).Inv up :=
    Runs.run_invariant (inv_init up) fun _ l hinv => hinv.step l
  constructor
  · rintro hnot before rest rfl houtlives hpoll
    obtain ⟨pushes, rest, rfl, hpushes⟩ := List.eq_append_cons_of_mem hpoll
    refine hnot ⟨before ++ .poll :: pushes, .poll, rest, by simp, ?_⟩
    rw [Runs.run_append]
    exact ((hinv before).repolls_of_outlives houtlives).run hpushes
  · rintro hlast ⟨before, l, rest, rfl, hrepolls⟩
    obtain rfl := hrepolls.1
    have hnotInit : ¬ (init up).Repolls .poll := by
      rintro ⟨-, -, hready, -⟩
      cases hready
    obtain ⟨earlier, l, later, rfl, houtlives⟩ :=
      Runs.occurs_of_gained (Q := fun h => h.Repolls .poll) (inv_init up)
        (fun _ l hinv => hinv.step l) hnotInit (fun _ l hinv => hinv.outlives_of_repolls l)
        before hrepolls
    obtain rfl := houtlives.1
    exact hlast earlier (later ++ .poll :: rest) (by simp) houtlives (by simp)

/-- The poll finds the end of the responses and a message. Then there is another poll. -/
def pollAfterEnd : List PeerLabel := [.pushMessage "ping", .poll, .poll, .poll]

/-- The second poll asks the responses again. -/
theorem repolls_pollAfterEnd :
    Runs.Occurs step (init []) Repolls pollAfterEnd ∧
      (after [] pollAfterEnd).messages = ["ping"] ∧ (after [] pollAfterEnd).isEnded = false :=
  ⟨⟨[.pushMessage "ping", .poll, .poll], .poll, [], rfl, rfl, rfl, rfl, rfl⟩, rfl, rfl⟩

end PeerHistory

end JsonRpc.Tcp
