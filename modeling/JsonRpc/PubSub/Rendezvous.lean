import JsonRpc.Lib.OneshotChannel
import JsonRpc.PubSub.Session

/-!
# Assigning an id and waiting for the receipt

A handler that assigns an id can wait until the future of the subscribe call has taken it.
There is a oneshot channel for the id, and another one back for the receipt. The two ends
belong to different threads: each can be dropped at any time, and the handler can look for
the receipt in the middle of a poll of the future. It gets the receipt only from the poll
that takes the id, and that poll adds the subscription and answers with the id, whatever
the other threads do meanwhile. It learns that there is none only if the future was dropped
before.
-/

namespace JsonRpc

namespace PubSub

open OneshotChannel

/-- The subscriber, and after `send_and_wait` its future. -/
inductive Waiter where
  | subscriber
  /-- The future waits for the receipt. -/
  | waiting (result : Except Error SubscriptionId)
  /-- The result was not sent. -/
  | refused (result : Except Error SubscriptionId)
  /-- The future is ready. -/
  | resolved (result : Except Error SubscriptionId) (isOk : Bool)
  | dropped

/-- Where a poll of the future of the subscribe call is. -/
inductive CallPosition where
  | idle
  /-- The receiver has the result. -/
  | took (result : Except Error SubscriptionId)
  /-- The receiver has sent the receipt. -/
  | acknowledged (result : Except Error SubscriptionId)

/-- What a poll of the future of the subscribe call does. Polls have numbers. -/
inductive CallEvent (H : Type) where
  | took (poll : ℕ) (result : Except Error SubscriptionId)
  /-- The subscription is added, and the session is then as given. -/
  | added (poll : ℕ) (session : Session H)
  | resolved (poll : ℕ) (result : Except Error Value)

/-- A subscribe call, its subscriber, and the channels between them. -/
structure Rendezvous (H : Type) where
  notification : String
  remove : Remove H
  session : Session H
  value : Channel (Except Error SubscriptionId)
  receipt : Channel Unit
  /-- The receiver has not used the sender of the receipt. -/
  hasReceipt : Bool
  waiter : Waiter
  future : SubscribeFuture
  position : CallPosition
  /-- The polls of the future that are over. -/
  polls : ℕ
  trace : List (CallEvent H)

/-- What a thread does. -/
inductive RendezvousLabel (H : Type) where
  | assignIdAsync (id : SubscriptionId)
  | rejectAsync (error : Error)
  | pollReceipt
  /-- The subscriber or its future is dropped. -/
  | dropWaiter
  /-- A poll of the future of the subscribe call is begun or goes on. -/
  | pollCall
  | dropCall
  /-- Other threads change the session. -/
  | changeSession (session : Session H)

/-- The step is a part of a poll of the future of the subscribe call. -/
def RendezvousLabel.isPollCall {H : Type} : RendezvousLabel H → Bool
  | .pollCall => true
  | _ => false

namespace Rendezvous

variable {H : Type}

/-- A subscribe call. -/
def new (notification : String) (remove : Remove H) (session : Session H) : Rendezvous H where
  notification := notification
  remove := remove
  session := session
  value := .empty
  receipt := .empty
  hasReceipt := true
  waiter := .subscriber
  future := .pending
  position := .idle
  polls := 0
  trace := []

variable (s : Rendezvous H)

/-! ## The handler -/

/-- `Sender::send_and_wait`. -/
def sendAndWait (result : Except Error SubscriptionId) : Rendezvous H :=
  match s.waiter with
  | .subscriber =>
    match s.value.send result with
    | (value, true) => { s with value, waiter := .waiting result }
    | (value, false) =>
      { s with value, receipt := s.receipt.dropReceiver, waiter := .refused result }
  | _ => s

def assignIdAsync (id : SubscriptionId) : Rendezvous H := s.sendAndWait (.ok id)

def rejectAsync (error : Error) : Rendezvous H := s.sendAndWait (.error error)

/-- Poll the future of `send_and_wait`. -/
def pollReceipt : Rendezvous H :=
  match s.waiter with
  | .waiting result =>
    match s.receipt.poll with
    | (receipt, none) => { s with receipt }
    | (receipt, some (.ok ())) => { s with receipt, waiter := .resolved result true }
    | (receipt, some (.error ())) => { s with receipt, waiter := .resolved result false }
  | .refused result => { s with waiter := .resolved result false }
  | _ => s

def dropWaiter : Rendezvous H :=
  match s.waiter with
  | .subscriber =>
    { s with value := s.value.dropSender, receipt := s.receipt.dropReceiver, waiter := .dropped }
  | .waiting _ | .refused _ => { s with receipt := s.receipt.dropReceiver, waiter := .dropped }
  | _ => s

/-! ## The future of the subscribe call -/

/-- Drop the receiver, with the sender of the receipt. -/
def dropReceiver : Rendezvous H :=
  { s with
    value := s.value.dropReceiver
    receipt := if s.hasReceipt then s.receipt.dropSender else s.receipt
    hasReceipt := false }

/-- The poll is over, and the future is ready. -/
def resolve (result : Except Error Value) : Rendezvous H :=
  { s.dropReceiver with
    future := .complete result
    position := .idle
    polls := s.polls + 1
    trace := s.trace ++ [.resolved s.polls result] }

/-- The future of the subscribe call is polled, up to the next point where another thread can
see something. -/
def pollCall : Rendezvous H :=
  match s.future, s.position with
  | .pending, .idle =>
    match s.value.poll with
    | (value, none) => { s with value, polls := s.polls + 1 }
    | (value, some (.error ())) => { s with value }.resolve (.error subscriptionRejected)
    | (value, some (.ok result)) =>
      { s with value, position := .took result, trace := s.trace ++ [.took s.polls result] }
  | .pending, .took result =>
    { s with
      receipt := if s.hasReceipt then (s.receipt.send ()).1 else s.receipt
      hasReceipt := false
      position := .acknowledged result }
  | .pending, .acknowledged (.ok id) =>
    let session := (s.session.addSubscription s.notification id s.remove).1
    { s with session, trace := s.trace ++ [CallEvent.added s.polls session] }.resolve
      (.ok id.toValue)
  | .pending, .acknowledged (.error e) => s.resolve (.error e)
  | _, _ => s

/-- Drop the future. It is not dropped in the middle of a poll. -/
def dropCall : Rendezvous H :=
  match s.future, s.position with
  | .pending, .idle => { s.dropReceiver with future := .dropped }
  | _, _ => s

def step : RendezvousLabel H → Rendezvous H
  | .assignIdAsync id => s.assignIdAsync id
  | .rejectAsync error => s.rejectAsync error
  | .pollReceipt => s.pollReceipt
  | .dropWaiter => s.dropWaiter
  | .pollCall => s.pollCall
  | .dropCall => s.dropCall
  | .changeSession session => { s with session }

/-- The call after some steps. -/
def after (ls : List (RendezvousLabel H)) : Rendezvous H := Runs.run step s ls

/-! ## The guarantee -/

/-- The result that an event takes. -/
def takenResult : CallEvent H → Option (Except Error SubscriptionId)
  | .took _ result => some result
  | _ => none

/-- The poll with a number has taken a result, and is about to answer with it, or has answered
with it. -/
def Answers (k : ℕ) (result : Except Error SubscriptionId) : Prop :=
  .took k result ∈ s.trace ∧
    (s.position = .acknowledged result ∧ s.polls = k ∨
      .resolved k (result.map SubscriptionId.toValue) ∈ s.trace ∧
        s.future = .complete (result.map SubscriptionId.toValue) ∧ k < s.polls)

/-- The poll with a number is about to add the subscription, or has added it. -/
def Adds (k : ℕ) (id : SubscriptionId) : Prop :=
  s.position = .acknowledged (.ok id) ∧ s.polls = k ∨
    ∃ session, .added k session ∈ s.trace ∧
      session.activeSubscriptions.lookup (id, s.notification) = some s.remove

/-- The poll with a number has answered with a result, and has added the subscription before
if the result is an id. -/
structure Answered (k : ℕ) (result : Except Error SubscriptionId) : Prop where
  resolved : .resolved k (result.map SubscriptionId.toValue) ∈ s.trace
  future_eq : s.future = .complete (result.map SubscriptionId.toValue)
  added : ∀ id, result = .ok id → ∃ session, .added k session ∈ s.trace ∧
    session.activeSubscriptions.lookup (id, s.notification) = some s.remove

/-- The channel of the id, as a subscribe call of a session has it. -/
def oneshot : Channel (Except Error SubscriptionId) → Oneshot
  | .empty => .waiting
  | .sent result => .sent result
  | _ => .canceled

/-- The subscribe call of a session. -/
def toCall (s : Rendezvous H) (session : ℕ) : SubscribeCall H :=
  ⟨session, s.notification, s.remove.unsubscribe, oneshot s.value, s.future⟩

/-- The session after the future has received something. -/
def sessionWith (s : Rendezvous H) : Option (Except Error SubscriptionId) → Session H
  | some (.ok id) => (s.session.addSubscription s.notification id s.remove).1
  | _ => s.session

/-- The receipt tells that the result was taken, and what became of it. -/
structure Guarantees : Prop where
  once : (s.trace.filterMap takenResult).length ≤ 1
  assigned : ∀ id, s.waiter = .resolved (.ok id) true → ∃ k, s.Answers k (.ok id) ∧ s.Adds k id
  rejected : ∀ e, s.waiter = .resolved (.error e) true → ∃ k, s.Answers k (.error e)
  failed : ∀ result, s.waiter = .resolved result false →
    s.future = .dropped ∧ s.trace.filterMap takenResult = []
  /-- The poll that takes a result sends the receipt, adds the subscription and answers, in two
  more parts and whatever the other threads do. -/
  answered : ∀ k result, .took k result ∈ s.trace → ∀ ls : List (RendezvousLabel H),
    2 ≤ ls.countP RendezvousLabel.isPollCall → (s.after ls).Answered k result
  /-- A poll that is not interrupted does what a poll does to a subscribe call of a session. -/
  polls : s.position = .idle → ∀ session, ∃ n ≤ 3,
    (pollCall^[n] s).position = .idle ∧
      (pollCall^[n] s).future = (s.toCall session).poll.future ∧
      (pollCall^[n] s).session = s.sessionWith (s.toCall session).received
  /-- A subscriber that waits learns of the receipt, and of a future that was dropped. -/
  waiting : ∀ result, s.waiter = .waiting result →
    (s.position = .acknowledged result → s.pollReceipt.waiter = .resolved result true) ∧
      (s.future = .dropped → s.pollReceipt.waiter = .resolved result false)

/-! ## The stages of a rendezvous -/

/-- The channels and the subscriber before the result is taken. -/
inductive Offered : Channel (Except Error SubscriptionId) → Channel Unit → Waiter → Prop
  | subscriber : Offered .empty .empty .subscriber
  | waiting (result : Except Error SubscriptionId) :
      Offered (.sent result) .empty (.waiting result)
  | sent (result : Except Error SubscriptionId) : Offered (.sent result) .closed .dropped
  | canceled : Offered .canceled .closed .dropped

/-- The receipt and the subscriber before the receipt is sent. -/
inductive Unacknowledged (result : Except Error SubscriptionId) : Channel Unit → Waiter → Prop
  | waiting : Unacknowledged result .empty (.waiting result)
  | dropped : Unacknowledged result .closed .dropped

/-- The receipt and the subscriber after the receipt is sent. -/
inductive Acknowledged (result : Except Error SubscriptionId) : Channel Unit → Waiter → Prop
  | waiting : Acknowledged result (.sent ()) (.waiting result)
  | resolved : Acknowledged result .received (.resolved result true)
  | dropped : Acknowledged result .closed .dropped

/-- The receipt and the subscriber after the future was dropped. -/
inductive Abandoned : Channel Unit → Waiter → Prop
  | subscriber : Abandoned .canceled .subscriber
  | waiting (result : Except Error SubscriptionId) : Abandoned .canceled (.waiting result)
  | refused (result : Except Error SubscriptionId) : Abandoned .closed (.refused result)
  | resolved (receipt : Channel Unit) (result : Except Error SubscriptionId) :
      Abandoned receipt (.resolved result false)
  | dropped : Abandoned .closed .dropped

/-- What the poll with a number does after it has taken a result. -/
inductive Concludes (notification : String) (remove : Remove H) (k : ℕ) :
    Except Error SubscriptionId → List (CallEvent H) → Prop
  | assigned (id : SubscriptionId) (session : Session H)
      (hadded : session.activeSubscriptions.lookup (id, notification) = some remove) :
      Concludes notification remove k (.ok id) [.added k session, .resolved k (.ok id.toValue)]
  | rejected (e : Error) : Concludes notification remove k (.error e) [.resolved k (.error e)]

/-- The stages of a rendezvous. -/
inductive Stage : Rendezvous H → Prop
  | offered {notification remove session value receipt waiter polls}
      (hoffered : Offered value receipt waiter) :
      Stage ⟨notification, remove, session, value, receipt, true, waiter, .pending, .idle, polls,
        []⟩
  | took {notification remove session receipt waiter polls result}
      (hunack : Unacknowledged result receipt waiter) :
      Stage ⟨notification, remove, session, .received, receipt, true, waiter, .pending,
        .took result, polls, [.took polls result]⟩
  | acknowledged {notification remove session receipt waiter polls result}
      (hack : Acknowledged result receipt waiter) :
      Stage ⟨notification, remove, session, .received, receipt, false, waiter, .pending,
        .acknowledged result, polls, [.took polls result]⟩
  | resolved {notification remove session receipt waiter polls k result events}
      (hack : Acknowledged result receipt waiter) (hk : k < polls)
      (hevents : Concludes notification remove k result events) :
      Stage ⟨notification, remove, session, .closed, receipt, false, waiter,
        .complete (result.map SubscriptionId.toValue), .idle, polls, .took k result :: events⟩
  | canceled {notification remove session polls k} :
      Stage ⟨notification, remove, session, .closed, .closed, false, .dropped,
        .complete (.error subscriptionRejected), .idle, polls,
        [.resolved k (.error subscriptionRejected)]⟩
  | dropped {notification remove session receipt waiter polls}
      (habandoned : Abandoned receipt waiter) :
      Stage ⟨notification, remove, session, .closed, receipt, false, waiter, .dropped, .idle,
        polls, []⟩

variable {s}

theorem Stage.sendAndWait (h : s.Stage) (result : Except Error SubscriptionId) :
    (s.sendAndWait result).Stage := by
  cases h with
  | offered hoffered =>
    cases hoffered with
    | subscriber => exact .offered (.waiting result)
    | waiting result' => exact .offered (.waiting result')
    | sent result' => exact .offered (.sent result')
    | canceled => exact .offered .canceled
  | took hunack =>
    cases hunack with
    | waiting => exact .took .waiting
    | dropped => exact .took .dropped
  | acknowledged hack =>
    cases hack with
    | waiting => exact .acknowledged .waiting
    | resolved => exact .acknowledged .resolved
    | dropped => exact .acknowledged .dropped
  | resolved hack hk hevents =>
    cases hack with
    | waiting => exact .resolved .waiting hk hevents
    | resolved => exact .resolved .resolved hk hevents
    | dropped => exact .resolved .dropped hk hevents
  | canceled => exact .canceled
  | dropped habandoned =>
    cases habandoned with
    | subscriber => exact .dropped (.refused result)
    | waiting result' => exact .dropped (.waiting result')
    | refused result' => exact .dropped (.refused result')
    | resolved => exact .dropped (.resolved _ _)
    | dropped => exact .dropped .dropped

theorem Stage.pollReceipt (h : s.Stage) : s.pollReceipt.Stage := by
  cases h with
  | offered hoffered =>
    cases hoffered with
    | subscriber => exact .offered .subscriber
    | waiting result => exact .offered (.waiting result)
    | sent result => exact .offered (.sent result)
    | canceled => exact .offered .canceled
  | took hunack =>
    cases hunack with
    | waiting => exact .took .waiting
    | dropped => exact .took .dropped
  | acknowledged hack =>
    cases hack with
    | waiting => exact .acknowledged .resolved
    | resolved => exact .acknowledged .resolved
    | dropped => exact .acknowledged .dropped
  | resolved hack hk hevents =>
    cases hack with
    | waiting => exact .resolved .resolved hk hevents
    | resolved => exact .resolved .resolved hk hevents
    | dropped => exact .resolved .dropped hk hevents
  | canceled => exact .canceled
  | dropped habandoned =>
    cases habandoned with
    | subscriber => exact .dropped .subscriber
    | waiting result => exact .dropped (.resolved .canceled result)
    | refused result => exact .dropped (.resolved .closed result)
    | resolved => exact .dropped (.resolved _ _)
    | dropped => exact .dropped .dropped

theorem Stage.dropWaiter (h : s.Stage) : s.dropWaiter.Stage := by
  cases h with
  | offered hoffered =>
    cases hoffered with
    | subscriber => exact .offered .canceled
    | waiting result => exact .offered (.sent result)
    | sent result => exact .offered (.sent result)
    | canceled => exact .offered .canceled
  | took hunack =>
    cases hunack with
    | waiting => exact .took .dropped
    | dropped => exact .took .dropped
  | acknowledged hack =>
    cases hack with
    | waiting => exact .acknowledged .dropped
    | resolved => exact .acknowledged .resolved
    | dropped => exact .acknowledged .dropped
  | resolved hack hk hevents =>
    cases hack with
    | waiting => exact .resolved .dropped hk hevents
    | resolved => exact .resolved .resolved hk hevents
    | dropped => exact .resolved .dropped hk hevents
  | canceled => exact .canceled
  | dropped habandoned =>
    cases habandoned with
    | subscriber => exact .dropped .dropped
    | waiting result => exact .dropped .dropped
    | refused result => exact .dropped .dropped
    | resolved => exact .dropped (.resolved _ _)
    | dropped => exact .dropped .dropped

theorem Stage.pollCall (h : s.Stage) : s.pollCall.Stage := by
  cases h with
  | offered hoffered =>
    cases hoffered with
    | subscriber => exact .offered .subscriber
    | waiting result => exact .took .waiting
    | sent result => exact .took .dropped
    | canceled => exact .canceled
  | took hunack =>
    cases hunack with
    | waiting => exact .acknowledged .waiting
    | dropped => exact .acknowledged .dropped
  | @acknowledged notification remove session receipt waiter polls result hack =>
    cases result with
    | ok id =>
      exact .resolved hack (Nat.lt_succ_self polls)
        (.assigned id _ (AList.lookup_insert session.activeSubscriptions))
    | error e => exact .resolved hack (Nat.lt_succ_self polls) (.rejected e)
  | resolved hack hk hevents => exact .resolved hack hk hevents
  | canceled => exact .canceled
  | dropped habandoned => exact .dropped habandoned

theorem Stage.dropCall (h : s.Stage) : s.dropCall.Stage := by
  cases h with
  | offered hoffered =>
    cases hoffered with
    | subscriber => exact .dropped .subscriber
    | waiting result => exact .dropped (.waiting result)
    | sent result => exact .dropped .dropped
    | canceled => exact .dropped .dropped
  | took hunack => exact .took hunack
  | acknowledged hack => exact .acknowledged hack
  | resolved hack hk hevents => exact .resolved hack hk hevents
  | canceled => exact .canceled
  | dropped habandoned => exact .dropped habandoned

theorem Stage.changeSession (h : s.Stage) (session : Session H) : Stage { s with session } := by
  cases h with
  | offered hoffered => exact .offered hoffered
  | took hunack => exact .took hunack
  | acknowledged hack => exact .acknowledged hack
  | resolved hack hk hevents => exact .resolved hack hk hevents
  | canceled => exact .canceled
  | dropped habandoned => exact .dropped habandoned

theorem Stage.step (h : s.Stage) (l : RendezvousLabel H) : (s.step l).Stage := by
  cases l with
  | assignIdAsync id => exact h.sendAndWait (.ok id)
  | rejectAsync error => exact h.sendAndWait (.error error)
  | pollReceipt => exact h.pollReceipt
  | dropWaiter => exact h.dropWaiter
  | pollCall => exact h.pollCall
  | dropCall => exact h.dropCall
  | changeSession session => exact h.changeSession session

/-- What a poll concludes with takes nothing. -/
theorem Concludes.takes_nothing {notification : String} {remove : Remove H} {k : ℕ}
    {result : Except Error SubscriptionId} {events : List (CallEvent H)}
    (h : Concludes notification remove k result events) : events.filterMap takenResult = [] := by
  cases h <;> rfl

/-! ## The rest of a poll -/

/-- The parts that the poll has still to do. -/
def remaining (s : Rendezvous H) : ℕ :=
  match s.position with
  | .idle => 0
  | .took _ => 2
  | .acknowledged _ => 1

/-- A result that was taken is answered, or the poll that took it goes on. -/
theorem Stage.answered_or_busy (h : s.Stage) {k : ℕ} {result : Except Error SubscriptionId}
    (htook : .took k result ∈ s.trace) : s.Answered k result ∨ s.position ≠ .idle := by
  cases h with
  | offered | dropped => cases htook
  | canceled => cases List.mem_singleton.mp htook
  | took | acknowledged => exact .inr nofun
  | resolved hack hk hevents =>
    left
    cases hevents with
    | assigned id session hadded =>
      obtain ⟨rfl, rfl⟩ : _ ∧ _ := by simpa using htook
      refine ⟨.tail _ (.tail _ (.head _)), rfl, fun id' hid => ?_⟩
      cases hid
      exact ⟨session, .tail _ (.head _), hadded⟩
    | rejected e =>
      obtain ⟨rfl, rfl⟩ : _ ∧ _ := by simpa using htook
      exact ⟨.tail _ (.head _), rfl, nofun⟩

theorem sendAndWait_frame (s : Rendezvous H) (result : Except Error SubscriptionId) :
    (s.sendAndWait result).position = s.position ∧ (s.sendAndWait result).trace = s.trace := by
  unfold Rendezvous.sendAndWait
  split
  · split <;> exact ⟨rfl, rfl⟩
  · exact ⟨rfl, rfl⟩

/-- The other threads do not touch the poll, and nothing of what it does happens. -/
theorem step_frame {l : RendezvousLabel H} (hl : l.isPollCall = false) :
    (s.step l).position = s.position ∧ (s.step l).trace = s.trace := by
  cases l with
  | assignIdAsync id => exact s.sendAndWait_frame (.ok id)
  | rejectAsync error => exact s.sendAndWait_frame (.error error)
  | pollReceipt =>
    rw [step, Rendezvous.pollReceipt]
    split
    · split <;> exact ⟨rfl, rfl⟩
    all_goals exact ⟨rfl, rfl⟩
  | dropWaiter =>
    rw [step, Rendezvous.dropWaiter]
    split <;> exact ⟨rfl, rfl⟩
  | pollCall => cases hl
  | dropCall =>
    rw [step, Rendezvous.dropCall]
    split <;> exact ⟨rfl, rfl⟩
  | changeSession session => exact ⟨rfl, rfl⟩

/-- What has happened stays in the trace. -/
theorem mem_trace_step {event : CallEvent H} (hevent : event ∈ s.trace) (l : RendezvousLabel H) :
    event ∈ (s.step l).trace := by
  cases hl : l.isPollCall with
  | false => rwa [(step_frame hl).2]
  | true =>
    cases l with
    | pollCall =>
      rw [step, Rendezvous.pollCall]
      split
      · split
        · exact hevent
        · exact List.mem_append_left _ hevent
        · exact List.mem_append_left _ hevent
      · exact hevent
      · exact List.mem_append_left _ (List.mem_append_left _ hevent)
      · exact List.mem_append_left _ hevent
      · exact hevent
    | _ => cases hl

/-- Every part of the poll that took a result leaves one part less. -/
theorem Stage.remaining_step (h : s.Stage) {k : ℕ} {result : Except Error SubscriptionId}
    (htook : .took k result ∈ s.trace) (l : RendezvousLabel H) :
    (s.step l).remaining ≤ s.remaining - if l.isPollCall then 1 else 0 := by
  cases hl : l.isPollCall with
  | false =>
    rw [remaining, remaining, (step_frame hl).1]
    exact Nat.le_refl _
  | true =>
    cases l with
    | pollCall =>
      cases h with
      | offered | dropped => cases htook
      | canceled => cases List.mem_singleton.mp htook
      | took | resolved => exact Nat.le_refl _
      | @acknowledged _ _ _ _ _ _ result' hack => cases result' <;> exact Nat.le_refl _
    | _ => cases hl

/-- As many parts of the poll as remain end it. -/
theorem Stage.remaining_after (h : s.Stage) {k : ℕ} {result : Except Error SubscriptionId}
    (htook : .took k result ∈ s.trace) (ls : List (RendezvousLabel H)) :
    (s.after ls).Stage ∧ .took k result ∈ (s.after ls).trace ∧
      (s.after ls).remaining ≤ s.remaining - ls.countP RendezvousLabel.isPollCall := by
  induction ls using List.reverseRecOn with
  | nil => exact ⟨h, htook, Nat.le_refl _⟩
  | append_singleton ls l ih =>
    obtain ⟨hstage, htook', hle⟩ := ih
    have hstep := hstage.remaining_step htook' l
    rw [after, Runs.run_concat]
    refine ⟨hstage.step l, mem_trace_step htook' l, ?_⟩
    rw [List.countP_append, List.countP_singleton]
    rw [after] at hle hstep
    omega

/-- The poll that took a result answers with it. -/
theorem Stage.answered (h : s.Stage) {k : ℕ} {result : Except Error SubscriptionId}
    (htook : .took k result ∈ s.trace) {ls : List (RendezvousLabel H)}
    (hparts : 2 ≤ ls.countP RendezvousLabel.isPollCall) : (s.after ls).Answered k result := by
  obtain ⟨hstage, htook', hle⟩ := h.remaining_after htook ls
  have hmost : s.remaining ≤ 2 := by
    unfold remaining
    split <;> omega
  rcases hstage.answered_or_busy htook' with hanswered | hbusy
  · exact hanswered
  · have hpos : 0 < (s.after ls).remaining := by
      unfold remaining
      split
      · rename_i hidle
        exact absurd hidle hbusy
      all_goals omega
    omega

/-! ## The guarantee in every stage -/

/-- A poll that is not interrupted does what a poll does to a subscribe call of a session. -/
theorem Stage.pollCall_iterate (h : s.Stage) (hidle : s.position = .idle) (session : ℕ) :
    ∃ n ≤ 3, (Rendezvous.pollCall^[n] s).position = .idle ∧
      (Rendezvous.pollCall^[n] s).future = (s.toCall session).poll.future ∧
      (Rendezvous.pollCall^[n] s).session = s.sessionWith (s.toCall session).received := by
  cases h with
  | offered hoffered =>
    cases hoffered with
    | subscriber | canceled => exact ⟨1, by omega, rfl, rfl, rfl⟩
    | waiting result | sent result =>
      cases result with
      | ok id => exact ⟨3, by omega, rfl, rfl, rfl⟩
      | error e => exact ⟨3, by omega, rfl, rfl, rfl⟩
  | took | acknowledged => cases hidle
  | resolved | canceled | dropped => exact ⟨0, by omega, rfl, rfl, rfl⟩

/-- The subscriber waits for the receipt until it is sent, or until the future is dropped. -/
theorem Stage.pollReceipt_waiting (h : s.Stage) {result : Except Error SubscriptionId}
    (hwaiting : s.waiter = .waiting result) :
    (s.position = .acknowledged result → s.pollReceipt.waiter = .resolved result true) ∧
      (s.future = .dropped → s.pollReceipt.waiter = .resolved result false) := by
  cases h with
  | offered | took => exact ⟨nofun, nofun⟩
  | acknowledged hack =>
    cases hack with
    | waiting =>
      cases hwaiting
      exact ⟨fun _ => rfl, nofun⟩
    | resolved | dropped => cases hwaiting
  | resolved | canceled => exact ⟨nofun, nofun⟩
  | dropped habandoned =>
    cases habandoned with
    | waiting =>
      cases hwaiting
      exact ⟨nofun, fun _ => rfl⟩
    | subscriber | refused | resolved | dropped => cases hwaiting

/-- What a receipt says in every stage. -/
theorem Stage.receipts (h : s.Stage) :
    (s.trace.filterMap takenResult).length ≤ 1 ∧
      (∀ id, s.waiter = .resolved (.ok id) true → ∃ k, s.Answers k (.ok id) ∧ s.Adds k id) ∧
      (∀ e, s.waiter = .resolved (.error e) true → ∃ k, s.Answers k (.error e)) ∧
      ∀ result, s.waiter = .resolved result false →
        s.future = .dropped ∧ s.trace.filterMap takenResult = [] := by
  cases h with
  | offered hoffered => cases hoffered <;> exact ⟨Nat.zero_le _, nofun, nofun, nofun⟩
  | took hunack => cases hunack <;> exact ⟨Nat.le_refl _, nofun, nofun, nofun⟩
  | @acknowledged notification remove session receipt waiter polls result hack =>
    cases hack with
    | waiting | dropped => exact ⟨Nat.le_refl _, nofun, nofun, nofun⟩
    | resolved =>
      refine ⟨Nat.le_refl _, fun id hid => ?_, fun e he => ?_, nofun⟩
      · cases hid
        exact ⟨polls, ⟨.head _, .inl ⟨rfl, rfl⟩⟩, .inl ⟨rfl, rfl⟩⟩
      · cases he
        exact ⟨polls, .head _, .inl ⟨rfl, rfl⟩⟩
  | @resolved notification remove session receipt waiter polls k result events hack hk hevents =>
    have honce : (CallEvent.took k result :: events).filterMap takenResult = [result] :=
      congrArg (result :: ·) hevents.takes_nothing
    refine ⟨(congrArg List.length honce).le, ?_, ?_, ?_⟩
    · rintro id hid
      cases hid
      cases hack
      cases hevents with
      | assigned id session' hadded =>
        exact ⟨k, ⟨.head _, .inr ⟨.tail _ (.tail _ (.head _)), rfl, hk⟩⟩,
          .inr ⟨session', .tail _ (.head _), hadded⟩⟩
    · rintro e he
      cases he
      cases hack
      cases hevents with
      | rejected e => exact ⟨k, .head _, .inr ⟨.tail _ (.head _), rfl, hk⟩⟩
    · rintro result' hfailed
      cases hfailed
      cases hack
  | canceled => exact ⟨Nat.zero_le _, nofun, nofun, nofun⟩
  | dropped habandoned =>
    refine ⟨Nat.zero_le _, ?_, ?_, fun _ _ => ⟨rfl, rfl⟩⟩
    · rintro id hid
      cases hid
      cases habandoned
    · rintro e he
      cases he
      cases habandoned

/-- The guarantee holds in every stage. -/
theorem Stage.guarantees (h : s.Stage) : s.Guarantees := by
  obtain ⟨honce, hassigned, hrejected, hfailed⟩ := h.receipts
  exact { once := honce, assigned := hassigned, rejected := hrejected, failed := hfailed,
          answered := fun k result htook ls hparts => h.answered htook hparts,
          polls := fun hidle session => h.pollCall_iterate hidle session,
          waiting := fun result hwaiting => h.pollReceipt_waiting hwaiting }

/-! ## Every interleaving -/

/-- **Rendezvous.** In every interleaving, the receipt tells what became of the result. -/
theorem guarantees_after (notification : String) (remove : Remove H) (session : Session H)
    (ls : List (RendezvousLabel H)) : ((new notification remove session).after ls).Guarantees :=
  (Runs.run_invariant (I := Stage) (.offered .subscriber) (fun _ l h => h.step l) ls).guarantees

/-- An id is assigned, and the handler looks for the receipt in the middle of the poll that
takes the id. -/
def assignedEarly : List (RendezvousLabel Unit) :=
  [.pollCall, .assignIdAsync (.number 5), .pollCall, .pollCall, .pollReceipt, .pollCall]

/-- The handler has its sink before the second poll adds the subscription and answers. -/
theorem guarantees_after_assignedEarly :
    let s := (new "hello" ⟨(), 0⟩ .new).after assignedEarly
    s.Guarantees ∧ s.waiter = .resolved (.ok (.number 5)) true ∧ s.Answered 1 (.ok (.number 5)) ∧
      s.session.activeSubscriptions.lookup (.number 5, "hello") = some ⟨(), 0⟩ := by
  intro s
  have h := guarantees_after "hello" ⟨(), 0⟩ .new (assignedEarly.take 3)
  have hanswered := h.answered 1 (.ok (.number 5)) (.head _) (assignedEarly.drop 3) (by decide)
  exact ⟨guarantees_after "hello" ⟨(), 0⟩ .new assignedEarly, rfl, hanswered, rfl⟩

end Rendezvous

end PubSub

end JsonRpc
