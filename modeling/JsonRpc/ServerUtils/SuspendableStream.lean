import JsonRpc.Client.Transport
import JsonRpc.Lib.Runs
import Mathlib.Data.List.DropRight
import Mathlib.Data.List.ReduceOption

/-!
# Accepting connections

A listener accepts connections, and fails for a while when the process runs out of file
descriptors. The stream of its connections then waits before it asks the listener again,
twice as long after each error, up to a maximum. The delay is compared with the maximum
before it is doubled, so the longest delay is above the maximum.
-/

namespace JsonRpc.ServerUtils

/-- The kinds of `io::Error` that are told apart. -/
inductive ErrorKind where
  | connectionRefused
  | connectionAborted
  | connectionReset
  | other
  deriving DecidableEq

/-- An error of one connection, and not of the listener. -/
def connectionError (kind : ErrorKind) : Bool :=
  kind = .connectionRefused || kind = .connectionAborted || kind = .connectionReset

/-- What the listener answers. -/
inductive Accept (I : Type) where
  | pending
  | ended
  | item (i : I)
  | error (kind : ErrorKind)
  deriving DecidableEq

/-- `SuspendableStream`, with the next answers of the listener. It is pending after the last
of them. Times are in milliseconds. -/
structure SuspendableStream (I : Type) where
  stream : List (Accept I)
  nextDelay : ℕ
  initialDelay : ℕ
  maxDelay : ℕ
  suspendedUntil : Option ℕ
  deriving DecidableEq

/-- The clock, when it is asked. -/
structure Clock where
  /-- `Instant::now`. -/
  now : ℕ
  /-- A sleep until a deadline is over. -/
  isOver : ℕ → Bool

/-- What happens in a part of a poll. -/
inductive Event (I : Type) where
  /-- The suspension is still in force. -/
  | waiting
  /-- The suspension is over. -/
  | elapsed
  | pending
  | ended
  | item (i : I)
  | connectionError
  | suspended (delay : ℕ)
  deriving DecidableEq

namespace Event

variable {I : Type}

/-- The answer of the poll, unless its loop goes on. -/
def answer : Event I → Option (Poll (Option I))
  | waiting | pending => some .pending
  | ended => some (.ready none)
  | item i => some (.ready (some i))
  | elapsed | connectionError | suspended _ => none

/-- The listener has been polled. -/
def pollsStream : Event I → Bool
  | waiting | elapsed => false
  | _ => true

/-- The delay starts again. -/
def isReset : Event I → Bool
  | ended | item _ => true
  | _ => false

/-- There has been an error of the listener. -/
def isSuspended : Event I → Bool
  | suspended _ => true
  | _ => false

/-- The item that the poll returns. -/
def returned (e : Event I) : Option I :=
  match e.answer with
  | some (.ready (some i)) => some i
  | _ => none

end Event

/-- The item that the listener accepts. -/
def Accept.item? {I : Type} : Accept I → Option I
  | item i => some i
  | _ => none

namespace SuspendableStream

variable {I : Type}

def new (stream : List (Accept I)) : SuspendableStream I := ⟨stream, 20, 10, 5000, none⟩

/-- The delay starts again after an item or the end. -/
def reset (s : SuspendableStream I) : SuspendableStream I :=
  if s.nextDelay > s.initialDelay then { s with nextDelay := s.initialDelay } else s

/-- The listener is not asked before a deadline. -/
def suspend (s : SuspendableStream I) (now : ℕ) : SuspendableStream I :=
  let nextDelay := if s.nextDelay < s.maxDelay then s.nextDelay * 2 else s.nextDelay
  { s with nextDelay, suspendedUntil := some (now + nextDelay) }

/-- A part of the loop of `poll_next`: a look at the timer, or a poll of the listener. -/
def advance (s : SuspendableStream I) (clock : Clock) : SuspendableStream I × Event I :=
  match s.suspendedUntil with
  | some deadline =>
    if clock.isOver deadline then ({ s with suspendedUntil := none }, .elapsed) else (s, .waiting)
  | none =>
    match s.stream with
    | [] => (s, .pending)
    | .pending :: stream => ({ s with stream }, .pending)
    | .ended :: stream => ({ s with stream }.reset, .ended)
    | .item i :: stream => ({ s with stream }.reset, .item i)
    | .error kind :: stream =>
      if connectionError kind then ({ s with stream }, .connectionError)
      else
        let suspended := { s with stream }.suspend clock.now
        (suspended, .suspended suspended.nextDelay)

/-- `poll_next`, with the clock of each part of its loop, if these are all. -/
def pollNext (s : SuspendableStream I) :
    List Clock → Option (SuspendableStream I × Poll (Option I))
  | [] => none
  | clock :: clocks =>
    match (s.advance clock).2.answer with
    | some answer => some ((s.advance clock).1, answer)
    | none => (s.advance clock).1.pollNext clocks

/-- The stream after a part of a poll. -/
def step (s : SuspendableStream I) (clock : Clock) : SuspendableStream I := (s.advance clock).1

/-- What happens in a part of a poll. -/
def event (s : SuspendableStream I) (clock : Clock) : Event I := (s.advance clock).2

/-- The loop of a poll ends with the first part that has an answer. -/
theorem pollNext_eq_some {s s' : SuspendableStream I} {clocks : List Clock}
    {answer : Poll (Option I)} (h : s.pollNext clocks = some (s', answer)) :
    ∃ before clock rest, clocks = before ++ clock :: rest ∧
      (∀ e ∈ Runs.outputs step event s before, e.answer = none) ∧
      (Runs.run step s before).step clock = s' ∧
      ((Runs.run step s before).event clock).answer = some answer := by
  induction clocks generalizing s with
  | nil => cases h
  | cons clock clocks ih =>
    rw [pollNext] at h
    cases hanswer : (s.advance clock).2.answer with
    | some a =>
      rw [hanswer] at h
      cases h
      exact ⟨[], clock, clocks, rfl, List.forall_mem_nil _, rfl, hanswer⟩
    | none =>
      rw [hanswer] at h
      obtain ⟨before, last, rest, rfl, hnone, hstate, hlast⟩ := ih h
      exact ⟨clock :: before, last, rest, rfl, List.forall_mem_cons.mpr ⟨hanswer, hnone⟩, hstate,
        hlast⟩

/-- The parts of a loop that are left at most. -/
def remaining (s : SuspendableStream I) : ℕ :=
  2 * s.stream.length + if s.suspendedUntil.isSome then 1 else 0

theorem remaining_advance_lt (s : SuspendableStream I) (clock : Clock)
    (h : (s.advance clock).2.answer = none) : (s.advance clock).1.remaining < s.remaining := by
  obtain ⟨stream, nextDelay, initialDelay, maxDelay, suspendedUntil⟩ := s
  match suspendedUntil, stream with
  | some deadline, stream =>
    cases hover : clock.isOver deadline with
    | true => simp [advance, hover, remaining]
    | false => simp [advance, hover, Event.answer] at h
  | none, [] | none, .pending :: _ | none, .ended :: _ | none, .item _ :: _ => cases h
  | none, .error kind :: stream =>
    cases hkind : connectionError kind with
    | true => simp [advance, hkind, remaining]
    | false =>
      simp [advance, hkind, remaining, suspend]
      omega

/-- The loop of a poll ends. -/
theorem isSome_pollNext (s : SuspendableStream I) (clocks : List Clock)
    (h : s.remaining < clocks.length) : (s.pollNext clocks).isSome := by
  induction clocks generalizing s with
  | nil => cases h
  | cons clock clocks ih =>
    rw [pollNext]
    cases hanswer : (s.advance clock).2.answer with
    | some a => rfl
    | none =>
      have hlt := s.remaining_advance_lt clock hanswer
      rw [List.length_cons] at h
      exact ih _ (by omega)

/-! ## Runs -/

/-- The stream after some parts of its polls. -/
def after (stream : List (Accept I)) (clocks : List Clock) : SuspendableStream I :=
  Runs.run step (new stream) clocks

/-- What happens in some parts of the polls. -/
def events (stream : List (Accept I)) (clocks : List Clock) : List (Event I) :=
  Runs.outputs step event (new stream) clocks

/-- The errors of the listener since the delay started again. The first delay is as after an
error. -/
def errorsSince (es : List (Event I)) : ℕ :=
  es.foldl (fun n e => if e.isReset then 0 else if e.isSuspended then n + 1 else n) 1

/-- What holds in every run, besides the bounds of the delays. -/
structure Disciplined (stream : List (Accept I)) (clocks : List Clock) : Prop where
  nonDecreasing : ∀ before delay between delay' rest,
    events stream clocks = before ++ .suspended delay :: (between ++ .suspended delay' :: rest) →
    (∀ e ∈ between, e.isReset = false) → delay ≤ delay'
  first : ∀ before i between delay rest,
    events stream clocks = before ++ .item i :: (between ++ .suspended delay :: rest) →
    (∀ e ∈ between, e.isSuspended = false) → delay = 2 * (new stream).initialDelay
  notPolled : ∀ before clock during clock' rest delay,
    clocks = before ++ clock :: (during ++ clock' :: rest) →
    (after stream before).event clock = .suspended delay →
    ((after stream (before ++ clock :: during)).event clock').pollsStream = true →
    ∃ c ∈ during, c.isOver (clock.now + delay) = true
  items : (events stream clocks).filterMap Event.returned ++
    (after stream clocks).stream.filterMap Accept.item? = stream.filterMap Accept.item?
  /-- A poll goes on up to the first part with an answer, and there is one. -/
  polls : ∀ parts, (after stream clocks).remaining < parts.length →
    ∃ before clock rest answer, parts = before ++ clock :: rest ∧
      (after stream clocks).pollNext parts =
        some (after stream (clocks ++ before ++ [clock]), answer) ∧
      (∀ e ∈ Runs.outputs step event (after stream clocks) before, e.answer = none) ∧
      ((after stream (clocks ++ before)).event clock).answer = some answer

/-! ## The delays -/

/-- The delay after some events. -/
def delayAfter (es : List (Event I)) : ℕ := min 5120 (10 * 2 ^ errorsSince es)

theorem errorsSince_concat (es : List (Event I)) (e : Event I) :
    errorsSince (es ++ [e]) =
      if e.isReset then 0 else if e.isSuspended then errorsSince es + 1 else errorsSince es :=
  List.foldl_append

theorem le_delayAfter (es : List (Event I)) : 10 ≤ delayAfter es := by
  have hpos : 0 < 2 ^ errorsSince es := Nat.two_pow_pos _
  rw [delayAfter, le_min_iff]
  omega

/-- The delay is within the maximum for eight errors. -/
theorem delayAfter_le_iff (es : List (Event I)) : delayAfter es ≤ 5000 ↔ errorsSince es ≤ 8 := by
  rw [delayAfter, min_le_iff]
  constructor
  · intro h
    by_contra hmore
    have hpow : 2 ^ 9 ≤ 2 ^ errorsSince es := Nat.pow_le_pow_right (by omega) (by omega)
    omega
  · intro h
    have hpow : 2 ^ errorsSince es ≤ 2 ^ 8 := Nat.pow_le_pow_right (by omega) h
    omega

theorem delayAfter_concat_of_reset {e : Event I} (es : List (Event I)) (he : e.isReset = true) :
    delayAfter (es ++ [e]) = 10 := by
  simp [delayAfter, errorsSince_concat, he]

theorem delayAfter_concat_of_not {e : Event I} (es : List (Event I)) (he : e.isReset = false)
    (hsuspended : e.isSuspended = false) : delayAfter (es ++ [e]) = delayAfter es := by
  simp [delayAfter, errorsSince_concat, he, hsuspended]

/-- The delay is doubled, unless it has reached the maximum. -/
theorem delayAfter_concat_suspended (es : List (Event I)) (delay : ℕ) :
    delayAfter (es ++ [.suspended delay]) =
      if delayAfter es < 5000 then delayAfter es * 2 else delayAfter es := by
  have hsucc : errorsSince (es ++ [.suspended delay]) = errorsSince es + 1 :=
    errorsSince_concat es _
  rw [delayAfter, hsucc, pow_succ]
  by_cases herrors : errorsSince es ≤ 8
  · have hpow : 2 ^ errorsSince es ≤ 2 ^ 8 := Nat.pow_le_pow_right (by omega) herrors
    have hdelay : delayAfter es = 10 * 2 ^ errorsSince es := min_eq_right (by omega)
    rw [hdelay, if_pos (by omega), min_eq_right (by omega)]
    omega
  · have hpow : 2 ^ 9 ≤ 2 ^ errorsSince es := Nat.pow_le_pow_right (by omega) (by omega)
    have hdelay : delayAfter es = 5120 := min_eq_left (by omega)
    rw [hdelay, if_neg (by omega), min_eq_left (by omega)]

/-- What the events say about the stream. -/
structure Inv (stream : List (Accept I)) (s : SuspendableStream I) (es : List (Event I)) :
    Prop where
  initialDelay : s.initialDelay = 10
  maxDelay : s.maxDelay = 5000
  nextDelay : s.nextDelay = delayAfter es
  items : es.filterMap Event.returned ++ s.stream.filterMap Accept.item? =
    stream.filterMap Accept.item?

theorem inv_new (stream : List (Accept I)) : (new stream).Inv stream [] where
  initialDelay := rfl
  maxDelay := rfl
  nextDelay := rfl
  items := rfl

variable {stream : List (Accept I)} {s : SuspendableStream I} {es : List (Event I)}

/-- The delay starts again when the poll answers with an item or the end. -/
theorem Inv.reset (hinv : s.Inv stream es) {e : Event I} (he : e.isReset = true)
    {rest : List (Accept I)}
    (hrest : e.returned.toList ++ rest.filterMap Accept.item? = s.stream.filterMap Accept.item?) :
    Inv stream { s with stream := rest }.reset (es ++ [e]) := by
  have hitems : (es ++ [e]).filterMap Event.returned ++ rest.filterMap Accept.item? =
      stream.filterMap Accept.item? := by
    rw [← hinv.items, ← hrest, List.filterMap_append, List.append_assoc]
    cases hreturned : e.returned <;> simp [hreturned]
  have hdelay := delayAfter_concat_of_reset es he
  have hle := le_delayAfter es
  rw [← hinv.nextDelay] at hle
  unfold SuspendableStream.reset
  split
  · exact ⟨hinv.initialDelay, hinv.maxDelay, hinv.initialDelay.trans hdelay.symm, hitems⟩
  · rename_i hnot
    refine ⟨hinv.initialDelay, hinv.maxDelay, ?_, hitems⟩
    have hinitial := hinv.initialDelay
    dsimp only at hnot ⊢
    omega

/-- An event that leaves the delay as it is, and returns nothing. -/
theorem Inv.keep (hinv : s.Inv stream es) {e : Event I} (he : e.isReset = false)
    (hsuspended : e.isSuspended = false) (hreturned : e.returned = none)
    {rest : List (Accept I)} {suspendedUntil : Option ℕ}
    (hrest : rest.filterMap Accept.item? = s.stream.filterMap Accept.item?) :
    Inv stream { s with stream := rest, suspendedUntil } (es ++ [e]) where
  initialDelay := hinv.initialDelay
  maxDelay := hinv.maxDelay
  nextDelay := hinv.nextDelay.trans (delayAfter_concat_of_not es he hsuspended).symm
  items := by
    rw [← hinv.items, ← hrest]
    simp [hreturned]

theorem Inv.advance (hinv : s.Inv stream es) (clock : Clock) :
    (s.advance clock).1.Inv stream (es ++ [(s.advance clock).2]) := by
  obtain ⟨rest, nextDelay, initialDelay, maxDelay, suspendedUntil⟩ := s
  match suspendedUntil, rest with
  | some deadline, rest =>
    cases hover : clock.isOver deadline with
    | true =>
      simp only [SuspendableStream.advance, hover]
      exact hinv.keep (e := .elapsed) rfl rfl rfl rfl
    | false =>
      simp only [SuspendableStream.advance, hover]
      exact hinv.keep (e := .waiting) rfl rfl rfl rfl
  | none, [] => exact hinv.keep (e := .pending) rfl rfl rfl rfl
  | none, .pending :: rest => exact hinv.keep (e := .pending) rfl rfl rfl rfl
  | none, .ended :: rest => exact hinv.reset (e := .ended) rfl rfl
  | none, .item i :: rest => exact hinv.reset (e := .item i) rfl rfl
  | none, .error kind :: rest =>
    cases hkind : connectionError kind with
    | true =>
      simp only [SuspendableStream.advance, hkind]
      exact hinv.keep (e := .connectionError) rfl rfl rfl rfl
    | false =>
      simp only [SuspendableStream.advance, hkind]
      refine ⟨hinv.initialDelay, hinv.maxDelay, ?_, ?_⟩
      · have hmax : maxDelay = 5000 := hinv.maxDelay
        have hnext : nextDelay = delayAfter es := hinv.nextDelay
        rw [if_neg Bool.false_ne_true, delayAfter_concat_suspended, ← hnext, ← hmax]
        rfl
      · rw [← hinv.items]
        rw [List.filterMap_append, List.append_assoc]
        rfl

theorem inv_after (stream : List (Accept I)) (clocks : List Clock) :
    (after stream clocks).Inv stream (events stream clocks) :=
  Runs.outputs_invariant (inv_new stream) (fun _ _ clock hinv => hinv.advance clock) clocks

/-- A suspension is as long as the delay after it. -/
theorem nextDelay_of_suspended {clock : Clock} {delay : ℕ}
    (h : (s.advance clock).2 = .suspended delay) :
    (s.advance clock).1.nextDelay = delay ∧
      (s.advance clock).1.suspendedUntil = some (clock.now + delay) := by
  obtain ⟨rest, nextDelay, initialDelay, maxDelay, suspendedUntil⟩ := s
  match suspendedUntil, rest with
  | some deadline, rest => cases hover : clock.isOver deadline <;> simp [advance, hover] at h
  | none, [] | none, .pending :: _ | none, .ended :: _ | none, .item _ :: _ => cases h
  | none, .error kind :: rest =>
    cases hkind : connectionError kind with
    | true => simp [advance, hkind] at h
    | false =>
      simp only [advance, hkind] at h ⊢
      cases h
      exact ⟨rfl, rfl⟩

/-- The length of a suspension is determined by the events before it. -/
theorem delay_eq {clocks : List Clock} {before rest : List (Event I)} {delay : ℕ}
    (h : events stream clocks = before ++ .suspended delay :: rest) :
    delay = delayAfter (before ++ [.suspended delay]) := by
  obtain ⟨earlier, clock, hbefore, hout⟩ := Runs.exists_of_outputs_eq h
  have hinv := (inv_after stream earlier).advance clock
  have hevents : events stream earlier = before := hbefore
  have hsuspended : (after stream earlier).event clock = .suspended delay := hout
  rw [hevents, show ((after stream earlier).advance clock).2 = _ from hsuspended] at hinv
  rw [← hinv.nextDelay]
  exact (nextDelay_of_suspended hsuspended).1.symm

/-- The errors add up while the delay does not start again. -/
theorem errorsSince_le_append (es : List (Event I)) {later : List (Event I)}
    (hlater : ∀ e ∈ later, e.isReset = false) : errorsSince es ≤ errorsSince (es ++ later) := by
  induction later using List.reverseRecOn with
  | nil => rw [List.append_nil]
  | append_singleton later e ih =>
    have hmono := ih fun e' he' => hlater e' (List.mem_append_left _ he')
    rw [← List.append_assoc, errorsSince_concat, hlater e (by simp), if_neg Bool.false_ne_true]
    split <;> omega

/-- After an item there is no error until the next suspension. -/
theorem errorsSince_item_append (es : List (Event I)) (i : I) {later : List (Event I)}
    (hlater : ∀ e ∈ later, e.isSuspended = false) : errorsSince (es ++ .item i :: later) = 0 := by
  induction later using List.reverseRecOn with
  | nil => exact errorsSince_concat es _
  | append_singleton later e ih =>
    have hzero := ih fun e' he' => hlater e' (List.mem_append_left _ he')
    rw [← List.cons_append, ← List.append_assoc, errorsSince_concat, hlater e (by simp), hzero]
    simp

/-! ## Suspensions -/

/-- Nothing happens while a suspension is in force. -/
theorem run_eq_self {deadline : ℕ} (hs : s.suspendedUntil = some deadline) {clocks : List Clock}
    (hclocks : ∀ c ∈ clocks, c.isOver deadline = false) :
    Runs.run step s clocks = s := by
  induction clocks with
  | nil => rfl
  | cons clock clocks ih =>
    obtain ⟨hclock, hrest⟩ := List.forall_mem_cons.mp hclocks
    have hself : (s.advance clock).1 = s := by
      simp [advance, hs, hclock]
    exact (congrArg (Runs.run _ · clocks) hself).trans (ih hrest)

/-- The listener is polled outside of suspensions. -/
theorem suspendedUntil_of_pollsStream {clock : Clock}
    (h : (s.advance clock).2.pollsStream = true) : s.suspendedUntil = none := by
  cases hs : s.suspendedUntil with
  | none => rfl
  | some deadline =>
    cases hover : clock.isOver deadline <;> simp [advance, hs, hover, Event.pollsStream] at h

theorem disciplined (stream : List (Accept I)) (clocks : List Clock) :
    Disciplined stream clocks where
  nonDecreasing before delay between delay' rest hevents hbetween := by
    have hfirst := delay_eq hevents
    rw [← List.cons_append, ← List.append_assoc] at hevents
    have hsecond := delay_eq hevents
    have hlater : ∀ e ∈ between ++ [.suspended delay'], e.isReset = false := by
      intro e he
      rcases List.mem_append.mp he with he | he
      · exact hbetween e he
      · cases List.mem_singleton.mp he
        rfl
    have hle := errorsSince_le_append (before ++ [.suspended delay]) hlater
    rw [List.append_assoc, List.singleton_append] at hle
    rw [hfirst, hsecond, List.append_assoc, List.cons_append]
    exact min_le_min_left _ (Nat.mul_le_mul_left _ (Nat.pow_le_pow_right (by omega) hle))
  first before i between delay rest hevents hbetween := by
    rw [← List.cons_append, ← List.append_assoc] at hevents
    rw [delay_eq hevents, delayAfter, errorsSince_concat, errorsSince_item_append before i hbetween]
    rfl
  notPolled before clock during clock' rest delay hclocks hsuspended hpolls := by
    by_contra hnot
    have hduring : ∀ c ∈ during, c.isOver (clock.now + delay) = false := by
      intro c hc
      rw [Bool.eq_false_iff]
      exact fun hover => hnot ⟨c, hc, hover⟩
    have huntil := (nextDelay_of_suspended hsuspended).2
    have hnone := suspendedUntil_of_pollsStream hpolls
    rw [after, Runs.run_append] at hnone
    have hsame := run_eq_self huntil hduring
    have hcontra : ((after stream before).advance clock).1.suspendedUntil = none :=
      (congrArg SuspendableStream.suspendedUntil hsame).symm.trans hnone
    rw [huntil] at hcontra
    cases hcontra
  items := (inv_after stream clocks).items
  polls parts hparts := by
    obtain ⟨⟨s', answer⟩, hpoll⟩ := Option.isSome_iff_exists.mp (isSome_pollNext _ parts hparts)
    obtain ⟨before, clock, rest, heq, hnone, hstate, hanswer⟩ := pollNext_eq_some hpoll
    have hbefore : after stream (clocks ++ before) = Runs.run step (after stream clocks) before :=
      Runs.run_append step clocks before
    have hlast : after stream (clocks ++ before ++ [clock]) = s' := by
      rw [after, Runs.run_concat, ← hstate, ← hbefore]
      rfl
    refine ⟨before, clock, rest, answer, heq, ?_, hnone, ?_⟩
    · rw [hlast]
      exact hpoll
    · rw [hbefore]
      exact hanswer

/-- The delays are within the maximum if and only if there are never too many errors. -/
theorem delays_le_iff (stream : List (Accept I)) (clocks : List Clock) :
    (∀ delay, .suspended delay ∈ events stream clocks → delay ≤ 5000) ↔
      ∀ before rest, events stream clocks = before ++ rest → errorsSince before ≤ 8 := by
  constructor
  · intro hdelays before
    induction before using List.reverseRecOn with
    | nil => exact fun _ _ => Nat.le_add_left 1 7
    | append_singleton before e ih =>
      intro rest hevents
      have hbefore := ih (e :: rest) (by simpa using hevents)
      cases e with
      | suspended delay =>
        rw [← delayAfter_le_iff]
        rw [List.append_assoc] at hevents
        have hdelay := delay_eq hevents
        rw [← hdelay]
        exact hdelays delay (by simp [hevents])
      | waiting | elapsed | pending | connectionError =>
        rw [errorsSince_concat]
        exact hbefore
      | ended | item i =>
        rw [errorsSince_concat]
        exact Nat.zero_le 8
  · intro herrors delay hmem
    obtain ⟨before, rest, hevents⟩ := List.append_of_mem hmem
    have hle := herrors (before ++ [.suspended delay]) rest (by simpa using hevents)
    rw [delay_eq hevents]
    exact (delayAfter_le_iff _).mpr hle

/-- **Back-off.** In every run, the delays do not decrease until there is a connection again,
the delay after a connection is twice the initial one, the listener is left alone during a
suspension, every connection is returned once and in order, and every poll ends. The delays are
within their bounds if and only if there are never too many errors without a connection. -/
theorem delays_bounded_iff (stream : List (Accept I)) (clocks : List Clock) :
    Disciplined stream clocks ∧
      ((∀ delay, .suspended delay ∈ events stream clocks →
          (new stream).initialDelay ≤ delay ∧ delay ≤ (new stream).maxDelay) ↔
        ∀ before rest, events stream clocks = before ++ rest → errorsSince before ≤ 8) := by
  refine ⟨disciplined stream clocks, ?_⟩
  rw [← delays_le_iff]
  refine forall_congr' fun delay => imp_congr_right fun hmem => and_iff_right ?_
  obtain ⟨before, rest, hevents⟩ := List.append_of_mem hmem
  rw [delay_eq hevents]
  exact le_delayAfter _

/-- The listener fails eight times, and every suspension is over when it is looked at. -/
def eightErrors : List (Event ℕ) :=
  events (List.replicate 8 (.error .other)) (List.replicate 15 ⟨0, fun _ => true⟩)

/-- The last suspension is longer than the maximum. -/
theorem suspended_eightErrors :
    .suspended 5120 ∈ eightErrors ∧ (new ([] : List (Accept ℕ))).maxDelay < 5120 := by
  decide

end SuspendableStream

end JsonRpc.ServerUtils
