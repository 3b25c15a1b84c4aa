import Mathlib.Data.List.Nodup
import Mathlib.Logic.Function.Basic
import Mathlib.Logic.Relation

/-!
# Correlating answers with requests

A correlator hands out keys and registers waiters under them. Messages carry
keys, arrive in any order, are queued, and are handled one after another. A
handled message consumes the waiter that is pending under its key. Waiters are
registered only while the queue is empty, and each waiter at most once.

As long as the keys that are handed out are distinct, each waiter is consumed at
most once, and by the first message with its key that is handled after it was
registered. That is also the first such message that arrives after that.
-/

namespace Correlator

/-- What happens in a correlator. -/
inductive Event (K W M : Type*) where
  /-- A key is handed out. -/
  | issued (k : K)
  /-- A waiter is registered under a key. -/
  | registered (k : K) (w : W)
  /-- A message arrives. -/
  | arrived (m : M)
  /-- A message is handled and consumes a waiter, if there is one. -/
  | handled (m : M) (consumed : Option W)

/-- The state of a correlator. -/
structure State (K W M : Type*) where
  /-- The number of keys that were handed out. -/
  count : ℕ
  /-- The waiters by their keys. -/
  pending : K → Option W
  /-- The messages that are not handled. -/
  queue : List M
  /-- What happened so far. -/
  trace : List (Event K W M)

variable {K W M : Type*}

/-- The keys that were handed out. -/
def issued (trace : List (Event K W M)) : List K :=
  trace.filterMap fun
    | .issued k => some k
    | _ => none

/-- The waiters that were registered. -/
def registered (trace : List (Event K W M)) : List W :=
  trace.filterMap fun
    | .registered _ w => some w
    | _ => none

/-- The message that arrives. -/
def Event.arrival : Event K W M → Option M
  | .arrived m => some m
  | _ => none

/-- The message that is handled. -/
def Event.handling : Event K W M → Option M
  | .handled m _ => some m
  | _ => none

/-- The initial state. -/
def State.init : State K W M := ⟨0, fun _ => none, [], []⟩

@[simp] theorem issued_append (trace trace' : List (Event K W M)) :
    issued (trace ++ trace') = issued trace ++ issued trace' :=
  List.filterMap_append

@[simp] theorem registered_append (trace trace' : List (Event K W M)) :
    registered (trace ++ trace') = registered trace ++ registered trace' :=
  List.filterMap_append

section Machine

variable [DecidableEq K] (key : M → K) (fresh : ℕ → K)

/-- The steps of a correlator. -/
inductive Step : State K W M → State K W M → Prop where
  /-- Hand out a key. -/
  | issue (s : State K W M) :
      Step s { s with count := s.count + 1, trace := s.trace ++ [.issued (fresh s.count)] }
  /-- Hand out a key and register a waiter under it. -/
  | register (s : State K W M) (w : W) (hqueue : s.queue = []) (hw : w ∉ registered s.trace) :
      Step s
        { s with
          count := s.count + 1
          pending := Function.update s.pending (fresh s.count) (some w)
          trace := s.trace ++ [.issued (fresh s.count), .registered (fresh s.count) w] }
  /-- A message arrives and is queued. -/
  | arrive (s : State K W M) (m : M) :
      Step s { s with queue := s.queue ++ [m], trace := s.trace ++ [.arrived m] }
  /-- The first message of the queue is handled. -/
  | handle (s : State K W M) {m : M} {queue : List M} (hqueue : s.queue = m :: queue) :
      Step s
        { s with
          pending := Function.update s.pending (key m) none
          queue
          trace := s.trace ++ [.handled m (s.pending (key m))] }

/-- The states a correlator can reach. -/
def Reachable : State K W M → Prop := Relation.ReflTransGen (Step key fresh) .init

/-- A step from a reachable state reaches a state. -/
theorem Reachable.step {s s' : State K W M} (hs : Reachable key fresh s)
    (hstep : Step key fresh s s') : Reachable key fresh s' :=
  Relation.ReflTransGen.tail hs hstep

/-- Keys are only ever handed out. -/
theorem Step.count_le {s s' : State K W M} (h : Step key fresh s s') : s.count ≤ s'.count := by
  cases h with
  | issue => exact Nat.le_succ _
  | register => exact Nat.le_succ _
  | arrive => exact Nat.le_refl _
  | handle => exact Nat.le_refl _

/-! ## The progress of a waiter -/

variable [DecidableEq W]

/-- How far a waiter is. -/
inductive Progress (K M : Type*) where
  /-- It is not registered. -/
  | unregistered
  /-- It waits for a message with its key. -/
  | waiting (k : K)
  /-- It was answered by a message. -/
  | answered (m : M)

/-- The progress of the waiter `w` after an event. The waiter is answered by the
messages that `message` sees. -/
def Progress.next (message : Event K W M → Option M) (w : W) (p : Progress K M)
    (e : Event K W M) : Progress K M :=
  match p with
  | .unregistered =>
    match e with
    | .registered k w' => if w' = w then .waiting k else .unregistered
    | _ => .unregistered
  | .waiting k =>
    match message e with
    | some m => if key m = k then .answered m else .waiting k
    | none => .waiting k
  | .answered m => .answered m

/-- The progress of a waiter after a trace. -/
def progress (message : Event K W M → Option M) (w : W) (trace : List (Event K W M)) :
    Progress K M :=
  trace.foldl (Progress.next key message w) .unregistered

/-- The progress of a waiter once the queue is handled. -/
def Progress.ahead (queue : List M) : Progress K M → Progress K M
  | .waiting k =>
    match queue.find? fun m => key m = k with
    | some m => .answered m
    | none => .waiting k
  | p => p

/-- The messages that consumed a waiter. -/
def consumers (w : W) (trace : List (Event K W M)) : List M :=
  trace.filterMap fun
    | .handled m consumed => if consumed = some w then some m else none
    | _ => none

/-- The message that answered a waiter, as a list. -/
def Progress.answers : Progress K M → List M
  | .answered m => [m]
  | _ => []

@[simp] theorem progress_append (message : Event K W M → Option M) (w : W)
    (trace trace' : List (Event K W M)) :
    progress key message w (trace ++ trace') =
      trace'.foldl (Progress.next key message w) (progress key message w trace) :=
  List.foldl_append

omit [DecidableEq K] in
@[simp] theorem consumers_append (w : W) (trace trace' : List (Event K W M)) :
    consumers w (trace ++ trace') = consumers w trace ++ consumers w trace' :=
  List.filterMap_append

/-- The first message that `message` sees after a waiter was registered and that
has its key. -/
def firstAfter (message : Event K W M → Option M) (w : W) : List (Event K W M) → Option M
  | [] => none
  | .registered k w' :: trace =>
    if w' = w then (trace.filterMap message).find? fun m => key m = k
    else firstAfter message w trace
  | _ :: trace => firstAfter message w trace

/-- The first message after the registration of a waiter splits the trace there. -/
theorem exists_registered_of_firstAfter {message : Event K W M → Option M} {w : W}
    {trace : List (Event K W M)} {m : M} (h : firstAfter key message w trace = some m) :
    ∃ before k after, trace = before ++ .registered k w :: after ∧
      (after.filterMap message).find? (fun m => key m = k) = some m := by
  induction trace with
  | nil => cases h
  | cons e trace ih =>
    have hlater : firstAfter key message w trace = some m →
        ∃ before k after, e :: trace = before ++ .registered k w :: after ∧
          (after.filterMap message).find? (fun m => key m = k) = some m := by
      intro htrace
      obtain ⟨before, k, after, rfl, hfind⟩ := ih htrace
      exact ⟨e :: before, k, after, rfl, hfind⟩
    cases e with
    | registered k w' =>
      rw [firstAfter] at h
      split at h
      · rename_i hw
        subst hw
        exact ⟨[], k, trace, rfl, h⟩
      · exact hlater h
    | issued => exact hlater h
    | arrived => exact hlater h
    | handled => exact hlater h

/-- What happens before the registration of a waiter does not matter. -/
theorem firstAfter_append_registered {message : Event K W M → Option M} {w : W}
    {before : List (Event K W M)} (hw : w ∉ registered before) (k : K)
    (after : List (Event K W M)) :
    firstAfter key message w (before ++ .registered k w :: after) =
      (after.filterMap message).find? fun m => key m = k := by
  induction before with
  | nil => exact if_pos rfl
  | cons e before ih =>
    rw [← List.singleton_append, registered_append, List.mem_append, not_or] at hw
    cases e with
    | registered k' w' =>
      have hne : w' ≠ w := fun h => hw.1 (by simp [registered, h])
      rw [List.cons_append, firstAfter, if_neg hne]
      exact ih hw.2
    | issued => exact ih hw.2
    | arrived => exact ih hw.2
    | handled => exact ih hw.2

/-- An answered waiter stays so. -/
theorem foldl_next_answered (message : Event K W M → Option M) (w : W) (m : M)
    (trace : List (Event K W M)) :
    trace.foldl (Progress.next key message w) (.answered m) = .answered m := by
  induction trace with
  | nil => rfl
  | cons e trace ih => exact ih

/-- A waiter waits until the first message with its key. -/
theorem answers_foldl_next_waiting (message : Event K W M → Option M) (w : W) (k : K)
    (trace : List (Event K W M)) :
    (trace.foldl (Progress.next key message w) (.waiting k)).answers =
      ((trace.filterMap message).find? fun m => key m = k).toList := by
  induction trace with
  | nil => rfl
  | cons e trace ih =>
    rw [List.foldl_cons]
    cases hmessage : message e with
    | none =>
      have hnext : (Progress.waiting k).next key message w e = .waiting k := by
        simp [Progress.next, hmessage]
      rw [hnext, ih, List.filterMap_cons_none hmessage]
    | some m =>
      rw [List.filterMap_cons_some hmessage]
      by_cases hkey : key m = k
      · have hnext : (Progress.waiting k).next key message w e = .answered m := by
          simp [Progress.next, hmessage, hkey]
        rw [hnext, foldl_next_answered, List.find?_cons_of_pos (by simpa using hkey)]
        rfl
      · have hnext : (Progress.waiting k).next key message w e = .waiting k := by
          simp [Progress.next, hmessage, hkey]
        rw [hnext, ih, List.find?_cons_of_neg (by simpa using hkey)]

/-- A waiter is answered by the first message after its registration. -/
theorem answers_progress (message : Event K W M → Option M) (w : W) (trace : List (Event K W M)) :
    (progress key message w trace).answers = (firstAfter key message w trace).toList := by
  unfold progress
  induction trace with
  | nil => rfl
  | cons e trace ih =>
    rw [List.foldl_cons]
    cases e with
    | registered k w' =>
      rw [firstAfter]
      by_cases hw : w' = w
      · have hnext : (Progress.unregistered : Progress K M).next key message w
            (.registered k w') = .waiting k := by simp [Progress.next, hw]
        rw [hnext, if_pos hw, answers_foldl_next_waiting]
      · have hnext : (Progress.unregistered : Progress K M).next key message w
            (.registered k w') = .unregistered := by simp [Progress.next, hw]
        rw [hnext, if_neg hw, ih]
    | issued => exact ih
    | arrived => exact ih
    | handled => exact ih

/-! ### One event -/

@[simp] theorem next_handling_issued (w : W) (p : Progress K M) (k : K) :
    p.next key Event.handling w (.issued k) = p := by
  cases p <;> rfl

@[simp] theorem next_arrival_issued (w : W) (p : Progress K M) (k : K) :
    p.next key Event.arrival w (.issued k) = p := by
  cases p <;> rfl

@[simp] theorem next_handling_arrived (w : W) (p : Progress K M) (m : M) :
    p.next key Event.handling w (.arrived m) = p := by
  cases p <;> rfl

@[simp] theorem next_arrival_handled (w : W) (p : Progress K M) (m : M) (consumed : Option W) :
    p.next key Event.arrival w (.handled m consumed) = p := by
  cases p <;> rfl

/-- A message that is handled registers nobody. -/
theorem next_handled_eq_unregistered_iff (w : W) (p : Progress K M) (m : M)
    (consumed : Option W) :
    p.next key Event.handling w (.handled m consumed) = .unregistered ↔ p = .unregistered := by
  cases p with
  | unregistered => exact Iff.rfl
  | answered => exact Iff.rfl
  | waiting k =>
    by_cases hkey : key m = k
    · simp [Progress.next, Event.handling, hkey]
    · simp [Progress.next, Event.handling, hkey]

/-- The registration of another waiter is no progress. -/
theorem progress_register_of_ne {message : Event K W M → Option M}
    (hissued : ∀ k, message (.issued k) = none)
    (hregistered : ∀ k w, message (.registered k w) = none) {w w' : W} (hne : w ≠ w')
    (trace : List (Event K W M)) (k : K) :
    progress key message w (trace ++ [.issued k, .registered k w']) =
      progress key message w trace := by
  rw [progress_append, List.foldl_cons, List.foldl_cons, List.foldl_nil]
  cases progress key message w trace with
  | unregistered => simp [Progress.next, hne.symm]
  | waiting => simp [Progress.next, hissued, hregistered]
  | answered => rfl

/-- A waiter that is registered waits for its key. -/
theorem progress_register_self {message : Event K W M → Option M} {w : W}
    {trace : List (Event K W M)} (h : progress key message w trace = .unregistered) (k : K) :
    progress key message w (trace ++ [.issued k, .registered k w]) = .waiting k := by
  simp [h, Progress.next]

/-- Progress ahead of an empty queue is progress. -/
@[simp] theorem ahead_nil (p : Progress K M) : p.ahead key [] = p := by
  cases p <;> rfl

/-- An arriving message is the next one after those in the queue. -/
theorem next_arrival_ahead (w : W) (p : Progress K M) (queue : List M) (m : M) :
    (p.ahead key queue).next key Event.arrival w (.arrived m) = p.ahead key (queue ++ [m]) := by
  cases p with
  | unregistered => rfl
  | answered => rfl
  | waiting k =>
    simp only [Progress.ahead, List.find?_append]
    cases hfind : queue.find? fun m => key m = k with
    | some m' => rfl
    | none =>
      by_cases hkey : key m = k
      · simp [Progress.next, Event.arrival, hkey]
      · simp [Progress.next, Event.arrival, hkey]

/-- Handling the first message of the queue changes nothing ahead of it. -/
theorem ahead_next_handled (w : W) (p : Progress K M) (queue : List M) (m : M)
    (consumed : Option W) :
    (p.next key Event.handling w (.handled m consumed)).ahead key queue =
      p.ahead key (m :: queue) := by
  cases p with
  | unregistered => rfl
  | answered => rfl
  | waiting k =>
    by_cases hkey : key m = k
    · simp [Progress.next, Event.handling, Progress.ahead, hkey]
    · simp [Progress.next, Event.handling, Progress.ahead, hkey]

/-- A handled message ends the wait for its key, and no other. -/
theorem next_handled_eq_waiting_iff (w : W) (p : Progress K M) (m : M) (consumed : Option W)
    (k : K) : p.next key Event.handling w (.handled m consumed) = .waiting k ↔
      p = .waiting k ∧ k ≠ key m := by
  cases p with
  | unregistered => simp [Progress.next]
  | answered => simp [Progress.next]
  | waiting k' =>
    by_cases hkey : key m = k'
    · simp only [Progress.next, Event.handling, hkey, if_true, reduceCtorEq,
        Progress.waiting.injEq, false_iff, not_and, not_not]
      exact fun h => h.symm
    · simp only [Progress.next, Event.handling, hkey, if_false, Progress.waiting.injEq]
      refine ⟨?_, And.left⟩
      rintro rfl
      exact ⟨rfl, Ne.symm hkey⟩

/-- A handled message answers only those that wait for its key. -/
theorem answers_next_handled (w : W) {p : Progress K M} (m : M) (consumed : Option W)
    (hne : p ≠ .waiting (key m)) :
    (p.next key Event.handling w (.handled m consumed)).answers = p.answers := by
  cases p with
  | unregistered => rfl
  | answered => rfl
  | waiting k =>
    have hkey : key m ≠ k := fun h => hne (congrArg _ h.symm)
    simp [Progress.next, Event.handling, hkey]

/-! ## The invariant -/

/-- What holds in every state that is reached with distinct keys. -/
structure Sound (s : State K W M) : Prop where
  /-- The keys are handed out in the order of `fresh`. -/
  issued_eq : issued s.trace = (List.range s.count).map fresh
  /-- A pending key was handed out. -/
  pending_issued : ∀ {k w}, s.pending k = some w → k ∈ issued s.trace
  /-- The key of a message that consumed a waiter was handed out. -/
  consumed_issued : ∀ {m w}, .handled m (some w) ∈ s.trace → key m ∈ issued s.trace
  /-- The registered waiters are those that made progress. -/
  registered_iff : ∀ w, w ∈ registered s.trace ↔
    progress key Event.handling w s.trace ≠ .unregistered
  /-- The pending waiters are those that wait. -/
  pending_iff : ∀ k w, s.pending k = some w ↔ progress key Event.handling w s.trace = .waiting k
  /-- A waiter is consumed by the message that answered it, and by no other. -/
  consumers_eq : ∀ w, consumers w s.trace = (progress key Event.handling w s.trace).answers
  /-- The messages are handled in the order of their arrival. -/
  queue_eq : s.trace.filterMap Event.arrival = s.trace.filterMap Event.handling ++ s.queue
  /-- The first message that arrives for a waiter is the first one handled. -/
  arrival_eq : ∀ w, progress key Event.arrival w s.trace =
    (progress key Event.handling w s.trace).ahead key s.queue

/-- A new correlator is sound. -/
theorem sound_init : Sound key fresh (.init : State K W M) where
  issued_eq := rfl
  pending_issued h := by cases h
  consumed_issued h := by cases h
  registered_iff w := by simp [State.init, registered, progress]
  pending_iff k w := by simp [State.init, progress]
  consumers_eq w := rfl
  queue_eq := rfl
  arrival_eq w := rfl

section Steps

variable {key fresh} {s : State K W M}

/-- A key that is not handed out has no waiter. -/
theorem Sound.pending_fresh (hs : Sound key fresh s) {k : K} (hk : k ∉ issued s.trace) :
    s.pending k = none := by
  cases hpending : s.pending k with
  | none => rfl
  | some w => exact absurd (hs.pending_issued hpending) hk

/-- Distinct keys are handed out. -/
theorem Sound.fresh_notMem_issued (hs : Sound key fresh s) {bound : ℕ}
    (hfresh : ∀ a < bound, ∀ b < bound, fresh a = fresh b → a = b) (hcount : s.count < bound) :
    fresh s.count ∉ issued s.trace := by
  rw [hs.issued_eq, List.mem_map]
  rintro ⟨n, hn, heq⟩
  rw [List.mem_range] at hn
  have := hfresh n (by omega) s.count hcount heq
  omega

/-- Handing out a key keeps a correlator sound. -/
theorem Sound.issue (hs : Sound key fresh s) :
    Sound key fresh
      { s with count := s.count + 1, trace := s.trace ++ [.issued (fresh s.count)] } where
  issued_eq := by
    simp only [issued_append, hs.issued_eq, List.range_succ, List.map_append]
    rfl
  pending_issued h := by
    rw [issued_append]
    exact List.mem_append_left _ (hs.pending_issued h)
  consumed_issued h := by
    rw [issued_append]
    simp only [List.mem_append, List.mem_singleton, reduceCtorEq, or_false] at h
    exact List.mem_append_left _ (hs.consumed_issued h)
  registered_iff w := by simpa [registered] using hs.registered_iff w
  pending_iff k w := by simpa using hs.pending_iff k w
  consumers_eq w := by simpa [consumers] using hs.consumers_eq w
  queue_eq := by
    simpa [List.filterMap_cons, Event.arrival, Event.handling] using hs.queue_eq
  arrival_eq w := by simpa using hs.arrival_eq w

/-- Registering a waiter under a new key keeps a correlator sound. -/
theorem Sound.register (hs : Sound key fresh s) {w : W} (hqueue : s.queue = [])
    (hw : w ∉ registered s.trace) (hfresh : fresh s.count ∉ issued s.trace) :
    Sound key fresh
      { s with
        count := s.count + 1
        pending := Function.update s.pending (fresh s.count) (some w)
        trace := s.trace ++ [.issued (fresh s.count), .registered (fresh s.count) w] } := by
  have hunregistered : progress key Event.handling w s.trace = .unregistered := by
    by_contra hne
    exact hw ((hs.registered_iff w).mpr hne)
  have hself := progress_register_self key hunregistered (fresh s.count)
  have hother : ∀ w', w' ≠ w → progress key Event.handling w'
      (s.trace ++ [.issued (fresh s.count), .registered (fresh s.count) w]) =
      progress key Event.handling w' s.trace := fun w' hne =>
    progress_register_of_ne key (fun _ => rfl) (fun _ _ => rfl) hne s.trace (fresh s.count)
  refine ⟨?_, ?_, ?_, ?_, ?_, ?_, ?_, ?_⟩
  · simp only [issued_append, hs.issued_eq, List.range_succ, List.map_append]
    rfl
  · intro k w' h
    simp only [issued_append] at h ⊢
    by_cases hk : k = fresh s.count
    · exact List.mem_append_right _ (by simp [issued, hk])
    · rw [Function.update_of_ne hk] at h
      exact List.mem_append_left _ (hs.pending_issued h)
  · intro m w' h
    rw [issued_append]
    simp only [List.mem_append, List.mem_cons, reduceCtorEq, List.not_mem_nil, or_false] at h
    exact List.mem_append_left _ (hs.consumed_issued h)
  · intro w'
    by_cases hne : w' = w
    · subst hne
      rw [hself]
      simp [registered]
    · rw [hother w' hne, ← hs.registered_iff w']
      simp [registered, hne]
  · intro k w'
    by_cases hne : w' = w
    · subst hne
      rw [hself, Progress.waiting.injEq]
      by_cases hk : k = fresh s.count
      · simp [hk]
      · have hnone : s.pending k ≠ some w' := fun h => by
          have := (hs.pending_iff k w').mp h
          rw [hunregistered] at this
          cases this
        simp [Function.update_of_ne hk, hnone, Ne.symm hk]
    · rw [hother w' hne, ← hs.pending_iff k w']
      by_cases hk : k = fresh s.count
      · subst hk
        simp [hs.pending_fresh hfresh, Ne.symm hne]
      · simp only [Function.update_of_ne hk]
  · intro w'
    have hconsumers := hs.consumers_eq w'
    rw [consumers_append]
    by_cases hne : w' = w
    · subst hne
      rw [hself, hconsumers, hunregistered]
      rfl
    · rw [hother w' hne, hconsumers]
      simp [consumers]
  · simpa [List.filterMap_cons, Event.arrival, Event.handling] using hs.queue_eq
  · intro w'
    have harrival := hs.arrival_eq w'
    simp only [hqueue, ahead_nil] at harrival ⊢
    by_cases hne : w' = w
    · subst hne
      rw [hself]
      exact progress_register_self key (harrival.trans hunregistered) (fresh s.count)
    · rw [hother w' hne, ← harrival]
      exact progress_register_of_ne key (fun _ => rfl) (fun _ _ => rfl) hne s.trace (fresh s.count)

/-- An arriving message keeps a correlator sound. -/
theorem Sound.arrive (hs : Sound key fresh s) (m : M) :
    Sound key fresh
      { s with queue := s.queue ++ [m], trace := s.trace ++ [.arrived m] } where
  issued_eq := by simpa [issued] using hs.issued_eq
  pending_issued h := by
    rw [issued_append]
    exact List.mem_append_left _ (hs.pending_issued h)
  consumed_issued h := by
    rw [issued_append]
    simp only [List.mem_append, List.mem_singleton, reduceCtorEq, or_false] at h
    exact List.mem_append_left _ (hs.consumed_issued h)
  registered_iff w := by simpa [registered] using hs.registered_iff w
  pending_iff k w := by simpa using hs.pending_iff k w
  consumers_eq w := by simpa [consumers] using hs.consumers_eq w
  queue_eq := by
    simp only [List.filterMap_append, hs.queue_eq]
    simp [Event.arrival, Event.handling]
  arrival_eq w := by
    simp only [progress_append, List.foldl_cons, List.foldl_nil, next_handling_arrived,
      hs.arrival_eq w]
    exact next_arrival_ahead key w _ s.queue m

/-- Handling a message keeps a correlator sound. -/
theorem Sound.handle (hs : Sound key fresh s) {m : M} {queue : List M}
    (hqueue : s.queue = m :: queue) :
    Sound key fresh
      { s with
        pending := Function.update s.pending (key m) none
        queue
        trace := s.trace ++ [.handled m (s.pending (key m))] } := by
  have hnext : ∀ w, progress key Event.handling w
      (s.trace ++ [.handled m (s.pending (key m))]) =
      (progress key Event.handling w s.trace).next key Event.handling w
        (.handled m (s.pending (key m))) := fun w => by simp
  refine ⟨?_, ?_, ?_, ?_, ?_, ?_, ?_, ?_⟩
  · simpa [issued] using hs.issued_eq
  · intro k w h
    rw [issued_append]
    by_cases hk : k = key m
    · simp [hk] at h
    · simp only [Function.update_of_ne hk] at h
      exact List.mem_append_left _ (hs.pending_issued h)
  · intro m' w h
    rw [issued_append]
    refine List.mem_append_left _ ?_
    simp only [List.mem_append, List.mem_singleton, Event.handled.injEq] at h
    rcases h with h | ⟨rfl, h⟩
    · exact hs.consumed_issued h
    · exact hs.pending_issued h.symm
  · intro w
    rw [hnext, ne_eq, next_handled_eq_unregistered_iff]
    simpa [registered] using hs.registered_iff w
  · intro k w
    rw [hnext, next_handled_eq_waiting_iff, ← hs.pending_iff k w]
    by_cases hk : k = key m
    · simp [hk]
    · simp [hk]
  · intro w
    have hconsumers := hs.consumers_eq w
    rw [hnext, consumers_append, hconsumers]
    by_cases hconsumed : s.pending (key m) = some w
    · rw [(hs.pending_iff _ _).mp hconsumed, hconsumed]
      simp [Progress.next, Progress.answers, Event.handling, consumers]
    · have hne : progress key Event.handling w s.trace ≠ .waiting (key m) := fun h =>
        hconsumed ((hs.pending_iff _ _).mpr h)
      rw [answers_next_handled key w _ _ hne]
      simp [consumers, hconsumed]
  · have hqueueEq := hs.queue_eq
    rw [hqueue] at hqueueEq
    simp [hqueueEq, Event.arrival, Event.handling]
  · intro w
    rw [hnext, progress_append, List.foldl_cons, List.foldl_nil, next_arrival_handled,
      hs.arrival_eq w, hqueue, ahead_next_handled]

/-- A waiter is consumed by the first message that is handled after its registration. -/
theorem Sound.consumers_eq_firstAfter (hs : Sound key fresh s) (w : W) :
    consumers w s.trace = (firstAfter key Event.handling w s.trace).toList := by
  rw [hs.consumers_eq w, answers_progress]

/-- The message that answers a waiter was handled or is in the queue. -/
theorem Sound.firstAfter_arrival_eq (hs : Sound key fresh s) (w : W) :
    (firstAfter key Event.arrival w s.trace).toList =
      ((progress key Event.handling w s.trace).ahead key s.queue).answers := by
  rw [← answers_progress, hs.arrival_eq w]

/-- A waiter that waits for a message in the queue was not consumed. -/
theorem Sound.consumers_of_pending (hs : Sound key fresh s) {k : K} {w : W}
    (hpending : s.pending k = some w) : consumers w s.trace = [] := by
  rw [hs.consumers_eq w, (hs.pending_iff k w).mp hpending]
  rfl

/-- The first message that arrives for a waiter consumes it, unless it is in the
queue and the waiter is pending. -/
theorem Sound.consumers_of_firstAfter (hs : Sound key fresh s) {w : W} {m : M}
    (hfirst : firstAfter key Event.arrival w s.trace = some m) :
    consumers w s.trace = [m] ∨ m ∈ s.queue ∧ s.pending (key m) = some w := by
  have harrival := hs.firstAfter_arrival_eq w
  rw [hfirst, Option.toList_some] at harrival
  rw [hs.consumers_eq w]
  cases hprogress : progress key Event.handling w s.trace with
  | unregistered =>
    rw [hprogress] at harrival
    cases harrival
  | answered m' =>
    rw [hprogress] at harrival
    exact .inl harrival.symm
  | waiting k =>
    rw [hprogress, Progress.ahead] at harrival
    cases hfind : s.queue.find? fun m => key m = k with
    | none =>
      rw [hfind] at harrival
      cases harrival
    | some m' =>
      rw [hfind] at harrival
      cases harrival
      have hkey : key m = k := by simpa using List.find?_some hfind
      refine .inr ⟨List.mem_of_find?_eq_some hfind, ?_⟩
      rw [hkey]
      exact (hs.pending_iff k w).mpr hprogress

/-- For a waiter with a message in the queue, a first message arrived. -/
theorem Sound.exists_firstAfter (hs : Sound key fresh s) {w : W} {m : M} (hm : m ∈ s.queue)
    (hpending : s.pending (key m) = some w) :
    ∃ m', firstAfter key Event.arrival w s.trace = some m' := by
  have harrival := hs.firstAfter_arrival_eq w
  rw [(hs.pending_iff _ _).mp hpending, Progress.ahead] at harrival
  cases hfind : s.queue.find? fun m' => key m' = key m with
  | none => exact absurd (List.find?_eq_none.mp hfind m hm) (by simp)
  | some m' =>
    rw [hfind] at harrival
    exact ⟨m', Option.toList_eq_singleton_iff.mp harrival⟩

variable {bound : ℕ}

/-- Steps that hand out distinct keys keep a correlator sound. -/
theorem Sound.step (hs : Sound key fresh s)
    (hfresh : ∀ a < bound, ∀ b < bound, fresh a = fresh b → a = b) {s' : State K W M}
    (hstep : Step key fresh s s') (hcount : s'.count ≤ bound) : Sound key fresh s' := by
  cases hstep with
  | issue => exact hs.issue
  | register w hqueue hw =>
    exact hs.register hqueue hw (hs.fresh_notMem_issued hfresh hcount)
  | arrive m => exact hs.arrive m
  | handle hqueue => exact hs.handle hqueue

/-- **Correlation.** Every state that is reached with distinct keys is sound. -/
theorem Reachable.sound (hs : Reachable key fresh s)
    (hfresh : ∀ a < bound, ∀ b < bound, fresh a = fresh b → a = b) (hcount : s.count ≤ bound) :
    Sound key fresh s := by
  induction hs with
  | refl => exact sound_init key fresh
  | tail _ hstep ih =>
    exact (ih (Nat.le_trans hstep.count_le hcount)).step hfresh hstep hcount

/-- The keys that are handed out are distinct. -/
theorem Sound.nodup_issued (hs : Sound key fresh s)
    (hfresh : ∀ a < bound, ∀ b < bound, fresh a = fresh b → a = b) (hcount : s.count ≤ bound) :
    (issued s.trace).Nodup := by
  rw [hs.issued_eq]
  refine List.Nodup.map_on ?_ List.nodup_range
  intro a ha b hb
  rw [List.mem_range] at ha hb
  exact hfresh a (by omega) b (by omega)

end Steps

end Machine

end Correlator
