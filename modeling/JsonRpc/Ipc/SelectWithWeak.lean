import JsonRpc.Client.Transport
import Mathlib.Data.List.Range

/-!
# Merging the responses and the notifications of an IPC connection

The IPC server writes the responses of a connection and the messages of its subscriptions
in one stream. It takes items from the two sources in turns, and stops with the responses.
A poll looks at a source again after the other one had nothing, so the loop of a poll has
to be shown to end.
-/

namespace JsonRpc.Ipc

/-- A stream that has ended stays at its end. It is given by its answers to the next polls. -/
structure FusedStream (α : Type) where
  answer : ℕ → Poll (Option α)
  fused : ∀ n, answer n = .ready none → answer (n + 1) = .ready none

/-- What a stream answers when it is fused. -/
def fusedAnswer {α : Type} (stream : ℕ → Poll (Option α)) : ℕ → Poll (Option α)
  | 0 => stream 0
  | n + 1 =>
    match fusedAnswer stream n with
    | .ready none => .ready none
    | _ => stream (n + 1)

namespace FusedStream

variable {α : Type}

/-- `StreamExt::fuse`. -/
def fuse (stream : ℕ → Poll (Option α)) : FusedStream α where
  answer := fusedAnswer stream
  fused n hn := by rw [fusedAnswer, hn]

/-- The stream after some polls. -/
def drop (s : FusedStream α) (k : ℕ) : FusedStream α where
  answer n := s.answer (n + k)
  fused n := by rw [Nat.add_right_comm]; exact s.fused (n + k)

/-- The answer to a poll, and the stream after it. -/
def pollNext (s : FusedStream α) : Poll (Option α) × FusedStream α := (s.answer 0, s.drop 1)

/-- The answers to the next polls. -/
def answers (s : FusedStream α) (k : ℕ) : List (Poll (Option α)) := (List.range k).map s.answer

theorem answers_succ (s : FusedStream α) (k : ℕ) :
    s.answers (k + 1) = s.answer 0 :: (s.drop 1).answers k := by
  rw [answers, List.range_succ_eq_map, List.map_cons, List.map_map]
  rfl

theorem answers_add (s : FusedStream α) (k l : ℕ) :
    s.answers (k + l) = s.answers k ++ (s.drop k).answers l := by
  simp [answers, List.range_add, drop, Nat.add_comm]

theorem drop_drop (s : FusedStream α) (k l : ℕ) : (s.drop k).drop l = s.drop (k + l) := by
  simp only [drop, Nat.add_assoc, Nat.add_comm l k]

end FusedStream

/-- One of the two streams. -/
inductive Side where
  | strong
  | weak
  deriving DecidableEq

def Side.other : Side → Side
  | strong => weak
  | weak => strong

theorem Side.eq_or_eq_other (side side' : Side) : side' = side ∨ side' = side.other := by
  cases side <;> cases side' <;> decide

/-- The answers of one of the streams in some polls. -/
def sideAnswers {α : Type} (polls : List (Side × Poll (Option α))) (side : Side) :
    List (Poll (Option α)) :=
  (polls.filter (·.1 = side)).map Prod.snd

/-- The item in the answer of a stream. -/
def takenItem {α : Type} : Side × Poll (Option α) → Option (Side × α)
  | (side, .ready (some item)) => some (side, item)
  | _ => none

/-- `SelectWithWeak`. -/
structure SelectWithWeak (α : Type) where
  strong : FusedStream α
  weak : FusedStream α
  useStrong : Bool

/-- What a poll has done. -/
structure SelectCall (α : Type) where
  select : SelectWithWeak α
  /-- The polls of the two streams, with their answers. -/
  polls : List (Side × Poll (Option α))
  answer : Poll (Option α)

namespace SelectWithWeak

variable {α : Type}

/-- The merge of two streams. -/
def new (stream1 stream2 : ℕ → Poll (Option α)) : SelectWithWeak α :=
  ⟨.fuse stream1, .fuse stream2, false⟩

/-- One iteration of the loop: the poll of a stream, and the value of `checked_strong` for the
next iteration, or the answer. -/
def iteration (this : SelectWithWeak α) (checkedStrong : Bool) :
    SelectWithWeak α × (Side × Poll (Option α)) × (Bool ⊕ Poll (Option α)) :=
  if this.useStrong then
    let (answer, strong) := this.strong.pollNext
    match answer with
    | .ready (some item) =>
      ({ this with strong, useStrong := false }, (.strong, answer), .inr (.ready (some item)))
    | .ready none => ({ this with strong }, (.strong, answer), .inr (.ready none))
    | .pending =>
      if !checkedStrong then
        ({ this with strong, useStrong := false }, (.strong, answer), .inl true)
      else ({ this with strong }, (.strong, answer), .inr .pending)
  else
    let (answer, weak) := this.weak.pollNext
    match answer with
    | .ready (some item) =>
      ({ this with weak, useStrong := true }, (.weak, answer), .inr (.ready (some item)))
    | .ready none | .pending =>
      ({ this with weak, useStrong := true }, (.weak, answer), .inl checkedStrong)

/-- The loop, for a number of iterations. -/
def loop : ℕ → SelectWithWeak α → Bool → Option (SelectCall α)
  | 0, _, _ => none
  | n + 1, this, checkedStrong =>
    match this.iteration checkedStrong with
    | (select, polled, .inl checkedStrong) =>
      (loop n select checkedStrong).map fun call => { call with polls := polled :: call.polls }
    | (select, polled, .inr answer) => some ⟨select, [polled], answer⟩

/-- What an iteration does. -/
inductive Iterates (this : SelectWithWeak α) (checkedStrong : Bool) :
    SelectWithWeak α × (Side × Poll (Option α)) × (Bool ⊕ Poll (Option α)) → Prop
  | strongItem {item : α} (huse : this.useStrong = true)
      (hanswer : this.strong.answer 0 = .ready (some item)) :
      Iterates this checkedStrong ({ this with strong := this.strong.drop 1, useStrong := false },
        (.strong, .ready (some item)), .inr (.ready (some item)))
  | strongEnd (huse : this.useStrong = true) (hanswer : this.strong.answer 0 = .ready none) :
      Iterates this checkedStrong
        ({ this with strong := this.strong.drop 1 }, (.strong, .ready none), .inr (.ready none))
  | strongAgain (huse : this.useStrong = true) (hanswer : this.strong.answer 0 = .pending)
      (hchecked : checkedStrong = false) :
      Iterates this checkedStrong ({ this with strong := this.strong.drop 1, useStrong := false },
        (.strong, .pending), .inl true)
  | strongPending (huse : this.useStrong = true) (hanswer : this.strong.answer 0 = .pending)
      (hchecked : checkedStrong = true) :
      Iterates this checkedStrong
        ({ this with strong := this.strong.drop 1 }, (.strong, .pending), .inr .pending)
  | weakItem {item : α} (huse : this.useStrong = false)
      (hanswer : this.weak.answer 0 = .ready (some item)) :
      Iterates this checkedStrong ({ this with weak := this.weak.drop 1, useStrong := true },
        (.weak, .ready (some item)), .inr (.ready (some item)))
  | weakNothing {answer : Poll (Option α)} (huse : this.useStrong = false)
      (hanswer : this.weak.answer 0 = answer)
      (hnothing : answer = .pending ∨ answer = .ready none) :
      Iterates this checkedStrong ({ this with weak := this.weak.drop 1, useStrong := true },
        (.weak, answer), .inl checkedStrong)

theorem iterates (this : SelectWithWeak α) (checkedStrong : Bool) :
    this.Iterates checkedStrong (this.iteration checkedStrong) := by
  unfold iteration FusedStream.pollNext
  dsimp only
  split
  · rename_i huse
    split
    · rename_i hanswer
      rw [hanswer]
      exact .strongItem huse hanswer
    · rename_i hanswer
      rw [hanswer]
      exact .strongEnd huse hanswer
    · rename_i hanswer
      rw [hanswer]
      cases checkedStrong with
      | false => exact .strongAgain huse hanswer rfl
      | true => exact .strongPending huse hanswer rfl
  · rename_i huse
    have hweak := Bool.eq_false_iff.mpr huse
    split
    · rename_i hanswer
      rw [hanswer]
      exact .weakItem hweak hanswer
    · rename_i hanswer
      exact .weakNothing hweak rfl (.inr hanswer)
    · rename_i hanswer
      exact .weakNothing hweak rfl (.inl hanswer)

/-- A bound for the number of iterations. -/
def iterations (this : SelectWithWeak α) (checkedStrong : Bool) : ℕ :=
  match checkedStrong, this.useStrong with
  | true, true => 1
  | true, false => 2
  | false, true => 3
  | false, false => 4

/-- The loop returns. -/
theorem loop_isSome (this : SelectWithWeak α) (checkedStrong : Bool) {n : ℕ}
    (hn : this.iterations checkedStrong ≤ n) : (loop n this checkedStrong).isSome = true := by
  induction n generalizing this checkedStrong with
  | zero =>
    unfold iterations at hn
    split at hn <;> omega
  | succ n ih =>
    have hiterates := this.iterates checkedStrong
    unfold loop
    generalize this.iteration checkedStrong = outcome at hiterates ⊢
    cases hiterates with
    | strongItem | strongEnd | strongPending | weakItem => rfl
    | strongAgain huse _ hchecked =>
      rw [Option.isSome_map]
      refine ih _ _ ?_
      unfold iterations at hn
      rw [hchecked, huse] at hn
      exact Nat.le_of_succ_le_succ hn
    | weakNothing huse =>
      rw [Option.isSome_map]
      refine ih _ _ ?_
      unfold iterations at hn
      rw [huse] at hn
      cases checkedStrong with
      | false => exact Nat.le_of_succ_le_succ hn
      | true => exact Nat.le_of_succ_le_succ hn

theorem iterations_le (this : SelectWithWeak α) : this.iterations false ≤ 4 := by
  unfold iterations
  split <;> omega

/-- `poll_next`. -/
def pollNext (this : SelectWithWeak α) : SelectCall α :=
  (loop 4 this false).get (this.loop_isSome false this.iterations_le)

/-- The polls of a stream that is merged, one after another. -/
def calls : ℕ → SelectWithWeak α → List (SelectCall α)
  | 0, _ => []
  | n + 1, this => this.pollNext :: calls n this.pollNext.select

def stream (this : SelectWithWeak α) : Side → FusedStream α
  | .strong => this.strong
  | .weak => this.weak

end SelectWithWeak

namespace SelectCall

variable {α : Type}

/-- The answers of one of the streams. -/
def answers (call : SelectCall α) (side : Side) : List (Poll (Option α)) :=
  sideAnswers call.polls side

/-- The items taken from the streams. -/
def taken (call : SelectCall α) : List (Side × α) := call.polls.filterMap takenItem

/-- The item that is yielded. -/
def output (call : SelectCall α) : List α :=
  match call.answer with
  | .ready (some item) => [item]
  | _ => []

end SelectCall

open SelectCall SelectWithWeak

/-- The items of the two streams are merged by some polls. -/
structure Merges {α : Type} (this : SelectWithWeak α) (calls : List (SelectCall α)) : Prop where
  /-- The streams are polled one answer after another. -/
  answers (side : Side) : ∃ k,
    sideAnswers (calls.flatMap (·.polls)) side = (this.stream side).answers k
  /-- A poll yields what it takes, and nothing else. -/
  items : ∀ call ∈ calls, call.taken.map Prod.snd = call.output
  ended : ∀ call ∈ calls, call.answer = .ready none →
    (call.answers .strong).getLast? = some (.ready none)
  pending : ∀ call ∈ calls, call.answer = .pending →
    (call.answers .strong).getLast? = some .pending ∧ call.answers .weak ≠ [] ∧
      ∀ answer ∈ call.answers .weak, answer = .pending ∨ answer = .ready none
  /-- A stream has its turn, unless it has no item. -/
  alternates : calls.IsChain fun call call' => ∀ side item item',
    call.taken = [(side, item)] → call'.taken = [(side, item')] →
      call'.answers side.other ≠ [] ∧
        ∀ answer ∈ call'.answers side.other, answer = .pending ∨ answer = .ready none

/-! ## What a poll does -/

section Polls

variable {α : Type} {this select : SelectWithWeak α} {checkedStrong : Bool} {call : SelectCall α}
  {side : Side} {answer : Poll (Option α)} {polls : List (Side × Poll (Option α))}

@[simp] theorem sideAnswers_cons_self :
    sideAnswers ((side, answer) :: polls) side = answer :: sideAnswers polls side := by
  simp [sideAnswers]

@[simp] theorem sideAnswers_cons_other :
    sideAnswers ((side, answer) :: polls) side.other = sideAnswers polls side.other := by
  cases side <;> simp [sideAnswers, Side.other]

/-- An item that a stream answers is taken. -/
theorem mem_taken_of_mem_answers {item : α} (h : .ready (some item) ∈ call.answers side) :
    (side, item) ∈ call.taken := by
  obtain ⟨⟨side', answer⟩, hfilter, hanswer⟩ := List.mem_map.mp h
  obtain ⟨hmem, hside⟩ := List.mem_filter.mp hfilter
  cases of_decide_eq_true hside
  cases hanswer
  exact List.mem_filterMap.mpr ⟨(side', .ready (some item)), hmem, rfl⟩

/-- An iteration polls one of the streams. -/
structure Advances (this : SelectWithWeak α) (side : Side) (answer : Poll (Option α))
    (select : SelectWithWeak α) : Prop where
  answer : (this.stream side).answer 0 = answer
  polled : select.stream side = (this.stream side).drop 1
  other : select.stream side.other = this.stream side.other

/-- The polls are those of the streams after one another. -/
def Follows (this : SelectWithWeak α) (polls : List (Side × Poll (Option α)))
    (select : SelectWithWeak α) : Prop :=
  ∀ side, ∃ k, sideAnswers polls side = (this.stream side).answers k ∧
    select.stream side = (this.stream side).drop k

theorem Follows.refl (this : SelectWithWeak α) : Follows this [] this :=
  fun _ => ⟨0, rfl, rfl⟩

theorem Advances.follows {select' : SelectWithWeak α} (h : Advances this side answer select)
    (hrest : Follows select polls select') : Follows this ((side, answer) :: polls) select' := by
  intro side'
  rcases Side.eq_or_eq_other side side' with rfl | rfl
  · obtain ⟨k, hanswers, hselect⟩ := hrest side'
    refine ⟨k + 1, ?_, ?_⟩
    · rw [sideAnswers_cons_self, FusedStream.answers_succ, h.answer, hanswers, h.polled]
    · rw [hselect, h.polled, FusedStream.drop_drop, Nat.add_comm]
  · obtain ⟨k, hanswers, hselect⟩ := hrest side.other
    refine ⟨k, ?_, ?_⟩
    · rw [sideAnswers_cons_other, hanswers, h.other]
    · rw [hselect, h.other]

theorem Follows.trans {select' : SelectWithWeak α} {polls' : List (Side × Poll (Option α))}
    (h : Follows this polls select) (h' : Follows select polls' select') :
    Follows this (polls ++ polls') select' := by
  intro side
  obtain ⟨k, hanswers, hselect⟩ := h side
  obtain ⟨l, hanswers', hselect'⟩ := h' side
  refine ⟨k + l, ?_, ?_⟩
  · rw [sideAnswers, List.filter_append, List.map_append, FusedStream.answers_add, ← hanswers,
      ← hselect, ← hanswers']
    rfl
  · rw [hselect', hselect, FusedStream.drop_drop]

/-- What the loop does, from an iteration on. -/
structure Loops (this : SelectWithWeak α) (checkedStrong : Bool) (call : SelectCall α) : Prop where
  follows : Follows this call.polls call.select
  items : call.taken.map Prod.snd = call.output
  ended : call.answer = .ready none → (call.answers .strong).getLast? = some (.ready none)
  pending : call.answer = .pending → (call.answers .strong).getLast? = some .pending ∧
    (checkedStrong = true ∧ this.useStrong = true ∨ call.answers .weak ≠ [])
  strongTurn : ∀ item, call.taken = [(.strong, item)] →
    call.select.useStrong = false ∧ (this.useStrong = false → call.answers .weak ≠ [])
  weakTurn : ∀ item, call.taken = [(.weak, item)] →
    call.select.useStrong = true ∧ (this.useStrong = true → call.answers .strong ≠ [])

theorem loops_of_loop {n : ℕ} (h : loop n this checkedStrong = some call) :
    Loops this checkedStrong call := by
  induction n generalizing this checkedStrong call with
  | zero => cases h
  | succ n ih =>
    have hiterates := this.iterates checkedStrong
    unfold loop at h
    generalize this.iteration checkedStrong = outcome at hiterates h
    cases hiterates with
    | strongItem huse hanswer =>
      cases h
      have hadvances : Advances this .strong _
          { this with strong := this.strong.drop 1, useStrong := false } := ⟨hanswer, rfl, rfl⟩
      refine ⟨hadvances.follows (.refl _), rfl, nofun, nofun, fun item _ => ⟨rfl, fun hweak => ?_⟩,
        fun item htaken => ?_⟩
      · cases huse.symm.trans hweak
      · cases htaken
    | strongEnd huse hanswer =>
      cases h
      have hadvances : Advances this .strong _ { this with strong := this.strong.drop 1 } :=
        ⟨hanswer, rfl, rfl⟩
      exact ⟨hadvances.follows (.refl _), rfl, fun _ => rfl, nofun, nofun, nofun⟩
    | strongPending huse hanswer hchecked =>
      cases h
      have hadvances : Advances this .strong _ { this with strong := this.strong.drop 1 } :=
        ⟨hanswer, rfl, rfl⟩
      exact ⟨hadvances.follows (.refl _), rfl, nofun, fun _ => ⟨rfl, .inl ⟨hchecked, huse⟩⟩, nofun,
        nofun⟩
    | weakItem huse hanswer =>
      cases h
      have hadvances : Advances this .weak _
          { this with weak := this.weak.drop 1, useStrong := true } := ⟨hanswer, rfl, rfl⟩
      refine ⟨hadvances.follows (.refl _), rfl, nofun, nofun, fun item htaken => ?_,
        fun item _ => ⟨rfl, fun hstrong => ?_⟩⟩
      · cases htaken
      · cases huse.symm.trans hstrong
    | strongAgain huse hanswer hchecked =>
      obtain ⟨call, hloop, rfl⟩ := Option.map_eq_some_iff.mp h
      have hrest := ih hloop
      have hadvances : Advances this .strong _
          { this with strong := this.strong.drop 1, useStrong := false } := ⟨hanswer, rfl, rfl⟩
      have hlast {answer : Poll (Option α)} (h : (call.answers .strong).getLast? = some answer) :
          ((Poll.pending : Poll (Option α)) :: call.answers .strong).getLast? = some answer := by
        rw [List.getLast?_cons, h]
        rfl
      refine ⟨hadvances.follows hrest.follows, hrest.items,
        fun hended => hlast (hrest.ended hended),
        fun hpending => ⟨hlast (hrest.pending hpending).1, ?_⟩, fun item htaken => ?_,
        fun item htaken => ?_⟩
      · exact .inr ((hrest.pending hpending).2.resolve_left nofun)
      · refine ⟨(hrest.strongTurn item htaken).1, fun hweak => ?_⟩
        cases huse.symm.trans hweak
      · exact ⟨(hrest.weakTurn item htaken).1, fun _ => nofun⟩
    | weakNothing huse hanswer hnothing =>
      obtain ⟨call, hloop, rfl⟩ := Option.map_eq_some_iff.mp h
      have hrest := ih hloop
      rename_i answer
      have hadvances : Advances this .weak _
          { this with weak := this.weak.drop 1, useStrong := true } := ⟨hanswer, rfl, rfl⟩
      have hnone : takenItem (.weak, answer) = none := by
        rcases hnothing with rfl | rfl <;> rfl
      have htaken : taken { call with polls := (.weak, answer) :: call.polls } = call.taken :=
        List.filterMap_cons_none hnone
      refine ⟨hadvances.follows hrest.follows, ?_, hrest.ended,
        fun hpending => ⟨(hrest.pending hpending).1, .inr nofun⟩, fun item hitem => ?_,
        fun item hitem => ?_⟩
      · rw [htaken]
        exact hrest.items
      · rw [htaken] at hitem
        exact ⟨(hrest.strongTurn item hitem).1, fun _ => nofun⟩
      · rw [htaken] at hitem
        refine ⟨(hrest.weakTurn item hitem).1, fun hstrong => ?_⟩
        cases huse.symm.trans hstrong

theorem loop_eq_pollNext (this : SelectWithWeak α) : loop 4 this false = some this.pollNext :=
  (Option.some_get _).symm

theorem loops_pollNext (this : SelectWithWeak α) : Loops this false this.pollNext :=
  loops_of_loop (loop_eq_pollNext this)

/-- If no item, or an item of the other stream, is taken, a stream has had no item. -/
theorem nothing_of_mem_answers (hmem : answer ∈ call.answers side)
    (htaken : ∀ item, (side, item) ∉ call.taken) : answer = .pending ∨ answer = .ready none := by
  match answer with
  | .pending => exact .inl rfl
  | .ready none => exact .inr rfl
  | .ready (some item) => exact absurd (mem_taken_of_mem_answers hmem) (htaken item)

end Polls

/-! ## Every sequence of polls -/

section Calls

variable {α : Type} (this : SelectWithWeak α)

theorem follows_calls (n : ℕ) :
    ∃ select, Follows this ((calls n this).flatMap (·.polls)) select := by
  induction n generalizing this with
  | zero => exact ⟨this, .refl this⟩
  | succ n ih =>
    obtain ⟨select, hfollows⟩ := ih this.pollNext.select
    exact ⟨select, (loops_pollNext this).follows.trans hfollows⟩

/-- What holds of every poll holds of the polls one after another. -/
theorem forall_mem_calls {P : SelectCall α → Prop} (h : ∀ this : SelectWithWeak α, P this.pollNext)
    (n : ℕ) : ∀ call ∈ calls n this, P call := by
  induction n generalizing this with
  | zero => exact fun call hmem => absurd hmem List.not_mem_nil
  | succ n ih =>
    intro call hmem
    rcases List.mem_cons.mp hmem with rfl | hmem
    · exact h this
    · exact ih this.pollNext.select call hmem

/-- What holds of every poll and the next holds of the polls one after another. -/
theorem isChain_calls {R : SelectCall α → SelectCall α → Prop}
    (h : ∀ this : SelectWithWeak α, R this.pollNext this.pollNext.select.pollNext) (n : ℕ) :
    (calls n this).IsChain R := by
  induction n generalizing this with
  | zero => exact .nil
  | succ n ih =>
    cases n with
    | zero => exact .singleton _
    | succ n => exact .cons_cons (h this) (ih this.pollNext.select)

/-- **Merge.** The loop of a poll returns, and the items of the two streams are merged. -/
theorem merges_calls (stream1 stream2 : ℕ → Poll (Option α)) (n : ℕ) :
    (∀ this : SelectWithWeak α, loop 4 this false = some this.pollNext) ∧
      Merges (new stream1 stream2) (calls n (new stream1 stream2)) := by
  refine ⟨loop_eq_pollNext, fun side => ?_, ?_, ?_, ?_, ?_⟩
  · obtain ⟨select, hfollows⟩ := follows_calls (new stream1 stream2) n
    obtain ⟨k, hanswers, -⟩ := hfollows side
    exact ⟨k, hanswers⟩
  · exact forall_mem_calls _ (fun this => (loops_pollNext this).items) n
  · exact forall_mem_calls _ (fun this => (loops_pollNext this).ended) n
  · refine forall_mem_calls _ (fun this hpending => ?_) n
    obtain ⟨hlast, hweak⟩ := (loops_pollNext this).pending hpending
    have hitems := (loops_pollNext this).items
    rw [output, hpending, List.map_eq_nil_iff] at hitems
    refine ⟨hlast, hweak.resolve_left nofun, fun answer hmem => ?_⟩
    exact nothing_of_mem_answers hmem fun item hitem => by
      rw [hitems] at hitem
      cases hitem
  · refine isChain_calls _ (fun this side item item' htaken htaken' => ?_) n
    have hloops := loops_pollNext this
    have hloops' := loops_pollNext this.pollNext.select
    constructor
    · cases side with
      | strong => exact (hloops'.strongTurn item' htaken').2 (hloops.strongTurn item htaken).1
      | weak => exact (hloops'.weakTurn item' htaken').2 (hloops.weakTurn item htaken).1
    · intro answer hmem
      refine nothing_of_mem_answers hmem fun item'' hitem => ?_
      rw [htaken'] at hitem
      cases side <;> simp [Side.other] at hitem

end Calls

end JsonRpc.Ipc
