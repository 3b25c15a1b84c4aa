import JsonRpc.Client.EndToEnd
import JsonRpc.Client.LocalUse

/-!
# Responses of the local client

The transport of the local client has one place for the request that is handled. The user sends
only when the place is free, so a request stays there until it completes, and requests complete
in the order in which they were accepted. Their responses are queued in this order as long as
the queue is connected. To close the transport disconnects the queue without a look at the
place, and what the request there completes with is lost.
-/

namespace JsonRpc.Local

open SinkContract

/-! ## Completed requests -/

/-- What a poll says about the response of a request. -/
def completes (number : ℕ) : ℕ × Poll (Option String) → Option (Option String)
  | (polled, .ready response) => if polled = number then some response else none
  | (_, .pending) => none

/-- What a request completed with. -/
def completion (polls : List (ℕ × Poll (Option String))) (number : ℕ) : Option (Option String) :=
  polls.findSome? (completes number)

/-- The responses of the requests that completed with one, in the order in which the requests
were accepted. -/
def LocalRpc.responses {F : Type} (rpc : LocalRpc F) : List String :=
  (List.range rpc.accepted.length).filterMap fun number => (completion rpc.polls number).join

section Completion

variable {polls : List (ℕ × Poll (Option String))} {number : ℕ}

theorem completion_concat (poll : ℕ × Poll (Option String)) :
    completion (polls ++ [poll]) number =
      (completion polls number).or (completes number poll) := by
  simp [completion, List.findSome?_append]

theorem completion_concat_pending (polled : ℕ) :
    completion (polls ++ [(polled, .pending)]) number = completion polls number := by
  rw [completion_concat, completes, Option.or_none]

theorem completion_concat_of_ne {polled : ℕ} (hne : polled ≠ number)
    (answer : Poll (Option String)) :
    completion (polls ++ [(polled, answer)]) number = completion polls number := by
  have hcompletes : completes number (polled, answer) = none := by
    cases answer with
    | pending => rfl
    | ready response => exact if_neg hne
  rw [completion_concat, hcompletes, Option.or_none]

theorem completion_concat_ready (h : completion polls number = none)
    (response : Option String) :
    completion (polls ++ [(number, .ready response)]) number = some response := by
  rw [completion_concat, h, Option.none_or]
  exact if_pos rfl

/-- A request has not completed if all its polls were pending. -/
theorem completion_eq_none_iff :
    completion polls number = none ↔ ∀ poll ∈ polls, poll.1 = number → poll.2 = .pending := by
  rw [completion, List.findSome?_eq_none_iff]
  refine forall_congr' fun poll => imp_congr_right fun _ => ?_
  obtain ⟨polled, answer⟩ := poll
  cases answer with
  | pending => simp [completes]
  | ready response => simp [completes]

end Completion

/-! ## What a poll does -/

namespace UnboundedQueue

/-- The queue after a response, if there is one. -/
def offer (q : UnboundedQueue) : Option String → UnboundedQueue
  | some item => (q.startSend item).1
  | none => q

theorem connected_offer (q : UnboundedQueue) (response : Option String) :
    (q.offer response).connected = q.connected := by
  cases response with
  | none => rfl
  | some item =>
    rw [offer, startSend]
    split <;> rfl

theorem items_offer (q : UnboundedQueue) (response : Option String) :
    (q.offer response).items = q.items ++ if q.connected then response.toList else [] := by
  cases response with
  | none => simp [offer]
  | some item =>
    rw [offer, startSend]
    split <;> simp

/-- What is read from the queue is no longer in it. -/
theorem items_pollNext (q : UnboundedQueue) :
    taken q.pollNext.2 ++ q.pollNext.1.items = q.items := by
  obtain ⟨items, connected⟩ := q
  cases items with
  | nil => cases connected <;> rfl
  | cons item items => rfl

theorem connected_pollNext (q : UnboundedQueue) : q.pollNext.1.connected = q.connected := by
  unfold pollNext
  split <;> rfl

end UnboundedQueue

namespace LocalRpc

variable {F A : Type} {H : RequestFutures F A} {a : A} {rpc rpc' : LocalRpc F}

/-- What the request that is handled completes with when it is polled. -/
def completed (H : RequestFutures F A) (a : A) (rpc : LocalRpc F) : Option (Option String) :=
  match rpc.buffered with
  | .request _ future =>
    match H.answer future a with
    | .ready response => some response
    | .pending => none
  | _ => none

/-- A poll leaves the transport as it is, or finds the request pending, or completes it and
offers its response to the queue. -/
inductive Progress (H : RequestFutures F A) (a : A) (rpc : LocalRpc F) :
    Option (Option String) → LocalRpc F → Prop where
  | rests (hbuffered : rpc.buffered = .none) : Progress H a rpc none rpc
  | waits {number : ℕ} {future : F} (hbuffered : rpc.buffered = .request number future)
      (hanswer : H.answer future a = .pending) :
      Progress H a rpc none { rpc with
        buffered := .request number (H.next future a)
        polls := rpc.polls ++ [(number, .pending)] }
  | completes {number : ℕ} {future : F} {response : Option String}
      (hbuffered : rpc.buffered = .request number future)
      (hanswer : H.answer future a = .ready response) :
      Progress H a rpc (some response) { rpc with
        buffered := .none
        queue := rpc.queue.offer response
        polls := rpc.polls ++ [(number, .ready response)] }

theorem progress_pollBuffered (hresponse : ∀ text, rpc.buffered ≠ .response text) (a : A) :
    rpc.Progress H a (rpc.completed H a) (rpc.pollBuffered H a).1 := by
  unfold completed pollBuffered
  cases hbuffered : rpc.buffered with
  | response text => exact absurd hbuffered (hresponse text)
  | none =>
    have hsend : rpc.sendResponse.1 = rpc := by
      rw [sendResponse, hbuffered]
      obtain ⟨buffered, queue, accepted, polls⟩ := rpc
      cases hbuffered
      rfl
    dsimp only
    rw [hsend]
    exact .rests hbuffered
  | request number future =>
    have hpoll : H.poll a future = (H.next future a, H.answer future a) := rfl
    simp only [hpoll]
    cases hanswer : H.answer future a with
    | pending => exact .waits hbuffered hanswer
    | ready response =>
      cases response with
      | none => exact .completes hbuffered hanswer
      | some text => exact .completes hbuffered hanswer

/-- The place is free after a poll that is not pending. -/
theorem buffered_pollBuffered {result : Except SendError Unit}
    (h : (rpc.pollBuffered H a).2 = .ready result) :
    (rpc.pollBuffered H a).1.buffered = .none := by
  have hsend : ∀ rpc : LocalRpc F, rpc.sendResponse.1.buffered = .none := by
    intro rpc
    rw [sendResponse]
    split <;> rfl
  unfold pollBuffered at h ⊢
  split
  · rename_i number future hbuffered
    rw [hbuffered] at h
    dsimp only at h ⊢
    split
    · rename_i hanswer
      rw [hanswer] at h
      cases h
    · exact hsend _
    · exact hsend _
  · exact hsend _

theorem pollBufferedThen_fst (a : A) (poll : UnboundedQueue → Poll (Except SendError Unit))
    (rpc : LocalRpc F) : (rpc.pollBufferedThen H a poll).1 = (rpc.pollBuffered H a).1 := by
  unfold pollBufferedThen
  split
  · rename_i hpoll
    rw [hpoll]
  · rename_i hpoll
    rw [hpoll]

/-- The place is free when the transport is ready. -/
theorem buffered_pollReady (h : (rpc.pollReady H a).2 = .ready (.ok ())) :
    (rpc.pollReady H a).1.buffered = .none := by
  unfold pollReady at h ⊢
  rw [pollBufferedThen_fst]
  unfold pollBufferedThen at h
  split at h
  · rename_i hpoll
    exact buffered_pollBuffered (congrArg Prod.snd hpoll)
  · rename_i hpoll
    cases h
    exact buffered_pollBuffered (congrArg Prod.snd hpoll)

theorem progress_pollReady (hresponse : ∀ text, rpc.buffered ≠ .response text) (a : A) :
    rpc.Progress H a (rpc.completed H a) (rpc.pollReady H a).1 := by
  rw [pollReady, pollBufferedThen_fst]
  exact progress_pollBuffered hresponse a

theorem progress_pollFlush (hresponse : ∀ text, rpc.buffered ≠ .response text) (a : A) :
    rpc.Progress H a (rpc.completed H a) (rpc.pollFlush H a).1 := by
  rw [pollFlush, pollBufferedThen_fst]
  exact progress_pollBuffered hresponse a

/-- A free place stays free. -/
theorem Progress.buffered_eq_none {response : Option (Option String)}
    (h : rpc.Progress H a response rpc') (hfree : rpc.buffered = .none) :
    rpc'.buffered = .none := by
  cases h with
  | rests => exact hfree
  | waits hbuffered =>
    rw [hfree] at hbuffered
    cases hbuffered
  | completes => rfl

/-! ## The request that is handled -/

/-- What holds of the transport in every run. The request that is handled is the last one that
was accepted. -/
structure Inv (rpc : LocalRpc F) : Prop where
  settled : ∀ text, rpc.buffered ≠ .response text
  last : ∀ number future, rpc.buffered = .request number future →
    number + 1 = rpc.accepted.length ∧ completion rpc.polls number = none
  number_lt : ∀ poll ∈ rpc.polls, poll.1 < rpc.accepted.length
  once : rpc.polls.Pairwise fun earlier later => earlier.1 = later.1 → earlier.2 = .pending
  kept : ∀ number < rpc.accepted.length,
    (completion rpc.polls number).isSome ∨ ∃ future, rpc.buffered = .request number future

theorem inv_new : (new : LocalRpc F).Inv where
  settled _ h := by cases h
  last _ _ h := by cases h
  number_lt := List.forall_mem_nil _
  once := .nil
  kept _ h := by cases h

/-- Another poll of the request that is handled. -/
theorem Inv.once_concat (hinv : rpc.Inv) {number : ℕ} {future : F}
    (hbuffered : rpc.buffered = .request number future) (answer : Poll (Option String)) :
    (rpc.polls ++ [(number, answer)]).Pairwise
      fun earlier later => earlier.1 = later.1 → earlier.2 = .pending := by
  have hpending := completion_eq_none_iff.mp (hinv.last number future hbuffered).2
  rw [List.pairwise_append]
  refine ⟨hinv.once, List.pairwise_singleton _ _, fun earlier hearlier later hlater => ?_⟩
  rw [List.mem_singleton.mp hlater]
  exact hpending earlier hearlier

theorem Inv.number_lt_concat (hinv : rpc.Inv) {number : ℕ} {future : F}
    (hbuffered : rpc.buffered = .request number future) (answer : Poll (Option String)) :
    ∀ poll ∈ rpc.polls ++ [(number, answer)], poll.1 < rpc.accepted.length := by
  have hlast := (hinv.last number future hbuffered).1
  intro poll hpoll
  rcases List.mem_append.mp hpoll with hpoll | hpoll
  · exact hinv.number_lt poll hpoll
  · rw [List.mem_singleton.mp hpoll]
    omega

theorem Inv.progress (hinv : rpc.Inv) {response : Option (Option String)}
    (h : rpc.Progress H a response rpc') : rpc'.Inv := by
  cases h with
  | rests => exact hinv
  | @waits number future hbuffered _ =>
    obtain ⟨hlast, hnone⟩ := hinv.last number future hbuffered
    refine ⟨(fun _ h => by cases h), fun number' future'' h => ?_,
      hinv.number_lt_concat hbuffered _, hinv.once_concat hbuffered _, fun number' hlt => ?_⟩
    · cases h
      rw [completion_concat_pending]
      exact ⟨hlast, hnone⟩
    · rw [completion_concat_pending]
      rcases hinv.kept number' hlt with hsome | ⟨future'', hbuffered'⟩
      · exact .inl hsome
      · rw [hbuffered] at hbuffered'
        cases hbuffered'
        exact .inr ⟨_, rfl⟩
  | @completes number future response hbuffered _ =>
    have hnone := (hinv.last number future hbuffered).2
    refine ⟨(fun _ h => by cases h), (fun _ _ h => by cases h),
      hinv.number_lt_concat hbuffered _, hinv.once_concat hbuffered _, fun number' hlt => ?_⟩
    left
    by_cases hnumber : number = number'
    · subst hnumber
      rw [completion_concat_ready hnone]
      rfl
    · rw [completion_concat_of_ne hnumber]
      rcases hinv.kept number' hlt with hsome | ⟨future', hbuffered'⟩
      · exact hsome
      · rw [hbuffered] at hbuffered'
        cases hbuffered'
        exact absurd rfl hnumber

/-- A request that is not accepted yet has not completed. -/
theorem Inv.completion_length (hinv : rpc.Inv) :
    completion rpc.polls rpc.accepted.length = none := by
  rw [completion_eq_none_iff]
  intro poll hpoll hnumber
  have hlt := hinv.number_lt poll hpoll
  omega

theorem length_accepted_startSend (rpc : LocalRpc F) (item : String) :
    (rpc.startSend H item).accepted.length = rpc.accepted.length + 1 :=
  List.length_append

/-- A request is accepted when the place is free. -/
theorem Inv.startSend (hinv : rpc.Inv) (hfree : rpc.buffered = .none) (item : String) :
    (rpc.startSend H item).Inv := by
  have hlength := length_accepted_startSend (H := H) rpc item
  refine ⟨(fun _ h => by cases h), fun number future h => ?_, fun poll hpoll => ?_, hinv.once,
    fun number hlt => ?_⟩
  · cases h
    exact ⟨hlength.symm, hinv.completion_length⟩
  · have hlt := hinv.number_lt poll hpoll
    omega
  · by_cases hnumber : number = rpc.accepted.length
    · subst hnumber
      exact .inr ⟨_, rfl⟩
    · rcases hinv.kept number (by omega) with hsome | ⟨future, hbuffered⟩
      · exact .inl hsome
      · rw [hfree] at hbuffered
        cases hbuffered

/-- The queue plays no part. -/
theorem Inv.of_queue (hinv : rpc.Inv) (queue : UnboundedQueue) : { rpc with queue }.Inv :=
  ⟨hinv.settled, hinv.last, hinv.number_lt, hinv.once, hinv.kept⟩

/-! ## Polls of a request -/

/-- What a request answered to its polls. -/
def answers (rpc : LocalRpc F) (number : ℕ) : List (Poll (Option String)) :=
  (rpc.polls.filter fun poll => poll.1 = number).map Prod.snd

/-- The polls of a request are polls of its own future. -/
def PollsOwn (H : RequestFutures F A) (rpc : LocalRpc F) : Prop :=
  ∀ number item, rpc.accepted[number]? = some item →
    ∃ as, rpc.answers number = Runs.outputs H.next H.answer (H.handleRequest item) as ∧
      ∀ future, rpc.buffered = .request number future →
        future = Runs.run H.next (H.handleRequest item) as

theorem pollsOwn_new : (new : LocalRpc F).PollsOwn H := by
  intro number item hitem
  cases hitem

theorem answers_concat_self {number : ℕ} {answer : Poll (Option String)}
    (hpolls : rpc'.polls = rpc.polls ++ [(number, answer)]) :
    rpc'.answers number = rpc.answers number ++ [answer] := by
  simp [answers, hpolls, List.filter_append]

theorem answers_concat_of_ne {number number' : ℕ} (hne : number ≠ number')
    {answer : Poll (Option String)} (hpolls : rpc'.polls = rpc.polls ++ [(number, answer)]) :
    rpc'.answers number' = rpc.answers number' := by
  simp [answers, hpolls, List.filter_append, hne]

/-- A poll of the request that is handled is a poll of its own future. -/
theorem PollsOwn.concat (hown : rpc.PollsOwn H) (a : A) {number : ℕ} {future : F}
    (hbuffered : rpc.buffered = .request number future)
    (haccepted : rpc'.accepted = rpc.accepted)
    (hpolls : rpc'.polls = rpc.polls ++ [(number, H.answer future a)])
    (hbuffered' : ∀ number' future', rpc'.buffered = .request number' future' →
      number' = number ∧ future' = H.next future a) : rpc'.PollsOwn H := by
  intro number' item hitem
  rw [haccepted] at hitem
  obtain ⟨as, hanswers, hfuture⟩ := hown number' item hitem
  by_cases hnumber : number = number'
  · subst hnumber
    have hrun := hfuture future hbuffered
    -- The future is where its own polls brought it, so this poll is the next of them.
    refine ⟨as ++ [a], ?_, fun future' h => ?_⟩
    · rw [answers_concat_self hpolls, hanswers, Runs.outputs_concat, hrun]
    · rw [(hbuffered' _ _ h).2, Runs.run_concat, hrun]
  · refine ⟨as, ?_, fun future' h => ?_⟩
    · rw [answers_concat_of_ne hnumber hpolls, hanswers]
    · exact absurd (hbuffered' _ _ h).1.symm hnumber

theorem PollsOwn.progress (hown : rpc.PollsOwn H) {response : Option (Option String)}
    (h : rpc.Progress H a response rpc') : rpc'.PollsOwn H := by
  cases h with
  | rests => exact hown
  | waits hbuffered hanswer =>
    refine hown.concat a hbuffered rfl ?_ fun number' future' h => ?_
    · rw [hanswer]
    · cases h
      exact ⟨rfl, rfl⟩
  | completes hbuffered hanswer =>
    refine hown.concat a hbuffered rfl ?_ fun number' future' h => ?_
    · rw [hanswer]
    · cases h

/-- A request that is not accepted yet was not polled. -/
theorem Inv.answers_length (hinv : rpc.Inv) : rpc.answers rpc.accepted.length = [] := by
  rw [answers, List.map_eq_nil_iff, List.filter_eq_nil_iff]
  intro poll hpoll hnumber
  have hlt := hinv.number_lt poll hpoll
  rw [decide_eq_true_eq] at hnumber
  omega

theorem PollsOwn.startSend (hown : rpc.PollsOwn H) (hinv : rpc.Inv) (item : String) :
    (rpc.startSend H item).PollsOwn H := by
  intro number item' hitem'
  have haccepted : (rpc.accepted ++ [item])[number]? = some item' := hitem'
  by_cases hnumber : number = rpc.accepted.length
  · subst hnumber
    rw [List.getElem?_concat_length] at haccepted
    cases haccepted
    refine ⟨[], ?_, fun future h => ?_⟩
    · exact hinv.answers_length
    · cases h
      rfl
  · have hlt : number < (rpc.accepted ++ [item]).length :=
      (List.getElem?_eq_some_iff.mp haccepted).1
    rw [List.length_append, List.length_singleton] at hlt
    rw [List.getElem?_append_left (by omega)] at haccepted
    obtain ⟨as, hanswers, -⟩ := hown number item' haccepted
    refine ⟨as, hanswers, fun future h => ?_⟩
    cases h
    exact absurd rfl hnumber

/-! ## Responses -/

theorem responses_startSend (hinv : rpc.Inv) (item : String) :
    (rpc.startSend H item).responses = rpc.responses := by
  have hlength := length_accepted_startSend (H := H) rpc item
  have hnone : (completion rpc.polls rpc.accepted.length).join = none := by
    rw [hinv.completion_length]
    rfl
  rw [responses, hlength, List.range_succ, List.filterMap_append]
  simp [LocalRpc.startSend, responses, hnone]

/-- A request that completes adds its response. -/
theorem Inv.responses_progress (hinv : rpc.Inv) {response : Option (Option String)}
    (h : rpc.Progress H a response rpc') :
    rpc'.responses = rpc.responses ++ response.join.toList := by
  cases h with
  | rests => exact (List.append_nil _).symm
  | waits =>
    simp only [responses, completion_concat_pending]
    exact (List.append_nil _).symm
  | @completes number future response hbuffered _ =>
    obtain ⟨hlast, hnone⟩ := hinv.last number future hbuffered
    -- The request is the last one that was accepted, so its response comes last.
    have hearlier : ∀ number' ∈ List.range number,
        (completion (rpc.polls ++ [(number, .ready response)]) number').join =
          (completion rpc.polls number').join := by
      intro number' hnumber'
      have hlt := List.mem_range.mp hnumber'
      rw [completion_concat_of_ne (by omega)]
    simp only [responses, ← hlast, List.range_succ, List.filterMap_append]
    rw [List.filterMap_congr hearlier]
    simp only [List.filterMap_cons, List.filterMap_nil, hnone, completion_concat_ready hnone]
    cases response <;> simp

theorem Progress.items {response : Option (Option String)} (h : rpc.Progress H a response rpc') :
    rpc'.queue.items =
      rpc.queue.items ++ if rpc.queue.connected then response.join.toList else [] := by
  cases h with
  | rests => simp
  | waits => simp
  | completes => exact rpc.queue.items_offer _

theorem Progress.connected {response : Option (Option String)}
    (h : rpc.Progress H a response rpc') : rpc'.queue.connected = rpc.queue.connected := by
  cases h with
  | rests => rfl
  | waits => rfl
  | completes => exact rpc.queue.connected_offer _

end LocalRpc

/-! ## Operations -/

namespace LocalUse

variable {F A : Type} {H : RequestFutures F A} {u u' : LocalUse F} {l : LocalUseLabel A}

/-- The response that a request completes with in an operation. -/
def completed (H : RequestFutures F A) (u : LocalUse F) : LocalUseLabel A → Option String
  | .pollReady a | .pollFlush a => (u.rpc.completed H a).join
  | _ => none

/-- What an operation can do. -/
inductive Operates (H : RequestFutures F A) (u : LocalUse F) :
    LocalUseLabel A → LocalUse F → Prop where
  /-- The user does not send before the transport is ready. -/
  | waits {item : String} (hready : ¬ isReady u.calls = true) : Operates H u (.startSend item) u
  | accepts {item : String} (hready : isReady u.calls = true) :
      Operates H u (.startSend item)
        { u with rpc := u.rpc.startSend H item, calls := u.calls ++ [.send item] }
  /-- The request that is handled is polled. The place is free if the transport answers that
  it is ready. -/
  | polls {l : LocalUseLabel A} {a : A} {rpc : LocalRpc F} {call : SinkCall String}
      (hl : l = .pollReady a ∨ l = .pollFlush a)
      (hprogress : u.rpc.Progress H a (u.rpc.completed H a) rpc)
      (hcall : call = .other ∨ call = .ready false ∨ call = .ready true ∧ rpc.buffered = .none) :
      Operates H u l { u with rpc, calls := u.calls ++ [call] }
  | closes : Operates H u .pollClose
      { u with rpc := u.rpc.pollClose.1, calls := u.calls ++ [.other] }
  | reads : Operates H u .pollNext
      { u with rpc := u.rpc.pollNext.1, taken := u.taken ++ Local.taken u.rpc.pollNext.2 }

theorem operates_step (hsettled : ∀ text, u.rpc.buffered ≠ .response text)
    (l : LocalUseLabel A) : u.Operates H l (u.step H l) := by
  cases l with
  | startSend item =>
    rw [step]
    by_cases hready : isReady u.calls = true
    · rw [if_pos hready]
      exact .accepts hready
    · rw [if_neg hready]
      exact .waits hready
  | pollReady a =>
    refine .polls (.inl rfl) (LocalRpc.progress_pollReady hsettled a) (.inr ?_)
    by_cases hanswer : (u.rpc.pollReady H a).2 = .ready (.ok ())
    · exact .inr ⟨congrArg SinkCall.ready (beq_iff_eq.mpr hanswer),
        LocalRpc.buffered_pollReady hanswer⟩
    · exact .inl (congrArg SinkCall.ready (beq_eq_false_iff_ne.mpr hanswer))
  | pollFlush a =>
    exact .polls (.inr rfl) (LocalRpc.progress_pollFlush hsettled a) (.inl rfl)
  | pollClose => exact .closes
  | pollNext => exact .reads

theorem isReady_pollReady {a : A} (h : (u.rpc.pollReady H a).2 = .ready (.ok ())) :
    isReady (u.step H (.pollReady a)).calls = true := by
  rw [step, isReady_concat, h]
  rfl

theorem rpc_startSend (hready : isReady u.calls = true) (item : String) :
    (u.step H (.startSend item)).rpc = u.rpc.startSend H item := by
  rw [step, if_pos hready]

theorem taken_startSend (u : LocalUse F) (item : String) :
    (u.step H (.startSend item)).taken = u.taken := by
  rw [step]
  split <;> rfl

theorem completed_of_polls {a : A} (hl : l = .pollReady a ∨ l = .pollFlush a) :
    u.completed H l = (u.rpc.completed H a).join := by
  rcases hl with rfl | rfl <;> rfl

/-- The place stays free as long as the user may send. -/
theorem Operates.ready (h : u.Operates H l u')
    (hready : isReady u.calls = true → u.rpc.buffered = .none) :
    isReady u'.calls = true → u'.rpc.buffered = .none := by
  cases h with
  | waits => exact hready
  | accepts =>
    rw [isReady_concat]
    intro h
    cases h
  | polls hl hprogress hcall =>
    rw [isReady_concat]
    intro h
    rcases hcall with rfl | rfl | ⟨-, hfree⟩
    · exact hprogress.buffered_eq_none (hready h)
    · exact hprogress.buffered_eq_none (hready h)
    · exact hfree
  | closes =>
    rw [isReady_concat]
    exact hready
  | reads => exact hready

/-- A request that completes adds its response. -/
theorem Operates.responses (h : u.Operates H l u') (hinv : u.rpc.Inv) :
    u'.rpc.responses = u.rpc.responses ++ (u.completed H l).toList := by
  have hsame : u.rpc.responses = u.rpc.responses ++ [] := (List.append_nil _).symm
  cases h with
  | waits => exact hsame
  | accepts => exact (LocalRpc.responses_startSend hinv _).trans hsame
  | polls hl hprogress =>
    rw [completed_of_polls hl]
    exact hinv.responses_progress hprogress
  | closes => exact hsame
  | reads => exact hsame

/-- The response is queued if the queue is connected. -/
theorem Operates.outputs (h : u.Operates H l u') :
    u'.outputs =
      u.outputs ++ if u.rpc.queue.connected then (u.completed H l).toList else [] := by
  have hsame : u.outputs = u.outputs ++ if u.rpc.queue.connected then [] else [] := by
    rw [ite_self, List.append_nil]
  cases h with
  | waits => exact hsame
  | accepts => exact hsame
  | polls hl hprogress =>
    rw [completed_of_polls hl, LocalUse.outputs, hprogress.items, ← List.append_assoc]
    rfl
  | closes => exact hsame
  | reads =>
    refine Eq.trans ?_ hsame
    change u.taken ++ Local.taken u.rpc.queue.pollNext.2 ++ u.rpc.queue.pollNext.1.items = _
    rw [List.append_assoc, UnboundedQueue.items_pollNext]
    rfl

/-- Only to close the transport disconnects the queue. -/
theorem Operates.connected (h : u.Operates H l u') :
    u'.rpc.queue.connected = false ↔ u.rpc.queue.connected = false ∨ l = .pollClose := by
  cases h with
  | waits => simp
  | accepts => simp [LocalRpc.startSend]
  | polls hl hprogress =>
    have hne : l ≠ .pollClose := by
      rcases hl with rfl | rfl <;> simp
    simp [hprogress.connected, hne]
  | closes => simp [LocalRpc.pollClose, UnboundedQueue.pollClose]
  | reads => simp [LocalRpc.pollNext, UnboundedQueue.connected_pollNext]

theorem Operates.respects (h : u.Operates H l u') (hcalls : Respects u.calls) :
    Respects u'.calls := by
  cases h with
  | waits => exact hcalls
  | accepts hready => exact (respects_concat _ _).mpr ⟨hcalls, fun _ _ => hready⟩
  | polls hl hprogress hcall =>
    refine (respects_concat _ _).mpr ⟨hcalls, fun item h => ?_⟩
    rcases hcall with rfl | rfl | ⟨rfl, -⟩ <;> cases h
  | closes =>
    refine (respects_concat _ _).mpr ⟨hcalls, fun item h => ?_⟩
    cases h
  | reads => exact hcalls

/-- What an operation queues is what completes in it, or nothing. -/
theorem queued_sublist (connected : Bool) (response : Option String) :
    (if connected then response.toList else []).Sublist response.toList := by
  split
  · exact List.Sublist.refl _
  · exact List.nil_sublist _

/-! ## Whole runs -/

theorem after_concat (ls : List (LocalUseLabel A)) (l : LocalUseLabel A) :
    after H (ls ++ [l]) = (after H ls).step H l :=
  Runs.run_concat _ _ _

/-- What holds in every run. -/
structure Inv (H : RequestFutures F A) (u : LocalUse F) : Prop where
  rpc : u.rpc.Inv
  own : u.rpc.PollsOwn H
  /-- The place is free when the user may send. -/
  ready : isReady u.calls = true → u.rpc.buffered = .none
  /-- The user respects the contract. -/
  respects : Respects u.calls
  /-- What is read or queued are responses, in the order of the requests. -/
  inOrder : u.outputs.Sublist u.rpc.responses

theorem inv_init : (init : LocalUse F).Inv H where
  rpc := LocalRpc.inv_new
  own := LocalRpc.pollsOwn_new
  ready h := by cases h
  respects := (respects_iff []).mpr trivial
  inOrder := List.Sublist.slnil

theorem Inv.rpc_operates (hinv : u.Inv H) (h : u.Operates H l u') :
    u'.rpc.Inv ∧ u'.rpc.PollsOwn H := by
  cases h with
  | waits => exact ⟨hinv.rpc, hinv.own⟩
  | accepts hready =>
    exact ⟨hinv.rpc.startSend (hinv.ready hready) _, hinv.own.startSend hinv.rpc _⟩
  | polls _ hprogress => exact ⟨hinv.rpc.progress hprogress, hinv.own.progress hprogress⟩
  | closes => exact ⟨hinv.rpc.of_queue _, hinv.own⟩
  | reads => exact ⟨hinv.rpc.of_queue _, hinv.own⟩

theorem Inv.operates (hinv : u.Inv H) (h : u.Operates H l u') : u'.Inv H where
  rpc := (hinv.rpc_operates h).1
  own := (hinv.rpc_operates h).2
  ready := h.ready hinv.ready
  respects := h.respects hinv.respects
  inOrder := by
    rw [h.outputs, h.responses hinv.rpc]
    exact hinv.inOrder.append (queued_sublist _ _)

theorem Inv.operates_step (hinv : u.Inv H) (l : LocalUseLabel A) : u.Operates H l (u.step H l) :=
  LocalUse.operates_step hinv.rpc.settled l

theorem Inv.step (hinv : u.Inv H) (l : LocalUseLabel A) : (u.step H l).Inv H :=
  hinv.operates (hinv.operates_step l)

theorem inv_after (H : RequestFutures F A) (ls : List (LocalUseLabel A)) : (after H ls).Inv H :=
  Runs.run_invariant inv_init (fun _ l hinv => hinv.step l) ls

theorem connected_after (H : RequestFutures F A) (ls : List (LocalUseLabel A)) :
    (after H ls).rpc.queue.connected = false ↔ .pollClose ∈ ls := by
  induction ls using List.reverseRecOn with
  | nil => simp [after, Runs.run, init, LocalRpc.new, UnboundedQueue.unbounded]
  | append_singleton ls l ih =>
    have hoperates := (inv_after H ls).operates_step l
    rw [after_concat, hoperates.connected, ih, List.mem_append, List.mem_singleton,
      @eq_comm _ l]

/-- A request completes with a response after the transport was closed. -/
def Loses (H : RequestFutures F A) (u : LocalUse F) (l : LocalUseLabel A) : Prop :=
  u.rpc.queue.connected = false ∧ u.completed H l ≠ none

theorem append_eq_append_iff_of_sublist {α : Type} {s s' t t' : List α} (hs : s.Sublist s')
    (ht : t.Sublist t') : s ++ t = s' ++ t' ↔ s = s' ∧ t = t' := by
  constructor
  · intro h
    have hlength := congrArg List.length h
    have hslength := hs.length_le
    have htlength := ht.length_le
    rw [List.length_append, List.length_append] at hlength
    exact List.append_inj h (by omega)
  · rintro ⟨rfl, rfl⟩
    rfl

/-- A response is missing after an operation if the operation lost it, or it was missing
before. -/
theorem Inv.outputs_ne_step (hinv : u.Inv H) (l : LocalUseLabel A) :
    (u.step H l).outputs ≠ (u.step H l).rpc.responses ↔
      u.outputs ≠ u.rpc.responses ∨ u.Loses H l := by
  have hoperates := hinv.operates_step l
  rw [hoperates.outputs, hoperates.responses hinv.rpc, ne_eq,
    append_eq_append_iff_of_sublist hinv.inOrder (queued_sublist _ _), not_and_or]
  refine or_congr_right ?_
  rw [Loses]
  cases u.rpc.queue.connected with
  | true => simp
  | false => cases u.completed H l <;> simp

/-- A response is missing after a run if and only if the run lost it. -/
theorem occurs_loses_iff (H : RequestFutures F A) (ls : List (LocalUseLabel A)) :
    Runs.Occurs (step H) init (Loses H) ls ↔
      (after H ls).outputs ≠ (after H ls).rpc.responses := by
  apply Runs.occurs_iff_of_invariant (I := Inv H)
    (Q := fun u : LocalUse F => u.outputs ≠ u.rpc.responses)
  · exact inv_init
  · exact fun _ l hinv => hinv.step l
  · exact fun h => h rfl
  · exact fun _ l hinv => hinv.outputs_ne_step l

/-- No response is missing if and only if none completes after the transport was closed. -/
theorem outputs_after_iff {ls : List (LocalUseLabel A)} :
    (after H ls).outputs = (after H ls).rpc.responses ↔
      ∀ before l rest, ls = before ++ l :: rest → .pollClose ∈ before →
        (after H before).completed H l = none := by
  rw [← not_ne_iff, ← occurs_loses_iff]
  constructor
  · intro hnot before l rest hls hclose
    by_contra hcompleted
    exact hnot ⟨before, l, rest, hls, (connected_after H before).mpr hclose, hcompleted⟩
  · rintro hnone ⟨before, l, rest, hls, hconnected, hcompleted⟩
    exact hcompleted (hnone before l rest hls ((connected_after H before).mp hconnected))

/-- A transport that is not closed loses nothing. -/
theorem outputs_after_of_not_mem (H : RequestFutures F A) {ls : List (LocalUseLabel A)}
    (hls : .pollClose ∉ ls) : (after H ls).outputs = (after H ls).rpc.responses := by
  rw [outputs_after_iff]
  rintro before l rest rfl hclose
  exact absurd (List.mem_append_left _ hclose) hls

/-- Every request is answered at most once, and in order. -/
structure Answers (H : RequestFutures F A) (u : LocalUse F) : Prop where
  /-- The polls of a request are polls of the future that the handler returned for it. -/
  own : ∀ number item, u.rpc.accepted[number]? = some item →
    ∃ as, u.rpc.answers number = Runs.outputs H.next H.answer (H.handleRequest item) as
  /-- A request that is polled again was pending. -/
  once : u.rpc.polls.Pairwise fun earlier later => earlier.1 = later.1 → earlier.2 = .pending
  /-- A request that did not complete is in its place. -/
  kept : ∀ number < u.rpc.accepted.length,
    (completion u.rpc.polls number).isSome ∨ ∃ future, u.rpc.buffered = .request number future
  /-- What is read or queued are responses, in the order of the requests. -/
  inOrder : u.outputs.Sublist u.rpc.responses

/-- **Responses in order.** In every run each accepted request is polled until it completes and
not after that, and it is not discarded before. What is read followed by what is queued are the
responses of the requests in the order in which they were accepted, if and only if no request
completes with a response after the transport was closed. -/
theorem outputs_eq_responses_iff (H : RequestFutures F A) (ls : List (LocalUseLabel A)) :
    (after H ls).Answers H ∧
      ((after H ls).outputs = (after H ls).rpc.responses ↔
        ∀ before l rest, ls = before ++ l :: rest → .pollClose ∈ before →
          (after H before).completed H l = none) := by
  have hinv := inv_after H ls
  refine ⟨⟨fun number item hitem => ?_, hinv.rpc.once, hinv.rpc.kept, hinv.inOrder⟩,
    outputs_after_iff⟩
  obtain ⟨as, hanswers, -⟩ := hinv.own number item hitem
  exact ⟨as, hanswers⟩

/-- A call of the method `pong`, which returns after the transport was closed. -/
def closedRun : List (LocalUseLabel (ℕ → Poll (Except Error Value))) :=
  [.pollReady fun _ => .pending,
    .startSend "\x7b\"jsonrpc\":\"2.0\",\"method\":\"pong\",\"params\":null,\"id\":0\x7d",
    .pollClose,
    .pollFlush fun _ => .ready (.ok (.bool true))]

/-- The request completes with a response that is neither read nor queued. -/
theorem outputs_ne_responses_closedRun :
    let u := after (handlerFutures pongJson pongHandler ()) closedRun
    u.calls = [.ready true,
        .send "\x7b\"jsonrpc\":\"2.0\",\"method\":\"pong\",\"params\":null,\"id\":0\x7d",
        .other, .other] ∧
      u.rpc.responses = ["\x7b\"jsonrpc\":\"2.0\",\"result\":true,\"id\":0\x7d"] ∧
      u.outputs = [] := by
  decide

end LocalUse

end JsonRpc.Local
