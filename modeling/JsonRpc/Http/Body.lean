import JsonRpc.Http.Gate
import Mathlib.Data.List.ReduceOption

/-!
# Reading a body

A body comes in chunks, and may not be ready between them. The machine then leaves the loop
that reads the body, and puts the bytes it has so far into its state. What it makes of the
body depends on the bytes of the body alone, not on where the chunks end or where the machine
had to wait, and the bytes it holds never exceed the limit. The JSON-RPC handler is given the
text of the whole body.
-/

namespace JsonRpc.Http

open ServerUtils

/-- A body that ends without an error, given by its chunks and the points where it is not
ready. -/
def bodyEvents (schedule : List (Option Bytes)) : List BodyEvent :=
  schedule.map fun event => event.elim .pending .chunk

/-- The bytes of such a body. -/
def bodyBytes (schedule : List (Option Bytes)) : Bytes := schedule.reduceOption.flatten

/-- The bytes that a machine holds while it reads a body. -/
def RpcHandlerState.held {G : Globset} {M : Type} : RpcHandlerState G M → Bytes
  | .readingBody _ _ request _ => request
  | _ => []

section Body

variable {G : Globset} {P M : Type} (L : Libraries) (h : RpcHandler G P M) (uri : Option Text)
  (metadata : M)

namespace RpcHandler

/-- The machine while it reads a body. -/
def reading (body : List BodyEvent) (request : Bytes) : RpcHandler G P M :=
  { h with state := .readingBody body uri request metadata }

/-- The machine after some polls. -/
def polls (ticks : List Tick) : RpcHandler G P M :=
  Runs.run (fun h tick => (h.poll L tick).1) h ticks

/-! ## What becomes of a body -/

/-- The machine is done and answers with a response. -/
def answers (res : Response) : RpcHandler G P M × Option (Invoked M) × Progress :=
  ({ h with state := .done, corsAllowOrigin := .invalid, corsAllowHeaders := .invalid }, none,
    .ready (.ok (res.into (responseHeaders h.isOptions h.corsMaxAge h.corsAllowOrigin.toOption
      h.corsAllowHeaders.toOption h.keepAlive))))

/-- The text of a body is needed: there is no path to make a call with, or there are bytes. -/
def NeedsText (bytes : Bytes) : Prop := uri = none ∨ bytes ≠ []

/-- What the machine does at the end of a body with some bytes. -/
inductive Concludes (isAlive : Bool) (bytes : Bytes) :
    RpcHandler G P M × Option (Invoked M) × Progress → Prop
  | tooLarge (hlong : h.maxRequestBodySize.toNat < bytes.length) :
      Concludes isAlive bytes
        (h.answers (.tooLarge "request body size exceeds allowed maximum"))
  /-- An empty body is a call by the path. -/
  | rest {path : Text} (hpath : uri = some path) (hempty : bytes = []) :
      Concludes isAlive bytes ({ h with state := .processRest path metadata }, none, .again)
  /-- The JSON-RPC handler is called with the text of the body. -/
  | text {content : String} (hshort : bytes.length ≤ h.maxRequestBodySize.toNat)
      (hneeds : NeedsText uri bytes) (hcontent : intoBytes content = bytes)
      (halive : isAlive = true) :
      Concludes isAlive bytes
        ({ h with state := .waiting }, some (.request content metadata), .again)
  /-- The JSON-RPC handler was dropped. -/
  | closing {content : String} (hshort : bytes.length ≤ h.maxRequestBodySize.toNat)
      (hneeds : NeedsText uri bytes) (hcontent : intoBytes content = bytes)
      (hdropped : isAlive = false) : Concludes isAlive bytes (h.answers .closing)
  /-- The body is no text, and the answer names the end of its longest part that is one. -/
  | noText {n : ℕ} (hshort : bytes.length ≤ h.maxRequestBodySize.toNat)
      (hneeds : NeedsText uri bytes) (hbytes : ∀ content, intoBytes content ≠ bytes)
      (hn : IsGreatest {k | k ≤ bytes.length ∧ ∃ content, intoBytes content = bytes.take k} n) :
      Concludes isAlive bytes
        (h.answers (.badRequest
          ("utf-8 encoding error at byte " ++ toString n ++ " in request body")))

/-- The machine that reads a body holds no more bytes than the limit. After at most as many
polls as the body is not ready, it does what the bytes of the body determine. -/
structure ReadsWhole (schedule : List (Option Bytes)) : Prop where
  /-- The bytes in the state are within the limit. -/
  bounded : ∀ ticks : List Tick,
    ((h.reading uri metadata (bodyEvents schedule) []).polls L ticks).state.held.length ≤
      h.maxRequestBodySize.toNat
  /-- Wherever the loop has to wait, it holds the bytes before that point, within the limit. -/
  loop : ∀ isAlive (chunks : List Bytes) (rest : List (Option Bytes)),
    h.processBody uri metadata isAlive (bodyEvents (chunks.map some ++ none :: rest)) [] =
      if h.maxRequestBodySize.toNat < chunks.flatten.length then .error .tooLarge
      else .ok ⟨.readingBody (bodyEvents rest) uri chunks.flatten metadata, false, none⟩
  outcome : ∃ n ≤ schedule.count none,
    (∀ (ticks : List Tick) tick, ticks.length < n →
      (((h.reading uri metadata (bodyEvents schedule) []).polls L ticks).poll L tick).2 =
        (none, .pending)) ∧
    ∀ (ticks : List Tick) tick, ticks.length = n →
      (∃ body request,
        (h.reading uri metadata (bodyEvents schedule) []).polls L ticks =
          h.reading uri metadata body request ∧
        (h.processBody uri metadata tick.isAlive body request = .error .tooLarge ↔
          h.maxRequestBodySize.toNat < (bodyBytes schedule).length)) ∧
      h.Concludes uri metadata tick.isAlive (bodyBytes schedule)
        (((h.reading uri metadata (bodyEvents schedule) []).polls L ticks).poll L tick)
  /-- The bytes determine what the machine does, however they are split. -/
  unique : ∀ isAlive conclusion conclusion',
    h.Concludes uri metadata isAlive (bodyBytes schedule) conclusion →
    h.Concludes uri metadata isAlive (bodyBytes schedule) conclusion' → conclusion = conclusion'

/-! ## The loop -/

/-- What the machine does with the result of the loop. -/
def finishBody : Except BodyError (RpcPollState G M) →
    RpcHandler G P M × Option (Invoked M) × Progress
  | .error (.utf8 n) =>
    h.finish ⟨.writing (.badRequest
      ("utf-8 encoding error at byte " ++ toString n ++ " in request body")), true, none⟩
  | .error .tooLarge =>
    h.finish ⟨.writing (.tooLarge "request body size exceeds allowed maximum"), true, none⟩
  | .error (.hyper e) => ({ h with state := .done }, none, .ready (.error e))
  | .ok next => h.finish next

/-- The result of the loop over all of a body. -/
def bodyOutcome (isAlive : Bool) (bytes : Bytes) : Except BodyError (RpcPollState G M) :=
  if h.maxRequestBodySize.toNat < bytes.length then .error .tooLarge
  else processBodyEnd uri metadata isAlive bytes

variable {h uri metadata}

@[simp] theorem bodyEvents_append (schedule schedule' : List (Option Bytes)) :
    bodyEvents (schedule ++ schedule') = bodyEvents schedule ++ bodyEvents schedule' :=
  List.map_append

@[simp] theorem bodyBytes_append (schedule schedule' : List (Option Bytes)) :
    bodyBytes (schedule ++ schedule') = bodyBytes schedule ++ bodyBytes schedule' := by
  rw [bodyBytes, List.reduceOption_append, List.flatten_append, bodyBytes, bodyBytes]

@[simp] theorem bodyBytes_none (schedule : List (Option Bytes)) :
    bodyBytes (none :: schedule) = bodyBytes schedule := by
  rw [bodyBytes, List.reduceOption_cons_of_none, bodyBytes]

@[simp] theorem bodyBytes_map_some (chunks : List Bytes) :
    bodyBytes (chunks.map some) = chunks.flatten := by
  rw [bodyBytes, List.reduceOption, List.filterMap_map]
  congr 1
  exact List.filterMap_some

/-- A body has no point where it is not ready, or some chunks come before the first one. -/
theorem exists_chunks (schedule : List (Option Bytes)) :
    (∃ chunks : List Bytes, schedule = chunks.map some) ∨
      ∃ (chunks : List Bytes) (rest : List (Option Bytes)),
        schedule = chunks.map some ++ none :: rest := by
  induction schedule with
  | nil => exact .inl ⟨[], rfl⟩
  | cons event schedule ih =>
    cases event with
    | none => exact .inr ⟨[], schedule, rfl⟩
    | some data =>
      rcases ih with ⟨chunks, rfl⟩ | ⟨chunks, rest, rfl⟩
      · exact .inl ⟨data :: chunks, rfl⟩
      · exact .inr ⟨data :: chunks, rest, rfl⟩

/-- The loop reads some chunks, or ends when their bytes exceed the limit. -/
theorem processBody_chunks (isAlive : Bool) (chunks : List Bytes) (body : List BodyEvent)
    {request : Bytes} (hrequest : request.length ≤ h.maxRequestBodySize.toNat) :
    h.processBody uri metadata isAlive (bodyEvents (chunks.map some) ++ body) request =
      if h.maxRequestBodySize.toNat < (request ++ chunks.flatten).length then .error .tooLarge
      else h.processBody uri metadata isAlive body (request ++ chunks.flatten) := by
  induction chunks generalizing request with
  | nil =>
    have hnil : request ++ [].flatten = request := List.append_nil request
    rw [hnil, if_neg (Nat.not_lt.mpr hrequest)]
    rfl
  | cons data chunks ih =>
    have hcons : bodyEvents ((data :: chunks).map some) ++ body =
        .chunk data :: (bodyEvents (chunks.map some) ++ body) := rfl
    have hflatten : request ++ (data :: chunks).flatten = (request ++ data) ++ chunks.flatten := by
      rw [List.flatten_cons, List.append_assoc]
    rw [hcons, hflatten, processBody]
    rcases Nat.lt_or_ge h.maxRequestBodySize.toNat (request.length + data.length) with hlt | hle
    · have hexceeds : exceeds h.maxRequestBodySize.toNat request.length data.length = true := by
        by_contra hfits
        have := le_of_exceeds_eq_false (Bool.eq_false_iff.mpr hfits)
        omega
      have hlong : h.maxRequestBodySize.toNat < ((request ++ data) ++ chunks.flatten).length := by
        rw [List.length_append, List.length_append]
        omega
      rw [if_pos hexceeds, if_pos hlong]
    · rw [exceeds_eq_false _ hle, if_neg Bool.false_ne_true]
      exact ih (by rwa [List.length_append])

/-- The loop over a body that is always ready. -/
theorem processBody_ready (isAlive : Bool) (chunks : List Bytes) {request : Bytes}
    (hrequest : request.length ≤ h.maxRequestBodySize.toNat) :
    h.processBody uri metadata isAlive (bodyEvents (chunks.map some)) request =
      h.bodyOutcome uri metadata isAlive (request ++ chunks.flatten) := by
  have hloop := @processBody_chunks G P M h uri metadata isAlive chunks [] request hrequest
  rwa [List.append_nil] at hloop

/-- The loop over a body up to the first point where it is not ready. -/
theorem processBody_pending (isAlive : Bool) (chunks : List Bytes) (rest : List (Option Bytes))
    {request : Bytes} (hrequest : request.length ≤ h.maxRequestBodySize.toNat) :
    h.processBody uri metadata isAlive (bodyEvents (chunks.map some ++ none :: rest)) request =
      if h.maxRequestBodySize.toNat < (request ++ chunks.flatten).length then .error .tooLarge
      else .ok ⟨.readingBody (bodyEvents rest) uri (request ++ chunks.flatten) metadata, false,
        none⟩ := by
  rw [bodyEvents_append, processBody_chunks isAlive chunks _ hrequest]
  rfl

/-- The loop reads the limit, and nothing else of the machine. -/
theorem processBody_eq_of_limit {h' : RpcHandler G P M}
    (hlimit : h'.maxRequestBodySize = h.maxRequestBodySize) (isAlive : Bool)
    (body : List BodyEvent) (request : Bytes) :
    h'.processBody uri metadata isAlive body request =
      h.processBody uri metadata isAlive body request := by
  induction body generalizing request with
  | nil => rfl
  | cons event body ih =>
    cases event with
    | chunk data => rw [processBody, processBody, hlimit, ih]
    | pending => rfl
    | error e => rfl

/-! ## The bytes in the state -/

/-- The loop leaves no more bytes than the limit. -/
theorem length_held_processBody {isAlive : Bool} {body : List BodyEvent} {request : Bytes}
    (hrequest : request.length ≤ h.maxRequestBodySize.toNat) {next : RpcPollState G M}
    (hnext : h.processBody uri metadata isAlive body request = .ok next) :
    next.state.held.length ≤ h.maxRequestBodySize.toNat := by
  induction body generalizing request with
  | nil =>
    rw [processBody] at hnext
    unfold processBodyEnd at hnext
    split at hnext
    · cases hnext
      exact Nat.zero_le _
    · split at hnext
      · split at hnext
        all_goals
          cases hnext
          exact Nat.zero_le _
      · cases hnext
  | cons event body ih =>
    cases event with
    | chunk data =>
      rw [processBody] at hnext
      split at hnext
      · cases hnext
      · rename_i hfits
        have hle := le_of_exceeds_eq_false (Bool.eq_false_iff.mpr hfits)
        exact ih (by rwa [List.length_append]) hnext
    | pending =>
      cases hnext
      exact hrequest
    | error e => cases hnext

/-- The end of an iteration keeps the limit, and holds what the next state holds. -/
theorem held_finish {next : RpcPollState G M}
    (hnext : next.state.held.length ≤ h.maxRequestBodySize.toNat) :
    (h.finish next).1.maxRequestBodySize = h.maxRequestBodySize ∧
      (h.finish next).1.state.held.length ≤ h.maxRequestBodySize.toNat := by
  obtain ⟨state, isReady, invoked⟩ := next
  cases state with
  | writing => exact ⟨rfl, Nat.zero_le _⟩
  | _ => exact ⟨rfl, hnext⟩

/-- Nothing was read before the body. -/
theorem held_readHeaders (request : Request) (continueOnInvalidCors isAlive : Bool) :
    (h.readHeaders L request continueOnInvalidCors isAlive).held = [] := by
  unfold readHeaders
  split
  · rfl
  split
  · rfl
  split
  · rfl
  dsimp only
  split
  · split
    · rfl
    · split <;> rfl
  · rfl
  · split
    · split <;> rfl
    · rfl
  · rfl

/-- A poll keeps the bytes within the limit. -/
theorem held_poll (tick : Tick) (hheld : h.state.held.length ≤ h.maxRequestBodySize.toNat) :
    (h.poll L tick).1.maxRequestBodySize = h.maxRequestBodySize ∧
      (h.poll L tick).1.state.held.length ≤ h.maxRequestBodySize.toNat := by
  have hnone : ∀ next : RpcPollState G M, next.state.held = [] →
      (h.finish next).1.maxRequestBodySize = h.maxRequestBodySize ∧
        (h.finish next).1.state.held.length ≤ h.maxRequestBodySize.toNat :=
    fun next hnext => held_finish (by rw [hnext]; exact Nat.zero_le _)
  cases hstate : h.state with
  | readingHeaders request corsDomains corsHeaders continueOnInvalidCors keepAlive =>
    simp only [poll, hstate]
    refine held_finish ?_
    rw [held_readHeaders]
    exact Nat.zero_le _
  | readingBody body uri request metadata =>
    rw [hstate] at hheld
    simp only [poll, hstate]
    split
    · exact hnone _ rfl
    · exact hnone _ rfl
    · exact ⟨rfl, Nat.zero_le _⟩
    · rename_i next hnext
      exact held_finish (length_held_processBody hheld hnext)
  | processRest uri metadata =>
    simp only [poll, hstate]
    refine hnone _ ?_
    unfold processRest
    split <;> rfl
  | processHealth method metadata =>
    simp only [poll, hstate]
    refine hnone _ ?_
    unfold processHealth
    split <;> rfl
  | waiting | waitingForResponse =>
    simp only [poll, hstate]
    split <;> exact hnone _ rfl
  | writing res | done =>
    simp only [poll, hstate]
    exact hnone _ rfl

/-- A machine that reads a body stays within the limit. -/
theorem length_held_polls (ticks : List Tick)
    (hheld : h.state.held.length ≤ h.maxRequestBodySize.toNat) :
    (h.polls L ticks).state.held.length ≤ h.maxRequestBodySize.toNat := by
  have hinv : (h.polls L ticks).maxRequestBodySize = h.maxRequestBodySize ∧
      (h.polls L ticks).state.held.length ≤ h.maxRequestBodySize.toNat := by
    refine Runs.run_invariant
      (I := fun h' : RpcHandler G P M => h'.maxRequestBodySize = h.maxRequestBodySize ∧
        h'.state.held.length ≤ h.maxRequestBodySize.toNat)
      ⟨rfl, hheld⟩ (fun h' tick hinv => ?_) ticks
    obtain ⟨hlimit, hheld'⟩ := hinv
    have hpoll := held_poll L tick (hlimit ▸ hheld')
    rwa [hlimit] at hpoll
  exact hinv.2

/-! ## The end of a body -/

/-- The machine that reads a body runs the loop once in a poll. -/
theorem poll_reading (body : List BodyEvent) (request : Bytes) (tick : Tick) :
    (h.reading uri metadata body request).poll L tick =
      h.finishBody (h.processBody uri metadata tick.isAlive body request) := by
  have hlimit : (h.reading uri metadata body request).maxRequestBodySize = h.maxRequestBodySize :=
    rfl
  have hsame : (h.reading uri metadata body request).processBody uri metadata tick.isAlive body
      request = h.processBody uri metadata tick.isAlive body request :=
    processBody_eq_of_limit hlimit tick.isAlive body request
  unfold poll
  rw [← hsame]
  dsimp only [reading]
  rcases processBody _ uri metadata tick.isAlive body request with (_ | _ | _) | next
  · rfl
  · rfl
  · rfl
  · cases next with
    | mk state isReady invoked => cases state <;> rfl

/-- After at most as many polls as a body is not ready, the loop ends as over the whole body. -/
def Reads (h : RpcHandler G P M) (uri : Option Text) (metadata : M)
    (schedule : List (Option Bytes)) (request : Bytes) : Prop :=
  ∃ n ≤ schedule.count none,
    (∀ (ticks : List Tick) tick, ticks.length < n →
      (((h.reading uri metadata (bodyEvents schedule) request).polls L ticks).poll L tick).2 =
        (none, .pending)) ∧
    ∀ ticks : List Tick, ticks.length = n → ∃ body request',
      (h.reading uri metadata (bodyEvents schedule) request).polls L ticks =
        h.reading uri metadata body request' ∧
      ∀ isAlive, h.processBody uri metadata isAlive body request' =
        h.bodyOutcome uri metadata isAlive (request ++ bodyBytes schedule)

/-- The loop ends in the first poll. -/
theorem Reads.of_first {schedule : List (Option Bytes)} {request : Bytes}
    (hends : ∀ isAlive, h.processBody uri metadata isAlive (bodyEvents schedule) request =
      h.bodyOutcome uri metadata isAlive (request ++ bodyBytes schedule)) :
    Reads L h uri metadata schedule request := by
  refine ⟨0, Nat.zero_le _, fun ticks tick hticks => absurd hticks (Nat.not_lt_zero _),
    fun ticks hticks => ⟨bodyEvents schedule, request, ?_, hends⟩⟩
  rw [List.length_eq_zero_iff.mp hticks]
  rfl

/-- The machine that reads a body of some events, with some bytes before it. -/
theorem reads (schedule : List (Option Bytes)) {request : Bytes}
    (hrequest : request.length ≤ h.maxRequestBodySize.toNat) :
    Reads L h uri metadata schedule request := by
  -- The rest after the first point where the body is not ready is shorter than the schedule.
  induction hlen : schedule.length using Nat.strong_induction_on generalizing schedule request with
  | _ len ih =>
    rcases exists_chunks schedule with ⟨chunks, rfl⟩ | ⟨chunks, rest, rfl⟩
    · refine .of_first L fun isAlive => ?_
      rw [processBody_ready isAlive chunks hrequest, bodyBytes_map_some]
    · have hbytes : request ++ bodyBytes (chunks.map some ++ none :: rest) =
          request ++ chunks.flatten ++ bodyBytes rest := by
        rw [bodyBytes_append, bodyBytes_map_some, bodyBytes_none, List.append_assoc]
      rcases Nat.lt_or_ge h.maxRequestBodySize.toNat (request ++ chunks.flatten).length with
        hlong | hshort
      · refine .of_first L fun isAlive => ?_
        have hlonger : h.maxRequestBodySize.toNat <
            (request ++ chunks.flatten ++ bodyBytes rest).length := by
          rw [List.length_append]
          omega
        rw [processBody_pending isAlive chunks rest hrequest, if_pos hlong, hbytes, bodyOutcome,
          if_pos hlonger]
      · have hpoll : ∀ tick, (h.reading uri metadata
            (bodyEvents (chunks.map some ++ none :: rest)) request).poll L tick =
              (h.reading uri metadata (bodyEvents rest) (request ++ chunks.flatten), none,
                .pending) := by
          intro tick
          rw [poll_reading, processBody_pending _ chunks rest hrequest,
            if_neg (Nat.not_lt.mpr hshort)]
          rfl
        have hpolls : ∀ tick ticks, (h.reading uri metadata
            (bodyEvents (chunks.map some ++ none :: rest)) request).polls L (tick :: ticks) =
              (h.reading uri metadata (bodyEvents rest) (request ++ chunks.flatten)).polls L
                ticks := by
          intro tick ticks
          rw [polls, Runs.run, List.foldl_cons, hpoll]
          rfl
        have hshorter : rest.length < len := by
          rw [← hlen, List.length_append, List.length_cons]
          omega
        obtain ⟨n, hn, hwaits, hends⟩ := ih rest.length hshorter rest hshort rfl
        refine ⟨n + 1, ?_, fun ticks tick hticks => ?_, fun ticks hticks => ?_⟩
        · rw [List.count_append, List.count_cons_self]
          omega
        · cases ticks with
          | nil => exact congrArg Prod.snd (hpoll tick)
          | cons first ticks =>
            rw [hpolls]
            exact hwaits ticks tick (Nat.lt_of_succ_lt_succ hticks)
        · cases ticks with
          | nil => cases hticks
          | cons first ticks =>
            rw [hpolls, hbytes]
            exact hends ticks (Nat.succ.inj hticks)

/-- The longest part of some bytes that is a text. -/
theorem isGreatest_validUpTo (bytes : Bytes) :
    IsGreatest {k | k ≤ bytes.length ∧ ∃ content, intoBytes content = bytes.take k}
      (validUpTo bytes) := by
  have hiff : ∀ k, (fromUtf8 (bytes.take k)).isSome = true ↔
      ∃ content, intoBytes content = bytes.take k := by
    intro k
    rw [Option.isSome_iff_exists]
    exact exists_congr fun content => fromUtf8_eq_some
  have hempty : (fromUtf8 (bytes.take 0)).isSome = true := (hiff 0).mpr ⟨"", rfl⟩
  refine ⟨⟨Nat.findGreatest_le _, (hiff _).mp ?_⟩, fun k hk => ?_⟩
  · exact Nat.findGreatest_spec (P := fun n => (fromUtf8 (bytes.take n)).isSome = true)
      (Nat.zero_le _) hempty
  · exact Nat.le_findGreatest hk.1 ((hiff k).mpr hk.2)

variable (h uri metadata)

/-- A body with no more bytes than the limit is never too large. -/
theorem bodyOutcome_eq_tooLarge_iff (isAlive : Bool) (bytes : Bytes) :
    h.bodyOutcome uri metadata isAlive bytes = .error .tooLarge ↔
      h.maxRequestBodySize.toNat < bytes.length := by
  unfold bodyOutcome
  split
  · rename_i hlong
    exact iff_of_true rfl hlong
  · rename_i hshort
    refine iff_of_false (fun hend => ?_) hshort
    unfold processBodyEnd at hend
    split at hend
    · cases hend
    · split at hend
      · split at hend <;> cases hend
      · cases hend

variable {h uri metadata}

/-- The end of a body that needs a text is the end of its text. -/
theorem bodyOutcome_of_needsText (isAlive : Bool) {bytes : Bytes}
    (hshort : bytes.length ≤ h.maxRequestBodySize.toNat) (hneeds : NeedsText uri bytes) :
    h.bodyOutcome uri metadata isAlive bytes =
      match fromUtf8 bytes with
      | some content =>
        if isAlive then .ok ⟨.waiting, true, some (.request content metadata)⟩
        else .ok ⟨.writing .closing, true, none⟩
      | none => .error (.utf8 (validUpTo bytes)) := by
  rw [bodyOutcome, if_neg (Nat.not_lt.mpr hshort)]
  unfold processBodyEnd
  rcases hneeds with rfl | hne
  · rfl
  · cases bytes with
    | nil => exact absurd rfl hne
    | cons byte bytes => cases uri <;> rfl

/-- **Conclusion.** The relation is the function that the machine computes. -/
theorem concludes_iff {isAlive : Bool} {bytes : Bytes}
    {conclusion : RpcHandler G P M × Option (Invoked M) × Progress} :
    h.Concludes uri metadata isAlive bytes conclusion ↔
      conclusion = h.finishBody (h.bodyOutcome uri metadata isAlive bytes) := by
  constructor
  · intro hc
    cases hc with
    | tooLarge hlong =>
      rw [bodyOutcome, if_pos hlong]
      rfl
    | rest hpath hempty =>
      rw [hpath, hempty]
      rfl
    | text hshort hneeds hcontent halive =>
      rw [bodyOutcome_of_needsText isAlive hshort hneeds, fromUtf8_eq_some.mpr hcontent, halive]
      rfl
    | closing hshort hneeds hcontent hdropped =>
      rw [bodyOutcome_of_needsText isAlive hshort hneeds, fromUtf8_eq_some.mpr hcontent, hdropped]
      rfl
    | noText hshort hneeds hbytes hn =>
      have hnone : fromUtf8 bytes = none := by
        cases hutf8 : fromUtf8 bytes with
        | none => rfl
        | some content => exact absurd (fromUtf8_eq_some.mp hutf8) (hbytes content)
      rw [bodyOutcome_of_needsText isAlive hshort hneeds, hnone,
        hn.unique (isGreatest_validUpTo bytes)]
      rfl
  · rintro rfl
    rcases Nat.lt_or_ge h.maxRequestBodySize.toNat bytes.length with hlong | hshort
    · rw [bodyOutcome, if_pos hlong]
      exact .tooLarge hlong
    by_cases hneeds : NeedsText uri bytes
    · rw [bodyOutcome_of_needsText isAlive hshort hneeds]
      cases hutf8 : fromUtf8 bytes with
      | some content =>
        have hcontent := fromUtf8_eq_some.mp hutf8
        cases isAlive with
        | true => exact .text hshort hneeds hcontent rfl
        | false => exact .closing hshort hneeds hcontent rfl
      | none =>
        refine .noText hshort hneeds (fun content hcontent => ?_) (isGreatest_validUpTo bytes)
        cases hutf8.symm.trans (fromUtf8_eq_some.mpr hcontent)
    · obtain ⟨hpath, hempty⟩ := not_or.mp hneeds
      obtain ⟨path, rfl⟩ := Option.ne_none_iff_exists'.mp hpath
      obtain rfl := not_not.mp hempty
      exact .rest rfl rfl

variable (h uri metadata)

/-- **Body.** What the machine makes of a body depends on the bytes of the body alone. -/
theorem readsWhole (schedule : List (Option Bytes)) : h.ReadsWhole L uri metadata schedule where
  bounded ticks := length_held_polls L ticks (Nat.zero_le _)
  loop isAlive chunks rest := processBody_pending isAlive chunks rest (Nat.zero_le _)
  outcome := by
    obtain ⟨n, hn, hwaits, hends⟩ : Reads L h uri metadata schedule [] :=
      reads L schedule (Nat.zero_le _)
    refine ⟨n, hn, hwaits, fun ticks tick hticks => ?_⟩
    obtain ⟨body, request, hstate, hbody⟩ := hends ticks hticks
    have hwhole := hbody tick.isAlive
    rw [List.nil_append] at hwhole
    refine ⟨⟨body, request, hstate, ?_⟩, concludes_iff.mpr ?_⟩
    · rw [hwhole]
      exact h.bodyOutcome_eq_tooLarge_iff uri metadata tick.isAlive _
    · rw [hstate, poll_reading, hwhole]
  unique _ _ _ hc hc' := (concludes_iff.mp hc).trans (concludes_iff.mp hc').symm

end RpcHandler

end Body

end JsonRpc.Http
