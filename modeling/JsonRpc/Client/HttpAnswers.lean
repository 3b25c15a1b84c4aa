import JsonRpc.Client.Http
import Mathlib.Data.List.Nodup
import Mathlib.Data.List.Range

/-!
# The answers of the HTTP client

The worker turns the messages of its clients into requests in the order in which they were
sent, and every request is either waiting, being read or handled, exactly once. So the
channel of a call receives at most one result, and that is what was read from the response
to the request of this call, however many requests overtake it. Once all clients are gone,
the worker completes, and by then every call has its result.
-/

namespace JsonRpc.HttpClient

open BufferUnordered Http

/-! ## The requests of some messages -/

/-- The requests that messages ask for, with the channels of their clients. The first call
has the given id. -/
def issue (id : UInt64) : List RpcMessage → List (JsonRpc.Request × Option ℕ)
  | .call method params sender :: messages =>
    (.single (.methodCall ⟨some .v2, method, params, .num id⟩), some sender) ::
      issue (id + 1) messages
  | .notify method params :: messages =>
    (RequestBuilder.notification method params, none) :: issue id messages
  | .subscribe _ _ _ _ _ :: messages => issue id messages
  | [] => []

/-- The channel of a call. -/
def callSender : RpcMessage → Option ℕ
  | .call _ _ sender => some sender
  | .notify _ _ => none
  | .subscribe _ _ _ _ _ => none

/-- The channels of the requests are those of the calls. -/
theorem filterMap_issue (id : UInt64) (messages : List RpcMessage) :
    (issue id messages).filterMap Prod.snd = messages.filterMap callSender := by
  fun_induction issue id messages with
  | case1 id method params sender messages ih => simp [callSender, ih]
  | case2 id method params messages ih => simp [List.filterMap_cons, callSender, ih]
  | case3 id messages => simpa [callSender]
  | case4 id => rfl

/-- The request of a channel is the call that a client made with it. -/
theorem exists_call_of_mem_issue {id : UInt64} {messages : List RpcMessage}
    {request : JsonRpc.Request} {sender : ℕ} (h : (request, some sender) ∈ issue id messages) :
    ∃ method params n, .call method params sender ∈ messages ∧
      request = .single (.methodCall ⟨some .v2, method, params, .num n⟩) := by
  fun_induction issue id messages with
  | case1 id method params other messages ih =>
    rcases List.mem_cons.mp h with heq | hmem
    · cases heq
      exact ⟨method, params, id, by simp, rfl⟩
    · obtain ⟨method, params, n, hcall, hrequest⟩ := ih hmem
      exact ⟨method, params, n, List.mem_cons_of_mem _ hcall, hrequest⟩
  | case2 id method params messages ih =>
    rcases List.mem_cons.mp h with heq | hmem
    · cases heq
    · obtain ⟨method, params, n, hcall, hrequest⟩ := ih hmem
      exact ⟨method, params, n, List.mem_cons_of_mem _ hcall, hrequest⟩
  | case3 id subscribe params notification unsubscribe channel messages ih =>
    obtain ⟨method, params, n, hcall, hrequest⟩ := ih h
    exact ⟨method, params, n, List.mem_cons_of_mem _ hcall, hrequest⟩
  | case4 id => simp at h

/-! ## Taking messages -/

/-- What a request asks for, and the channel that waits for it. -/
def Exchange.issued (exchange : Exchange) : JsonRpc.Request × Option ℕ :=
  (exchange.request, exchange.sender)

/-- The requests so far and the messages that are not taken, against the messages that were
sent. Further messages may follow. -/
structure Source.Inv (sent : List RpcMessage) (source : Source) : Prop where
  requested_eq : ∀ more, source.requested.map Exchange.issued ++
    issue source.requestBuilder.id (source.mailbox ++ more) = issue 0 (sent ++ more)
  number_eq : source.requested.map Exchange.number = List.range source.requested.length

/-- What taking messages does. -/
structure Source.Takes (sent : List RpcMessage) (source : Source)
    (answer : Source × Next Empty (Exchange × Unit)) : Prop where
  inv : answer.1.Inv sent
  requested_eq : answer.1.requested = source.requested ++ answer.2.items.map Prod.fst
  clients_eq : answer.1.clients = source.clients
  /-- The messages run out only if no request is found. -/
  item_or_empty : (∃ job, answer.2 = .item job) ∨
    answer.1.mailbox = [] ∧ answer.2 = if source.clients then .pending else .done

section Take

variable {sent : List RpcMessage} {source : Source}

/-- Handing out the request of the first message. -/
theorem Source.takes_request {requestBuilder : RequestBuilder} {mailbox : List RpcMessage}
    {request : JsonRpc.Request} {sender : Option ℕ}
    (hrequested : ∀ more, source.requested.map Exchange.issued ++
      (request, sender) :: issue requestBuilder.id (mailbox ++ more) = issue 0 (sent ++ more))
    (hnumber : source.requested.map Exchange.number = List.range source.requested.length) :
    source.Takes sent (source.request requestBuilder mailbox request sender) where
  inv := by
    constructor
    · intro more
      simpa [Source.request, Exchange.issued] using hrequested more
    · simp [Source.request, hnumber, List.range_succ]
  requested_eq := rfl
  clients_eq := rfl
  item_or_empty := .inl ⟨_, rfl⟩

theorem Source.takes_take {mailbox : List RpcMessage}
    (hinv : Source.Inv sent { source with mailbox }) :
    source.Takes sent (source.take mailbox) := by
  induction mailbox with
  | nil =>
    refine ⟨hinv, ?_, rfl, .inr ⟨rfl, rfl⟩⟩
    simp only [Source.take]
    split <;> simp [Next.items]
  | cons message mailbox ih =>
    cases message with
    | call method params sender =>
      exact Source.takes_request hinv.requested_eq hinv.number_eq
    | notify method params =>
      exact Source.takes_request hinv.requested_eq hinv.number_eq
    | subscribe subscribe params notification unsubscribe channel =>
      exact ih ⟨hinv.requested_eq, hinv.number_eq⟩

theorem Source.takes_pull (hinv : source.Inv sent) : source.Takes sent source.pull :=
  Source.takes_take hinv

end Take

/-! ## The invariant -/

/-- The requests of the worker, apart from the results. `out` are the requests that left the
buffer. -/
structure BufferInv (sent : List RpcMessage) (out : List Exchange)
    (b : Buffer Source Exchange Unit) : Prop where
  source : b.source.Inv sent
  /-- Every request has left the buffer or is still there. -/
  requested_perm : b.source.requested.Perm (out ++ b.inProgress.map Prod.fst)
  done : b.isDone = true → b.source.mailbox = [] ∧ b.source.clients = false

theorem BufferInv.took {sent : List RpcMessage} {out : List Exchange}
    {b : Buffer Source Exchange Unit} (h : BufferInv sent out b) :
    BufferInv sent out (b.took b.source.pull) := by
  have htakes := Source.takes_pull h.source
  refine ⟨htakes.inv, ?_, ?_⟩
  · have hperm := h.requested_perm.append_right (b.source.pull.2.items.map Prod.fst)
    simpa [Buffer.took, htakes.requested_eq] using hperm
  · intro hdone
    change b.source.pull.2.isDone = true at hdone
    change b.source.pull.1.mailbox = [] ∧ b.source.pull.1.clients = false
    rcases htakes.item_or_empty with ⟨job, hitem⟩ | ⟨hempty, hnext⟩
    · rw [hitem] at hdone
      cases hdone
    · refine ⟨hempty, ?_⟩
      rw [htakes.clients_eq]
      rw [hnext] at hdone
      cases hclients : b.source.clients with
      | false => rfl
      | true =>
        rw [hclients] at hdone
        cases hdone

/-- The worker goes on, and the HTTP library has an answer: the first request that waits for a
response has one, and the body that is being read has ended. -/
def Label.IsAnswered (label : Label) : Prop :=
  ∃ outcome schedule body, label = .poll ((0, some outcome) :: schedule) (.ready body)

/-- What the channel of a handled request is to receive. -/
def Libraries.reply (L : Libraries) (handled : Exchange × Fetched) :
    Option (ℕ × Except CallError Value) :=
  handled.1.sender.map fun sender => (sender, L.result handled.2)

namespace Worker

/-- The requests that left the buffer. -/
def out (w : Worker) : List Exchange :=
  w.handled.map Prod.fst ++ w.handling.toList.map Prod.fst

/-- The invariant of the worker. -/
structure Inv (L : Libraries) (w : Worker) : Prop where
  buffer : BufferInv w.sent w.out w.buffer
  /-- No more requests than allowed wait for a response. -/
  inProgress_le : w.buffer.inProgress.length ≤ maxParallel
  /-- The channels of calls are numbered in the order of the calls. -/
  calls_eq : w.sent.filterMap callSender = List.range w.nextCall
  complete : w.isComplete = true →
    w.handling = none ∧ w.buffer.inProgress = [] ∧ w.buffer.isDone = true
  delivered_sublist : w.delivered.Sublist (w.handled.filterMap L.reply)
  mem_delivered : ∀ reply ∈ w.handled.filterMap L.reply, reply.1 ∉ w.droppedCalls →
    reply ∈ w.delivered

section Steps

variable {L : Libraries} {w : Worker}

/-- A poll of the requests. -/
theorem Inv.pollBuffer (hinv : w.Inv L) (hhandling : w.handling = none)
    (hopen : w.isComplete = false) (schedule : List (ℕ × Option Outcome)) :
    (w.pollBuffer schedule).Inv L := by
  have hbuffer : BufferInv w.sent w.out
      (w.buffer.fill Source.pull (maxParallel - w.buffer.inProgress.length)).1 :=
    fill_invariant (fun b _ hb => hb.took) _ _ hinv.buffer
  have hbound := length_inProgress_pollNext Source.pull pollRequest schedule hinv.inProgress_le
  have hpolls := polls_pollNext maxParallel Source.pull pollRequest schedule w.buffer
  generalize w.buffer.fill Source.pull (maxParallel - w.buffer.inProgress.length) = fill
    at hbuffer hpolls
  have hperm := pollFutures_perm pollRequest schedule fill.1.inProgress
  rw [Worker.pollBuffer]
  generalize w.buffer.pollNext maxParallel Source.pull pollRequest schedule = result
    at hpolls hbound
  cases hpolls with
  | error e _ => cases e
  | item output jobs _ hpoll =>
    rw [hpoll] at hperm
    refine ⟨⟨hbuffer.source, ?_, hbuffer.done⟩, hbound, hinv.calls_eq, ?_,
      hinv.delivered_sublist, hinv.mem_delivered⟩
    · have hrequested := hbuffer.requested_perm.trans (hperm.append_left _)
      simpa [Worker.out, hhandling] using hrequested
    · intro hcomplete
      simp [hopen] at hcomplete
  | done _ hdone hpoll =>
    rw [hpoll] at hperm
    refine ⟨⟨hbuffer.source, ?_, hbuffer.done⟩, hbound, hinv.calls_eq,
      fun _ => ⟨hhandling, rfl, hdone⟩, hinv.delivered_sublist, hinv.mem_delivered⟩
    exact hbuffer.requested_perm.trans (hperm.append_left _)
  | pending jobs _ hpoll _ =>
    rw [hpoll] at hperm
    refine ⟨⟨hbuffer.source, ?_, hbuffer.done⟩, hbound, hinv.calls_eq, ?_,
      hinv.delivered_sublist, hinv.mem_delivered⟩
    · exact hbuffer.requested_perm.trans (hperm.append_left _)
    · intro hcomplete
      simp [hopen] at hcomplete

/-- What is sent for a result, as a list. -/
theorem sendResult_eq (sender : Option ℕ) (result : Except CallError Value) :
    w.sendResult sender result =
      { w with
        delivered := w.delivered ++
          (sender.toList.map fun sender => (sender, result)).filter (·.1 ∉ w.droppedCalls) } := by
  cases sender with
  | none => simp [sendResult]
  | some sender =>
    by_cases hdropped : sender ∈ w.droppedCalls
    · simp [sendResult, hdropped]
    · simp [sendResult, hdropped]

/-- A response is read. -/
theorem Inv.handle (hinv : w.Inv L) {exchange : Exchange} {outcome : Outcome}
    (hhandling : w.handling = some (exchange, outcome)) (hopen : w.isComplete = false)
    (body : Poll (Except HyperError Bytes)) : (w.handle L exchange outcome body).Inv L := by
  rw [Worker.handle]
  split
  · exact hinv
  · rename_i fetched hfetch
    have hreplies : (w.handled ++ [(exchange, fetched)]).filterMap L.reply =
        w.handled.filterMap L.reply ++
          exchange.sender.toList.map fun sender => (sender, L.result fetched) := by
      cases hsender : exchange.sender with
      | none => simp [Libraries.reply, hsender]
      | some sender => simp [Libraries.reply, hsender]
    rw [sendResult_eq]
    refine ⟨?_, hinv.inProgress_le, hinv.calls_eq, ?_, ?_, ?_⟩
    · have hbuffer := hinv.buffer
      simpa [Worker.out, hhandling] using hbuffer
    · intro hcomplete
      simp [hopen] at hcomplete
    · rw [hreplies]
      exact hinv.delivered_sublist.append List.filter_sublist
    · rw [hreplies]
      intro reply hmem hnot
      rcases List.mem_append.mp hmem with hmem | hmem
      · exact List.mem_append_left _ (hinv.mem_delivered reply hmem hnot)
      · exact List.mem_append_right _ (List.mem_filter.mpr ⟨hmem, by simpa using hnot⟩)

/-- A client sends a message. -/
theorem Inv.send (hinv : w.Inv L) {message : RpcMessage} {nextCall : ℕ}
    (hcalls : (w.sent ++ [message]).filterMap callSender = List.range nextCall)
    (hclients : w.buffer.source.clients = true) :
    Inv L ({ w with nextCall }.send message) := by
  have hbuffer := hinv.buffer
  refine ⟨⟨⟨?_, hbuffer.source.number_eq⟩, hbuffer.requested_perm, ?_⟩, hinv.inProgress_le, hcalls,
    hinv.complete, hinv.delivered_sublist, hinv.mem_delivered⟩
  · intro more
    simpa [Worker.send] using hbuffer.source.requested_eq (message :: more)
  · intro hdone
    have hgone := (hbuffer.done hdone).2
    rw [hclients] at hgone
    cases hgone

end Steps

theorem Inv.init (L : Libraries) : init.Inv L where
  buffer := by
    refine ⟨⟨fun more => ?_, rfl⟩, .refl _, fun hdone => ?_⟩
    · rfl
    · cases hdone
  inProgress_le := Nat.zero_le _
  calls_eq := rfl
  complete hcomplete := by cases hcomplete
  delivered_sublist := List.Sublist.slnil
  mem_delivered := by simp [Worker.init]

theorem Inv.step {L : Libraries} {w : Worker} (hinv : w.Inv L) (label : Label) :
    (w.step L label).Inv L := by
  cases label with
  | call method params =>
    rw [Worker.step]
    split
    · rename_i hclients
      refine hinv.send ?_ hclients
      simp [hinv.calls_eq, callSender, List.range_succ]
    · exact hinv
  | notify method params =>
    rw [Worker.step]
    split
    · rename_i hclients
      refine hinv.send ?_ hclients
      simp [hinv.calls_eq, callSender]
    · exact hinv
  | subscribe subscribe params notification unsubscribe =>
    rw [Worker.step]
    split
    · rename_i hclients
      refine hinv.send ?_ hclients
      simp [hinv.calls_eq, callSender]
    · exact hinv
  | dropClients =>
    obtain ⟨⟨⟨hrequested, hnumber⟩, hperm, hdone⟩, hbound, hcalls, hcomplete, hsublist, hmem⟩ :=
      hinv
    exact ⟨⟨⟨hrequested, hnumber⟩, hperm, fun h => ⟨(hdone h).1, rfl⟩⟩, hbound, hcalls, hcomplete,
      hsublist, hmem⟩
  | dropCall sender =>
    obtain ⟨hbuffer, hbound, hcalls, hcomplete, hsublist, hmem⟩ := hinv
    exact ⟨hbuffer, hbound, hcalls, hcomplete, hsublist, fun reply hin hnot =>
      hmem reply hin fun hdropped => hnot (List.mem_cons_of_mem _ hdropped)⟩
  | poll schedule body =>
    rw [Worker.step, Worker.poll]
    split
    · exact hinv
    · rename_i hopen
      rw [Bool.not_eq_true] at hopen
      split
      · rename_i exchange outcome hhandling
        exact hinv.handle hhandling hopen body
      · rename_i hhandling
        exact hinv.pollBuffer hhandling hopen schedule

theorem Inv.after (L : Libraries) (labels : List Label) : (after L labels).Inv L :=
  Runs.run_invariant (Inv.init L) (fun _ label hinv => hinv.step label) labels

/-! ## Results -/

section Results

variable {L : Libraries} {w : Worker}

/-- The channels of the requests are the calls whose message was taken. -/
theorem Inv.requested_senders (hinv : w.Inv L) :
    w.buffer.source.requested.filterMap Exchange.sender ++
      w.buffer.source.mailbox.filterMap callSender = List.range w.nextCall := by
  have hrequested := congrArg (List.filterMap Prod.snd) (hinv.buffer.source.requested_eq [])
  rw [List.filterMap_append, filterMap_issue, filterMap_issue, List.filterMap_map,
    List.append_nil, List.append_nil, hinv.calls_eq] at hrequested
  exact hrequested

/-- A request that was handed out is one that the messages ask for. -/
theorem Inv.mem_issue (hinv : w.Inv L) {exchange : Exchange}
    (h : exchange ∈ w.buffer.source.requested) : exchange.issued ∈ issue 0 w.sent := by
  have hrequested := hinv.buffer.source.requested_eq []
  rw [List.append_nil, List.append_nil] at hrequested
  rw [← hrequested]
  exact List.mem_append_left _ (List.mem_map_of_mem h)

/-- A handled request was handed out. -/
theorem Inv.mem_requested (hinv : w.Inv L) {exchange : Exchange} {fetched : Fetched}
    (h : (exchange, fetched) ∈ w.handled) : exchange ∈ w.buffer.source.requested := by
  have hout : exchange ∈ w.out :=
    List.mem_append_left _ (List.mem_map_of_mem (f := Prod.fst) h)
  exact hinv.buffer.requested_perm.mem_iff.mpr (List.mem_append_left _ hout)

/-- A result was read from the response to the request of its call. -/
theorem Inv.exists_of_delivered (hinv : w.Inv L) {sender : ℕ} {result : Except CallError Value}
    (hmem : (sender, result) ∈ w.delivered) :
    ∃ exchange fetched method params id, .call method params sender ∈ w.sent ∧
      exchange.request = .single (.methodCall ⟨some .v2, method, params, .num id⟩) ∧
      exchange.sender = some sender ∧ (exchange, fetched) ∈ w.handled ∧
      result = L.result fetched := by
  obtain ⟨⟨exchange, fetched⟩, hhandled, hreply⟩ :=
    List.mem_filterMap.mp (hinv.delivered_sublist.subset hmem)
  obtain ⟨sender', hsender, heq⟩ := Option.map_eq_some_iff.mp hreply
  cases heq
  have hissued := hinv.mem_issue (hinv.mem_requested hhandled)
  rw [Exchange.issued, hsender] at hissued
  obtain ⟨method, params, id, hcall, hrequest⟩ := exists_call_of_mem_issue hissued
  exact ⟨exchange, fetched, method, params, id, hcall, hrequest, hsender, hhandled, rfl⟩

end Results

/-- **Every request is made once, in order.** The requests are a prefix of those that the
messages ask for, numbered one after another. At most eight of them wait for a response, and
those together with the one whose response is being read and the handled ones are all
requests, each of them once. -/
theorem requests_once_in_order (L : Libraries) (labels : List Label) :
    let w := after L labels
    w.buffer.source.requested.map Exchange.issued <+: issue 0 w.sent ∧
      w.buffer.source.requested.map Exchange.number =
        List.range w.buffer.source.requested.length ∧
      w.buffer.inProgress.length ≤ maxParallel ∧
      w.buffer.source.requested.Perm (w.handled.map Prod.fst ++
        w.handling.toList.map Prod.fst ++ w.buffer.inProgress.map Prod.fst) := by
  intro w
  have hinv : w.Inv L := Inv.after L labels
  have hrequested := hinv.buffer.source.requested_eq []
  rw [List.append_nil, List.append_nil] at hrequested
  exact ⟨⟨_, hrequested⟩, hinv.buffer.source.number_eq, hinv.inProgress_le,
    hinv.buffer.requested_perm⟩

/-! ## Completion -/

section Completion

variable {L : Libraries} {w : Worker}

/-- There are as many requests as left the buffer, wait in it or are still to come. -/
theorem Inv.length_issue (hinv : w.Inv L) :
    w.out.length + w.buffer.inProgress.length +
      (issue w.buffer.source.requestBuilder.id w.buffer.source.mailbox).length =
        (issue 0 w.sent).length := by
  have hrequested := congrArg List.length (hinv.buffer.source.requested_eq [])
  have hperm := hinv.buffer.requested_perm.length_eq
  simp only [List.append_nil, List.length_append, List.length_map] at hrequested hperm
  omega

/-- A buffer that holds nothing after it has taken requests, and has no clients, is done. -/
theorem Inv.isDone_fill (hinv : w.Inv L) (hclients : w.buffer.source.clients = false)
    (hempty : (w.buffer.fill Source.pull
      (maxParallel - w.buffer.inProgress.length)).1.inProgress = [])
    (hok : (w.buffer.fill Source.pull (maxParallel - w.buffer.inProgress.length)).2 = none) :
    (w.buffer.fill Source.pull (maxParallel - w.buffer.inProgress.length)).1.isDone = true := by
  refine (fill_of_inProgress_eq_nil (by decide) hempty hok).resolve_right fun hpending => ?_
  rcases (Source.takes_pull hinv.buffer.source).item_or_empty with ⟨job, hitem⟩ | ⟨-, hnext⟩
  · cases hpending.symm.trans hitem
  · rw [hclients] at hnext
    cases hpending.symm.trans hnext

/-- The length of what is to be done: two polls for each request that waits for a response,
and one for a response that is being read. -/
def remaining (w : Worker) : ℕ :=
  2 * ((issue 0 w.sent).length - w.out.length) + w.handling.toList.length

/-- A response whose body has ended is read. -/
theorem exists_fetch_eq (L : Libraries) (outcome : Outcome) (body : Except HyperError Bytes) :
    ∃ fetched, L.fetch outcome (.ready body) = .ready fetched := by
  cases outcome with
  | error e => exact ⟨_, rfl⟩
  | ok status =>
    by_cases hstatus : isSuccess status = true
    · cases body with
      | error e => simp [Libraries.fetch, hstatus]
      | ok bytes => simp [Libraries.fetch, hstatus]
    · simp [Libraries.fetch, hstatus]

/-- Once a response is read, nothing is being read. -/
theorem remaining_handle {exchange : Exchange} {outcome : Outcome}
    (hhandling : w.handling = some (exchange, outcome)) (body : Except HyperError Bytes) :
    (w.handle L exchange outcome (.ready body)).remaining < w.remaining := by
  obtain ⟨fetched, hfetch⟩ := exists_fetch_eq L outcome body
  simp only [handle, hfetch, sendResult_eq, remaining, out, hhandling]
  simp

/-- A request whose response is there leaves the buffer. If there is none, the worker
completes. -/
theorem Inv.pollBuffer_answered (hinv : w.Inv L) (hclients : w.buffer.source.clients = false)
    (hhandling : w.handling = none) (hopen : w.isComplete = false) (outcome : Outcome)
    (schedule : List (ℕ × Option Outcome)) :
    (w.pollBuffer ((0, some outcome) :: schedule)).isComplete = true ∨
      (w.pollBuffer ((0, some outcome) :: schedule)).remaining < w.remaining := by
  have hnext := (hinv.pollBuffer hhandling hopen ((0, some outcome) :: schedule)).length_issue
  have hprogress : (w.buffer.pollNext maxParallel Source.pull pollRequest
      ((0, some outcome) :: schedule)).2 ≠ .pending :=
    pollNext_ne_pending (fun _ => ⟨outcome, rfl⟩) (hinv.isDone_fill hclients)
  rw [Worker.pollBuffer] at hnext ⊢
  generalize w.buffer.pollNext maxParallel Source.pull pollRequest ((0, some outcome) :: schedule) =
    result at hprogress hnext
  obtain ⟨buffer, answer⟩ := result
  cases answer with
  | error e => cases e
  | item output =>
    right
    simp only [remaining, out, hhandling, Option.toList_some, Option.toList_none, List.map_cons,
      List.map_nil, List.length_append, List.length_map, List.length_cons, List.length_nil]
      at hnext ⊢
    omega
  | done => exact .inl rfl
  | pending => exact absurd rfl hprogress

/-- A poll with an answer brings the worker nearer to its end. -/
theorem Inv.progress (hinv : w.Inv L) (hclients : w.buffer.source.clients = false) {label : Label}
    (hlabel : label.IsAnswered) :
    (w.step L label).isComplete = true ∨ (w.step L label).remaining < w.remaining := by
  obtain ⟨outcome, schedule, body, rfl⟩ := hlabel
  rw [Worker.step, Worker.poll]
  split
  · rename_i hcomplete
    exact .inl hcomplete
  · rename_i hopen
    rw [Bool.not_eq_true] at hopen
    split
    · rename_i exchange outcome' hhandling
      exact .inr (remaining_handle hhandling body)
    · rename_i hhandling
      exact hinv.pollBuffer_answered hclients hhandling hopen outcome schedule

/-- A poll brings no client back, sends no message and drops no receiver. -/
theorem Inv.frame_of_isAnswered (hinv : w.Inv L) {label : Label} (hlabel : label.IsAnswered) :
    (w.step L label).buffer.source.clients = w.buffer.source.clients ∧
      (w.step L label).sent = w.sent ∧ (w.step L label).droppedCalls = w.droppedCalls := by
  obtain ⟨outcome, schedule, body, rfl⟩ := hlabel
  rw [Worker.step, Worker.poll]
  split
  · exact ⟨rfl, rfl, rfl⟩
  · split
    · rename_i exchange outcome' hhandling
      obtain ⟨fetched, hfetch⟩ := exists_fetch_eq L outcome' body
      simp [Worker.handle, hfetch, sendResult_eq]
    · have hfilled := fill_invariant
        (P := fun b => BufferInv w.sent w.out b ∧ b.source.clients = w.buffer.source.clients)
        (fun b _ hb => ⟨hb.1.took, (Source.takes_pull hb.1.source).clients_eq.trans hb.2⟩)
        (maxParallel - w.buffer.inProgress.length) w.buffer ⟨hinv.buffer, rfl⟩
      have hpolls := polls_pollNext maxParallel Source.pull pollRequest
        ((0, some outcome) :: schedule) w.buffer
      rw [Worker.pollBuffer]
      generalize w.buffer.pollNext maxParallel Source.pull pollRequest
        ((0, some outcome) :: schedule) = result at hpolls
      cases hpolls with
      | error e _ => cases e
      | item output jobs _ hpoll => exact ⟨hfilled.2, rfl, rfl⟩
      | done _ hdone hpoll => exact ⟨hfilled.2, rfl, rfl⟩
      | pending jobs _ hpoll hnot => exact ⟨hfilled.2, rfl, rfl⟩

/-- Polls with answers complete the worker, and change nothing of what the clients did. -/
theorem Inv.run_of_isAnswered (hinv : w.Inv L) (hclients : w.buffer.source.clients = false)
    {polls : List Label} (hpolls : ∀ label ∈ polls, label.IsAnswered)
    (hlength : w.isComplete = true ∨ w.remaining < polls.length) :
    (Runs.run (Worker.step L) w polls).isComplete = true ∧
      (Runs.run (Worker.step L) w polls).sent = w.sent ∧
      (Runs.run (Worker.step L) w polls).droppedCalls = w.droppedCalls := by
  induction polls generalizing w with
  | nil =>
    refine ⟨hlength.resolve_right (by simp), rfl, rfl⟩
  | cons label polls ih =>
    have hlabel := hpolls label (by simp)
    obtain ⟨hclients', hsent, hdropped⟩ := hinv.frame_of_isAnswered hlabel
    have hnext : (w.step L label).isComplete = true ∨
        (w.step L label).remaining < polls.length := by
      rcases hlength with hcomplete | hlength
      · obtain ⟨outcome, schedule, body, rfl⟩ := hlabel
        simp [Worker.step, Worker.poll, hcomplete]
      · rw [List.length_cons] at hlength
        exact (hinv.progress hclients hlabel).imp_right fun h => by omega
    have hrest := ih (hinv.step label) (hclients'.trans hclients)
      (fun label hmem => hpolls label (List.mem_cons_of_mem _ hmem)) hnext
    rwa [hsent, hdropped] at hrest

/-- When the worker is complete, the calls whose receiver is there have their results. -/
theorem Inv.exists_delivered (hinv : w.Inv L) (hcomplete : w.isComplete = true) {method : String}
    {params : Params} {sender : ℕ} (hcall : .call method params sender ∈ w.sent)
    (hreceiver : sender ∉ w.droppedCalls) : ∃ result, (sender, result) ∈ w.delivered := by
  obtain ⟨hhandling, hinProgress, hdone⟩ := hinv.complete hcomplete
  obtain ⟨hmailbox, -⟩ := hinv.buffer.done hdone
  have hsender : sender ∈ w.buffer.source.requested.filterMap Exchange.sender := by
    have hsenders := hinv.requested_senders
    rw [hmailbox, List.filterMap_nil, List.append_nil, ← hinv.calls_eq] at hsenders
    rw [hsenders]
    exact List.mem_filterMap.mpr ⟨_, hcall, rfl⟩
  obtain ⟨exchange, hrequested, hexchange⟩ := List.mem_filterMap.mp hsender
  rw [hinv.buffer.requested_perm.mem_iff, out, hhandling, hinProgress] at hrequested
  simp only [Option.toList_none, List.map_nil, List.append_nil] at hrequested
  obtain ⟨handled, hhandled, rfl⟩ := List.mem_map.mp hrequested
  refine ⟨L.result handled.2, hinv.mem_delivered _ ?_ hreceiver⟩
  exact List.mem_filterMap.mpr ⟨handled, hhandled, by simp [Libraries.reply, hexchange]⟩

theorem length_issue_le (id : UInt64) (messages : List RpcMessage) :
    (issue id messages).length ≤ messages.length := by
  fun_induction issue id messages with
  | case1 id method params sender messages ih => simpa using ih
  | case2 id method params messages ih => simpa using ih
  | case3 id subscribe params notification unsubscribe channel messages ih =>
    exact Nat.le_succ_of_le ih
  | case4 id => exact Nat.le_refl _

end Completion

/-- **The worker ends with every call answered.** When the clients are gone, so many polls
with an answer of the HTTP library complete the worker, whatever went before. By then the
channel of every call has received a result, unless its receiver is dropped. -/
theorem completes_with_all_answered (L : Libraries) (labels polls : List Label)
    (hclients : (after L labels).buffer.source.clients = false)
    (hpolls : ∀ label ∈ polls, label.IsAnswered)
    (hlength : 2 * (after L labels).sent.length < polls.length) :
    (after L (labels ++ polls)).isComplete = true ∧
      ∀ method params sender, .call method params sender ∈ (after L labels).sent →
        sender ∉ (after L labels).droppedCalls →
        ∃ result, (sender, result) ∈ (after L (labels ++ polls)).delivered := by
  have hinv := Inv.after L labels
  have hremaining : (after L labels).remaining ≤ 2 * (after L labels).sent.length := by
    have hissue := hinv.length_issue
    have hle := length_issue_le 0 (after L labels).sent
    rw [remaining]
    simp only [out, List.length_append, List.length_map] at hissue ⊢
    omega
  obtain ⟨hcomplete, hsent, hdropped⟩ :=
    hinv.run_of_isAnswered hclients hpolls (.inr (by omega))
  have heq : after L (labels ++ polls) = Runs.run (step L) (after L labels) polls :=
    Runs.run_append _ _ _
  rw [← heq] at hcomplete hsent hdropped
  refine ⟨hcomplete, fun method params sender hcall hreceiver => ?_⟩
  rw [← hsent] at hcall
  rw [← hdropped] at hreceiver
  exact (Inv.after L (labels ++ polls)).exists_delivered hcomplete hcall hreceiver

end Worker

/-- Libraries whose texts are read as they are, if they are UTF-8. -/
def Libraries.ofJson (json : SerdeJson) : Libraries where
  json := json
  fromUtf8Lossy bytes := (fromUtf8 bytes).getD "\uFFFD"
  displayStatus := toString
  fromUtf8Lossy_intoBytes s := by
    rw [fromUtf8_eq_some.mpr rfl]
    rfl

/-- A call and a notification are sent, and then the clients are dropped. -/
def farewell : List Label := [.call "ping" .none, .notify "pong" .none, .dropClients]

/-- The connection of every request fails. -/
def refusals : List Label :=
  List.replicate 5 (.poll [(0, some (.error ⟨"connection refused"⟩))] (.ready (.ok [])))

/-- The worker completes, and the call has received the error of its connection. -/
theorem Worker.completes_with_all_answered_farewell :
    (after (.ofJson sampleJson) (farewell ++ refusals)).isComplete = true ∧
      ∃ result, (0, result) ∈ (after (.ofJson sampleJson) (farewell ++ refusals)).delivered := by
  obtain ⟨hcomplete, hanswered⟩ := Worker.completes_with_all_answered (.ofJson sampleJson) farewell
    refusals rfl (fun label hlabel => ⟨_, _, _, List.eq_of_mem_replicate hlabel⟩) (by decide)
  exact ⟨hcomplete, hanswered "ping" .none 0 (by decide) (by decide)⟩

end JsonRpc.HttpClient
