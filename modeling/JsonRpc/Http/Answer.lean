import JsonRpc.Http.Gate

/-!
# What the server answers to a posted message

A JSON message that is posted to the server is answered with a success only when the
JSON-RPC handler has answered it: the handler is called once, with the text of the message,
and the content of the response is the text of its answer.
-/

namespace JsonRpc.Http

open Text ServerUtils

section Posted

variable {G : Globset} {P M : Type}

/-- A request that posts a JSON message with a text. -/
structure Request.Posts (L : Libraries) (req : Request) (content : String) : Prop where
  post : req.method = .post
  hasJson : hasJson L req = true
  body : assemble req.body = some (intoBytes content)

/-- The states of the machine of a posted message with the calls it has made, and the
responses that were given to it. -/
inductive PostStage (L : Libraries) (server : ServerHandler G P M) (req : Request)
    (content : String) : RpcHandlerState G M → List (Invoked M) → Prop
  | readingHeaders {corsDomains : Option (List (AccessControlAllowOrigin G))}
      {corsHeaders : AccessControlAllowHeaders} {cont keepAlive : Bool} :
      PostStage L server req content
        (.readingHeaders req corsDomains corsHeaders cont keepAlive) []
  | readingBody {body : List BodyEvent} {uri : Option Text} {acc : Bytes}
      (hbody : (assemble body).map (acc ++ ·) = some (intoBytes content)) :
      PostStage L server req content
        (.readingBody body uri acc (server.jsonrpcHandler.extractor req)) []
  | waiting :
      PostStage L server req content .waiting
        [.request content (server.jsonrpcHandler.extractor req)]
  | done {invoked : List (Invoked M)} : PostStage L server req content .done invoked

/-- A successful response carries an answer of the JSON-RPC handler to the message. -/
def Carries (L : Libraries) (server : ServerHandler G P M) (req : Request) (content : String)
    (given : Option JsonRpc.Response → Prop) (invoked : List (Invoked M))
    (response : HyperResponse) : Prop :=
  response.status < 300 →
    invoked = [.request content (server.jsonrpcHandler.extractor req)] ∧
      ∃ answer, given answer ∧ response.body = (RpcHandler.waitingResponse L answer).content

variable {L : Libraries} {server : ServerHandler G P M} {req : Request} {content : String}
  {given : Option JsonRpc.Response → Prop} {h : RpcHandler G P M} {invoked : List (Invoked M)}

/-- What an iteration of a poll does with the state of a posted message. -/
def PostPolled (L : Libraries) (server : ServerHandler G P M) (req : Request) (content : String)
    (given : Option JsonRpc.Response → Prop) (invoked : List (Invoked M))
    (polled : RpcHandler G P M × Option (Invoked M) × Progress) : Prop :=
  PostStage L server req content polled.1.state (invoked ++ polled.2.1.toList) ∧
    ∀ response, polled.2.2 = .ready (.ok response) →
      Carries L server req content given (invoked ++ polled.2.1.toList) response

/-- The machine goes on. -/
theorem postPolled_finish {next : RpcPollState G M}
    (hstage : PostStage L server req content next.state (invoked ++ next.invoked.toList)) :
    PostPolled L server req content given invoked (h.finish next) := by
  obtain ⟨state, isReady, call⟩ := next
  have hgoes (response : HyperResponse) :
      (if isReady then Progress.again else .pending) ≠ .ready (.ok response) := by
    cases isReady <;> simp
  dsimp only at hstage
  unfold PostPolled
  generalize hall : invoked ++ call.toList = all at hstage
  cases hstage with
  | readingHeaders =>
    exact ⟨hall ▸ .readingHeaders, fun response hr => absurd hr (hgoes response)⟩
  | readingBody hbody =>
    exact ⟨hall ▸ .readingBody hbody, fun response hr => absurd hr (hgoes response)⟩
  | waiting => exact ⟨hall ▸ .waiting, fun response hr => absurd hr (hgoes response)⟩
  | done => exact ⟨.done, fun response hr => absurd hr (hgoes response)⟩

/-- The machine refuses the message. -/
theorem postPolled_refuse {res : Response} (hcode : 300 ≤ res.code) (isReady : Bool) :
    PostPolled L server req content given invoked (h.finish ⟨.writing res, isReady, none⟩) := by
  refine ⟨.done, fun response hr hsuccess => ?_⟩
  cases hr
  exact absurd hsuccess (Nat.not_lt.mpr hcode)

/-- The headers are read. -/
theorem postPolled_readHeaders (hposts : req.Posts L content)
    (hhandler : h.jsonrpcHandler = server.jsonrpcHandler) (cont isAlive : Bool) :
    PostPolled L server req content given []
      (h.finish ⟨h.readHeaders L req cont isAlive, true, none⟩) := by
  unfold RpcHandler.readHeaders
  split
  · exact postPolled_refuse (by decide) true
  · split
    · exact postPolled_refuse (by decide) true
    · split
      · exact postPolled_refuse (by decide) true
      · simp only [hposts.post, hposts.hasJson, if_true, hhandler]
        refine postPolled_finish (.readingBody ?_)
        simpa using hposts.body

/-- The body is read, as far as it is there. -/
theorem postPolled_processBody (hcontent : content ≠ "") {uri : Option Text} {isAlive : Bool}
    {body : List BodyEvent} {acc : Bytes}
    (hbody : (assemble body).map (acc ++ ·) = some (intoBytes content)) :
    (∃ e, h.processBody uri (server.jsonrpcHandler.extractor req) isAlive body acc = .error e) ∨
      ∃ next, h.processBody uri (server.jsonrpcHandler.extractor req) isAlive body acc = .ok next ∧
        (next = ⟨.writing .closing, true, none⟩ ∨
          PostStage L server req content next.state next.invoked.toList) := by
  induction body generalizing acc with
  | nil =>
    obtain rfl : acc = intoBytes content := by simpa [assemble] using hbody
    have hnonempty : (intoBytes content).isEmpty = false := by
      rw [List.isEmpty_eq_false_iff]
      intro hnil
      have hempty : fromUtf8 [] = some "" := fromUtf8_eq_some.mpr rfl
      rw [fromUtf8_eq_some.mpr hnil] at hempty
      exact hcontent (Option.some.inj hempty)
    right
    simp only [RpcHandler.processBody, RpcHandler.processBodyEnd, hnonempty,
      fromUtf8_eq_some.mpr rfl]
    cases isAlive with
    | false => exact ⟨_, rfl, .inl rfl⟩
    | true => exact ⟨_, rfl, .inr .waiting⟩
  | cons event body ih =>
    cases event with
    | chunk data =>
      rw [RpcHandler.processBody]
      split
      · exact .inl ⟨_, rfl⟩
      · apply ih
        simpa [assemble, Function.comp_def] using hbody
    | pending =>
      exact .inr ⟨_, rfl, .inr (.readingBody hbody)⟩
    | error e => exact .inl ⟨_, rfl⟩

/-- An iteration of a poll reads on, refuses the message, or answers it with what the JSON-RPC
handler gives. -/
theorem PostStage.poll (hposts : req.Posts L content) (hcontent : content ≠ "")
    (hhandler : h.jsonrpcHandler = server.jsonrpcHandler)
    (hstage : PostStage L server req content h.state invoked) {tick : Tick}
    (hgiven : ∀ answer, tick.response = .ready answer → given answer) :
    PostPolled L server req content given invoked (h.poll L tick) := by
  generalize hstate : h.state = state at hstage
  cases hstage with
  | readingHeaders =>
    simp only [RpcHandler.poll, hstate]
    apply postPolled_readHeaders hposts
    exact hhandler
  | readingBody hbody =>
    simp only [RpcHandler.poll, hstate]
    rcases postPolled_processBody hcontent hbody (L := L) (h := h) with
      ⟨e, he⟩ | ⟨next, hnext, hstage⟩
    · rw [he]
      cases e with
      | utf8 n => exact postPolled_refuse (by simp [Response.badRequest]) true
      | tooLarge => exact postPolled_refuse (by simp [Response.tooLarge]) true
      | hyper e => exact ⟨.done, fun response hr => by cases hr⟩
    · rw [hnext]
      rcases hstage with rfl | hstage
      · exact postPolled_refuse (by decide) true
      · exact postPolled_finish (by simpa using hstage)
  | waiting =>
    simp only [RpcHandler.poll, hstate]
    cases hresponse : tick.response with
    | ready answer =>
      refine ⟨.done, fun response hr _ => ⟨by simp [RpcHandler.finish], answer, ?_, ?_⟩⟩
      · exact hgiven answer hresponse
      · cases hr
        rfl
    | pending => exact postPolled_finish (by simpa using PostStage.waiting)
  | done =>
    simp only [RpcHandler.poll, hstate]
    exact postPolled_finish .done

/-- What is known about a posted message during its life. -/
def Life.Posting (L : Libraries) (server : ServerHandler G P M) (req : Request) (content : String)
    (given : Option JsonRpc.Response → Prop) (life : Life G P M) : Prop :=
  (match life.handler with
    | .rpc h => PostStage L server req content h.state life.invoked
    | .err response => ∀ res ∈ response, 300 ≤ res.code
    | .middleware => False) ∧
  ∀ response, life.answer = some (.ok response) →
    Carries L server req content given life.invoked response

theorem Life.Posting.step {life : Life G P M} {request : Request} {cont : Bool}
    (hproceed : server.middleware request = .proceed cont req) (hposts : req.Posts L content)
    (hcontent : content ≠ "") (hinv : life.Inv L server request)
    (hlife : life.Posting L server req content given) {tick : Tick}
    (hgiven : ∀ answer, tick.response = .ready answer → given answer) :
    (life.step L tick).Posting L server req content given := by
  obtain ⟨handler, invoked, answer⟩ := life
  unfold Life.step
  cases answer with
  | some answer => exact hlife
  | none =>
    obtain ⟨hhandler, -⟩ := hlife
    cases handler with
    | rpc h =>
      obtain ⟨cont', req', hproceed', -, hmachine, -⟩ := hinv
      cases hproceed.symm.trans hproceed'
      obtain ⟨hstage, hcarries⟩ := PostStage.poll hposts hcontent
        hmachine.configured.jsonrpcHandler_eq hhandler hgiven
      dsimp only [Handler.poll]
      generalize h.poll L tick = polled at hstage hcarries
      obtain ⟨h', call, progress⟩ := polled
      cases progress with
      | again => exact ⟨hstage, fun response hanswer => by cases hanswer⟩
      | pending => exact ⟨hstage, fun response hanswer => by cases hanswer⟩
      | ready answer =>
        refine ⟨hstage, fun response hanswer => ?_⟩
        cases hanswer
        exact hcarries response rfl
    | err response =>
      cases response with
      | none => exact ⟨fun res hres => (by cases hres), fun response hanswer => by cases hanswer⟩
      | some res =>
        refine ⟨fun res hres => (by cases hres), fun response hanswer hsuccess => ?_⟩
        cases hanswer
        exact absurd hsuccess (Nat.not_lt.mpr (hhandler res rfl))
    | middleware => cases hhandler

/-- **A success is the answer of the handler.** If a message that is posted to the server is
answered with a success, the JSON-RPC handler was called once, with the text of the message,
and the content of the response is the text of an answer that it gave. -/
theorem Life.posted_answer (L : Libraries) (server : ServerHandler G P M) {request : Request}
    {cont : Bool} {req : Request} (hproceed : server.middleware request = .proceed cont req)
    {content : String} (hposts : req.Posts L content) (hcontent : content ≠ "")
    (ticks : List Tick) {response : HyperResponse}
    (hanswer : (after L server request ticks).answer = some (.ok response))
    (hsuccess : response.status < 300) :
    (after L server request ticks).invoked =
        [.request content (server.jsonrpcHandler.extractor req)] ∧
      ∃ answer, (∃ tick ∈ ticks, tick.response = .ready answer) ∧
        response.body = (RpcHandler.waitingResponse L answer).content := by
  have hposting : (after L server request ticks).Inv L server request ∧
      (after L server request ticks).Posting L server req content
        fun answer => ∃ tick ∈ ticks, tick.response = .ready answer := by
    apply Runs.run_invariant_of_mem (I := fun life : Life G P M => life.Inv L server request ∧
      life.Posting L server req content fun answer => ∃ tick ∈ ticks, tick.response = .ready answer)
    · refine ⟨inv_call server request, ?_⟩
      unfold Posting ServerHandler.call
      simp only [hproceed]
      cases isHostAllowed L request server.allowedHosts with
      | true => exact ⟨.readingHeaders, fun response hanswer => by cases hanswer⟩
      | false =>
        refine ⟨fun res hres => ?_, fun response hanswer => by cases hanswer⟩
        cases hres
        decide
    · intro life tick htick hlife
      exact ⟨hlife.1.step tick, hlife.2.step hproceed hposts hcontent hlife.1
        fun answer hready => ⟨tick, htick, hready⟩⟩
  exact hposting.2.2 response hanswer hsuccess

end Posted

end JsonRpc.Http
