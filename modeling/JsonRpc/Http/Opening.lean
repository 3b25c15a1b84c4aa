import JsonRpc.Http.Gate
import JsonRpc.Http.RequestedHeaders

/-!
# The access gate opens

A permitted request is not turned away: if the JSON-RPC handler is not dropped meanwhile,
then it is called after as many iterations as the body has events, and a few more. So the
gate is not shut to everything.
-/

namespace JsonRpc.Http

open Text ServerUtils

variable {G : Globset} {P M : Type} {L : Libraries} {server : ServerHandler G P M} {cont : Bool}
  {req : Request} {h : RpcHandler G P M} {invoked : List (Invoked M)} {i : Invoked M}

/-- The machine is about to make a call, within a number of iterations. -/
inductive Heads (L : Libraries) (server : ServerHandler G P M) (cont : Bool) (req : Request)
    (i : Invoked M) : ℕ → RpcHandlerState G M → Prop
  | readingHeaders :
      Heads L server cont req i (req.body.length + 2) (.readingHeaders req server.corsDomains
        server.corsAllowedHeaders cont server.keepAlive)
  | readingBody {body : List BodyEvent} {acc : Bytes} (hpost : req.method = .post)
      (hjson : hasJson L req = true)
      (hbody : (assemble body).map (acc ++ ·) = assemble req.body) :
      Heads L server cont req i (body.length + 1) (.readingBody body
        (if server.restApi ≠ .disabled then some req.path else none) acc
        (server.jsonrpcHandler.extractor req))
  | processRest {uri : Text} {metadata : M} (hcall : i = .call (restCall L.json uri) metadata) :
      Heads L server cont req i 0 (.processRest uri metadata)
  | processHealth {method : String} {metadata : M}
      (hcall : i = .call (healthCall method) metadata) :
      Heads L server cont req i 0 (.processHealth method metadata)

/-- A permitted request is not turned away when its headers are read. -/
theorem heads_readHeaders (hconf : Configured server h) (hread : HeadersRead L server req h)
    (hcors : CorsPasses L server cont req) (hentry : Entry L server req i) :
    ∃ m < req.body.length + 2,
      Heads L server cont req i m (h.readHeaders L req cont true) := by
  have horigin : (h.corsAllowOrigin.isInvalid && !cont) = false := by
    rw [hread.corsAllowOrigin_eq]
    rcases hcors with rfl | ⟨horigin, -⟩
    · simp
    · simp [horigin]
  have hheaders : (h.corsAllowHeaders.isInvalid && !cont) = false := by
    rw [hread.corsAllowHeaders_eq]
    rcases hcors with rfl | ⟨-, hheaders⟩
    · simp
    · simp [hheaders]
  have hbody (hpost : req.method = .post) (hjson : hasJson L req = true) :
      h.readHeaders L req cont true = .readingBody req.body
        (if server.restApi ≠ .disabled then some req.path else none) []
        (server.jsonrpcHandler.extractor req) := by
    simp [RpcHandler.readHeaders, horigin, hheaders, hpost, hjson, hconf.restApi_eq,
      hconf.jsonrpcHandler_eq]
  cases hentry with
  | message hpost hjson =>
    rw [hbody hpost hjson]
    exact ⟨_, Nat.lt_succ_self _, .readingBody hpost hjson (by simp)⟩
  | emptyMessage hpost hjson =>
    rw [hbody hpost hjson]
    exact ⟨_, Nat.lt_succ_self _, .readingBody hpost hjson (by simp)⟩
  | path hpost hjson hrest hparts =>
    refine ⟨0, Nat.succ_pos _, ?_⟩
    have hstate : h.readHeaders L req cont true =
        .processRest req.path (server.jsonrpcHandler.extractor req) := by
      simp [RpcHandler.readHeaders, horigin, hheaders, hpost, hjson, hconf.restApi_eq, hrest,
        hconf.jsonrpcHandler_eq, hparts]
    rw [hstate]
    exact .processRest rfl
  | @health method hget hpath =>
    refine ⟨0, Nat.succ_pos _, ?_⟩
    have hstate : h.readHeaders L req cont true =
        .processHealth method (server.jsonrpcHandler.extractor req) := by
      simp [RpcHandler.readHeaders, horigin, hheaders, hget, hconf.healthApi_eq, hpath,
        hconf.jsonrpcHandler_eq]
    rw [hstate]
    exact .processHealth rfl

/-- What a permitted JSON message calls, at the end of its body. -/
theorem Entry.processBodyEnd (hentry : Entry L server req i) (cont : Bool)
    (hpost : req.method = .post) (hjson : hasJson L req = true) :
    ∃ bytes, assemble req.body = some bytes ∧
      bytes.length ≤ server.maxRequestBodySize.toNat ∧
      ∃ next, RpcHandler.processBodyEnd (G := G)
          (if server.restApi ≠ .disabled then some req.path else none)
          (server.jsonrpcHandler.extractor req) true bytes = .ok next ∧
        (next.invoked = some i ∨
          next.invoked = none ∧ Heads L server cont req i 0 next.state) := by
  cases hentry with
  | @message bytes content _ _ hbody hsize hutf8 hrest =>
    refine ⟨bytes, hbody, hsize, ⟨.waiting, true, some _⟩, ?_, .inl rfl⟩
    have hmessage : ∀ uri, (if server.restApi ≠ .disabled then some req.path else none) = some uri →
        bytes.isEmpty = true → False := by
      intro uri huri hempty
      rw [if_neg (not_not.mpr (hrest (List.isEmpty_iff.mp hempty)))] at huri
      cases huri
    unfold RpcHandler.processBodyEnd
    split
    · rename_i uri huri hempty
      exact (hmessage uri huri hempty).elim
    · rw [hutf8]
      rfl
  | emptyMessage _ _ hbody hrest =>
    refine ⟨[], hbody, Nat.zero_le _, ⟨.processRest req.path _, true, none⟩, ?_,
      .inr ⟨rfl, .processRest rfl⟩⟩
    rw [if_pos hrest]
    rfl
  | path _ hjson' => cases hjson.symm.trans hjson'
  | health hget => cases hpost.symm.trans hget

/-- A permitted request is not turned away while its body is read. -/
theorem heads_processBody (hconf : Configured server h) (hentry : Entry L server req i)
    (hpost : req.method = .post) (hjson : hasJson L req = true) {body : List BodyEvent}
    {acc : Bytes} (hbody : (assemble body).map (acc ++ ·) = assemble req.body) :
    ∃ next, h.processBody (if server.restApi ≠ .disabled then some req.path else none)
        (server.jsonrpcHandler.extractor req) true body acc = .ok next ∧
      (next.invoked = some i ∨ next.invoked = none ∧
        ∃ m < body.length + 1, Heads L server cont req i m next.state) := by
  obtain ⟨bytes, hbytes, hsize, last, hlast, hcall⟩ :=
    hentry.processBodyEnd cont hpost hjson
  rw [hbytes] at hbody
  induction body generalizing acc with
  | nil =>
    obtain rfl : acc = bytes := by simpa [assemble] using hbody
    refine ⟨last, hlast, ?_⟩
    rcases hcall with hsome | ⟨hnone, hheads⟩
    · exact .inl hsome
    · exact .inr ⟨hnone, 0, Nat.succ_pos _, hheads⟩
  | cons event body ih =>
    cases event with
    | chunk data =>
      rw [assemble, Option.map_map] at hbody
      obtain ⟨rest, hrest, heq⟩ := Option.map_eq_some_iff.mp hbody
      have hlength := congrArg List.length heq
      simp only [Function.comp_apply, List.length_append] at hlength
      have hfits : acc.length + data.length ≤ h.maxRequestBodySize.toNat := by
        rw [hconf.maxRequestBodySize_eq]
        omega
      rw [RpcHandler.processBody, exceeds_eq_false _ hfits]
      have hbody' : (assemble body).map (acc ++ data ++ ·) = some bytes := by
        rw [hrest, Option.map_some, List.append_assoc]
        exact congrArg some heq
      obtain ⟨next, hnext, hdone⟩ := ih hbody'
      refine ⟨next, hnext, ?_⟩
      rcases hdone with hsome | ⟨hnone, m, hm, hheads⟩
      · exact .inl hsome
      · exact .inr ⟨hnone, m, Nat.lt_succ_of_lt hm, hheads⟩
    | pending =>
      refine ⟨_, rfl, .inr ⟨rfl, body.length + 1, Nat.lt_succ_self _, .readingBody hpost hjson ?_⟩⟩
      rw [hbytes]
      exact hbody
    | error e => cases hbody

/-- The end of an iteration keeps a machine that is about to make a call. -/
theorem Heads.finish {next : RpcPollState G M} {n : ℕ}
    (hheads : Heads L server cont req i n next.state) :
    (h.finish next).1.state = next.state ∧ ∀ answer, (h.finish next).2.2 ≠ .ready answer := by
  obtain ⟨state, isReady, invoked⟩ := next
  cases hheads <;> cases isReady <;> exact ⟨rfl, nofun⟩

/-- **Step towards the call.** An iteration while the JSON-RPC handler is there makes the call, or
is followed by fewer iterations. -/
theorem Heads.poll (hconf : Configured server h)
    (hcors : CorsPasses L server cont req) (hentry : Entry L server req i) {n : ℕ}
    (hheads : Heads L server cont req i n h.state) {tick : Tick} (halive : tick.isAlive = true) :
    (h.poll L tick).2.1 = some i ∨
      (∀ answer, (h.poll L tick).2.2 ≠ .ready answer) ∧
        ∃ m < n, Heads L server cont req i m (h.poll L tick).1.state := by
  have hgoes {h : RpcHandler G P M} {next : RpcPollState G M} {m n : ℕ} (hm : m < n)
      (hheads : Heads L server cont req i m next.state) :
      (∀ answer, (h.finish next).2.2 ≠ .ready answer) ∧
        ∃ m < n, Heads L server cont req i m (h.finish next).1.state := by
    obtain ⟨hstate, hready⟩ := hheads.finish (h := h)
    exact ⟨hready, m, hm, hstate ▸ hheads⟩
  have hcalls {next : RpcPollState G M} (hinvoked : next.invoked = some i) :
      (h.finish next).2.1 = some i := by
    unfold RpcHandler.finish
    split <;> exact hinvoked
  unfold RpcHandler.poll
  rw [halive]
  generalize hstate : h.state = state at hheads
  cases hheads with
  | readingHeaders =>
    dsimp only
    obtain ⟨m, hm, hheads⟩ := heads_readHeaders (L := L) (h := { h with
      corsAllowOrigin := corsAllowOrigin L req server.corsDomains
      corsAllowHeaders := corsAllowHeaders L req server.corsAllowedHeaders
      keepAlive := keepAlive L req server.keepAlive
      isOptions := decide (req.method = Method.options) })
      { hconf with } ⟨rfl, rfl⟩ hcors hentry
    exact .inr (hgoes hm hheads)
  | readingBody hpost hjson hbody =>
    obtain ⟨next, hnext, hdone⟩ := heads_processBody hconf hentry hpost hjson hbody
    dsimp only
    rw [hnext]
    rcases hdone with hinvoked | ⟨-, m, hm, hheads⟩
    · exact .inl (hcalls hinvoked)
    · exact .inr (hgoes hm hheads)
  | processRest hcall => exact .inl (hcall ▸ rfl)
  | processHealth hcall => exact .inl (hcall ▸ rfl)

/-- Calls that were made stay. -/
theorem Life.mem_invoked_step {life : Life G P M} (hi : i ∈ life.invoked) (tick : Tick) :
    i ∈ (life.step L tick).invoked := by
  unfold Life.step
  split
  · exact hi
  · split
    · exact List.mem_append_left _ hi
    · exact List.mem_append_left _ hi

theorem Life.mem_invoked_run {life : Life G P M} (hi : i ∈ life.invoked) (ticks : List Tick) :
    i ∈ (Runs.run (step L) life ticks).invoked :=
  Runs.run_invariant (I := fun life : Life G P M => i ∈ life.invoked) hi
    (fun _ tick hi => mem_invoked_step hi tick) ticks

/-- A machine that is about to make a call makes it. -/
theorem Heads.mem_invoked_run (hcors : CorsPasses L server cont req)
    (hentry : Entry L server req i) {ticks : List Tick} (halive : ∀ t ∈ ticks, t.isAlive = true)
    {n : ℕ} (hn : n < ticks.length) (hm : Machine L server cont req h invoked)
    (hheads : Heads L server cont req i n h.state) :
    i ∈ (Runs.run (Life.step L) ⟨.rpc h, invoked, none⟩ ticks).invoked := by
  induction ticks generalizing n h invoked with
  | nil => cases hn
  | cons tick ticks ih =>
    obtain ⟨htick, halive⟩ := List.forall_mem_cons.mp halive
    have hm' := (hm.poll tick).1
    have hpoll := hheads.poll hm.configured hcors hentry htick
    rw [Runs.run, List.foldl_cons, ← Runs.run, Life.step]
    dsimp only [Handler.poll]
    generalize h.poll L tick = polled at hm' hpoll
    obtain ⟨h', invoked', progress⟩ := polled
    rcases hpoll with hcall | ⟨hready, m, hmn, hheads'⟩
    · have hi : i ∈ invoked ++ invoked'.toList := by
        dsimp only at hcall
        simp [hcall]
      cases progress with
      | again => exact Life.mem_invoked_run hi ticks
      | pending => exact Life.mem_invoked_run hi ticks
      | ready answer => exact Life.mem_invoked_run hi ticks
    · have hm'' : m < ticks.length := by
        rw [List.length_cons] at hn
        omega
      cases progress with
      | again => exact ih halive hm'' hm' hheads'
      | pending => exact ih halive hm'' hm' hheads'
      | ready answer => exact absurd rfl (hready answer)

/-- **The gate opens.** If the JSON-RPC handler is there all the time, then after as many
iterations as the body has events, and three more, a call was made exactly if it is permitted. -/
theorem Life.invoked_eq_singleton_iff {request : Request}
    (hproceed : server.middleware request = .proceed cont req) {ticks : List Tick}
    (halive : ∀ t ∈ ticks, t.isAlive = true) (hlength : req.body.length + 3 ≤ ticks.length)
    (i : Invoked M) :
    (after L server request ticks).invoked = [i] ↔ Permitted L server request i := by
  have hsound := (inv_after L server request ticks).sound
  constructor
  · intro hinvoked
    apply hsound.2
    rw [hinvoked]
    exact List.mem_singleton_self i
  · intro hi
    obtain ⟨cont', req', hproceed', hhost, hcors, hentry⟩ := hi
    cases hproceed.symm.trans hproceed'
    have hcall : server.call L request = .rpc (server.start cont req) := by
      simp [ServerHandler.call, hproceed, hhost]
    have hmem : i ∈ (after L server request ticks).invoked := by
      rw [after, hcall]
      exact Heads.mem_invoked_run hcors hentry halive hlength
        ⟨⟨rfl, rfl, rfl, rfl⟩, .readingHeaders, nofun⟩ .readingHeaders
    obtain ⟨i', hinvoked⟩ := List.length_eq_one_iff.mp
      (Nat.le_antisymm hsound.1 (List.length_pos_of_mem hmem))
    rw [hinvoked] at hmem ⊢
    rw [List.mem_singleton.mp hmem]

/-- A server that takes every host and every origin. -/
def openServer : ServerHandler literalGlobset Unit Unit where
  jsonrpcHandler := ⟨.withCompatibility .both, fun _ => ()⟩
  allowedHosts := none
  corsDomains := none
  corsMaxAge := none
  corsAllowedHeaders := .any
  middleware := .proceed false
  restApi := .disabled
  healthApi := none
  maxRequestBodySize := 2
  keepAlive := true

/-- A message whose two bytes come one after the other. -/
def slowMessage : Request where
  method := .post
  path := ['/']
  headers := [("content-type".toList, headerBytes "application/json".toList)]
  body := [.chunk [0x5B], .pending, .chunk [0x5D]]

/-- The message reaches the handler. -/
theorem Life.invoked_eq_singleton_iff_slowMessage :
    (after HeaderLibraries.visible.toLibraries openServer slowMessage
      (List.replicate 6 ⟨true, .pending, .pending⟩)).invoked = [.request "[]" ()] := by
  apply (invoked_eq_singleton_iff rfl (by simp) (by decide) _).mpr
  have hutf8 : fromUtf8 [0x5B, 0x5D] = some "[]" := fromUtf8_eq_some.mpr rfl
  exact ⟨false, slowMessage, rfl, rfl, .inr ⟨rfl, rfl⟩,
    .message rfl (by decide) rfl (by decide) hutf8 (by simp)⟩

end JsonRpc.Http
