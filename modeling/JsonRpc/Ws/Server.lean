import JsonRpc.Ws.Sending

/-!
# The sessions of a WebSocket server

The factory gives every connection a session with the next number, and tells the statistics when
a session is opened and when it is dropped. The numbers wrap around, so they are distinct as long
as there are fewer than `2 ^ 64` connections. The connections share nothing else, so what holds
for one connection holds for each connection of a server.
-/

namespace JsonRpc.Ws

open ServerUtils

/-- What the statistics are told. -/
inductive StatsCall where
  | openSession (id : SessionId)
  | closeSession (id : SessionId)
  deriving DecidableEq

/-- The number of a session that is opened. -/
def StatsCall.opened : StatsCall → Option SessionId
  | openSession id => some id
  | closeSession _ => none

/-- The factory with its connections. -/
structure Server (S : Slab (Option ℕ)) (G : Globset) (P M : Type) where
  /-- The number of the last session. -/
  sessionId : SessionId
  connections : List (Connection S G P M)
  stats : List StatsCall

variable {S : Slab (Option ℕ)} {G : Globset} {L : Library} {P M : Type}

/-- What a step of a connection tells the statistics. `Session::drop` closes the session. -/
def Connection.stats (c : Connection S G P M) : Connection.Label → List StatsCall
  | .session .close =>
    if c.session.phase = .alive then [.closeSession c.handshake.context.sessionId] else []
  | _ => []

namespace Server

/-- What can happen. -/
inductive Label where
  /-- `Factory::connection_made`. -/
  | connectionMade
  | connection (i : ℕ) (label : Connection.Label)

def new : Server S G P M := ⟨0, [], []⟩

def connectionMade (s : Server S G P M) : Server S G P M :=
  let sessionId := s.sessionId + 1
  ⟨sessionId, s.connections ++ [.new S sessionId], s.stats ++ [.openSession sessionId]⟩

def step (service : Service G L P M) (s : Server S G P M) : Label → Server S G P M
  | .connectionMade => s.connectionMade
  | .connection i label =>
    match s.connections[i]? with
    | some c =>
      { s with
        connections := s.connections.set i (c.step service label)
        stats := s.stats ++ c.stats label }
    | none => s

/-- The server after a run. -/
def after (S : Slab (Option ℕ)) (service : Service G L P M) (labels : List Label) :
    Server S G P M :=
  Runs.run (step service) new labels

end Server

/-! ## A session is dropped once -/

namespace Connection

variable {service : Service G L P M} {c : Connection S G P M}

theorem phase_step (service : Service G L P M) (c : Connection S G P M) (label : Label) :
    (c.step service label).session.phase = .alive ↔
      c.session.phase = .alive ∧ label ≠ .session .close := by
  cases label with
  | request req =>
    unfold step
    dsimp only
    split <;> simp [onRequest]
  | message msg =>
    unfold step onMessage
    dsimp only
    split
    · split
      · simp
      · split <;> simp [spawn, Session.phase_step]
    · simp
  | pollTask task answers =>
    unfold step pollTask
    dsimp only
    split
    · split
      · split <;> simp [sessionStep, Session.phase_step]
      · simp
    · simp
  | session l =>
    unfold step
    dsimp only
    split
    · simp [sessionStep, Session.phase_step]
    · rename_i hown
      have hl : l ≠ .close := by
        rintro rfl
        exact hown rfl
      simp [hl]
  | _ => simp [step, modifySender, Connection.send]

/-- The number of a session does not change. -/
theorem sessionId_after (S : Slab (Option ℕ)) (service : Service G L P M) (sessionId : SessionId)
    (labels : List Label) :
    (after S service sessionId labels).handshake.context.sessionId = sessionId := by
  refine Runs.run_invariant
    (I := fun c : Connection S G P M => c.handshake.context.sessionId = sessionId) rfl ?_ labels
  intro c label h
  cases label with
  | request req =>
    unfold step
    dsimp only
    split
    · unfold onRequest Handshake.onRequest
      dsimp only
      split <;> exact h
    · exact h
  | message msg =>
    unfold step onMessage
    dsimp only
    split
    · split
      · exact h
      · split <;> exact h
    · exact h
  | pollTask task answers =>
    unfold step pollTask
    dsimp only
    split
    · split
      · split <;> exact h
      · exact h
    · exact h
  | session l =>
    unfold step
    dsimp only
    split <;> exact h
  | _ => exact h

/-- The statistics are told that a session is closed when it is dropped. -/
theorem stats_eq (service : Service G L P M) (c : Connection S G P M) (label : Label) :
    c.stats label = if c.session.phase = .alive ∧ (c.step service label).session.phase ≠ .alive then
      [.closeSession c.handshake.context.sessionId] else [] := by
  have hphase := phase_step service c label
  by_cases hlabel : label = .session .close
  · subst hlabel
    by_cases halive : c.session.phase = .alive <;> simp [stats, halive, hphase]
  · have hnil : c.stats label = [] := by
      unfold stats
      split
      · exact absurd rfl hlabel
      · rfl
    rw [hnil, if_neg]
    rintro ⟨halive, hnot⟩
    exact hnot (hphase.mpr ⟨halive, hlabel⟩)

end Connection

/-! ## Every run -/

/-- The number of the session of a connection. -/
def sessionNumber (i : ℕ) : SessionId := UInt64.ofNat (i + 1)

/-- The numbers are distinct until they wrap around. -/
theorem nodup_sessionNumbers {n : ℕ} (hn : n < 2 ^ 64) :
    ((List.range n).map sessionNumber).Nodup := by
  refine List.Nodup.map_on (fun i hi j hj hij => ?_) List.nodup_range
  have hi : i + 1 < 2 ^ 64 := by
    have := List.mem_range.mp hi
    omega
  have hj : j + 1 < 2 ^ 64 := by
    have := List.mem_range.mp hj
    omega
  have hnat := congrArg UInt64.toNat hij
  rw [sessionNumber, sessionNumber, UInt64.toNat_ofNat_of_lt' hi,
    UInt64.toNat_ofNat_of_lt' hj] at hnat
  omega

/-- The session of a connection has a number and is dropped. -/
def Connection.isDropped (id : SessionId) (c : Connection S G P M) : Bool :=
  c.handshake.context.sessionId = id ∧ c.session.phase ≠ .alive

/-- The statistics are told of a session that a step drops. -/
theorem Connection.count_stats (service : Service G L P M) (c : Connection S G P M)
    (label : Connection.Label)
    (hid : (c.step service label).handshake.context.sessionId = c.handshake.context.sessionId)
    (id : SessionId) :
    (c.stats label).count (.closeSession id) + (if c.isDropped id then 1 else 0) =
      if (c.step service label).isDropped id then 1 else 0 := by
  have hphase := phase_step service c label
  rw [stats_eq service c label]
  unfold isDropped
  rw [hid]
  by_cases halive : c.session.phase = .alive
  · by_cases halive' : (c.step service label).session.phase = .alive
    · simp [halive, halive']
    · by_cases hsession : c.handshake.context.sessionId = id <;>
        simp [halive, halive', hsession]
  · have halive' : (c.step service label).session.phase ≠ .alive := fun h' =>
      halive (hphase.mp h').1
    simp [halive, halive']

namespace Server

section Steps

variable {service : Service G L P M} {s : Server S G P M}

structure Inv (service : Service G L P M) (s : Server S G P M) : Prop where
  sessionId_eq : s.sessionId = UInt64.ofNat s.connections.length
  opened_eq : s.stats.filterMap StatsCall.opened =
    (List.range s.connections.length).map sessionNumber
  /-- Every connection is like the only one. -/
  run : ∀ i c, s.connections[i]? = some c →
    ∃ labels, c = Connection.after S service (sessionNumber i) labels
  /-- The sessions that are closed are those that are dropped. -/
  closed_eq : ∀ id, s.stats.count (.closeSession id) =
    s.connections.countP (Connection.isDropped id)
  /-- A session is opened before it is closed. -/
  ordered : ∀ before rest id, s.stats = before ++ .closeSession id :: rest →
    .openSession id ∈ before

theorem inv_new : (new : Server S G P M).Inv service where
  sessionId_eq := rfl
  opened_eq := rfl
  run _ _ h := by cases h
  closed_eq _ := rfl
  ordered before _ _ h := by cases before <;> cases h

theorem Inv.sessionId_of_getElem? (h : s.Inv service) {i : ℕ} {c : Connection S G P M}
    (hc : s.connections[i]? = some c) : c.handshake.context.sessionId = sessionNumber i := by
  obtain ⟨labels, rfl⟩ := h.run i c hc
  exact Connection.sessionId_after S service (sessionNumber i) labels

theorem Inv.mem_opened (h : s.Inv service) {i : ℕ} (hi : i < s.connections.length) :
    .openSession (sessionNumber i) ∈ s.stats := by
  have hmem : sessionNumber i ∈ s.stats.filterMap StatsCall.opened := by
    rw [h.opened_eq]
    exact List.mem_map_of_mem (List.mem_range.mpr hi)
  obtain ⟨call, hcall, hopened⟩ := List.mem_filterMap.mp hmem
  cases call with
  | openSession id =>
    cases hopened
    exact hcall
  | closeSession id => cases hopened

/-- Calls at the end close sessions that are open. -/
theorem ordered_append {stats calls before rest : List StatsCall} {id : SessionId}
    (hordered : ∀ before rest id, stats = before ++ .closeSession id :: rest →
      .openSession id ∈ before)
    (hstats : stats ++ calls = before ++ .closeSession id :: rest)
    (hcalls : .closeSession id ∈ calls → .openSession id ∈ stats) :
    .openSession id ∈ before := by
  rcases List.append_eq_append_iff.mp hstats with ⟨more, rfl, hmore⟩ | ⟨more, rfl, hmore⟩
  · refine List.mem_append_left _ (hcalls ?_)
    rw [hmore]
    simp
  · cases more with
    | nil =>
      have hmem : .closeSession id ∈ calls := by
        rw [← List.nil_append calls, ← hmore]
        exact List.mem_cons_self
      simpa using hcalls hmem
    | cons call more =>
      injection hmore with hcall hrest
      subst hcall
      exact hordered before more id rfl

theorem Inv.connectionMade (h : s.Inv service) : s.connectionMade.Inv service := by
  have hnumber : s.sessionId + 1 = sessionNumber s.connections.length := by
    rw [h.sessionId_eq, sessionNumber, UInt64.ofNat_add]
    rfl
  constructor
  · change s.sessionId + 1 = UInt64.ofNat (s.connections ++ [_]).length
    rw [hnumber, List.length_append]
    rfl
  · change (s.stats ++ [StatsCall.openSession (s.sessionId + 1)]).filterMap StatsCall.opened =
      (List.range (s.connections ++ [_]).length).map sessionNumber
    rw [hnumber, List.filterMap_append, h.opened_eq, List.length_append, List.length_singleton,
      List.range_succ, List.map_append]
    rfl
  · intro i c hc
    change (s.connections ++ [.new S (s.sessionId + 1)])[i]? = some c at hc
    rw [List.getElem?_append] at hc
    split at hc
    · exact h.run i c hc
    · rename_i hi
      obtain ⟨hlt, heq⟩ := List.getElem?_eq_some_iff.mp hc
      have hlt : i - s.connections.length < 1 := hlt
      have hid : i = s.connections.length := by omega
      subst hid
      have hnew : c = .new S (s.sessionId + 1) := by simpa using heq.symm
      exact ⟨[], by rw [hnew, hnumber]; rfl⟩
  · intro id
    change (s.stats ++ [StatsCall.openSession (s.sessionId + 1)]).count (.closeSession id) =
      (s.connections ++ [Connection.new S (s.sessionId + 1)]).countP (Connection.isDropped id)
    have halive : (Connection.new S (s.sessionId + 1) : Connection S G P M).isDropped id =
        false := by simp [Connection.isDropped, Connection.new, Session.new]
    rw [List.count_append, List.countP_append, h.closed_eq, List.countP_singleton, halive]
    simp
  · intro before rest id hstats
    refine ordered_append h.ordered hstats fun hmem => ?_
    simp at hmem

theorem Inv.connection (h : s.Inv service) {i : ℕ} {c : Connection S G P M}
    (hc : s.connections[i]? = some c) (label : Connection.Label) :
    Inv service
      { s with
        connections := s.connections.set i (c.step service label)
        stats := s.stats ++ c.stats label } := by
  obtain ⟨labels, hrun⟩ := h.run i c hc
  obtain ⟨hlt, hget⟩ := List.getElem?_eq_some_iff.mp hc
  have hnext : c.step service label =
      Connection.after S service (sessionNumber i) (labels ++ [label]) := by
    rw [Connection.after, Runs.run_concat, hrun]
    rfl
  have hid := h.sessionId_of_getElem? hc
  have hid' : (c.step service label).handshake.context.sessionId = sessionNumber i := by
    rw [hnext]
    exact Connection.sessionId_after S service (sessionNumber i) _
  have hstats := Connection.stats_eq service c label
  rw [hid] at hstats
  constructor
  · change s.sessionId = UInt64.ofNat (s.connections.set i _).length
    rw [List.length_set]
    exact h.sessionId_eq
  · have hnone : (c.stats label).filterMap StatsCall.opened = [] := by
      rw [hstats]
      split <;> rfl
    change (s.stats ++ c.stats label).filterMap _ =
      (List.range (s.connections.set i _).length).map sessionNumber
    rw [List.filterMap_append, hnone, List.append_nil, List.length_set]
    exact h.opened_eq
  · intro j c' hc'
    change (s.connections.set i _)[j]? = some c' at hc'
    rw [List.getElem?_set] at hc'
    split at hc'
    · rename_i hij
      subst hij
      cases hc'
      exact ⟨_, hnext⟩
    · exact h.run j c' hc'
  · intro id
    change (s.stats ++ c.stats label).count _ = (s.connections.set i _).countP _
    have hcount := Connection.count_stats service c label (hid'.trans hid.symm) id
    have hpos : c.isDropped id = true → 0 < s.connections.countP (Connection.isDropped id) :=
      fun hdropped => List.countP_pos_iff.mpr ⟨c, List.mem_of_getElem? hc, hdropped⟩
    rw [List.count_append, h.closed_eq, List.countP_set hlt, hget]
    split at hcount
    · rename_i hdropped
      have := hpos hdropped
      rw [if_pos hdropped]
      omega
    · rename_i hdropped
      rw [if_neg hdropped]
      omega
  · intro before rest id hsplit
    refine ordered_append h.ordered hsplit fun hmem => ?_
    rw [hstats] at hmem
    split at hmem
    · cases List.mem_singleton.mp hmem
      exact h.mem_opened hlt
    · cases hmem

theorem Inv.step (h : s.Inv service) (label : Label) : (s.step service label).Inv service := by
  cases label with
  | connectionMade => exact h.connectionMade
  | connection i label =>
    unfold Server.step
    dsimp only
    split
    · rename_i c hc
      exact h.connection hc label
    · exact h

/-- A session whose number no other one has is closed once, when it is dropped. -/
theorem Inv.closed_once (h : s.Inv service) (hcount : s.connections.length < 2 ^ 64) {i : ℕ}
    {c : Connection S G P M} (hc : s.connections[i]? = some c) :
    s.stats.count (.closeSession (sessionNumber i)) =
      if c.session.phase = .alive then 0 else 1 := by
  have hids : s.connections.map (fun c => c.handshake.context.sessionId) =
      (List.range s.connections.length).map sessionNumber := by
    apply List.ext_getElem?
    intro j
    rw [List.getElem?_map, List.getElem?_map]
    cases hj : s.connections[j]? with
    | none =>
      rw [List.getElem?_eq_none (by simpa using List.getElem?_eq_none_iff.mp hj)]
      rfl
    | some c' =>
      have hlt := (List.getElem?_eq_some_iff.mp hj).1
      rw [List.getElem?_range hlt, Option.map_some, Option.map_some, h.sessionId_of_getElem? hj]
  have hnodup := nodup_sessionNumbers hcount
  rw [← hids] at hnodup
  obtain ⟨hlt, hget⟩ := List.getElem?_eq_some_iff.mp hc
  have hsplit : s.connections = s.connections.take i ++ c :: s.connections.drop (i + 1) := by
    rw [← hget, ← List.drop_eq_getElem_cons hlt, List.take_append_drop]
  have hid := h.sessionId_of_getElem? hc
  -- No other connection has the number.
  have hother : ∀ c' ∈ s.connections.take i ++ s.connections.drop (i + 1),
      c'.isDropped (sessionNumber i) = false := by
    intro c' hmem
    rw [hsplit, List.map_append, List.map_cons] at hnodup
    have hne := List.nodup_middle.mp hnodup |>.notMem
    rw [← List.map_append] at hne
    have hid' : c'.handshake.context.sessionId ≠ sessionNumber i := fun heq =>
      hne (hid ▸ heq ▸ List.mem_map_of_mem hmem)
    simp [Connection.isDropped, hid']
  rw [h.closed_eq, hsplit, List.countP_append, List.countP_cons, ← Nat.add_assoc,
    ← List.countP_append, List.countP_eq_zero.mpr (by simpa using hother)]
  simp [Connection.isDropped, hid]

end Steps

/-- **Sessions.** In every run of a server, the sessions are numbered one after another, and the
statistics are told about each of them when it is opened. Every connection behaves like the only
one. A number is closed after it was opened, and as often as sessions with it are dropped. With
fewer than `2 ^ 64` connections the numbers are distinct, and so a session is closed once, exactly
when it is dropped. -/
theorem sessions_counted (S : Slab (Option ℕ)) (service : Service G L P M) (labels : List Label) :
    let s := after S service labels
    s.stats.filterMap StatsCall.opened = (List.range s.connections.length).map sessionNumber ∧
      (∀ before rest id, s.stats = before ++ .closeSession id :: rest →
        .openSession id ∈ before) ∧
      (∀ i c, s.connections[i]? = some c →
        ∃ labels, c = Connection.after S service (sessionNumber i) labels) ∧
      (∀ id, s.stats.count (.closeSession id) =
        s.connections.countP (Connection.isDropped id)) ∧
      (s.connections.length < 2 ^ 64 →
        ((List.range s.connections.length).map sessionNumber).Nodup ∧
          ∀ i c, s.connections[i]? = some c →
            s.stats.count (.closeSession (sessionNumber i)) =
              if c.session.phase = .alive then 0 else 1) := by
  intro s
  have h : s.Inv service := Runs.run_invariant inv_new (fun _ label h => h.step label) labels
  exact ⟨h.opened_eq, h.ordered, h.run, h.closed_eq, fun hcount =>
    ⟨nodup_sessionNumbers hcount, fun i c hc => h.closed_once hcount hc⟩⟩

/-- Two connections are made, and the first one is closed. -/
def firstClosed : List Label := [.connectionMade, .connectionMade, .connection 0 (.session .close)]

theorem sessions_counted_firstClosed :
    let service := openService (.ofTable []) (MetaIoHandler.withCompatibility (P := Unit) .both)
    let s := after (.vec _) service firstClosed
    s.stats = [.openSession 1, .openSession 2, .closeSession 1] ∧
      s.stats.count (.closeSession 1) = 1 := by
  have h := sessions_counted (.vec _)
    (openService (.ofTable []) (MetaIoHandler.withCompatibility (P := Unit) .both)) firstClosed
  have hclosed := (h.2.2.2.2 (by decide)).2 0 _ rfl
  exact ⟨by decide, hclosed⟩

end Server

end JsonRpc.Ws
