import JsonRpc.Client.Transport
import JsonRpc.Codec.StreamCodec
import JsonRpc.Lib.Runs
import Mathlib.Data.List.AList
import Mathlib.Data.List.Dedup

/-!
# The TCP server and its registry of peers

The TCP server registers the address of a connection when it accepts the connection. The
task of the connection writes the responses, and the messages pushed by the dispatcher,
until one of them fails or there are no more. The address leaves the registry only if the
task ends well, and then it leaves the registry for every connection from that address.
-/

namespace JsonRpc.Tcp

/-! ## The task of a connection -/

/-- What a connection answers in one iteration of its task. An item of the reader comes with
the result of the service. -/
structure Answers where
  reader : Poll (Option (Except IoError (Except Unit (Option String))))
  write : Poll (Except IoError Unit)
  flush : Poll (Except IoError Unit)

/-- The response to the result of the service. -/
def response : Except Unit (Option String) → String
  | .error () => ""
  | .ok none => ""
  | .ok (some responseData) => responseData

/-- The stream of responses answers what the reader answers. -/
def Answers.up (answers : Answers) : Poll (Option (Except IoError String)) :=
  match answers.reader with
  | .ready item => .ready (item.map (Except.map response))
  | .pending => .pending

/-- `PeerMessageQueue::poll_next`, from the answer of the responses: the receiver it leaves
behind, and the answer. -/
def pollNext (up : Poll (Option (Except IoError String))) (receiver : Option (List String)) :
    Option (List String) × Poll (Option (Except IoError String)) :=
  match up with
  | .ready (some item) => (receiver, .ready (some item))
  | .ready none =>
    match receiver with
    | none => (none, .ready none)
    | some (item :: rest) => (some rest, .ready (some (.ok item)))
    | some [] => (none, .ready none)
  | .pending =>
    match receiver with
    | none => (none, .ready none)
    | some (item :: rest) => (some rest, .ready (some (.ok item)))
    | some [] => (some [], .pending)

/-- A connection, and the future that writes to it. -/
structure Connection (A : Type) where
  peerAddr : A
  /-- The messages pushed and not yet written. The receiver goes with the task. -/
  receiver : Option (List String)
  /-- The message that the writer could not take yet. -/
  buffered : Option String
  /-- The queue has answered that there are no more messages. -/
  isDone : Bool
  /-- The result of the task. -/
  result : Option (Except IoError Unit)
  deriving DecidableEq

namespace Connection

variable {A : Type}

/-- The connection of a socket with a peer. -/
def new (peerAddr : A) : Connection A := ⟨peerAddr, some [], none, false, none⟩

/-- The task of the connection is running. -/
def isServed (conn : Connection A) : Bool := conn.result.isNone

/-- Give a message to the writer. -/
def tryStartSend (conn : Connection A) (item : String) (answers : Answers) :
    Connection A × Poll (Except IoError Unit) :=
  match answers.write with
  | .ready (.ok ()) => ({ conn with buffered := none }, .pending)
  | .ready (.error e) => (conn, .ready (.error e))
  | .pending => ({ conn with buffered := some item }, .pending)

/-- One iteration of `writer.send_all(&mut peer_message_queue)`. -/
def sendAll (conn : Connection A) (answers : Answers) : Connection A × Poll (Except IoError Unit) :=
  match conn.buffered with
  | some item => conn.tryStartSend item answers
  | none =>
    if conn.isDone then (conn, answers.flush)
    else
      match pollNext answers.up conn.receiver with
      | (receiver, .ready (some (.ok item))) =>
        { conn with receiver }.tryStartSend item answers
      | (receiver, .ready (some (.error e))) => ({ conn with receiver }, .ready (.error e))
      | (receiver, .ready none) => ({ conn with receiver, isDone := true }, answers.flush)
      | (receiver, .pending) =>
        match answers.flush with
        | .ready (.error e) => ({ conn with receiver }, .ready (.error e))
        | _ => ({ conn with receiver }, .pending)

/-- The task ends, and drops what it owns. -/
def finish (conn : Connection A) (result : Except IoError Unit) : Connection A :=
  { conn with receiver := none, result := some result }

variable (conn : Connection A) (answers : Answers)

theorem tryStartSend_frame (item : String) :
    (conn.tryStartSend item answers).1.peerAddr = conn.peerAddr ∧
      (conn.tryStartSend item answers).1.result = conn.result := by
  unfold tryStartSend
  split <;> exact ⟨rfl, rfl⟩

/-- An iteration of the task keeps the peer, and does not store the result. -/
theorem sendAll_frame :
    (conn.sendAll answers).1.peerAddr = conn.peerAddr ∧
      (conn.sendAll answers).1.result = conn.result := by
  unfold sendAll
  split
  · exact conn.tryStartSend_frame answers _
  · split
    · exact ⟨rfl, rfl⟩
    · split
      · exact tryStartSend_frame _ answers _
      · exact ⟨rfl, rfl⟩
      · exact ⟨rfl, rfl⟩
      · split <;> exact ⟨rfl, rfl⟩

end Connection

/-! ## The state of the server -/

/-- The state of the server. -/
structure State (A : Type) where
  /-- The connections accepted so far, in order. -/
  connections : List (Connection A)
  /-- The registry. A sender is given by the number of the connection with its receiver. -/
  channels : AList fun _ : A => ℕ

/-- `PushMessageError`. -/
inductive PushMessageError where
  | noSuchPeer
  | send (msg : String)
  deriving DecidableEq

/-- An event at the server. -/
inductive Label (A : Type) where
  | accept (peerAddr : A)
  /-- One iteration of the task of a connection. -/
  | poll (c : ℕ) (answers : Answers)
  | pushMessage (peerAddr : A) (msg : String)

namespace State

variable {A : Type} {σ : State A} {a b : A} {c c' : ℕ}

/-- The addresses of the connections being served. -/
def served (σ : State A) : List A := (σ.connections.filter (·.isServed)).map (·.peerAddr)

/-- The connection with a number is being served. -/
def Serves (σ : State A) (c : ℕ) (peerAddr : A) : Prop :=
  ∃ conn, σ.connections[c]? = some conn ∧ conn.isServed = true ∧ conn.peerAddr = peerAddr

theorem mem_served : a ∈ σ.served ↔ ∃ c, σ.Serves c a := by
  rw [served, List.mem_map]
  constructor
  · rintro ⟨conn, hconn, rfl⟩
    obtain ⟨hmem, hserved⟩ := List.mem_filter.mp hconn
    obtain ⟨c, hc⟩ := List.mem_iff_getElem?.mp hmem
    exact ⟨c, conn, hc, hserved, rfl⟩
  · rintro ⟨c, conn, hc, hserved, rfl⟩
    exact ⟨conn, List.mem_filter.mpr ⟨List.mem_of_getElem? hc, hserved⟩, rfl⟩

/-- The task of a connection ends with a result. -/
def Ends (σ : State A) (l : Label A) (c : ℕ) (a : A) (result : Except IoError Unit) : Prop :=
  ∃ answers conn, l = .poll c answers ∧ σ.connections[c]? = some conn ∧ conn.isServed = true ∧
    conn.peerAddr = a ∧ (conn.sendAll answers).2 = .ready result

/-- A step ends the task of at most one connection. -/
theorem Ends.unique {l : Label A} {result result' : Except IoError Unit}
    (h : σ.Ends l c a result) (h' : σ.Ends l c' b result') :
    c = c' ∧ a = b ∧ result = result' := by
  obtain ⟨answers, conn, rfl, hconn, -, rfl, hresult⟩ := h
  obtain ⟨answers', conn', hl, hconn', -, rfl, hresult'⟩ := h'
  cases hl
  cases hconn.symm.trans hconn'
  cases hresult.symm.trans hresult'
  exact ⟨rfl, rfl, rfl⟩

/-- Another connection from the address of a connection is being served. -/
def ServesOther (σ : State A) (c : ℕ) (a : A) : Prop := ∃ c', c' ≠ c ∧ σ.Serves c' a

/-- The task of a connection ends well, while another connection from the same address is
being served. -/
def Evicts (σ : State A) (l : Label A) : Prop :=
  ∃ c a, σ.Ends l c a (.ok ()) ∧ σ.ServesOther c a

/-- The task of the last connection from an address ends with an error. -/
def Lingers (σ : State A) (l : Label A) : Prop :=
  ∃ c a e, σ.Ends l c a (.error e) ∧ ¬ σ.ServesOther c a

/-- A step that ends no task breaks nothing. -/
theorem not_breaks_of_not_ends {l : Label A} (h : ∀ c b result, ¬ σ.Ends l c b result) :
    ¬ (σ.Evicts l ∨ σ.Lingers l) := by
  rintro (⟨c, a, hends, -⟩ | ⟨c, a, e, hends, -⟩)
  · exact h _ _ _ hends
  · exact h _ _ _ hends

section Ends

variable {l : Label A} {result : Except IoError Unit} (h : σ.Ends l c a result)

include h

/-- The connection whose task ends was being served. -/
theorem Ends.serves : σ.Serves c a := by
  obtain ⟨answers, conn, -, hconn, hserved, hpeer, -⟩ := h
  exact ⟨conn, hconn, hserved, hpeer⟩

/-- The connections from other addresses are not the one whose task ends. -/
theorem Ends.servesOther_iff (hne : b ≠ a) : σ.ServesOther c b ↔ b ∈ σ.served := by
  rw [mem_served]
  refine exists_congr fun c' => and_iff_right_of_imp ?_
  rintro ⟨conn, hconn, -, rfl⟩ rfl
  obtain ⟨conn', hconn', -, hpeer⟩ := h.serves
  cases hconn.symm.trans hconn'
  exact hne hpeer

/-- The end of a task breaks the mirror if it ends well with another connection from its
address, or with an error as the last one. -/
theorem Ends.breaks_iff : σ.Evicts l ∨ σ.Lingers l ↔ (result = .ok () ↔ σ.ServesOther c a) := by
  constructor
  · rintro (⟨c', a', hends, hother⟩ | ⟨c', a', e, hends, hlast⟩)
    · obtain ⟨rfl, rfl, rfl⟩ := h.unique hends
      exact iff_of_true rfl hother
    · obtain ⟨rfl, rfl, rfl⟩ := h.unique hends
      exact iff_of_false nofun hlast
  · intro hresult
    cases result with
    | error e => exact .inr ⟨c, a, e, h, hresult.not.mp nofun⟩
    | ok u => exact .inl ⟨c, a, h, hresult.mp rfl⟩

end Ends

section Set

variable {conn conn' : Connection A} {channels : AList fun _ : A => ℕ}

/-- The other connections are served as before when one of them changes. -/
theorem serves_set_iff (hconn : σ.connections[c]? = some conn) :
    Serves ⟨σ.connections.set c conn', channels⟩ c' a ↔
      (c' = c ∧ conn'.isServed = true ∧ conn'.peerAddr = a) ∨ (c' ≠ c ∧ σ.Serves c' a) := by
  unfold Serves
  dsimp only
  by_cases hc : c' = c
  · subst hc
    rw [List.getElem?_set_self (List.getElem?_eq_some_iff.mp hconn).1]
    simp
  · rw [List.getElem?_set_ne (Ne.symm hc)]
    simp [hc]

/-- A connection that changes otherwise is served as before. -/
theorem serves_set_of_frame (hconn : σ.connections[c]? = some conn)
    (hpeer : conn'.peerAddr = conn.peerAddr) (hresult : conn'.result = conn.result) :
    Serves ⟨σ.connections.set c conn', channels⟩ c' a ↔ σ.Serves c' a := by
  rw [serves_set_iff hconn]
  by_cases hc : c' = c
  · subst hc
    rw [Serves, hconn]
    simp [Connection.isServed, hpeer, hresult]
  · simp [hc]

/-- A connection whose task ends is not served any more. -/
theorem serves_set_finish (hconn : σ.connections[c]? = some conn) {result : Except IoError Unit} :
    Serves ⟨σ.connections.set c (conn'.finish result), channels⟩ c' a ↔
      c' ≠ c ∧ σ.Serves c' a := by
  rw [serves_set_iff hconn]
  simp [Connection.isServed, Connection.finish]

end Set

/-! ## The server and its dispatcher -/

variable [DecidableEq A]

def init : State A := ⟨[], ∅⟩

/-- A socket is accepted, and its peer gets a channel. -/
def accept (σ : State A) (peerAddr : A) : State A :=
  ⟨σ.connections ++ [.new peerAddr], σ.channels.insert peerAddr σ.connections.length⟩

/-- The task of a connection: an error leaves the task before its last statements. -/
def poll (σ : State A) (c : ℕ) (answers : Answers) : State A :=
  match σ.connections[c]? with
  | none => σ
  | some conn =>
    if conn.isServed then
      match conn.sendAll answers with
      | (conn, .pending) => { σ with connections := σ.connections.set c conn }
      | (conn, .ready (.error e)) =>
        { σ with connections := σ.connections.set c (conn.finish (.error e)) }
      | (conn, .ready (.ok ())) =>
        ⟨σ.connections.set c (conn.finish (.ok ())), σ.channels.erase conn.peerAddr⟩
    else σ

/-- `Dispatcher::push_message`. -/
def pushMessage (σ : State A) (peerAddr : A) (msg : String) :
    State A × Except PushMessageError Unit :=
  match σ.channels.lookup peerAddr with
  | some c =>
    match σ.connections[c]? with
    | some conn =>
      match conn.receiver with
      | some queue =>
        let conn := { conn with receiver := some (queue ++ [msg]) }
        ({ σ with connections := σ.connections.set c conn }, .ok ())
      | none => (σ, .error (.send msg))
    | none => (σ, .error (.send msg))
  | none => (σ, .error .noSuchPeer)

/-- `Dispatcher::is_connected`. -/
def isConnected (σ : State A) (peerAddr : A) : Bool := decide (peerAddr ∈ σ.channels)

/-- `Dispatcher::peer_count`. -/
def peerCount (σ : State A) : ℕ := σ.channels.keys.length

def step (σ : State A) : Label A → State A
  | .accept peerAddr => σ.accept peerAddr
  | .poll c answers => σ.poll c answers
  | .pushMessage peerAddr msg => (σ.pushMessage peerAddr msg).1

/-- The state of a new server after some events. -/
def after (ls : List (Label A)) : State A := Runs.run step init ls

/-- **Mirror.** The dispatcher tells which peers have a connection that is being served. -/
structure Mirrors (σ : State A) : Prop where
  isConnected_iff : ∀ a, σ.isConnected a = true ↔ a ∈ σ.served
  peerCount_eq : σ.peerCount = σ.served.dedup.length
  noSuchPeer : ∀ a msg, a ∉ σ.served → (σ.pushMessage a msg).2 = .error .noSuchPeer

/-- The dispatcher tells it if and only if the registry has the addresses being served. -/
theorem mirrors_iff : σ.Mirrors ↔ ∀ a, a ∈ σ.channels ↔ a ∈ σ.served := by
  constructor
  · intro h a
    rw [← h.isConnected_iff, isConnected, decide_eq_true_iff]
  · intro h
    refine ⟨fun a => ?_, ?_, fun a msg ha => ?_⟩
    · rw [isConnected, decide_eq_true_iff, h]
    · have hperm : σ.channels.keys.Perm σ.served.dedup := by
        apply (List.perm_ext_iff_of_nodup σ.channels.keys_nodup (List.nodup_dedup _)).mpr
        intro a
        rw [List.mem_dedup, ← h]
        rfl
      exact hperm.length_eq
    · have hlookup := AList.lookup_eq_none.mpr ((h a).not.mpr ha)
      rw [pushMessage, hlookup]

/-! ## What a step does to the connections and to the registry -/

/-- What a step can do: serve one more connection, leave the connections and the registry as
they are, or end the task of a connection. -/
inductive Effect (σ σ' : State A) (l : Label A) : Prop
  | accepted (a : A) (hends : ∀ c b result, ¬ σ.Ends l c b result)
      (hserved : ∀ b, b ∈ σ'.served ↔ b = a ∨ b ∈ σ.served)
      (hchannels : ∀ b, b ∈ σ'.channels ↔ b = a ∨ b ∈ σ.channels)
  | quiet (hends : ∀ c b result, ¬ σ.Ends l c b result)
      (hserves : ∀ c b, σ'.Serves c b ↔ σ.Serves c b) (hchannels : σ'.channels = σ.channels)
  | ended (c : ℕ) (a : A) (result : Except IoError Unit) (hends : σ.Ends l c a result)
      (hserves : ∀ c' b, σ'.Serves c' b ↔ c' ≠ c ∧ σ.Serves c' b)
      (hchannels : ∀ b, b ∈ σ'.channels ↔ b ∈ σ.channels ∧ (result = .ok () → b ≠ a))

theorem effect_accept (σ : State A) (a : A) : Effect σ (σ.accept a) (.accept a) := by
  refine .accepted a (fun c b result hends => ?_) (fun b => ?_) fun b => ?_
  · obtain ⟨answers, conn, hl, -⟩ := hends
    cases hl
  · simp [served, accept, Connection.isServed, Connection.new, or_comm]
  · exact AList.mem_insert _

theorem effect_pushMessage (σ : State A) (a : A) (msg : String) :
    Effect σ (σ.pushMessage a msg).1 (.pushMessage a msg) := by
  have hends : ∀ c b result, ¬ σ.Ends (.pushMessage a msg) c b result := by
    rintro c b result ⟨answers, conn, hl, -⟩
    cases hl
  unfold pushMessage
  split
  · split
    · rename_i hconn
      split
      · exact .quiet hends (fun _ _ => serves_set_of_frame hconn rfl rfl) rfl
      · exact .quiet hends (fun _ _ => .rfl) rfl
    · exact .quiet hends (fun _ _ => .rfl) rfl
  · exact .quiet hends (fun _ _ => .rfl) rfl

theorem effect_poll (σ : State A) (c : ℕ) (answers : Answers) :
    Effect σ (σ.poll c answers) (.poll c answers) := by
  unfold poll
  split
  · rename_i hnone
    refine .quiet ?_ (fun _ _ => .rfl) rfl
    rintro c' b result ⟨answers', conn, hl, hconn, -⟩
    cases hl
    cases hnone.symm.trans hconn
  · rename_i conn hconn
    split
    · rename_i hserved
      obtain ⟨hpeer, hresult⟩ := conn.sendAll_frame answers
      split
      · rename_i conn' hsend
        rw [hsend] at hpeer hresult
        refine .quiet ?_ (fun _ _ => serves_set_of_frame hconn hpeer hresult) rfl
        rintro c' b result ⟨answers', conn'', hl, hconn', -, -, hready⟩
        cases hl
        cases hconn.symm.trans hconn'
        rw [hsend] at hready
        cases hready
      · rename_i conn' e hsend
        refine .ended c conn.peerAddr (.error e)
          ⟨answers, conn, rfl, hconn, hserved, rfl, by rw [hsend]⟩
          (fun _ _ => serves_set_finish hconn) fun b => ?_
        simp
      · rename_i conn' hsend
        rw [hsend] at hpeer
        refine .ended c conn.peerAddr (.ok ())
          ⟨answers, conn, rfl, hconn, hserved, rfl, by rw [hsend]⟩
          (fun _ _ => serves_set_finish hconn) fun b => ?_
        rw [AList.mem_erase, hpeer]
        simp [and_comm]
    · rename_i hserved
      refine .quiet ?_ (fun _ _ => .rfl) rfl
      rintro c' b result ⟨answers', conn', hl, hconn', hserved', -⟩
      cases hl
      cases hconn.symm.trans hconn'
      exact hserved hserved'

theorem effect_step (σ : State A) (l : Label A) : Effect σ (σ.step l) l := by
  cases l with
  | accept a => exact effect_accept σ a
  | poll c answers => exact effect_poll σ c answers
  | pushMessage a msg => exact effect_pushMessage σ a msg

/-! ## When the registry mirrors the connections -/

/-- A step breaks the mirror if and only if it takes an address from the registry too early,
or leaves it there too long. -/
theorem Mirrors.step_iff (h : σ.Mirrors) (l : Label A) :
    (σ.step l).Mirrors ↔ ¬ (σ.Evicts l ∨ σ.Lingers l) := by
  rw [mirrors_iff] at h
  rw [mirrors_iff]
  cases effect_step σ l with
  | accepted a hends hserved hchannels =>
    refine iff_of_true (fun b => ?_) (not_breaks_of_not_ends hends)
    rw [hserved, hchannels, h]
  | quiet hends hserves hchannels =>
    refine iff_of_true (fun b => ?_) (not_breaks_of_not_ends hends)
    rw [hchannels, h, mem_served, mem_served]
    exact exists_congr fun c => (hserves c b).symm
  | ended c a result hends hserves hchannels =>
    have hother (b : A) : b ∈ (σ.step l).served ↔ σ.ServesOther c b := by
      rw [mem_served]
      exact exists_congr fun c' => hserves c' b
    have hmem : a ∈ σ.channels := (h a).mpr (mem_served.mpr ⟨c, hends.serves⟩)
    rw [hends.breaks_iff, not_iff]
    -- Only the address of the connection can be lost or left behind.
    constructor
    · intro hall
      rw [← hother, ← hall, hchannels]
      simp [hmem]
    · intro ha b
      rw [hchannels, hother]
      by_cases hb : b = a
      · subst hb
        rw [← ha]
        simp [hmem]
      · rw [hends.servesOther_iff hb, h]
        exact and_iff_left fun _ => hb

/-- **Registry of peers.** In every run, the dispatcher tells after each step which peers have
a connection that is being served, if and only if no connection ends well while another one
from its address is being served, and the last connection from an address never ends with
an error. -/
theorem mirrors_iff_not_evicts_not_lingers (ls : List (Label A)) :
    (∀ before rest, ls = before ++ rest → (after before).Mirrors) ↔
      ¬ Runs.Occurs step init (fun σ l => σ.Evicts l ∨ σ.Lingers l) ls :=
  Runs.forall_prefix_iff_not_occurs (mirrors_iff.mpr fun a => by simp [init, served])
    (fun _ l h => h.step_iff l) ls

/-- The reader of a connection yields an error or the end, and the writer takes everything. -/
def readerYields (item : Option (Except IoError (Except Unit (Option String)))) : Answers :=
  ⟨.ready item, .ready (.ok ()), .ready (.ok ())⟩

/-- A peer connects, and sends a line that is not UTF-8. -/
def undecodableLine : List (Label ℕ) :=
  [.accept 7, .poll 0 (readerYields (some (.error ⟨"invalid UTF-8"⟩)))]

/-- A peer connects again from the same port, and then its first connection ends. -/
def portReused : List (Label ℕ) := [.accept 7, .accept 7, .poll 0 (readerYields none)]

/-- A peer that is gone is counted as connected, and a push to it fails otherwise than with
`NoSuchPeer`. A peer that is there is not counted. -/
theorem not_mirrors_undecodableLine_portReused :
    ((StreamCodec.mk (.byte 10) (.byte 10)).decode [0xff, 10]).1 = .error ⟨"invalid UTF-8"⟩ ∧
      ¬ (after undecodableLine).Mirrors ∧ (after undecodableLine).peerCount = 1 ∧
      ((after undecodableLine).pushMessage 7 "ping").2 = .error (.send "ping") ∧
      ¬ (after portReused).Mirrors ∧ (after portReused).peerCount = 0 := by
  refine ⟨by decide, fun h => ?_, by decide, by decide, fun h => ?_, by decide⟩
  · have hgone : 7 ∉ (after undecodableLine).served := by decide
    exact hgone ((h.isConnected_iff 7).mp (by decide))
  · have hserved : 7 ∈ (after portReused).served := by decide
    have hconnected := (h.isConnected_iff 7).mpr hserved
    revert hconnected
    decide

end State

end JsonRpc.Tcp
