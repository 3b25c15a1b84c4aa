import JsonRpc.Lib.Runs
import JsonRpc.Lib.Slab
import Mathlib.Data.List.Basic

/-!
# Sessions of WebSocket connections

Every message of a connection starts a task, which waits for the response and sends it. The
task also waits for the end of the session: it holds a receiver, and the session keeps the
sender in a slab. The task removes the sender when it is dropped, in whatever order the tasks
and the session go away. The threads of the tasks, of the session and of other holders of the
connection interleave between any two accesses to what they share.
-/

namespace JsonRpc.Ws

/-- Where a task is. -/
inductive TaskPhase where
  /-- There is no response yet. -/
  | waiting
  /-- The session was found active. -/
  | checking (response : String)
  /-- `Sender::check_active` has succeeded. -/
  | writing (response : String)
  /-- `Sender::send` has returned `ConnectionClosed`. -/
  | reporting
  | finished
  | dropped
  deriving DecidableEq

/-- The task of a message, with its `LivenessPoll`. -/
structure Task where
  slabHandle : ℕ
  phase : TaskPhase
  /-- The signals that were sent to the receiver. -/
  signals : ℕ
  deriving DecidableEq

namespace Task

/-- The `LivenessPoll` exists. -/
def isLive (t : Task) : Bool := t.phase ≠ .dropped

/-- The task does nothing any more. -/
def isSettled (t : Task) : Bool := t.phase = .finished || t.phase = .dropped

/-- The response is there, and the task looks whether the session is active. -/
def complete (active : Bool) (response : Option String) (t : Task) : Task :=
  match t.phase, response with
  | .waiting, some result => { t with phase := if active then .checking result else .finished }
  | .waiting, none => { t with phase := .finished }
  | _, _ => t

def checkActive (active : Bool) (t : Task) : Task :=
  match t.phase with
  | .checking result => { t with phase := if active then .writing result else .reporting }
  | _ => t

/-- The message is handed to the connection. -/
def send (t : Task) : Task :=
  match t.phase with
  | .writing _ => { t with phase := .finished }
  | _ => t

/-- The messages that the task hands to the connection. -/
def sends (t : Task) : List String :=
  match t.phase with
  | .writing result => [result]
  | _ => []

/-- The task has stored that the session is not active. -/
def storeInactive (t : Task) : Task :=
  match t.phase with
  | .reporting => { t with phase := .finished }
  | _ => t

/-- `LivenessPoll::poll`. The task ends when it is ready. -/
def pollLiveness (t : Task) : Task :=
  match t.phase with
  | .waiting => if 0 < t.signals then { t with phase := .finished } else t
  | _ => t

def drop (t : Task) : Task := { t with phase := .dropped }

def signal (n : ℕ) (t : Task) : Task := { t with signals := t.signals + n }

end Task

/-- Where the session is. -/
inductive SessionPhase where
  | alive
  /-- `Session::drop` has stored that the session is not active. -/
  | closing
  /-- `Session::drop` has signalled the tasks. -/
  | dropped
  deriving DecidableEq

/-- A session with its tasks. -/
structure Session (S : Slab (Option ℕ)) where
  /-- The senders, each by the number of its task. -/
  taskSlab : S.Table
  tasks : List Task
  active : Bool
  phase : SessionPhase
  /-- The responses that were sent, with their tasks. -/
  sent : List (ℕ × String)
  /-- A vacant key was removed from the slab. -/
  panicked : Bool

/-- A step of the session, of a task or of another holder of the connection. -/
inductive Label where
  /-- `Session::on_message`. -/
  | onMessage (isText : Bool)
  | complete (task : ℕ) (response : Option String)
  | checkActive (task : ℕ)
  | send (task : ℕ)
  | storeInactive (task : ℕ)
  | pollLiveness (task : ℕ)
  /-- A task is dropped, and its `LivenessPoll` with it. -/
  | dropTask (task : ℕ)
  /-- Another holder of the connection sends a message. -/
  | push
  /-- `Session::drop`, as long as it does not hold the lock of the slab. -/
  | close
  /-- `Session::drop`, while it holds the lock of the slab. -/
  | signal
  deriving DecidableEq

namespace Session

variable {S : Slab (Option ℕ)}

def new (S : Slab (Option ℕ)) : Session S := ⟨S.new, [], true, .alive, [], false⟩

def modifyTask (σ : Session S) (task : ℕ) (f : Task → Task) : Session S :=
  { σ with tasks := σ.tasks.modify task f }

/-- `LivenessPoll::create`, and the task with it. -/
def spawn (σ : Session S) : Session S :=
  let (index, taskSlab) := S.insert σ.taskSlab (some σ.tasks.length)
  { σ with taskSlab, tasks := σ.tasks ++ [⟨index, .waiting, 0⟩] }

/-- `LivenessPoll::drop`, unless the task has been dropped before. -/
def dropTask (σ : Session S) (task : ℕ) : Session S :=
  match σ.tasks[task]? with
  | some t =>
    if t.isLive then
      match S.remove σ.taskSlab t.slabHandle with
      | some taskSlab => { σ.modifyTask task Task.drop with taskSlab }
      | none => { σ.modifyTask task Task.drop with panicked := true }
    else σ
  | none => σ

/-- The senders in the slab, in the order of their keys. -/
def senders (σ : Session S) : List ℕ :=
  (S.keys σ.taskSlab).filterMap fun k => (S.get σ.taskSlab k).join

/-- Every sender is taken from the slab, and signals its task. -/
def signal (σ : Session S) : Session S :=
  { σ with
    taskSlab := S.modifyAll σ.taskSlab fun _ => none
    tasks := σ.tasks.mapIdx fun task t => t.signal (σ.senders.count task)
    phase := .dropped }

def step (σ : Session S) : Label → Session S
  | .onMessage isText => if σ.phase = .alive ∧ isText then σ.spawn else σ
  | .complete task response => σ.modifyTask task (Task.complete σ.active response)
  | .checkActive task => σ.modifyTask task (Task.checkActive σ.active)
  | .send task =>
    { σ.modifyTask task Task.send with
      sent := σ.sent ++ (σ.tasks[task]?.toList.flatMap Task.sends).map (task, ·) }
  | .storeInactive task =>
    match σ.tasks[task]? with
    | some ⟨_, .reporting, _⟩ => { σ.modifyTask task Task.storeInactive with active := false }
    | _ => σ
  | .pollLiveness task => σ.modifyTask task Task.pollLiveness
  | .dropTask task => σ.dropTask task
  | .push => σ
  | .close => if σ.phase = .alive then { σ with active := false, phase := .closing } else σ
  | .signal => if σ.phase = .closing then σ.signal else σ

def after (S : Slab (Option ℕ)) (ls : List Label) : Session S := Runs.run step (new S) ls

/-- A send reports `ConnectionClosed`. -/
def Reports (σ : Session S) (l : Label) : Prop :=
  σ.active = false ∧ (l = .push ∨
    ∃ task t result, l = .checkActive task ∧ σ.tasks[task]? = some t ∧ t.phase = .checking result)

end Session

end JsonRpc.Ws
