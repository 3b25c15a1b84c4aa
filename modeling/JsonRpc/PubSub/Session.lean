import JsonRpc.Client.Transport
import JsonRpc.Lib.Runs
import Mathlib.Data.List.AList
import Mathlib.Logic.Function.Basic

/-!
# Sessions of subscriptions

A subscribe call hands a subscriber to its handler and returns a future. The handler
assigns an id at any later time, from any thread, and the id travels through a oneshot
channel to the future. When the future is polled, it adds the subscription to the
session. The subscription is removed by an unsubscribe call, by a later subscription
with its id, or when the session is dropped, and then the handler to unsubscribe is
called.

The environment decides about everything else: which handler assigns which id, when a
future is polled or dropped, and when the last handle of a session goes away. Threads
that removed a subscription call the handler after they released the lock of the
session, so these calls are due for a while.
-/

namespace JsonRpc

namespace PubSub

/-! ## Sessions -/

section Sessions

variable {H : Type}

/-- The function to remove a subscription: it calls the handler to unsubscribe. -/
structure Remove (H : Type) where
  unsubscribe : H
  /-- The number of the subscribe call that made it. -/
  call : ℕ

/-- The session of a client. -/
structure Session (H : Type) where
  activeSubscriptions : AList fun _ : SubscriptionId × String => Remove H

def Session.new : Session H := ⟨∅⟩

/-- Add a subscription, and return the one that it replaces. -/
def Session.addSubscription (session : Session H) (name : String) (id : SubscriptionId)
    (remove : Remove H) : Session H × Option (Remove H) :=
  (⟨session.activeSubscriptions.insert (id, name) remove⟩,
    session.activeSubscriptions.lookup (id, name))

/-- Remove a subscription, and return it if there was one. -/
def Session.removeSubscription (session : Session H) (name : String) (id : SubscriptionId) :
    Session H × Option (Remove H) :=
  (⟨session.activeSubscriptions.erase (id, name)⟩, session.activeSubscriptions.lookup (id, name))

/-- A subscription that was added to a session. -/
structure Entry (H : Type) where
  /-- The number of the subscribe call that added it. -/
  call : ℕ
  session : ℕ
  id : SubscriptionId
  notification : String
  /-- The handler to unsubscribe. -/
  unsubscribe : H

/-- The entry of a key in a session. -/
def Remove.entry (session : ℕ) (key : SubscriptionId × String) (remove : Remove H) : Entry H :=
  ⟨remove.call, session, key.1, key.2, remove.unsubscribe⟩

/-- The entry of a key in a session. -/
def Session.entry (session : Session H) (s : ℕ) (key : SubscriptionId × String) :
    Option (Entry H) :=
  (session.activeSubscriptions.lookup key).map (Remove.entry s key)

/-- The entries of a session, as it is drained. -/
def Session.drain (session : Session H) (s : ℕ) : List (Entry H) :=
  session.activeSubscriptions.entries.map fun entry => entry.2.entry s entry.1

end Sessions

/-- A call of a handler to unsubscribe. -/
structure Invocation (H M : Type) where
  /-- The entry that was removed. The handler does not see it. -/
  entry : Entry H
  unsubscribe : H
  id : SubscriptionId
  /-- The metadata of the request. There is none if nobody asked to unsubscribe. -/
  metadata : Option M

/-- What the function to remove a subscription does. -/
def Entry.remove {H M : Type} (entry : Entry H) : Invocation H M :=
  ⟨entry, entry.unsubscribe, entry.id, none⟩

/-! ## Subscribe calls -/

/-- The oneshot channel for the id of a subscription, as its receiver sees it. -/
inductive Oneshot where
  /-- The subscriber has not decided. -/
  | waiting
  | sent (result : Except Error SubscriptionId)
  /-- The sender was dropped. -/
  | canceled

/-- The future of a subscribe call. -/
inductive SubscribeFuture where
  | pending
  | complete (result : Except Error Value)
  /-- The transport has dropped it. -/
  | dropped

/-- A subscribe call, with the session and the methods that its future holds. -/
structure SubscribeCall (H : Type) where
  session : ℕ
  notification : String
  unsubscribe : H
  oneshot : Oneshot
  future : SubscribeFuture

def subscriptionRejected : Error := ⟨.serverError (-32091), "Subscription rejected", none⟩

def subscriptionsUnavailable : Error :=
  ⟨.serverError (-32090), "Subscriptions are not available on this transport.", none⟩

namespace SubscribeCall

variable {H : Type} (c : SubscribeCall H)

/-- Send a result to the future. It is refused if the future is gone. A subscriber
sends at most once. -/
def send (result : Except Error SubscriptionId) : SubscribeCall H × Bool :=
  match c.oneshot, c.future with
  | .waiting, .pending => ({ c with oneshot := .sent result }, true)
  | .waiting, _ => ({ c with oneshot := .canceled }, false)
  | _, _ => (c, false)

/-- Drop the subscriber with its sender. -/
def dropSubscriber : SubscribeCall H :=
  match c.oneshot with
  | .waiting => { c with oneshot := .canceled }
  | _ => c

/-- Drop the future. -/
def dropFuture : SubscribeCall H :=
  match c.future with
  | .pending => { c with future := .dropped }
  | _ => c

/-- What the future receives when it is polled. -/
def received : Option (Except Error SubscriptionId) :=
  match c.future, c.oneshot with
  | .pending, .sent result => some result
  | .pending, .canceled => some (.error subscriptionRejected)
  | _, _ => none

/-- Poll the future. -/
def poll : SubscribeCall H :=
  match c.received with
  | some result => { c with future := .complete (result.map SubscriptionId.toValue) }
  | none => c

end SubscribeCall

/-! ## The server -/

/-- The subscribe method. -/
structure Subscribe (H : Type) where
  notification : String
  unsubscribe : H

/-- The unsubscribe method. -/
structure Unsubscribe (H : Type) where
  notification : String
  unsubscribe : H

/-- The two methods of a subscription. They share the handler to unsubscribe. -/
def newSubscription {H : Type} (notification : String) (unsubscribe : H) :
    Subscribe H × Unsubscribe H :=
  (⟨notification, unsubscribe⟩, ⟨notification, unsubscribe⟩)

/-- The subscriptions of a server, with pairwise distinct names of their notifications,
and the session of each metadata. -/
structure Server (H M : Type) where
  subscriptions : List (String × H)
  nodup_names : (subscriptions.map Prod.fst).Nodup
  session : M → Option ℕ

/-- The methods of a subscription. -/
def Server.methods {H M : Type} (server : Server H M) (pair : ℕ) :
    Option (Subscribe H × Unsubscribe H) :=
  server.subscriptions[pair]?.map fun (notification, unsubscribe) =>
    newSubscription notification unsubscribe

/-- The manager of subscriptions. -/
structure SubscriptionManager where
  /-- The tasks by the id of their subscription, each by the number of its subscribe call. -/
  activeSubscriptions : AList fun _ : SubscriptionId => ℕ
  /-- The tasks that run. -/
  tasks : List ℕ

/-- Stop a task. -/
def SubscriptionManager.stop (m : SubscriptionManager) (id : SubscriptionId) : List ℕ :=
  match m.activeSubscriptions.lookup id with
  | some task => m.tasks.erase task
  | none => m.tasks

/-- Start a task that writes to the sink of a subscription. The task with the same id loses
its sender and stops. The executor may fail to start the task. -/
def SubscriptionManager.start (m : SubscriptionManager) (call : ℕ) (id : SubscriptionId)
    (spawned : Bool) : SubscriptionManager where
  activeSubscriptions := m.activeSubscriptions.insert id call
  tasks := if spawned then call :: m.stop id else m.stop id

def SubscriptionManager.cancel (m : SubscriptionManager) (id : SubscriptionId) :
    SubscriptionManager × Bool :=
  (⟨m.activeSubscriptions.erase id, m.stop id⟩, (m.activeSubscriptions.lookup id).isSome)

/-- The state of a server with its clients. -/
structure State (H M : Type) where
  sessions : ℕ → Session H
  /-- The sessions that are dropped, or are being dropped. -/
  dropped : List ℕ
  calls : List (SubscribeCall H)
  /-- The handlers that some thread still has to call. -/
  due : List (Invocation H M)
  manager : SubscriptionManager
  /-- The entries that were ever added. -/
  added : List (Entry H)
  /-- The handlers that were called. -/
  invoked : List (Invocation H M)

/-- A step of the transport, of a client, of a handler or of another thread. -/
inductive Label (M : Type) where
  /-- A subscribe method is called. -/
  | subscribe (pair : ℕ) (metadata : M)
  /-- The handler assigns an id. -/
  | assignId (call : ℕ) (id : SubscriptionId)
  /-- The handler passes the subscriber to the manager. -/
  | add (call : ℕ) (id : SubscriptionId) (spawned : Bool)
  | reject (call : ℕ) (error : Error)
  /-- The handler drops the subscriber. -/
  | dropSubscriber (call : ℕ)
  /-- The transport polls the future of a subscribe call. -/
  | poll (call : ℕ)
  /-- The transport drops the future of a subscribe call. -/
  | dropFuture (call : ℕ)
  /-- An unsubscribe method is called. -/
  | unsubscribe (pair : ℕ) (params : Params) (metadata : M)
  /-- A thread calls a handler that is due. -/
  | invoke (n : ℕ)
  /-- The last handle of a session is dropped. -/
  | dropSession (session : ℕ)
  /-- A handler cancels a task of the manager. -/
  | cancel (id : SubscriptionId)
  /-- A task of the manager ends. -/
  | finish (call : ℕ)

namespace State

variable {H M : Type}

/-- A server without clients. -/
def init : State H M where
  sessions := fun _ => .new
  dropped := []
  calls := []
  due := []
  manager := ⟨∅, []⟩
  added := []
  invoked := []

/-- The entry of a key in a session. -/
def entry (σ : State H M) (s : ℕ) (key : SubscriptionId × String) : Option (Entry H) :=
  (σ.sessions s).entry s key

/-! ### Subscribing -/

/-- Call a subscribe method, or fail without a session. -/
def subscribe (server : Server H M) (σ : State H M) (method : Subscribe H) (metadata : M) :
    State H M × Option Error :=
  match server.session metadata with
  | some session =>
    ({ σ with
      calls := σ.calls ++
        [⟨session, method.notification, method.unsubscribe, .waiting, .pending⟩] }, none)
  | none => (σ, some subscriptionsUnavailable)

/-- Change a subscribe call. -/
def modifyCall (σ : State H M) (call : ℕ) (f : SubscribeCall H → SubscribeCall H) : State H M :=
  { σ with calls := σ.calls.modify call f }

/-- Send a result to the future of a subscribe call. -/
def send (σ : State H M) (call : ℕ) (result : Except Error SubscriptionId) : State H M × Bool :=
  (σ.modifyCall call fun c => (c.send result).1, σ.calls[call]?.any fun c => (c.send result).2)

/-- Assign an id to a subscriber. The answer is whether there is a sink. -/
def assignId (σ : State H M) (call : ℕ) (id : SubscriptionId) : State H M × Bool :=
  σ.send call (.ok id)

def reject (σ : State H M) (call : ℕ) (error : Error) : State H M × Bool :=
  σ.send call (.error error)

/-- Assign an id to a subscriber, and start a task if there is a sink. -/
def add (σ : State H M) (call : ℕ) (id : SubscriptionId) (spawned : Bool) : State H M :=
  match σ.assignId call id with
  | (σ, true) => { σ with manager := σ.manager.start call id spawned }
  | (σ, false) => σ

/-- Add the subscription of a subscribe call to its session. Another subscription with the
same id and name is removed. -/
def addSubscription (σ : State H M) (call : ℕ) (c : SubscribeCall H) (id : SubscriptionId) :
    State H M :=
  let remove : Remove H := ⟨c.unsubscribe, call⟩
  let (session, replaced) := (σ.sessions c.session).addSubscription c.notification id remove
  { σ with
    sessions := Function.update σ.sessions c.session session
    due := σ.due ++ (replaced.map (Remove.entry c.session (id, c.notification))).toList.map
      Entry.remove
    added := σ.added ++ [remove.entry c.session (id, c.notification)] }

/-- Poll the future of a subscribe call. It adds the subscription if it receives an id. -/
def poll (σ : State H M) (call : ℕ) : State H M :=
  match σ.calls[call]? with
  | some c =>
    match c.received with
    | some (.ok id) => (σ.addSubscription call c id).modifyCall call SubscribeCall.poll
    | _ => σ.modifyCall call SubscribeCall.poll
  | none => σ

/-! ### Unsubscribing -/

/-- The id in the parameters of an unsubscribe call. -/
def parseId : Params → Option SubscriptionId
  | .array [v] => SubscriptionId.parseValue v
  | _ => none

/-- Call an unsubscribe method: a handler is due, or the call fails. -/
def unsubscribe (server : Server H M) (σ : State H M) (method : Unsubscribe H) (params : Params)
    (metadata : M) : State H M × Option Error :=
  match server.session metadata, parseId params with
  | some s, some id =>
    let (session, removed) := (σ.sessions s).removeSubscription method.notification id
    match removed with
    | some remove =>
      ({ σ with
        sessions := Function.update σ.sessions s session
        due := σ.due ++ [⟨remove.entry s (id, method.notification), method.unsubscribe, id,
          some metadata⟩] }, none)
    | none => (σ, some (.invalidParams "Invalid subscription id."))
  | some _, none => (σ, some (.invalidParams "Expected subscription id."))
  | none, _ => (σ, some subscriptionsUnavailable)

/-- Call a handler that is due. -/
def invoke (σ : State H M) (n : ℕ) : State H M :=
  match σ.due[n]? with
  | some invocation =>
    { σ with due := σ.due.eraseIdx n, invoked := σ.invoked ++ [invocation] }
  | none => σ

/-- Some future or some thread holds a handle of a session. -/
def isHeld (σ : State H M) (s : ℕ) : Bool :=
  (σ.calls.any fun c => c.session = s && c.future matches .pending) ||
    σ.due.any fun invocation => invocation.entry.session = s

/-- Drop a session, unless it is held or dropped already. All its subscriptions are removed. -/
def dropSession (σ : State H M) (s : ℕ) : State H M :=
  if σ.isHeld s || s ∈ σ.dropped then σ
  else
    { σ with
      sessions := Function.update σ.sessions s .new
      dropped := s :: σ.dropped
      due := σ.due ++ ((σ.sessions s).drain s).map Entry.remove }

/-! ### Steps -/

/-- One step. Nobody calls a method with the metadata of a dropped session. -/
def step (server : Server H M) (σ : State H M) : Label M → State H M
  | .subscribe pair metadata =>
    match server.methods pair with
    | some (method, _) =>
      if ∃ s ∈ server.session metadata, s ∈ σ.dropped then σ
      else (σ.subscribe server method metadata).1
    | none => σ
  | .assignId call id => (σ.assignId call id).1
  | .add call id spawned => σ.add call id spawned
  | .reject call error => (σ.reject call error).1
  | .dropSubscriber call => σ.modifyCall call SubscribeCall.dropSubscriber
  | .poll call => σ.poll call
  | .dropFuture call => σ.modifyCall call SubscribeCall.dropFuture
  | .unsubscribe pair params metadata =>
    match server.methods pair with
    | some (_, method) =>
      if ∃ s ∈ server.session metadata, s ∈ σ.dropped then σ
      else (σ.unsubscribe server method params metadata).1
    | none => σ
  | .invoke n => σ.invoke n
  | .dropSession session => σ.dropSession session
  | .cancel id => { σ with manager := (σ.manager.cancel id).1 }
  | .finish call => { σ with manager := { σ.manager with tasks := σ.manager.tasks.erase call } }

/-- The state after a run of a new server. -/
def after (server : Server H M) (ls : List (Label M)) : State H M :=
  Runs.run (step server) init ls

/-- The last step of a run. -/
theorem after_concat (server : Server H M) (ls : List (Label M)) (l : Label M) :
    after server (ls ++ [l]) = (after server ls).step server l :=
  Runs.run_concat _ _ _

end State

end PubSub

end JsonRpc
