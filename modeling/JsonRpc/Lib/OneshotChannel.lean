import Mathlib.Tactic.Common

/-!
# Oneshot channels

A oneshot channel carries one value from a sender to a receiver. Sending fails if the
receiver was dropped, and a receiver learns that the sender was dropped.
-/

namespace OneshotChannel

/-- A channel for one value. -/
inductive Channel (α : Type*) where
  /-- Nothing was sent, and both ends are there. -/
  | empty
  | sent (a : α)
  | received
  /-- The sender was dropped. -/
  | canceled
  /-- The receiver was dropped. -/
  | closed

namespace Channel

variable {α : Type*}

/-- Send a value. The answer is whether it was sent. -/
def send (c : Channel α) (a : α) : Channel α × Bool :=
  match c with
  | empty => (sent a, true)
  | c => (c, false)

def dropSender : Channel α → Channel α
  | empty => canceled
  | c => c

def dropReceiver (_ : Channel α) : Channel α := closed

/-- Poll the receiver. It is pending, or receives a value, or learns that there will be none. -/
def poll : Channel α → Channel α × Option (Except Unit α)
  | empty => (empty, none)
  | sent a => (received, some (.ok a))
  | received => (received, some (.error ()))
  | canceled => (canceled, some (.error ()))
  | closed => (closed, none)

end Channel

end OneshotChannel
