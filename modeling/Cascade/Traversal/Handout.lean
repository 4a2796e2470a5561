import Cascade.Traversal.Basic

/-!
# Waiting for work

Several clients share one traversal.  A client that asks for work first
registers as a waiter, then inspects the traversal, and if the answer is
to wait, parks until it has been notified.  Whoever releases a claim or
aborts the traversal changes the traversal first and notifies all
registered waiters afterwards, in a second step.

`Handout.register`, `Handout.inspect`, `Handout.wake`, `Handout.release`,
`Handout.abort` and `Handout.notify` are the atomic steps of this
protocol.  Clients are told apart by numbers.
-/

namespace Cascade

/-- A traversal and the clients that wait for it, each with whether it has
been notified since it registered. -/
structure Handout (α : Type) where
  traversal : Traversal α
  waiters : List (Nat × Bool)

namespace Handout

variable {α : Type}

/-- A traversal for which nobody waits yet. -/
def start (direction : Direction) (graph : Graph α) : Handout α :=
  ⟨.start direction graph, []⟩

/-- Whether a client is registered, and if so whether it has been
notified. -/
def waiting? (h : Handout α) (client : Nat) : Option Bool := h.waiters.lookup client

/-- Forget a waiter. -/
def unregister (h : Handout α) (client : Nat) : Handout α :=
  { h with waiters := h.waiters.filter (·.1 ≠ client) }

/-- Register a client as a waiter that has not been notified. -/
def register (h : Handout α) (client : Nat) : Handout α :=
  { h with waiters := (client, false) :: (h.unregister client).waiters }

/-- Let a registered client look at the traversal.  It stays registered
only if it has to wait. -/
def inspect (h : Handout α) (client : Nat) : Offer α × Handout α :=
  let (offer, traversal) := h.traversal.offer
  match offer with
  | .pending => (offer, { h with traversal })
  | _ => (offer, { h with traversal }.unregister client)

/-- Let a waiter that has been notified register afresh. -/
def wake (h : Handout α) (client : Nat) : Option (Handout α) :=
  match h.waiting? client with
  | some true => some (h.register client)
  | _ => none

/-- Release a claim, without notifying anybody yet. -/
def release (h : Handout α) (id : String) (succeeded : Bool) : Option Error × Handout α :=
  let (error, traversal) := h.traversal.release id succeeded
  (error, { h with traversal })

/-- Abort the traversal, without notifying anybody yet. -/
def abort (h : Handout α) : Handout α := { h with traversal := h.traversal.abort }

/-- Notify every waiter. -/
def notify (h : Handout α) : Handout α :=
  { h with waiters := h.waiters.map fun (client, _) => (client, true) }

/-- Ask for work: register and inspect. -/
def ask (h : Handout α) (client : Nat) : Offer α × Handout α :=
  (h.register client).inspect client

/-- Let a waiter look again if it has been notified. -/
def poll (h : Handout α) (client : Nat) : Offer α × Handout α :=
  match h.wake client with
  | some h => h.inspect client
  | none => (.pending, h)

/-- Ask for work and finish it at once, again and again, at most `steps`
times.  The answer lists the IDs that were handed out, and tells whether
work was still held by others at the end. -/
def drainUpTo (client : Nat) : Nat → List String → Handout α → List String × Bool × Handout α
  | 0, order, h => (order, false, h)
  | steps + 1, order, h =>
    match h.ask client with
    | (.claim claim, h) =>
      drainUpTo client steps (order ++ [claim.id]) (h.release claim.id true).2.notify
    | (.pending, h) => (order, true, h.unregister client)
    | (.exhausted, h) => (order, false, h)

/-- Ask for work and finish it at once until there is none. -/
def drain (h : Handout α) (client : Nat) : List String × Bool × Handout α :=
  drainUpTo client (h.traversal.graph.slots.length + 1) [] h

end Handout

end Cascade
