/-!
Triggers that wait for their turn: the higher priority first, and of one priority the earlier one.
-/

namespace Scenario

structure PendingTrigger where
  trigger : String
  priority : Int
  /-- The number of the trigger since the queue was last cleared. -/
  number : Nat
  probability : Float
deriving Repr

structure TriggerQueue where
  pending : List PendingTrigger := []
  next : Nat := 0
deriving Repr

namespace TriggerQueue

/-- Puts a trigger behind all of its priority or a higher one. -/
def insert (p : PendingTrigger) : List PendingTrigger → List PendingTrigger
  | [] => [p]
  | q :: qs => if q.priority < p.priority then p :: q :: qs else q :: insert p qs

def push (q : TriggerQueue) (trigger : String) (priority : Int) (probability : Float) :
    TriggerQueue :=
  ⟨insert ⟨trigger, priority, q.next, probability⟩ q.pending, q.next + 1⟩

def peek? (q : TriggerQueue) : Option PendingTrigger := q.pending.head?

def pop? (q : TriggerQueue) : Option (PendingTrigger × TriggerQueue) :=
  match q.pending with
  | [] => none
  | p :: ps => some (p, { q with pending := ps })

end TriggerQueue

end Scenario
