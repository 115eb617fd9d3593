import Scenario.Play

/-!
A pass: one trigger, and the events that listen to it, each in its turn.
-/

namespace Scenario

structure PassReport where
  trigger : String
  /-- Whether the trigger got through to its listeners. -/
  gatePassed : Bool
  fired : List String
  ended : Bool
deriving Repr, DecidableEq

namespace Play

/-- Whether an event takes its turn: it is enabled, no earlier event of the pass excludes it, its
conditions hold, and chance is on its side. -/
def takesTurn (excluded : List String) (e : Event Expression) : Play Bool := do
  if !(← look (·.registry.isEnabled e.id)) then return false
  else if e.id ∈ excluded then return false
  else if !(← look fun s => Condition.checkAll s.scope e.conditions) then return false
  else
    let p ← look (·.eval e.probability)
    chance (gate p)

/-- An event happens: it is counted and reported, its actions run, and it is disabled if it happens
only once. -/
def happen (screen : Screen) (patience : Nat) (trigger : String) (e : Event Expression) :
    Play Unit := do
  change (·.fireEvent e.id trigger)
  let _ ← runAll screen patience e.actions
  if e.once then change (·.setEventEnabled e.id false)

/-- Gives listeners their turns, up to the end of the game. The answer is the events that happened
and whether the game has ended. -/
def listen (screen : Screen) (patience : Nat) (trigger : String) :
    List String → List (Event Expression) → Play (List String × Bool)
  | _, [] => return ([], false)
  | excluded, e :: es => do
    if ← takesTurn excluded e then
      happen screen patience trigger e
      if ← look fun s => .ok s.ending.isSome then return ([e.id], true)
      else
        let (fired, ended) ← listen screen patience trigger (excluded ++ e.exclusions) es
        return (e.id :: fired, ended)
    else listen screen patience trigger excluded es

/-- The pass of a trigger. Its listeners are those at its start. -/
def pass (screen : Screen) (patience : Nat) (p : PendingTrigger) : Play PassReport := do
  if ← chance (gate p.probability) then
    let listeners ← look fun s => .ok (s.registry.listeners p.trigger)
    let (fired, ended) ← listen screen patience p.trigger [] listeners
    return ⟨p.trigger, true, fired, ended⟩
  else return ⟨p.trigger, false, [], false⟩

end Play

end Scenario
