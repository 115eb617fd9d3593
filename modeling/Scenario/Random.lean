import Scenario.Error
import Scenario.Random.Stream

/-!
Random numbers. A source yields doubles and can be put back to any earlier point; chances and
weighted choices are decided by single draws from it.
-/

namespace Scenario

structure RandomPosition where
  seed : String
  position : Nat
deriving Repr, DecidableEq

inductive RandomSource
  | seeded (seed : String) (position : Nat)
  /-- Fixed values, over and over. -/
  | scripted (values : List Float) (cursor : Nat)
deriving Repr

namespace RandomSource

def ofSeed (seed : String) : RandomSource := .seeded seed 0

/-- The next value. A stream spends two words on it, of which 53 bits count; an empty script yields
zero and stays where it is. -/
def next : RandomSource → Float × RandomSource
  | .seeded seed position =>
    let low := (Stream.word seed position).toNat
    let high := (Stream.word seed (position + 1)).toNat
    let bits := (high * 0x100000000 + low) / 0x800
    (Float.ofNat bits * Binary.powerOfTwo (-53), .seeded seed ((position + 2) % Stream.period))
  | .scripted values cursor =>
    match values[cursor % values.length]? with
    | some x => (x, .scripted values ((cursor + 1) % 0x10000000000000000))
    | none => (0.0, .scripted values cursor)

def snapshot : RandomSource → RandomPosition
  | .seeded seed position => ⟨seed, position⟩
  | .scripted _ cursor => ⟨"sequence", cursor⟩

/-- Moves to a position. A stream changes to its seed as well, a script keeps its values. -/
def restore (p : RandomPosition) : RandomSource → RandomSource
  | .seeded _ _ => .seeded p.seed (p.position % Stream.period)
  | .scripted values _ => .scripted values (p.position % 0x10000000000000000)

end RandomSource

def draw (source : RandomSource) : Except EvaluationError Float × RandomSource :=
  let (x, source) := source.next
  (if 0.0 ≤ x && x < 1.0 then .ok x else .error (.randomOutOfRange x), source)

/-- Whether something of this probability happens. Certain things need no draw. -/
def gate (probability : Float) (source : RandomSource) :
    Except EvaluationError Bool × RandomSource :=
  if 1.0 ≤ probability then (.ok true, source)
  else
    let (x, source) := draw source
    (x.map (· < greater probability 0.0), source)

section Weights

variable {α : Type} [Add α] [Mul α] [LT α] [DecidableLT α]

/-- The first place where the running total of weights passes `target`. -/
def firstPast? (target : α) : α → List α → Option Nat
  | _, [] => none
  | total, w :: ws =>
    let total := total + w
    if target < total then some 0 else (firstPast? target total ws).map (· + 1)

def lastPositive? [OfNat α 0] (weights : List α) : Option Nat :=
  (List.range weights.length).reverse.find? fun i => (weights[i]?).any (0 < ·)

/-- The place that a draw falls on when each has a share of the total by its weight. Totals that are
rounded can keep the draw from falling anywhere; it then goes to the last share. -/
def share [OfNat α 0] (weights : List α) (total roll : α) : Nat :=
  (firstPast? (roll * total) 0 weights).getD
    ((lastPositive? weights).getD (weights.length - 1))

end Weights

/-- The sum of weights. It starts from `-0`, which adds nothing to any number. -/
def totalWeight (weights : List Float) : Float := weights.foldl (· + ·) (-0.0)

def choose (weights : List Float) (source : RandomSource) :
    Except EvaluationError Nat × RandomSource :=
  match weights.find? fun w => !w.isFinite || w < 0.0 with
  | some w => (.error (.invalidWeights (.weight w)), source)
  | none =>
    let total := totalWeight weights
    if total ≤ 0.0 then (.error (.invalidWeights (.sum total)), source)
    else
      let (roll, source) := draw source
      (roll.map fun r => share weights total r, source)

end Scenario
