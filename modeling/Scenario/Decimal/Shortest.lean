import Scenario.Double

/-!
The fewest decimal digits that identify a double. A double stands for the interval of reals that
round to it; on the grid of multiples of `10 ^ k` the only candidates are its two neighbours, and
the coarsest grid with a neighbour in the interval gives the digits.
-/

namespace Scenario

structure Decimal where
  digits : Nat
  exponent : Int
deriving Repr, DecidableEq

namespace Decimal

/-- Where a value half-way between two candidates goes. -/
inductive Tie
  | up
  | even
deriving Repr, DecidableEq

def normalize (d : Decimal) : Decimal :=
  if h : d.digits ≠ 0 ∧ d.digits % 10 = 0 then
    normalize ⟨d.digits / 10, d.exponent + 1⟩
  else d
termination_by d.digits
decreasing_by omega

def reaches (m : Nat) (q k : Int) : Bool :=
  Nat.pow 10 k.toNat * Nat.pow 2 (-q).toNat ≤ m * Nat.pow 2 q.toNat * Nat.pow 10 (-k).toNat

/-- The power of ten of the first digit of `m · 2 ^ q`. The binary logarithm leaves two powers to
choose from. -/
def leadingPower (m : Nat) (q : Int) : Int :=
  let estimate := ((m.log2 : Int) + q) * 30103 / 100000
  if reaches m q (estimate + 1) then estimate + 1
  else if reaches m q estimate then estimate
  else estimate - 1

/-- The neighbour of a double on the grid of multiples of `10 ^ k` that reads back as the double,
the nearer one if both do. -/
def gridNeighbour? (tie : Tie) (b : Binary) (k : Int) : Option Nat :=
  let m := b.significand
  let quarter := Nat.pow 2 (b.exponent - 2).toNat * Nat.pow 10 (-k).toNat
  let grid := Nat.pow 2 (2 - b.exponent).toNat * Nat.pow 10 k.toNat
  let value := 4 * m * quarter
  let low := (4 * m - if m = 0x10000000000000 ∧ -1074 < b.exponent then 1 else 2) * quarter
  let high := (4 * m + 2) * quarter
  let readsBack (c : Nat) : Bool :=
    if m % 2 = 0 then low ≤ c * grid && c * grid ≤ high else low < c * grid && c * grid < high
  let below := value / grid
  let above := below + 1
  match readsBack below, readsBack above with
  | true, true =>
    match compare (2 * (value % grid)) grid with
    | .lt => some below
    | .gt => some above
    | .eq => if tie = .even ∧ below % 2 = 0 then some below else some above
  | true, false => some below
  | false, true => some above
  | false, false => none

/-- The shortest decimal that reads back as a double other than zero. Seventeen digits are always
enough. -/
def shortest (tie : Tie) (b : Binary) : Decimal :=
  let lead := leadingPower b.significand b.exponent
  let found := (List.range 17).findSome? fun (n : Nat) =>
    let k := lead - n
    (gridNeighbour? tie b k).map fun c => Decimal.mk c k
  (found.getD ⟨0, 0⟩).normalize

end Decimal

end Scenario
