import Scenario.Decimal.Shortest

/-!
Doubles from written numbers.
-/

namespace Scenario

namespace Decimal

def ofDigits (ds : List Char) : Nat :=
  ds.foldl (fun n c => 10 * n + (c.toNat - '0'.toNat)) 0

/-- The double nearest to `digits · 10 ^ exponent`. Numbers of more than 310 whole digits are
infinite and those below `10 ^ -330` are zero, so the powers stay small. -/
def nearest (d : Decimal) : Float :=
  if d.digits = 0 then 0.0
  else
    let whole := (toString d.digits).length + d.exponent
    if 310 < whole then infinity
    else if whole < -330 then 0.0
    else Float.ofScientific d.digits (decide (d.exponent < 0)) d.exponent.natAbs

end Decimal

/-- The parts of an unsigned number as it is written: digits before and after the point, and the
power of ten behind `e`. -/
structure Numeral where
  whole : List Char
  fraction : List Char
  power : Int

namespace Numeral

/-- Splits off the power of ten: `e` or `E`, a sign that may be absent, and at least one digit. The
number is the count of characters that it takes up. -/
def scanPower : List Char → Int × Nat
  | c :: cs =>
    if c = 'e' ∨ c = 'E' then
      let (negative, signs) : Bool × Nat :=
        match cs with
        | '-' :: _ => (true, 1)
        | '+' :: _ => (false, 1)
        | _ => (false, 0)
      let digits := (cs.drop signs).takeWhile Char.isDigit
      if digits.isEmpty then (0, 0)
      else
        let power : Int := Decimal.ofDigits digits
        (if negative then -power else power, 1 + signs + digits.length)
    else (0, 0)
  | [] => (0, 0)

def decimal (n : Numeral) : Decimal :=
  ⟨Decimal.ofDigits (n.whole ++ n.fraction), n.power - n.fraction.length⟩

end Numeral

end Scenario
