import Scenario.Decimal.Shortest

/-!
How doubles are written down. The digits are the shortest ones; a layout says when an exponent is
written and what the parts look like.
-/

namespace Scenario

structure Layout where
  /-- Powers of ten of the first digit that need no exponent. -/
  positional : Int → Bool
  /-- Whole numbers keep `.0` in positional form. -/
  fraction : Bool
  /-- Positive exponents have a sign. -/
  plus : Bool
  tie : Decimal.Tie

namespace Layout

def plain (l : Layout) (d : Decimal) : String :=
  let digits := toString d.digits
  let whole := digits.length + d.exponent
  if 0 ≤ d.exponent then
    digits ++ "".pushn '0' d.exponent.toNat ++ if l.fraction then ".0" else ""
  else if whole ≤ 0 then "0." ++ "".pushn '0' (-whole).toNat ++ digits
  else
    String.ofList (digits.toList.take whole.toNat) ++ "." ++
      String.ofList (digits.toList.drop whole.toNat)

def scientific (l : Layout) (d : Decimal) : String :=
  let digits := (toString d.digits).toList
  let power := digits.length + d.exponent - 1
  let tail := if digits.length ≤ 1 then "" else "." ++ String.ofList (digits.drop 1)
  String.ofList (digits.take 1) ++ tail ++ "e" ++
    (if l.plus && 0 ≤ power then "+" else "") ++ toString power

def render (l : Layout) (x : Float) : String :=
  if x.isNaN then "NaN"
  else
    let sign := if x.toBits ≥ 0x8000000000000000 then "-" else ""
    match Binary.ofFloat? x with
    | none => sign ++ "inf"
    | some b =>
      if b.significand = 0 then sign ++ l.plain ⟨0, 0⟩
      else
        let d := Decimal.shortest l.tie b
        let power := (toString d.digits).length + d.exponent - 1
        sign ++ if l.positional power then l.plain d else l.scientific d

/-- Values as they are reported: plain from `1e-4` up to `1e16`, whole numbers with `.0`. -/
def report : Layout := ⟨fun p => -4 ≤ p && p < 16, true, false, .up⟩

/-- Values inside sentences: never an exponent, and whole numbers without a point. -/
def sentence : Layout := ⟨fun _ => true, false, false, .up⟩

/-- Values in JSON texts: plain from `1e-5` up to `1e16`, and exponents with a sign. -/
def json : Layout := ⟨fun p => -5 ≤ p && p < 16, true, true, .even⟩

end Layout

end Scenario
