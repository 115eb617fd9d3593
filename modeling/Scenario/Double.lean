/-!
Arithmetic that the engine needs beyond the four operations. What has to hold in exact arithmetic
as well is stated for any type of numbers; what is about doubles takes them apart as `± m · 2 ^ e`.
-/

namespace Scenario

section Generic

variable {α : Type}

/-- Confines `x` to `[lo, hi]`; what compares with neither end is left as it is. -/
def clamp [LT α] [DecidableLT α] (x lo hi : α) : α :=
  if x < lo then lo else if hi < x then hi else x

/-- Multiplies `r` by `a ^ n`, squaring `a` once for each binary digit of `n` after the first. -/
def powerOnto [Mul α] (r a : α) (n : Nat) : α :=
  let r := if n % 2 = 1 then r * a else r
  if n < 2 then r else powerOnto r (a * a) (n / 2)
termination_by n

def power [Mul α] [OfNat α 1] (a : α) (n : Nat) : α := powerOnto 1 a n

end Generic

instance natCastFloat : NatCast Float := ⟨Float.ofNat⟩

def truthy (x : Float) : Bool := x != 0.0 && !x.isNaN

def flag (b : Bool) : Float := if b then 1.0 else 0.0

def infinity : Float := 1.0 / 0.0

def notANumber : Float := 0.0 / 0.0

/-- The lesser of two doubles: a side that is no number is passed over, of two equal ones the second
is kept. -/
def lesser (x y : Float) : Float :=
  if x.isNaN || y ≤ x then y else x

def greater (x y : Float) : Float :=
  if x.isNaN || x ≤ y then y else x

def truncate (x : Float) : Float := if x < 0.0 then x.ceil else x.floor

/-- The whole number towards zero, confined to those that 64 bits hold with a sign. What is no
number counts as zero. -/
def wholePart (x : Float) : Int := x.toModel.toInt64.toInt

/-- Rounds to the nearest whole number, halves upwards. -/
def roundHalfUp (x : Float) : Float := (x + 0.5).floor

def signOf (x : Float) : Float :=
  if x == 0.0 then 0.0 else if x < 0.0 then -1.0 else if 0.0 < x then 1.0 else x

/-- The finite double `± significand · 2 ^ exponent`. -/
structure Binary where
  negative : Bool
  significand : Nat
  exponent : Int
deriving Repr, DecidableEq

namespace Binary

def ofFloat? (x : Float) : Option Binary :=
  let bits := x.toBits.toNat
  let negative := bits ≥ 0x8000000000000000
  let biased : Nat := bits / 0x10000000000000 % 0x800
  let fraction : Nat := bits % 0x10000000000000
  if biased = 2047 then none
  else if biased = 0 then some ⟨negative, fraction, -1074⟩
  else some ⟨negative, 0x10000000000000 + fraction, (biased : Int) - 1075⟩

def powerOfTwo (e : Int) : Float :=
  if e < -1022 then Float.ofBits (.ofNat (Nat.pow 2 (e + 1074).toNat))
  else Float.ofBits (.ofNat ((e + 1023).toNat * 0x10000000000000))

def toFloat (b : Binary) : Float :=
  let x := Float.ofNat b.significand * powerOfTwo b.exponent
  if b.negative then -x else x

/-- The remainder of a division that rounds toward zero. It is exact, since it has no more binary
digits than the operand it comes from. -/
def remainder (a b : Binary) : Binary :=
  let e := min a.exponent b.exponent
  let numerator := a.significand * Nat.pow 2 (a.exponent - e).toNat
  let divisor := b.significand * Nat.pow 2 (b.exponent - e).toNat
  ⟨a.negative, numerator % divisor, e⟩

end Binary

def remainder (x y : Float) : Float :=
  match Binary.ofFloat? x, Binary.ofFloat? y with
  | some a, some b => if b.significand = 0 then notANumber else (a.remainder b).toFloat
  | some _, none => if y.isNaN then y else x
  | none, _ => notANumber

end Scenario
