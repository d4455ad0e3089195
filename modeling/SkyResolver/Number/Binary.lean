import SkyResolver.Number.Power

/-! The exact values of double-precision numbers, and the operations that are defined by them:
`floor`, rounding to the nearest whole number, and the remainder of a division. All are computed on
natural numbers; only results that a double holds exactly are turned back into one. -/
namespace SkyResolver.Number

/-- A finite double: `mantissa * 2 ^ exponent`, negated when `negative` is set. -/
structure Binary where
  negative : Bool
  mantissa : Nat
  exponent : Int
  deriving DecidableEq, Repr

/-- The exact value of a double, or nothing for NaN and the infinities. -/
def Binary.ofFloat? (x : Float) : Option Binary :=
  let bits := x.toBits.toNat
  let negative := bits / twoTo 63 == 1
  let biased : Nat := bits / twoTo 52 % twoTo 11
  let fraction : Nat := bits % twoTo 52
  if biased = 2047 then none
  else if biased = 0 then some ⟨negative, fraction, -1074⟩
  else some ⟨negative, fraction + twoTo 52, (biased : Int) - 1075⟩

/-- True when the sign bit of a double is set, also for zero and NaN. -/
def hasMinusSign (x : Float) : Bool := x.toBits.toNat / twoTo 63 == 1

/-- The double with the magnitude of a natural number and a given sign. -/
def signed (negative : Bool) (n : Nat) : Float :=
  let x := Float.ofNat n
  if negative then -x else x

def floor (x : Float) : Float :=
  match Binary.ofFloat? x with
  | none => x
  | some b =>
    if 0 ≤ b.exponent then x
    else
      let unit := twoTo b.exponent.natAbs
      let whole := b.mantissa / unit
      signed b.negative (if b.negative && b.mantissa % unit != 0 then whole + 1 else whole)

/-- The nearest whole number; halves go away from zero. -/
def round (x : Float) : Float :=
  match Binary.ofFloat? x with
  | none => x
  | some b =>
    if 0 ≤ b.exponent then x
    else
      let unit := twoTo b.exponent.natAbs
      signed b.negative ((2 * b.mantissa + unit) / (2 * unit))

/-- The remainder of the division of a double by a positive natural number, rounded towards zero, so
that it has the sign of the dividend. It is exact. -/
def remainder (x : Float) (n : Nat) : Float :=
  match Binary.ofFloat? x with
  | none => 0.0 / 0.0
  | some b =>
    if 0 ≤ b.exponent then signed b.negative (b.mantissa * twoTo b.exponent.natAbs % n)
    else
      let unit := twoTo b.exponent.natAbs
      if b.mantissa < n * unit then x
      else signed b.negative (b.mantissa % (n * unit)) / Float.ofNat unit

def positiveRemainder (x : Float) (n : Nat) : Float :=
  let r := remainder x n
  if r < 0.0 then r + Float.ofNat n else r

/-- The smaller of two numbers; a NaN gives way to the other one. -/
def smaller (x y : Float) : Float :=
  if x.isNaN then y else if y.isNaN then x else if x < y then x else y

/-- The larger of a number and zero; a NaN gives way to zero. -/
def nonNegative (x : Float) : Float := if x < 0.0 || x.isNaN then 0.0 else x

example : (floor 2.75).toBits = (2.0 : Float).toBits ∧
    (floor (-2.75)).toBits = (-3.0 : Float).toBits ∧
    (round 2.5).toBits = (3.0 : Float).toBits ∧
    (positiveRemainder (-15.0) 360).toBits = (345.0 : Float).toBits := by decide

end SkyResolver.Number
