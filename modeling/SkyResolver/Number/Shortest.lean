import SkyResolver.Number.Binary

/-! The shortest decimal digits that read back as a given double. A double stands for all numbers
that are nearer to it than to any other double; of the decimal numbers among them, `shortest` takes
one with the fewest digits and among those the nearest. -/
namespace SkyResolver.Number

/-- Which of two equally near decimal numbers is taken. -/
inductive Tie where
  | even
  | up
  deriving DecidableEq, Repr

/-- A decimal number: `digits * 10 ^ exponent`. -/
structure Decimal where
  digits : Nat
  exponent : Int
  deriving DecidableEq, Repr

/-- The numbers that round to `mantissa * 2 ^ exponent`, in quarters of its last place: `low` and
`high` bound them, and the bounds belong to them when `closed` is set. -/
structure Neighbourhood where
  low : Nat
  middle : Nat
  high : Nat
  closed : Bool
  exponent : Int

/-- The neighbourhood of a positive double. Below a power of two the doubles are twice as dense. -/
def Neighbourhood.of (b : Binary) : Neighbourhood :=
  let atPower := b.mantissa == twoTo 52 && b.exponent != -1074
  { low := 4 * b.mantissa - (if atPower then 1 else 2)
    middle := 4 * b.mantissa
    high := 4 * b.mantissa + 2
    closed := b.mantissa % 2 == 0
    exponent := b.exponent - 2 }

/-- The multiple of `10 ^ place` in a neighbourhood that is nearest to its middle, if there is one.
-/
def Neighbourhood.onGrid? (h : Neighbourhood) (tie : Tie) (place : Int) : Option Nat :=
  let scale := twoTo h.exponent.toNat * tenTo (-place).toNat
  let unit := twoTo (-h.exponent).toNat * tenTo place.toNat
  let middle := h.middle * scale
  let inside (n : Nat) : Bool :=
    n != 0 &&
      if h.closed then h.low * scale ≤ n * unit && n * unit ≤ h.high * scale
      else h.low * scale < n * unit && n * unit < h.high * scale
  let below := middle / unit
  let above := below + 1
  match inside below, inside above with
  | false, false => none
  | true, false => some below
  | false, true => some above
  | true, true =>
    let toBelow := middle - below * unit
    let toAbove := above * unit - middle
    if toBelow < toAbove then some below
    else if toAbove < toBelow then some above
    else
      match tie with
      | .even => some (if below % 2 == 0 then below else above)
      | .up => some above

/-- Looks at the grids from `place` downwards, `count` of them, and takes the first hit. -/
def Neighbourhood.search (h : Neighbourhood) (tie : Tie) : (count : Nat) → (place : Int) → Decimal
  | 0, place => ⟨0, place⟩
  | count + 1, place =>
    match h.onGrid? tie place with
    | some n => ⟨n, place⟩
    | none => h.search tie count (place - 1)

/-- The shortest decimal number that reads back as a positive double. The search starts above the
leading digit, and seventeen digits always suffice. -/
def shortest (tie : Tie) (b : Binary) : Decimal :=
  let leading := ((Nat.log2 b.mantissa : Int) + b.exponent) * 30103 / 100000
  (Neighbourhood.of b).search tie 22 (leading + 2)

/-- The shortest decimal number that reads back as the magnitude of a double other than zero. -/
def shortest? (tie : Tie) (x : Float) : Option Decimal :=
  match Binary.ofFloat? x with
  | some b => if b.mantissa = 0 then none else some (shortest tie b)
  | none => none

example : shortest? .even 0.1 = some ⟨1, -1⟩ ∧ shortest? .even 1e21 = some ⟨1, 21⟩ ∧
    shortest? .even 5e-324 = some ⟨5, -324⟩ := by decide +kernel

end SkyResolver.Number
