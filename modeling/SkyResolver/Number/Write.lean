import SkyResolver.Number.Shortest

/-! Writing numbers. `plain` never uses an exponent, `scientific` does outside a range of sizes, and
`fixed` has a given number of places. -/
namespace SkyResolver.Number

def digitChars (n : Nat) : List Char := Nat.toDigits 10 n

def padZeros (width : Nat) (s : List Char) : List Char :=
  List.replicate (width - s.length) '0' ++ s

/-- A decimal number in positional notation; `point` holds what a whole number ends with. -/
def positional (point : List Char) (d : Decimal) : List Char :=
  let digits := digitChars d.digits
  if 0 ≤ d.exponent then digits ++ List.replicate d.exponent.natAbs '0' ++ point
  else
    let places := d.exponent.natAbs
    let padded := padZeros (places + 1) digits
    padded.take (padded.length - places) ++ '.' :: padded.drop (padded.length - places)

/-- A decimal number with one digit before the point and an exponent; `plus` holds the sign of an
exponent that is not negative. -/
def withExponent (plus : List Char) (d : Decimal) : List Char :=
  let digits := digitChars d.digits
  let exponent := d.exponent + digits.length - 1
  let mantissa :=
    match digits with
    | c :: c' :: rest => c :: '.' :: c' :: rest
    | s => s
  mantissa ++ 'e' :: (if exponent < 0 then ['-'] else plus) ++ digitChars exponent.natAbs

/-- The sign in front of a number; zero can have one too. -/
def signChars (x : Float) : List Char := if hasMinusSign x then ['-'] else []

structure FloatFormat where
  tie : Tie
  /-- What a whole number ends with. -/
  point : List Char
  /-- The sign of an exponent that is not negative. -/
  plus : List Char
  /-- True when the decimal point of a number with this many digits before it is written out. -/
  positionalSize : Int → Bool

def FloatFormat.write (format : FloatFormat) (x : Float) : List Char :=
  if x.isNaN then ['N', 'a', 'N']
  else if x.isInf then signChars x ++ ['i', 'n', 'f']
  else
    signChars x ++
      match shortest? format.tie x with
      | none => '0' :: format.point
      | some d =>
        if format.positionalSize (d.exponent + (digitChars d.digits).length) then
          positional format.point d
        else withExponent format.plus d

/-- Positional notation at any size; of two equally near numbers the larger one. -/
def plain (x : Float) : List Char := (⟨.up, [], [], fun _ => true⟩ : FloatFormat).write x

/-- The nearest multiple of `1 / 10 ^ places` to a number that is not negative, ties to even, with
that many places and zeros in front up to a width. -/
def fixed (width places : Nat) (x : Float) : List Char :=
  match Binary.ofFloat? x with
  | none => plain x
  | some b =>
    let scaled := b.mantissa * twoTo b.exponent.toNat * tenTo places
    let unit := twoTo (-b.exponent).toNat
    let below := scaled / unit
    let rest := 2 * (scaled % unit)
    let n := if unit < rest || (rest == unit && below % 2 == 1) then below + 1 else below
    let whole := digitChars (n / tenTo places)
    let fraction := padZeros places (digitChars (n % tenTo places))
    padZeros width (whole ++ '.' :: fraction)

def intChars (n : Int) : List Char :=
  (if n < 0 then ['-'] else []) ++ digitChars n.natAbs

example : plain 1e21 = "1000000000000000000000".toList ∧ plain 1e-7 = "0.0000001".toList ∧
    plain (-5.25) = "-5.25".toList ∧ fixed 7 4 4.6 = "04.6000".toList := by decide +kernel

end SkyResolver.Number
