/-! Reading numbers. `readFloat?` takes the usual decimal forms, with or without a sign, a point and
an exponent, and the words for the infinities and NaN; the result is the nearest double.
`readNat?` and `readInt?` take whole numbers up to a limit. -/
namespace SkyResolver.Number

def natOfDigits (digits : List Char) : Nat :=
  digits.foldl (fun n c => 10 * n + (c.toNat - '0'.toNat)) 0

/-- A text without its sign, and whether the sign was a minus. -/
def splitSign : List Char → Bool × List Char
  | '+' :: s => (false, s)
  | '-' :: s => (true, s)
  | s => (false, s)

def digitRun (s : List Char) : List Char × List Char :=
  (s.takeWhile Char.isDigit, s.dropWhile Char.isDigit)

/-- A whole number without a sign that stops the text. -/
def wholeDigits? (s : List Char) : Option Nat :=
  if !s.isEmpty && s.all Char.isDigit then some (natOfDigits s) else none

/-- The exponent of ten that ends a number; nothing at all stands for zero. -/
def exponent? : List Char → Option Int
  | [] => some 0
  | c :: s =>
    if c == 'e' || c == 'E' then
      let (negative, digits) := splitSign s
      (wholeDigits? digits).map fun n => if negative then -(n : Int) else (n : Int)
    else none

/-- An unsigned decimal number as a whole number and an exponent of ten. -/
def decimal? (s : List Char) : Option (Nat × Int) :=
  let (whole, r) := digitRun s
  let (fraction, r) :=
    match r with
    | '.' :: r => digitRun r
    | r => ([], r)
  if whole.isEmpty && fraction.isEmpty then none
  else
    (exponent? r).map fun e => (natOfDigits (whole ++ fraction), e - (fraction.length : Int))

/-- The nearest double to `n * 10 ^ e`. Beyond the four-hundredth power of ten on either side every
number is infinite or zero, so larger powers are not computed. -/
def scaledFloat (n : Nat) (e : Int) : Float :=
  let bits := Nat.log2 n
  -- A number has at most 28 digits for each 93 bits, and at least 3 for each 10.
  let above : Int := 28 * (bits / 93 : Nat) + 28 + e
  let below : Int := 3 * (bits / 10 : Nat) + e
  if n = 0 || above < -400 then 0.0
  else if 400 < below then 1.0 / 0.0
  else Float.ofScientific n (e < 0) e.natAbs

def readFloat? (s : List Char) : Option Float :=
  let (negative, s) := splitSign s
  let word := s.map Char.toLower
  let magnitude :=
    if word == "inf".toList || word == "infinity".toList then some (1.0 / 0.0)
    else if word == "nan".toList then some (0.0 / 0.0)
    else (decimal? s).map fun (n, e) => scaledFloat n e
  magnitude.map fun x => if negative then -x else x

def readFinite? (s : List Char) : Option Float := (readFloat? s).filter Float.isFinite

/-- The natural number that a text stands for, up to a limit; a plus sign is allowed. -/
def readNat? (limit : Nat) (s : List Char) : Option Nat :=
  let digits :=
    match s with
    | '+' :: r => r
    | r => r
  (wholeDigits? digits).filter (· ≤ limit)

/-- The whole number that a text stands for, between two limits. -/
def readInt? (lowest highest : Int) (s : List Char) : Option Int :=
  let (negative, digits) := splitSign s
  (wholeDigits? digits).bind fun n =>
    let value := if negative then -(n : Int) else (n : Int)
    if lowest ≤ value && value ≤ highest then some value else none

example : (readFloat? "-5.25e1".toList).map Float.toBits = some (-52.5 : Float).toBits ∧
    (readFloat? ".5".toList).isSome ∧ (readFloat? ".".toList).isNone ∧
    (readFloat? "1e".toList).isNone := by decide +kernel

end SkyResolver.Number
