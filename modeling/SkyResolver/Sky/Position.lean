import SkyResolver.Number.Read
import SkyResolver.Sky.Coordinate
import SkyResolver.Text.Blank
import SkyResolver.Text.Digit
import SkyResolver.Text.Search

/-! Reading positions: a coordinate, and behind the first colon a search radius.

The coordinate is two numbers of degrees, or six sexagesimal numbers, or two sexagesimal texts with
letters between their parts; the declination always has a sign. The radius is in degrees, in
arcminutes or arcseconds with a mark behind it, or one to three whole numbers that are degrees,
minutes and seconds. A radius that cannot be read does no harm: the default takes its place. -/
namespace SkyResolver
open SkyResolver.Text SkyResolver.Number

/-- A circle on the sky; the radius is in degrees. -/
structure Position where
  coordinate : Coordinate
  radius : Float

def Position.limited (p : Position) (limit : Float) : Position :=
  { p with radius := smaller p.radius limit }

inductive CoordinateFault where
  | tokenCount (count : Nat)
  | notANumber (text : String)
  | unsignedDeclination (text : String)
  | unreadableRightAscension (text : String)
  | unreadableDeclination (text : String)
  | unitsOutOfRange (units : Float)
  | partsOutOfRange (minutes seconds : Float)
  | rightAscensionOutOfRange (ra : Float)
  | declinationOutOfRange (dec : Float)

def plainText (x : Float) : String := String.ofList (plain x)

def CoordinateFault.reason : CoordinateFault → String
  | .tokenCount count => s!"expected 2 or 6 space separated values, found {count}"
  | .notANumber text => s!"'{text}' is not a number"
  | .unsignedDeclination text => s!"declination '{text}' must start with + or -"
  | .unreadableRightAscension text => s!"cannot read right ascension '{text}'"
  | .unreadableDeclination text => s!"cannot read declination '{text}'"
  | .unitsOutOfRange units => plainText units ++ " is out of range"
  | .partsOutOfRange minutes seconds =>
    "minutes " ++ plainText minutes ++ " or seconds " ++ plainText seconds ++ " out of range"
  | .rightAscensionOutOfRange ra => "right ascension " ++ plainText ra ++ " is outside [0, 360)"
  | .declinationOutOfRange dec => "declination " ++ plainText dec ++ " is outside [-90, 90]"

structure PositionError where
  input : String
  fault : CoordinateFault

def PositionError.message (e : PositionError) : String :=
  s!"Invalid position string: {e.input} (" ++ e.fault.reason ++ ")"

def numberIn (s : List Char) : Except CoordinateFault Float :=
  match readFinite? s with
  | some x => .ok x
  | none => .error (.notANumber (String.ofList s))

def hasSign : List Char → Bool
  | '+' :: _ => true
  | '-' :: _ => true
  | _ => false

def demandSign (dec : List Char) : Except CoordinateFault Unit :=
  if hasSign dec then .ok () else .error (.unsignedDeclination (String.ofList dec))

/-- The bound below which the degrees of a declination must lie. -/
def degreesLimit : Float := 90.0 + Float.ofBits 0x3CB0000000000000

/-- Demands units from zero up to a limit, and minutes and seconds below sixty. -/
def checkParts (units minutes seconds limit : Float) : Except CoordinateFault Unit :=
  if units < 0.0 || limit ≤ units then .error (.unitsOutOfRange units)
  else if !(0.0 ≤ minutes && minutes < 60.0) || !(0.0 ≤ seconds && seconds < 60.0) then
    .error (.partsOutOfRange minutes seconds)
  else .ok ()

/-- The coordinate with the given parts; the degrees carry no sign. -/
def ofSexagesimal (h m s : Float) (negative : Bool) (d arcmin arcsec : Float) :
    Except CoordinateFault Coordinate := do
  checkParts h m s 24.0
  checkParts d arcmin arcsec degreesLimit
  let dec := d + arcmin / 60.0 + arcsec / 3600.0
  .ok { ra := (h + m / 60.0 + s / 3600.0) * 15.0, dec := if negative then -dec else dec }

/-- One or two digits and the letter behind them, in either case. -/
def digitsBefore? (letter : Char) (s : List Char) : Option (List Char × List Char) :=
  let digits := s.takeWhile isDigit
  match s.dropWhile isDigit with
  | c :: rest =>
    if (digits.length == 1 || digits.length == 2) && c.toLower == letter then some (digits, rest)
    else none
  | [] => none

/-- The seconds at the end of a text: one or two digits, maybe with a fraction, maybe with an `s`.
The long `ſ` is a form of that letter. -/
def secondsAtEnd? (s : List Char) : Option (List Char) :=
  let whole := s.takeWhile isDigit
  let rest := s.dropWhile isDigit
  let (fraction, rest) :=
    match rest with
    | '.' :: r =>
      if (r.takeWhile isDigit).isEmpty then ([], rest)
      else ('.' :: r.takeWhile isDigit, r.dropWhile isDigit)
    | r => ([], r)
  if whole.length == 1 || whole.length == 2 then
    match rest with
    | [] => some (whole ++ fraction)
    | [c] => if c == 's' || c == 'S' || c == 'ſ' then some (whole ++ fraction) else none
    | _ => none
  else none

/-- The three parts of a sexagesimal text with letters; `unit` is the letter behind the units. -/
def letterParts? (unit : Char) (s : List Char) : Option (List Char × List Char × List Char) := do
  let (units, r) ← digitsBefore? unit s
  let (minutes, r) ← digitsBefore? 'm' r
  let seconds ← secondsAtEnd? r
  some (units, minutes, seconds)

def letterCoordinate (ra dec : List Char) : Except CoordinateFault Coordinate := do
  demandSign dec
  let some (h, m, s) := letterParts? 'h' ra
    | .error (.unreadableRightAscension (String.ofList ra))
  let (negative, unsigned) := splitSign dec
  let some (d, arcmin, arcsec) := letterParts? 'd' unsigned
    | .error (.unreadableDeclination (String.ofList dec))
  let h ← numberIn h
  let m ← numberIn m
  let s ← numberIn s
  let d ← numberIn d
  let arcmin ← numberIn arcmin
  let arcsec ← numberIn arcsec
  ofSexagesimal h m s negative d arcmin arcsec

/-- The coordinate in the words of a text, before its range is checked. -/
def coordinateOfWords : List (List Char) → Except CoordinateFault Coordinate
  | [ra, dec] =>
    match readFinite? ra, readFinite? dec with
    | some x, some y => do
      demandSign dec
      .ok ⟨x, y⟩
    | _, _ => letterCoordinate ra dec
  | [h, m, s, d, arcmin, arcsec] => do
    demandSign d
    let h ← numberIn h
    let m ← numberIn m
    let s ← numberIn s
    let d ← numberIn d
    let arcmin ← numberIn arcmin
    let arcsec ← numberIn arcsec
    ofSexagesimal h m s (hasMinusSign d) d.abs arcmin arcsec
  | tokens => .error (.tokenCount tokens.length)

def Coordinate.parse (s : List Char) : Except CoordinateFault Coordinate := do
  let c ← coordinateOfWords (words s)
  if !(0.0 ≤ c.ra && c.ra < 360.0) then .error (.rightAscensionOutOfRange c.ra)
  else if !(-90.0 ≤ c.dec && c.dec ≤ 90.0) then .error (.declinationOutOfRange c.dec)
  else .ok c

/-- The mark behind arcminutes; two of them mark arcseconds. -/
def minuteMark : Char := Char.ofNat 0x27

def secondMark : Char := '"'

/-- Degrees, minutes and seconds as degrees; missing parts are the larger ones. -/
def radiusOfParts? : List Nat → Option Float
  | [s] => some (Float.ofNat 0 + Float.ofNat 0 / 60.0 + Float.ofNat s / 3600.0)
  | [m, s] => some (Float.ofNat 0 + Float.ofNat m / 60.0 + Float.ofNat s / 3600.0)
  | [d, m, s] => some (Float.ofNat d + Float.ofNat m / 60.0 + Float.ofNat s / 3600.0)
  | _ => none

/-- The degrees in the text of a radius, of whatever sign. -/
def degreesIn? (s : List Char) : Option Float :=
  let s := replacePair minuteMark minuteMark secondMark (trim s)
  match readFinite? s with
  | some x => some x
  | none =>
    if s.getLast? = some minuteMark then (readFinite? (trim s.dropLast)).map (· / 60.0)
    else if s.getLast? = some secondMark then (readFinite? (trim s.dropLast)).map (· / 3600.0)
    else ((words s).mapM (readNat? (highestNat 32))).bind radiusOfParts?

/-- The radius that a text stands for, if it is above zero. -/
def radiusIn? (s : List Char) : Option Float := (degreesIn? s).filter (0.0 < ·)

/-- The position that a text stands for; `default` is the radius where the text gives none. -/
def Position.parse (default : Float) (text : String) : Except PositionError Position :=
  let (place, radius) :=
    match splitOnce? ':' text.toList with
    | some (place, radius) => (place, radiusIn? radius)
    | none => (text.toList, none)
  match Coordinate.parse (trim place) with
  | .ok coordinate => .ok { coordinate, radius := radius.getD default }
  | .error fault => .error { input := text, fault }

end SkyResolver
