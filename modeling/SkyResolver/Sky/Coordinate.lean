import SkyResolver.Number.Write

/-! Coordinates on the sky, right ascension and declination in degrees, and their sexagesimal text.
-/
namespace SkyResolver
open SkyResolver.Number

/-- A point on the sky in the ICRS frame, in degrees. -/
structure Coordinate where
  ra : Float
  dec : Float

structure Sexagesimal where
  units : Nat
  minutes : Nat
  seconds : Float

/-- Cuts a number that is not negative; the seconds are rounded to four places before anything is
cut off, so that they never come out as sixty. -/
def Sexagesimal.ofFloat (x : Float) : Sexagesimal :=
  let total := round (x * 3600.0 * 10000.0) / 10000.0
  let units := floor (total / 3600.0)
  let minutes := floor ((total - units * 3600.0) / 60.0)
  let seconds := total - units * 3600.0 - minutes * 60.0
  ⟨units.toUInt64.toNat, minutes.toUInt64.toNat, nonNegative seconds⟩

/-- The parts with two digits at least, the seconds with four places, each behind its unit letter.
-/
def Sexagesimal.chars (unit : Char) (p : Sexagesimal) : List Char :=
  padZeros 2 (digitChars p.units) ++ unit :: padZeros 2 (digitChars p.minutes) ++
    'm' :: fixed 7 4 p.seconds ++ ['s']

def Coordinate.sexagesimalTexts (c : Coordinate) : String × String :=
  let hours := Sexagesimal.ofFloat (positiveRemainder c.ra 360 / 15.0)
  let degrees := Sexagesimal.ofFloat c.dec.abs
  let sign := if c.dec < 0.0 then '-' else '+'
  (String.ofList (hours.chars 'h'), String.ofList (sign :: degrees.chars 'd'))

end SkyResolver
