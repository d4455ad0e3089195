import SkyResolver.Number.Write

/-! Lengths of time, and their text: the number of the largest unit that is not below one, with as
many places as are needed. -/
namespace SkyResolver
open SkyResolver.Number

structure Duration where
  nanoseconds : Nat
  deriving DecidableEq, Repr

namespace Duration

def ofMilliseconds (n : Nat) : Duration := ⟨n * 1000000⟩

def ofSeconds (n : Nat) : Duration := ⟨n * 1000000000⟩

/-- A number of nanoseconds as a decimal number of a unit of `10 ^ places` nanoseconds, without
zeros at the end. -/
def decimalChars (places n : Nat) : List Char :=
  let fraction := padZeros places (digitChars (n % tenTo places))
  let kept := (fraction.reverse.dropWhile (· == '0')).reverse
  digitChars (n / tenTo places) ++ if n % tenTo places = 0 then [] else '.' :: kept

def text (d : Duration) : String :=
  let n := d.nanoseconds
  String.ofList <|
    if tenTo 9 ≤ n then decimalChars 9 n ++ ['s']
    else if tenTo 6 ≤ n then decimalChars 6 n ++ ['m', 's']
    else if tenTo 3 ≤ n then decimalChars 3 n ++ ['µ', 's']
    else digitChars n ++ ['n', 's']

example : (ofMilliseconds 1001).text = "1.001s" ∧ (ofMilliseconds 250).text = "250ms" ∧
    (ofSeconds 604800).text = "604800s" ∧ (ofSeconds 0).text = "0ns" ∧
    (⟨1500⟩ : Duration).text = "1.5µs" := by decide +kernel

end Duration
end SkyResolver
