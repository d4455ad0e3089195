import SkyResolver.Json.Reader
import SkyResolver.Number.Read
import SkyResolver.Number.Write
import SkyResolver.Text.Search

/-! The hosts that addresses name: by a domain name, or by a number in one of the two widths of IP.
A name whose last part is a number is such a number, in any of the spellings that are in use, and is
written in the usual one. -/
namespace SkyResolver.Http
open SkyResolver.Text SkyResolver.Number

inductive UrlFault where
  | noScheme
  | noHost
  | badDomain
  | badIpv4
  | badIpv6
  | badPort
  /-- The text is an address, but not one that is reached over HTTP. -/
  | otherScheme (text : String)
  deriving DecidableEq, Repr

inductive HostName where
  | domain (name : List Char)
  /-- Four bytes. -/
  | ipv4 (bytes : List Nat)
  /-- Eight groups of sixteen bits. -/
  | ipv6 (groups : List Nat)
  deriving DecidableEq, Repr

namespace HostName

/-- The value of digits to a base up to sixteen; nothing at all is zero. -/
def valueOf? (base : Nat) (digits : List Char) : Option Nat :=
  digits.foldlM (fun n c => ((Json.hexDigit? c).filter (· < base)).map (base * n + ·)) 0

/-- A part of an IPv4 number: hexadecimal behind `0x`, octal behind a zero, and else decimal. -/
def ipv4Part? : List Char → Option Nat
  | [] => none
  | '0' :: 'x' :: s => valueOf? 16 s
  | '0' :: 'X' :: s => valueOf? 16 s
  | '0' :: s => valueOf? 8 s
  | s => valueOf? 10 s

/-- The parts of a name between points; a point at the end adds none. -/
def labels (name : List Char) : List (List Char) :=
  let parts := splitAt '.' name
  if 1 < parts.length && parts.getLast? == some [] then parts.dropLast else parts

def endsInNumber (name : List Char) : Bool :=
  match (labels name).getLast? with
  | some last => (!last.isEmpty && last.all Char.isDigit) || (ipv4Part? last).isSome
  | none => false

/-- The lowest bytes of a number, the highest of them first. -/
def bytesOf (count n : Nat) : List Nat :=
  (List.range count).map fun i => n / twoTo (8 * (count - 1 - i)) % 256

/-- The four bytes of an IPv4 number: one for each part but the last, which fills the rest. -/
def ipv4? (name : List Char) : Option (List Nat) := do
  let parts ← (labels name).mapM ipv4Part?
  let last ← parts.getLast?
  let before := parts.dropLast
  let count := 4 - before.length
  if 3 < before.length || before.any (255 < ·) || twoTo (8 * count) ≤ last then none
  else some (before ++ bytesOf count last)

def ipv6Group? (s : List Char) : Option Nat :=
  if s.isEmpty || 4 < s.length then none else valueOf? 16 s

/-- Four decimal bytes as two groups. -/
def ipv6Tail? (s : List Char) : Option (List Nat) := do
  let parts := splitAt '.' s
  if parts.any fun part => 1 < part.length && part.head? == some '0' then none
  match ← parts.mapM fun part => (wholeDigits? part).filter (· ≤ 255) with
  | [a, b, c, d] => some [256 * a + b, 256 * c + d]
  | _ => none

/-- Groups between colons; the last of them may be written as four bytes. -/
def ipv6Groups? : List (List Char) → Option (List Nat)
  | [] => some []
  | [last] => if last.contains '.' then ipv6Tail? last else (ipv6Group? last).map ([·])
  | group :: groups => do some ((← ipv6Group? group) :: (← ipv6Groups? groups))

/-- The pieces of a text between colons; the empty text has none. -/
def colonPieces (s : List Char) : List (List Char) := if s.isEmpty then [] else splitAt ':' s

/-- The eight groups of an IPv6 number; a double colon stands for all groups that are left out. -/
def ipv6? (s : List Char) : Option (List Nat) :=
  match cutAt? [':', ':'] s with
  | none => (ipv6Groups? (colonPieces s)).filter (·.length == 8)
  | some (before, after) => do
    let front ← (colonPieces before).mapM ipv6Group?
    let back ← ipv6Groups? (colonPieces after)
    let count := front.length + back.length
    if 7 < count then none else some (front ++ List.replicate (8 - count) 0 ++ back)

def isForbidden (c : Char) : Bool :=
  c.toNat ≤ 0x20 || 0x7F ≤ c.toNat || "%#/:<>?@[\\]^|".toList.contains c

/-- A text in which bytes may be written by number. -/
def decoded? (s : List Char) : Option (List Char) :=
  (String.fromUTF8? ⟨(bytes s).toArray⟩).map String.toList
where
  bytes : List Char → List UInt8
    | '%' :: a :: b :: s =>
      match Json.hexDigit? a, Json.hexDigit? b with
      | some high, some low => (16 * high + low).toUInt8 :: bytes s
      | _, _ => 0x25 :: bytes (a :: b :: s)
    | c :: s => (String.singleton c).toUTF8.toList ++ bytes s
    | [] => []

/-- The host that a text names. Of domain names, those in ASCII are known. -/
def parse (s : List Char) : Except UrlFault HostName :=
  match s with
  | [] => .error .noHost
  | '[' :: rest =>
    match rest.getLast?, ipv6? rest.dropLast with
    | some ']', some groups => .ok (.ipv6 groups)
    | _, _ => .error .badIpv6
  | s =>
    match decoded? s with
    | none => .error .badDomain
    | some name =>
      if name.any isForbidden then .error .badDomain
      else if endsInNumber name then
        match ipv4? name with
        | some bytes => .ok (.ipv4 bytes)
        | none => .error .badIpv4
      else .ok (.domain (name.map Char.toLower))

def zeroRun (groups : List Nat) : Nat := (groups.takeWhile (· == 0)).length

/-- The place and the length of the longest run of zeros, the first one of equally long ones. -/
def longestZeroRun (groups : List Nat) : Nat × Nat :=
  (List.range groups.length).foldl (fun best i =>
    let run := zeroRun (groups.drop i)
    if best.2 < run then (i, run) else best) (0, 0)

def groupChars (groups : List Nat) : List Char := join [':'] (groups.map (Nat.toDigits 16))

/-- The text of a host; the longest run of at least two zero groups is left out. -/
def chars : HostName → List Char
  | .domain name => name
  | .ipv4 bytes => join ['.'] (bytes.map digitChars)
  | .ipv6 groups =>
    let (start, length) := longestZeroRun groups
    let inside :=
      if length < 2 then groupChars groups
      else
        groupChars (groups.take start) ++ ':' :: ':' :: groupChars (groups.drop (start + length))
    '[' :: inside ++ [']']

example : (parse "[1:0:0::2]".toList).toOption.map chars = some "[1::2]".toList ∧
    (parse "0x7F.1".toList).toOption.map chars = some "127.0.0.1".toList := by decide +kernel

end HostName
end SkyResolver.Http
