import SkyResolver.Json.Basic
import SkyResolver.Number.Read
import SkyResolver.Text.Reading

/-! Reading JSON. The reader is strict: one value, blanks around it and nothing else, no control
characters inside strings, no escaped half of a surrogate pair, at most `maxDepth` arrays and
objects inside each other, and no number beyond the doubles.

A number with a fraction or an exponent is its first nineteen or so digits as a 64-bit whole number,
multiplied or divided by a power of ten in double arithmetic. So a number with many digits may
differ from the nearest double in its last place. -/
namespace SkyResolver.Json
open SkyResolver.Text SkyResolver.Number

/-- The largest number of arrays and objects around a value. -/
def maxDepth : Nat := 127

def isGap (c : Char) : Bool := c == ' ' || c == '\t' || c == '\n' || c == '\r'

def skipGap (s : List Char) : List Char := s.dropWhile isGap

def hexDigit? (c : Char) : Option Nat :=
  if '0' ≤ c && c ≤ '9' then some (c.toNat - '0'.toNat)
  else if 'a' ≤ c && c ≤ 'f' then some (c.toNat - 'a'.toNat + 10)
  else if 'A' ≤ c && c ≤ 'F' then some (c.toNat - 'A'.toNat + 10)
  else none

def hexUnit? : List Char → Option (Nat × List Char)
  | a :: b :: c :: d :: s => do
    let a ← hexDigit? a
    let b ← hexDigit? b
    let c ← hexDigit? c
    let d ← hexDigit? d
    some (((a * 16 + b) * 16 + c) * 16 + d, s)
  | _ => none

/-- The character of one or two escaped sixteen-bit units. -/
def escapedUnits? (s : List Char) : Option (Char × List Char) := do
  let (high, r) ← hexUnit? s
  if 0xDC00 ≤ high && high < 0xE000 then none
  else if 0xD800 ≤ high && high < 0xDC00 then
    match r with
    | '\\' :: 'u' :: r =>
      let (low, r) ← hexUnit? r
      if 0xDC00 ≤ low && low < 0xE000 then
        some (Char.ofNat (0x10000 + (high - 0xD800) * 0x400 + (low - 0xDC00)), r)
      else none
    | _ => none
  else some (Char.ofNat high, r)

def escaped? : List Char → Option (Char × List Char)
  | '"' :: s => some ('"', s)
  | '\\' :: s => some ('\\', s)
  | '/' :: s => some ('/', s)
  | 'b' :: s => some ('\x08', s)
  | 'f' :: s => some ('\x0c', s)
  | 'n' :: s => some ('\n', s)
  | 'r' :: s => some ('\r', s)
  | 't' :: s => some ('\t', s)
  | 'u' :: s => escapedUnits? s
  | _ => none

/-- The characters up to the closing quote; `fuel` bounds their number. -/
def stringBody? : (fuel : Nat) → List Char → Option (List Char × List Char)
  | 0, _ => none
  | _ + 1, [] => none
  | _ + 1, '"' :: s => some ([], s)
  | fuel + 1, '\\' :: s => do
    let (c, r) ← escaped? s
    let (body, r) ← stringBody? fuel r
    some (c :: body, r)
  | fuel + 1, c :: s =>
    if c.toNat < 0x20 then none
    else do
      let (body, r) ← stringBody? fuel s
      some (c :: body, r)

def string? : List Char → Option (String × List Char)
  | '"' :: s => (stringBody? (s.length + 1) s).map fun (body, r) => (String.ofList body, r)
  | _ => none

/-- The digits that fit into a 64-bit whole number, from the first on, and those that do not. -/
def significand : Nat → List Char → Nat × List Char
  | n, [] => (n, [])
  | n, c :: s =>
    let next := 10 * n + (c.toNat - '0'.toNat)
    if next ≤ highestNat 64 then significand next s else (n, c :: s)

/-- A whole number times a power of ten, by at most two steps of double arithmetic. A number that is
too large is refused. -/
def scaled? (n : Nat) (exponent : Int) : Option Float :=
  let x := Float.ofNat n
  if 0 ≤ exponent then
    if exponent ≤ 308 then
      let y := x * Float.ofScientific 1 false exponent.natAbs
      if y.isInf then none else some y
    else if n = 0 then some x
    else none
  else if -308 ≤ exponent then some (x / Float.ofScientific 1 false exponent.natAbs)
  else if -616 ≤ exponent then
    some (x / Float.ofScientific 1 false 308 / Float.ofScientific 1 false (exponent.natAbs - 308))
  else some 0.0

/-- The exponent behind `e`, and the rest. -/
def exponentPart? (s : List Char) : Option (Int × List Char) :=
  let (negative, s) := splitSign s
  let (digits, r) := digitRun s
  if digits.isEmpty then none
  else
    let n := natOfDigits digits
    some (if negative then -(n : Int) else (n : Int), r)

def unsigned? (negative : Bool) (s : List Char) : Option (JsonNumber × List Char) := do
  let (whole, r) := digitRun s
  if whole.isEmpty || (whole.length != 1 && whole.head? == some '0') then none
  let (n, dropped) := significand 0 whole
  let (fraction, r, isWhole) ←
    match r with
    | '.' :: r =>
      let (fraction, r) := digitRun r
      if fraction.isEmpty then none else some (fraction, r, false)
    | r => some ([], r, true)
  let (n, ignored) := significand n fraction
  let (exponent, r, isWhole) ←
    match r with
    | 'e' :: r | 'E' :: r => (exponentPart? r).map fun (e, r) => (e, r, false)
    | r => some (0, r, isWhole)
  if isWhole && dropped.isEmpty && (if negative then n != 0 && n ≤ twoTo 63 else true) then
    some (.int (if negative then -(n : Int) else (n : Int)), r)
  else
    let used := (fraction.length - ignored.length : Nat)
    let x ← scaled? n (exponent + (dropped.length : Int) - (used : Int))
    some (.float (if negative then -x else x), r)

def number? : List Char → Option (JsonNumber × List Char)
  | '-' :: s => unsigned? true s
  | s => unsigned? false s

/-- A value that holds no other values. -/
def scalar? (s : List Char) : Option (Json × List Char) :=
  match s with
  | 'n' :: 'u' :: 'l' :: 'l' :: r => some (.null, r)
  | 't' :: 'r' :: 'u' :: 'e' :: r => some (.bool true, r)
  | 'f' :: 'a' :: 'l' :: 's' :: 'e' :: r => some (.bool false, r)
  | '"' :: _ => (string? s).map fun (text, r) => (.string text, r)
  | _ => (number? s).map fun (n, r) => (.number n, r)

mutual

/-- A value within at most `depth` arrays and objects of its own. -/
def value? (depth : Nat) (s : List Char) : Option (Reading Json s) :=
  have hgap : (skipGap s).length ≤ s.length := length_dropWhile_le isGap s
  match hs : skipGap s with
  | '[' :: r =>
    have hr : r.length < s.length := by rw [hs] at hgap; exact hgap
    match depth with
    | 0 => none
    | depth + 1 =>
      match skipGap r with
      | ']' :: r' => Reading.check? s (.array [], r')
      | _ =>
        match itemsUpTo? depth r with
        | some ⟨(items, r'), h⟩ => some ⟨(.array items, r'), Nat.lt_trans h hr⟩
        | none => none
  | '\x7b' :: r =>
    have hr : r.length < s.length := by rw [hs] at hgap; exact hgap
    match depth with
    | 0 => none
    | depth + 1 =>
      match skipGap r with
      | '\x7d' :: r' => Reading.check? s (.object [], r')
      | _ =>
        match membersUpTo? depth [] r with
        | some ⟨(members, r'), h⟩ => some ⟨(.object members, r'), Nat.lt_trans h hr⟩
        | none => none
  | r => (scalar? r).bind (Reading.check? s)
termination_by (s.length, 0)
decreasing_by
  · exact Prod.Lex.left _ _ hr
  · exact Prod.Lex.left _ _ hr

def itemsUpTo? (depth : Nat) (s : List Char) : Option (Reading (List Json) s) :=
  match value? depth s with
  | none => none
  | some ⟨(item, r), h⟩ =>
    match hr : skipGap r with
    | ']' :: r' => Reading.check? s ([item], r')
    | ',' :: r' =>
      have hr' : r'.length < s.length := by
        have hgap : (skipGap r).length ≤ r.length := length_dropWhile_le isGap r
        rw [hr, List.length_cons] at hgap
        exact Nat.lt_trans hgap h
      match itemsUpTo? depth r' with
      | none => none
      | some ⟨(rest, r''), h''⟩ => some ⟨(item :: rest, r''), Nat.lt_trans h'' hr'⟩
    | _ => none
termination_by (s.length, 1)

def membersUpTo? (depth : Nat) (done : List (String × Json)) (s : List Char) :
    Option (Reading (List (String × Json)) s) :=
  match (string? (skipGap s)).bind (Reading.check? s) with
  | none => none
  | some ⟨(name, r), h⟩ =>
    match hr : skipGap r with
    | ':' :: r' =>
      have hr' : r'.length < s.length := by
        have hgap : (skipGap r).length ≤ r.length := length_dropWhile_le isGap r
        rw [hr, List.length_cons] at hgap
        exact Nat.lt_trans hgap h
      match value? depth r' with
      | none => none
      | some ⟨(value, r''), h''⟩ =>
        let done := setMember done name value
        match hr'' : skipGap r'' with
        | '\x7d' :: r''' => Reading.check? s (done, r''')
        | ',' :: r''' =>
          have hlt : r'''.length < s.length := by
            have hgap : (skipGap r'').length ≤ r''.length := length_dropWhile_le isGap r''
            rw [hr'', List.length_cons] at hgap
            exact Nat.lt_trans hgap (Nat.lt_trans h'' hr')
          match membersUpTo? depth done r''' with
          | none => none
          | some ⟨(members, r4), h4⟩ => some ⟨(members, r4), Nat.lt_trans h4 hlt⟩
        | _ => none
    | _ => none
termination_by (s.length, 1)

end

def parse? (text : String) : Option Json :=
  match value? maxDepth text.toList with
  | some ⟨(value, r), _⟩ => if (skipGap r).isEmpty then some value else none
  | none => none

end SkyResolver.Json
