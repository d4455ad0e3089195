import SkyResolver.Http.Form
import SkyResolver.Http.HostName

/-! Addresses. Reading one drops what does not count (blanks around it, line breaks, a port that is
the usual one, the name of a user) and settles what has several spellings (the case of the host,
backslashes, steps to the directory above, characters that are to be written by number), so that
what is written afterwards is one form of many. -/
namespace SkyResolver.Http
open SkyResolver.Text SkyResolver.Number

/-- An address that names a host. -/
structure Url where
  scheme : List Char
  host : HostName
  /-- Missing when it is the usual one of the scheme. -/
  port : Option Nat
  /-- The texts behind the slashes; there is at least one slash. -/
  path : List (List Char)
  query : Option (List Char)
  fragment : Option (List Char)

def UrlFault.message : UrlFault → String
  | .noScheme => "builder error: relative URL without a base"
  | .noHost => "builder error: empty host"
  | .badDomain => "builder error: invalid international domain name"
  | .badIpv4 => "builder error: invalid IPv4 address"
  | .badIpv6 => "builder error: invalid IPv6 address"
  | .badPort => "builder error: invalid port number"
  | .otherScheme text => "builder error for url (" ++ text ++ "): URL scheme is not allowed"

namespace Url

/-- The schemes whose addresses name a host, with their usual ports. -/
def usualPorts : List (List Char × Nat) :=
  [("http".toList, 80), ("https".toList, 443), ("ftp".toList, 21), ("ws".toList, 80),
    ("wss".toList, 443)]

/-- A text without control characters and blanks around it, and without tabs and line breaks. -/
def cleaned (s : List Char) : List Char :=
  let isEdge (c : Char) := c.toNat ≤ 0x20
  (((s.dropWhile isEdge).reverse.dropWhile isEdge).reverse).filter fun c =>
    c != '\t' && c != '\n' && c != '\r'

/-- The scheme of an address in lower case, and what stands behind its colon. -/
def splitScheme? (s : List Char) : Option (List Char × List Char) :=
  match splitOnce? ':' s with
  | some (c :: scheme, rest) =>
    if c.isAlpha && scheme.all fun d => d.isAlphanum || d == '+' || d == '-' || d == '.' then
      some ((c :: scheme).map Char.toLower, rest)
    else none
  | _ => none

def isSlash (c : Char) : Bool := c == '/' || c == '\\'

/-- True for a character that ends the part of an address that names the host. -/
def endsHost (c : Char) : Bool := isSlash c || c == '?' || c == '#'

/-- A text before its first colon that is not in square brackets, and the text behind that colon. -/
def splitPort : (inBrackets : Bool) → List Char → List Char × List Char
  | _, [] => ([], [])
  | inBrackets, c :: s =>
    if c == ':' && !inBrackets then ([], s)
    else
      let (host, port) := splitPort (c == '[' || (inBrackets && c != ']')) s
      (c :: host, port)

def portOf (usual : Nat) (digits : List Char) : Except UrlFault (Option Nat) :=
  if digits.isEmpty then .ok none
  else
    match wholeDigits? digits with
    | none => .error .badPort
    | some n => if highestNat 16 < n then .error .badPort else .ok (if n = usual then
        none else some n)

/-- One character, by number if it is not plain ASCII or is one of those given. -/
def escapedChar (special : List Char) (c : Char) : List Char :=
  if c.toNat < 0x20 || 0x7F ≤ c.toNat || special.contains c then
    (String.singleton c).toUTF8.toList.flatMap byteByNumber
  else [c]

def escaped (special : String) (s : List Char) : List Char := s.flatMap (escapedChar special.toList)

/-- The number of points in a piece of a path that holds nothing else; a point may be written by
number. -/
def points? (piece : List Char) : Option Nat :=
  match piece with
  | [] => some 0
  | '.' :: s => (points? s).map (· + 1)
  | '%' :: '2' :: 'e' :: s => (points? s).map (· + 1)
  | '%' :: '2' :: 'E' :: s => (points? s).map (· + 1)
  | _ => none

/-- The pieces of a path behind those already settled: one point stays in the directory, and two
points leave it. -/
def settle (above : List (List Char)) : List (List Char) → List (List Char)
  | [] => above
  | piece :: pieces =>
    let directory := match points? piece with
      | some 1 => some above
      | some 2 => some above.dropLast
      | _ => none
    match directory with
    | none => settle (above ++ [escaped " \"#<>?\x60\x7b\x7d" piece]) pieces
    | some directory => if pieces.isEmpty then directory ++ [[]] else settle directory pieces

def pathOf (s : List Char) : List (List Char) :=
  let s := s.map fun c => if c = '\\' then '/' else c
  settle [] (splitAt '/' (match s with
    | '/' :: s => s
    | s => s))

/-- The text of an address with its scheme and what names its host taken off: path, query and
fragment. -/
def splitTail (s : List Char) : List Char × Option (List Char) × Option (List Char) :=
  let (s, fragment) := match splitOnce? '#' s with
    | some (s, fragment) => (s, some fragment)
    | none => (s, none)
  match splitOnce? '?' s with
  | some (path, query) => (path, some query, fragment)
  | none => (s, none, fragment)

def tailChars (query fragment : Option (List Char)) : List Char :=
  query.elim [] ('?' :: ·) ++ fragment.elim [] ('#' :: ·)

/-- A fragment, with the characters that it cannot hold written by number. -/
def fragmentOf (fragment : List Char) : List Char := escaped " \"<>\x60" fragment

/-- The text of an address that names no host; only its characters are settled. -/
def hostlessText (scheme rest : List Char) : String :=
  let (path, query, fragment) := splitTail rest
  String.ofList (scheme ++ ':' :: escaped "" path ++
    tailChars (query.map (escaped " \"#<>")) (fragment.map fragmentOf))

def parse (s : String) : Except UrlFault Url :=
  match splitScheme? (cleaned s.toList) with
  | none => .error .noScheme
  | some (scheme, rest) =>
    match usualPorts.lookup scheme with
    | none => .error (.otherScheme (hostlessText scheme rest))
    | some usual => do
      let rest := rest.dropWhile isSlash
      let authority := rest.takeWhile (!endsHost ·)
      let withoutUser := (authority.reverse.takeWhile (· != '@')).reverse
      let (hostText, portText) := splitPort false withoutUser
      let host ← HostName.parse hostText
      let port ← portOf usual portText
      let (path, query, fragment) := splitTail (rest.dropWhile (!endsHost ·))
      .ok {
        scheme, host, port
        path := pathOf path
        query := query.map (escaped " \"#'<>")
        fragment := fragment.map fragmentOf }

/-- The address with names and values behind its query. -/
def addFields (url : Url) (fields : Fields) : Url :=
  if fields.isEmpty then url
  else
    match url.query with
    | some (c :: query) => { url with query := some (c :: query ++ '&' :: encode fields) }
    | _ => { url with query := some (encode fields) }

def text (url : Url) : String :=
  let port := url.port.elim [] fun n => ':' :: digitChars n
  String.ofList (url.scheme ++ ':' :: '/' :: '/' :: url.host.chars ++ port ++
    url.path.flatMap ('/' :: ·) ++ tailChars url.query url.fragment)

def isHttp (url : Url) : Bool := url.scheme == "http".toList || url.scheme == "https".toList

example : (parse " http://H:80\\a/../b c#top").toOption.map (text <| addFields · [("r", "1 2")]) =
    some "http://h/b%20c?r=1+2#top" := by decide +kernel

end Url
end SkyResolver.Http
