import SkyResolver.Text.Search

/-! Names with values as they stand in addresses and forms: letters, digits and a few signs as they
are, blanks as plus signs, all other bytes by number. -/
namespace SkyResolver.Http
open SkyResolver.Text

abbrev Fields := List (String × String)

/-- The bytes that stand for themselves. -/
def isPlainByte (b : UInt8) : Bool :=
  let c := Char.ofNat b.toNat
  b.toNat < 128 && (c.isAlphanum || c == '*' || c == '-' || c == '.' || c == '_')

def hexDigit (n : Nat) : Char := (Nat.digitChar n).toUpper

/-- A byte written by its number. -/
def byteByNumber (b : UInt8) : List Char := ['%', hexDigit (b.toNat / 16), hexDigit (b.toNat % 16)]

def encodeByte (b : UInt8) : List Char :=
  if isPlainByte b then [Char.ofNat b.toNat]
  else if b = 0x20 then ['+']
  else byteByNumber b

def encodeText (s : String) : List Char := s.toUTF8.toList.flatMap encodeByte

def encode (fields : Fields) : List Char :=
  join ['&'] (fields.map fun (name, value) => encodeText name ++ '=' :: encodeText value)

end SkyResolver.Http
