/-! What a reader returns: a value, and the rest of the text with a proof that something was
consumed. Readers that call each other on rests are thereby total. -/
namespace SkyResolver.Text

/-- What a reader takes from the start of `s`, and the rest. -/
abbrev Reading (α : Type) (s : List Char) := { r : α × List Char // r.2.length < s.length }

/-- A reading, if the rest is in fact shorter. -/
def Reading.check? {α : Type} (s : List Char) (r : α × List Char) : Option (Reading α s) :=
  if h : r.2.length < s.length then some ⟨r, h⟩ else none

theorem length_dropWhile_le (p : Char → Bool) (s : List Char) :
    (s.dropWhile p).length ≤ s.length := (List.dropWhile_sublist p).length_le

end SkyResolver.Text
