/-! Byte offsets into the UTF-8 form of a text. A `Span` is a range of such offsets, and
`Span.slice?` gives the characters it covers, provided that it starts and ends between characters.
-/
namespace SkyResolver.Text

/-- The number of bytes in the UTF-8 form of a text. -/
def byteLength : List Char → Nat
  | [] => 0
  | c :: s => c.utf8Size + byteLength s

@[simp] theorem byteLength_nil : byteLength [] = 0 := rfl

@[simp] theorem byteLength_cons (c : Char) (s : List Char) :
    byteLength (c :: s) = c.utf8Size + byteLength s := rfl

@[simp] theorem byteLength_append (s t : List Char) :
    byteLength (s ++ t) = byteLength s + byteLength t := by
  induction s with
  | nil => simp
  | cons c s ih => simp [ih, Nat.add_assoc]

/-- The text from byte `n` on, when a character starts there or the text ends there. -/
def dropBytes? : Nat → List Char → Option (List Char)
  | 0, s => some s
  | _ + 1, [] => none
  | n + 1, c :: s => if c.utf8Size ≤ n + 1 then dropBytes? (n + 1 - c.utf8Size) s else none

/-- The first `n` bytes of the text, when they end between characters. -/
def takeBytes? : Nat → List Char → Option (List Char)
  | 0, _ => some []
  | _ + 1, [] => none
  | n + 1, c :: s =>
    if c.utf8Size ≤ n + 1 then (takeBytes? (n + 1 - c.utf8Size) s).map (c :: ·) else none

/-- The bytes of a text that starts with a character, as the readers take them off. -/
theorem exists_byteLength_cons (c : Char) (s : List Char) :
    ∃ k, byteLength (c :: s) = k + 1 ∧ c.utf8Size ≤ k + 1 ∧ k + 1 - c.utf8Size = byteLength s := by
  have hpos := c.utf8Size_pos
  refine ⟨c.utf8Size - 1 + byteLength s, ?_, by omega, by omega⟩
  rw [byteLength_cons]
  omega

@[simp] theorem dropBytes?_append (s t : List Char) :
    dropBytes? (byteLength s) (s ++ t) = some t := by
  induction s with
  | nil => simp [dropBytes?]
  | cons c s ih =>
    obtain ⟨k, hk, hsize, hrest⟩ := exists_byteLength_cons c s
    rw [hk]
    simp [dropBytes?, hsize, hrest, ih]

@[simp] theorem takeBytes?_append (s t : List Char) :
    takeBytes? (byteLength s) (s ++ t) = some s := by
  induction s with
  | nil => simp [takeBytes?]
  | cons c s ih =>
    obtain ⟨k, hk, hsize, hrest⟩ := exists_byteLength_cons c s
    rw [hk]
    simp [takeBytes?, hsize, hrest, ih]

/-- A range of byte offsets: from `start` up to and without `stop`. -/
structure Span where
  start : Nat
  stop : Nat
  deriving DecidableEq, Repr

def Span.slice? (span : Span) (s : List Char) : Option (List Char) :=
  if span.start ≤ span.stop then
    (dropBytes? span.start s).bind (takeBytes? (span.stop - span.start))
  else none

end SkyResolver.Text
