/-! Looking for one text inside another: the first occurrence, replacement of all occurrences, and
splitting at a character. -/
namespace SkyResolver.Text

/-- What is left of `s` after `p`, when `s` starts with `p`. -/
def afterPrefix? : (p s : List Char) → Option (List Char)
  | [], s => some s
  | _ :: _, [] => none
  | c :: p, d :: s => if c = d then afterPrefix? p s else none

theorem afterPrefix?_eq_some_iff {p s r : List Char} : afterPrefix? p s = some r ↔ s = p ++ r := by
  induction p generalizing s with
  | nil => simp [afterPrefix?, eq_comm]
  | cons c p ih =>
    cases s with
    | nil => simp [afterPrefix?]
    | cons d s =>
      by_cases h : c = d
      · simp [afterPrefix?, h, ih]
      · simp [afterPrefix?, h]
        exact fun h' => absurd h'.symm h

/-- The text before and the text after the first occurrence of `p` in `s`. -/
def cutAt? (p : List Char) : List Char → Option (List Char × List Char)
  | [] => if p.isEmpty then some ([], []) else none
  | c :: s =>
    match afterPrefix? p (c :: s) with
    | some r => some ([], r)
    | none => (cutAt? p s).map fun (before, after) => (c :: before, after)

theorem eq_append_of_cutAt? {p s before after : List Char} (h : cutAt? p s = some (before, after)) :
    s = before ++ p ++ after := by
  induction s generalizing before with
  | nil =>
    by_cases hp : p = []
    · simp [cutAt?, hp] at h
      simp [hp, h.1, h.2]
    · simp [cutAt?, hp] at h
  | cons c s ih =>
    unfold cutAt? at h
    split at h
    · rename_i r hr
      simp at h
      simpa [h.1, h.2] using afterPrefix?_eq_some_iff.1 hr
    · simp only [Option.map_eq_some_iff, Prod.mk.injEq] at h
      obtain ⟨⟨b, a⟩, hb, rfl, rfl⟩ := h
      simp [ih hb]

def replaceChar (c : Char) (by_ : List Char) (s : List Char) : List Char :=
  s.flatMap fun d => if d = c then by_ else [d]

/-- The text with each occurrence of the character pair `a b` replaced, leftmost first. -/
def replacePair (a b c : Char) : List Char → List Char
  | x :: y :: s =>
    if x = a ∧ y = b then c :: replacePair a b c s else x :: replacePair a b c (y :: s)
  | s => s

/-- The pieces between the occurrences of a character; one more than there are occurrences. -/
def splitAt (c : Char) : List Char → List (List Char)
  | [] => [[]]
  | d :: s =>
    if d = c then [] :: splitAt c s
    else
      match splitAt c s with
      | piece :: pieces => (d :: piece) :: pieces
      | [] => [[d]]

def splitOnce? (c : Char) : List Char → Option (List Char × List Char)
  | [] => none
  | d :: s =>
    if d = c then some ([], s) else (splitOnce? c s).map fun (before, after) => (d :: before, after)

def join (separator : List Char) (pieces : List (List Char)) : List Char :=
  (pieces.intersperse separator).flatten

/-- Equality of texts up to the case of the letters `a` to `z`. -/
def equalIgnoringCase (s t : List Char) : Bool := s.map Char.toLower == t.map Char.toLower

end SkyResolver.Text
