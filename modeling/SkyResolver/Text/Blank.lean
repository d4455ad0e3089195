/-! White space: the characters with the Unicode property White_Space, and the two ways in which
texts are cut at them. `trim` removes a blank margin on both sides, and `words` gives the maximal
runs of other characters. -/
namespace SkyResolver.Text

/-- The twenty-five characters with the property White_Space. -/
def isBlank (c : Char) : Bool :=
  let n := c.toNat
  (9 ≤ n && n ≤ 13) || n == 0x20 || n == 0x85 || n == 0xA0 || n == 0x1680 ||
  (0x2000 ≤ n && n ≤ 0x200A) || n == 0x2028 || n == 0x2029 || n == 0x202F || n == 0x205F ||
  n == 0x3000

def trimStart (s : List Char) : List Char := s.dropWhile isBlank

def trimEnd (s : List Char) : List Char := (s.reverse.dropWhile isBlank).reverse

def trim (s : List Char) : List Char := trimEnd (trimStart s)

theorem trimStart_head {s : List Char} {c : Char} {r : List Char} (h : trimStart s = c :: r) :
    isBlank c = false := by
  induction s with
  | nil => simp [trimStart] at h
  | cons d t ih =>
    by_cases hd : isBlank d = true
    · exact ih (by simpa [trimStart, hd] using h)
    · simp [trimStart, hd] at h
      simpa [h.1] using hd

/-- The maximal runs of characters that are not blank, in order. -/
def words (s : List Char) : List (List Char) :=
  go s []
where
  /-- `run` holds the characters of the word being read, last one first. -/
  go : List Char → List Char → List (List Char)
    | [], run => if run.isEmpty then [] else [run.reverse]
    | c :: s, run =>
      if isBlank c then
        if run.isEmpty then go s [] else run.reverse :: go s []
      else go s (c :: run)

example : words "  a\t b\u00a0c ".toList = [['a'], ['b'], ['c']] := by decide

example : trim " a b\u3000".toList = "a b".toList := by decide

end SkyResolver.Text
