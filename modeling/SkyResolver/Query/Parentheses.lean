import SkyResolver.Query.Tree

/-! The balance of parentheses. The check looks at nothing but the two characters, so parentheses
inside quotes count like all others. -/
namespace SkyResolver.Query

/-- True when every closing parenthesis closes one of `depth` open ones or one opened in the text,
and none is left open. -/
def closesAll : Nat → List Char → Bool
  | depth, [] => depth == 0
  | depth, c :: s =>
    if c = '(' then closesAll (depth + 1) s
    else if c = ')' then depth != 0 && closesAll (depth - 1) s
    else closesAll depth s

def parenthesesMatch (query : String) : Bool := closesAll 0 query.toList

theorem closesAll_append {m n : Nat} {s t : List Char} (hs : closesAll m s = true)
    (ht : closesAll n t = true) : closesAll (m + n) (s ++ t) = true := by
  induction s generalizing m with
  | nil =>
    have hm : m = 0 := by simpa [closesAll] using hs
    simpa [hm] using ht
  | cons c s ih =>
    by_cases hopen : c = '('
    · simp only [closesAll, hopen, if_true, List.cons_append] at hs ⊢
      have := ih hs
      rwa [Nat.add_right_comm] at this
    · by_cases hclose : c = ')'
      · subst hclose
        simp [closesAll] at hs ⊢
        have := ih hs.2
        rw [show m - 1 + n = m + n - 1 by omega] at this
        exact ⟨fun h => absurd h hs.1, this⟩
      · simp only [closesAll, hopen, hclose, if_false, List.cons_append] at hs ⊢
        exact ih hs

example : closesAll 0 "(a (b))".toList = true ∧ closesAll 0 ")(".toList = false := by decide

end SkyResolver.Query
