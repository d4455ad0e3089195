/-! Powers of two and ten, and the largest and smallest whole numbers that fit in a number of bits.
-/
namespace SkyResolver.Number

def twoTo (n : Nat) : Nat := Nat.pow 2 n

def tenTo (n : Nat) : Nat := Nat.pow 10 n

theorem twoTo_succ (n : Nat) : twoTo (n + 1) = twoTo n * 2 := rfl

theorem tenTo_succ (n : Nat) : tenTo (n + 1) = tenTo n * 10 := rfl

theorem twoTo_pos (n : Nat) : 0 < twoTo n := by
  induction n with
  | zero => decide
  | succ n ih => rw [twoTo_succ]; omega

theorem tenTo_pos (n : Nat) : 0 < tenTo n := by
  induction n with
  | zero => decide
  | succ n ih => rw [tenTo_succ]; omega

/-- The smallest whole number with a sign in a number of bits. -/
def lowestInt (bits : Nat) : Int := -(twoTo (bits - 1) : Int)

def highestInt (bits : Nat) : Int := (twoTo (bits - 1) : Int) - 1

def highestNat (bits : Nat) : Nat := twoTo bits - 1

example : lowestInt 32 = -2147483648 ∧ highestInt 32 = 2147483647 ∧ highestNat 32 = 4294967295 := by
  decide

end SkyResolver.Number
