/-! Lists without repetitions. -/
namespace SkyResolver

/-- The items of a list, each at its first place only. -/
def distinct {α : Type} [DecidableEq α] (l : List α) : List α :=
  l.foldl (fun seen a => if a ∈ seen then seen else seen ++ [a]) []

theorem foldl_distinct_append {α : Type} [DecidableEq α] (l seen : List α) :
    l.foldl (fun seen a => if a ∈ seen then seen else seen ++ [a]) seen =
      seen ++ (distinct (l.filter fun a => !decide (a ∈ seen))) := by
  have key : ∀ (l seen kept : List α),
      l.foldl (fun seen a => if a ∈ seen then seen else seen ++ [a]) (seen ++ kept) =
        seen ++ (l.filter fun a => !decide (a ∈ seen)).foldl
          (fun seen a => if a ∈ seen then seen else seen ++ [a]) kept := by
    intro l
    induction l with
    | nil => simp
    | cons a l ih =>
      intro seen kept
      by_cases hs : a ∈ seen
      · simp [hs, ih]
      · by_cases hk : a ∈ kept
        · simp [hs, hk, ih]
        · simp [hs, hk, ← ih, List.append_assoc]
  simpa [distinct] using key l seen []

theorem distinct_cons {α : Type} [DecidableEq α] (a : α) (l : List α) :
    distinct (a :: l) = a :: distinct (l.filter fun b => b ≠ a) := by
  have h := foldl_distinct_append l [a]
  simpa [distinct] using h

/-- Induction along the items that are kept: with each of them, all its repetitions go. -/
theorem distinct_induction {α : Type} [DecidableEq α] {motive : List α → Prop} (nil : motive [])
    (cons : ∀ a l, motive (l.filter fun b => b ≠ a) → motive (a :: l)) (l : List α) : motive l := by
  induction hn : l.length using Nat.strongRecOn generalizing l with
  | ind n ih =>
    cases l with
    | nil => exact nil
    | cons a l =>
      subst hn
      exact cons a l (ih _ (Nat.lt_succ_of_le (List.length_filter_le _ _)) _ rfl)

@[simp] theorem mem_distinct {α : Type} [DecidableEq α] {a : α} {l : List α} :
    a ∈ distinct l ↔ a ∈ l := by
  induction l using distinct_induction with
  | nil => simp [distinct]
  | cons b l ih =>
    rw [distinct_cons, List.mem_cons, ih]
    by_cases h : a = b <;> simp [h]

theorem nodup_distinct {α : Type} [DecidableEq α] (l : List α) : (distinct l).Nodup := by
  induction l using distinct_induction with
  | nil => simp [distinct]
  | cons a l ih =>
    rw [distinct_cons, List.nodup_cons]
    exact ⟨by simp, ih⟩

end SkyResolver
