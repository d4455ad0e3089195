import SkyResolver.Proofs.Service.Steps

/-! Steps that add to a log. What several steps add stands there in the order of the steps. -/
namespace SkyResolver

/-- The step adds entries to a log, and `added` holds of them. -/
def Adds {σ α γ : Type} (log : σ → List γ) (added : List γ → Prop) (step : StateM σ α) : Prop :=
  ∀ s, ∃ new, log (step s).2 = log s ++ new ∧ added new

section Adds
variable {σ α β γ : Type} {log : σ → List γ} {p q r : List γ → Prop}

lemma Adds.pure {a : α} (h : p []) : Adds log p (pure a) :=
  fun s => ⟨[], (List.append_nil (log s)).symm, h⟩

lemma Adds.bind {step : StateM σ α} {next : α → StateM σ β} (h : Adds log p step)
    (hnext : ∀ a, Adds log q (next a)) (happend : ∀ x y, p x → q y → r (x ++ y)) :
    Adds log r (step >>= next) := by
  intro s
  obtain ⟨x, hx, hpx⟩ := h s
  obtain ⟨y, hy, hqy⟩ := hnext (step s).1 (step s).2
  exact ⟨x ++ y, by rw [bind_apply, hy, hx, List.append_assoc], happend x y hpx hqy⟩

lemma Adds.mono {step : StateM σ α} (h : Adds log p step) (hpq : ∀ new, p new → q new) :
    Adds log q step := by
  intro s
  obtain ⟨new, hlog, hnew⟩ := h s
  exact ⟨new, hlog, hpq new hnew⟩

lemma Adds.then_pure {step : StateM σ α} (h : Adds log p step) {next : α → StateM σ β}
    (hnext : ∀ a, ∃ b, next a = Pure.pure b) : Adds log p (step >>= next) := by
  intro s
  obtain ⟨b, hb⟩ := hnext (step s).1
  rw [bind_apply, hb]
  exact h s

lemma Adds.mapM {f : α → StateM σ β} {added : α → List γ → Prop} (h : ∀ a, Adds log (added a) (f a))
    (l : List α) :
    Adds log (fun new => ∃ parts, new = parts.flatten ∧ List.Forall₂ added l parts) (l.mapM f) := by
  induction l with
  | nil => exact .pure ⟨[], rfl, .nil⟩
  | cons a l ih =>
    rw [List.mapM_cons]
    refine (h a).bind (fun b => ih.then_pure fun bs => ⟨_, rfl⟩) ?_
    rintro x _ hx ⟨parts, rfl, hparts⟩
    exact ⟨x :: parts, rfl, .cons hx hparts⟩

lemma Adds.mapM_forall {f : α → StateM σ β} {holds : γ → Prop}
    (h : ∀ a, Adds log (fun new => ∀ entry ∈ new, holds entry) (f a)) (l : List α) :
    Adds log (fun new => ∀ entry ∈ new, holds entry) (l.mapM f) := by
  induction l with
  | nil => exact .pure nofun
  | cons a l ih =>
    rw [List.mapM_cons]
    refine (h a).bind (fun b => ih.then_pure fun bs => ⟨_, rfl⟩) fun x y hx hy entry hentry => ?_
    exact (List.mem_append.1 hentry).elim (hx entry) (hy entry)

/-! ### Each entry in its place -/

/-- What each step adds to a log stands there in the order of the items. -/
lemma log_mapM (log : σ → List γ) {added : α → σ → List γ} {f : α → StateM σ β}
    (h : ∀ a s, log (f a s).2 = log s ++ added a s) (l : List α) (s : σ) :
    log (l.mapM f s).2 = log s ++ (l.mapIdx fun i a => added a (stateAt f l s i)).flatten := by
  induction l generalizing s with
  | nil => exact (List.append_nil _).symm
  | cons a l ih =>
    have hlater : ∀ i, stateAt f (a :: l) s (i + 1) = stateAt f l (f a s).2 i := by
      intro i
      rw [stateAt, List.take_succ_cons, run_mapM_cons, stateAt]
    rw [run_mapM_cons, ih, h, List.mapIdx_cons, List.flatten_cons, List.append_assoc]
    simp only [hlater]
    rfl

end Adds

/-! ### Counting -/

section Counts
variable {α γ : Type} {p : γ → Bool} {a : α} {added : Nat → α → List γ} {l : List α}

lemma countP_flatten_mapIdx_eq_zero (hother : ∀ i, ∀ b ≠ a, (added i b).countP p = 0) (h : a ∉ l) :
    (l.mapIdx added).flatten.countP p = 0 := by
  induction l generalizing added with
  | nil => rfl
  | cons b l ih =>
    rw [List.mapIdx_cons, List.flatten_cons, List.countP_append,
      hother 0 b (List.ne_of_not_mem_cons h).symm]
    exact (Nat.zero_add _).trans (ih (fun i => hother (i + 1)) (List.not_mem_of_not_mem_cons h))

/-- Of what is added for the items of a list, only that for `a` counts, if it counts for no other
item. -/
lemma countP_flatten_mapIdx [BEq α] [LawfulBEq α] (hother : ∀ i, ∀ b ≠ a, (added i b).countP p = 0)
    (hl : l.Nodup) (h : a ∈ l) :
    (l.mapIdx added).flatten.countP p = (added (l.idxOf a) a).countP p := by
  induction l generalizing added with
  | nil => cases h
  | cons b l ih =>
    obtain ⟨hb, hl⟩ := List.nodup_cons.1 hl
    rw [List.mapIdx_cons, List.flatten_cons, List.countP_append]
    by_cases hba : b = a
    · subst hba
      rw [List.idxOf_cons_self, countP_flatten_mapIdx_eq_zero (fun i => hother (i + 1)) hb,
        Nat.add_zero]
    · rw [List.idxOf_cons_ne _ hba, hother 0 b hba, Nat.zero_add]
      exact ih (fun i => hother (i + 1)) hl ((List.mem_cons.1 h).resolve_left (Ne.symm hba))

end Counts

end SkyResolver
