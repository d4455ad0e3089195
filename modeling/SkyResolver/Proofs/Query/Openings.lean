import SkyResolver.Proofs.Query.Readers

/-! Which texts start an operand, decided by their first lexemes. The readers agree as far as they
succeed: what is read as an operand starts one. -/
namespace SkyResolver.Query
open SkyResolver.Text

/-- True where a group, a range, a phrase or a word starts. -/
def opensElement (s : List Char) : Bool :=
  match s with
  | '(' :: _ | '[' :: _ | '\x7b' :: _ | '"' :: _ => true
  | _ => !atReserved s && atWordChar s && s.head? != some '+' && s.head? != some '-'

/-- True where a field or another element starts. -/
def startsElement (s : List Char) : Bool := (headAt s).isSome || opensElement s

/-- True where an operand starts, behind any number of prefixes. -/
def startsOperand (s : List Char) : Bool :=
  match prefixOp? (skipGap s) with
  | some ⟨(_, r), h⟩ =>
    have : r.length < s.length := Nat.lt_of_lt_of_le h (length_skipGap_le s)
    startsOperand r || startsElement (skipGap s)
  | none => startsElement (skipGap s)
termination_by s.length

/-- True where an `AND` stands that an operand follows. -/
def takesAnd (s : List Char) : Bool := (afterAt .and s).any startsOperand

lemma startsOperand_eq (s : List Char) : startsOperand s =
    (((prefixAt (skipGap s)).any fun x => startsOperand x.2) || startsElement (skipGap s)) := by
  rw [startsOperand, prefixAt]
  cases prefixOp? (skipGap s) <;> rfl

lemma startsOperand_skipGap (s : List Char) : startsOperand (skipGap s) = startsOperand s := by
  rw [startsOperand_eq, skipGap_idem, ← startsOperand_eq]

lemma startsOperand_append {g : List Char} (hg : IsGap g) (s : List Char) :
    startsOperand (g ++ s) = startsOperand s := by
  rw [← startsOperand_skipGap, skipGap_append hg, startsOperand_skipGap]

lemma prefixAt_eq_some {s r : List Char} {op : PrefixOp} (h : prefixAt s = some (op, r)) :
    (op = .not ∧ keyword? "NOT" s = some r) ∨ (op = .plus ∧ s = '+' :: r) ∨
      (op = .minus ∧ s = '-' :: r) := by
  rw [prefixAt_eq] at h
  cases hk : keyword? "NOT" s with
  | some r' =>
    rw [hk] at h
    cases h
    exact .inl ⟨rfl, rfl⟩
  | none =>
    rw [hk] at h
    simp only [Option.map_none, Option.none_or] at h
    split at h
    · cases h
      exact .inr (.inl ⟨rfl, rfl⟩)
    · cases h
      exact .inr (.inr ⟨rfl, rfl⟩)
    · cases h

lemma length_lt_of_prefixAt {s r : List Char} {op : PrefixOp} (h : prefixAt s = some (op, r)) :
    r.length < s.length := by
  obtain ⟨⟨x, hx⟩, -, rfl⟩ := Option.map_eq_some_iff.1 h
  exact hx

lemma opensElement_of_term {colons : Bool} {w s : List Char} (hw : IsTerm colons w)
    (hs : atWordChar s = false) : opensElement (w ++ s) = true := by
  have hfree : atReserved (w ++ s) = false := by rw [atReserved_append hw.run hs, hw.free]
  have hword : atWordChar (w ++ s) = true :=
    atWordChar_of_run hw.run hw.ne_nil fun h => (hw.start ':' h).2.2 rfl
  obtain ⟨c, t, rfl⟩ := List.exists_cons_of_ne_nil hw.ne_nil
  obtain ⟨hplus, hminus, -⟩ := hw.start c (by simp)
  unfold opensElement
  split <;> simp_all

lemma opensElement_of_unnamedAt {total : Nat} {s : List Char} {x : Tree × List Char}
    (h : unnamedAt total s = some x) : opensElement s = true := by
  unfold unnamedAt at h
  rw [Option.or_eq_some_iff] at h
  rcases h with h | ⟨-, h⟩
  · obtain ⟨y, hy, -⟩ := Option.map_eq_some_iff.1 h
    rw [enclosedAt_eq] at hy
    split at hy
    · rfl
    · cases hy
  · rw [plainAt_eq, Option.or_eq_some_iff, Option.or_eq_some_iff] at h
    rcases h with (h | ⟨-, h⟩) | ⟨-, h⟩
    · rw [rangeAt_eq] at h
      split at h
      · rfl
      · rfl
      · cases h
    · obtain ⟨⟨text, r⟩, hy, -⟩ := Option.map_eq_some_iff.1 h
      obtain ⟨rfl, hphrase⟩ := phrase?_eq_some hy
      obtain ⟨t, ht⟩ := hphrase.exists_cons
      rw [ht]
      rfl
    · obtain ⟨⟨text, r⟩, hy, -⟩ := Option.map_eq_some_iff.1 h
      obtain ⟨rfl, hterm, hr⟩ := term?_eq_some hy
      exact opensElement_of_term hterm (by simpa using hr)

lemma startsElement_of_elementAt {total : Nat} {s : List Char} {x : Tree × List Char}
    (h : elementAt total s = some x) : startsElement s = true := by
  rw [elementAt_eq, Option.or_eq_some_iff] at h
  rcases h with h | ⟨-, h⟩
  · obtain ⟨y, hy, -⟩ := Option.bind_eq_some_iff.1 h
    simp [startsElement, hy]
  · simp [startsElement, opensElement_of_unnamedAt h]

theorem startsOperand_of_operandAt {total : Nat} {s : List Char} {x : Tree × List Char}
    (h : operandAt total s = some x) : startsOperand s = true := by
  induction hn : s.length using Nat.strongRecOn generalizing s x with
  | ind n ih =>
    subst hn
    rw [startsOperand_eq]
    rw [operandAt_eq, Option.or_eq_some_iff] at h
    rcases h with h | ⟨-, h⟩
    · obtain ⟨⟨op, r⟩, hp, h⟩ := Option.bind_eq_some_iff.1 h
      obtain ⟨y, hy, -⟩ := Option.map_eq_some_iff.1 h
      have hlt := Nat.lt_of_lt_of_le (length_lt_of_prefixAt hp) (length_skipGap_le s)
      simp [hp, ih r.length hlt hy rfl]
    · obtain ⟨y, hy, -⟩ := Option.map_eq_some_iff.1 h
      simp [startsElement_of_elementAt hy]

/-- What stands where no operand starts: the end, or a character that only ends or prolongs one. -/
def Halts (s : List Char) : Prop :=
  s = [] ∨ ∃ c t, s = c :: t ∧ (c = ')' ∨ c = ':' ∨ c = '^' ∨ c = '~')

lemma Halts.startsOperand {s : List Char} (h : Halts (skipGap s)) : startsOperand s = false := by
  rw [startsOperand_eq]
  rcases h with h | ⟨c, t, h, hc⟩
  · rw [h]
    rfl
  · rw [h]
    rcases hc with rfl | rfl | rfl | rfl <;> rfl

lemma operandAt_eq_none {total : Nat} {s : List Char} (h : startsOperand s = false) :
    operandAt total s = none := by
  rw [Option.eq_none_iff_forall_ne_some]
  intro x hx
  rw [startsOperand_of_operandAt hx] at h
  cases h

lemma halts_of_colonAhead {s : List Char} (h : colonAhead s = true) : Halts (skipGap s) := by
  obtain ⟨r, hr⟩ := List.head?_eq_some_iff.1 (by simpa [colonAhead] using h)
  exact .inr ⟨':', r, hr, by simp⟩

lemma opensElement_run {w s : List Char} (hw : Run false w) (hne : w ≠ [])
    (hs : atWordChar s = false) : opensElement (w ++ s) = (!atReserved w && atWordChar w &&
      w.head? != some '+' && w.head? != some '-') := by
  have hreserved := atReserved_append hw hs
  have hword := atWordChar_append (s := s) hw hne
  obtain ⟨c, t, rfl⟩ := List.exists_cons_of_ne_nil hne
  have hopen : c ≠ '(' ∧ c ≠ '[' ∧ c ≠ '\x7b' ∧ c ≠ '"' := by
    cases hw with
    | escaped => decide
    | plain hc _ => refine ⟨?_, ?_, ?_, ?_⟩ <;> · rintro rfl; simp [isPlain, isSpecial] at hc
  unfold opensElement
  split <;> simp_all

lemma prefixAt_run {w s : List Char} (hw : Run false w) (hs : atWordChar s = false) {op : PrefixOp}
    {r : List Char} (hne : w ≠ []) (h : prefixAt (w ++ s) = some (op, r)) :
    ∃ v, r = v ++ s ∧ Run false v ∧ v.length < w.length ∧
      ∀ t, atWordChar t = false → prefixAt (w ++ t) = some (op, v ++ t) := by
  rcases prefixAt_eq_some h with ⟨rfl, hk⟩ | ⟨rfl, hk⟩ | ⟨rfl, hk⟩
  · have hplain := plain_of_mem_keyword (k := "NOT") (by simp)
    rw [keyword?_append hplain hw hs, Option.map_eq_some_iff] at hk
    obtain ⟨v, hv, rfl⟩ := hk
    obtain ⟨rfl, rfl⟩ := eq_of_keyword? hplain hw rfl hv
    refine ⟨[], rfl, .nil, by decide, fun t ht => ?_⟩
    rw [prefixAt_eq, keyword?_self ht]
    rfl
  all_goals
    obtain ⟨c, v, rfl⟩ := List.exists_cons_of_ne_nil hne
    simp only [List.cons_append, List.cons.injEq] at hk
    obtain ⟨rfl, rfl⟩ := hk
    have hv : Run false v := by cases hw with | plain _ tail => exact tail
    exact ⟨v, rfl, hv, by simp, fun t _ => rfl⟩

/-- Whether an operand starts with a run depends on what follows only by the next lexeme. -/
theorem startsOperand_run {w s t : List Char} (hw : Run false w) (hs : atWordChar s = false)
    (ht : atWordChar t = false) (hcolon : colonAhead s = true → colonAhead t = true)
    (hstart : startsOperand s = true → startsOperand t = true)
    (h : startsOperand (w ++ s) = true) : startsOperand (w ++ t) = true := by
  induction hn : w.length using Nat.strongRecOn generalizing w with
  | ind n ih =>
    subst hn
    by_cases hne : w = []
    · subst hne
      exact hstart h
    rw [startsOperand_eq, skipGap_run hw hne] at h ⊢
    rw [Bool.or_eq_true] at h ⊢
    rcases h with h | h
    · left
      obtain ⟨⟨op, r⟩, hp, hr⟩ := (Option.any_eq_true _ _).1 h
      obtain ⟨v, rfl, hv, hlt, hread⟩ := prefixAt_run hw hs hne hp
      rw [hread t ht]
      exact ih v.length hlt hv hr rfl
    · right
      rw [startsElement, Bool.or_eq_true] at h ⊢
      rcases h with h | h
      · left
        obtain ⟨hname, hc⟩ := (headAt_run_isSome hw hs).1 h
        exact (headAt_run_isSome hw ht).2 ⟨hname, hcolon hc⟩
      · right
        rw [opensElement_run hw hne hs] at h
        rw [opensElement_run hw hne ht, h]

end SkyResolver.Query
