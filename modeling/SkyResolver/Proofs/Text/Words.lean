import Mathlib.Data.List.DropRight
import Mathlib.Data.List.TakeWhile
import Mathlib.Tactic.SplitIfs
import SkyResolver.Text.Blank
import SkyResolver.Text.Search

/-! Cutting and joining texts. Words are separated by blanks, so blanks around a text make no
difference, and behind a word only those at the end of the text are cut off; what has no blank at
its ends stays as it is. A text is split at its first separator, and texts are joined with one
between neighbours. -/
namespace SkyResolver.Text

/-! ### Words -/

/-- The text has no blank in it, and it is not empty. -/
structure IsWord (s : List Char) : Prop where
  nonempty : s ≠ []
  visible : ∀ c ∈ s, isBlank c = false

section Words
variable {s t run : List Char} {c : Char}

lemma go_append_blank (hc : isBlank c = true) :
    words.go (s ++ c :: t) run = words.go s run ++ words t := by
  induction s generalizing run with
  | nil =>
    rw [List.nil_append, words.go, words.go, if_pos hc]
    cases run <;> rfl
  | cons d s ih =>
    rw [List.cons_append, words.go, words.go, ih, ih]
    cases isBlank d <;> cases run <;> rfl

/-- A blank separates words, and this is all that there is to know of it. -/
lemma words_append (hc : isBlank c = true) : words (s ++ c :: t) = words s ++ words t :=
  go_append_blank hc

lemma words_blanks_append (ht : ∀ c ∈ t, isBlank c = true) : words (t ++ s) = words s := by
  induction t with
  | nil => rfl
  | cons c t ih =>
    obtain ⟨hc, ht⟩ := List.forall_mem_cons.1 ht
    exact (words_append (s := []) hc).trans (ih ht)

lemma words_append_blanks (ht : ∀ c ∈ t, isBlank c = true) : words (s ++ t) = words s := by
  cases t with
  | nil => rw [List.append_nil]
  | cons c t =>
    obtain ⟨hc, ht⟩ := List.forall_mem_cons.1 ht
    have hnone := words_blanks_append (s := []) ht
    rw [List.append_nil] at hnone
    rw [words_append hc, hnone]
    exact List.append_nil _

lemma words_trim (s : List Char) : words (trim s) = words s := by
  have hleft : s.takeWhile isBlank ++ trimStart s = s := List.takeWhile_append_dropWhile
  have hright : trim s ++ ((trimStart s).reverse.takeWhile isBlank).reverse = trimStart s := by
    rw [trim, trimEnd, ← List.reverse_append, List.takeWhile_append_dropWhile, List.reverse_reverse]
  calc words (trim s) = words (trimStart s) := by
        rw [← hright, words_append_blanks fun c hc => List.mem_takeWhile_imp
          (List.mem_reverse.1 hc)]
    _ = words s := by rw [← words_blanks_append fun c => List.mem_takeWhile_imp, hleft]

lemma go_append_visible (hs : ∀ c ∈ s, isBlank c = false) :
    words.go (s ++ t) run = words.go t (s.reverse ++ run) := by
  induction s generalizing run with
  | nil => rfl
  | cons c s ih =>
    obtain ⟨hc, hs⟩ := List.forall_mem_cons.1 hs
    rw [List.cons_append, words.go, if_neg (by simp [hc]), ih hs, List.reverse_cons,
      List.append_assoc, List.singleton_append]

lemma words_eq_singleton (hs : IsWord s) : words s = [s] := by
  have hrun : (s.reverse ++ []).isEmpty = false := by simpa using hs.nonempty
  have hgo : words.go (s ++ []) [] = words.go [] (s.reverse ++ []) := go_append_visible hs.visible
  rw [List.append_nil] at hgo
  rw [words, hgo, words.go, hrun, if_neg Bool.false_ne_true, List.append_nil, List.reverse_reverse]

lemma exists_mem_go (h : c ∈ s ∧ isBlank c = false ∨ c ∈ run) : ∃ w ∈ words.go s run, c ∈ w := by
  induction s generalizing run with
  | nil =>
    have hrun : c ∈ run := h.resolve_left fun h => by simp at h
    refine ⟨run.reverse, ?_, List.mem_reverse.2 hrun⟩
    rw [words.go, if_neg (by simpa using List.ne_nil_of_mem hrun)]
    exact List.mem_singleton_self _
  | cons d s ih =>
    rw [words.go]
    by_cases hd : isBlank d = true
    · -- The word in front of a blank is complete.
      rw [if_pos hd]
      obtain ⟨hmem, hc⟩ | hrun := h
      · obtain rfl | hmem := List.mem_cons.1 hmem
        · rw [hc] at hd
          cases hd
        · obtain ⟨w, hw, hcw⟩ : ∃ w ∈ words.go s [], c ∈ w := ih (.inl ⟨hmem, hc⟩)
          exact ⟨w, by split <;> simp [hw], hcw⟩
      · rw [if_neg (by simpa using List.ne_nil_of_mem hrun)]
        exact ⟨run.reverse, List.mem_cons_self, List.mem_reverse.2 hrun⟩
    · rw [if_neg hd]
      refine ih ?_
      obtain ⟨hmem, hc⟩ | hrun := h
      · obtain rfl | hmem := List.mem_cons.1 hmem
        · exact .inr List.mem_cons_self
        · exact .inl ⟨hmem, hc⟩
      · exact .inr (List.mem_cons_of_mem d hrun)

/-- A character that is not blank is in one of the words. -/
lemma exists_mem_words (h : c ∈ s) (hc : isBlank c = false) : ∃ w ∈ words s, c ∈ w :=
  exists_mem_go (.inl ⟨h, hc⟩)

end Words

/-! ### Margins -/

section Margins
variable {s t : List Char}

lemma trimEnd_append (s t : List Char) : trimEnd (s ++ t) = if trimEnd t = [] then trimEnd s else
    s ++ trimEnd t := by
  simp only [trimEnd, List.reverse_append, List.dropWhile_append, List.isEmpty_iff,
    List.reverse_eq_nil_iff]
  split_ifs <;> simp

lemma trim_isSuffix_trimEnd (s : List Char) : trim s <:+ trimEnd s := by
  have hs : s.takeWhile isBlank ++ trimStart s = s := List.takeWhile_append_dropWhile
  rw [trim]
  by_cases hnil : trimEnd (trimStart s) = []
  · rw [hnil]
    exact List.nil_suffix
  · refine ⟨s.takeWhile isBlank, ?_⟩
    conv_rhs => rw [← hs, trimEnd_append, if_neg hnil]

lemma trimStart_eq_self (h : ∀ c ∈ s.head?, isBlank c = false) : trimStart s = s := by
  cases s with
  | nil => rfl
  | cons c s => rw [trimStart, List.dropWhile_cons, if_neg (by simp [h c rfl])]

lemma trimEnd_eq_self (h : ∀ c ∈ s.getLast?, isBlank c = false) : trimEnd s = s :=
  List.rdropWhile_eq_self_iff.2 fun hne => by simp [h _ (List.getLast?_eq_some_getLast hne)]

/-- What stands behind a word loses its blanks at its end only. -/
lemma trim_append_of_isWord (hs : IsWord s) : trim (s ++ t) = s ++ trimEnd t := by
  have hstart : trimStart (s ++ t) = s ++ t := by
    refine trimStart_eq_self fun c hc => ?_
    rw [List.head?_append_of_ne_nil _ hs.nonempty] at hc
    exact hs.visible c (List.mem_of_mem_head? hc)
  have hend : trimEnd s = s :=
    trimEnd_eq_self fun c hc => hs.visible c (List.mem_of_mem_getLast? hc)
  rw [trim, hstart, trimEnd_append, hend]
  split_ifs with ht
  · rw [ht, List.append_nil]
  · rfl

/-- No blank stands at either end of the text. -/
structure IsTrimmed (s : List Char) : Prop where
  first : ∀ c ∈ s.head?, isBlank c = false
  last : ∀ c ∈ s.getLast?, isBlank c = false

lemma isTrimmed_trim (s : List Char) : IsTrimmed (trim s) where
  first c hc := by
    obtain ⟨rest, hrest⟩ := List.head?_eq_some_iff.1 hc
    obtain ⟨cut, hcut⟩ : trim s <+: trimStart s := List.rdropWhile_prefix _ _
    rw [hrest, List.cons_append] at hcut
    exact trimStart_head hcut.symm
  last c hc := by
    obtain ⟨hne, rfl⟩ := List.mem_getLast?_eq_getLast hc
    exact Bool.eq_false_iff.2 (List.rdropWhile_last_not _ _ hne)

lemma IsTrimmed.trim_eq (hs : IsTrimmed s) : trim s = s := by
  rw [trim, trimStart_eq_self hs.first, trimEnd_eq_self hs.last]

/-- Margins stay bare when no character becomes a blank. -/
lemma IsTrimmed.map {f : Char → Char} (hf : ∀ c, isBlank c = false → isBlank (f c) = false)
    (hs : IsTrimmed s) :
    IsTrimmed (s.map f) where
  first c hc := by
    rw [List.head?_map] at hc
    obtain ⟨d, hd, rfl⟩ := Option.map_eq_some_iff.1 hc
    exact hf d (hs.first d hd)
  last c hc := by
    rw [List.getLast?_map] at hc
    obtain ⟨d, hd, rfl⟩ := Option.map_eq_some_iff.1 hc
    exact hf d (hs.last d hd)

end Margins

/-! ### Separators -/

section Separator
variable {c : Char} {s t : List Char}

lemma splitOnce?_eq_none (h : c ∉ s) : splitOnce? c s = none := by
  induction s with
  | nil => rfl
  | cons d s ih =>
    rw [List.mem_cons, not_or] at h
    rw [splitOnce?, if_neg (Ne.symm h.1), ih h.2, Option.map_none]

lemma splitOnce?_append (h : c ∉ s) : splitOnce? c (s ++ c :: t) = some (s, t) := by
  induction s with
  | nil => rw [List.nil_append, splitOnce?, if_pos rfl]
  | cons d s ih =>
    rw [List.mem_cons, not_or] at h
    rw [List.cons_append, splitOnce?, if_neg (Ne.symm h.1), ih h.2]
    rfl

end Separator

/-! ### Replaced characters -/

section Replaced
variable {a b : Char} {s : List Char}

lemma replaceChar_singleton (a b : Char) (s : List Char) :
    replaceChar a [b] s = s.map fun c => if c = a then b else c := by
  induction s with
  | nil => rfl
  | cons c s ih =>
    rw [replaceChar, List.flatMap_cons, ← replaceChar, ih, List.map_cons]
    split_ifs <;> rfl

lemma replaceChar_eq_self_iff (hab : a ≠ b) : replaceChar a [b] s = s ↔ a ∉ s := by
  rw [replaceChar_singleton]
  conv_lhs => rhs; rw [← List.map_id s]
  rw [List.map_inj_left]
  refine ⟨fun h ha => hab ?_, fun h c hc => if_neg ?_⟩
  · simpa using (h a ha).symm
  · rintro rfl
    exact h hc

end Replaced

/-! ### Joined texts -/

lemma join_singleton (separator s : List Char) : join separator [s] = s := by simp [join]

lemma join_cons_cons (separator s t : List Char) (rest : List (List Char)) :
    join separator (s :: t :: rest) = s ++ (separator ++ join separator (t :: rest)) := by
  simp [join]

lemma join_concat (separator : List Char) (pieces : List (List Char)) (piece : List Char) :
    join separator (pieces ++ [piece]) = pieces.flatMap (· ++ separator) ++ piece := by
  induction pieces with
  | nil => simp [join]
  | cons first pieces ih =>
    obtain ⟨second, rest, hrest⟩ := List.exists_cons_of_ne_nil
      (List.append_ne_nil_of_right_ne_nil pieces (List.cons_ne_nil piece []))
    rw [hrest] at ih
    rw [List.cons_append, hrest, List.flatMap_cons, List.append_assoc, List.append_assoc, ← ih]
    simp [join]

end SkyResolver.Text
