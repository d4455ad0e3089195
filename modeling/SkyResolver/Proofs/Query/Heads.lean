import SkyResolver.Proofs.Query.Numbering

/-! Heads in lexemes. The head `object:` is looked for in the text, so it is also exchanged inside
of words, bounds and phrases. Behind the exchange they are what they were before, and what follows a
lexeme does not take part in it. -/
namespace SkyResolver.Query
open SkyResolver.Text

/-! ### Characters -/

lemma isBlank_of_isGap {c : Char} (h : isGap c = true) : isBlank c = true := by
  simp only [isGap, Bool.or_eq_true, beq_iff_eq] at h
  obtain ((rfl | rfl) | rfl) | rfl := h <;> rfl

lemma isAlpha_of_toLower {c : Char} (h : c.toLower.isAlpha = true) : c.isAlpha = true := by
  by_cases hupper : c.val ≥ 'A'.val ∧ c.val ≤ 'Z'.val
  · exact Bool.or_eq_true_iff.2 (.inl (decide_eq_true hupper))
  · have hsame : c.toLower = c := dif_neg hupper
    rwa [hsame] at h

/-! ### Where heads are found -/

lemma isAlpha_of_equalIgnoringCase {word : List Char}
    (h : equalIgnoringCase word "object".toList = true) : ∀ c ∈ word, c.isAlpha = true := by
  intro c hc
  have hmem : c.toLower ∈ "object".toList.map Char.toLower := by
    rw [← eq_of_beq h]
    exact List.mem_map_of_mem hc
  refine isAlpha_of_toLower ?_
  exact List.all_eq_true.1 (show ("object".toList.map Char.toLower).all Char.isAlpha = true from
    rfl) _ hmem

lemma toLower_of_afterObjectHead? {c : Char} {s rest : List Char}
    (h : afterObjectHead? (c :: s) = some rest) : c.toLower = 'o' := by
  obtain ⟨word, blanks, hs, hword, -⟩ := afterObjectHead?_eq_some h
  cases word with
  | nil => cases hword
  | cons d word =>
    obtain ⟨rfl, -⟩ := List.cons.inj hs
    exact (List.cons.inj (eq_of_beq hword)).1

lemma isAlpha_of_afterObjectHead? {c : Char} {s rest : List Char}
    (h : afterObjectHead? (c :: s) = some rest) : c.isAlpha = true :=
  isAlpha_of_toLower (by rw [toLower_of_afterObjectHead? h]; rfl)

/-- Where heads are looked for, the text behind a lexeme does not take part in one. -/
structure Barred (r : List Char) : Prop where
  word : atWordChar r = false
  colon : (r.dropWhile isBlank).head? ≠ some ':'

lemma dropWhile_blanks {blanks : List Char} (h : ∀ c ∈ blanks, isBlank c = true) (s : List Char) :
    (blanks ++ ':' :: s).dropWhile isBlank = ':' :: s := by
  have hcolon : isBlank ':' = false := rfl
  rw [List.dropWhile_append_of_pos h, List.dropWhile_cons_of_neg (by simp [hcolon])]

lemma afterObjectHead?_eq_some_iff {s rest : List Char} : afterObjectHead? s = some rest ↔
    ∃ word blanks, s = word ++ (blanks ++ ':' :: rest) ∧
      equalIgnoringCase word "object".toList = true ∧ ∀ c ∈ blanks, isBlank c = true := by
  refine ⟨afterObjectHead?_eq_some, ?_⟩
  rintro ⟨word, blanks, rfl, hword, hblanks⟩
  have hlength : word.length = 6 := by simpa using congrArg List.length (eq_of_beq hword)
  rw [afterObjectHead?, ← hlength, List.take_left, List.drop_left, if_pos hword,
    dropWhile_blanks hblanks]
  rfl

/-- A head that is found where a lexeme has not ended is in the lexeme. -/
lemma afterObjectHead?_append_iff {s r rest : List Char} (hr : Barred r) (hne : s ≠ []) :
    afterObjectHead? (s ++ r) = some rest ↔
      ∃ rest', rest = rest' ++ r ∧ afterObjectHead? s = some rest' := by
  simp only [afterObjectHead?_eq_some_iff]
  constructor
  · rintro ⟨word, blanks, hs, hword, hblanks⟩
    have hcolon : ∀ {b t : List Char}, (∀ c ∈ b, isBlank c = true) → r ≠ b ++ ':' :: t := by
      rintro b t hb rfl
      exact hr.colon (by rw [dropWhile_blanks hb]; rfl)
    rcases List.append_eq_append_iff.1 hs with ⟨more, rfl, hrest⟩ | ⟨more, rfl, hrest⟩
    · cases more with
      | nil => exact absurd hrest (hcolon hblanks)
      | cons c more =>
        have hc := isAlpha_of_equalIgnoringCase hword c (by simp)
        have := hr.word
        rw [hrest, List.cons_append,
          atWordChar_cons (isAlphanum_plain (by simp [Char.isAlphanum, hc]))]
          at this
        cases this
    · rcases List.append_eq_append_iff.1 hrest with ⟨more', rfl, hrest'⟩ | ⟨more', rfl, hrest'⟩
      · cases more' with
        | nil => exact absurd hrest'.symm (hcolon (b := []) (by simp))
        | cons d more' =>
          obtain ⟨rfl, rfl⟩ := List.cons.inj hrest'
          exact ⟨more', rfl, word, blanks, rfl, hword, hblanks⟩
      · exact absurd hrest' (hcolon fun c hc => hblanks c (List.mem_append_right _ hc))
  · rintro ⟨rest', rfl, word, blanks, rfl, hword, hblanks⟩
    exact ⟨word, blanks, by simp, hword, hblanks⟩

/-! ### Heads in lexemes -/

/-- The text behind `previous` with all of its heads exchanged. -/
def exchanged (head : List Char) (previous : Option Char) (s : List Char) : List Char :=
  if previous.all startsField then renameHead head s else renameInnerHeads head s

lemma exchanged_nil (head : List Char) (previous : Option Char) :
    exchanged head previous [] = [] := by
  have hinner : renameInnerHeads head [] = [] := by rw [renameInnerHeads.eq_def]
  unfold exchanged
  split
  · exact hinner
  · exact hinner

lemma exchanged_of_found {head s rest : List Char} {previous : Option Char}
    (hprevious : previous.all startsField = true) (h : afterObjectHead? s = some rest) :
    exchanged head previous s = head ++ exchanged head (some ':') rest := by
  rw [exchanged, if_pos hprevious, renameHead, h]
  rfl

lemma exchanged_cons {head s : List Char} {previous : Option Char} {c : Char}
    (h : headFinder.find previous (c :: s) = none) :
    exchanged head previous (c :: s) = c :: exchanged head (some c) s := by
  have hinner : exchanged head previous (c :: s) = renameInnerHeads head (c :: s) := by
    unfold exchanged
    split
    · rename_i hprevious
      simp only [headFinder, hprevious, if_true, Option.map_eq_none_iff] at h
      rw [renameHead, h]
    · rfl
  rw [hinner, renameInnerHeads_cons, exchanged, Option.all_some, renameHead]
  cases startsField c
  · rfl
  · cases afterObjectHead? s <;> rfl

/-- A text in which nothing is found stays. -/
lemma exchanged_of_fires {head s r : List Char} {previous : Option Char}
    (h : headFinder.Fires r previous (keepAll s)) :
    exchanged head previous (s ++ r) = s ++ exchanged head (lastOf previous s) r := by
  induction s generalizing previous with
  | nil => rfl
  | cons c s ih =>
    obtain ⟨hfind, hrest⟩ := h
    rw [← keepAll, markedText_keepAll] at hfind
    rw [List.cons_append, exchanged_cons hfind, ih hrest]
    rfl

lemma endsEscaped_of_not_mem {s : List Char} (h : '\\' ∉ s) : endsEscaped s = false := by
  fun_induction endsEscaped s with
  | case1 => simp at h
  | case2 => simp at h
  | case3 _ _ _ _ ih => exact ih fun hs => h (List.mem_cons_of_mem _ hs)
  | case4 => rfl

lemma exists_of_headFinder {previous : Option Char} {s old : List Char}
    (h : headFinder.find previous s = some old) : previous.all startsField = true ∧
      ∃ word blanks rest, old = word ++ (blanks ++ [':']) ∧ s = old ++ rest ∧
        afterObjectHead? s = some rest ∧ equalIgnoringCase word "object".toList = true ∧
        ∀ c ∈ blanks, isBlank c = true := by
  obtain ⟨hprevious, -, rest, -, hs, hrest⟩ := headFinder_find h
  obtain ⟨word, blanks, hs', hword, hblanks⟩ := afterObjectHead?_eq_some hrest
  refine ⟨hprevious, word, blanks, rest, (List.append_left_inj rest).1 ?_, hs, hrest,
    hword, hblanks⟩
  rw [← hs, hs']
  simp

/-- What is found has no backslash in it. -/
lemma endsEscaped_head {word blanks : List Char}
    (hword : equalIgnoringCase word "object".toList = true)
    (hblanks : ∀ c ∈ blanks, isBlank c = true) :
    endsEscaped (word ++ (blanks ++ [':'])) = false := by
  refine endsEscaped_of_not_mem fun hmem => ?_
  rw [List.mem_append, List.mem_append, List.mem_singleton] at hmem
  obtain hmem | hmem | hmem := hmem
  · cases isAlpha_of_equalIgnoringCase hword _ hmem
  · cases hblanks _ hmem
  · cases hmem

lemma headFinder_append {previous : Option Char} {s r : List Char} (hr : Barred r) (hne : s ≠ [])
    (h : headFinder.find previous s = none) : headFinder.find previous (s ++ r) = none := by
  simp only [headFinder] at h ⊢
  split at h
  · rename_i hprevious
    rw [if_pos hprevious, Option.map_eq_none_iff, Option.eq_none_iff_forall_ne_some]
    intro rest hrest
    obtain ⟨rest', -, hrest'⟩ := (afterObjectHead?_append_iff hr hne).1 hrest
    rw [hrest'] at h
    cases h
  · rename_i hprevious
    rw [if_neg hprevious]

/-- Heads are found by the induction below one after another; in between all characters stay. -/
lemma exchange_induction {P : Option Char → List Char → Prop} (hnil : ∀ previous, P previous [])
    (hkept : ∀ previous c s, headFinder.find previous (c :: s) = none → P (some c) s →
      P previous (c :: s))
    (hfound : ∀ previous word blanks rest, previous.all startsField = true →
      equalIgnoringCase word "object".toList = true → (∀ c ∈ blanks, isBlank c = true) →
      P (some ':') rest → P previous (word ++ (blanks ++ [':']) ++ rest))
    (previous : Option Char) (s : List Char) : P previous s := by
  induction hn : s.length using Nat.strong_induction_on generalizing previous s with
  | h n ih =>
    cases s with
    | nil => exact hnil previous
    | cons c s =>
      cases hfind : headFinder.find previous (c :: s) with
      | none => exact hkept previous c s hfind (ih s.length (by simp [← hn]) _ s rfl)
      | some old =>
        obtain ⟨hprevious, word, blanks, rest, rfl, hs, hrest, hword, hblanks⟩ :=
          exists_of_headFinder hfind
        have hshort := length_lt_of_afterObjectHead? hrest
        rw [hs]
        exact hfound previous word blanks rest hprevious hword hblanks
          (ih rest.length (by rwa [← hn]) _ rest rfl)

lemma exchanged_head {head word blanks : List Char} {previous : Option Char}
    (hprevious : previous.all startsField = true)
    (hword : equalIgnoringCase word "object".toList = true)
    (hblanks : ∀ c ∈ blanks, isBlank c = true) (rest : List Char) :
    exchanged head previous (word ++ (blanks ++ [':']) ++ rest) =
      head ++ exchanged head (some ':') rest :=
  exchanged_of_found hprevious
    (afterObjectHead?_eq_some_iff.2 ⟨word, blanks, by simp, hword, hblanks⟩)

/-- The heads of a lexeme are exchanged in it, and what follows is exchanged by itself. -/
lemma exchanged_append (head : List Char) (previous : Option Char) (s : List Char) {r : List Char}
    (hr : Barred r) : exchanged head previous (s ++ r) =
      exchanged head previous s ++ exchanged head (lastOf previous s) r := by
  induction previous, s using exchange_induction with
  | hnil previous => rw [exchanged_nil]; rfl
  | hkept previous c s hfind ih =>
    have hkept := headFinder_append hr (List.cons_ne_nil c s) hfind
    rw [List.cons_append] at hkept
    rw [exchanged_cons hfind, List.cons_append, exchanged_cons hkept, ih]
    rfl
  | hfound previous word blanks rest hprevious hword hblanks ih =>
    rw [exchanged_head hprevious hword hblanks, List.append_assoc _ rest,
      exchanged_head hprevious hword hblanks, ih]
    simp

/-- Nothing is found behind a character that starts no field. -/
lemma headFinder_eq_none {d : Char} (hd : startsField d = false) (s : List Char) :
    headFinder.find (some d) s = none := by
  simp [headFinder, hd]

/-- Behind such characters a text stays as long as there are more of them. -/
lemma exists_of_exchanged_append {head k t : List Char} (hk : ∀ c ∈ k, startsField c = false)
    {d : Char} (hd : startsField d = false) {s : List Char}
    (h : exchanged head (some d) s = k ++ t) :
    ∃ s', s = k ++ s' ∧ t = exchanged head (lastOf (some d) k) s' := by
  induction k generalizing d s with
  | nil => exact ⟨s, rfl, h.symm⟩
  | cons c k ih =>
    cases s with
    | nil =>
      rw [exchanged_nil] at h
      cases h
    | cons e s =>
      rw [exchanged_cons (headFinder_eq_none hd _), List.cons_append] at h
      obtain ⟨rfl, hrest⟩ := List.cons.inj h
      obtain ⟨s', rfl, ht⟩ :=
        ih (fun c hc => hk c (List.mem_cons_of_mem e hc)) (hk e List.mem_cons_self) hrest
      exact ⟨s', rfl, ht⟩

lemma atWordChar_exchanged {head s : List Char} {d : Char} (hd : startsField d = false) :
    atWordChar (exchanged head (some d) s) = atWordChar s := by
  cases s with
  | nil => rw [exchanged_nil]
  | cons c s =>
    rw [exchanged_cons (headFinder_eq_none hd _)]
    by_cases hc : c = '\\'
    · subst hc
      cases s with
      | nil => rw [exchanged_nil]
      | cons e s => rw [exchanged_cons (headFinder_eq_none rfl _)]; rfl
    · simp [atWordChar, hc]

lemma headFinder_of_toLower {previous : Option Char} {c : Char} (hc : c.toLower ≠ 'o')
    (s : List Char) :
    headFinder.find previous (c :: s) = none := by
  rw [Option.eq_none_iff_forall_ne_some]
  intro old hfind
  obtain ⟨-, -, -, rest, -, -, hrest, -⟩ := exists_of_headFinder hfind
  exact hc (toLower_of_afterObjectHead? hrest)

lemma headFinder_of_not_isAlpha {previous : Option Char} {c : Char} (hc : c.isAlpha = false)
    (s : List Char) : headFinder.find previous (c :: s) = none := by
  refine headFinder_of_toLower (fun hlower => ?_) s
  rw [isAlpha_of_toLower (by rw [hlower]; rfl)] at hc
  cases hc

/-- Heads are made of letters. -/
lemma fires_quiet {previous : Option Char} {s : List Char} (h : ∀ c ∈ s, c.isAlpha = false)
    (r : List Char) : headFinder.Fires r previous (keepAll s) :=
  Finder.fires_keepAll_iff.2 fun u c v hs => headFinder_of_not_isAlpha (h c (by simp [hs])) _

lemma exchanged_quiet {head : List Char} {previous : Option Char} {s : List Char}
    (h : ∀ c ∈ s, c.isAlpha = false) (r : List Char) :
    exchanged head previous (s ++ r) = s ++ exchanged head (lastOf previous s) r :=
  exchanged_of_fires (fires_quiet h r)

/-- Units stay units if the new head is made of units wherever its colon is one. -/
lemma units_exchanged {ok : Char → Bool} (hok : ok '\\' = false) {head : List Char}
    (hhead : ok ':' = true → Units ok head) (previous : Option Char) {s : List Char}
    (h : Units ok s) :
    Units ok (exchanged head previous s) := by
  -- Behind a backslash a character stays, whatever it is.
  have key : (Units ok s → Units ok (exchanged head previous s)) ∧
      (previous = some '\\' → ∀ c u, s = c :: u → Units ok u →
        ∃ u', exchanged head previous s = c :: u' ∧ Units ok u') := by
    clear h
    induction previous, s using exchange_induction with
    | hnil previous =>
      rw [exchanged_nil]
      exact ⟨id, fun _ _ _ h => by cases h⟩
    | hkept previous c s hfind ih =>
      rw [exchanged_cons hfind]
      refine ⟨fun hs => ?_, fun _ d u hcons hu => ?_⟩
      · cases hs with
        | @escaped d u tail =>
          obtain ⟨u', hu', hunits⟩ := ih.2 rfl d u rfl tail
          rw [hu']
          exact .escaped d hunits
        | plain hc tail => exact .plain hc (ih.1 tail)
      · cases hcons
        exact ⟨_, rfl, ih.1 hu⟩
    | hfound previous word blanks rest hprevious hword hblanks ih =>
      rw [exchanged_head hprevious hword hblanks]
      refine ⟨fun hs => ?_, fun hbackslash => ?_⟩
      · obtain ⟨hold, hrest⟩ := hs.split hok (endsEscaped_head hword hblanks)
        have hcolon : Units ok [':'] := by
          rw [← List.append_assoc] at hold
          refine (hold.split hok (endsEscaped_of_not_mem fun hmem => ?_)).2
          obtain hmem | hmem := List.mem_append.1 hmem
          · cases isAlpha_of_equalIgnoringCase hword _ hmem
          · cases hblanks _ hmem
        exact (hhead (hcolon.tail (by simp)).1).append (ih.1 hrest)
      · rw [hbackslash] at hprevious
        cases hprevious
  exact key.1 h

/-! ### Lexemes with exchanged heads -/

/-- The name of a field that may stand where `object` stood: it is no keyword. -/
structure IsFreeName (field : String) : Prop where
  name : IsFieldName field.toList
  reserved : atReserved field.toList = false
  apart : (keyword? "TO" field.toList).isSome = false

def objectHead (field : String) : List Char := field.toList ++ [':']

section Lexemes
variable {field : String} (hfield : IsFreeName field) {previous : Option Char}

lemma objectHead_append (s : List Char) : objectHead field ++ s = field.toList ++ ':' :: s := by
  simp [objectHead]

/-- The first character stays, or a head is found at the start. -/
lemma exchanged_front (head : List Char) (previous : Option Char) {w : List Char} (hne : w ≠ []) :
    (∃ c s, w = c :: s ∧ exchanged head previous w = c :: exchanged head (some c) s) ∨
      ∃ c s t, w = c :: s ∧ c.isAlpha = true ∧ exchanged head previous w = head ++ t := by
  obtain ⟨c, s, rfl⟩ := List.exists_cons_of_ne_nil hne
  cases hfind : headFinder.find previous (c :: s) with
  | none => exact .inl ⟨c, s, rfl, exchanged_cons hfind⟩
  | some old =>
    obtain ⟨hprevious, -, -, rest, -, -, hrest, -⟩ := exists_of_headFinder hfind
    exact .inr ⟨c, s, _, rfl, isAlpha_of_afterObjectHead? hrest, exchanged_of_found hprevious hrest⟩

/-- Where no word goes on, none goes on behind the exchange. -/
lemma atWordChar_exchanged_eq_false {head s : List Char} (h : atWordChar s = false) :
    atWordChar (exchanged head previous s) = false := by
  by_cases hne : s = []
  · subst hne
    rwa [exchanged_nil]
  rcases exchanged_front head previous hne with ⟨c, s, rfl, hs⟩ | ⟨c, s, t, rfl, hc, -⟩
  · rw [hs]
    by_cases hc : c = '\\'
    · subst hc
      cases s with
      | nil => rwa [exchanged_nil]
      | cons d s => cases h
    · simpa [atWordChar, hc] using h
  · rw [atWordChar_cons (isAlphanum_plain (by simp [Char.isAlphanum, hc]))] at h
    cases h

/-- Behind a character that starts no field, no number is prolonged. -/
lemma tamer_exchanged (head : List Char) {d : Char} (hd : startsField d = false) (s : List Char) :
    Tamer s (exchanged head (some d) s) := by
  cases s with
  | nil =>
    rw [exchanged_nil]
    exact .refl _
  | cons c s =>
    rw [exchanged_cons (headFinder_eq_none hd _)]
    refine .cons ?_
    rintro rfl hdigit
    cases s with
    | nil => rwa [exchanged_nil] at hdigit
    | cons e s => rwa [exchanged_cons (headFinder_eq_none rfl _)] at hdigit

lemma Units.imp {ok ok' : Char → Bool} (h : ∀ c, ok c = true → ok' c = true) {s : List Char}
    (hs : Units ok s) : Units ok' s := by
  induction hs with
  | nil => exact .nil
  | escaped c _ ih => exact .escaped c ih
  | plain hc _ ih => exact .plain (h _ hc) ih

lemma exchanged_ne_nil {w : List Char} (hne : w ≠ []) :
    exchanged (objectHead field) previous w ≠ [] := by
  rcases exchanged_front (objectHead field) previous hne with ⟨c, s, -, h⟩ | ⟨c, s, t, -, -, h⟩
  · rw [h]
    exact List.cons_ne_nil _ _
  · rw [h, objectHead_append]
    simp

include hfield

lemma units_objectHead {ok : Char → Bool} (hplain : ∀ c, isPlain c = true → ok c = true)
    (hcolon : ok ':' = true) : Units ok (objectHead field) := by
  exact (hfield.name.run.imp fun c hc => hplain c (by simpa using hc)).append (.plain hcolon .nil)

lemma run_exchanged {colons : Bool} {w : List Char} (h : Run colons w) :
    Run colons (exchanged (objectHead field) previous w) := by
  refine units_exchanged (by cases colons <;> rfl) (fun hcolon => ?_) previous h
  exact units_objectHead hfield (fun c hc => by simp [hc]) hcolon

/-- No keyword comes of an exchange. -/
lemma keyword?_exchanged {k : String} (hk : k = "AND" ∨ k = "OR" ∨ k = "NOT" ∨ k = "TO")
    (hfree : (keyword? k field.toList).isSome = false) {w : List Char} (hne : w ≠ [])
    (h : (keyword? k w).isSome = false) :
    (keyword? k (exchanged (objectHead field) previous w)).isSome = false := by
  cases hkeyword : keyword? k (exchanged (objectHead field) previous w) with
  | none => rfl
  | some t =>
    obtain ⟨hw, hword⟩ := keyword?_eq_some hkeyword
    rcases exchanged_front (objectHead field) previous hne with ⟨c, s, rfl, hs⟩ | ⟨c,
      s, t', -, -, hs⟩
    · have hletters : ∀ d ∈ k.toList, startsField d = false := by
        have : k.toList.all (fun d => !startsField d) = true := by
          rcases hk with rfl | rfl | rfl | rfl <;> rfl
        simpa using this
      obtain ⟨d, k', e, hk', hlast, he⟩ : ∃ d k' e, k.toList = d :: k' ∧
          lastOf (some d) k' = some e ∧ startsField e = false := by
        rcases hk with rfl | rfl | rfl | rfl <;> exact ⟨_, _, _, rfl, rfl, rfl⟩
      rw [hk', hs] at hw
      rw [hk'] at hletters
      obtain ⟨rfl, hbehind⟩ := List.cons.inj hw
      obtain ⟨s', rfl, rfl⟩ := exists_of_exchanged_append
        (fun x hx => hletters x (List.mem_cons_of_mem c hx)) (hletters c List.mem_cons_self) hbehind
      rw [hlast, atWordChar_exchanged he] at hword
      rw [← List.cons_append, ← hk', keyword?_self hword] at h
      cases h
    · rw [hs, objectHead_append, keyword?_append (plain_of_mem_keyword hk) hfield.name.run rfl,
        Option.map_eq_some_iff] at hkeyword
      obtain ⟨t'', ht'', -⟩ := hkeyword
      rw [ht''] at hfree
      cases hfree

/-- A word stays a word, and it has the symbol for `AND` at its start only if it had it before. -/
lemma isTerm_exchanged {colons : Bool} {w : List Char} (h : IsTerm colons w) :
    IsTerm colons (exchanged (objectHead field) previous w) ∧
      (¬['&', '&'] <+: w → ¬['&', '&'] <+: exchanged (objectHead field) previous w) := by
  have hreserved : atReserved (exchanged (objectHead field) previous w) = false := by
    have hname := hfield.reserved
    have hw := h.free
    simp only [atReserved, Bool.or_eq_false_iff] at hname hw ⊢
    exact ⟨⟨keyword?_exchanged hfield (by simp) hname.1.1 h.ne_nil hw.1.1,
      keyword?_exchanged hfield (by simp) hname.1.2 h.ne_nil hw.1.2⟩,
      keyword?_exchanged hfield (by simp) hname.2 h.ne_nil hw.2⟩
  refine ⟨⟨run_exchanged hfield h.run, exchanged_ne_nil h.ne_nil, fun c hc => ?_, hreserved⟩, ?_⟩
  · rcases exchanged_front (objectHead field) previous h.ne_nil with ⟨d, s, rfl, hs⟩ | ⟨d,
      s, t, -, -, hs⟩
    · rw [hs] at hc
      exact h.start c hc
    · obtain ⟨e, t', hname, he, -⟩ := hfield.name
      rw [hs, objectHead_append, hname] at hc
      obtain rfl := Option.some.inj hc
      refine ⟨?_, ?_, ?_⟩ <;>
      · rintro rfl
        cases he
  · rintro hsymbol ⟨t, ht⟩
    refine hsymbol ?_
    rcases exchanged_front (objectHead field) previous h.ne_nil with ⟨d, s, rfl, hs⟩ | ⟨d,
      s, u, -, -, hs⟩
    · rw [hs] at ht
      obtain ⟨rfl, hbehind⟩ := List.cons.inj ht
      obtain ⟨s', rfl, -⟩ := exists_of_exchanged_append (k := ['&'])
        (by simp [startsField, isBlank]) (d := '&') rfl hbehind.symm
      exact ⟨s', rfl⟩
    · obtain ⟨e, t', hname, he, -⟩ := hfield.name
      rw [hs, objectHead_append, hname] at ht
      obtain ⟨rfl, -⟩ := List.cons.inj ht
      cases he

lemma isBound_exchanged {w : List Char} (h : IsBound w) :
    IsBound (exchanged (objectHead field) previous w) :=
  ⟨run_exchanged hfield h.run, exchanged_ne_nil h.ne_nil,
    keyword?_exchanged hfield (by simp) hfield.apart h.ne_nil h.free⟩

end Lexemes

/-- A phrase with the heads between its quotes exchanged. -/
def exchangedPhrase (head s : List Char) : List Char :=
  '"' :: (exchanged head (some '"') (withoutQuotes s) ++ ['"'])

def Bound.exchanged (head : List Char) (previous : Option Char) : Bound → Bound
  | .word text => .word (String.ofList (Query.exchanged head previous text.toList))
  | .phrase text => .phrase (String.ofList (exchangedPhrase head text.toList))

def Atom.exchanged (head : List Char) (previous : Option Char) : Atom → Atom
  | .word text => .word (String.ofList (Query.exchanged head previous text.toList))
  | .phrase text => .phrase (String.ofList (exchangedPhrase head text.toList))
  | .range includeLow includeHigh g₁ low g₂ g₃ high g₄ =>
    .range includeLow includeHigh g₁
      (low.exchanged head (lastOf (some (openingBracket includeLow)) g₁.chars)) g₂ g₃
      (high.exchanged head (lastOf (some 'O') g₃.chars)) g₄

lemma barred_quote (r : List Char) : Barred ('"' :: r) :=
  ⟨rfl, by simp [List.dropWhile_cons_of_neg (show ¬isBlank '"' = true by decide)]⟩

section Atoms
variable {field : String} (hfield : IsFreeName field) {previous : Option Char}

lemma exchanged_phrase {head s : List Char} (h : IsPhrase s) (r : List Char) :
    exchanged head previous (s ++ r) =
      exchangedPhrase head s ++ exchanged head (lastOf previous s) r := by
  obtain ⟨u, rfl, -⟩ := isPhrase_iff_units.1 h
  have hquote : ∀ (previous : Option Char) (s : List Char), headFinder.find previous ('"' :: s) =
      none :=
    fun _ => headFinder_of_not_isAlpha rfl
  rw [exchangedPhrase, withoutQuotes_phrase, List.cons_append, List.append_assoc,
    exchanged_cons (hquote _ _), List.singleton_append, exchanged_append _ _ _ (barred_quote r),
    exchanged_cons (hquote _ _)]
  simp

lemma Gap.not_isAlpha (gap : Gap) : ∀ c ∈ gap.chars, c.isAlpha = false := by
  intro c hc
  have := gap.blank c hc
  simp only [isGap, Bool.or_eq_true, beq_iff_eq] at this
  obtain ((rfl | rfl) | rfl) | rfl := this <;> rfl

lemma Gap.barred {gap : Gap} {c : Char} (hc : isBlank c = false) (hcolon : c ≠ ':')
    {s : List Char} (h : Query.atWordChar (gap.chars ++ c :: s) = false) :
    Barred (gap.chars ++ c :: s) := by
  refine ⟨h, ?_⟩
  rw [List.dropWhile_append_of_pos fun d hd => isBlank_of_isGap (gap.blank d hd),
    List.dropWhile_cons_of_neg (by simp [hc])]
  simpa using hcolon

/-- The bound of a range, with a mark or the keyword behind it. -/
lemma Bound.Valid.exchanged_text {head : List Char} {bound : Bound} {gap : Gap} {c : Char}
    {s : List Char} (h : bound.Valid (gap.chars ++ c :: s)) (hc : isBlank c = false)
    (hcolon : c ≠ ':') :
    Query.exchanged head previous (bound.text ++ (gap.chars ++ c :: s)) =
      (bound.exchanged head previous).text ++
        (gap.chars ++ Query.exchanged head (lastOf (lastOf previous bound.text) gap.chars)
          (c :: s)) := by
  rw [← exchanged_quiet gap.not_isAlpha]
  cases bound with
  | word text =>
    have hbarred := Gap.barred hc hcolon (atWordChar_of_runsOn h.2)
    simpa [Bound.exchanged, Bound.text] using exchanged_append head previous _ hbarred
  | phrase text => simpa [Bound.exchanged, Bound.text] using exchanged_phrase h _

lemma exchanged_range {head : List Char} {colons includeLow includeHigh : Bool} {g₁ g₂ g₃ g₄ : Gap}
    {low high : Bound} {r : List Char}
    (h : (Atom.range includeLow includeHigh g₁ low g₂ g₃ high g₄).Valid colons r) :
    exchanged head previous ((Atom.range includeLow includeHigh g₁ low g₂ g₃ high g₄).text ++ r) =
      ((Atom.range includeLow includeHigh g₁ low g₂ g₃ high g₄).exchanged head previous).text ++
        exchanged head (some (closingBracket includeHigh)) r := by
  obtain ⟨hlow, -, hhigh⟩ := h
  have hopen : (openingBracket includeLow).isAlpha = false := by cases includeLow <;> rfl
  have hclose : (closingBracket includeHigh).isAlpha = false := by cases includeHigh <;> rfl
  simp only [Atom.text, Atom.exchanged, List.append_assoc, List.cons_append, List.nil_append]
  rw [exchanged_cons (headFinder_of_not_isAlpha hopen _), exchanged_quiet g₁.not_isAlpha,
    hlow.exchanged_text rfl (by decide), exchanged_cons (headFinder_of_toLower (by decide) _),
    exchanged_cons (headFinder_eq_none rfl _), exchanged_quiet g₃.not_isAlpha,
    hhigh.exchanged_text (by cases includeHigh <;> rfl) (by cases includeHigh <;> decide),
    exchanged_cons (headFinder_of_not_isAlpha hclose _)]

include hfield

lemma isPhrase_exchanged {s : List Char} (h : IsPhrase s) :
    IsPhrase (exchangedPhrase (objectHead field) s) := by
  obtain ⟨u, rfl, hu⟩ := isPhrase_iff_units.1 h
  refine isPhrase_iff_units.2 ⟨_, rfl, ?_⟩
  rw [withoutQuotes_phrase]
  refine units_exchanged rfl (fun hcolon => units_objectHead hfield (fun c hc => ?_) hcolon) _ hu
  have hne : ∀ d : Char, isPlain d = false → c ≠ d := by
    rintro d hd rfl
    rw [hc] at hd
    cases hd
  simp [inPhrase, hne '"' rfl, hne '\\' rfl]

lemma Bound.Valid.exchanged {bound : Bound} {r : List Char} (h : bound.Valid r) :
    (bound.exchanged (objectHead field) previous).Valid r := by
  cases bound with
  | word text => exact ⟨by simpa using isBound_exchanged hfield h.1, h.2⟩
  | phrase text => simpa [Bound.exchanged, Bound.Valid] using isPhrase_exchanged hfield h

end Atoms

end SkyResolver.Query
