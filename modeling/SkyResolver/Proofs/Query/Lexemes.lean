import Mathlib.Data.List.DropRight
import Mathlib.Data.List.TakeWhile
import Mathlib.Tactic.Lemma
import SkyResolver.Query.Grammar

/-! Lexemes in their context. A word, a phrase or a number that is read on its own is read in the
same way in front of any text that cannot continue it; which texts those are depends on their first
two characters only. -/
namespace SkyResolver.Query
open SkyResolver.Text

/-- A text that consists of characters that pass a test and of characters behind a backslash. -/
inductive Units (ok : Char → Bool) : List Char → Prop where
  | nil : Units ok []
  | escaped (c : Char) {s : List Char} (tail : Units ok s) : Units ok ('\\' :: c :: s)
  | plain {c : Char} {s : List Char} (char : ok c = true) (tail : Units ok s) : Units ok (c :: s)

/-- A text that consists of word characters. -/
abbrev Run (colons : Bool) : List Char → Prop := Units fun c => isPlain c || (colons && c == ':')

/-- True when a run goes on here. -/
def runsOn (colons : Bool) (s : List Char) : Bool := atWordChar s || (colons && s.head? == some ':')

@[simp] lemma runsOn_false (s : List Char) : runsOn false s = atWordChar s := by simp [runsOn]

lemma runsOn_cons {colons : Bool} {c : Char} {s : List Char}
    (h : (isPlain c || (colons && c == ':')) = true) : runsOn colons (c :: s) = true := by
  have hc : c ≠ '\\' := by rintro rfl; simp [isPlain, isSpecial] at h
  cases s <;> simp_all [runsOn, atWordChar]

lemma atWordChar_of_runsOn {colons : Bool} {s : List Char} (h : runsOn colons s = false) :
    atWordChar s = false := by
  simp only [runsOn, Bool.or_eq_false_iff] at h
  exact h.1

lemma atWordChar_cons {c : Char} {s : List Char} (h : isPlain c = true) :
    atWordChar (c :: s) = true := by
  have hruns : runsOn false (c :: s) = true := runsOn_cons (by simpa using h)
  simpa using hruns

lemma head_not_plain {c : Char} {s : List Char} (h : atWordChar (c :: s) = false) :
    isPlain c = false := by
  cases hc : isPlain c
  · rfl
  · rw [atWordChar_cons hc] at h
    cases h

/-- A run in front of a text that does not continue it is read as a whole. -/
lemma wordRun_of_run {colons : Bool} {w s : List Char} (hw : Run colons w)
    (hs : runsOn colons s = false) : wordRun colons (w ++ s) = (w, s) := by
  induction hw with
  | nil =>
    match s with
    | [] => rfl
    | ['\\'] => simp [wordRun, isPlain, isSpecial]
    | '\\' :: _ :: _ => simp [runsOn, atWordChar] at hs
    | c :: t =>
      have hc : ¬(isPlain c || (colons && c == ':')) = true := by
        intro h
        rw [runsOn_cons h] at hs
        cases hs
      rw [List.nil_append, wordRun]
      · simp only [hc]
        rfl
      · rintro d u rfl rfl
        simp [runsOn, atWordChar] at hs
  | escaped c _ ih => simp [wordRun, ih]
  | @plain c t hc _ ih =>
    rw [List.cons_append, wordRun]
    · simp [hc, ih]
    · rintro d u rfl _
      simp [isPlain, isSpecial] at hc

lemma run_wordRun (colons : Bool) (s : List Char) : Run colons (wordRun colons s).1 := by
  fun_induction wordRun colons s with
  | case1 c s run rest h ih =>
    rw [h] at ih
    exact .escaped c ih
  | case2 c s _ hc run rest h ih =>
    rw [h] at ih
    exact .plain hc ih
  | case3 => exact .nil
  | case4 => exact .nil

lemma runsOn_wordRun (colons : Bool) (s : List Char) :
    runsOn colons (wordRun colons s).2 = false := by
  fun_induction wordRun colons s with
  | case1 c s run rest h ih => simpa [h] using ih
  | case2 c s _ hc run rest h ih => simpa [h] using ih
  | case3 c s hescape hc =>
    have : atWordChar (c :: s) = isPlain c := by
      rw [atWordChar]
      exact fun d t hd ht => hescape d t hd ht
    simp_all [runsOn]
  | case4 => simp [runsOn, atWordChar]

/-- What a run is, seen from the reader: its text, all of it a run, and a rest that ends it. -/
lemma wordRun_eq {colons : Bool} {s w r : List Char} (h : wordRun colons s = (w, r)) :
    s = w ++ r ∧ Run colons w ∧ runsOn colons r = false := by
  have hs := wordRun_append colons s
  have hw := run_wordRun colons s
  have hr := runsOn_wordRun colons s
  rw [h] at hs hw hr
  exact ⟨hs.symm, hw, hr⟩

lemma run_eq_nil {colons : Bool} {w : List Char} (hw : Run colons w) (h : runsOn colons w = false) :
    w = [] := by
  cases hw with
  | nil => rfl
  | escaped c _ => simp [runsOn, atWordChar] at h
  | plain hc _ =>
    rw [runsOn_cons hc] at h
    cases h

/-- The first characters of a run decide whether one starts there. -/
lemma atWordChar_append {colons : Bool} {w s : List Char} (hw : Run colons w) (hne : w ≠ []) :
    atWordChar (w ++ s) = atWordChar w := by
  cases hw with
  | nil => exact absurd rfl hne
  | escaped c _ => simp [atWordChar]
  | @plain c t hc _ =>
    have hb : c ≠ '\\' := by rintro rfl; simp [isPlain, isSpecial] at hc
    simp [atWordChar, hb]

lemma atWordChar_of_run {colons : Bool} {w s : List Char} (hw : Run colons w) (hne : w ≠ [])
    (hhead : w.head? ≠ some ':') : atWordChar (w ++ s) = true := by
  cases hw with
  | nil => exact absurd rfl hne
  | escaped c _ => rfl
  | @plain c t hc _ =>
    have hcolon : c ≠ ':' := by simpa using hhead
    exact atWordChar_cons (by simpa [hcolon] using hc)

/-! ### Keywords -/

lemma afterPrefix?_append {colons : Bool} {k w s : List Char} (hk : ∀ c ∈ k, isPlain c = true)
    (hw : Run colons w) (hs : atWordChar s = false) :
    afterPrefix? k (w ++ s) = (afterPrefix? k w).map (· ++ s) := by
  induction hw generalizing k with
  | nil =>
    cases k with
    | nil => simp [afterPrefix?]
    | cons c k =>
      cases s with
      | nil => simp [afterPrefix?]
      | cons d s =>
        have hc : c ≠ d := by
          rintro rfl
          have := hk c (by simp)
          rw [head_not_plain hs] at this
          cases this
        simp [afterPrefix?, hc]
  | escaped c _ _ =>
    cases k with
    | nil => simp [afterPrefix?]
    | cons d k =>
      have hd : d ≠ '\\' := by
        rintro rfl
        simpa [isPlain, isSpecial] using hk '\\' (by simp)
      simp [afterPrefix?, hd]
  | @plain c t _ _ ih =>
    cases k with
    | nil => simp [afterPrefix?]
    | cons d k =>
      by_cases hd : d = c
      · simpa [afterPrefix?, hd] using ih fun c hc => hk c (by simp [hc])
      · simp [afterPrefix?, hd]

lemma run_of_afterPrefix? {colons : Bool} {k w r : List Char} (hk : ∀ c ∈ k, isPlain c = true)
    (hw : Run colons w) (h : afterPrefix? k w = some r) : Run colons r := by
  induction hw generalizing k with
  | nil =>
    cases k with
    | nil => simp only [afterPrefix?, Option.some.injEq] at h; exact h ▸ .nil
    | cons c k => simp [afterPrefix?] at h
  | escaped c tail _ =>
    cases k with
    | nil => simp only [afterPrefix?, Option.some.injEq] at h; exact h ▸ .escaped c tail
    | cons d k =>
      have hd : d ≠ '\\' := by
        rintro rfl
        simpa [isPlain, isSpecial] using hk '\\' (by simp)
      simp [afterPrefix?, hd] at h
  | @plain c t hc tail ih =>
    cases k with
    | nil => simp only [afterPrefix?, Option.some.injEq] at h; exact h ▸ .plain hc tail
    | cons d k =>
      by_cases hd : d = c
      · simp only [afterPrefix?, hd, if_true] at h
        exact ih (fun c hc => hk c (by simp [hc])) h
      · simp [afterPrefix?, hd] at h

/-- Whether a keyword stands at the start of a run is decided inside the run. -/
lemma keyword?_append {colons : Bool} {k : String} {w s : List Char}
    (hk : ∀ c ∈ k.toList, isPlain c = true) (hw : Run colons w) (hs : atWordChar s = false) :
    keyword? k (w ++ s) = (keyword? k w).map (· ++ s) := by
  unfold keyword?
  rw [afterPrefix?_append hk hw hs]
  cases h : afterPrefix? k.toList w with
  | none => rfl
  | some r =>
    have hr := run_of_afterPrefix? hk hw h
    by_cases hne : r = []
    · subst hne
      have : atWordChar [] = false := rfl
      simp [hs, this]
    · simp only [Option.map_some, atWordChar_append hr hne]
      split <;> simp

lemma plain_of_mem_keyword {k : String} (h : k = "AND" ∨ k = "OR" ∨ k = "NOT" ∨ k = "TO") :
    ∀ c ∈ k.toList, isPlain c = true := by
  rcases h with rfl | rfl | rfl | rfl <;> exact List.all_eq_true.1 rfl

lemma atReserved_append {colons : Bool} {w s : List Char} (hw : Run colons w)
    (hs : atWordChar s = false) : atReserved (w ++ s) = atReserved w := by
  simp only [atReserved, keyword?_append (plain_of_mem_keyword (.inl rfl)) hw hs,
    keyword?_append (plain_of_mem_keyword (.inr (.inl rfl))) hw hs,
    keyword?_append (plain_of_mem_keyword (.inr (.inr (.inl rfl)))) hw hs, Option.isSome_map]

/-- A run in front of which a keyword stands is the keyword alone. -/
lemma eq_of_keyword? {colons : Bool} {k : String} {w r : List Char}
    (hk : ∀ c ∈ k.toList, isPlain c = true) (hw : Run colons w) (hcolons : colons = false)
    (h : keyword? k w = some r) : w = k.toList ∧ r = [] := by
  unfold keyword? at h
  split at h
  · rename_i rest hrest
    split at h
    · cases h
    · rename_i hr
      cases h
      have hnil := run_eq_nil (run_of_afterPrefix? hk hw hrest)
        (by simpa [runsOn, hcolons] using hr)
      exact ⟨by simpa [hnil] using afterPrefix?_eq_some_iff.1 hrest, hnil⟩
  · cases h

/-- A keyword in front of a text that is no part of a word. -/
lemma keyword?_self {k : String} {s : List Char} (hs : atWordChar s = false) :
    keyword? k (k.toList ++ s) = some s := by
  have h : afterPrefix? k.toList (k.toList ++ s) = some s := afterPrefix?_eq_some_iff.2 rfl
  simp [keyword?, h, hs]

lemma keyword?_eq_some {k : String} {s r : List Char} (h : keyword? k s = some r) :
    s = k.toList ++ r ∧ atWordChar r = false := by
  unfold keyword? at h
  split at h
  · rename_i rest hrest
    split at h
    · cases h
    · rename_i hr
      cases h
      exact ⟨afterPrefix?_eq_some_iff.1 hrest, by simpa using hr⟩
  · cases h

/-! ### Words -/

lemma run?_append {colons : Bool} {w s : List Char} (hw : Run colons w) (hne : w ≠ [])
    (hs : runsOn colons s = false) : run? colons (w ++ s) = some (String.ofList w, s) := by
  obtain ⟨c, t, rfl⟩ := List.exists_cons_of_ne_nil hne
  simp only [run?, wordRun_of_run hw hs]

lemma run?_eq_some {colons : Bool} {s r : List Char} {text : String}
    (h : run? colons s = some (text, r)) :
    s = text.toList ++ r ∧ Run colons text.toList ∧ text.toList ≠ [] ∧ runsOn colons r = false := by
  unfold run? at h
  split at h
  · cases h
  · rename_i c run rest hrun
    cases h
    obtain ⟨hs, hw, hr⟩ := wordRun_eq hrun
    simpa using ⟨hs, hw, hr⟩

/-- A word by itself: a run that is not reserved and does not start with a sign or a colon. -/
structure IsTerm (colons : Bool) (w : List Char) : Prop where
  run : Run colons w
  ne_nil : w ≠ []
  start : ∀ c ∈ w.head?, c ≠ '+' ∧ c ≠ '-' ∧ c ≠ ':'
  free : atReserved w = false

lemma term?_of_start {colons : Bool} {s : List Char}
    (h : ∀ c ∈ s.head?, c ≠ '+' ∧ c ≠ '-' ∧ c ≠ ':') :
    term? colons s = if atReserved s then none else run? colons s := by
  unfold term?
  split
  · simpa using h '+' (by simp)
  · simpa using h '-' (by simp)
  · simpa using h ':' (by simp)
  · rfl

/-- A word is read in front of every text that does not continue it. -/
theorem term?_append {colons : Bool} {w s : List Char} (hw : IsTerm colons w)
    (hs : runsOn colons s = false) : term? colons (w ++ s) = some (String.ofList w, s) := by
  have hstart : ∀ c ∈ (w ++ s).head?, c ≠ '+' ∧ c ≠ '-' ∧ c ≠ ':' := by
    intro c hc
    obtain ⟨d, t, rfl⟩ := List.exists_cons_of_ne_nil hw.ne_nil
    exact hw.start c hc
  rw [term?_of_start hstart, atReserved_append hw.run (atWordChar_of_runsOn hs), hw.free]
  exact run?_append hw.run hw.ne_nil hs

theorem term?_eq_some {colons : Bool} {s r : List Char} {text : String}
    (h : term? colons s = some (text, r)) :
    s = text.toList ++ r ∧ IsTerm colons text.toList ∧ runsOn colons r = false := by
  have hstart : ∀ c ∈ s.head?, c ≠ '+' ∧ c ≠ '-' ∧ c ≠ ':' := by
    intro c hc
    refine ⟨?_, ?_, ?_⟩ <;>
    · rintro rfl
      obtain ⟨t, rfl⟩ : ∃ t, s = _ :: t := List.head?_eq_some_iff.1 hc
      simp [term?] at h
  rw [term?_of_start hstart] at h
  split at h
  · cases h
  · rename_i hfree
    obtain ⟨hs, hrun, hne, hr⟩ := run?_eq_some h
    refine ⟨hs, ⟨hrun, hne, ?_, ?_⟩, hr⟩
    · intro c hc
      obtain ⟨d, t, ht⟩ := List.exists_cons_of_ne_nil hne
      rw [hs] at hstart
      rw [ht] at hstart hc
      exact hstart c hc
    · rw [hs, atReserved_append hrun (atWordChar_of_runsOn hr)] at hfree
      simpa using hfree

/-- A bound of a range by itself: a run, colons included, that is not `TO`. -/
structure IsBound (w : List Char) : Prop where
  run : Run true w
  ne_nil : w ≠ []
  free : (keyword? "TO" w).isSome = false

theorem bound?_append {w s : List Char} (hw : IsBound w) (hs : runsOn true s = false) :
    bound? (w ++ s) = some (String.ofList w, s) := by
  have hto := plain_of_mem_keyword (k := "TO") (by simp)
  rw [bound?, keyword?_append hto hw.run (atWordChar_of_runsOn hs), Option.isSome_map, hw.free]
  exact run?_append hw.run hw.ne_nil hs

theorem bound?_eq_some {s r : List Char} {text : String} (h : bound? s = some (text, r)) :
    s = text.toList ++ r ∧ IsBound text.toList ∧ runsOn true r = false := by
  unfold bound? at h
  split at h
  · cases h
  · rename_i hfree
    obtain ⟨hs, hrun, hne, hr⟩ := run?_eq_some h
    refine ⟨hs, ⟨hrun, hne, ?_⟩, hr⟩
    have hto := plain_of_mem_keyword (k := "TO") (by simp)
    rw [hs, keyword?_append hto hrun (atWordChar_of_runsOn hr), Option.isSome_map] at hfree
    simpa using hfree

/-! ### Gaps -/

/-- A text of nothing but separating blanks. -/
def IsGap (g : List Char) : Prop := ∀ c ∈ g, isGap c = true

instance (g : List Char) : Decidable (IsGap g) := decidable_of_iff _ List.all_eq_true

lemma isGap_nil : IsGap [] := by simp [IsGap]

lemma skipGap_append {g : List Char} (h : IsGap g) (s : List Char) :
    skipGap (g ++ s) = skipGap s := by
  induction g with
  | nil => rfl
  | cons c g ih =>
    have hc : isGap c = true := h c (by simp)
    simpa [skipGap, hc] using ih fun d hd => h d (by simp [hd])

lemma skipGap_of_head {c : Char} {s : List Char} (h : isGap c = false) :
    skipGap (c :: s) = c :: s := by
  simp [skipGap, h]

@[simp] lemma skipGap_idem (s : List Char) : skipGap (skipGap s) = skipGap s :=
  List.dropWhile_idempotent (p := isGap) (l := s)

/-- A text is its gap and what follows it. -/
lemma exists_gap (s : List Char) : ∃ g, IsGap g ∧ s = g ++ skipGap s := by
  refine ⟨s.takeWhile isGap, fun c hc => List.mem_takeWhile_imp hc, ?_⟩
  exact (List.takeWhile_append_dropWhile).symm

lemma isGap_not_plain {c : Char} (h : isGap c = true) : isPlain c = false := by
  simp [isPlain, h]

lemma skipGap_run {colons : Bool} {w s : List Char} (hw : Run colons w) (hne : w ≠ []) :
    skipGap (w ++ s) = w ++ s := by
  cases hw with
  | nil => exact absurd rfl hne
  | escaped c _ => exact skipGap_of_head rfl
  | @plain c t hc _ =>
    refine skipGap_of_head ?_
    simp only [Bool.or_eq_true, Bool.and_eq_true, beq_iff_eq] at hc
    rcases hc with hc | ⟨-, rfl⟩
    · cases hgap : isGap c
      · rfl
      · rw [isGap_not_plain hgap] at hc
        cases hc
    · rfl

lemma atWordChar_of_gap {g s : List Char} (h : IsGap g) (hne : g ≠ []) :
    atWordChar (g ++ s) = false := by
  obtain ⟨c, t, rfl⟩ := List.exists_cons_of_ne_nil hne
  have hc : isGap c = true := h c (by simp)
  have hb : c ≠ '\\' := by rintro rfl; simp [isGap] at hc
  simp [atWordChar, hb, isGap_not_plain hc]

/-! ### Colons ahead -/

/-- True when the next character behind the gap is a colon. -/
def colonAhead (s : List Char) : Bool := (skipGap s).head? == some ':'

@[simp] lemma colonAhead_append {g : List Char} (h : IsGap g) (s : List Char) :
    colonAhead (g ++ s) = colonAhead s := by
  simp [colonAhead, skipGap_append h]

lemma runsOn_of_colonAhead {colons : Bool} {s : List Char} (hs : atWordChar s = false)
    (hcolon : colonAhead s = false) : runsOn colons s = false := by
  have : s.head? ≠ some ':' := by
    intro h
    obtain ⟨t, rfl⟩ := List.head?_eq_some_iff.1 h
    simp [colonAhead, skipGap_of_head (show isGap ':' = false from rfl)] at hcolon
  simp [runsOn, hs, this]

/-! ### Phrases -/

lemma phraseBody?_eq_some {s body r : List Char} (h : phraseBody? s = some (body, r)) :
    s = body ++ r ∧ ∀ t, phraseBody? (body ++ t) = some (body, t) := by
  fun_induction phraseBody? s generalizing body with
  | case1 c s ih =>
    simp only [Option.map_eq_some_iff, Prod.mk.injEq] at h
    obtain ⟨⟨b, r'⟩, hb, rfl, rfl⟩ := h
    obtain ⟨hs, ht⟩ := ih hb
    refine ⟨by simp [hs], fun t => ?_⟩
    simp [phraseBody?, ht]
  | case2 s =>
    cases h
    exact ⟨rfl, fun t => by simp [phraseBody?]⟩
  | case3 c s hescape hquote ih =>
    simp only [Option.map_eq_some_iff, Prod.mk.injEq] at h
    obtain ⟨⟨b, r'⟩, hb, rfl, rfl⟩ := h
    obtain ⟨hs, ht⟩ := ih hb
    refine ⟨by simp [hs], fun t => ?_⟩
    have hne : s ≠ [] := by rintro rfl; simp [phraseBody?] at hb
    have hb' : c ≠ '\\' := by
      rintro rfl
      obtain ⟨d, u, rfl⟩ := List.exists_cons_of_ne_nil hne
      exact hescape d u rfl rfl
    rw [List.cons_append, phraseBody?]
    · simp [ht]
    · exact fun _ _ hc _ => hb' hc
    · exact hquote
  | case4 => cases h

/-- A phrase by itself, with both quotes. -/
def IsPhrase (w : List Char) : Prop := ∀ s, phrase? (w ++ s) = some (String.ofList w, s)

theorem phrase?_eq_some {s r : List Char} {text : String} (h : phrase? s = some (text, r)) :
    s = text.toList ++ r ∧ IsPhrase text.toList := by
  unfold phrase? at h
  split at h
  · rename_i t
    simp only [Option.map_eq_some_iff, Prod.mk.injEq] at h
    obtain ⟨⟨body, r'⟩, hbody, rfl, rfl⟩ := h
    obtain ⟨ht, happ⟩ := phraseBody?_eq_some hbody
    refine ⟨by simp [ht], fun u => ?_⟩
    simp [phrase?, happ]
  · cases h

lemma IsPhrase.exists_cons {w : List Char} (h : IsPhrase w) : ∃ t, w = '"' :: t := by
  have h := h []
  unfold phrase? at h
  split at h
  · rename_i t ht
    simp only [List.append_nil] at ht
    exact ⟨t, ht⟩
  · cases h

/-! ### Names of fields -/

/-- The characters behind the first one of a field's name. -/
def isNameChar (c : Char) : Bool := c == '_' || c == '.' || c == '-' || c.isAlphanum

/-- The characters that start a field's name. -/
def isNameStart (c : Char) : Bool := c == '=' || c == '_' || c.isAlpha

/-- The name of a field by itself. -/
def IsFieldName (w : List Char) : Prop :=
  ∃ c t, w = c :: t ∧ isNameStart c = true ∧ ∀ d ∈ t, isNameChar d = true

lemma isPlain_of_not {c : Char} (hgap : isGap c = false) (hspecial : isSpecial c = false) :
    isPlain c = true := by simp [isPlain, hgap, hspecial]

lemma isAlphanum_plain {c : Char} (h : c.isAlphanum = true) : isPlain c = true := by
  have h' : ∀ d : Char, isPlain d = false → d.isAlphanum = false → c ≠ d := by
    rintro d - hd rfl
    rw [hd] at h
    cases h
  refine isPlain_of_not ?_ ?_
  · simp only [isGap, Bool.or_eq_false_iff, beq_eq_false_iff_ne]
    exact ⟨⟨⟨h' _ rfl rfl, h' _ rfl rfl⟩, h' _ rfl rfl⟩, h' _ rfl rfl⟩
  · simp only [isSpecial, Bool.or_eq_false_iff, beq_eq_false_iff_ne]
    exact ⟨⟨⟨⟨⟨⟨⟨⟨⟨⟨h' _ rfl rfl, h' _ rfl rfl⟩, h' _ rfl rfl⟩, h' _ rfl rfl⟩, h' _ rfl rfl⟩,
      h' _ rfl rfl⟩, h' _ rfl rfl⟩, h' _ rfl rfl⟩, h' _ rfl rfl⟩, h' _ rfl rfl⟩, h' _ rfl rfl⟩

lemma isPlain_of_isNameChar {c : Char} (h : isNameChar c = true) : isPlain c = true := by
  simp only [isNameChar, Bool.or_eq_true, beq_iff_eq] at h
  rcases h with ((rfl | rfl) | rfl) | h
  · rfl
  · rfl
  · rfl
  · exact isAlphanum_plain h

lemma isPlain_of_isNameStart {c : Char} (h : isNameStart c = true) : isPlain c = true := by
  simp only [isNameStart, Bool.or_eq_true, beq_iff_eq] at h
  rcases h with (rfl | rfl) | h
  · rfl
  · rfl
  · exact isAlphanum_plain (by simp [Char.isAlphanum, h])

lemma IsFieldName.run {w : List Char} (h : IsFieldName w) : Run false w := by
  obtain ⟨c, t, rfl, hc, ht⟩ := h
  refine .plain (by simp [isPlain_of_isNameStart hc]) ?_
  induction t with
  | nil => exact .nil
  | cons d t ih =>
    refine .plain (by simp [isPlain_of_isNameChar (ht d (by simp))]) (ih fun e he => ?_)
    exact ht e (by simp [he])

lemma fieldName?_cons (c : Char) (s : List Char) :
    fieldName? (c :: s) = if isNameStart c = true then
      some (String.ofList (c :: s.takeWhile isNameChar), s.dropWhile isNameChar) else none := by
  rfl

lemma fieldName?_append {w s : List Char} (hw : IsFieldName w)
    (hs : ∀ c ∈ s.head?, isNameChar c = false) :
    fieldName? (w ++ s) = some (String.ofList w, s) := by
  obtain ⟨c, t, rfl, hc, ht⟩ := hw
  have htake : s.takeWhile isNameChar = [] := by
    cases s with
    | nil => rfl
    | cons d s => simp [hs d (by simp)]
  have hdrop : s.dropWhile isNameChar = s := by
    cases s with
    | nil => rfl
    | cons d s => simp [hs d (by simp)]
  rw [List.cons_append, fieldName?_cons, if_pos hc, List.takeWhile_append_of_pos ht,
    List.dropWhile_append_of_pos ht, htake, hdrop, List.append_nil]

lemma fieldName?_eq_some {s r : List Char} {name : String} (h : fieldName? s = some (name, r)) :
    s = name.toList ++ r ∧ IsFieldName name.toList := by
  cases s with
  | nil => simp [fieldName?] at h
  | cons c t =>
    rw [fieldName?_cons] at h
    split at h
    · rename_i hc
      simp only [Option.some.injEq, Prod.mk.injEq] at h
      obtain ⟨rfl, rfl⟩ := h
      refine ⟨by simp, c, t.takeWhile isNameChar, by simp, hc, fun d hd => ?_⟩
      exact List.mem_takeWhile_imp hd
    · cases h

/-! ### Numbers -/

/-- True when a digit comes next. -/
def digitAhead (s : List Char) : Bool := s.head?.any Char.isDigit

/-- True when a point and a digit come next. -/
def pointAhead : List Char → Bool
  | '.' :: s => digitAhead s
  | _ => false

lemma toNat_of_isDigit {c : Char} (h : c.isDigit = true) : 48 ≤ c.toNat ∧ c.toNat ≤ 57 := by
  simp only [Char.isDigit, Bool.and_eq_true, decide_eq_true_eq] at h
  exact h

lemma toNat_of_isAlpha {c : Char} (h : c.isAlpha = true) :
    65 ≤ c.toNat ∧ c.toNat ≤ 90 ∨ 97 ≤ c.toNat ∧ c.toNat ≤ 122 := by
  obtain hupper | hlower := Bool.or_eq_true_iff.1 h
  · exact .inl (of_decide_eq_true hupper)
  · obtain ⟨hlow, hhigh⟩ := Bool.and_eq_true_iff.1 hlower
    exact .inr ⟨of_decide_eq_true hlow, of_decide_eq_true hhigh⟩

lemma isPlain_of_isDigit {c : Char} (h : c.isDigit = true) : isPlain c = true :=
  isAlphanum_plain (by simp [Char.isAlphanum, h])

lemma not_isNameStart_of_isDigit {c : Char} (h : c.isDigit = true) : isNameStart c = false := by
  obtain ⟨hlow, hhigh⟩ := toNat_of_isDigit h
  cases hc : isNameStart c
  · rfl
  · simp only [isNameStart, Bool.or_eq_true, beq_iff_eq] at hc
    rcases hc with (rfl | rfl) | hc
    · cases h
    · cases h
    rcases Bool.or_eq_true_iff.1 hc with hupper | hlower
    · have : 65 ≤ c.toNat := (of_decide_eq_true hupper).1
      omega
    · have : 97 ≤ c.toNat := of_decide_eq_true (Bool.and_eq_true_iff.1 hlower).1
      omega

lemma digits_append {w s : List Char} (hw : ∀ c ∈ w, c.isDigit = true) (hs : digitAhead s = false) :
    (w ++ s).takeWhile Char.isDigit = w ∧ (w ++ s).dropWhile Char.isDigit = s := by
  have htake : s.takeWhile Char.isDigit = [] ∧ s.dropWhile Char.isDigit = s := by
    cases s with
    | nil => exact ⟨rfl, rfl⟩
    | cons c s =>
      have hc : c.isDigit = false := by simpa [digitAhead] using hs
      simp [hc]
  rw [List.takeWhile_append_of_pos hw, List.dropWhile_append_of_pos hw, htake.1, htake.2]
  simp

lemma digitAhead_dropWhile (s : List Char) : digitAhead (s.dropWhile Char.isDigit) = false := by
  have h := List.head?_dropWhile_not Char.isDigit s
  unfold digitAhead
  cases hd : (s.dropWhile Char.isDigit).head? with
  | none => rfl
  | some c => simpa [hd] using h

lemma takeWhile_digits_eq_nil {s : List Char} :
    s.takeWhile Char.isDigit = [] ↔ digitAhead s = false := by
  cases s with
  | nil => simp [digitAhead]
  | cons c s => by_cases hc : c.isDigit = true <;> simp [digitAhead, hc]

lemma number?_of_not_digit {s : List Char} (h : digitAhead s = false) (hp : pointAhead s = false) :
    number? s = none := by
  have ht : s.takeWhile Char.isDigit = [] := takeWhile_digits_eq_nil.2 h
  have hd : s.dropWhile Char.isDigit = s := by simpa using (digits_append (w := []) (by simp) h).2
  unfold number?
  dsimp only
  rw [ht, hd]
  split
  · rename_i t
    rw [takeWhile_digits_eq_nil.2 hp]
    rfl
  · rfl

lemma number?_fraction {w f s : List Char} (hw : ∀ c ∈ w, c.isDigit = true) (hf : f ≠ [])
    (hfd : ∀ c ∈ f, c.isDigit = true) (hs : digitAhead s = false) :
    number? (w ++ '.' :: f ++ s) = some (String.ofList (w ++ '.' :: f), s) := by
  have h₁ := digits_append (s := '.' :: (f ++ s)) hw rfl
  have h₂ := digits_append hfd hs
  rw [List.append_assoc, List.cons_append]
  simp [number?, h₁.1, h₁.2, h₂.1, h₂.2, hf]

lemma number?_whole {w s : List Char} (hne : w ≠ []) (hw : ∀ c ∈ w, c.isDigit = true)
    (hs : digitAhead s = false) (hp : pointAhead s = false) :
    number? (w ++ s) = some (String.ofList w, s) := by
  have h := digits_append hw hs
  unfold number?
  dsimp only
  rw [h.1, h.2]
  split
  · rename_i t
    rw [takeWhile_digits_eq_nil.2 hp]
    simp [hne]
  · simp [hne]

/-- What is read as a number: digits behind which no fraction follows, or a point and digits, with
digits before the point or none. -/
lemma number?_eq_some {s r : List Char} {text : String} (h : number? s = some (text, r)) :
    s = text.toList ++ r ∧ digitAhead r = false ∧
      ((∃ w f, text.toList = w ++ '.' :: f ∧ f ≠ [] ∧ (∀ c ∈ w, c.isDigit = true) ∧
          ∀ c ∈ f, c.isDigit = true) ∨
        (text.toList ≠ [] ∧ (∀ c ∈ text.toList, c.isDigit = true) ∧ pointAhead r = false)) := by
  have hsplit := List.takeWhile_append_dropWhile (p := Char.isDigit) (l := s)
  have hrest := digitAhead_dropWhile s
  have hwhole : ∀ c ∈ s.takeWhile Char.isDigit, c.isDigit = true := fun c => List.mem_takeWhile_imp
  unfold number? at h
  dsimp only at h
  split at h
  · rename_i t ht
    rw [ht] at hsplit hrest
    split at h
    · rename_i hf
      split at h
      · cases h
      · rename_i hw
        cases h
        have hpoint : pointAhead ('.' :: t) = false :=
          takeWhile_digits_eq_nil.1 (List.isEmpty_iff.1 hf)
        rw [List.isEmpty_iff] at hw
        exact ⟨by simpa using hsplit.symm, hrest,
          .inr ⟨by simpa using hw, by simpa using hwhole, hpoint⟩⟩
    · rename_i hf
      rw [List.isEmpty_iff] at hf
      cases h
      refine ⟨?_, digitAhead_dropWhile t,
        .inl ⟨_, t.takeWhile Char.isDigit, by simp, hf, hwhole, fun c => List.mem_takeWhile_imp⟩⟩
      simp [hsplit, List.takeWhile_append_dropWhile]
  · rename_i hpoint
    split at h
    · cases h
    · rename_i hw
      rw [List.isEmpty_iff] at hw
      cases h
      refine ⟨by rw [String.toList_ofList]; exact hsplit.symm, hrest,
        .inr ⟨by simpa using hw, ?_, ?_⟩⟩
      · simpa using hwhole
      unfold pointAhead
      split
      · rename_i t ht
        exact absurd ht (hpoint t)
      · rfl

lemma number?_isSome {s : List Char} (h : digitAhead s = true ∨ pointAhead s = true) :
    (number? s).isSome = true := by
  have hne : digitAhead s = true → s.takeWhile Char.isDigit ≠ [] := by
    intro hd hnil
    rw [takeWhile_digits_eq_nil.1 hnil] at hd
    cases hd
  unfold number?
  dsimp only
  split
  · rename_i t ht
    split
    · rename_i hf
      have hd : digitAhead s = true := by
        refine h.resolve_right fun hp => ?_
        unfold pointAhead at hp
        split at hp
        · rename_i u
          have : u = t := by simpa using ht
          rw [List.isEmpty_iff, takeWhile_digits_eq_nil, ← this, hp] at hf
          cases hf
        · cases hp
      simp [List.isEmpty_iff, hne hd]
    · rfl
  · rename_i hpoint
    have hd : digitAhead s = true := by
      refine h.resolve_right fun hp => ?_
      unfold pointAhead at hp
      split at hp
      · exact hpoint _ (List.dropWhile_cons_of_neg (by decide))
      · cases hp
    simp [List.isEmpty_iff, hne hd]

lemma not_ahead_of_number? {s : List Char} (h : number? s = none) :
    digitAhead s = false ∧ pointAhead s = false := by
  have hsome := mt (number?_isSome (s := s)) (by simp [h])
  simpa using hsome

/-- A number that may be missing is read alike in front of all texts that do not prolong it. -/
theorem optionalNumber_congr {n : Option String} {s t : List Char}
    (h : optionalNumber (optionalChars n ++ s) = (n, s))
    (hd : digitAhead t = true → digitAhead s = true)
    (hp : pointAhead t = true → pointAhead s = true) :
    optionalNumber (optionalChars n ++ t) = (n, t) := by
  have hfalse : ∀ {a b : Bool}, (a = true → b = true) → b = false → a = false := by
    intro a b hab hb
    cases a
    · rfl
    · rw [hab rfl] at hb
      exact hb
  unfold optionalNumber at h ⊢
  cases hn : number? (optionalChars n ++ s) with
  | none =>
    rw [hn] at h
    simp only [Prod.mk.injEq] at h
    obtain ⟨rfl, -⟩ := h
    have hs := not_ahead_of_number? (s := s) (by simpa [optionalChars] using hn)
    have := number?_of_not_digit (hfalse hd hs.1) (hfalse hp hs.2)
    simp [optionalChars, this]
  | some x =>
    obtain ⟨text, r⟩ := x
    rw [hn] at h
    simp only [Prod.mk.injEq] at h
    obtain ⟨rfl, rfl⟩ := h
    have hchars : optionalChars (some text) = text.toList := rfl
    obtain ⟨-, hr, ⟨w, f, htext, hf, hw, hfd⟩ | ⟨hne, hall, hpoint⟩⟩ := number?_eq_some hn
    · have hread := number?_fraction hw hf hfd (hfalse hd hr)
      rw [hchars, htext, hread, ← htext, String.ofList_toList]
    · have hread := number?_whole hne hall (hfalse hd hr) (hfalse hp hpoint)
      rw [hchars, hread, String.ofList_toList]

/-- What is read as a number that may be missing is read so again. -/
lemma optionalNumber_eq {n : Option String} {s r : List Char} (h : optionalNumber s = (n, r)) :
    s = optionalChars n ++ r := by
  unfold optionalNumber at h
  split at h
  · rename_i text rest hn
    cases h
    exact (number?_eq_some hn).1
  · cases h
    rfl

/-! ### Heads of fields -/

/-- The head of a field, without the proof that it is not empty. -/
def headAt (s : List Char) : Option (String × List Char) := (fieldHead? s).map Subtype.val

lemma headAt_eq (s : List Char) : headAt s = (fieldName? s).bind fun x =>
    match skipGap x.2 with
    | ':' :: r => some (x.1, r)
    | _ => none := by
  unfold headAt fieldHead?
  split
  · rename_i name rest h
    simp only [h, Option.bind_some]
    split
    · rename_i rest' h'
      simp [h']
    · rename_i hne
      split
      · rename_i r h'
        exact absurd h' (hne r)
      · rfl
  · rename_i h
    simp [h]

lemma headAt_eq_some {s r : List Char} {name : String} (h : headAt s = some (name, r)) :
    ∃ g, IsGap g ∧ s = name.toList ++ g ++ ':' :: r ∧ IsFieldName name.toList := by
  rw [headAt_eq, Option.bind_eq_some_iff] at h
  obtain ⟨⟨name', rest⟩, hname, h⟩ := h
  dsimp only at h
  split at h
  · rename_i r' hcolon
    cases h
    obtain ⟨hs, hfield⟩ := fieldName?_eq_some hname
    obtain ⟨g, hg, hrest⟩ := exists_gap rest
    exact ⟨g, hg, by rw [hs, hrest, hcolon, List.append_assoc], hfield⟩
  · cases h

lemma not_isNameChar_of_gap {c : Char} (h : isGap c = true) : isNameChar c = false := by
  cases hc : isNameChar c
  · rfl
  · have := isGap_not_plain h
    rw [isPlain_of_isNameChar hc] at this
    cases this

lemma headAt_append {w g : List Char} (hw : IsFieldName w) (hg : IsGap g) (s : List Char) :
    headAt (w ++ g ++ ':' :: s) = some (String.ofList w, s) := by
  have hnext : ∀ c ∈ (g ++ ':' :: s).head?, isNameChar c = false := by
    intro c hc
    cases g with
    | nil =>
      obtain rfl : ':' = c := by simpa using hc
      rfl
    | cons d g =>
      obtain rfl : d = c := by simpa using hc
      exact not_isNameChar_of_gap (hg d (by simp))
  rw [headAt_eq, List.append_assoc, fieldName?_append hw hnext]
  simp [skipGap_append hg, skipGap_of_head (show isGap ':' = false from rfl)]

lemma runsOn_gap_colon {g s : List Char} (hg : IsGap g) : atWordChar (g ++ ':' :: s) = false := by
  cases g with
  | nil => simp [atWordChar, isPlain, isSpecial]
  | cons c g => exact atWordChar_of_gap hg (by simp)

/-- The head of a field that starts with a run has the whole run as its name. -/
lemma headAt_run {w s r : List Char} {name : String} (hw : Run false w) (hs : atWordChar s = false)
    (h : headAt (w ++ s) = some (name, r)) :
    IsFieldName w ∧ name.toList = w ∧ ∃ g, IsGap g ∧ s = g ++ ':' :: r := by
  obtain ⟨g, hg, hsplit, hname⟩ := headAt_eq_some h
  have hread := wordRun_of_run hname.run (s := g ++ ':' :: r) (by simpa using runsOn_gap_colon hg)
  rw [← List.append_assoc, ← hsplit, wordRun_of_run hw (by simpa using hs)] at hread
  simp only [Prod.mk.injEq] at hread
  obtain ⟨hw', hrest⟩ := hread
  exact ⟨hw' ▸ hname, hw'.symm, g, hg, hrest⟩

lemma colonAhead_iff {s : List Char} :
    colonAhead s = true ↔ ∃ g r, IsGap g ∧ s = g ++ ':' :: r := by
  constructor
  · intro h
    obtain ⟨g, hg, hs⟩ := exists_gap s
    obtain ⟨r, hr⟩ := List.head?_eq_some_iff.1 (by simpa [colonAhead] using h)
    exact ⟨g, r, hg, by rw [hs, hr]⟩
  · rintro ⟨g, r, hg, rfl⟩
    rw [colonAhead_append hg, colonAhead, skipGap_of_head rfl]
    rfl

lemma headAt_run_isSome {w s : List Char} (hw : Run false w) (hs : atWordChar s = false) :
    (headAt (w ++ s)).isSome = true ↔ IsFieldName w ∧ colonAhead s = true := by
  constructor
  · intro h
    obtain ⟨⟨name, r⟩, h⟩ := Option.isSome_iff_exists.1 h
    obtain ⟨hname, -, g, hg, hrest⟩ := headAt_run hw hs h
    exact ⟨hname, colonAhead_iff.2 ⟨g, r, hg, hrest⟩⟩
  · rintro ⟨hname, hcolon⟩
    obtain ⟨g, r, hg, rfl⟩ := colonAhead_iff.1 hcolon
    rw [← List.append_assoc, headAt_append hname hg]
    rfl

end SkyResolver.Query
