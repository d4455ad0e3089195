import SkyResolver.Proofs.Query.Passes

/-! Substitution of names. A text and the listed names decide together at which names the text is
split: from left to right, where some of them stand as wholes, at the longest one. What stands
between the names stays, and what is put in their place is not read again. -/
namespace SkyResolver.Query
open SkyResolver.Text

/-- A listed name stands as a whole behind `before` and in front of `after`. -/
structure Stands (names : List String) (before name after : List Char) : Prop where
  listed : String.ofList name ∈ names
  nonempty : name ≠ []
  opened : before.getLast?.all opensName = true
  closed : after.head?.all closesName = true

/-- It stands there, and no longer one does. -/
structure StandsLongest (names : List String) (before name after : List Char) : Prop extends
    Stands names before name after where
  longest : ∀ other behind, name ++ after = other ++ behind → Stands names before other behind →
    other.length ≤ name.length

/-- What a piece of a split text has to be: a found text is the longest listed name that stands
there, and at a character that is kept no listed name stands. -/
def Mark.Fits (names : List String) (before after : List Char) : Mark → Prop
  | .found name => StandsLongest names before name after
  | .kept c => ∀ name behind, c :: after = name ++ behind → ¬Stands names before name behind

/-- A text behind `before` is split at the listed names. -/
def SplitAtNames (names : List String) (before : List Char) (marks : List Mark) : Prop :=
  ∀ done mark more, marks = done ++ mark :: more →
    mark.Fits names (before ++ markedText done) (markedText more)

/-! ### The name that is found -/

lemma length_le_of_byteLength_le {s t r u : List Char} (h : s ++ r = t ++ u)
    (hbytes : byteLength t ≤ byteLength s) : t.length ≤ s.length := by
  obtain hprefix | ⟨v, rfl⟩ := List.prefix_or_prefix_of_prefix ⟨u, h.symm⟩ (List.prefix_append s r)
  · exact hprefix.length_le
  · cases v with
    | nil => simp
    | cons c v =>
      have := c.utf8Size_pos
      simp only [byteLength_append, byteLength_cons] at hbytes
      omega

lemma afterName?_eq_some_iff {name s r : List Char} :
    afterName? name s = some r ↔ s = name ++ r ∧ r.head?.all closesName = true := by
  rw [← afterPrefix?_eq_some_iff, afterName?]
  split
  · rename_i h
    rw [h]
    exact ⟨fun hr => by cases hr; exact ⟨rfl, rfl⟩, fun hr => hr.1⟩
  · rename_i c rest h
    rw [h]
    split
    · rename_i hc
      exact ⟨fun hr => ⟨hr, by cases hr; exact hc⟩, fun hr => hr.1⟩
    · rename_i hc
      exact ⟨nofun, fun hr => by cases hr.1; exact absurd hr.2 hc⟩
  · rename_i h
    simp [h]

lemma mem_longestFirst {names : List String} {name : List Char} :
    name ∈ longestFirst names ↔ String.ofList name ∈ names ∧ name ≠ [] := by
  rw [longestFirst, List.mem_mergeSort, List.mem_filter, List.mem_map]
  refine and_congr ⟨?_, fun h => ⟨_, h, String.toList_ofList⟩⟩ (by simp)
  rintro ⟨listed, hlisted, rfl⟩
  rwa [String.ofList_toList]

lemma pairwise_longestFirst (names : List String) :
    (longestFirst names).Pairwise fun a b => byteLength b ≤ byteLength a := by
  refine (List.pairwise_mergeSort ?_ ?_ _).imp of_decide_eq_true
  · simp only [decide_eq_true_eq]
    omega
  · simp only [Bool.or_eq_true, decide_eq_true_eq]
    omega

section Finding
variable {names : List String} {before s name : List Char}

lemma firstName?_eq_none_iff {listed : List (List Char)} : firstName? listed s = none ↔
    ∀ name ∈ listed, name ≠ [] → ∀ r, s = name ++ r → ¬r.head?.all closesName = true := by
  rw [firstName?, List.findSome?_eq_none_iff]
  refine forall₂_congr fun name _ => ?_
  cases name with
  | nil => simp
  | cons c name =>
    rw [if_neg (by simp), Option.map_eq_none_iff, Option.eq_none_iff_forall_ne_some]
    simp only [ne_eq, afterName?_eq_some_iff, not_and, reduceCtorEq,
      not_false_eq_true, true_imp_iff]

lemma nameFinder_eq_none_iff : (nameFinder (longestFirst names)).find before.getLast? s = none ↔
    ∀ name behind, s = name ++ behind → ¬Stands names before name behind := by
  simp only [nameFinder]
  split
  · rename_i hbefore
    rw [Option.map_eq_none_iff, firstName?_eq_none_iff]
    refine ⟨fun h name behind hs hstands => ?_, fun h name hname hne r hs hr => ?_⟩
    · exact h name (mem_longestFirst.2 ⟨hstands.listed, hstands.nonempty⟩)
        hstands.nonempty behind hs
        hstands.closed
    · exact h name r hs ⟨(mem_longestFirst.1 hname).1, hne, hbefore, hr⟩
  · rename_i hbefore
    exact ⟨fun _ name behind _ hstands => hbefore hstands.opened, fun _ => rfl⟩

/-- The longer names are tried first, so the one that is found is the longest. -/
lemma standsLongest_of_nameFinder
    (h : (nameFinder (longestFirst names)).find before.getLast? s = some name) :
    ∃ behind, s = name ++ behind ∧ StandsLongest names before name behind := by
  obtain ⟨hbefore, behind, hfirst, hs⟩ := nameFinder_find h
  obtain ⟨shorter, candidate, longer, hlist, hcandidate, hfailed⟩ :=
    List.findSome?_eq_some_iff.1 hfirst
  have hne : candidate ≠ [] := by
    rintro rfl
    cases hcandidate
  rw [if_neg (by simpa using hne), Option.map_eq_some_iff] at hcandidate
  obtain ⟨r, hr, heq⟩ := hcandidate
  obtain ⟨rfl, rfl⟩ := Prod.mk.inj heq
  obtain ⟨-, hclosed⟩ := afterName?_eq_some_iff.1 hr
  have hmem : candidate ∈ longestFirst names := by simp [hlist]
  refine ⟨r, hs, ⟨(mem_longestFirst.1 hmem).1, hne, hbefore, hclosed⟩,
    fun other after hother hstands => ?_⟩
  have hotherMem := mem_longestFirst.2 ⟨hstands.listed, hstands.nonempty⟩
  have hpairwise := pairwise_longestFirst names
  rw [hlist] at hotherMem hpairwise
  obtain hearlier | rfl | hlater : other ∈ shorter ∨ other = candidate ∨ other ∈ longer := by
    simpa using hotherMem
  · -- A name that was tried before does not stand here.
    have hfailure := hfailed other hearlier
    rw [if_neg (by simpa using hstands.nonempty), Option.map_eq_none_iff] at hfailure
    rw [afterName?_eq_some_iff.2 ⟨hs.trans hother, hstands.closed⟩] at hfailure
    cases hfailure
  · exact le_rfl
  · rw [List.pairwise_append, List.pairwise_cons] at hpairwise
    exact length_le_of_byteLength_le hother (hpairwise.2.1.1 other hlater)

lemma nameFinder_eq_some_iff :
    (nameFinder (longestFirst names)).find before.getLast? s = some name ↔
    ∃ behind, s = name ++ behind ∧ StandsLongest names before name behind := by
  refine ⟨standsLongest_of_nameFinder, ?_⟩
  rintro ⟨behind, rfl, hstands⟩
  cases hfound : (nameFinder (longestFirst names)).find before.getLast? (name ++ behind) with
  | none => exact absurd hstands.toStands (nameFinder_eq_none_iff.1 hfound name behind rfl)
  | some other =>
    obtain ⟨after, heq, hother⟩ := standsLongest_of_nameFinder hfound
    have hlength : name.length = other.length :=
      le_antisymm (hother.longest _ _ heq.symm hstands.toStands)
        (hstands.longest _ _ heq hother.toStands)
    rw [(List.append_inj heq hlength).1]

end Finding

/-! ### The splitting -/

section Splitting
variable {names : List String} {before : List Char} {marks : List Mark}

/-- The text of a piece that is found. -/
def Mark.found? : Mark → Option (List Char)
  | .found name => some name
  | .kept _ => none

@[simp] lemma markedText_kept (c : Char) : markedText [.kept c] = [c] := rfl

@[simp] lemma markedText_found (name : List Char) : markedText [.found name] = name :=
  List.append_nil name

lemma Mark.fits_iff {mark : Mark} {after : List Char} : mark.Fits names before after ↔
    (nameFinder (longestFirst names)).find before.getLast? (markedText [mark] ++ after) =
      mark.found? := by
  cases mark with
  | kept c => exact nameFinder_eq_none_iff.symm
  | found name =>
    simp only [markedText_found, Mark.found?, nameFinder_eq_some_iff, List.append_cancel_left_eq]
    exact ⟨fun h => ⟨after, rfl, h⟩, fun ⟨_, heq, h⟩ => heq ▸ h⟩

lemma markedText_cons (mark : Mark) (marks : List Mark) :
    markedText (mark :: marks) = markedText [mark] ++ markedText marks :=
  markedText_append [mark] marks

lemma splitAtNames_nil : SplitAtNames names before [] := fun done _ _ h => by simp at h

lemma splitAtNames_cons {mark : Mark} : SplitAtNames names before (mark :: marks) ↔
    mark.Fits names before (markedText marks) ∧
    SplitAtNames names (before ++ markedText [mark]) marks := by
  constructor
  · intro h
    refine ⟨by simpa [markedText] using h [] mark marks rfl, fun done other more hmarks => ?_⟩
    rw [List.append_assoc, ← markedText_cons]
    exact h (mark :: done) other more (by rw [hmarks]; rfl)
  · rintro ⟨hmark, hrest⟩ (_ | ⟨first, done⟩) other more hmarks
    · obtain ⟨rfl, rfl⟩ := List.cons.inj hmarks
      simpa [markedText] using hmark
    · obtain ⟨rfl, htail⟩ := List.cons.inj hmarks
      rw [markedText_cons, ← List.append_assoc]
      exact hrest done other more htail

/-- Every text can be split. -/
lemma exists_splitAtNames (names : List String) (before text : List Char) :
    ∃ marks, markedText marks = text ∧ SplitAtNames names before marks := by
  induction hn : text.length using Nat.strong_induction_on generalizing before text with
  | h n ih =>
    cases text with
    | nil => exact ⟨[], rfl, splitAtNames_nil⟩
    | cons c text =>
      cases hfound : (nameFinder (longestFirst names)).find before.getLast? (c :: text) with
      | none =>
        obtain ⟨marks, rfl, hmarks⟩ := ih text.length (by simp [← hn]) (before ++ [c]) text rfl
        exact ⟨.kept c :: marks, rfl, splitAtNames_cons.2 ⟨Mark.fits_iff.2 hfound, hmarks⟩⟩
      | some name =>
        obtain ⟨behind, heq, hstands⟩ := nameFinder_eq_some_iff.1 hfound
        have hpos := List.length_pos_iff.2 hstands.nonempty
        have hlength := congrArg List.length heq
        rw [List.length_append] at hlength
        obtain ⟨marks, rfl, hmarks⟩ := ih behind.length (by omega) (before ++ name) behind rfl
        refine ⟨.found name :: marks, heq.symm, splitAtNames_cons.2 ⟨hstands, ?_⟩⟩
        rwa [markedText_found]

lemma Mark.Fits.markedText_ne_nil {mark : Mark} {after : List Char}
    (h : mark.Fits names before after) :
    markedText [mark] ≠ [] := by
  cases mark with
  | kept c => simp [markedText]
  | found name => simpa [markedText] using h.nonempty

lemma Mark.eq_of_found?_eq {mark mark' : Mark} {s t : List Char}
    (htext : markedText [mark] ++ s = markedText [mark'] ++ t)
    (hfound : mark.found? = mark'.found?) :
    mark = mark' := by
  cases mark <;> cases mark' <;> simp_all [Mark.found?, markedText]

/-- A text is split in one way only: the finder tells of each place whether a name is found there.
-/
lemma SplitAtNames.unique {marks' : List Mark} (h : SplitAtNames names before marks)
    (h' : SplitAtNames names before marks') (htext : markedText marks = markedText marks') :
    marks = marks' := by
  induction marks generalizing before marks' with
  | nil =>
    cases marks' with
    | nil => rfl
    | cons mark' marks' =>
      rw [markedText_cons mark', markedText, eq_comm, List.append_eq_nil_iff] at htext
      exact absurd htext.1 (splitAtNames_cons.1 h').1.markedText_ne_nil
  | cons mark marks ih =>
    obtain ⟨hmark, hrest⟩ := splitAtNames_cons.1 h
    cases marks' with
    | nil =>
      rw [markedText_cons mark, markedText, List.append_eq_nil_iff] at htext
      exact absurd htext.1 hmark.markedText_ne_nil
    | cons mark' marks' =>
      obtain ⟨hmark', hrest'⟩ := splitAtNames_cons.1 h'
      rw [markedText_cons mark, markedText_cons mark'] at htext
      have hfound := Mark.fits_iff.1 hmark
      rw [htext, Mark.fits_iff.1 hmark'] at hfound
      obtain rfl := Mark.eq_of_found?_eq htext hfound.symm
      rw [ih hrest hrest' (List.append_cancel_left htext)]

lemma getLast?_append_of_ne_nil (s : List Char) {t : List Char} (h : t ≠ []) :
    (s ++ t).getLast? = t.getLast? := by
  rw [List.getLast?_append, List.getLast?_eq_some_getLast h, Option.some_or]

/-- What is replaced are the names at which the text is split. -/
theorem SplitAtNames.replaceNamesFrom (h : SplitAtNames names before marks)
    (replacement : List Char → List Char) :
    replaceNamesFrom (longestFirst names) replacement before.getLast? (markedText marks) =
      swappedText replacement marks := by
  induction marks generalizing before with
  | nil => rw [markedText, Query.replaceNamesFrom, swappedText]
  | cons mark marks ih =>
    obtain ⟨hmark, hrest⟩ := splitAtNames_cons.1 h
    have hfind := Mark.fits_iff.1 hmark
    have hlast := getLast?_append_of_ne_nil before hmark.markedText_ne_nil
    specialize ih hrest
    rw [hlast] at ih
    cases mark with
    | kept c =>
      rw [markedText, swappedText, ← ih, replaceNamesFrom_cons]
      simp only [nameFinder, Mark.found?, markedText_kept, List.singleton_append] at hfind
      split at hfind
      · rename_i hbefore
        rw [if_pos hbefore, Option.map_eq_none_iff.1 hfind]
        rfl
      · rename_i hbefore
        rw [if_neg hbefore]
        rfl
    | found name =>
      rw [markedText_found] at ih hfind
      rw [markedText, swappedText, ← ih]
      obtain ⟨hbefore, behind, hfirst, hs⟩ := nameFinder_find hfind
      obtain rfl := List.append_cancel_left hs
      obtain ⟨c, name, rfl⟩ := List.exists_cons_of_ne_nil hmark.nonempty
      rw [List.cons_append] at hfirst ⊢
      rw [replaceNamesFrom_cons, if_pos hbefore, hfirst]

end Splitting

/-! ### Substitution -/

/-- The text in which each name at which it is split is looked up. -/
def lookedUp (lookup : String → String) (marks : List Mark) : List Char :=
  swappedText (fun name => (lookup (String.ofList name)).toList) marks

lemma SplitAtNames.replaceNames {names : List String} {marks : List Mark}
    (h : SplitAtNames names [] marks) (lookup : String → String) :
    replaceNames names lookup (markedText marks) = lookedUp lookup marks :=
  h.replaceNamesFrom _

lemma swappedText_eq_markedText {put : List Char → List Char} {marks : List Mark}
    (h : ∀ name, .found name ∈ marks → put name = name) :
    swappedText put marks = markedText marks := by
  induction marks with
  | nil => rfl
  | cons mark marks ih =>
    specialize ih fun name hname => h name (List.mem_cons_of_mem _ hname)
    cases mark with
    | kept c => rw [swappedText, markedText, ih]
    | found name => rw [swappedText, markedText, ih, h name List.mem_cons_self]

lemma SplitAtNames.listed {names : List String} {before : List Char} {marks : List Mark}
    (h : SplitAtNames names before marks) {name : List Char} (hname : .found name ∈ marks) :
    String.ofList name ∈ names := by
  obtain ⟨done, more, rfl⟩ := List.append_of_mem hname
  have hfits : StandsLongest names _ name _ := h done (.found name) more rfl
  exact hfits.listed

section SameNames
variable {names names' : List String} (hnames : ∀ name, name ≠ "" → (name ∈ names' ↔ name ∈ names))
include hnames

lemma stands_congr {before name after : List Char} :
    Stands names' before name after ↔ Stands names before name after := by
  have hlisted (hne : name ≠ []) : String.ofList name ∈ names' ↔ String.ofList name ∈ names :=
    hnames _ (by simpa using hne)
  exact ⟨fun h => { h with listed := (hlisted h.nonempty).1 h.listed },
    fun h => { h with listed := (hlisted h.nonempty).2 h.listed }⟩

lemma SplitAtNames.congr {before : List Char} {marks : List Mark}
    (h : SplitAtNames names before marks) :
    SplitAtNames names' before marks := by
  intro done mark more hmarks
  have hfits := h done mark more hmarks
  cases mark with
  | found name =>
    exact ⟨(stands_congr hnames).2 hfits.toStands, fun other behind heq hstands =>
      hfits.longest other behind heq ((stands_congr hnames).1 hstands)⟩
  | kept c =>
    exact fun name behind heq hstands => hfits name behind heq ((stands_congr hnames).1 hstands)

end SameNames

/-- A text is split at the listed names in exactly one way, and every name at which it is split is
looked up and nothing else is changed. So lookups that give the names themselves give the text back,
and the order in which names are listed, names that are listed again and empty names make no
difference. -/
theorem replaceNames_splits (names : List String) (text : List Char) :
    ∃ marks, markedText marks = text ∧ SplitAtNames names [] marks ∧
      (∀ marks', markedText marks' = text → SplitAtNames names [] marks' → marks' = marks) ∧
      (∀ lookup, replaceNames names lookup text = lookedUp lookup marks) ∧
      (∀ lookup, (∀ name ∈ names, lookup name = name) → replaceNames names lookup text = text) ∧
      ∀ names', (∀ name, name ≠ "" → (name ∈ names' ↔ name ∈ names)) →
        ∀ lookup, replaceNames names' lookup text = replaceNames names lookup text := by
  obtain ⟨marks, rfl, hmarks⟩ := exists_splitAtNames names [] text
  refine ⟨marks, rfl, hmarks, fun marks' htext h => h.unique hmarks htext, hmarks.replaceNames,
    fun lookup hlookup => ?_, fun names' hnames lookup => ?_⟩
  · rw [hmarks.replaceNames]
    refine swappedText_eq_markedText fun name hname => ?_
    rw [hlookup _ (hmarks.listed hname), String.toList_ofList]
  · rw [hmarks.replaceNames, (hmarks.congr hnames).replaceNames]

/-- A name with a blank, one that it starts with, and a text in which both stand. -/
theorem replaceNames_splits_of_blank :
    replaceNames ["M", "M 1"] id "simbid:(\"M 1\" OR M OR M10)".toList =
        "simbid:(\"M 1\" OR M OR M10)".toList ∧
      replaceNames ["M 1", "", "M", "M 1"]
        (fun name => "@" ++ name) "simbid:(\"M 1\" OR M OR M10)".toList =
        replaceNames ["M", "M 1"]
          (fun name => "@" ++ name) "simbid:(\"M 1\" OR M OR M10)".toList := by
  obtain ⟨-, -, -, -, -, hsame, hlisted⟩ :=
    replaceNames_splits ["M", "M 1"] "simbid:(\"M 1\" OR M OR M10)".toList
  refine ⟨hsame id fun _ _ => rfl, hlisted _ (fun name hne => ?_) _⟩
  simp only [List.mem_cons, List.not_mem_nil, or_false, hne, false_or]
  tauto

example :
    replaceNames ["M", "M 1"] (fun name => "@" ++ name) "simbid:(\"M 1\" OR M OR M10)".toList =
    "simbid:(\"@M 1\" OR @M OR M10)".toList := by cbv

end SkyResolver.Query
