import Mathlib.Data.List.Forall2
import Mathlib.Data.List.TakeWhile
import SkyResolver.Proofs.Simbad.Aliases
import SkyResolver.Proofs.Text.Words

/-! Letter case in names. Names are compared in upper case, but the marker in front of a name is
taken away before that, and it is a marker in capitals only. So names that agree but for letter case
are given the same records as long as both of them have a marker, or neither. -/
namespace SkyResolver.Simbad
open SkyResolver.Text

/-! ### Texts that agree but for letter case -/

section Texts
variable {s t : List Char} {c : Char} {p : Char → Bool}

lemma toLower_of_not_ascii (h : ¬c.toNat < 128) : c.toLower = c := by
  refine dif_neg ?_
  rintro ⟨-, hle⟩
  have : c.toNat ≤ 90 := hle
  omega

/-- Only letters in ASCII have another lower case, so what lower case does not change is found by
evaluation. -/
lemma apply_toLower {α : Type} {f : Char → α}
    (h : ∀ n < 128, f (Char.ofNat n).toLower = f (Char.ofNat n)) (c : Char) :
    f c.toLower = f c := by
  by_cases hc : c.toNat < 128
  · simpa only [Char.ofNat_toNat] using h c.toNat hc
  · rw [toLower_of_not_ascii hc]

lemma isBlank_toLower (c : Char) : isBlank c.toLower = isBlank c :=
  apply_toLower (by decide +kernel) c

lemma upperChar_toLower (c : Char) : upperChar c.toLower = upperChar c :=
  apply_toLower (by decide +kernel) c

/-- The texts agree up to the case of the letters `a` to `z`. -/
def SameButCase (s t : List Char) : Prop := equalIgnoringCase s t = true

lemma sameButCase_iff : SameButCase s t ↔ s.map Char.toLower = t.map Char.toLower := beq_iff_eq

instance (s t : List Char) : Decidable (SameButCase s t) :=
  inferInstanceAs (Decidable (equalIgnoringCase s t = true))

lemma SameButCase.symm (h : SameButCase s t) : SameButCase t s :=
  sameButCase_iff.2 (sameButCase_iff.1 h).symm

lemma SameButCase.dropWhile (hp : ∀ c, p c.toLower = p c) (h : SameButCase s t) :
    SameButCase (s.dropWhile p) (t.dropWhile p) := by
  have hcomp : p ∘ Char.toLower = p := funext hp
  have hdrop := congrArg (List.dropWhile p) (sameButCase_iff.1 h)
  rw [List.dropWhile_map, List.dropWhile_map, hcomp] at hdrop
  exact sameButCase_iff.2 hdrop

lemma SameButCase.takeWhile (hp : ∀ c, p c.toLower = p c) (h : SameButCase s t) :
    SameButCase (s.takeWhile p) (t.takeWhile p) := by
  have hcomp : p ∘ Char.toLower = p := funext hp
  have htake := congrArg (List.takeWhile p) (sameButCase_iff.1 h)
  rw [List.takeWhile_map, List.takeWhile_map, hcomp] at htake
  exact sameButCase_iff.2 htake

lemma SameButCase.reverse (h : SameButCase s t) : SameButCase s.reverse t.reverse := by
  rw [sameButCase_iff, List.map_reverse, List.map_reverse, sameButCase_iff.1 h]

lemma SameButCase.trim (h : SameButCase s t) : SameButCase (trim s) (trim t) :=
  ((h.dropWhile isBlank_toLower).reverse.dropWhile isBlank_toLower).reverse

lemma upper_map_toLower (s : List Char) : upper (s.map Char.toLower) = upper s := by
  simp only [upper, List.flatMap_map, upperChar_toLower]

lemma SameButCase.upper_eq (h : SameButCase s t) : upper s = upper t := by
  rw [← upper_map_toLower s, sameButCase_iff.1 h, upper_map_toLower]

end Texts

/-! ### Markers -/

section Markers
variable {s rest : List Char} {name name' : String}

/-- The characters that are not blank. -/
def isVisible (c : Char) : Bool := !isBlank c

lemma isVisible_toLower (c : Char) : isVisible c.toLower = isVisible c := by
  rw [isVisible, isBlank_toLower, isVisible]

/-- The name has a marker in front of it. -/
def HasMarker (name : String) : Prop := (afterMarker? name.toList).isSome

instance (name : String) : Decidable (HasMarker name) :=
  inferInstanceAs (Decidable ((afterMarker? name.toList).isSome = true))

lemma isVisible_of_mem_markers : ∀ marker ∈ markers, ∀ c ∈ marker, isVisible c = true := by
  have hall : (markers.all fun marker => marker.all isVisible) = true := by decide
  simpa only [List.all_eq_true] using hall

/-- A marker is the first word of a name. -/
lemma eq_of_afterMarker? (h : afterMarker? s = some rest) :
    s.takeWhile isVisible ∈ markers ∧ rest = trimStart (s.dropWhile isVisible) := by
  obtain ⟨marker, hmarker, hrest⟩ := List.exists_of_findSome?_eq_some h
  split at hrest
  · rename_i c behind hbehind
    split_ifs at hrest with hc
    cases hrest
    have hvisible := isVisible_of_mem_markers marker hmarker
    have hblank : isVisible c = false := by simp [isVisible, hc]
    rw [afterPrefix?_eq_some_iff.1 hbehind, List.takeWhile_append_of_pos hvisible,
      List.dropWhile_append_of_pos hvisible, List.takeWhile_cons, List.dropWhile_cons, hblank]
    simp [hmarker, trimStart, hc]
  · cases hrest

lemma cleanName_of_isSome (h : (afterMarker? s).isSome) :
    s.takeWhile isVisible ∈ markers ∧ cleanName s = trim (s.dropWhile isVisible) := by
  obtain ⟨rest, hrest⟩ := Option.isSome_iff_exists.1 h
  obtain ⟨hmarker, rfl⟩ := eq_of_afterMarker? hrest
  refine ⟨hmarker, ?_⟩
  rw [cleanName, hrest, Option.getD_some, trim, trim, trimStart, trimStart,
    List.dropWhile_idempotent]

lemma cleanName_of_not_isSome (h : ¬(afterMarker? s).isSome) : cleanName s = trim s := by
  rw [cleanName, Option.not_isSome_iff_eq_none.1 h, Option.getD_none]

/-- Names that agree but for letter case have the same key if both have a marker, or neither. -/
lemma key_eq_of_sameButCase (h : SameButCase name.toList name'.toList)
    (hmarker : HasMarker name ↔ HasMarker name') :
    key name = key name' := by
  by_cases hname : HasMarker name
  · rw [key, key, (cleanName_of_isSome hname).2, (cleanName_of_isSome (hmarker.1 hname)).2]
    exact (h.dropWhile isVisible_toLower).trim.upper_eq
  · rw [key, key, cleanName_of_not_isSome hname, cleanName_of_not_isSome (mt hmarker.2 hname)]
    exact h.trim.upper_eq

lemma tight_append (s t : List Char) : tight (s ++ t) = tight s ++ tight t := List.filter_append s t

lemma tight_upper_marker_ne_nil : ∀ marker ∈ markers, tight (upper marker) ≠ [] := by
  decide +kernel

/-- Letter case that makes a marker a part of the name makes it another name. -/
lemma tight_key_ne (h : SameButCase name.toList name'.toList) (hname : HasMarker name)
    (hname' : ¬HasMarker name') :
    tight (key name) ≠ tight (key name') := by
  obtain ⟨hmarker, hclean⟩ := cleanName_of_isSome hname
  have hfirst := h.takeWhile isVisible_toLower
  have hword : IsWord (name'.toList.takeWhile isVisible) := by
    refine ⟨fun hnil => ?_, fun c hc => by simpa [isVisible] using List.mem_takeWhile_imp hc⟩
    rw [hnil, sameButCase_iff, List.map_nil, List.map_eq_nil_iff] at hfirst
    rw [hfirst] at hmarker
    exact absurd hmarker (by decide +kernel)
  obtain ⟨blanks, hblanks⟩ := trim_isSuffix_trimEnd (name'.toList.dropWhile isVisible)
  have hkey : key name = upper (trim (name'.toList.dropWhile isVisible)) := by
    rw [key, hclean, (h.dropWhile isVisible_toLower).trim.upper_eq]
  have hkey' :
      key name' = upper (name'.toList.takeWhile isVisible) ++ (upper blanks ++ key name) := by
    rw [key, cleanName_of_not_isSome hname', hkey, ← upper_append, ← upper_append, hblanks,
      ← trim_append_of_isWord hword, List.takeWhile_append_dropWhile]
  intro heq
  have hlength := congrArg List.length heq
  rw [hkey', tight_append, tight_append, List.length_append, List.length_append] at hlength
  have hmarker := tight_upper_marker_ne_nil _ hmarker
  rw [hfirst.upper_eq] at hmarker
  have := List.length_pos_iff.2 hmarker
  omega

end Markers

/-! ### Lists of names -/

variable {names names' : List String} {name name' : String} {record : SkyObject}

/-- An answer with an object of one name. -/
def namePayload (name : String) : Json :=
  .object [("data", .array [.array [.number (.int 1), .string name, .string name]])]

lemma nameRows_namePayload (name : String) :
    nameRows (namePayload name) = .ok [⟨⟨"1", cleanText name⟩, key name⟩] := by rfl

lemma find?_ne_of_tight_key_ne (h : tight (key name) ≠ tight (key name')) :
    (Aliases.ofRows [⟨record, key name⟩]).find? name ≠
      (Aliases.ofRows [⟨record, key name⟩]).find? name' := by
  have hunknown : givenRow? name' [⟨record, key name⟩] = none :=
    givenRow?_eq_none_iff.2 (by simpa using h)
  have hknown : givenRow? name [⟨record, key name⟩] ≠ none := by
    rw [Ne, givenRow?_eq_none_iff]
    simp
  rw [Aliases.find?_ofRows, Aliases.find?_ofRows, hunknown, Option.map_none]
  simpa using hknown

/-- If one of two names has a marker and the other, which agrees with it but for letter case, has
none, then there are answers in which only one of them is found. -/
lemma exists_find?_ne (h : SameButCase name.toList name'.toList) (hname : HasMarker name)
    (hname' : ¬HasMarker name') :
    ∃ payload rows, nameRows payload = .ok rows ∧
      (Aliases.ofRows rows).find? name ≠ (Aliases.ofRows rows).find? name' :=
  ⟨_, _, nameRows_namePayload name, find?_ne_of_tight_key_ne (tight_key_ne h hname hname')⟩

lemma find?_eq_of_key_eq {aliases : Aliases} (h : key name = key name') :
    aliases.find? name = aliases.find? name' := by
  rw [Aliases.find?, Aliases.find?, h]

/-- Names that agree but for letter case mean the same in all answers exactly if both have a marker,
or neither. -/
lemma hasMarker_iff_of_sameButCase (h : SameButCase name.toList name'.toList) :
    (∀ payload rows, nameRows payload = .ok rows →
      (Aliases.ofRows rows).find? name = (Aliases.ofRows rows).find? name') ↔
      (HasMarker name ↔ HasMarker name') := by
  refine ⟨fun hfind => ⟨fun hname => ?_, fun hname' => ?_⟩, fun hmarker payload rows _ => ?_⟩
  · by_contra hname'
    obtain ⟨payload, rows, hrows, hne⟩ := exists_find?_ne h hname hname'
    exact hne (hfind payload rows hrows)
  · by_contra hname
    obtain ⟨payload, rows, hrows, hne⟩ := exists_find?_ne h.symm hname' hname
    exact hne (hfind payload rows hrows).symm
  · exact find?_eq_of_key_eq (key_eq_of_sameButCase h hmarker)

/-- Two lists of several names that agree but for letter case are given the same records, place by
place and in every answer, exactly if at each place both names have a marker in front of them, or
neither. -/
theorem Aliases.pick_sameButCase_iff (hnames : 2 ≤ names.length)
    (h : List.Forall₂ (fun name name' => SameButCase name.toList name'.toList) names names') :
    (∀ payload rows, nameRows payload = .ok rows → List.Forall₂ (fun name name' =>
      ((Aliases.ofRows rows).pick names).get? name = ((Aliases.ofRows rows).pick names').get? name')
        names names') ↔
    List.Forall₂ (fun name name' => HasMarker name ↔ HasMarker name') names names' := by
  obtain ⟨hlength, hcase⟩ := List.forall₂_iff_zip.1 h
  have hget : ∀ rows {name name'}, (name, name') ∈ names.zip names' →
      (((Aliases.ofRows rows).pick names).get? name =
        ((Aliases.ofRows rows).pick names').get? name' ↔
        (Aliases.ofRows rows).find? name = (Aliases.ofRows rows).find? name') := by
    intro rows name name' hmem
    obtain ⟨hname, hname'⟩ := List.of_mem_zip hmem
    rw [Aliases.get?_pick _ hnames hname, Aliases.get?_pick _ (hlength ▸ hnames) hname']
  constructor
  · intro hsame
    refine List.forall₂_iff_zip.2 ⟨hlength, fun hmem => ?_⟩
    refine (hasMarker_iff_of_sameButCase (hcase hmem)).1 fun payload rows hrows => ?_
    exact (hget rows hmem).1 ((List.forall₂_iff_zip.1 (hsame payload rows hrows)).2 hmem)
  · intro hmarker payload rows hrows
    refine List.forall₂_iff_zip.2 ⟨hlength, fun hmem => (hget rows hmem).2 ?_⟩
    exact (hasMarker_iff_of_sameButCase (hcase hmem)).2 ((List.forall₂_iff_zip.1 hmarker).2 hmem)
      payload rows hrows

theorem Aliases.pick_sameButCase_iff_of_cloud :
    2 ≤ ["NAME lmc", "andromeda"].length ∧
    List.Forall₂ (fun name name' => SameButCase name.toList name'.toList)
      ["NAME lmc", "andromeda"] ["NAME LMC", "Andromeda"] ∧
    ∀ payload rows, nameRows payload = .ok rows → List.Forall₂ (fun name name' =>
      ((Aliases.ofRows rows).pick ["NAME lmc", "andromeda"]).get? name =
        ((Aliases.ofRows rows).pick ["NAME LMC", "Andromeda"]).get? name')
      ["NAME lmc", "andromeda"] ["NAME LMC", "Andromeda"] := by
  have hnames : 2 ≤ ["NAME lmc", "andromeda"].length := by decide
  have hcase : List.Forall₂ (fun name name' => SameButCase name.toList name'.toList)
      ["NAME lmc", "andromeda"] ["NAME LMC", "Andromeda"] :=
    .cons (by decide +kernel) (.cons (by decide +kernel) .nil)
  refine ⟨hnames, hcase, (Aliases.pick_sameButCase_iff hnames hcase).2 ?_⟩
  exact .cons (by decide +kernel) (.cons (by decide +kernel) .nil)

/-- A marker in small letters is a part of the name, and the object is not found. -/
theorem Aliases.pick_of_small_marker :
    2 ≤ ["NAME LMC", "NAME LMC"].length ∧
    List.Forall₂ (fun name name' => SameButCase name.toList name'.toList)
      ["NAME LMC", "NAME LMC"] ["NAME LMC", "name LMC"] ∧
    ∃ rows, nameRows (namePayload "NAME LMC") = .ok rows ∧
      ((Aliases.ofRows rows).pick ["NAME LMC", "NAME LMC"]).get? "NAME LMC" = some ⟨"1", "LMC"⟩ ∧
      ((Aliases.ofRows rows).pick ["NAME LMC", "name LMC"]).get? "name LMC" = none := by
  have hcase : List.Forall₂ (fun name name' => SameButCase name.toList name'.toList)
      ["NAME LMC", "NAME LMC"] ["NAME LMC", "name LMC"] :=
    .cons (by decide +kernel) (.cons (by decide +kernel) .nil)
  exact ⟨by decide, hcase, _, nameRows_namePayload _, by decide +kernel, by decide +kernel⟩

end SkyResolver.Simbad
