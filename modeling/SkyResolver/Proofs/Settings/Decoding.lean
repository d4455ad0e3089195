import SkyResolver.Settings.Document
import SkyResolver.Settings.File
import SkyResolver.Proofs.Toml.Contents

/-! Configurations as values in TOML. What is written of one is decoded as the same, except that the
default address of the mirror of SIMBAD comes in the place of an absent one; and what is decoded
from a text always has such an address, and only numbers that can be written. -/
namespace SkyResolver
open SkyResolver.Json SkyResolver.Number SkyResolver.Toml

/-- The configuration with the default address of the mirror in place of an absent one. -/
def Settings.mirrored (settings : Settings) : Settings :=
  { settings with
    simbad :=
  { settings.simbad with backupUrl := settings.simbad.backupUrl.or ({} :
    SimbadSettings).backupUrl } }

lemma Settings.mirrored_eq_self_iff {settings : Settings} :
    settings.mirrored = settings ↔ settings.simbad.backupUrl.isSome = true := by
  obtain ⟨logFile, defaultRadius, cacheTtl,
      endpointTtl, targets, ⟨url, backupUrl, maxRadius, maxNumber, timeout⟩, ned,
    index⟩ := settings
  cases backupUrl with
  | none => simp [Settings.mirrored]
  | some url => simp [Settings.mirrored]

/-- Two limits that are whole numbers, both of which a document can hold. -/
structure LimitsFit (number timeoutSecs : ℕ) : Prop where
  number : number < twoTo 63
  timeout : timeoutSecs < twoTo 63

/-- A configuration all of whose whole numbers a document can hold. -/
structure Settings.Fits (settings : Settings) : Prop where
  cacheTtl : settings.cacheTtlSecs < twoTo 63
  endpointTtl : settings.endpointTtlSecs < twoTo 63
  simbad : LimitsFit settings.simbad.maxNumber settings.simbad.timeoutSecs
  ned : LimitsFit settings.ned.maxNumber settings.ned.timeoutSecs
  index : LimitsFit settings.index.maxHits settings.index.timeoutSecs

/-! ### What is written -/

section Written
variable {n : ℕ} {names : List String} {required : ℕ} {members : List (String × Json)}

lemma fields?_object (hknown : ∀ member ∈ members, member.1 ∈ names)
    (hnodup : (members.map Prod.fst).Nodup) :
    fields? names required (.object members) = some members := by
  have hfilter : members.filter (fun member => names.contains member.1) = members :=
    List.filter_eq_self.2 fun member hmember => List.contains_iff_mem.2 (hknown member hmember)
  rw [fields?, hfilter, if_pos hnodup]

lemma asNat_ofNat (h : n < twoTo 63) : asNat (.ofNat n) = some n := by
  have hbounds : (0 ≤ (n : ℤ) && (n : ℤ) ≤ (highestNat 64 : ℕ)) = true := by
    have hhigh : twoTo 63 ≤ highestNat 64 := by decide
    rw [Bool.and_eq_true, decide_eq_true_eq, decide_eq_true_eq]
    omega
  rw [asNat, Json.ofNat, asInt, if_pos hbounds]
  rfl

lemma asTexts_ofTexts (texts : List String) : asTexts (.ofTexts texts) = some texts := by
  have := mapM_map_eq_some (f := asText) (e := Json.string) (g := id) (l := texts) fun _ _ => rfl
  rwa [List.map_id] at this

lemma withDefault_eq {α : Type} {fields : Fields} {name : String} {value : Json} {default a : α}
    {decoder : Decoder α} (hlookup : fields.lookup name = some value)
    (hvalue : decoder value = some a) :
    fields.withDefault name default decoder = some a := by
  rw [Fields.withDefault, hlookup]
  exact hvalue

lemma SimbadSettings.ofJson?_members {c : SimbadSettings}
    (h : LimitsFit c.maxNumber c.timeoutSecs) :
    SimbadSettings.ofJson? (.object (membersToJson c.members)) =
      some { c with backupUrl := c.backupUrl.or ({} : SimbadSettings).backupUrl } := by
  obtain ⟨url, backupUrl, maxRadius, maxNumber, timeout⟩ := c
  cases backupUrl
  all_goals
    rw [SimbadSettings.ofJson?, fields?_object (by simp [membersToJson, members, optionalText])
      (by simp [membersToJson, members, optionalText])]
    simp only [Option.bind_eq_bind, Option.bind_some]
    rw [withDefault_eq (a := url) rfl rfl, withDefault_eq (a := maxRadius) rfl rfl,
      withDefault_eq rfl (asNat_ofNat h.number), withDefault_eq rfl (asNat_ofNat h.timeout)]
    rfl

lemma NedSettings.ofJson?_members {c : NedSettings} (h : LimitsFit c.maxNumber c.timeoutSecs) :
    NedSettings.ofJson? (.object (membersToJson c.members)) = some c := by
  rw [NedSettings.ofJson?, fields?_object (by simp [membersToJson, members])
    (by simp [membersToJson, members])]
  simp only [Option.bind_eq_bind, Option.bind_some]
  rw [withDefault_eq (a := c.url) rfl rfl, withDefault_eq (a := c.objsearchUrl) rfl rfl,
    withDefault_eq (a := c.maxRadius) rfl rfl, withDefault_eq rfl (asNat_ofNat h.number),
    withDefault_eq rfl (asNat_ofNat h.timeout)]
  rfl

lemma IndexSettings.ofJson?_members {c : IndexSettings} (h : LimitsFit c.maxHits c.timeoutSecs) :
    IndexSettings.ofJson? (.object (membersToJson c.members)) = some c := by
  obtain ⟨queryUrl, token, verify, maxHits, timeout⟩ := c
  cases token
  all_goals
    rw [IndexSettings.ofJson?, fields?_object (by simp [membersToJson, members, optionalText])
      (by simp [membersToJson, members, optionalText])]
    simp only [Option.bind_eq_bind, Option.bind_some]
    rw [withDefault_eq (a := queryUrl) rfl rfl, withDefault_eq (a := verify) rfl rfl,
      withDefault_eq rfl (asNat_ofNat h.number), withDefault_eq rfl (asNat_ofNat h.timeout)]
    rfl

lemma fits_optionalText (key : String) (text : Option String) :
    (optionalText key text).all (·.2.fits) = true := by
  cases text <;> rfl

lemma Settings.fits_iff {settings : Settings} : settings.document.fits = true ↔ settings.Fits := by
  simp only [Document.fits, Settings.document, SimbadSettings.members, NedSettings.members,
    IndexSettings.members, List.all_append, List.all_cons, List.all_nil, fits_optionalText,
    Bool.and_true, Bool.true_and]
  simp only [Value.fits, Bool.true_and, Bool.and_true, Bool.and_eq_true, decide_eq_true_eq]
  constructor
  · rintro ⟨⟨hcache, hendpoint⟩, ⟨hsimbad, hsimbad'⟩, ⟨hned, hned'⟩, hindex, hindex'⟩
    exact ⟨hcache, hendpoint, ⟨hsimbad, hsimbad'⟩, ⟨hned, hned'⟩, ⟨hindex, hindex'⟩⟩
  · intro h
    exact ⟨⟨h.cacheTtl, h.endpointTtl⟩, ⟨h.simbad.number, h.simbad.timeout⟩,
      ⟨h.ned.number, h.ned.timeout⟩, h.index.number, h.index.timeout⟩

lemma Settings.ofJson?_document {settings : Settings} (h : settings.Fits) :
    Settings.ofJson? settings.document.toJson = some settings.mirrored := by
  obtain ⟨logFile, defaultRadius, cacheTtl, endpointTtl, targets, simbad, ned, index⟩ := settings
  have hsimbad := SimbadSettings.ofJson?_members h.simbad
  have hned := NedSettings.ofJson?_members h.ned
  have hindex := IndexSettings.ofJson?_members h.index
  cases logFile
  all_goals
    rw [Settings.ofJson?, Document.toJson,
      fields?_object (by simp [membersToJson, document,
        optionalText]) (by simp [membersToJson, document, optionalText])]
    simp only [Option.bind_eq_bind, Option.bind_some]
    rw [withDefault_eq (a := defaultRadius) rfl rfl, withDefault_eq rfl (asNat_ofNat h.cacheTtl),
      withDefault_eq rfl (asNat_ofNat h.endpointTtl), withDefault_eq rfl (asTexts_ofTexts targets),
      withDefault_eq rfl hsimbad, withDefault_eq rfl hned, withDefault_eq rfl hindex]
    rfl

end Written

/-! ### What is read -/

section Read
variable {α : Type} {n default required : ℕ} {names : List String} {name : String} {value : Json}
  {fields : Fields}

lemma holdsToml_fields? (hvalue : IsToml value) (h : fields? names required value = some fields) :
    HoldsToml fields := by
  cases hvalue with
  | object hmembers =>
    obtain ⟨-, h⟩ := Option.ite_none_right_eq_some.1 h
    obtain rfl := Option.some.inj h
    exact fun member hmember => hmembers member (List.mem_of_mem_filter hmember)
  | array hitems =>
    obtain ⟨-, h⟩ := Option.ite_none_right_eq_some.1 h
    obtain rfl := Option.some.inj h
    exact fun member hmember => hitems _ (List.of_mem_zip hmember).2
  | bool | int | float | string => cases h

/-- A field is missing and takes its default, or it stands in the record. -/
lemma withDefault_cases {base a : α} {decoder : Decoder α}
    (h : fields.withDefault name base decoder = some a) :
    a = base ∨ ∃ value, (name, value) ∈ fields ∧ decoder value = some a := by
  unfold Fields.withDefault at h
  split at h
  · exact .inl (Option.some.inj h).symm
  · rename_i value hlookup
    exact .inr ⟨value, mem_of_lookup hlookup, h⟩

lemma lt_of_asNat (hvalue : IsToml value) (h : asNat value = some n) : n < twoTo 63 := by
  obtain ⟨m, hm, rfl⟩ := Option.map_eq_some_iff.1 h
  cases hvalue with
  | int hhigh =>
    obtain ⟨-, hm⟩ := Option.ite_none_right_eq_some.1 hm
    obtain rfl := Option.some.inj hm
    have hhighest : highestInt 64 + 1 = (twoTo 63 : ℕ) := rfl
    have hpos := twoTo_pos 63
    omega
  | bool | float | string | array | object => cases hm

lemma lt_of_withDefault (hfields : HoldsToml fields) (hdefault : default < twoTo 63)
    (h : fields.withDefault name default asNat = some n) : n < twoTo 63 := by
  obtain rfl | ⟨value, hmem, hvalue⟩ := withDefault_cases h
  · exact hdefault
  · exact lt_of_asNat (hfields _ hmem) hvalue

/-- A text that may be null is there where TOML can say what it is. -/
lemma isSome_of_asNullableText {text : Option String} (hvalue : IsToml value)
    (h : asNullableText value = some text) :
    text.isSome = true := by
  cases hvalue with
  | string s =>
    obtain rfl := Option.some.inj h
    rfl
  | bool | int | float | array | object => cases h

lemma SimbadSettings.read_of_isToml {c : SimbadSettings} (hvalue : IsToml value)
    (h : SimbadSettings.ofJson? value = some c) :
    c.backupUrl.isSome = true ∧ LimitsFit c.maxNumber c.timeoutSecs := by
  obtain ⟨fields, hfields, h⟩ := Option.bind_eq_some_iff.1 h
  obtain ⟨url, -, h⟩ := Option.bind_eq_some_iff.1 h
  obtain ⟨backupUrl, hbackup, h⟩ := Option.bind_eq_some_iff.1 h
  obtain ⟨maxRadius, -, h⟩ := Option.bind_eq_some_iff.1 h
  obtain ⟨maxNumber, hnumber, h⟩ := Option.bind_eq_some_iff.1 h
  obtain ⟨timeout, htimeout, h⟩ := Option.bind_eq_some_iff.1 h
  obtain rfl := Option.some.inj h
  have hholds := holdsToml_fields? hvalue hfields
  refine ⟨?_, lt_of_withDefault hholds (by decide) hnumber,
    lt_of_withDefault hholds (by decide) htimeout⟩
  obtain rfl | ⟨value, hmem, hvalue⟩ := withDefault_cases hbackup
  · rfl
  · exact isSome_of_asNullableText (hholds _ hmem) hvalue

lemma NedSettings.read_of_isToml {c : NedSettings} (hvalue : IsToml value)
    (h : NedSettings.ofJson? value = some c) :
    LimitsFit c.maxNumber c.timeoutSecs := by
  obtain ⟨fields, hfields, h⟩ := Option.bind_eq_some_iff.1 h
  obtain ⟨url, -, h⟩ := Option.bind_eq_some_iff.1 h
  obtain ⟨objsearchUrl, -, h⟩ := Option.bind_eq_some_iff.1 h
  obtain ⟨maxRadius, -, h⟩ := Option.bind_eq_some_iff.1 h
  obtain ⟨maxNumber, hnumber, h⟩ := Option.bind_eq_some_iff.1 h
  obtain ⟨timeout, htimeout, h⟩ := Option.bind_eq_some_iff.1 h
  obtain rfl := Option.some.inj h
  have hholds := holdsToml_fields? hvalue hfields
  exact ⟨lt_of_withDefault hholds (by decide) hnumber,
    lt_of_withDefault hholds (by decide) htimeout⟩

lemma IndexSettings.read_of_isToml {c : IndexSettings} (hvalue : IsToml value)
    (h : IndexSettings.ofJson? value = some c) : LimitsFit c.maxHits c.timeoutSecs := by
  obtain ⟨fields, hfields, h⟩ := Option.bind_eq_some_iff.1 h
  obtain ⟨queryUrl, -, h⟩ := Option.bind_eq_some_iff.1 h
  obtain ⟨token, -, h⟩ := Option.bind_eq_some_iff.1 h
  obtain ⟨verify, -, h⟩ := Option.bind_eq_some_iff.1 h
  obtain ⟨maxHits, hhits, h⟩ := Option.bind_eq_some_iff.1 h
  obtain ⟨timeout, htimeout, h⟩ := Option.bind_eq_some_iff.1 h
  obtain rfl := Option.some.inj h
  have hholds := holdsToml_fields? hvalue hfields
  exact ⟨lt_of_withDefault hholds (by decide) hhits, lt_of_withDefault hholds (by decide) htimeout⟩

/-- A section is missing, or it has been read from what TOML has. -/
lemma section_of_isToml {base a : α} {decoder : Decoder α} (P : α → Prop)
    (hfields : HoldsToml fields) (hbase : P base)
    (hdecoder : ∀ {value a}, IsToml value → decoder value = some a → P a)
    (h : fields.withDefault name base decoder = some a) : P a := by
  obtain rfl | ⟨value, hmem, hvalue⟩ := withDefault_cases h
  · exact hbase
  · exact hdecoder (hfields _ hmem) hvalue

lemma Settings.read_of_isToml {settings : Settings} (hvalue : IsToml value)
    (h : Settings.ofJson? value = some settings) :
    settings.Fits ∧ settings.simbad.backupUrl.isSome = true := by
  obtain ⟨fields, hfields, h⟩ := Option.bind_eq_some_iff.1 h
  obtain ⟨logFile, -, h⟩ := Option.bind_eq_some_iff.1 h
  obtain ⟨defaultRadius, -, h⟩ := Option.bind_eq_some_iff.1 h
  obtain ⟨cacheTtl, hcache, h⟩ := Option.bind_eq_some_iff.1 h
  obtain ⟨endpointTtl, hendpoint, h⟩ := Option.bind_eq_some_iff.1 h
  obtain ⟨targets, -, h⟩ := Option.bind_eq_some_iff.1 h
  obtain ⟨simbad, hsimbad, h⟩ := Option.bind_eq_some_iff.1 h
  obtain ⟨ned, hned, h⟩ := Option.bind_eq_some_iff.1 h
  obtain ⟨index, hindex, h⟩ := Option.bind_eq_some_iff.1 h
  obtain rfl := Option.some.inj h
  have hholds := holdsToml_fields? hvalue hfields
  have hsimbad : simbad.backupUrl.isSome = true ∧ LimitsFit simbad.maxNumber simbad.timeoutSecs :=
    section_of_isToml (fun c => c.backupUrl.isSome = true ∧
      LimitsFit c.maxNumber c.timeoutSecs) hholds
      ⟨rfl, by decide, by decide⟩ SimbadSettings.read_of_isToml hsimbad
  have hned : LimitsFit ned.maxNumber ned.timeoutSecs :=
    section_of_isToml (fun c => LimitsFit c.maxNumber c.timeoutSecs) hholds ⟨by decide, by decide⟩
      NedSettings.read_of_isToml hned
  have hindex : LimitsFit index.maxHits index.timeoutSecs :=
    section_of_isToml (fun c => LimitsFit c.maxHits c.timeoutSecs) hholds ⟨by decide, by decide⟩
      IndexSettings.read_of_isToml hindex
  exact ⟨⟨lt_of_withDefault hholds (by decide) hcache,
    lt_of_withDefault hholds (by decide) hendpoint, hsimbad.2, hned, hindex⟩, hsimbad.1⟩

end Read

end SkyResolver
