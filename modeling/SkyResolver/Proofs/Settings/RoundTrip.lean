import SkyResolver.Program
import SkyResolver.Proofs.Settings.Decoding
import SkyResolver.Proofs.Settings.Usability
import SkyResolver.Proofs.Toml.Documents

/-! The configuration that the program prints. It is read back as itself, with one exception that no
file can bring about: where the address of the mirror of SIMBAD is absent, its default comes back.
-/
namespace SkyResolver
open SkyResolver.Json SkyResolver.Number SkyResolver.Toml SkyResolver.CommandLine

/-! ### The printed text -/

section Printed
variable {settings : Settings}

lemma readableMembers_append {members members' : List (String × Value)}
    (h : ReadableMembers members) (h' : ReadableMembers members') :
    ReadableMembers (members ++ members') := List.forall_mem_append.2 ⟨h, h'⟩

/-- The names of all values and sections. -/
def settingNames : List String :=
  ["log_file", "default_radius", "cache_ttl_secs", "endpoint_ttl_secs", "targets", "simbad", "ned",
    "index", "url", "backup_url", "objsearch_url", "max_radius", "max_number", "timeout_secs",
    "query_url", "token", "verify", "max_hits"]

lemma isBareWord_of_mem {name : String} (h : name ∈ settingNames) : IsBareWord name := by
  have hall : ∀ name ∈ settingNames, IsBareWord name := by
    simp [settingNames, IsBareWord, isWordChar]
  exact hall name h

lemma readableMembers_of_values {members : List (String × Value)}
    (hnames : (members.map Prod.fst).all settingNames.contains = true)
    (hvalues : ∀ value ∈ members.map Prod.snd, value.Readable) : ReadableMembers members :=
  fun _ hmember =>
  ⟨isBareWord_of_mem (List.contains_iff_mem.1
    (List.all_eq_true.1 hnames _ (List.mem_map_of_mem hmember))),
    hvalues _ (List.mem_map_of_mem hmember)⟩

lemma readable_optionalText {key : String} (hkey : key ∈ settingNames) (text : Option String) :
    ReadableMembers (optionalText key text) := by
  cases text with
  | none => exact List.forall_mem_nil _
  | some s => exact List.forall_mem_singleton.2 ⟨isBareWord_of_mem hkey, trivial⟩

/-- What passes the check has positive radii, so that all of its values can be read back. -/
lemma Settings.readable_document (hcheck : settings.check = .ok ()) (hfits : settings.Fits) :
    settings.document.Readable := by
  obtain ⟨hradius, -, -, hsimbad, hned, -, -⟩ := Settings.check_eq_ok_iff.1 hcheck
  have hsimbadMembers : ReadableMembers settings.simbad.members := by
    refine readableMembers_append
      (readableMembers_append ?_ (readable_optionalText (by decide) _)) ?_
    · exact readableMembers_of_values rfl (by simp [Value.Readable])
    · exact readableMembers_of_values rfl
        (by simpa [Value.Readable] using ⟨hsimbad.radius, hfits.simbad.number,
          hfits.simbad.timeout⟩)
  have hnedMembers : ReadableMembers settings.ned.members := readableMembers_of_values rfl
    (by simpa [NedSettings.members, Value.Readable] using ⟨hned.radius, hfits.ned.number,
      hfits.ned.timeout⟩)
  have hindexMembers : ReadableMembers settings.index.members := by
    refine readableMembers_append
      (readableMembers_append ?_ (readable_optionalText (by decide) _)) ?_
    · exact readableMembers_of_values rfl (by simp [Value.Readable])
    · exact readableMembers_of_values rfl
        (by simpa [Value.Readable] using ⟨hfits.index.number, hfits.index.timeout⟩)
  have htop : ReadableMembers settings.document.top := by
    refine readableMembers_append (readable_optionalText (by decide) _)
      (readableMembers_of_values rfl ?_)
    simpa [Value.Readable] using ⟨hradius, hfits.cacheTtl, hfits.endpointTtl⟩
  refine ⟨htop, ?_, ?_, by simp [Settings.document]⟩
  · simp only [Settings.document, List.forall_mem_cons]
    exact ⟨isBareWord_of_mem (by decide), isBareWord_of_mem (by decide),
      isBareWord_of_mem (by decide), List.forall_mem_nil _⟩
  · simp only [Settings.document, List.forall_mem_cons]
    exact ⟨hsimbadMembers, hnedMembers, hindexMembers, List.forall_mem_nil _⟩

lemma fromUTF8?_toUTF8 (text : String) : String.fromUTF8? text.toUTF8 = some text :=
  dif_pos text.isValidUTF8

lemma Settings.text?_eq (hfits : settings.Fits) : settings.text? = some settings.document.write :=
  if_pos (Settings.fits_iff.2 hfits)

/-- The text of a configuration is read as the mirrored one, also with one more line end behind it.
-/
lemma Settings.ofToml?_write (hcheck : settings.check = .ok ()) (hfits : settings.Fits)
    {last : String} (hlast : last = "" ∨ last = "\n") :
    Settings.ofToml? (settings.document.write ++ last) = some settings.mirrored := by
  rw [Settings.ofToml?, parse?_write (Settings.readable_document hcheck hfits) hlast,
    Option.bind_some]
  exact Settings.ofJson?_document hfits

/-- So is the file that holds the text and one more line end. -/
lemma Settings.ofFile_write (hcheck : settings.check = .ok ()) (hfits : settings.Fits) :
    Settings.ofFile (some (settings.document.write ++ "\n").toUTF8) = .ok settings.mirrored := by
  simp only [Settings.ofFile, fromUTF8?_toUTF8]
  rw [Settings.ofToml?_write hcheck hfits (.inr rfl)]

/-- A configuration that has been read fits into a document, and has the address of a mirror: TOML
cannot say that there is none. -/
lemma Settings.read_of_ofFile {bytes : Option ByteArray}
    (h : Settings.ofFile bytes = .ok settings) :
    settings.Fits ∧ settings.mirrored = settings := by
  unfold Settings.ofFile at h
  split at h
  · cases h
  · split at h
    · cases h
    · split at h
      · rename_i hread
        obtain rfl := Except.ok.inj h
        obtain ⟨value, hvalue, hread⟩ := Option.bind_eq_some_iff.1 hread
        obtain ⟨hfits, hmirror⟩ := Settings.read_of_isToml (isToml_of_parse? hvalue) hread
        exact ⟨hfits, Settings.mirrored_eq_self_iff.2 hmirror⟩
      · cases h

/-- What the program prints of a configuration that it has read, it reads as the same configuration.
-/
theorem Settings.reread {bytes : Option ByteArray} {ν : Type} {around : Surroundings ν}
    {arguments : Arguments} (hread : Settings.ofFile bytes = .ok settings)
    (hcheck : settings.check = .ok ()) (harguments : arguments.check = true) :
    Settings.ofFile (some (perform settings around arguments).output.toUTF8) = .ok settings := by
  obtain ⟨hfits, hmirrored⟩ := Settings.read_of_ofFile hread
  rw [perform, if_pos harguments, Settings.text?_eq hfits]
  exact (Settings.ofFile_write hcheck hfits).trans (congrArg Except.ok hmirrored)

/-- A configuration that passes the check and fits into a document is printed, and the text is read
as the same configuration if the address of the mirror is there, as it is after any reading, and
else with the default one. -/
theorem Settings.ofFile_printed (hcheck : settings.check = .ok ()) (hfits : settings.Fits) :
    ∃ text, settings.text? = some text ∧ Settings.ofToml? text = some settings.mirrored ∧
      (∀ {ν : Type} (around : Surroundings ν) (arguments : Arguments), arguments.check = true →
        perform settings around arguments = ⟨text ++ "\n", none⟩) ∧
      Settings.ofFile (some (text ++ "\n").toUTF8) = .ok settings.mirrored ∧
      (settings.mirrored = settings ↔ settings.simbad.backupUrl.isSome = true) ∧
      ∀ bytes, Settings.ofFile bytes = .ok settings → settings.mirrored = settings := by
  refine ⟨settings.document.write, Settings.text?_eq hfits, ?_,
    fun around arguments harguments => ?_, ?_, Settings.mirrored_eq_self_iff,
    fun bytes hread => (Settings.read_of_ofFile hread).2⟩
  · rw [← String.append_empty (s := settings.document.write)]
    exact Settings.ofToml?_write hcheck hfits (.inl rfl)
  · rw [perform, if_pos harguments, Settings.text?_eq hfits]
  · exact Settings.ofFile_write hcheck hfits

end Printed

/-- A configuration with all that may be absent, and characters that have to be escaped. -/
def thorough : Settings :=
  { logFile := some "/tmp/\"sky\".log", targets := ["simbad"],
    index := { token := some "\\", verify := false } }

theorem Settings.ofFile_printed_of_thorough :
    thorough.check = .ok () ∧ thorough.Fits ∧ thorough.simbad.backupUrl.isSome = true ∧
      ∃ text, thorough.text? = some text ∧ Settings.ofToml? text = some thorough := by
  have hcheck : thorough.check = .ok () :=
    Settings.check_eq_ok_iff.2 ⟨by decide +kernel, by decide,
      ⟨[.simbad], catalogsOfNames_eq_ok.2 ⟨[.simbad], by decide, by decide⟩, by decide⟩,
      ⟨by decide +kernel, by decide, by decide⟩, ⟨by decide +kernel, by decide, by decide⟩, by
    decide, by decide⟩
  have hfits : thorough.Fits := Settings.fits_iff.1 rfl
  obtain ⟨text, htext, hread, -, -, hmirrored, -⟩ := Settings.ofFile_printed hcheck hfits
  exact ⟨hcheck, hfits, rfl, text, htext, by rw [hread, hmirrored.2 rfl]⟩

/-- A configuration without a mirror of SIMBAD. -/
def mirrorless : Settings := { simbad := { backupUrl := none } }

/-- The configuration without a mirror is read back as the default one. -/
theorem Settings.ofToml?_of_mirrorless :
    mirrorless.check = .ok () ∧ mirrorless.Fits ∧
      ∃ text, mirrorless.text? = some text ∧ Settings.ofToml? text = some {} ∧ mirrorless ≠ {} := by
  have hcheck : mirrorless.check = .ok () :=
    Settings.check_eq_ok_iff.2 ⟨by decide +kernel, by decide,
      ⟨[.simbad, .ned], catalogsOfNames_eq_ok.2 ⟨[.simbad, .ned], by decide, by decide⟩, by decide⟩,
      ⟨by decide +kernel, by decide, by decide⟩, ⟨by decide +kernel, by decide, by decide⟩, by
    decide, by decide⟩
  have hfits : mirrorless.Fits := Settings.fits_iff.1 rfl
  have hread : Settings.ofToml? (mirrorless.document.write ++ "") = some mirrorless.mirrored :=
    Settings.ofToml?_write hcheck hfits (.inl rfl)
  rw [String.append_empty] at hread
  refine ⟨hcheck, hfits, mirrorless.document.write, Settings.text?_eq hfits, hread, fun heq => ?_⟩
  have hnone : mirrorless.simbad.backupUrl = ({} : Settings).simbad.backupUrl := by rw [heq]
  cases hnone

end SkyResolver
