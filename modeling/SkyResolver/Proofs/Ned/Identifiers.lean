import SkyResolver.Ned.Client
import SkyResolver.Proofs.Cache.Entries
import SkyResolver.Proofs.Text.Words

/-! Identifiers of NED lead back to their objects. An identifier is a preferred name with
underscores in place of spaces, so a record comes back as it was as long as its name has no
underscore of its own; where it has one, the name comes back with a space. -/
namespace SkyResolver.Ned
open SkyResolver.Http SkyResolver.Text

/-- An underscore for a space. -/
def underscored (c : Char) : Char := if c = ' ' then '_' else c

lemma isBlank_underscored {c : Char} (hc : isBlank c = false) :
    isBlank (underscored c) = false := by
  rw [underscored]
  split
  · decide
  · exact hc

/-- Reading underscores as spaces brings the spaces back, and makes spaces of the name's own
underscores. -/
lemma spaced_underscored (s : List Char) :
    replaceChar '_' [' '] (s.map underscored) = replaceChar '_' [' '] s := by
  rw [replaceChar_singleton, replaceChar_singleton, List.map_map]
  refine List.map_congr_left fun c _ => ?_
  by_cases hc : c = ' '
  · subst hc
    decide
  · simp [underscored, hc]

/-! ### Records of names -/

variable {preferred name : String} {payload : Json} {r : SkyObject}

lemma nameOfId_recordOfName (preferred : String) : nameOfId (recordOfName preferred).id =
    String.ofList (replaceChar '_' [' '] (recordOfName preferred).name.toList) := by
  have htrim : IsTrimmed ((trim preferred.toList).map underscored) :=
    (isTrimmed_trim _).map fun _ => isBlank_underscored
  have hid : (recordOfName preferred).id.toList = (trim preferred.toList).map underscored := by
    rw [recordOfName, String.toList_ofList, replaceChar_singleton]
    rfl
  rw [nameOfId, hid, htrim.trim_eq, spaced_underscored, recordOfName, String.toList_ofList]

/-- What is known of an object is made of its preferred name. -/
lemma exists_recordOfName (h : Verdict.ofJson name payload = .ok (.known r)) :
    ∃ preferred, r = recordOfName preferred := by
  simp only [Verdict.ofJson] at h
  split at h
  · split at h
    · split at h
      · rename_i preferred _
        cases h
        exact ⟨preferred, rfl⟩
      · cases h
    · split at h <;> cases h
  · cases h

/-- The answer about a name with a preferred name in it. -/
def knownAnswer (preferred : String) : Json :=
  .object [("StatusCode", .number (.int usableStatus)), ("ResultCode", .number (.int knownCode)),
    ("Preferred", .object [("Name", .string preferred)])]

lemma ofJson_knownAnswer (name preferred : String) :
    Verdict.ofJson name (knownAnswer preferred) = .ok (.known (recordOfName preferred)) := rfl

/-! ### Records of identifiers -/

section Records
variable {ν : Type} {ids : List String} (network : Network ν) (settings : NedSettings)
  (remote : Remote ν)

/-- Records of identifiers are written without a request. -/
lemma run_identifiers (ids : List String) : ((client network settings).identifiers ids).run remote =
    (.finished (.ok (Table.ofList (ids.map fun id => (id, identifierRecord id)))), remote) := rfl

/-- The identifier of a known object leads to a record with the same identifier, and with the same
name except that underscores in the name are spaces then. So it is the same record just when the
name has no underscore. -/
theorem identifiers_of_known (h : Verdict.ofJson name payload = .ok (.known r)) (hid : r.id ∈ ids) :
    ∃ table, ((client network settings).identifiers ids).run remote =
      (.finished (.ok table), remote) ∧
      table.get? r.id =
        some { r with name := String.ofList (replaceChar '_' [' '] r.name.toList) } ∧
      (table.get? r.id = some r ↔ '_' ∉ r.name.toList) := by
  have hname : nameOfId r.id = String.ofList (replaceChar '_' [' '] r.name.toList) := by
    obtain ⟨preferred, rfl⟩ := exists_recordOfName h
    exact nameOfId_recordOfName preferred
  have hget := Table.get?_ofList_map (f := identifierRecord) hid
  rw [identifierRecord, hname] at hget
  refine ⟨_, run_identifiers network settings remote ids, hget, ?_⟩
  rw [hget, Option.some_inj, ← replaceChar_eq_self_iff (by decide : '_' ≠ ' ')]
  constructor
  · intro hrecord
    have hspaced := congrArg (fun record => record.name.toList) hrecord
    rwa [String.toList_ofList] at hspaced
  · intro hspaced
    rw [hspaced, String.ofList_toList]

end Records

/-- Clients that have sent nothing yet. -/
def idle : Remote Unit := ⟨(), .unchecked "" [] (.ofSeconds 0)⟩

theorem identifiers_of_messier :
    Verdict.ofJson "M31" (knownAnswer "MESSIER 031 ") =
      .ok (.known ⟨"MESSIER_031", "MESSIER 031"⟩) ∧
      "MESSIER_031" ∈ ["MESSIER_032", "MESSIER_031"] ∧ ∃ table,
        ((client unreachable {}).identifiers ["MESSIER_032", "MESSIER_031"]).run idle =
          (.finished (.ok table), idle) ∧
        table.get? "MESSIER_031" = some ⟨"MESSIER_031", "MESSIER 031"⟩ := by
  have hrecord : recordOfName "MESSIER 031 " = ⟨"MESSIER_031", "MESSIER 031"⟩ := by decide +kernel
  have h := hrecord ▸ ofJson_knownAnswer "M31" "MESSIER 031 "
  have hid : "MESSIER_031" ∈ ["MESSIER_032", "MESSIER_031"] := by decide
  obtain ⟨table, hrun, -, hback⟩ := identifiers_of_known unreachable {} idle h hid
  exact ⟨h, hid, table, hrun, hback.2 (by decide)⟩

/-- An underscore of the name itself comes back as a space. -/
theorem identifiers_of_underscore :
    Verdict.ofJson "A B" (knownAnswer "A_B") = .ok (.known ⟨"A_B", "A_B"⟩) ∧ ∃ table,
      ((client unreachable {}).identifiers ["A_B"]).run idle = (.finished (.ok table), idle) ∧
      table.get? "A_B" = some ⟨"A_B", "A B"⟩ ∧ table.get? "A_B" ≠ some ⟨"A_B", "A_B"⟩ := by
  have hrecord : recordOfName "A_B" = ⟨"A_B", "A_B"⟩ := by decide +kernel
  have hget : (Table.ofList (["A_B"].map fun id => (id, identifierRecord id))).get? "A_B" =
      some ⟨"A_B", "A B"⟩ := by
    decide +kernel
  refine ⟨hrecord ▸ ofJson_knownAnswer "A B" "A_B", _, run_identifiers unreachable {} idle ["A_B"],
    hget, ?_⟩
  rw [hget]
  decide

end SkyResolver.Ned
