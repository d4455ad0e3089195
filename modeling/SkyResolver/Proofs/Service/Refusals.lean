import Mathlib.Data.List.TakeWhile
import SkyResolver.Proofs.Service.Recording

/-! Which queries cannot be expanded. It is decided from the text of the query alone, before a
catalog or the index is called; what comes of the calls makes no difference to it. -/
namespace SkyResolver
open SkyResolver.Query SkyResolver.Text

lemma trim_eq_nil {s : List Char} : trim s = [] ↔ ∀ c ∈ s, isBlank c = true := by
  refine ⟨fun h => ?_, fun h => ?_⟩
  · rw [trim, trimEnd, List.reverse_eq_nil_iff, List.dropWhile_eq_nil_iff] at h
    cases hs : trimStart s with
    | nil => exact List.dropWhile_eq_nil_iff.1 hs
    | cons c rest =>
      have hblank := h c (by simp [hs])
      rw [trimStart_head hs] at hblank
      cases hblank
  · have hstart : trimStart s = [] := List.dropWhile_eq_nil_iff.2 h
    rw [trim, hstart]
    rfl

lemma not_isEmpty_trim {s : List Char} (h : ∃ c ∈ s, isBlank c = false) :
    ¬ (trim s).isEmpty = true := by
  rw [List.isEmpty_iff, trim_eq_nil]
  simpa using h

/-- A query that can be expanded: it is not blank, it can be read, and it has a name if it has a
clause. -/
structure Expandable (query : String) : Prop where
  visible : ∃ c ∈ query.toList, isBlank c = false
  named : ∃ extraction, Extraction.ofQuery query = .ok extraction ∧
    (extraction.clauses = [] ∨ extraction.names ≠ [])

/-- The reason for which a query cannot be expanded. -/
inductive Refused (query : String) : ServiceError → Prop where
  | blank (hblank : ∀ c ∈ query.toList, isBlank c = true) : Refused query (.missingInput .query)
  | unreadable {fault : QueryFault} (hvisible : ∃ c ∈ query.toList, isBlank c = false)
      (hquery : Extraction.ofQuery query = .error fault) : Refused query (.query fault)
  | nameless {extraction : Extraction} (hvisible : ∃ c ∈ query.toList, isBlank c = false)
      (hquery : Extraction.ofQuery query = .ok extraction) (hclauses : extraction.clauses ≠ [])
      (hnames : extraction.names = []) : Refused query (.missingInput (.namesInQuery query))

section Outlook
variable {σ : Type} (service : Service σ) (session : Session σ) {query : String}

lemma run_expand_of_refused {error : ServiceError} (h : Refused query error) :
    (service.expand query).run session = (.error error, session) := by
  rw [run_expand]
  cases h with
  | blank hblank =>
    rw [trim_eq_nil.2 hblank]
    rfl
  | unreadable hvisible hquery =>
    rw [if_neg (not_isEmpty_trim hvisible), hquery]
    rfl
  | nameless hvisible hquery hclauses hnames =>
    rw [if_neg (not_isEmpty_trim hvisible), hquery]
    dsimp only
    rw [if_neg (by simpa [Extraction.isEmpty] using hclauses), hnames]
    rfl

lemma run_expand_of_no_clause {extraction : Extraction}
    (hvisible : ∃ c ∈ query.toList, isBlank c = false)
    (hquery : Extraction.ofQuery query = .ok extraction) (hclauses : extraction.clauses = []) :
    (service.expand query).run session = (.ok query, session) := by
  rw [run_expand, if_neg (not_isEmpty_trim hvisible), hquery]
  dsimp only
  rw [Extraction.isEmpty, hclauses]
  rfl

lemma run_expand_of_named {extraction : Extraction}
    (hvisible : ∃ c ∈ query.toList, isBlank c = false)
    (hquery : Extraction.ofQuery query = .ok extraction) (hclauses : extraction.clauses ≠ [])
    (hnames : extraction.names ≠ []) :
    (service.expand query).run session = (.ok (service.expandClauses query extraction session).1,
      (service.expandClauses query extraction session).2) := by
  rw [run_expand, if_neg (not_isEmpty_trim hvisible), hquery]
  dsimp only
  rw [if_neg (by simpa [Extraction.isEmpty] using hclauses), if_neg (by simpa using hnames)]
  rfl

lemma run_expand_of_expandable (h : Expandable query) :
    ∃ text, ((service.expand query).run session).1 = .ok text := by
  obtain ⟨hvisible, extraction, hquery, hnamed⟩ := h
  by_cases hclauses : extraction.clauses = []
  · exact ⟨query, by rw [run_expand_of_no_clause service session hvisible hquery hclauses]⟩
  · have hnames := hnamed.resolve_left hclauses
    exact ⟨_, by rw [run_expand_of_named service session hvisible hquery hclauses hnames]⟩

end Outlook

/-- A query can be expanded or is refused for a reason. -/
lemma expandable_or_refused (query : String) : Expandable query ∨ ∃ error, Refused query error := by
  by_cases hblank : ∀ c ∈ query.toList, isBlank c = true
  · exact .inr ⟨_, .blank hblank⟩
  have hvisible : ∃ c ∈ query.toList, isBlank c = false := by simpa using hblank
  cases hquery : Extraction.ofQuery query with
  | error fault => exact .inr ⟨_, .unreadable hvisible hquery⟩
  | ok extraction =>
    by_cases hnamed : extraction.clauses = [] ∨ extraction.names ≠ []
    · exact .inl ⟨hvisible, extraction, hquery, hnamed⟩
    · obtain ⟨hclauses, hnames⟩ := not_or.1 hnamed
      exact .inr ⟨_, .nameless hvisible hquery hclauses (by simpa using hnames)⟩

/-- Whatever catalogs and index answer, and whatever is in the cache, a query is expanded if and
only if its text allows it. Otherwise the text is the reason, and nothing has been called; nor is
anything called for a query without clauses, which comes back as it is. The record of the calls
takes no part in this. -/
theorem expand_ok_iff {σ : Type} (service : Service σ) (query : String)
    (session : Session (Recorded σ)) :
    let result := ((service.expand query).run.run session.forget).1
    let recorded := (service.recorded.expand query).run.run session
    recorded.1 = result ∧
    ((∃ text, result = .ok text) ↔ Expandable query) ∧
    (∀ error, result = .error error → Refused query error ∧ recorded.2 = session) ∧
    ∀ extraction, (∃ c ∈ query.toList, isBlank c = false) →
    Extraction.ofQuery query = .ok extraction →
      extraction.clauses = [] → result = .ok query ∧ recorded.2 = session := by
  intro result recorded
  refine ⟨(shadows_expand service query session).1, ?_, ?_, ?_⟩
  · refine ⟨fun ⟨text, htext⟩ => ?_, run_expand_of_expandable service session.forget⟩
    rcases expandable_or_refused query with h | ⟨error, h⟩
    · exact h
    · have hresult : result = .error error :=
        congrArg Prod.fst (run_expand_of_refused service session.forget h)
      rw [hresult] at htext
      cases htext
  · intro error herror
    rcases expandable_or_refused query with h | ⟨error', h⟩
    · obtain ⟨text, htext⟩ := run_expand_of_expandable service session.forget h
      cases herror.symm.trans htext
    · have hresult : result = .error error' :=
        congrArg Prod.fst (run_expand_of_refused service session.forget h)
      rw [hresult] at herror
      cases herror
      exact ⟨h, congrArg Prod.snd (run_expand_of_refused service.recorded session h)⟩
  · intro extraction hvisible hquery hclauses
    exact ⟨congrArg Prod.fst (run_expand_of_no_clause service session.forget hvisible
      hquery hclauses), congrArg Prod.snd
      (run_expand_of_no_clause service.recorded session hvisible hquery hclauses)⟩

end SkyResolver
