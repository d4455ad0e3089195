import Mathlib.Data.List.Induction
import Mathlib.Tactic.Lemma
import SkyResolver.Table

/-! The entries of tables: what look-ups and writes mean for them. -/
namespace SkyResolver.Table
variable {κ ν : Type} [DecidableEq κ] {t : Table κ ν} {k : κ} {v : ν} {entry : κ × ν}

/-- The keys of a table, in the order of its entries. -/
def keys (t : Table κ ν) : List κ := t.entries.map Prod.fst

/-! ### Look-ups -/

lemma mem_of_get? (h : t.get? k = some v) : (k, v) ∈ t.entries := by
  obtain ⟨before, after, hentries, -⟩ := List.lookup_eq_some_iff.1 h
  simp [hentries]

lemma isSome_get?_iff : (t.get? k).isSome ↔ k ∈ t.keys := by
  rw [get?, List.lookup_isSome_iff, keys, List.mem_map]
  exact exists_congr fun e => and_congr_right fun _ => by rw [beq_iff_eq, eq_comm]

lemma get?_eq_some_iff (h : t.keys.Nodup) : t.get? k = some v ↔ (k, v) ∈ t.entries := by
  refine ⟨mem_of_get?, fun hmem => ?_⟩
  obtain ⟨entries⟩ := t
  induction entries with
  | nil => cases hmem
  | cons e l ih =>
    obtain ⟨hhead, htail⟩ := List.nodup_cons.1 h
    rcases List.mem_cons.1 hmem with rfl | hmem
    · simp [get?]
    · have hne : (k == e.1) = false := by
        rw [beq_eq_false_iff_ne]
        rintro rfl
        exact hhead (List.mem_map.2 ⟨_, hmem, rfl⟩)
      rw [get?, List.lookup_cons, hne]
      exact ih htail hmem

/-! ### Writes -/

lemma mem_entries_insert :
    entry ∈ (t.insert k v).entries ↔ entry = (k, v) ∨ entry ∈ t.entries ∧ entry.1 ≠ k := by
  simp only [insert, List.mem_append, List.mem_filter, List.mem_singleton, bne_iff_ne]
  exact or_comm

lemma mem_keys_insert {j : κ} : j ∈ (t.insert k v).keys ↔ j = k ∨ j ∈ t.keys := by
  simp only [keys, List.mem_map, mem_entries_insert]
  constructor
  · rintro ⟨e, rfl | ⟨he, -⟩, rfl⟩
    · exact .inl rfl
    · exact .inr ⟨e, he, rfl⟩
  · rintro (rfl | ⟨e, he, rfl⟩)
    · exact ⟨_, .inl rfl, rfl⟩
    · by_cases hk : e.1 = k
      · exact ⟨_, .inl rfl, hk.symm⟩
      · exact ⟨e, .inr ⟨he, hk⟩, rfl⟩

lemma nodup_keys_insert (h : t.keys.Nodup) : (t.insert k v).keys.Nodup := by
  have hrest : ((t.entries.filter fun e => e.1 != k).map Prod.fst).Nodup :=
    h.sublist (List.filter_sublist.map Prod.fst)
  rw [keys, insert, List.map_append, List.nodup_append]
  refine ⟨hrest, by simp, ?_⟩
  rintro j hj _ hk rfl
  obtain ⟨e, he, rfl⟩ := List.mem_map.1 hj
  obtain rfl : e.1 = k := by simpa using hk
  simp at he

/-! ### Several writes -/

lemma mem_insertAll {l : List (κ × ν)} (h : entry ∈ (t.insertAll l).entries) :
    entry ∈ l ∨ entry ∈ t.entries := by
  induction l generalizing t with
  | nil => exact .inr h
  | cons e l ih =>
    rcases ih h with h | h
    · exact .inl (List.mem_cons_of_mem e h)
    · rcases mem_entries_insert.1 h with rfl | ⟨h, -⟩
      · exact .inl List.mem_cons_self
      · exact .inr h

lemma mem_keys_insertAll {l : List (κ × ν)} : k ∈ (t.insertAll l).keys ↔ k ∈ l.map Prod.fst ∨
    k ∈ t.keys := by
  induction l generalizing t with
  | nil => simp [insertAll]
  | cons e l ih =>
    have hrest : k ∈ ((t.insert e.1 e.2).insertAll l).keys ↔
        k ∈ l.map Prod.fst ∨ k = e.1 ∨ k ∈ t.keys := by rw [ih, mem_keys_insert]
    rw [List.map_cons, List.mem_cons, or_assoc, or_left_comm]
    exact hrest

lemma nodup_keys_insertAll {l : List (κ × ν)} (h : t.keys.Nodup) : (t.insertAll l).keys.Nodup := by
  induction l generalizing t with
  | nil => exact h
  | cons e l ih => exact ih (nodup_keys_insert h)

lemma ofList_append_singleton (l : List (κ × ν)) (e : κ × ν) :
    ofList (l ++ [e]) = (ofList l).insert e.1 e.2 := by
  rw [ofList, insertAll, List.foldl_append]
  rfl

/-- A table written key by key with the values of a function gives these values. -/
lemma get?_ofList_map {f : κ → ν} {keys : List κ} (hk : k ∈ keys) :
    (ofList (keys.map fun k => (k, f k))).get? k = some (f k) := by
  induction keys using List.reverseRecOn with
  | nil => cases hk
  | append_singleton keys last ih =>
    rw [List.map_append, List.map_singleton, ofList_append_singleton]
    by_cases hlast : k = last
    · rw [hlast, get?_insert_self]
    · rw [get?_insert_of_ne _ _ hlast]
      exact ih ((List.mem_append.1 hk).resolve_right fun h => hlast (List.mem_singleton.1 h))

lemma isSome_get?_insertAll {l : List (κ × ν)}
    (h : (∃ v, (k, v) ∈ l) ∨ (t.get? k).isSome) : ((t.insertAll l).get? k).isSome := by
  rw [isSome_get?_iff, mem_keys_insertAll, ← isSome_get?_iff]
  exact h.imp_left fun ⟨v, hv⟩ => List.mem_map.2 ⟨_, hv, rfl⟩

end SkyResolver.Table
