import Mathlib.Data.List.Induction
import Mathlib.Tactic.Push
import Mathlib.Tactic.SplitIfs
import SkyResolver.Proofs.Cache.Entries
import SkyResolver.Simbad.Rows

/-! The aliases in rows. A row writes its record under the key of its name and under that key
without spaces, and of all rows that write a key the last one counts, whether it has the very name
or not. So a name gets the record of a row with the very name as long as no later row has that name
but for spaces. -/
namespace SkyResolver.Simbad
open SkyResolver.Text

variable {rows : List NameRow} {row : NameRow} {k : List Char} {name : String} {names : List String}
  {record : SkyObject}

/-! ### Keys -/

@[simp] lemma tight_tight (k : List Char) : tight (tight k) = tight k := by
  rw [tight, tight, List.filter_filter]
  simp only [Bool.and_self]

/-- The keys under which the record of a row is written. -/
def NameRow.keys (row : NameRow) : List (List Char) := [tight row.nameKey, row.nameKey]

lemma NameRow.mem_keys : k ∈ row.keys ↔ k = tight row.nameKey ∨ k = row.nameKey := by
  simp [NameRow.keys]

lemma NameRow.tight_of_mem_keys (h : k ∈ row.keys) : tight row.nameKey = tight k := by
  obtain rfl | rfl := NameRow.mem_keys.1 h
  · rw [tight_tight]
  · rfl

lemma NameRow.tight_mem_keys : tight k ∈ row.keys ↔ tight row.nameKey = tight k := by
  refine ⟨fun h => ?_, fun h => NameRow.mem_keys.2 (.inl h.symm)⟩
  rw [NameRow.tight_of_mem_keys h, tight_tight]

/-! ### The last row with a key -/

/-- The last of the rows that write a key. -/
def lastRow? (k : List Char) (rows : List NameRow) : Option NameRow :=
  rows.reverse.find? fun row => k ∈ row.keys

lemma lastRow?_append_singleton (k : List Char) (rows : List NameRow) (row : NameRow) :
    lastRow? k (rows ++ [row]) = if k ∈ row.keys then some row else lastRow? k rows := by
  rw [lastRow?, List.reverse_append, List.reverse_singleton, List.singleton_append, List.find?_cons]
  split_ifs with h
  · simp [h]
  · simp [h, lastRow?]

lemma mem_of_lastRow? (h : lastRow? k rows = some row) : row ∈ rows ∧ k ∈ row.keys :=
  ⟨List.mem_reverse.1 (List.mem_of_find?_eq_some h), by simpa using List.find?_some h⟩

lemma lastRow?_eq_none_iff : lastRow? k rows = none ↔ ∀ row ∈ rows, k ∉ row.keys := by
  simp [lastRow?]

lemma exists_lastRow? (hrow : row ∈ rows) (hk : k ∈ row.keys) :
    ∃ last, lastRow? k rows = some last := by
  rw [← Option.isSome_iff_exists, ← Option.ne_none_iff_isSome]
  exact fun h => lastRow?_eq_none_iff.1 h row hrow hk

lemma Aliases.ofRows_append_singleton (rows : List NameRow) (row : NameRow) :
    Aliases.ofRows (rows ++ [row]) =
    ((Aliases.ofRows rows).insert (tight row.nameKey) row.record).insert row.nameKey
      row.record := by
  simp [Aliases.ofRows, Table.ofList, Table.insertAll]

/-- A table of aliases gives for each key the record of the last row that writes it. -/
lemma Aliases.get?_ofRows (k : List Char) (rows : List NameRow) :
    (Aliases.ofRows rows).get? k = (lastRow? k rows).map NameRow.record := by
  induction rows using List.reverseRecOn with
  | nil => rfl
  | append_singleton rows row ih =>
    rw [Aliases.ofRows_append_singleton, lastRow?_append_singleton]
    by_cases hname : k = row.nameKey
    · rw [hname, Table.get?_insert_self, if_pos (NameRow.mem_keys.2 (.inr rfl)), Option.map_some]
    · rw [Table.get?_insert_of_ne _ _ hname]
      by_cases htight : k = tight row.nameKey
      · rw [htight, Table.get?_insert_self, if_pos (NameRow.mem_keys.2 (.inl rfl)), Option.map_some]
      · rw [Table.get?_insert_of_ne _ _ htight, ih, if_neg]
        exact fun h => (NameRow.mem_keys.1 h).elim htight hname

/-- The row whose record a name is given. -/
def givenRow? (name : String) (rows : List NameRow) : Option NameRow :=
  (lastRow? (key name) rows).or (lastRow? (tight (key name)) rows)

lemma Aliases.find?_ofRows (name : String) (rows : List NameRow) :
    (Aliases.ofRows rows).find? name = (givenRow? name rows).map NameRow.record := by
  rw [Aliases.find?, Aliases.get?_ofRows, Aliases.get?_ofRows, givenRow?, Option.map_or]

lemma givenRow?_eq_none_iff : givenRow? name rows = none ↔
    ∀ row ∈ rows, tight row.nameKey ≠ tight (key name) := by
  rw [givenRow?, Option.or_eq_none_iff, lastRow?_eq_none_iff, lastRow?_eq_none_iff]
  refine ⟨fun h row hrow heq => h.2 row hrow (NameRow.tight_mem_keys.2 heq), fun h => ⟨?_, ?_⟩⟩
  · exact fun row hrow hk => h row hrow (NameRow.tight_of_mem_keys hk)
  · exact fun row hrow hk => h row hrow (NameRow.tight_mem_keys.1 hk)

lemma mem_of_givenRow? (h : givenRow? name rows = some row) :
    row ∈ rows ∧ tight row.nameKey = tight (key name) := by
  obtain hlast | ⟨-, hlast⟩ := Option.or_eq_some_iff.1 h
  · obtain ⟨hrow, hk⟩ := mem_of_lastRow? hlast
    exact ⟨hrow, NameRow.tight_of_mem_keys hk⟩
  · obtain ⟨hrow, hk⟩ := mem_of_lastRow? hlast
    exact ⟨hrow, NameRow.tight_mem_keys.1 hk⟩

/-! ### Several names -/

lemma get?_ofList_filterMap (f : String → Option SkyObject) (names : List String) (name : String) :
    (Table.ofList (names.filterMap fun name => (f name).map fun record => (name, record))).get?
      name =
      if name ∈ names then f name else none := by
  induction names using List.reverseRecOn with
  | nil => rfl
  | append_singleton names last ih =>
    rw [List.filterMap_append, List.filterMap_cons, List.filterMap_nil]
    cases hlast : f last with
    | none =>
      rw [Option.map_none, List.append_nil, ih]
      by_cases hname : name = last
      · simp [hname, hlast]
      · simp [hname]
    | some record =>
      rw [Option.map_some, Table.ofList_append_singleton]
      by_cases hname : name = last
      · simp [hname, hlast]
      · rw [Table.get?_insert_of_ne _ _ hname, ih]
        simp [hname]

/-- In a list of several names each is given its own record. -/
lemma Aliases.get?_pick (aliases : Aliases) (hnames : 2 ≤ names.length) (hname : name ∈ names) :
    (aliases.pick names).get? name = aliases.find? name := by
  have hpick : aliases.pick names = Table.ofList (names.filterMap fun name =>
      (aliases.find? name).map fun record => (name, record)) := by
    unfold Aliases.pick
    dsimp only
    split
    · exact absurd hnames (by simp)
    · rfl
  rw [hpick, get?_ofList_filterMap, if_pos hname]

/-- What a name should be given: the record of a row with the very name; if there is none, the
record of a row with the name but for spaces; if there is none of these either, nothing. -/
inductive Preferred (rows : List NameRow) (name : String) : Option SkyObject → Prop
  | sameName {row : NameRow} (hrow : row ∈ rows) (hkey : row.nameKey = key name) :
      Preferred rows name (some row.record)
  | sameButSpaces {row : NameRow} (hother : ∀ row ∈ rows, row.nameKey ≠ key name)
      (hrow : row ∈ rows) (hkey : tight row.nameKey = tight (key name)) :
      Preferred rows name (some row.record)
  | unknown (hother : ∀ row ∈ rows, tight row.nameKey ≠ tight (key name)) : Preferred rows name none

/-- There are rows with the very name, but a later row, which writes their key because it has the
name but for spaces, has another record than all of them. -/
structure Overwritten (rows : List NameRow) (name : String) (last : NameRow) : Prop where
  found : lastRow? (key name) rows = some last
  named : ∃ row ∈ rows, row.nameKey = key name
  other : ∀ row ∈ rows, row.nameKey = key name → row.record ≠ last.record

lemma givenRow?_of_lastRow? (h : lastRow? (key name) rows = some row) :
    givenRow? name rows = some row := by
  rw [givenRow?, h, Option.some_or]

lemma not_preferred_of_overwritten {last : NameRow} (h : Overwritten rows name last) :
    ¬Preferred rows name ((givenRow? name rows).map NameRow.record) := by
  intro hpreferred
  rw [givenRow?_of_lastRow? h.found, Option.map_some] at hpreferred
  generalize hrecord : last.record = record at hpreferred
  cases hpreferred with
  | sameName hrow hkey => exact h.other _ hrow hkey hrecord.symm
  | sameButSpaces hother hrow hkey =>
    obtain ⟨named, hnamed, hkey⟩ := h.named
    exact hother named hnamed hkey

lemma preferred_of_not_overwritten (h : ¬∃ last, Overwritten rows name last) :
    Preferred rows name ((givenRow? name rows).map NameRow.record) := by
  by_cases hnamed : ∃ row ∈ rows, row.nameKey = key name
  · obtain ⟨named, hrow, hkey⟩ := hnamed
    obtain ⟨last, hlast⟩ := exists_lastRow? hrow (NameRow.mem_keys.2 (.inr hkey.symm))
    rw [givenRow?_of_lastRow? hlast, Option.map_some]
    have hother : ¬∀ row ∈ rows, row.nameKey = key name → row.record ≠ last.record :=
      fun hother => h ⟨last, hlast, ⟨named, hrow, hkey⟩, hother⟩
    push Not at hother
    obtain ⟨row, hrow, hkey, hrecord⟩ := hother
    rw [← hrecord]
    exact .sameName hrow hkey
  · push Not at hnamed
    cases hgiven : givenRow? name rows with
    | none => exact .unknown (givenRow?_eq_none_iff.1 hgiven)
    | some row =>
      obtain ⟨hrow, hkey⟩ := mem_of_givenRow? hgiven
      exact .sameButSpaces hnamed hrow hkey

/-- Each of several names is given the record of the last row that has its key, with or without
spaces. This is the one that it should be given exactly if no row with the very name was
overwritten. -/
theorem Aliases.pick_preferred_iff (hnames : 2 ≤ names.length) (hname : name ∈ names) :
    ((Aliases.ofRows rows).pick names).get? name = (givenRow? name rows).map NameRow.record ∧
    (Preferred rows name (((Aliases.ofRows rows).pick names).get? name) ↔ ¬∃ last,
      Overwritten rows name last) := by
  rw [Aliases.get?_pick _ hnames hname, Aliases.find?_ofRows]
  refine ⟨rfl, fun hpreferred => ?_, preferred_of_not_overwritten⟩
  rintro ⟨last, hlast⟩
  exact not_preferred_of_overwritten hlast hpreferred

/-- Two objects whose names differ in a space. -/
def spacedRows : List NameRow := [⟨⟨"2", "M 31"⟩, "M 31".toList⟩, ⟨⟨"1", "M31"⟩, "M31".toList⟩]

theorem Aliases.pick_preferred_iff_of_spaces :
    2 ≤ ["m31", "M  31"].length ∧ "m31" ∈ ["m31", "M  31"] ∧
    ((Aliases.ofRows spacedRows).pick ["m31", "M  31"]).get? "m31" = some ⟨"1", "M31"⟩ ∧
    Preferred spacedRows "m31"
      (((Aliases.ofRows spacedRows).pick ["m31", "M  31"]).get? "m31") := by
  have hnames : 2 ≤ ["m31", "M  31"].length := by decide
  have hname : "m31" ∈ ["m31", "M  31"] := by decide
  refine ⟨hnames, hname, by decide +kernel, (Aliases.pick_preferred_iff hnames hname).2.2 ?_⟩
  rintro ⟨last, hlast⟩
  have hfound : lastRow? (key "m31") spacedRows = some ⟨⟨"1", "M31"⟩, "M31".toList⟩ := by rfl
  obtain rfl := Option.some.inj (hfound.symm.trans hlast.found)
  exact hlast.other _ (mem_of_lastRow? hfound).1 (by decide +kernel) rfl

/-- An answer in which a name stands in front of the same name with a space. -/
def spacedPayload : Json :=
  .object [("data", .array
    [.array [.number (.int 1), .string "M31", .string "M31"],
      .array [.number (.int 2), .string "M 31", .string "M 31"]])]

lemma nameRows_spacedPayload : nameRows spacedPayload = .ok spacedRows.reverse := by rfl

/-- The record of the object that has the very name is lost. -/
theorem Aliases.pick_of_spacedPayload : ∃ rows, nameRows spacedPayload = .ok rows ∧
    ((Aliases.ofRows rows).pick ["M31", "M32"]).get? "M31" = some ⟨"2", "M 31"⟩ ∧
    ¬Preferred rows "M31" (((Aliases.ofRows rows).pick ["M31", "M32"]).get? "M31") := by
  have hlast : Overwritten spacedRows.reverse "M31" ⟨⟨"2", "M 31"⟩, "M 31".toList⟩ := by
    refine ⟨by rfl, ⟨⟨⟨"1", "M31"⟩, "M31".toList⟩, by simp [spacedRows], by decide +kernel⟩,
      fun row hrow hkey => ?_⟩
    obtain rfl | rfl : row = ⟨⟨"1", "M31"⟩, "M31".toList⟩ ∨
        row = ⟨⟨"2", "M 31"⟩, "M 31".toList⟩ := by
      simpa [spacedRows] using hrow
    · decide
    · exact absurd hkey (by decide +kernel)
  refine ⟨spacedRows.reverse, nameRows_spacedPayload, by decide +kernel, ?_⟩
  rw [Aliases.get?_pick _ (by decide) (by decide), Aliases.find?_ofRows]
  exact not_preferred_of_overwritten hlast

/-! ### One name -/

/-- A row whose record is still found under one of its keys. -/
def Visible (rows : List NameRow) (row : NameRow) : Prop := ∃ k, lastRow? k rows = some row

/-- Some rows are all about one object. -/
def OneObject (p : NameRow → Prop) : Prop :=
  ∀ row row', p row → p row' → row.record.id = row'.record.id

/-- What a single name should be given if no row has it: the record of the only object that the rows
are about. -/
structure Unambiguous (rows : List NameRow) (given : Option SkyObject) : Prop where
  isSome_iff : given.isSome ↔ rows ≠ [] ∧ OneObject (· ∈ rows)
  id_eq : ∀ record ∈ given, ∀ row ∈ rows, row.record.id = record.id

lemma nodup_keys_ofRows (rows : List NameRow) : (Aliases.ofRows rows).keys.Nodup :=
  Table.nodup_keys_insertAll List.nodup_nil

lemma mem_entries_ofRows : (k, record) ∈ (Aliases.ofRows rows).entries ↔
    ∃ row, lastRow? k rows = some row ∧ row.record = record := by
  rw [← Table.get?_eq_some_iff (nodup_keys_ofRows rows), Aliases.get?_ofRows,
    Option.map_eq_some_iff]

lemma Visible.mem (h : Visible rows row) : row ∈ rows := by
  obtain ⟨k, hk⟩ := h
  exact (mem_of_lastRow? hk).1

lemma exists_visible (h : rows ≠ []) : ∃ row, Visible rows row := by
  obtain ⟨row, hrow⟩ := List.exists_mem_of_ne_nil rows h
  obtain ⟨last, hlast⟩ := exists_lastRow? hrow (NameRow.mem_keys.2 (.inr rfl))
  exact ⟨last, row.nameKey, hlast⟩

lemma entries_ofRows_eq_nil_iff : (Aliases.ofRows rows).entries = [] ↔ rows = [] := by
  refine ⟨fun hnil => ?_, fun hnil => by rw [hnil]; rfl⟩
  by_contra hrows
  obtain ⟨row, k, hk⟩ := exists_visible hrows
  have hmem := mem_entries_ofRows.2 ⟨row, hk, rfl⟩
  rw [hnil] at hmem
  cases hmem

lemma Aliases.only?_eq_some {aliases : Aliases} (h : aliases.only? = some record) :
    aliases.entries ≠ [] ∧ ∀ e ∈ aliases.entries, e.2.id = record.id := by
  unfold Aliases.only? at h
  split at h
  · rename_i k first rest hentries
    split_ifs at h with hall
    cases h
    simpa [hentries] using hall
  · cases h

lemma Aliases.isSome_only? {aliases : Aliases} (hne : aliases.entries ≠ [])
    (h : ∀ e ∈ aliases.entries, ∀ e' ∈ aliases.entries, e.2.id = e'.2.id) :
    aliases.only?.isSome := by
  unfold Aliases.only?
  split
  · rename_i k first rest hentries
    rw [hentries] at h
    have hall : (rest.all fun e => e.2.id == first.id) = true :=
      List.all_eq_true.2 fun e he =>
      beq_iff_eq.2 (h e (List.mem_cons_of_mem _ he) _ List.mem_cons_self)
    rw [if_pos hall, Option.isSome_some]
  · rename_i hentries
    exact absurd hentries hne

lemma Aliases.only?_ofRows_eq_some (h : (Aliases.ofRows rows).only? = some record) :
    rows ≠ [] ∧ ∀ row, Visible rows row → row.record.id = record.id := by
  obtain ⟨hne, hall⟩ := Aliases.only?_eq_some h
  refine ⟨fun hnil => hne (entries_ofRows_eq_nil_iff.2 hnil), ?_⟩
  rintro row ⟨k, hk⟩
  exact hall (k, row.record) (mem_entries_ofRows.2 ⟨row, hk, rfl⟩)

lemma Aliases.isSome_only?_ofRows_iff :
    (Aliases.ofRows rows).only?.isSome ↔ rows ≠ [] ∧ OneObject (Visible rows) := by
  constructor
  · intro hsome
    obtain ⟨record, hrecord⟩ := Option.isSome_iff_exists.1 hsome
    obtain ⟨hne, hall⟩ := Aliases.only?_ofRows_eq_some hrecord
    exact ⟨hne, fun row row' hrow hrow' => (hall row hrow).trans (hall row' hrow').symm⟩
  · rintro ⟨hne, hone⟩
    refine Aliases.isSome_only? (fun hnil => hne (entries_ofRows_eq_nil_iff.1 hnil)) ?_
    rintro ⟨k, record⟩ he ⟨k', record'⟩ he'
    obtain ⟨row, hrow, rfl⟩ := mem_entries_ofRows.1 he
    obtain ⟨row', hrow', rfl⟩ := mem_entries_ofRows.1 he'
    exact hone row row' ⟨k, hrow⟩ ⟨k', hrow'⟩

/-- A single name that no row has is given what is left under the aliases, if that is one object. -/
lemma Aliases.get?_pick_singleton (hname : (aliases : Aliases).find? name = none) :
    (aliases.pick [name]).get? name = aliases.only? := by
  have hpick : aliases.pick [name] =
      Table.ofList (aliases.only?.map fun record => (name, record)).toList := by
    unfold Aliases.pick
    simp [hname]
  rw [hpick]
  cases aliases.only? with
  | none => rfl
  | some record => simp [Table.ofList, Table.insertAll]

/-- A single name that no row has is given a record exactly if there are rows and the visible ones
are all about one object. Rows that others hide are not asked: this is what should be given exactly
if no other object is hidden. -/
theorem Aliases.pick_unambiguous_iff (hname : ∀ row ∈ rows, tight row.nameKey ≠ tight (key name)) :
    ((((Aliases.ofRows rows).pick [name]).get? name).isSome ↔ rows ≠ [] ∧
      OneObject (Visible rows)) ∧
    (∀ record ∈ ((Aliases.ofRows rows).pick [name]).get? name, ∀ row, Visible rows row →
      row.record.id = record.id) ∧
    (Unambiguous rows (((Aliases.ofRows rows).pick [name]).get? name) ↔
      (OneObject (Visible rows) → OneObject (· ∈ rows))) := by
  have hfind : (Aliases.ofRows rows).find? name = none := by
    rw [Aliases.find?_ofRows, givenRow?_eq_none_iff.2 hname, Option.map_none]
  have hid : ∀ record ∈ (Aliases.ofRows rows).only?, ∀ row, Visible rows row →
      row.record.id = record.id :=
    fun record hrecord => (Aliases.only?_ofRows_eq_some hrecord).2
  rw [Aliases.get?_pick_singleton hfind]
  refine ⟨Aliases.isSome_only?_ofRows_iff, hid, fun h hvisible => ?_,
    fun hhidden => ⟨?_, fun record hrecord => ?_⟩⟩
  · by_cases hrows : rows = []
    · rintro row - hrow
      rw [hrows] at hrow
      cases hrow
    · exact (h.isSome_iff.1 (Aliases.isSome_only?_ofRows_iff.2 ⟨hrows, hvisible⟩)).2
  · rw [Aliases.isSome_only?_ofRows_iff]
    refine and_congr_right fun _ =>
      ⟨hhidden, fun hone row row' hrow hrow' => hone row row' hrow.mem hrow'.mem⟩
  · obtain ⟨hne, hvisible⟩ := Aliases.isSome_only?_ofRows_iff.1 (Option.isSome_of_mem hrecord)
    obtain ⟨visible, hvisibleRow⟩ := exists_visible hne
    intro row hrow
    rw [← hid record hrecord visible hvisibleRow]
    exact hhidden hvisible row visible hrow hvisibleRow.mem

/-- Two names of one object. -/
def andromedaRows : List NameRow :=
  [⟨⟨"1575544", "M 31"⟩, "M 31".toList⟩, ⟨⟨"1575544", "M 31"⟩, "ANDROMEDA GALAXY".toList⟩]

theorem Aliases.pick_unambiguous_iff_of_nebula :
    (∀ row ∈ andromedaRows, tight row.nameKey ≠ tight (key "Andromeda Nebula")) ∧
    ((Aliases.ofRows andromedaRows).pick ["Andromeda Nebula"]).get? "Andromeda Nebula" =
      some ⟨"1575544", "M 31"⟩ ∧
    Unambiguous andromedaRows
      (((Aliases.ofRows andromedaRows).pick ["Andromeda Nebula"]).get? "Andromeda Nebula") := by
  have hname : ∀ row ∈ andromedaRows, tight row.nameKey ≠ tight (key "Andromeda Nebula") := by
    decide +kernel
  refine ⟨hname, by decide +kernel, (Aliases.pick_unambiguous_iff hname).2.2.2 fun _ => ?_⟩
  have hid : ∀ row ∈ andromedaRows, row.record.id = "1575544" := by decide
  exact fun row row' hrow hrow' => (hid row hrow).trans (hid row' hrow').symm

/-- An answer in which two objects have the same name. -/
def namesakePayload : Json :=
  .object [("data", .array
    [.array [.number (.int 1), .string "A", .string "A"], .array [.number (.int 2), .string "A",
      .string "A"]])]

/-- The object that another one hides is not asked: the name is given the other one. -/
theorem Aliases.pick_of_namesakePayload : ∃ rows, nameRows namesakePayload = .ok rows ∧
    (∀ row ∈ rows, tight row.nameKey ≠ tight (key "C")) ∧
    ((Aliases.ofRows rows).pick ["C"]).get? "C" = some ⟨"2", "A"⟩ ∧
    ¬Unambiguous rows (((Aliases.ofRows rows).pick ["C"]).get? "C") := by
  have hgiven :
      ((Aliases.ofRows [⟨⟨"1", "A"⟩, "A".toList⟩, ⟨⟨"2", "A"⟩, "A".toList⟩]).pick ["C"]).get? "C" =
      some ⟨"2", "A"⟩ := by decide +kernel
  refine ⟨[⟨⟨"1", "A"⟩, "A".toList⟩, ⟨⟨"2", "A"⟩, "A".toList⟩], by rfl, by decide +kernel,
    hgiven, fun h => ?_⟩
  have hid := h.id_eq _ hgiven _ List.mem_cons_self
  exact absurd hid (by decide)

end SkyResolver.Simbad
