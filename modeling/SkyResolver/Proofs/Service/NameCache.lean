import SkyResolver.Proofs.Service.Lookups
import SkyResolver.Service.Answer

/-! The cache of names, seen from outside. Where the catalogs answer name by name and always the
same, every entry of the cache holds what its catalog answers. So a request is answered from a cache
that has grown over many requests as it is answered from an empty one. -/
namespace SkyResolver
open SkyResolver.Query SkyResolver.Text

/-! ### Steady catalogs -/

/-- The record that a catalog has for a name in upper case. -/
abbrev Knowledge := Catalog → List Char → Option SkyObject

/-- The catalogs answer without fault and name by name, case ignored, with what is known; these and
all other answers do not depend on the state of the world. -/
structure Service.Steady {σ : Type} (service : Service σ) (known : Knowledge) : Prop where
  names : ∀ catalog client, service.catalogs catalog = some client → ∀ asked world, ∃ found,
    (client.names asked world).1 = .finished (.ok found) ∧ ∀ name record,
      (name, record) ∈ found.entries ↔
        name ∈ asked ∧ known catalog (upper name.toList) = some record
  identifiers : ∀ catalog client, service.catalogs catalog = some client →
    ∀ ids, ∃ reply, ∀ world, (client.identifiers ids world).1 = reply
  cone : ∀ catalog client, service.catalogs catalog = some client →
    ∀ place radius limit, ∃ reply, ∀ world, (client.cone place radius limit world).1 = reply
  verify : ∀ index, service.index = some index →
    ∀ field ids, ∃ answer, ∀ world, (index.verify field ids world).1 = answer

section Knowledge
variable {σ : Type} (service : Service σ) (known : Knowledge)

/-- Every entry of the cache is what its catalog has for the name; no other catalogs have entries.
-/
def Service.Faithful (cache : NameCache) : Prop :=
  ∀ entry ∈ cache.table.entries, (service.catalogs entry.1.1).isSome ∧
    known entry.1.1 entry.1.2 = some entry.2.value

/-- The cache of the session is faithful; this is what every step keeps. -/
abbrev Service.Consistent (session : Session σ) : Prop := service.Faithful known session.cache

/-- Every record of the table is what the catalog has for its name. -/
def Service.Vouched (catalog : Catalog) (table : ObjectTable) : Prop :=
  ∀ entry ∈ table.entries, (service.catalogs catalog).isSome ∧
    known catalog (upper entry.1.toList) = some entry.2

/-- What comes of a lookup: the records that are known, or nothing where no catalog has been set up.
-/
def Service.Answers (catalog : Catalog) (names : List String) :
    Except CatalogFault ObjectTable → Prop
  | .ok found => ∀ name ∈ names, (service.catalogs catalog).isSome ∧
    found.get? name = known catalog (upper name.toList)
  | .error fault => fault = .transport .notConfigured ∧ service.catalogs catalog = none ∧ names ≠ []

/-- A lookup that has started: what is in the cache and what was asked for make up what is known. -/
structure Service.Pending (catalog : Catalog) (names : List String) (lookup : NameLookup) :
    Prop where
  catalog_eq : lookup.catalog = catalog
  cached : service.Vouched known catalog lookup.cached
  complete : lookup.asked = none → ∀ name ∈ names, (lookup.cached.get? name).isSome
  found : ∀ found, lookup.asked = some (.ok found) → (service.catalogs catalog).isSome ∧
    service.Vouched known catalog found ∧
    ∀ name ∈ names, (known catalog (upper name.toList)).isSome →
      (∃ record, (name, record) ∈ found.entries) ∨ (lookup.cached.get? name).isSome
  fault : ∀ fault, lookup.asked = some (.error fault) →
    fault = .transport .notConfigured ∧ service.catalogs catalog = none ∧ names ≠ []

end Knowledge

section Lookups
variable {σ : Type} {service : Service σ} {known : Knowledge} {catalog : Catalog}
  {names : List String} {cache : NameCache}

/-! ### The cache -/

lemma faithful_empty (ttl : Duration) : service.Faithful known (Cache.empty ttl) := by
  intro entry hentry
  cases hentry

lemma Service.Faithful.get? (h : service.Faithful known cache) {now : Nat} {name : String}
    {record : SkyObject} (hget : cache.get? now (cacheKey catalog name) = some record) :
    (service.catalogs catalog).isSome ∧ known catalog (upper name.toList) = some record := by
  obtain ⟨entry, hentry, rfl⟩ := Option.map_eq_some_iff.1 hget
  exact h _ (Table.mem_of_get? (Option.filter_eq_some_iff.1 hentry).1)

/-- What a catalog has found may be written into the cache. -/
lemma Service.Faithful.remember (h : service.Faithful known cache) (now : Nat) {table : ObjectTable}
    (htable : service.Vouched known catalog table) :
    service.Faithful known (remember cache now catalog table.entries) :=
  forall_mem_remember
    (fun key record => (service.catalogs key.1).isSome ∧ known key.1 key.2 = some record)
    (fun _ _ hrecord => htable _ hrecord) h

/-! ### One lookup -/

lemma Service.Steady.askNames (h : service.Steady known) (catalog : Catalog) (names : List String)
    (world : σ) :
    (∃ found, (service.askNames catalog names world).1 = .ok found ∧
      (service.catalogs catalog).isSome ∧ ∀ name record, (name, record) ∈ found.entries ↔
        name ∈ names ∧ known catalog (upper name.toList) = some record) ∨
    ((service.askNames catalog names world).1 = .error (.transport .notConfigured) ∧
      service.catalogs catalog = none) := by
  unfold Service.askNames
  cases hclient : service.catalogs catalog with
  | none => exact .inr ⟨rfl, rfl⟩
  | some client =>
    obtain ⟨found, hreply, hfound⟩ := h.names catalog client hclient names world
    refine .inl ⟨found, ?_, rfl, hfound⟩
    exact congrArg (Reply.inTime client.timeout) hreply

lemma cachedRecords_vouched {session : Session σ} (h : service.Faithful known session.cache)
    (catalog : Catalog) (names : List String) :
    service.Vouched known catalog (service.cachedRecords session catalog names) := by
  intro entry hentry
  rcases Table.mem_insertAll hentry with hentry | hentry
  · obtain ⟨⟨name, found⟩, hname, hfound⟩ := List.mem_filterMap.1 hentry
    obtain ⟨_, -, hget⟩ := List.mem_map.1 hname
    cases hget
    obtain ⟨record, hrecord, rfl⟩ := Option.map_eq_some_iff.1 hfound
    exact h.get? hrecord
  · cases hentry

/-- A lookup starts with what is in the cache, which is known, and asks for the rest. -/
theorem Service.Steady.startLookup (h : service.Steady known) (catalog : Catalog)
    (names : List String) : Maintains (service.Consistent known)
      (service.Pending known catalog names) (service.startLookup catalog names) := by
  intro session hsession
  have hcached := cachedRecords_vouched hsession catalog names
  rw [StateT.run, startLookup_run]
  cases hmissing : service.missing session catalog names with
  | nil =>
    refine ⟨⟨rfl, hcached, fun _ name hname => ?_, by simp, by simp⟩, hsession⟩
    exact isSome_cachedRecords hname (by simp [hmissing])
  | cons miss misses =>
    dsimp only
    rcases h.askNames catalog (miss :: misses) session.world with
      ⟨found, hanswer, hclient, hfound⟩ | ⟨hanswer, hclient⟩
    · rw [hanswer]
      refine ⟨⟨rfl, hcached, by simp, ?_, by simp⟩, hsession⟩
      rintro _ ⟨⟩
      refine ⟨hclient, fun entry hentry => ⟨hclient, ((hfound _ _).1 hentry).2⟩, ?_⟩
      intro name hname hknown
      obtain ⟨record, hrecord⟩ := Option.isSome_iff_exists.1 hknown
      -- Only the names that are not in the cache have been asked for.
      by_cases hmiss : name ∈ miss :: misses
      · exact .inl ⟨record, (hfound name record).2 ⟨hmiss, hrecord⟩⟩
      · exact .inr (isSome_cachedRecords hname (by rwa [hmissing]))
    · rw [hanswer]
      refine ⟨⟨rfl, hcached, by simp, by simp, ?_⟩, hsession⟩
      rintro _ ⟨⟩
      have hmiss : miss ∈ service.missing session catalog names := by simp [hmissing]
      exact ⟨rfl, hclient, List.ne_nil_of_mem (mem_of_missing hmiss)⟩

lemma get?_eq_known {table : ObjectTable} (htable : service.Vouched known catalog table)
    {name : String} (hknown : (known catalog (upper name.toList)).isSome →
      (table.get? name).isSome) :
    table.get? name = known catalog (upper name.toList) := by
  cases hget : table.get? name with
  | some record => exact (htable _ (Table.mem_of_get? hget)).2.symm
  | none =>
    rw [hget] at hknown
    exact (Option.not_isSome_iff_eq_none.1 fun h => nomatch hknown h).symm

/-- A lookup ends with what is known about all its names, and the cache is as faithful as before. -/
theorem Service.Pending.finishLookup {lookup : NameLookup}
    (h : service.Pending known catalog names lookup) :
    Maintains (service.Consistent known) (service.Answers known catalog names)
      (service.finishLookup lookup) := by
  intro session hsession
  unfold Service.finishLookup
  rcases hasked : lookup.asked with _ | fault | found
  · refine ⟨fun name hname => ?_, hsession⟩
    have hcached := h.complete hasked name hname
    obtain ⟨record, hrecord⟩ := Option.isSome_iff_exists.1 hcached
    exact ⟨(h.cached _ (Table.mem_of_get? hrecord)).1, get?_eq_known h.cached fun _ => hcached⟩
  · exact ⟨h.fault fault hasked, hsession⟩
  · obtain ⟨hclient, hvouched, hcomplete⟩ := h.found found hasked
    have hall : service.Vouched known catalog (lookup.cached.insertAll found.entries) := by
      intro entry hentry
      rcases Table.mem_insertAll hentry with hentry | hentry
      · exact hvouched entry hentry
      · exact h.cached entry hentry
    refine ⟨fun name hname => ⟨hclient, get?_eq_known hall fun hknown => ?_⟩, ?_⟩
    · exact Table.isSome_get?_insertAll (hcomplete name hname hknown)
    · rw [h.catalog_eq]
      exact hsession.remember _ hvouched

theorem Service.Steady.findNames (h : service.Steady known) (catalog : Catalog)
    (names : List String) :
    Maintains (service.Consistent known) (service.Answers known catalog names)
      (service.findNames catalog names) :=
  (h.startLookup catalog names).bind fun _ hlookup => hlookup.finishLookup

end Lookups

end SkyResolver
