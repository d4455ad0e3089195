import SkyResolver.Proofs.Service.Lookups
import SkyResolver.Service.Expand

/-! Each lookup of an expansion stands alone. Lookups of many names in many catalogs are under way
together over one cache; what comes of one of them is what comes of it without the others, whatever
becomes of these and in whatever order they finish. -/
namespace SkyResolver
open SkyResolver.Text

/-- What comes of asking a catalog about one name. -/
inductive NameOutcome where
  | late
  | failed (fault : CatalogFault)
  | unknown
  | known (record : SkyObject)

/-- The reply of a catalog that was asked about nothing but the name. -/
def NameOutcome.reply (name : String) : NameOutcome → Reply ObjectTable
  | .late => .late
  | .failed fault => .finished (.error fault)
  | .unknown => .finished (.ok .empty)
  | .known record => .finished (.ok ⟨[(name, record)]⟩)

/-- The record that is found, if one is. -/
def NameOutcome.record? : NameOutcome → Option SkyObject
  | .known record => some record
  | _ => none

/-- The catalogs answer about a single name as the outcome for the name in upper case says, with
records for no other name; a catalog that has not been set up cannot be asked. The clock never runs
backwards. -/
structure Service.Decided {σ : Type} (service : Service σ)
    (outcome : Catalog → List Char → NameOutcome) : Prop where
  asked : ∀ catalog client, service.catalogs catalog = some client → ∀ name world,
    (client.names [name] world).1 = (outcome catalog (upper name.toList)).reply name
  unset : ∀ catalog, service.catalogs catalog = none →
    ∀ name, outcome catalog name = .failed (.transport .notConfigured)
  clock_le : ∀ catalog client, service.catalogs catalog = some client → ∀ names world,
    service.clock world ≤ service.clock (client.names names world).2

section Independence
variable {σ : Type} {service : Service σ} {outcome : Catalog → List Char → NameOutcome}
  {catalog : Catalog} {name : String} {session : Session σ}

/-! ### One name -/

lemma Service.Decided.askNames (h : service.Decided outcome) (catalog : Catalog) (name : String)
    (world : σ) :
    (∃ found, (service.askNames catalog [name] world).1 = .ok found ∧
      found.entries = (outcome catalog (upper name.toList)).record?.toList.map fun record =>
        (name, record)) ∨
    ∃ fault, (service.askNames catalog [name] world).1 = .error fault ∧
      (outcome catalog (upper name.toList)).record? = none := by
  unfold Service.askNames
  cases hclient : service.catalogs catalog with
  | none =>
    rw [h.unset catalog hclient]
    exact .inr ⟨_, rfl, rfl⟩
  | some client =>
    have hanswer := congrArg (Reply.inTime client.timeout)
      (h.asked catalog client hclient name world)
    cases houtcome : outcome catalog (upper name.toList) with
    | late => rw [houtcome] at hanswer; exact .inr ⟨_, hanswer, rfl⟩
    | failed fault => rw [houtcome] at hanswer; exact .inr ⟨_, hanswer, rfl⟩
    | unknown => rw [houtcome] at hanswer; exact .inl ⟨_, hanswer, rfl⟩
    | known record => rw [houtcome] at hanswer; exact .inl ⟨_, hanswer, rfl⟩

lemma Service.Decided.clock_le_askNames (h : service.Decided outcome) (catalog : Catalog)
    (names : List String) (world : σ) :
    service.clock world ≤ service.clock (service.askNames catalog names world).2 := by
  unfold Service.askNames
  cases hclient : service.catalogs catalog with
  | none => exact Nat.le_refl _
  | some client => exact h.clock_le catalog client hclient names world

/-- The identifier that a name has when nothing but this name is looked up. -/
def Service.identifierAlone (service : Service σ) (catalog : Catalog) (name : String)
    (session : Session σ) : String :=
  identifierIn name ((service.findNames catalog [name]).run session).1

/-- It is that of the record in the cache, else that of the record that the catalog finds, else the
one that stands for an unknown object. -/
lemma Service.Decided.identifierAlone (h : service.Decided outcome) (catalog : Catalog)
    (name : String) (session : Session σ) : service.identifierAlone catalog name session =
      (((service.cachedRecord? session catalog name).or
        (outcome catalog (upper name.toList)).record?).map SkyObject.id).getD absentId := by
  change identifierIn name (service.findNames catalog [name] session).1 = _
  rw [result_findNames]
  cases hcached : service.cachedRecord? session catalog name with
  | some record =>
    rw [startLookup_of_cached hcached]
    simp [NameLookup.result, identifierIn, Table.get?]
  | none =>
    rw [startLookup_of_missing hcached]
    rcases h.askNames catalog name session.world with ⟨found, hanswer, hfound⟩ | ⟨fault,
      hanswer, hnone⟩
    · rw [hanswer, NameLookup.result]
      dsimp only
      rw [identifierIn, hfound]
      cases (outcome catalog (upper name.toList)).record? <;> simp [Table.insertAll]
    · rw [hanswer, hnone]
      rfl

/-! ### A cache that grows while lookups are under way -/

/-- The cache of the session as it grew out of another one: wherever it now finds something else,
that one has nothing and the catalog has the record that is found. -/
structure Service.Grown (service : Service σ) (outcome : Catalog → List Char → NameOutcome)
    (before : NameCache) (session : Session σ) : Prop where
  nodup : session.cache.table.keys.Nodup
  seen : ∀ catalog key later, service.clock session.world ≤ later →
    session.cache.get? later (catalog, key) = before.get? later (catalog, key) ∨
    before.get? later (catalog, key) = none ∧ ∃ record,
      (outcome catalog key).record? = some record ∧
        session.cache.get? later (catalog, key) = some record

variable {before : NameCache}

lemma Service.Grown.onWorld {α : Type} {step : StateM σ α}
    (h : service.Grown outcome before session)
    (hclock : service.clock session.world ≤ service.clock (step session.world).2) :
    service.Grown outcome before (SkyResolver.onWorld step session).2 where
  nodup := h.nodup
  seen catalog key later hlater := h.seen catalog key later (Nat.le_trans hclock hlater)

/-- What a catalog found for a name that was missing may be written into the cache. -/
lemma Service.Grown.insert (h : service.Grown outcome before session) {record : SkyObject}
    (hmissing : before.get? (service.clock session.world) (cacheKey catalog name) = none)
    (hrecord : (outcome catalog (upper name.toList)).record? = some record) :
    service.Grown outcome before { session with
      cache :=
  session.cache.insert (service.clock session.world) (cacheKey catalog name) record } where
  nodup := Cache.nodup_keys_insert h.nodup
  seen := by
    intro other key later hlater
    by_cases hkey : (other, key) = cacheKey catalog name
    · cases hkey
      have hbefore := Cache.get?_eq_none_of_le hlater hmissing
      rcases Cache.get?_insert_self_cases session.cache (service.clock session.world) later
        (cacheKey catalog name) record with hget | hget
      · exact .inl (hget.trans hbefore.symm)
      · exact .inr ⟨hbefore, record, hrecord, hget⟩
    · rw [Cache.get?_insert_of_ne h.nodup hlater hkey]
      exact h.seen other key later hlater

lemma Service.Grown.identifierAlone (h : service.Decided outcome)
    (hgrown : service.Grown outcome before session) (catalog : Catalog) (name : String) :
    service.identifierAlone catalog name session =
      service.identifierAlone catalog name ⟨before, session.world⟩ := by
  rw [h.identifierAlone, h.identifierAlone, Service.cachedRecord?, Service.cachedRecord?]
  rcases hgrown.seen catalog (upper name.toList) _ (Nat.le_refl _) with heq | ⟨hnone, record,
    hrecord, hget⟩
  · rw [cacheKey, heq]
  · rw [cacheKey, hget, hnone, hrecord]
    rfl

lemma Service.Decided.findNames_grown (h : service.Decided outcome) (catalog : Catalog)
    (name : String) (hgrown : service.Grown outcome before session) :
    service.Grown outcome before (service.startLookup catalog [name] session).2 ∧
      service.Grown outcome before (service.findNames catalog [name] session).2 := by
  change _ ∧ service.Grown outcome before
    (service.finishLookup (service.startLookup catalog [name] session).1
    (service.startLookup catalog [name] session).2).2
  cases hcached : service.cachedRecord? session catalog name with
  | some record =>
    rw [startLookup_of_cached hcached]
    exact ⟨hgrown, hgrown⟩
  | none =>
    rw [startLookup_of_missing hcached]
    have hclock := h.clock_le_askNames catalog [name] session.world
    have hasked :
        service.Grown outcome before (onWorld (service.askNames catalog [name]) session).2 :=
      hgrown.onWorld hclock
    refine ⟨hasked, ?_⟩
    rcases h.askNames catalog name session.world with ⟨found, hanswer, hfound⟩ | ⟨fault, hanswer, -⟩
    · rw [hanswer, Service.finishLookup]
      dsimp only
      cases hrecord : (outcome catalog (upper name.toList)).record? with
      | none =>
        rw [hrecord] at hfound
        rw [hfound]
        exact hasked
      | some record =>
        rw [hrecord] at hfound
        rw [hfound]
        refine hasked.insert (Cache.get?_eq_none_of_le hclock ?_) hrecord
        -- The name is missing now, so it was missing before anything was looked up.
        rcases hgrown.seen catalog (upper name.toList) _ (Nat.le_refl _) with heq | ⟨hnone, -⟩
        · exact heq.symm.trans hcached
        · exact hnone
    · rw [hanswer]
      exact hasked

lemma Service.Decided.startAmong_grown (h : service.Decided outcome) (late : List Nat)
    (item : (Catalog × String) × Nat) :
    Maintains (service.Grown outcome before) (fun _ => True) (service.startAmong late item) := by
  intro session hgrown
  refine ⟨trivial, ?_⟩
  obtain ⟨⟨catalog, name⟩, i⟩ := item
  obtain ⟨hstart, hfind⟩ := h.findNames_grown catalog name hgrown
  change service.Grown outcome before (service.startAmong late ((catalog, name), i) session).2
  by_cases hlate : i ∈ late
  · rw [startAmong_of_late hlate]
    exact hstart
  · rw [startAmong_of_not_late hlate]
    exact hfind

/-! ### All names -/

/-- The lookups of names in all target catalogs. -/
def Service.lookupsOf (service : Service σ) (names : List String) : List (Catalog × String) :=
  service.targets.flatMap fun catalog => names.map fun name => (catalog, name)

variable {names : List String}

lemma mem_lookupsOf :
    (catalog, name) ∈ service.lookupsOf names ↔ catalog ∈ service.targets ∧ name ∈ names := by
  simp [Service.lookupsOf]

lemma result_identifiersOf (service : Service σ) (names : List String) (session : Session σ) :
    (service.identifiersOf names session).1 =
    Table.ofList ((service.lookupsOf names).zipIdx.map fun (lookup, i) => (lookup,
      service.identifierAlone lookup.1 lookup.2
        (service.sessionAt (service.lookupsOf names) session i))) := by
  have hrun : (service.identifiersOf names session).1 = Table.ofList
      (((service.lookupsOf names).zip
        (service.lookupTogether (service.lookupsOf names) session).1).map
        fun found => (found.1, identifierIn found.1.2 found.2)) := rfl
  rw [hrun, result_lookupTogether]
  refine congrArg Table.ofList (List.ext_getElem? fun i => ?_)
  simp only [List.zip_eq_zipWith, List.getElem?_map, List.getElem?_zipWith, List.getElem?_zipIdx,
    Nat.zero_add]
  cases (service.lookupsOf names)[i]? <;> rfl

/-- The clock has not yet gone back behind a given time. -/
def Service.NotBefore (service : Service σ) (time : Nat) (session : Session σ) : Prop :=
  time ≤ service.clock session.world

lemma Service.Decided.startAmong_notBefore (h : service.Decided outcome) (late : List Nat)
    (item : (Catalog × String) × Nat) (time : Nat) :
    Maintains (service.NotBefore time) (fun _ => True) (service.startAmong late item) := by
  intro session htime
  refine ⟨trivial, ?_⟩
  obtain ⟨⟨catalog, name⟩, i⟩ := item
  change service.NotBefore time (service.startAmong late ((catalog, name), i) session).2
  have hstart : service.NotBefore time (service.startLookup catalog [name] session).2 := by
    rw [startLookup_run]
    split
    · exact htime
    · exact Nat.le_trans htime (h.clock_le_askNames catalog _ session.world)
  by_cases hlate : i ∈ late
  · rw [startAmong_of_late hlate]
    exact hstart
  · rw [startAmong_of_not_late hlate, Service.NotBefore]
    exact (congrArg service.clock (world_finishLookup service _ _)).symm ▸ hstart

/-- Each lookup starts while the lookups are under way. -/
lemma Service.Decided.clock_sessionAt (h : service.Decided outcome)
    (lookups : List (Catalog × String)) (session : Session σ) (i : Nat) :
    service.clock session.world ≤ service.clock (service.sessionAt lookups session i).world ∧
      service.clock (service.sessionAt lookups session i).world ≤
        service.clock (service.lookupTogether lookups session).2.world := by
  refine ⟨Maintains.stateAt (fun item _ => h.startAmong_notBefore _ item _) (Nat.le_refl _) i, ?_⟩
  rw [world_lookupTogether, ← run_mapM_drop _ _ _ i]
  exact (Maintains.mapM (fun item _ => h.startAmong_notBefore _ item _) _ (Nat.le_refl _)).2

lemma mem_keys_identifiersOf (service : Service σ) (names : List String) (session : Session σ) :
    (catalog, name) ∈ (service.identifiersOf names session).1.keys ↔
    catalog ∈ service.targets ∧ name ∈ names := by
  rw [result_identifiersOf, Table.ofList, Table.mem_keys_insertAll, ← mem_lookupsOf, List.map_map]
  have hkeys : ((service.lookupsOf names).zipIdx.map (Prod.fst ∘ fun (lookup, i) => (lookup,
      service.identifierAlone lookup.1 lookup.2
        (service.sessionAt (service.lookupsOf names) session i)))) = service.lookupsOf names :=
    List.zipIdx_map_fst 0 _
  rw [hkeys]
  exact or_iff_left List.not_mem_nil

/-- What the cache holds under a name when the lookups start, it still holds when they are over. -/
def Service.Lasting (service : Service σ) (names : List String) (session : Session σ)
    (catalog : Catalog) (name : String) : Prop :=
  service.cachedRecord? ⟨session.cache, (service.identifiersOf names session).2.world⟩
    catalog name =
    service.cachedRecord? session catalog name

/-- The identifier of a name is the one that it has alone, at the time at which its lookup starts
and over the cache as it was before any lookup. -/
lemma Service.Decided.exists_moment (h : service.Decided outcome)
    (hcache : session.cache.table.keys.Nodup) (hcatalog : catalog ∈ service.targets)
    (hname : name ∈ names) :
    ∃ moment, service.clock session.world ≤ service.clock moment ∧
      service.clock moment ≤ service.clock (service.identifiersOf names session).2.world ∧
      (service.identifiersOf names session).1.get? (catalog, name) =
        some (service.identifierAlone catalog name ⟨session.cache, moment⟩) := by
  have hsome := Table.isSome_get?_iff.2
    ((mem_keys_identifiersOf service names session).2 ⟨hcatalog, hname⟩)
  rw [result_identifiersOf] at hsome ⊢
  obtain ⟨id, hid⟩ := Option.isSome_iff_exists.1 hsome
  rcases Table.mem_insertAll (Table.mem_of_get? hid) with hmem | hmem
  · obtain ⟨⟨lookup, i⟩, -, hlookup⟩ := List.mem_map.1 hmem
    cases hlookup
    obtain ⟨hstart, hend⟩ := h.clock_sessionAt (service.lookupsOf names) session i
    refine ⟨_, hstart, hend, hid.trans (congrArg some ?_)⟩
    have hgrown : service.Grown outcome session.cache
        (service.sessionAt (service.lookupsOf names) session i) :=
      Maintains.stateAt (fun item _ => h.startAmong_grown _ item)
        ⟨hcache, fun _ _ _ _ => .inl rfl⟩ i
    exact hgrown.identifierAlone h catalog name
  · cases hmem

lemma Service.Decided.get?_identifiersOf (h : service.Decided outcome)
    (hcache : session.cache.table.keys.Nodup) (hcatalog : catalog ∈ service.targets)
    (hname : name ∈ names) (hlasting : service.Lasting names session catalog name) :
    (service.identifiersOf names session).1.get? (catalog, name) =
      some (service.identifierAlone catalog name session) := by
  obtain ⟨moment, hstart, hend, hid⟩ := h.exists_moment hcache hcatalog hname
  rw [hid, h.identifierAlone, h.identifierAlone]
  suffices hcached : service.cachedRecord? ⟨session.cache, moment⟩ catalog name =
      service.cachedRecord? session catalog name by rw [hcached]
  cases hnow : service.cachedRecord? session catalog name with
  | none => exact Cache.get?_eq_none_of_le hstart hnow
  | some record => exact Cache.get?_of_le hend (hlasting.trans hnow)

/-- The identifiers of an expansion stand each for itself. Every name has exactly one identifier for
every target: the one that it has when nothing but this name is looked up, at some time while the
lookups are under way; right away, if what the cache holds under the name lasts till they are over.
In that case it is the same in any other service with this outcome for this name, over any other
cache that holds the same under it, whatever becomes of all other names and in whatever order the
lookups finish. The caches are those without a key that stands twice, as any requests leave them
(`nodup_keys_after`). -/
theorem identifiersOf_independent (h : service.Decided outcome) (names : List String)
    (session : Session σ) (hcache : session.cache.table.keys.Nodup) :
    let identifiers := ((service.identifiersOf names).run session).1
    let finish := ((service.identifiersOf names).run session).2.world
    identifiers.keys.Nodup ∧
    (∀ catalog name, (catalog, name) ∈ identifiers.keys ↔ catalog ∈ service.targets ∧
      name ∈ names) ∧
    ∀ catalog ∈ service.targets, ∀ name ∈ names,
      (∃ moment, service.clock session.world ≤ service.clock moment ∧
        service.clock moment ≤ service.clock finish ∧
        identifiers.get? (catalog, name) =
          some (service.identifierAlone catalog name ⟨session.cache, moment⟩)) ∧
      (service.Lasting names session catalog name →
        identifiers.get? (catalog, name) = some (service.identifierAlone catalog name session) ∧
        ∀ {τ : Type} (other : Service τ) (outcome' : Catalog → List Char → NameOutcome)
          (names' : List String) (session' : Session τ), other.Decided outcome' →
          session'.cache.table.keys.Nodup → catalog ∈ other.targets → name ∈ names' →
          outcome' catalog (upper name.toList) = outcome catalog (upper name.toList) →
          other.cachedRecord? session' catalog name = service.cachedRecord? session catalog name →
          other.Lasting names' session' catalog name →
          ((other.identifiersOf names').run session').1.get? (catalog, name) =
            identifiers.get? (catalog, name)) := by
  refine ⟨Table.nodup_keys_insertAll .nil, fun _ _ => mem_keys_identifiersOf service names session,
    ?_⟩
  intro catalog hcatalog name hname
  refine ⟨h.exists_moment hcache hcatalog hname, fun hlasting => ?_⟩
  have hid := h.get?_identifiersOf hcache hcatalog hname hlasting
  refine ⟨hid, ?_⟩
  intro τ other outcome' names' session' hother hcache' hcatalog' hname' houtcome hcached hlasting'
  refine (hother.get?_identifiersOf hcache' hcatalog' hname' hlasting').trans (Eq.trans ?_ hid.symm)
  rw [hother.identifierAlone, h.identifierAlone, houtcome, hcached]

end Independence

/-- A service whose catalogs answer as decided; every call takes one unit of time, and every other
lookup finishes late, the last one first. -/
def Service.deciding (outcome : Catalog → List Char → NameOutcome) : Service Nat where
  targets := Catalog.all
  defaultRadius := 0.1
  catalogs catalog := some {
    maxRadius := 1.0
    maxResults := 1
    timeout := .ofSeconds 1
    names := fun asked world =>
      (asked.head?.elim .late fun name => (outcome catalog (upper name.toList)).reply name,
        world + 1)
    lookup := fun _ => pure .late
    identifiers := fun _ => pure .late
    cone := fun _ _ _ => pure .late }
  index := none
  verifyCones := false
  currentYear := 2024
  clock world := world
  overtaken count := ((List.range count).filter (· % 2 = 0)).reverse

lemma deciding_decided (outcome : Catalog → List Char → NameOutcome) :
    (Service.deciding outcome).Decided outcome where
  asked := by
    rintro catalog client ⟨⟩ name world
    rfl
  unset := by rintro catalog ⟨⟩
  clock_le := by
    rintro catalog client ⟨⟩ names world
    exact Nat.le_succ world

/-- SIMBAD knows one object and fails for another one, NED the other way round. -/
def mixedOutcome : Catalog → List Char → NameOutcome
  | .simbad, ['M', '3', '1'] => .known ⟨"1575544", "M 31"⟩
  | .simbad, ['L', 'M', 'C'] => .failed (.httpStatus 500)
  | .ned, ['L', 'M', 'C'] => .known ⟨"LMC", "LMC"⟩
  | .ned, ['M', '3', '1'] => .late
  | _, _ => .unknown

/-- A session with nothing in its cache. -/
def freshSession : Session Nat := ⟨Cache.empty (.ofSeconds 1), 0⟩

theorem identifiersOf_independent_of_mixed :
    (Service.deciding mixedOutcome).Decided mixedOutcome ∧ freshSession.cache.table.keys.Nodup ∧
    ((Service.deciding mixedOutcome).identifiersOf ["m31", "M31", "lmc",
      "x"] freshSession).1.entries.map
      Prod.snd = ["1575544", "1575544", "0", "0", "0", "0", "LMC", "0"] ∧
    (Service.deciding mixedOutcome).Lasting ["m31", "M31", "lmc", "x"] freshSession .ned "lmc" ∧
    ((Service.deciding mixedOutcome).identifiersOf ["m31", "M31", "lmc", "x"] freshSession).1.get?
      (.ned, "lmc") = some ((Service.deciding mixedOutcome).identifierAlone .ned "lmc"
        freshSession) := by
  have hdecided := deciding_decided mixedOutcome
  have hlasting : (Service.deciding mixedOutcome).Lasting ["m31", "M31", "lmc", "x"] freshSession
      .ned "lmc" := by
    unfold Service.Lasting
    decide +kernel
  have hindependent := identifiersOf_independent hdecided ["m31", "M31", "lmc",
    "x"] freshSession .nil
  obtain ⟨-, -, heach⟩ := hindependent
  exact ⟨hdecided, .nil, by decide +kernel, hlasting,
    ((heach .ned (by decide) "lmc" (by decide)).2 hlasting).1⟩

end SkyResolver
