import SkyResolver.Proofs.Cache.Expiry
import SkyResolver.Proofs.Service.Steps
import SkyResolver.Service.Names

/-! Lookups that are under way together. What comes of a lookup is settled when it starts, however
late it finishes and whatever finishes before it; so the results are those of the lookups made one
at a time, each in the session in which it starts. -/
namespace SkyResolver

/-- What comes of a lookup that has started. -/
def NameLookup.result (lookup : NameLookup) : Except CatalogFault ObjectTable :=
  match lookup.asked with
  | none => .ok lookup.cached
  | some (.error fault) => .error fault
  | some (.ok found) => .ok (lookup.cached.insertAll found.entries)

/-- What every single write into the cache keeps is kept when a catalog's records are written. -/
lemma remember_keeps (kept : NameCache → Prop) {now : Nat} {catalog : Catalog}
    {found : List (String × SkyObject)} {cache : NameCache}
    (hinsert : ∀ name record cache, (name, record) ∈ found → kept cache →
      kept (cache.insert now (cacheKey catalog name) record)) (hcache : kept cache) :
    kept (remember cache now catalog found) := by
  induction found generalizing cache with
  | nil => exact hcache
  | cons entry found ih =>
    refine ih (fun name record cache hentry => ?_) (hinsert _ _ _ List.mem_cons_self hcache)
    exact hinsert name record cache (List.mem_cons_of_mem _ hentry)

lemma forall_mem_remember (holds : Catalog × List Char → SkyObject → Prop) {now : Nat}
    {catalog : Catalog} {found : List (String × SkyObject)} {cache : NameCache}
    (hfound : ∀ name record, (name, record) ∈ found → holds (cacheKey catalog name) record)
    (hcache : ∀ entry ∈ cache.table.entries, holds entry.1 entry.2.value) :
    ∀ entry ∈ (remember cache now catalog found).table.entries, holds entry.1 entry.2.value :=
  remember_keeps (fun cache => ∀ entry ∈ cache.table.entries, holds entry.1 entry.2.value)
    (fun name record _ hrecord h => Cache.forall_mem_insert holds h (hfound name record hrecord))
    hcache

section Together
variable {σ : Type} (service : Service σ)

/-! ### Results -/

lemma result_finishLookup (lookup : NameLookup) (session : Session σ) :
    (service.finishLookup lookup session).1 = lookup.result := by
  unfold Service.finishLookup NameLookup.result
  rcases lookup.asked with _ | _ | _ <;> rfl

lemma world_finishLookup (lookup : NameLookup) (session : Session σ) :
    (service.finishLookup lookup session).2.world = session.world := by
  unfold Service.finishLookup
  rcases lookup.asked with _ | _ | _ <;> rfl

lemma result_findNames (catalog : Catalog) (names : List String) (session : Session σ) :
    (service.findNames catalog names session).1 =
      (service.startLookup catalog names session).1.result :=
  result_finishLookup service _ _

/-! ### The start of a lookup -/

/-- What the cache of a session holds under a name. -/
def Service.cachedRecord? (session : Session σ) (catalog : Catalog) (name : String) :
    Option SkyObject :=
  session.cache.get? (service.clock session.world) (cacheKey catalog name)

/-- The names that are not in the cache. -/
def Service.missing (session : Session σ) (catalog : Catalog) (names : List String) : List String :=
  (names.map fun name => (name, service.cachedRecord? session catalog name)).filterMap
    fun (name, found) => if found.isSome then none else some name

/-- The records that are in the cache. -/
def Service.cachedRecords (session : Session σ) (catalog : Catalog) (names : List String) :
    ObjectTable :=
  Table.ofList ((names.map fun name => (name, service.cachedRecord? session catalog name)).filterMap
    fun (name, found) => found.map fun record => (name, record))

lemma startLookup_run (catalog : Catalog) (names : List String) (session : Session σ) :
    service.startLookup catalog names session =
      match service.missing session catalog names with
      | [] => (⟨catalog, service.cachedRecords session catalog names, none⟩, session)
      | misses => (⟨catalog, service.cachedRecords session catalog names,
          some (service.askNames catalog misses session.world).1⟩,
          (onWorld (service.askNames catalog misses) session).2) := by
  change (service.startLookup catalog names).run session = _
  cases hmissing : service.missing session catalog names <;>
  · unfold Service.missing Service.cachedRecord? at hmissing
    simp only [Service.startLookup, StateT.run_bind, StateT.run_get, pure_bind, hmissing]
    rfl

/-- Nothing is written into the cache before a lookup finishes. -/
lemma cache_startLookup (catalog : Catalog) (names : List String) (session : Session σ) :
    (service.startLookup catalog names session).2.cache = session.cache := by
  rw [startLookup_run]
  split <;> rfl

section Start
variable {service} {session : Session σ} {catalog : Catalog} {names : List String} {name : String}

lemma isSome_cachedRecords (hname : name ∈ names)
    (hmissing : name ∉ service.missing session catalog names) :
    ((service.cachedRecords session catalog names).get? name).isSome := by
  cases hget : service.cachedRecord? session catalog name with
  | none =>
    refine absurd (List.mem_filterMap.2 ⟨_, List.mem_map_of_mem hname, ?_⟩) hmissing
    simp [hget]
  | some record =>
    refine Table.isSome_get?_insertAll (.inl ⟨record, ?_⟩)
    refine List.mem_filterMap.2 ⟨_, List.mem_map_of_mem hname, ?_⟩
    simp [hget]

lemma mem_of_missing (h : name ∈ service.missing session catalog names) : name ∈ names := by
  obtain ⟨⟨_, found⟩, hmem, hfound⟩ := List.mem_filterMap.1 h
  obtain ⟨_, hname, hpair⟩ := List.mem_map.1 hmem
  cases hpair
  dsimp only at hfound
  split at hfound
  · cases hfound
  · cases hfound
    exact hname

lemma startLookup_of_cached {record : SkyObject}
    (h : service.cachedRecord? session catalog name = some record) :
    service.startLookup catalog [name] session = (⟨catalog, ⟨[(name, record)]⟩, none⟩,
      session) := by
  have hmissing : service.missing session catalog [name] = [] := by simp [Service.missing, h]
  rw [startLookup_run, hmissing, Service.cachedRecords, List.map_singleton, h]
  rfl

lemma startLookup_of_missing (h : service.cachedRecord? session catalog name = none) :
    service.startLookup catalog [name] session =
      (⟨catalog, .empty, some (service.askNames catalog [name] session.world).1⟩,
        (onWorld (service.askNames catalog [name]) session).2) := by
  have hmissing : service.missing session catalog [name] = [name] := by simp [Service.missing, h]
  rw [startLookup_run, hmissing, Service.cachedRecords, List.map_singleton, h]
  rfl

end Start

/-! ### Lookups under way together -/

/-- Of several lookups, those that have to wait, in the order of finishing. -/
def Service.late (count : Nat) : List Nat := (distinct (service.overtaken count)).filter (· < count)

variable (lookups : List (Catalog × String)) (session : Session σ)

/-- The session in which the `i`-th of several lookups starts: those before it have started, and
those of them that do not have to wait have finished. -/
def Service.sessionAt (i : Nat) : Session σ :=
  stateAt (service.startAmong (service.late lookups.length)) lookups.zipIdx session i

variable {service lookups session}

lemma startAmong_of_late {late : List Nat} {lookup : Catalog × String} {i : Nat} (h : i ∈ late) :
    service.startAmong late (lookup, i) session =
      (.waiting (service.startLookup lookup.1 [lookup.2] session).1,
        (service.startLookup lookup.1 [lookup.2] session).2) := by
  obtain ⟨catalog, name⟩ := lookup
  simp only [Service.startAmong, if_pos h]
  rfl

lemma startAmong_of_not_late {late : List Nat} {lookup : Catalog × String} {i : Nat}
    (h : i ∉ late) :
    service.startAmong late (lookup, i) session =
      (.done (service.findNames lookup.1 [lookup.2] session).1,
        (service.findNames lookup.1 [lookup.2] session).2) := by
  obtain ⟨catalog, name⟩ := lookup
  simp only [Service.startAmong, if_neg h]
  rfl

/-- What comes of a lookup among others, given what came of those that had to wait. -/
def Service.Started.resultAmong (finished : List (Nat × Except CatalogFault ObjectTable))
    (i : Nat) :
    Service.Started → Except CatalogFault ObjectTable
  | .done result => result
  | .waiting lookup => (finished.lookup i).getD (.ok lookup.cached)

lemma exists_lookup {post : Nat → Nat × Except CatalogFault ObjectTable → Prop} {late : List Nat}
    {finished : List (Nat × Except CatalogFault ObjectTable)} (h : List.Forall₂ post late finished)
    (hpost : ∀ i f, post i f → f.1 = i) {i : Nat} (hi : i ∈ late) :
    ∃ result, finished.lookup i = some result ∧ post i (i, result) := by
  induction h with
  | nil => cases hi
  | @cons j f late finished hf _ ih =>
    obtain ⟨j', result⟩ := f
    obtain rfl : j' = j := hpost j _ hf
    by_cases hij : i = j'
    · subst hij
      exact ⟨result, by simp, hf⟩
    · obtain ⟨result', hlookup, hresult'⟩ := ih ((List.mem_cons.1 hi).resolve_left hij)
      have hne : (i == j') = false := by simpa using hij
      exact ⟨result', by simpa [List.lookup_cons, hne] using hlookup, hresult'⟩

variable (service) in
lemma finishLate_result (started : List Service.Started) (i : Nat) :
    Maintains (fun _ : Session σ => True)
      (fun finished => finished.1 = i ∧
        ∀ lookup, started[i]? = some (.waiting lookup) → finished.2 = lookup.result)
      (service.finishLate started i) := by
  unfold Service.finishLate
  intro session _
  refine ⟨?_, trivial⟩
  cases hs : started[i]? with
  | none => exact ⟨rfl, nofun⟩
  | some s =>
    cases s with
    | done result => exact ⟨rfl, nofun⟩
    | waiting lookup =>
      refine ⟨rfl, ?_⟩
      rintro _ ⟨⟩
      exact result_finishLookup service lookup session

variable (service lookups session) in
/-- The result of each of several lookups is that of the lookup made by itself in the session in
which it starts. -/
theorem result_lookupTogether : (service.lookupTogether lookups session).1 =
    lookups.zipIdx.map fun (lookup, i) =>
      (service.findNames lookup.1 [lookup.2] (service.sessionAt lookups session i)).1 := by
  let late := service.late lookups.length
  let started := lookups.zipIdx.mapM (service.startAmong late) session
  let finished := late.mapM (service.finishLate started.1) started.2
  have hfinished : List.Forall₂ (fun i finished => finished.1 = i ∧
      ∀ lookup, started.1[i]? = some (.waiting lookup) → finished.2 = lookup.result)
      late finished.1 :=
    (Maintains.mapM (fun i _ => finishLate_result service started.1 i) started.2 trivial).1
  have hrun : (service.lookupTogether lookups session).1 =
      started.1.zipIdx.map fun item => item.1.resultAmong finished.1 item.2 := rfl
  rw [hrun]
  refine List.ext_getElem? fun i => ?_
  have hstarted : started.1[i]? = lookups.zipIdx[i]?.map fun item =>
      (service.startAmong late item (service.sessionAt lookups session i)).1 :=
    getElem?_mapM _ _ _ i
  simp only [List.getElem?_map, List.getElem?_zipIdx, Nat.zero_add, Option.map_map] at hstarted ⊢
  cases hi : lookups[i]? with
  | none => rw [hstarted, hi]; rfl
  | some lookup =>
    rw [hi] at hstarted
    by_cases hlate : i ∈ late
    · simp only [Option.map_some, Function.comp_apply, startAmong_of_late hlate] at hstarted ⊢
      obtain ⟨result, hlookup, -, hresult⟩ := exists_lookup hfinished (fun _ _ h => h.1) hlate
      rw [hstarted, result_findNames, ← hresult _ hstarted]
      simp only [Option.map_some, Function.comp_apply, Service.Started.resultAmong, hlookup,
        Option.getD_some]
    · simp only [Option.map_some, Function.comp_apply, startAmong_of_not_late hlate] at hstarted ⊢
      rw [hstarted]
      rfl

variable (service lookups session) in
/-- Nothing is asked any more when all lookups have started. -/
lemma world_lookupTogether : (service.lookupTogether lookups session).2.world =
    (lookups.zipIdx.mapM (service.startAmong (service.late lookups.length)) session).2.world := by
  let late := service.late lookups.length
  let started := lookups.zipIdx.mapM (service.startAmong late) session
  have hfinish : ∀ i, Maintains (fun session : Session σ => session.world = started.2.world)
      (fun _ => True) (service.finishLate started.1 i) := by
    intro i session hworld
    refine ⟨trivial, ?_⟩
    unfold Service.finishLate
    rcases started.1[i]? with _ | _ | lookup
    · exact hworld
    · exact hworld
    · exact (world_finishLookup service lookup session).trans hworld
  exact (Maintains.mapM (l := late) (fun i _ => hfinish i) started.2 rfl).2

/-! ### Invariants -/

/-- What makes a property of sessions one that lookups under way together keep. Between the start
and the end of a lookup others may start and finish; `pending` is what holds of it all that time. -/
structure Service.Conserves (service : Service σ) (inv : Session σ → Prop)
    (pending : NameLookup → Session σ → Prop) : Prop where
  start : ∀ catalog names session, inv session →
    inv (service.startLookup catalog names session).2 ∧
      pending (service.startLookup catalog names session).1
      (service.startLookup catalog names session).2
  finish : ∀ lookup session, inv session → pending lookup session →
    inv (service.finishLookup lookup session).2
  start_other : ∀ lookup catalog names session, pending lookup session →
    pending lookup (service.startLookup catalog names session).2
  finish_other : ∀ lookup other session, pending lookup session →
    pending lookup (service.finishLookup other session).2

variable {inv : Session σ → Prop} {pending : NameLookup → Session σ → Prop}

lemma Service.Conserves.findNames (h : service.Conserves inv pending) (catalog : Catalog)
    (names : List String) : Maintains inv (fun _ => True) (service.findNames catalog names) := by
  intro session hsession
  obtain ⟨hstart, hpending⟩ := h.start catalog names session hsession
  exact ⟨trivial, h.finish _ _ hstart hpending⟩

lemma Service.Conserves.startAmong (h : service.Conserves inv pending) (late : List Nat)
    (item : (Catalog × String) × Nat) (hsession : inv session) :
    inv (service.startAmong late item session).2 ∧
      ∀ lookup, (service.startAmong late item session).1 = .waiting lookup →
        pending lookup (service.startAmong late item session).2 := by
  obtain ⟨⟨catalog, name⟩, i⟩ := item
  by_cases hlate : i ∈ late
  · rw [startAmong_of_late hlate]
    obtain ⟨hstart, hpending⟩ := h.start catalog [name] session hsession
    refine ⟨hstart, ?_⟩
    rintro _ ⟨⟩
    exact hpending
  · rw [startAmong_of_not_late hlate]
    exact ⟨(h.findNames catalog [name] session hsession).2, nofun⟩

lemma Service.Conserves.startAmong_other (h : service.Conserves inv pending) (late : List Nat)
    (item : (Catalog × String) × Nat) (lookup : NameLookup) :
    Maintains (pending lookup) (fun _ => True) (service.startAmong late item) := by
  intro session hpending
  refine ⟨trivial, ?_⟩
  obtain ⟨⟨catalog, name⟩, i⟩ := item
  have hstart := h.start_other lookup catalog [name] session hpending
  change pending lookup (service.startAmong late ((catalog, name), i) session).2
  by_cases hlate : i ∈ late
  · rw [startAmong_of_late hlate]
    exact hstart
  · rw [startAmong_of_not_late hlate]
    exact h.finish_other _ _ _ hstart

lemma Service.Conserves.mapM_startAmong (h : service.Conserves inv pending) (late : List Nat)
    (items : List ((Catalog × String) × Nat)) (hsession : inv session) :
    inv (items.mapM (service.startAmong late) session).2 ∧
      ∀ lookup, .waiting lookup ∈ (items.mapM (service.startAmong late) session).1 →
        pending lookup (items.mapM (service.startAmong late) session).2 := by
  induction items generalizing session with
  | nil => exact ⟨hsession, nofun⟩
  | cons item items ih =>
    rw [run_mapM_cons]
    obtain ⟨hitem, hwaiting⟩ := h.startAmong late item hsession
    obtain ⟨hitems, hothers⟩ := ih hitem
    refine ⟨hitems, fun lookup hlookup => ?_⟩
    rcases List.mem_cons.1 hlookup with heq | hlookup
    · -- The first lookup stays as it is while the others start.
      exact (Maintains.mapM (fun item _ => h.startAmong_other late item lookup) _
        (hwaiting lookup heq.symm)).2
    · exact hothers lookup hlookup

lemma Service.Conserves.sessionAt (h : service.Conserves inv pending)
    (lookups : List (Catalog × String)) (hsession : inv session) (i : Nat) :
    inv (service.sessionAt lookups session i) :=
  (h.mapM_startAmong _ (lookups.zipIdx.take i) hsession).1

/-- Lookups under way together keep what each of them keeps. -/
theorem Service.Conserves.lookupTogether (h : service.Conserves inv pending)
    (lookups : List (Catalog × String)) :
    Maintains inv (fun _ => True) (service.lookupTogether lookups) := by
  intro session hsession
  refine ⟨trivial, ?_⟩
  let late := service.late lookups.length
  let started := lookups.zipIdx.mapM (service.startAmong late) session
  have hfinish : ∀ i, Maintains
      (fun session => inv session ∧ ∀ lookup, .waiting lookup ∈ started.1 → pending lookup session)
      (fun _ => True) (service.finishLate started.1 i) := by
    intro i session ⟨hsession, hwaiting⟩
    refine ⟨trivial, ?_⟩
    unfold Service.finishLate
    cases hs : started.1[i]? with
    | none => exact ⟨hsession, hwaiting⟩
    | some s =>
      cases s with
      | done result => exact ⟨hsession, hwaiting⟩
      | waiting lookup =>
        have hlookup := hwaiting lookup (List.mem_of_getElem? hs)
        exact ⟨h.finish _ _ hsession hlookup,
          fun other hother => h.finish_other _ _ _ (hwaiting other hother)⟩
  have hstarted := h.mapM_startAmong late lookups.zipIdx hsession
  exact (Maintains.mapM (l := late) (fun i _ => hfinish i) started.2 hstarted).2.1

end Together

end SkyResolver
