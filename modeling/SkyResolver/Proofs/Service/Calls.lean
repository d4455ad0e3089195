import Mathlib.Data.List.Nodup
import SkyResolver.Proofs.Query.Places
import SkyResolver.Proofs.Service.Independence
import SkyResolver.Proofs.Service.Logs
import SkyResolver.Proofs.Service.Refusals
import SkyResolver.Proofs.Service.Transparency
import SkyResolver.Service.Setup

/-! The calls of an expansion. Each clause with a position is one search around it, which asks every
catalog at most once; each other name is asked for by itself, once in every target catalog, unless
it is in the cache by then. Nothing else is asked. -/
namespace SkyResolver
open SkyResolver.Query SkyResolver.Text

/-- The catalog that is called. -/
def Call.catalog? : Call → Option Catalog
  | .names catalog _ => some catalog
  | .identifiers catalog _ => some catalog
  | .cone catalog _ _ _ => some catalog
  | .verify _ _ => none
  | .search _ => none

/-- True for a call that asks the catalog about the name. -/
def Call.asks (catalog : Catalog) (name : String) : Call → Bool
  | .names other asked => decide (other = catalog) && asked.contains name
  | _ => false

lemma exists_names_of_asks {catalog : Catalog} {name : String} {call : Call}
    (h : call.asks catalog name = true) : ∃ asked, call = .names catalog asked := by
  cases call <;> simp_all [Call.asks]

lemma asks_names {lookup : Catalog × String} {catalog : Catalog} {name : String} :
    (Call.names lookup.1 [lookup.2]).asks catalog name = true ↔ lookup = (catalog, name) := by
  simp only [Call.asks, Bool.and_eq_true, decide_eq_true_eq, List.contains_iff_mem,
    List.mem_singleton, Prod.ext_iff]
  exact and_congr_right fun _ => eq_comm

/-! ### Cone searches -/

section Searches
variable {σ : Type} (service : Service σ)

/-- The call that asks a catalog, if it has been set up, for the objects around a position. -/
def Service.coneCall? (position : Position) (catalog : Catalog) : Option Call :=
  (service.catalogs catalog).map fun client =>
    .cone catalog (position.limited client.maxRadius).coordinate
      (position.limited client.maxRadius).radius client.maxResults

/-- The calls are those of a search around a position: each catalog that has been set up is asked
once for the objects around it, and all other calls go to the index. -/
structure Service.ConeCalls (position : Position) (calls : List Call) : Prop where
  asked : ∀ call ∈ calls, (∃ catalog, service.coneCall? position catalog = some call) ∨
    ∃ field ids, call = .verify field ids
  once : ∀ catalog, calls.countP (fun call => call.catalog? = some catalog) =
    if (service.catalogs catalog).isSome then 1 else 0

/-- The calls for a clause. -/
def Service.ClauseCalls (clause : Clause) (calls : List Call) : Prop :=
  match clausePosition? service.defaultRadius clause with
  | some position => service.ConeCalls position calls
  | none => calls = []

lemma adds_recording {α : Type} (call : Call) (step : StateM σ α) :
    Adds Recorded.calls (· = [call]) (recording call step) :=
  fun r => ⟨_, calls_recording call step r, rfl⟩

lemma adds_askAround (position : Position) (catalog : Catalog) :
    Adds Recorded.calls (· = (service.coneCall? position catalog).toList)
      (askAround position (service.recorded.catalogs catalog)) := by
  unfold Service.recorded Service.coneCall?
  dsimp only
  cases service.catalogs catalog with
  | none => exact .pure rfl
  | some client =>
    exact (adds_recording _ _).then_pure fun reply => ⟨_, rfl⟩

lemma adds_contribution (catalog : Catalog) (answer : Except CatalogFault (List String)) :
    Adds Recorded.calls (fun calls => ∀ call ∈ calls, ∃ field ids, call = .verify field ids)
      (contribution service.recorded.coneIndex catalog answer) := by
  cases answer with
  | error fault => exact .pure nofun
  | ok answer =>
    have hindex : service.recorded.coneIndex = service.coneIndex.map IndexClient.recorded := by
      unfold Service.coneIndex Service.recorded
      split <;> rfl
    unfold contribution
    rw [hindex]
    dsimp only
    cases service.coneIndex with
    | none => cases distinct answer <;> exact .pure nofun
    | some index =>
      cases distinct answer with
      | nil => exact .pure nofun
      | cons id ids =>
        refine Adds.then_pure ((adds_recording _ _).mono ?_) fun verdict => ?_
        · rintro _ rfl call hcall
          exact ⟨_, _, List.mem_singleton.1 hcall⟩
        · rcases verdict with fault | _ | _ <;> exact ⟨_, rfl⟩

lemma adds_contributions (answers : List (Catalog × Except CatalogFault (List String))) :
    Adds Recorded.calls (fun calls => ∀ call ∈ calls, ∃ field ids, call = Call.verify field ids)
      (answers.mapM fun (catalog, answer) => do
        pure (catalog, ← contribution service.recorded.coneIndex catalog answer)) := by
  refine Adds.mapM_forall (fun answer => ?_) answers
  exact (adds_contribution service answer.1 answer.2).then_pure fun c => ⟨_, rfl⟩

lemma countP_coneCall? (position : Position) (catalog other : Catalog) :
    (service.coneCall? position other).toList.countP (fun call => call.catalog? = some catalog) =
      if other = catalog ∧ (service.catalogs catalog).isSome then 1 else 0 := by
  unfold Service.coneCall?
  by_cases h : other = catalog
  · subst other
    cases service.catalogs catalog <;> simp [Call.catalog?]
  · cases service.catalogs other <;> simp [Call.catalog?, h]

/-- Calls to each catalog, followed by calls to the index, are a search around a position. -/
lemma coneCalls_append {position : Position} {verified : List Call}
    (h : ∀ call ∈ verified, ∃ field ids, call = .verify field ids) :
    service.ConeCalls position
      ((Catalog.all.map fun catalog => (service.coneCall? position catalog).toList).flatten ++
        verified) where
  asked call hcall := by
    refine (List.mem_append.1 hcall).imp (fun hasked => ?_) (h call)
    obtain ⟨_, hpart, hcall⟩ := List.mem_flatten.1 hasked
    obtain ⟨catalog, -, rfl⟩ := List.mem_map.1 hpart
    exact ⟨catalog, Option.mem_toList.1 hcall⟩
  once catalog := by
    have hverified : verified.countP (fun call => call.catalog? = some catalog) = 0 := by
      refine List.countP_eq_zero.2 fun call hcall => ?_
      obtain ⟨field, ids, rfl⟩ := h call hcall
      simp [Call.catalog?]
    rw [List.countP_append, hverified]
    cases catalog <;> simp [Catalog.all, countP_coneCall?]

lemma adds_searchCone (position : Position) :
    Adds Recorded.calls (service.ConeCalls position)
      (searchCone service.recorded.catalogs service.recorded.coneIndex position) := by
  have hasked := Adds.mapM (fun catalog =>
    (adds_askAround service position catalog).then_pure fun answer => ⟨(catalog, answer),
      rfl⟩) Catalog.all
  unfold searchCone
  refine hasked.bind (fun answers => (adds_contributions service answers).then_pure
    fun contributions => ?_) ?_
  · dsimp only
    split <;> exact ⟨_, rfl⟩
  · rintro _ verified ⟨parts, rfl, hparts⟩ hverified
    obtain rfl :
        parts = Catalog.all.map fun catalog => (service.coneCall? position catalog).toList := by
      rcases hparts with _ | ⟨rfl, _ | ⟨rfl, _ | _⟩⟩
      rfl
    exact coneCalls_append service hverified

lemma ne_names_of_clauseCalls {clause : Clause} {calls : List Call}
    (h : service.ClauseCalls clause calls) {call : Call} (hcall : call ∈ calls) (catalog : Catalog)
    (asked : List String) :
    call ≠ .names catalog asked := by
  unfold Service.ClauseCalls at h
  split at h
  · rcases h.asked call hcall with ⟨other, hcone⟩ | ⟨field, ids, rfl⟩
    · obtain ⟨client, -, rfl⟩ := Option.map_eq_some_iff.1 hcone
      exact nofun
    · exact nofun
  · rw [h] at hcall
    cases hcall

lemma Adds.onWorld {α : Type} {added : List Call → Prop} {step : StateM (Recorded σ) α}
    (h : Adds Recorded.calls added step) :
    Adds (fun session : Session (Recorded σ) => session.world.calls) added (onWorld step) :=
  fun session => h session.world

/-- Exactly the clauses that hold a position make calls before any name is looked up, and these are
the calls of a search around that position. -/
lemma adds_clauseCone (clause : Clause) :
    Adds (fun session : Session (Recorded σ) => session.world.calls) (service.ClauseCalls clause)
      (service.recorded.clauseCone clause) := by
  unfold Service.clauseCone Service.ClauseCalls
  rw [show service.recorded.defaultRadius = service.defaultRadius from rfl]
  cases clausePosition? service.defaultRadius clause with
  | none => exact .pure rfl
  | some position =>
    refine Adds.then_pure (Adds.then_pure (Adds.then_pure (adds_searchCone service position).onWorld
      fun result => ?_) fun result => ?_) fun expression => ⟨_, rfl⟩
    · cases result <;> exact ⟨_, rfl⟩
    · cases result <;> exact ⟨_, rfl⟩

end Searches

/-! ### Lookups of names -/

section Lookups
variable {σ : Type} {service : Service σ} {lookups : List (Catalog × String)} {catalog : Catalog}
  {name : String}

/-- What a lookup calls that starts in the session: the catalog, if it has been set up and the name
is not in the cache. -/
def Service.lookupCalls (service : Service σ) (lookup : Catalog × String)
    (session : Session (Recorded σ)) : List Call :=
  if (service.catalogs lookup.1).isSome ∧
    service.recorded.cachedRecord? session lookup.1 lookup.2 = none then
    [.names lookup.1 [lookup.2]]
  else []

variable (service) in
lemma calls_askNames (catalog : Catalog) (names : List String) (world : Recorded σ) :
    (service.recorded.askNames catalog names world).2.calls =
      world.calls ++ if (service.catalogs catalog).isSome then [.names catalog names] else [] := by
  unfold Service.askNames Service.recorded
  dsimp only
  cases service.catalogs catalog with
  | none => exact (List.append_nil _).symm
  | some client => rfl

variable (service) in
lemma calls_startLookup (catalog : Catalog) (name : String) (session : Session (Recorded σ)) :
    (service.recorded.startLookup catalog [name] session).2.world.calls =
      session.world.calls ++ service.lookupCalls (catalog, name) session := by
  cases hcached : service.recorded.cachedRecord? session catalog name with
  | some record => simp [startLookup_of_cached hcached, Service.lookupCalls, hcached]
  | none =>
    rw [startLookup_of_missing hcached]
    simp [Service.lookupCalls, hcached, calls_askNames]

variable (service) in
lemma calls_startAmong (late : List Nat) (item : (Catalog × String) × Nat)
    (session : Session (Recorded σ)) :
    (service.recorded.startAmong late item session).2.world.calls =
      session.world.calls ++ service.lookupCalls item.1 session := by
  obtain ⟨⟨catalog, name⟩, i⟩ := item
  rw [← calls_startLookup]
  by_cases hlate : i ∈ late
  · rw [startAmong_of_late hlate]
  · rw [startAmong_of_not_late hlate]
    exact congrArg Recorded.calls (world_finishLookup _ _ _)

/-- The calls of lookups under way together, in the order in which these start. -/
def Service.callsTogether (service : Service σ) (lookups : List (Catalog × String))
    (session : Session (Recorded σ)) : List Call :=
  (lookups.mapIdx fun i lookup =>
    service.lookupCalls lookup (service.recorded.sessionAt lookups session i)).flatten

variable (service) in
lemma calls_lookupTogether (lookups : List (Catalog × String)) (session : Session (Recorded σ)) :
    (service.recorded.lookupTogether lookups session).2.world.calls =
      session.world.calls ++ service.callsTogether lookups session := by
  rw [world_lookupTogether]
  refine (log_mapM (fun session : Session (Recorded σ) => session.world.calls)
    (calls_startAmong service _) _ _).trans ?_
  refine congrArg (fun parts => session.world.calls ++ List.flatten parts) ?_
  refine List.ext_getElem? fun i => ?_
  simp only [List.getElem?_mapIdx, List.getElem?_zipIdx, Option.map_map]
  rfl

variable {session : Session (Recorded σ)}

lemma eq_of_mem_lookupCalls {lookup : Catalog × String} {call : Call}
    (h : call ∈ service.lookupCalls lookup session) : call = .names lookup.1 [lookup.2] := by
  unfold Service.lookupCalls at h
  split at h
  · exact List.mem_singleton.1 h
  · cases h

lemma exists_lookup_of_mem_callsTogether {call : Call}
    (h : call ∈ service.callsTogether lookups session) :
    ∃ lookup ∈ lookups, call = .names lookup.1 [lookup.2] := by
  obtain ⟨_, hpart, hcall⟩ := List.mem_flatten.1 h
  obtain ⟨i, hi, rfl⟩ := List.mem_mapIdx.1 hpart
  exact ⟨lookups[i], List.getElem_mem hi, eq_of_mem_lookupCalls hcall⟩

/-- A name is asked for when its lookup starts and not again, unless the cache has it or there is
nobody to ask. -/
lemma countP_callsTogether (hnodup : lookups.Nodup) (hmem : (catalog, name) ∈ lookups) :
    (service.callsTogether lookups session).countP (Call.asks catalog name) =
      if (service.catalogs catalog).isSome ∧ service.recorded.cachedRecord?
        (service.recorded.sessionAt lookups session (lookups.idxOf (catalog, name))) catalog name =
          none
      then 1 else 0 := by
  have hother : ∀ i, ∀ lookup ≠ (catalog, name),
      (service.lookupCalls lookup (service.recorded.sessionAt lookups session i)).countP
        (Call.asks catalog name) = 0 := by
    intro i lookup hne
    refine List.countP_eq_zero.2 fun call hcall => ?_
    rwa [eq_of_mem_lookupCalls hcall, asks_names]
  rw [Service.callsTogether, countP_flatten_mapIdx hother hnodup hmem, Service.lookupCalls]
  split
  · exact List.countP_singleton ▸ if_pos (asks_names.2 rfl)
  · rfl

end Lookups

/-! ### Expansions -/

section Expansion
variable {σ : Type} (service : Service σ)

/-- The name is needed by a clause that holds no position. -/
def Service.Needs (extraction : Extraction) (name : String) : Prop :=
  ∃ clause ∈ extraction.clauses, clausePosition? service.defaultRadius clause = none ∧
  name ∈ clause.names

/-- The session in which an expansion starts to look up a name in a catalog: the cone searches are
over, and the lookups before this one have started. -/
def Service.lookupSession (extraction : Extraction) (session : Session σ) (catalog : Catalog)
    (name : String) : Session σ :=
  let lookups := service.lookupsOf (neededNames service.defaultRadius extraction)
  service.sessionAt lookups (extraction.clauses.mapM service.clauseCone session).2
    (lookups.idxOf (catalog, name))

lemma names_ofQuery {query : String} {extraction : Extraction}
    (h : Extraction.ofQuery query = .ok extraction) :
    extraction.names = distinct (extraction.clauses.flatMap Clause.names) := by
  obtain ⟨tree, -, rfl⟩ := ofQuery_eq_ok.1 h
  rfl

lemma mem_neededNames {query : String} {extraction : Extraction}
    (h : Extraction.ofQuery query = .ok extraction) {name : String} :
    name ∈ neededNames service.defaultRadius extraction ↔ service.Needs extraction name := by
  have hneeded : (extraction.clauses.any fun clause =>
      (clausePosition? service.defaultRadius clause).isNone && clause.names.contains name) = true ↔
      service.Needs extraction name := by
    simp [Service.Needs]
  rw [neededNames, List.mem_filter, hneeded, and_iff_right_iff_imp]
  rintro ⟨clause, hclause, -, hname⟩
  rw [names_ofQuery h, mem_distinct]
  exact List.mem_flatMap.2 ⟨clause, hclause, hname⟩

lemma nodup_lookupsOf {query : String} {extraction : Extraction}
    (h : Extraction.ofQuery query = .ok extraction) (htargets : service.targets.Nodup) :
    (service.lookupsOf (neededNames service.defaultRadius extraction)).Nodup := by
  have hnames : (neededNames service.defaultRadius extraction).Nodup := by
    rw [neededNames, names_ofQuery h]
    exact (nodup_distinct _).sublist List.filter_sublist
  exact List.Nodup.product htargets hnames

/-- The new calls are those of an expansion that starts in the session: the searches for its
clauses, and after them the lookups of names. -/
structure Service.ExpansionCalls (extraction : Extraction) (session : Session (Recorded σ))
    (searches : List (List Call)) (lookups : List Call) : Prop where
  /-- Exactly the clauses with a position are searched around. -/
  searched : List.Forall₂ service.ClauseCalls extraction.clauses searches
  looked : ∀ call ∈ lookups, ∃ catalog name, call = .names catalog [name]
  /-- A catalog is asked about names one by one, if it is a target and a clause without a position
  needs the name. -/
  needed : ∀ catalog asked, .names catalog asked ∈ searches.flatten ++ lookups →
    catalog ∈ service.targets ∧ ∃ name, service.Needs extraction name ∧ asked = [name]
  once : ∀ catalog ∈ service.targets, ∀ name, service.Needs extraction name →
    (searches.flatten ++ lookups).countP (Call.asks catalog name) ≤ 1
  /-- What is not asked is in the cache when the lookup starts, or there is nobody to ask. -/
  spared : ∀ catalog ∈ service.targets, ∀ name, service.Needs extraction name →
    ((searches.flatten ++ lookups).countP (Call.asks catalog name) = 0 ↔
      (service.recorded.cachedRecord?
        (service.recorded.lookupSession extraction session catalog name)
        catalog name).isSome ∨ service.catalogs catalog = none)

variable {service} {extraction : Extraction} {session : Session (Recorded σ)}
  {searches : List (List Call)}

lemma ne_names_of_searches (h : List.Forall₂ service.ClauseCalls extraction.clauses searches)
    {call : Call} (hcall : call ∈ searches.flatten) (catalog : Catalog) (asked : List String) :
    call ≠ .names catalog asked := by
  obtain ⟨calls, hcalls, hcall⟩ := List.mem_flatten.1 hcall
  obtain ⟨i, hi, rfl⟩ := List.getElem_of_mem hcalls
  exact ne_names_of_clauseCalls service (h.get (h.length_eq ▸ hi) hi) hcall catalog asked

/-- The calls of the searches, followed by those of all lookups, are those of an expansion. -/
lemma expansionCalls_append {query : String} (hquery : Extraction.ofQuery query = .ok extraction)
    (htargets : service.targets.Nodup)
    (h : List.Forall₂ service.ClauseCalls extraction.clauses searches) :
    service.ExpansionCalls extraction session searches
      (service.callsTogether (service.lookupsOf (neededNames service.defaultRadius extraction))
        (extraction.clauses.mapM service.recorded.clauseCone session).2) := by
  have hcount : ∀ catalog name, catalog ∈ service.targets → service.Needs extraction name →
      (searches.flatten ++
        service.callsTogether (service.lookupsOf (neededNames service.defaultRadius extraction))
          (extraction.clauses.mapM service.recorded.clauseCone session).2).countP
            (Call.asks catalog name) =
        if (service.catalogs catalog).isSome ∧ service.recorded.cachedRecord?
          (service.recorded.lookupSession extraction session catalog name) catalog name = none
        then 1 else 0 := by
    intro catalog name hcatalog hname
    have hmem :
        (catalog, name) ∈ service.lookupsOf (neededNames service.defaultRadius extraction) :=
      mem_lookupsOf.2 ⟨hcatalog, (mem_neededNames service hquery).2 hname⟩
    have hsearches : searches.flatten.countP (Call.asks catalog name) = 0 := by
      refine List.countP_eq_zero.2 fun call hcall hasks => ?_
      obtain ⟨asked, hnames⟩ := exists_names_of_asks hasks
      exact ne_names_of_searches h hcall catalog asked hnames
    rw [List.countP_append, hsearches, Nat.zero_add,
      countP_callsTogether (nodup_lookupsOf service hquery htargets) hmem]
    rfl
  refine ⟨h, fun call hcall => ?_, fun catalog asked hcall => ?_,
    fun catalog hcatalog name hname => ?_, fun catalog hcatalog name hname => ?_⟩
  · obtain ⟨lookup, -, hnames⟩ := exists_lookup_of_mem_callsTogether hcall
    exact ⟨_, _, hnames⟩
  · rcases List.mem_append.1 hcall with hcall | hcall
    · exact absurd rfl (ne_names_of_searches h hcall catalog asked)
    · obtain ⟨⟨other, name⟩, hlookup, hnames⟩ := exists_lookup_of_mem_callsTogether hcall
      cases hnames
      obtain ⟨hcatalog, hname⟩ := mem_lookupsOf.1 hlookup
      exact ⟨hcatalog, name, (mem_neededNames service hquery).1 hname, rfl⟩
  · rw [hcount catalog name hcatalog hname]
    split <;> decide
  · rw [hcount catalog name hcatalog hname]
    cases hcached : service.recorded.cachedRecord?
        (service.recorded.lookupSession extraction session catalog name) catalog name <;>
      cases service.catalogs catalog <;> simp

variable (service) in
lemma calls_expandClauses (query : String) (extraction : Extraction)
    (session : Session (Recorded σ)) :
    ∃ searches, List.Forall₂ service.ClauseCalls extraction.clauses searches ∧
      (service.recorded.expandClauses query extraction session).2.world.calls =
        session.world.calls ++ (searches.flatten ++
          service.callsTogether (service.lookupsOf (neededNames service.defaultRadius extraction))
            (extraction.clauses.mapM service.recorded.clauseCone session).2) := by
  obtain ⟨_, hcalls, searches, rfl, hsearches⟩ :=
    Adds.mapM (adds_clauseCone service) extraction.clauses session
  refine ⟨searches, hsearches, ?_⟩
  rw [← List.append_assoc, ← hcalls]
  exact calls_lookupTogether service _ _

end Expansion

lemma nodup_targetList {settings : Settings} {targets : List Catalog}
    (h : settings.targetList = .ok targets) : targets.Nodup := by
  unfold Settings.targetList catalogsOfNames at h
  revert h
  generalize settings.targets.mapM (m := Except String) _ = catalogs
  cases catalogs with
  | error name => nofun
  | ok catalogs =>
    rintro ⟨⟩
    exact nodup_distinct catalogs

/-- A service that has been set up has no target twice. -/
lemma nodup_targets {σ : Type} {settings : Settings} {catalogs : Catalog → Option (CatalogClient σ)}
    {index : Option (IndexClient σ)} {currentYear : Int} {clock : σ → Nat}
    {overtaken : Nat → List Nat} {service : Service σ}
    (h : Service.ofSettings settings catalogs index currentYear clock overtaken = .ok service) :
    service.targets.Nodup := by
  unfold Service.ofSettings at h
  cases htargets : settings.targetList with
  | error name =>
    rw [htargets] at h
    cases h
  | ok targets =>
    rw [htargets] at h
    cases h
    exact nodup_targetList htargets

/-- Whatever catalogs and index answer, and whatever is in the cache, an expansion calls them for
what it needs and for nothing else. The record of the calls takes no part in this. -/
theorem expand_calls {σ : Type} (service : Service σ) (htargets : service.targets.Nodup)
    (query : String) (session : Session (Recorded σ)) {text : String}
    (htext : ((service.expand query).run.run session.forget).1 = .ok text) :
    let recorded := (service.recorded.expand query).run.run session
    recorded.1 = .ok text ∧
    ∃ extraction searches lookups, Extraction.ofQuery query = .ok extraction ∧
      recorded.2.world.calls = session.world.calls ++ (searches.flatten ++ lookups) ∧
      service.ExpansionCalls extraction session searches lookups := by
  intro recorded
  refine ⟨(shadows_expand service query session).1.trans htext, ?_⟩
  rcases expandable_or_refused query with ⟨hvisible, extraction, hquery, hnamed⟩ | ⟨error, hrefused⟩
  swap
  · have herror := congrArg Prod.fst (run_expand_of_refused service session.forget hrefused)
    cases htext.symm.trans herror
  by_cases hclauses : extraction.clauses = []
  · have hrun : recorded.2 = session := congrArg Prod.snd
      (run_expand_of_no_clause service.recorded session hvisible hquery hclauses)
    refine ⟨extraction, [], _, hquery, ?_, expansionCalls_append hquery htargets (hclauses ▸ .nil)⟩
    rw [hrun]
    simp [neededNames, hclauses, Service.lookupsOf, Service.callsTogether]
  · have hrun : recorded.2 = (service.recorded.expandClauses query extraction session).2 :=
      congrArg Prod.snd (run_expand_of_named service.recorded session hvisible hquery hclauses
        (hnamed.resolve_left hclauses))
    obtain ⟨searches, hsearches, hcalls⟩ := calls_expandClauses service query extraction session
    exact ⟨extraction, searches, _, hquery, hrun ▸ hcalls,
      expansionCalls_append hquery htargets hsearches⟩

/-- A position, a name that one of the catalogs has been asked for before, and a name in two
clauses. -/
theorem expand_calls_of_andromeda :
    let service := Service.knowing knownAndromeda
    let query := "object:\"5 +7\" object:(M31 x) object:x"
    let extraction : Extraction := ⟨["5 +7", "M31", "x"], [⟨"object:\"5 +7\"", ⟨0, 13⟩, ["5 +7"]⟩,
      ⟨"object:(M31 x)", ⟨14, 28⟩, ["M31", "x"]⟩, ⟨"object:x", ⟨29, 37⟩, ["x"]⟩]⟩
    let earlier := service.after [.lookUp ⟨none, some ["m31"], none, none⟩]
      ⟨Cache.empty (.ofSeconds 1), ()⟩
    let session : Session (Recorded Unit) := ⟨earlier.cache, ⟨(), []⟩⟩
    let recorded := (service.recorded.expand query).run.run session
    service.targets.Nodup ∧ Extraction.ofQuery query = .ok extraction ∧
    extraction.clauses.map (fun clause =>
      (clausePosition? service.defaultRadius clause).isSome) = [true, false, false] ∧
    ∃ text, ((service.expand query).run.run session.forget).1 = .ok text ∧ recorded.1 = .ok text ∧
      ∃ searches lookups, recorded.2.world.calls = searches.flatten ++ lookups ∧
        service.ExpansionCalls extraction session searches lookups ∧
        (searches.flatten ++ lookups).countP (Call.asks .simbad "M31") = 0 ∧
        (searches.flatten ++ lookups).countP (Call.asks .ned "M31") ≠ 0 := by
  intro service query extraction earlier session recorded
  have htargets : service.targets.Nodup := by decide
  have hquery : Extraction.ofQuery query = .ok extraction := by
    rw [Extraction.ofQuery, Spelling.parse .empty .empty
      (.linked (.bare (.atom (some ⟨"object", .empty, .empty⟩) (.phrase "\"5 +7\""))) (.beside .one)
        (.linked (.bare (.group (some ⟨"object", .empty, .empty⟩) .empty
          (.linked (.bare (.atom none (.word "M31"))) (.beside .one)
            (.single (.bare (.atom none (.word "x"))))) .empty)) (.beside .one)
          (.single (.bare (.atom (some ⟨"object", .empty, .empty⟩) (.word "x"))))))
      (by decide +kernel) (by decide +kernel) (by decide +kernel)]
    exact congrArg Except.ok (by decide +kernel)
  have htext := congrArg Prod.fst (run_expand_of_named service session.forget
    ⟨'o', by decide, by decide⟩ hquery (List.cons_ne_nil _ _) (List.cons_ne_nil _ _))
  obtain ⟨hrecorded, extraction', searches, lookups, hquery', hcalls, hexpansion⟩ :=
    expand_calls service htargets query session htext
  obtain rfl := Except.ok.inj (hquery.symm.trans hquery')
  have hneeds : service.Needs extraction "M31" :=
    ⟨⟨"object:(M31 x)", ⟨14, 28⟩, ["M31", "x"]⟩, by simp [extraction], rfl, by simp⟩
  refine ⟨htargets, hquery, by decide +kernel, _, htext, hrecorded, searches, lookups, hcalls,
    hexpansion, (hexpansion.spared .simbad (by decide) "M31" hneeds).2 (.inl (by decide +kernel)),
    ?_⟩
  rw [ne_eq, hexpansion.spared .ned (by decide) "M31" hneeds, not_or]
  exact ⟨by decide +kernel, nofun⟩

end SkyResolver
