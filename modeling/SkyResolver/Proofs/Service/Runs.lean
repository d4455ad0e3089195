import SkyResolver.Proofs.Service.Lookups
import SkyResolver.Service.Answer

/-! Runs of requests. What every call and every write into the cache keeps, whole runs keep. -/
namespace SkyResolver
open SkyResolver.Query SkyResolver.Text

/-- The session that several requests leave behind. -/
def Service.after {σ : Type} (service : Service σ) (requests : List ServiceRequest)
    (session : Session σ) :
    Session σ :=
  requests.foldl (fun session request => ((service.answer request).run.run session).2) session

/-- The step of the world keeps the property, whatever is in the cache. -/
def WorldKeeps {σ α : Type} (inv : Session σ → Prop) (step : StateM σ α) : Prop :=
  ∀ cache, Maintains (fun world => inv ⟨cache, world⟩) (fun _ => True) step

/-- What makes a property of sessions one that all requests keep: lookups of names conserve it, and
so do all other calls to catalogs and to the index. -/
structure Service.Sustains {σ : Type} (service : Service σ) (inv : Session σ → Prop)
    (pending : NameLookup → Session σ → Prop) : Prop extends service.Conserves inv pending where
  lookup : ∀ catalog client, service.catalogs catalog = some client →
    ∀ names, WorldKeeps inv (client.lookup names)
  identifiers : ∀ catalog client, service.catalogs catalog = some client →
    ∀ ids, WorldKeeps inv (client.identifiers ids)
  cone : ∀ catalog client, service.catalogs catalog = some client →
    ∀ place radius limit, WorldKeeps inv (client.cone place radius limit)
  verify : ∀ index, service.index = some index →
  ∀ field ids, WorldKeeps inv (index.verify field ids)
  search : ∀ index, service.index = some index → ∀ query, WorldKeeps inv (index.search query)

section World
variable {σ α β : Type} {inv : Session σ → Prop}

lemma WorldKeeps.pure (a : α) : WorldKeeps inv (pure a) := fun _ => .pure trivial

lemma WorldKeeps.bind {step : StateM σ α} {next : α → StateM σ β} (h : WorldKeeps inv step)
    (hnext : ∀ a, WorldKeeps inv (next a)) : WorldKeeps inv (step >>= next) :=
  fun cache => (h cache).keep_bind fun a => hnext a cache

lemma WorldKeeps.mapM {f : α → StateM σ β} (h : ∀ a, WorldKeeps inv (f a)) (l : List α) :
    WorldKeeps inv (l.mapM f) :=
  fun cache => (Maintains.mapM fun a _ => h a cache).keep

lemma WorldKeeps.onWorld {step : StateM σ α} (h : WorldKeeps inv step) :
    Maintains inv (fun _ => True) (onWorld step) :=
  fun session hsession => h session.cache session.world hsession

end World

section Requests
variable {σ : Type} {service : Service σ} {inv : Session σ → Prop}
  {pending : NameLookup → Session σ → Prop}

/-- Calls other than those about names leave the cache alone. -/
lemma Service.Conserves.sustains (inv : NameCache → Prop)
    (h : service.Conserves (fun session => inv session.cache) pending) :
    service.Sustains (fun session => inv session.cache) pending where
  toConserves := h
  lookup _ _ _ _ _ _ hsession := ⟨trivial, hsession⟩
  identifiers _ _ _ _ _ _ hsession := ⟨trivial, hsession⟩
  cone _ _ _ _ _ _ _ _ hsession := ⟨trivial, hsession⟩
  verify _ _ _ _ _ _ hsession := ⟨trivial, hsession⟩
  search _ _ _ _ _ hsession := ⟨trivial, hsession⟩

/-! ### Cone searches -/

lemma index_of_coneIndex {index : IndexClient σ} (h : service.coneIndex = some index) :
    service.index = some index := by
  unfold Service.coneIndex at h
  split at h
  · exact h
  · cases h

lemma catalogs_of_client {catalog : Catalog} {client : CatalogClient σ}
    (h : service.client catalog = .ok client) : service.catalogs catalog = some client := by
  unfold Service.client at h
  split at h
  · cases h
    assumption
  · cases h

lemma Service.Sustains.askAround (h : service.Sustains inv pending) (position : Position)
    (catalog : Catalog) : WorldKeeps inv (askAround position (service.catalogs catalog)) := by
  cases hclient : service.catalogs catalog with
  | none => exact .pure _
  | some client => exact (h.cone catalog client hclient _ _ _).bind fun reply => .pure _

lemma Service.Sustains.contribution (h : service.Sustains inv pending) (catalog : Catalog)
    (answer : Except CatalogFault (List String)) :
    WorldKeeps inv (contribution service.coneIndex catalog answer) := by
  cases answer with
  | error fault => exact .pure _
  | ok answer =>
    unfold SkyResolver.contribution
    dsimp only
    cases hindex : service.coneIndex with
    | none => cases distinct answer <;> exact .pure _
    | some index =>
      cases distinct answer with
      | nil => exact .pure _
      | cons id ids =>
        refine (h.verify index (index_of_coneIndex hindex) _ _).bind fun verified => ?_
        split <;> exact .pure _

lemma Service.Sustains.searchCone (h : service.Sustains inv pending) (position : Position) :
    WorldKeeps inv (searchCone service.catalogs service.coneIndex position) := by
  unfold SkyResolver.searchCone
  refine (WorldKeeps.mapM (fun catalog => ?_) _).bind fun answers => ?_
  · exact (h.askAround position catalog).bind fun answer => .pure _
  refine (WorldKeeps.mapM (fun answer => ?_) _).bind fun contributions => ?_
  · exact (h.contribution answer.1 answer.2).bind fun contribution => .pure _
  dsimp only
  split <;> exact .pure _

lemma Service.Sustains.searchAround (h : service.Sustains inv pending) (position : Position) :
    Maintains inv (fun _ => True) (service.searchAround position).run := by
  refine (h.searchCone position).onWorld.keep_bind fun result => ?_
  cases result <;> exact .pure trivial

lemma Service.Sustains.searchAt (h : service.Sustains inv pending) (text : String) :
    Maintains inv (fun _ => True) (service.searchAt text).run := by
  unfold Service.searchAt
  split
  · exact h.searchAround _
  · exact .pure trivial

/-! ### Expansions -/

lemma Service.Sustains.clauseCone (h : service.Sustains inv pending) (clause : Clause) :
    Maintains inv (fun _ => True) (service.clauseCone clause) := by
  unfold Service.clauseCone
  split
  · refine Maintains.keep_bind ((h.searchAround _).keep_bind fun result => ?_)
      fun _ => .pure trivial
    cases result <;> exact .pure trivial
  · exact .pure trivial

lemma Service.Sustains.expandClauses (h : service.Sustains inv pending) (query : String)
    (extraction : Extraction) :
    Maintains inv (fun _ => True) (service.expandClauses query extraction) := by
  refine (Maintains.mapM fun clause _ => h.clauseCone clause).keep.keep_bind fun cones => ?_
  refine Maintains.keep_bind ?_ fun identifiers => .pure trivial
  exact (h.toConserves.lookupTogether _).keep_bind fun results => .pure trivial

/-- What becomes of a query, case by case; only a query with clauses and names gets beyond its text.
-/
lemma run_expand (service : Service σ) (query : String) : (service.expand query).run =
    if (Text.trim query.toList).isEmpty then pure (.error (.missingInput .query))
    else match Query.Extraction.ofQuery query with
      | .error fault => pure (.error (.query fault))
      | .ok extraction =>
        if extraction.isEmpty then pure (.ok query)
        else if extraction.names.isEmpty then pure (.error (.missingInput (.namesInQuery query)))
        else Except.ok <$> service.expandClauses query extraction := by
  unfold Service.expand
  by_cases hblank : (Text.trim query.toList).isEmpty = true
  · rw [if_pos hblank, if_pos hblank]
    rfl
  · rw [if_neg hblank, if_neg hblank]
    cases Query.Extraction.ofQuery query with
    | error fault => rfl
    | ok extraction =>
      dsimp only
      split
      · rfl
      split <;> rfl

lemma Service.Sustains.expand (h : service.Sustains inv pending) (query : String) :
    Maintains inv (fun _ => True) (service.expand query).run := by
  rw [run_expand]
  split
  · exact .pure trivial
  split
  · exact .pure trivial
  split
  · exact .pure trivial
  split
  · exact .pure trivial
  · exact (h.expandClauses query _).keep_bind fun text => .pure trivial

/-! ### Requests -/

lemma Service.Sustains.nameRecords (h : service.Sustains inv pending) (catalog : Catalog)
    (names : List String) :
    Maintains inv (fun _ => True) (service.nameRecords catalog names).run := by
  refine (h.toConserves.findNames catalog names).lift_run.keep.keep_bind_run fun result => ?_
  split <;> exact .pure trivial

lemma Service.Sustains.identifierRecords (h : service.Sustains inv pending) (catalog : Catalog)
    (ids : List String) :
    Maintains inv (fun _ => True) (service.identifierRecords catalog ids).run := by
  refine Maintains.mk_pure_bind_run (fun client hclient => ?_) fun _ _ => trivial
  have hids := h.identifiers catalog client (catalogs_of_client hclient) ids
  refine hids.onWorld.lift_run.keep.keep_bind_run fun reply => ?_
  split <;> exact .pure trivial

lemma Service.Sustains.lookUp (h : service.Sustains inv pending) (request : LookupRequest) :
    Maintains inv (fun _ => True) (service.lookUp request).run := by
  refine Maintains.mk_pure_bind_run (fun catalog _ => ?_) fun _ _ => trivial
  split
  · exact .pure trivial
  · exact (h.nameRecords catalog _).keep_bind_run fun _ => .pure trivial
  · exact (h.identifierRecords catalog _).keep_bind_run fun _ => .pure trivial
  · exact (h.searchAt _).keep_bind_run fun _ => .pure trivial

lemma Service.Sustains.publications (h : service.Sustains inv pending)
    (request : PublicationRequest) :
    Maintains inv (fun _ => True) (service.publications request).run := by
  unfold Service.publications
  by_cases hempty : request.objects.isEmpty = true
  · simp only [if_pos hempty]
    exact .pure trivial
  · simp only [if_neg hempty]
    refine Maintains.mk_pure_bind_run (fun client hclient => ?_) fun _ _ => trivial
    have hlookup := h.lookup .ned client (catalogs_of_client hclient) request.objects
    refine hlookup.onWorld.lift_run.keep.keep_bind_run fun reply => ?_
    split
    · exact .pure trivial
    split
    · exact .pure trivial
    cases hindex : service.index with
    | none => exact .pure trivial
    | some index =>
      refine (h.search index hindex _).onWorld.lift_run.keep.keep_bind_run fun answer => ?_
      split <;> exact .pure trivial

/-- A property that every call keeps is kept by every request, whatever comes of it. -/
theorem Service.Sustains.answer (h : service.Sustains inv pending) (request : ServiceRequest) :
    Maintains inv (fun _ => True) (service.answer request).run := by
  cases request with
  | expand query => exact (h.expand query).keep_bind_run fun _ => .pure trivial
  | lookUp request => exact (h.lookUp request).keep_bind_run fun _ => .pure trivial
  | position text => exact (h.searchAt text).keep_bind_run fun _ => .pure trivial
  | publications request => exact (h.publications request).keep_bind_run fun _ => .pure trivial

/-- It holds after any requests if it holds before them. -/
theorem Service.Sustains.after (h : service.Sustains inv pending) (requests : List ServiceRequest)
    {session : Session σ} (hsession : inv session) : inv (service.after requests session) := by
  induction requests generalizing session with
  | nil => exact hsession
  | cons request requests ih => exact ih (h.answer request session hsession).2

/-! ### Keys of the cache -/

lemma conserves_nodup (service : Service σ) :
    service.Conserves (fun session => session.cache.table.keys.Nodup) (fun _ _ => True) where
  start catalog names session hsession := by
    rw [cache_startLookup]
    exact ⟨hsession, trivial⟩
  finish lookup session hsession _ := by
    unfold Service.finishLookup
    split
    · exact hsession
    · exact hsession
    · exact remember_keeps (fun cache => cache.table.keys.Nodup)
        (fun _ _ _ _ => Cache.nodup_keys_insert) hsession
  start_other _ _ _ _ _ := trivial
  finish_other _ _ _ _ := trivial

/-- After any requests, no key stands twice in the cache. -/
theorem nodup_keys_after (service : Service σ) (ttl : Duration) (start : σ)
    (requests : List ServiceRequest) :
    (service.after requests ⟨Cache.empty ttl, start⟩).cache.table.keys.Nodup :=
  ((conserves_nodup service).sustains fun cache => cache.table.keys.Nodup).after requests
    List.nodup_nil

end Requests

end SkyResolver
