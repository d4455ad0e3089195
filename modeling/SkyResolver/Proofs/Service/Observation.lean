import SkyResolver.Proofs.Service.Runs

/-! Services that are watched. A watched service writes something down whenever a catalog or the
index is called, and never reads it; whoever does not look at what is written sees the service
itself, with the same answers, the same worlds and the same cache. -/
namespace SkyResolver
open SkyResolver.Query SkyResolver.Text

/-- Seen through `forget`, the first step does what the second one does. -/
def Shadows {σ τ α : Type} (forget : τ → σ) (step : StateM τ α) (plain : StateM σ α) : Prop :=
  ∀ t, (step t).1 = (plain (forget t)).1 ∧ forget (step t).2 = (plain (forget t)).2

/-- The session without what is written down about its world. -/
def Session.seen {σ τ : Type} (forget : τ → σ) (session : Session τ) : Session σ :=
  ⟨session.cache, forget session.world⟩

/-! ### Sequences of steps -/

section Steps
variable {σ τ α β ε : Type} {forget : τ → σ}

lemma Shadows.pure (a : α) : Shadows forget (pure a) (pure a) := fun _ => ⟨rfl, rfl⟩

lemma Shadows.bind {step : StateM τ α} {plain : StateM σ α} {next : α → StateM τ β}
    {plainNext : α → StateM σ β} (h : Shadows forget step plain)
    (hnext : ∀ a, Shadows forget (next a) (plainNext a)) :
    Shadows forget (step >>= next) (plain >>= plainNext) := by
  intro t
  obtain ⟨hresult, hstate⟩ := h t
  have hrest := hnext (step t).1 (step t).2
  change (next (step t).1 (step t).2).1 = (plainNext (plain (forget t)).1 (plain (forget t)).2).1 ∧
    forget (next (step t).1 (step t).2).2 = (plainNext (plain (forget t)).1 (plain (forget t)).2).2
  rwa [← hresult, ← hstate]

lemma Shadows.get_bind {next : τ → StateM τ β} {plainNext : σ → StateM σ β}
    (h : ∀ t, Shadows forget (next t) (plainNext (forget t))) :
    Shadows forget (get >>= next) (get >>= plainNext) := fun t => h t t

lemma Shadows.mapM {f : α → StateM τ β} {plain : α → StateM σ β}
    (h : ∀ a, Shadows forget (f a) (plain a)) (l : List α) :
    Shadows forget (l.mapM f) (l.mapM plain) := by
  induction l with
  | nil => exact .pure []
  | cons a l ih =>
    rw [List.mapM_cons, List.mapM_cons]
    exact (h a).bind fun b => ih.bind fun bs => .pure (b :: bs)

lemma Shadows.bind_run {step : ExceptT ε (StateM τ) α} {plain : ExceptT ε (StateM σ) α}
    {next : α → ExceptT ε (StateM τ) β} {plainNext : α → ExceptT ε (StateM σ) β}
    (h : Shadows forget step.run plain.run)
    (hnext : ∀ a, Shadows forget (next a).run (plainNext a).run) :
    Shadows forget (step >>= next).run (plain >>= plainNext).run := by
  rw [ExceptT.run_bind, ExceptT.run_bind]
  refine h.bind fun result => ?_
  cases result with
  | ok a => exact hnext a
  | error e => exact .pure _

lemma Shadows.lift_run {step : StateM τ α} {plain : StateM σ α} (h : Shadows forget step plain) :
    Shadows forget (ExceptT.lift step : ExceptT ε (StateM τ) α).run
      (ExceptT.lift plain : ExceptT ε (StateM σ) α).run := by
  rw [ExceptT.run_lift, ExceptT.run_lift]
  exact h.bind fun a => .pure _

lemma Shadows.onWorld {step : StateM τ α} {plain : StateM σ α} (h : Shadows forget step plain) :
    Shadows (Session.seen forget) (onWorld step) (onWorld plain) := by
  intro session
  obtain ⟨hresult, hworld⟩ := h session.world
  exact ⟨hresult, congrArg (Session.mk session.cache) hworld⟩

end Steps

/-! ### Watched services -/

section Watched
variable {σ τ : Type} (forget : τ → σ)

structure CatalogClient.Watches (watched : CatalogClient τ) (client : CatalogClient σ) : Prop where
  maxRadius : watched.maxRadius = client.maxRadius
  maxResults : watched.maxResults = client.maxResults
  timeout : watched.timeout = client.timeout
  names : ∀ asked, Shadows forget (watched.names asked) (client.names asked)
  lookup : ∀ asked, Shadows forget (watched.lookup asked) (client.lookup asked)
  identifiers : ∀ asked, Shadows forget (watched.identifiers asked) (client.identifiers asked)
  cone : ∀ place radius limit,
    Shadows forget (watched.cone place radius limit) (client.cone place radius limit)

structure IndexClient.Watches (watched : IndexClient τ) (index : IndexClient σ) : Prop where
  verify : ∀ field asked, Shadows forget (watched.verify field asked) (index.verify field asked)
  search : ∀ query, Shadows forget (watched.search query) (index.search query)

/-- The first service is set up as the second one, with the calls of its clients watched. -/
structure Service.Watches (watched : Service τ) (service : Service σ) : Prop where
  targets : watched.targets = service.targets
  defaultRadius : watched.defaultRadius = service.defaultRadius
  catalogs : ∀ catalog,
    Option.Rel (CatalogClient.Watches forget) (watched.catalogs catalog) (service.catalogs catalog)
  index : Option.Rel (IndexClient.Watches forget) watched.index service.index
  verifyCones : watched.verifyCones = service.verifyCones
  currentYear : watched.currentYear = service.currentYear
  clock : ∀ t, watched.clock t = service.clock (forget t)
  overtaken : watched.overtaken = service.overtaken

end Watched

section Requests
variable {σ τ : Type} {forget : τ → σ} {watched : Service τ} {service : Service σ}

/-! ### Cone searches -/

lemma Service.Watches.coneIndex (h : watched.Watches forget service) :
    Option.Rel (IndexClient.Watches forget) watched.coneIndex service.coneIndex := by
  unfold Service.coneIndex
  rw [h.verifyCones]
  split
  · exact h.index
  · exact .none

lemma Service.Watches.askAround (h : watched.Watches forget service) (position : Position)
    (catalog : Catalog) : Shadows forget (askAround position (watched.catalogs catalog))
      (askAround position (service.catalogs catalog)) := by
  match watched.catalogs catalog, service.catalogs catalog, h.catalogs catalog with
  | _, _, .none => exact .pure _
  | _, _, .some hclient =>
    unfold SkyResolver.askAround
    dsimp only
    rw [hclient.maxRadius, hclient.maxResults, hclient.timeout]
    exact (hclient.cone _ _ _).bind fun reply => .pure _

lemma Service.Watches.contribution (h : watched.Watches forget service) (catalog : Catalog)
    (answer : Except CatalogFault (List String)) :
    Shadows forget (contribution watched.coneIndex catalog answer)
      (contribution service.coneIndex catalog answer) := by
  cases answer with
  | error fault => exact .pure _
  | ok answer =>
    unfold SkyResolver.contribution
    dsimp only
    match watched.coneIndex, service.coneIndex, h.coneIndex with
    | _, _, .none => cases distinct answer <;> exact .pure _
    | _, _, .some hindex =>
      cases distinct answer with
      | nil => exact .pure _
      | cons id ids =>
        refine (hindex.verify _ _).bind fun verdict => ?_
        rcases verdict with fault | _ | _ <;> exact .pure _

lemma Service.Watches.searchCone (h : watched.Watches forget service) (position : Position) :
    Shadows forget (searchCone watched.catalogs watched.coneIndex position)
      (searchCone service.catalogs service.coneIndex position) := by
  unfold SkyResolver.searchCone
  refine (Shadows.mapM (fun catalog => ?_) _).bind fun answers => ?_
  · exact (h.askAround position catalog).bind fun answer => .pure _
  refine (Shadows.mapM (fun answer => ?_) _).bind fun contributions => ?_
  · exact (h.contribution answer.1 answer.2).bind fun contribution => .pure _
  dsimp only
  split <;> exact .pure _

lemma Service.Watches.searchAround (h : watched.Watches forget service) (position : Position) :
    Shadows (Session.seen forget) (watched.searchAround position).run
      (service.searchAround position).run := by
  refine (h.searchCone position).onWorld.bind fun result => ?_
  cases result <;> exact .pure _

lemma Service.Watches.searchAt (h : watched.Watches forget service) (text : String) :
    Shadows (Session.seen forget) (watched.searchAt text).run (service.searchAt text).run := by
  unfold Service.searchAt
  rw [h.defaultRadius]
  split
  · exact h.searchAround _
  · exact .pure _

/-! ### Lookups of names -/

lemma Service.Watches.askNames (h : watched.Watches forget service) (catalog : Catalog)
    (names : List String) :
    Shadows forget (watched.askNames catalog names) (service.askNames catalog names) := by
  unfold Service.askNames
  match watched.catalogs catalog, service.catalogs catalog, h.catalogs catalog with
  | _, _, .none => exact .pure _
  | _, _, .some hclient =>
    dsimp only
    rw [hclient.timeout]
    exact (hclient.names names).bind fun reply => .pure _

lemma Service.Watches.startLookup (h : watched.Watches forget service) (catalog : Catalog)
    (names : List String) :
    Shadows (Session.seen forget) (watched.startLookup catalog names)
      (service.startLookup catalog names) := by
  refine .get_bind fun session => ?_
  dsimp only [Session.seen]
  rw [h.clock]
  split
  · exact .pure _
  · exact (h.askNames catalog _).onWorld.bind fun answer => .pure _

lemma Service.Watches.finishLookup (h : watched.Watches forget service) (lookup : NameLookup) :
    Shadows (Session.seen forget) (watched.finishLookup lookup) (service.finishLookup lookup) := by
  intro session
  unfold Service.finishLookup Session.seen
  rw [h.clock]
  rcases lookup.asked with _ | _ | _ <;> exact ⟨rfl, rfl⟩

lemma Service.Watches.findNames (h : watched.Watches forget service) (catalog : Catalog)
    (names : List String) :
    Shadows (Session.seen forget) (watched.findNames catalog names)
      (service.findNames catalog names) :=
  (h.startLookup catalog names).bind fun lookup => h.finishLookup lookup

lemma Service.Watches.startAmong (h : watched.Watches forget service) (late : List Nat)
    (item : (Catalog × String) × Nat) :
    Shadows (Session.seen forget) (watched.startAmong late item)
      (service.startAmong late item) := by
  obtain ⟨⟨catalog, name⟩, i⟩ := item
  refine (h.startLookup catalog [name]).bind fun lookup => ?_
  split
  · exact .pure _
  · exact (h.finishLookup lookup).bind fun result => .pure _

lemma Service.Watches.finishLate (h : watched.Watches forget service)
    (started : List Service.Started) (i : Nat) :
    Shadows (Session.seen forget) (watched.finishLate started i)
      (service.finishLate started i) := by
  unfold Service.finishLate
  split
  · exact (h.finishLookup _).bind fun result => .pure _
  · exact .pure _
  · exact .pure _

lemma Service.Watches.lookupTogether (h : watched.Watches forget service)
    (lookups : List (Catalog × String)) :
    Shadows (Session.seen forget) (watched.lookupTogether lookups)
      (service.lookupTogether lookups) := by
  unfold Service.lookupTogether
  rw [h.overtaken]
  refine (Shadows.mapM (fun item => h.startAmong _ item) _).bind fun started => ?_
  refine (Shadows.mapM (fun i => h.finishLate started i) _).bind fun finished => ?_
  exact .pure _

/-! ### Expansions -/

lemma Service.Watches.clauseCone (h : watched.Watches forget service) (clause : Clause) :
    Shadows (Session.seen forget) (watched.clauseCone clause) (service.clauseCone clause) := by
  unfold Service.clauseCone
  rw [h.defaultRadius]
  cases clausePosition? service.defaultRadius clause with
  | none => exact .pure _
  | some position =>
    refine Shadows.bind ((h.searchAround position).bind fun result => ?_) fun expression => .pure _
    cases result <;> exact .pure _

lemma Service.Watches.expandClauses (h : watched.Watches forget service) (query : String)
    (extraction : Extraction) :
    Shadows (Session.seen forget) (watched.expandClauses query extraction)
      (service.expandClauses query extraction) := by
  unfold Service.expandClauses Service.identifiersOf
  rw [h.defaultRadius, h.targets]
  refine (Shadows.mapM h.clauseCone _).bind fun cones => ?_
  refine Shadows.bind ?_ fun identifiers => .pure _
  exact (h.lookupTogether _).bind fun results => .pure _

lemma Service.Watches.expand (h : watched.Watches forget service) (query : String) :
    Shadows (Session.seen forget) (watched.expand query).run (service.expand query).run := by
  rw [run_expand, run_expand]
  split
  · exact .pure _
  split
  · exact .pure _
  split
  · exact .pure _
  split
  · exact .pure _
  · exact (h.expandClauses query _).bind fun text => .pure _

/-! ### Requests -/

lemma Service.Watches.nameRecords (h : watched.Watches forget service) (catalog : Catalog)
    (names : List String) :
    Shadows (Session.seen forget) (watched.nameRecords catalog names).run
      (service.nameRecords catalog names).run := by
  refine (h.findNames catalog names).lift_run.bind_run fun result => ?_
  cases result <;> exact .pure _

lemma Service.Watches.client_bind_run {α : Type} (h : watched.Watches forget service)
    (catalog : Catalog) {next : CatalogClient τ → Action τ α}
    {plainNext : CatalogClient σ → Action σ α}
    (hnext : ∀ watchedClient client, watchedClient.Watches forget client →
      Shadows (Session.seen forget) (next watchedClient).run (plainNext client).run) :
    Shadows (Session.seen forget) (ExceptT.mk (pure (watched.client catalog)) >>= next).run
      (ExceptT.mk (pure (service.client catalog)) >>= plainNext).run := by
  unfold Service.client
  match watched.catalogs catalog, service.catalogs catalog, h.catalogs catalog with
  | _, _, .none => exact .pure _
  | _, _, .some hclient => exact hnext _ _ hclient

lemma Service.Watches.identifierRecords (h : watched.Watches forget service) (catalog : Catalog)
    (ids : List String) :
    Shadows (Session.seen forget) (watched.identifierRecords catalog ids).run
      (service.identifierRecords catalog ids).run := by
  refine h.client_bind_run catalog fun _ _ hclient => ?_
  refine (hclient.identifiers ids).onWorld.lift_run.bind_run fun reply => ?_
  rw [hclient.timeout]
  split <;> exact .pure _

lemma Service.Watches.lookUp (h : watched.Watches forget service) (request : LookupRequest) :
    Shadows (Session.seen forget) (watched.lookUp request).run (service.lookUp request).run := by
  unfold Service.lookUp
  refine Shadows.bind_run (.pure _) fun catalog => ?_
  split
  · exact .pure _
  · exact (h.nameRecords catalog _).bind_run fun records => .pure _
  · exact (h.identifierRecords catalog _).bind_run fun records => .pure _
  · exact (h.searchAt _).bind_run fun outcome => .pure _

lemma Service.Watches.publications (h : watched.Watches forget service)
    (request : PublicationRequest) :
    Shadows (Session.seen forget) (watched.publications request).run
      (service.publications request).run := by
  unfold Service.publications
  by_cases hempty : request.objects.isEmpty = true
  · simp only [if_pos hempty]
    exact .pure _
  simp only [if_neg hempty]
  refine h.client_bind_run .ned fun _ _ hclient => ?_
  refine (hclient.lookup request.objects).onWorld.lift_run.bind_run fun reply => ?_
  rw [hclient.timeout, h.currentYear]
  split
  · exact .pure _
  split
  · exact .pure _
  match watched.index, service.index, h.index with
  | _, _, .none => exact .pure _
  | _, _, .some hindex =>
    refine (hindex.search _).onWorld.lift_run.bind_run fun answer => ?_
    split <;> exact .pure _

/-- A watched service answers every request as the service does. -/
theorem Service.Watches.answer (h : watched.Watches forget service) (request : ServiceRequest) :
    Shadows (Session.seen forget) (watched.answer request).run (service.answer request).run := by
  cases request with
  | expand query => exact (h.expand query).bind_run fun text => .pure _
  | lookUp request => exact (h.lookUp request).bind_run fun answer => .pure _
  | position text => exact (h.searchAt text).bind_run fun outcome => .pure _
  | publications request => exact (h.publications request).bind_run fun answer => .pure _

/-- After any requests, it is where the service is. -/
theorem Service.Watches.after (h : watched.Watches forget service) (requests : List ServiceRequest)
    (session : Session τ) :
    (watched.after requests session).seen forget = service.after requests
      (session.seen forget) := by
  induction requests generalizing session with
  | nil => rfl
  | cons request requests ih =>
    have hstep := (h.answer request session).2
    change (watched.after requests ((watched.answer request).run session).2).seen forget =
      service.after requests ((service.answer request).run (session.seen forget)).2
    rw [ih, hstep]

end Requests

end SkyResolver
