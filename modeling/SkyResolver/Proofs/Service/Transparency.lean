import SkyResolver.Proofs.Service.NameCache
import SkyResolver.Proofs.Service.Runs

/-! Requests over a cache that has grown. Every answer about names is what is known of them, so
whatever a request makes of such answers is the same for every faithful cache. -/
namespace SkyResolver
open SkyResolver.Query SkyResolver.Text

section Transparency
variable {σ : Type} {service : Service σ} {known : Knowledge}

/-! ### Lookups under way together -/

lemma Service.Steady.conserves (h : service.Steady known) :
    service.Conserves (service.Consistent known)
      (fun lookup _ => ∃ catalog names, service.Pending known catalog names lookup) where
  start catalog names session hsession :=
    have hstart := h.startLookup catalog names session hsession
    ⟨hstart.2, catalog, names, hstart.1⟩
  finish _ session hsession := fun ⟨_, _, hlookup⟩ => (hlookup.finishLookup session hsession).2
  start_other _ _ _ _ hlookup := hlookup
  finish_other _ _ _ hlookup := hlookup

/-- However lookups overtake each other, each one ends with what is known. -/
theorem Service.Steady.lookupTogether (h : service.Steady known)
    (lookups : List (Catalog × String)) :
    Maintains (service.Consistent known)
      (List.Forall₂ (fun lookup => service.Answers known lookup.1 [lookup.2]) lookups)
      (service.lookupTogether lookups) := by
  intro session hsession
  refine ⟨?_, (h.conserves.lookupTogether lookups session hsession).2⟩
  change List.Forall₂ _ lookups (service.lookupTogether lookups session).1
  rw [result_lookupTogether, List.forall₂_map_right_iff]
  refine List.forall₂_iff_get.2 ⟨by simp, fun i hi hi' => ?_⟩
  simp only [List.get_eq_getElem, List.getElem_zipIdx, Nat.zero_add]
  exact (h.findNames _ _ _ (h.conserves.sessionAt lookups hsession i)).1

/-! ### Cone searches -/

lemma Service.Steady.askAround (h : service.Steady known) (position : Position)
    (catalog : Catalog) :
    Settled (fun _ => True) (askAround position (service.catalogs catalog)) := by
  cases hclient : service.catalogs catalog with
  | none => exact .pure _
  | some client =>
    obtain ⟨reply, hreply⟩ :=
      h.cone catalog client hclient (position.limited client.maxRadius).coordinate
      (position.limited client.maxRadius).radius client.maxResults
    exact (Settled.of_eq hreply).bind fun _ => .pure _

lemma Service.Steady.contribution (h : service.Steady known) (catalog : Catalog)
    (answer : Except CatalogFault (List String)) :
    Settled (fun _ => True) (contribution service.coneIndex catalog answer) := by
  cases answer with
  | error fault => exact .pure _
  | ok ids =>
    unfold SkyResolver.contribution
    dsimp only
    cases hindex : service.coneIndex with
    | none => cases distinct ids <;> exact .pure _
    | some index =>
      obtain ⟨verified, hverified⟩ := h.verify index (index_of_coneIndex hindex) catalog.field
        (distinct ids)
      cases hids : distinct ids with
      | nil => exact .pure _
      | cons id rest =>
        rw [hids] at hverified
        refine (Settled.of_eq hverified).bind fun result => ?_
        split <;> exact .pure _

lemma Service.Steady.searchCone (h : service.Steady known) (position : Position) :
    Settled (fun _ => True) (searchCone service.catalogs service.coneIndex position) := by
  unfold SkyResolver.searchCone
  refine (Settled.mapM fun catalog _ => (h.askAround position catalog).bind fun _ => .pure _).bind
    fun answers => ?_
  refine (Settled.mapM fun x _ => (h.contribution x.1 x.2).bind fun _ => .pure _).bind
    fun contributions => ?_
  dsimp only
  split <;> exact .pure _

lemma Service.Steady.searchAround (h : service.Steady known) (position : Position) :
    Settled (service.Consistent known) (service.searchAround position).run := by
  refine (h.searchCone position).onWorld.bind fun result => ?_
  cases result <;> exact .pure _

lemma Service.Steady.searchAt (h : service.Steady known) (text : String) :
    Settled (service.Consistent known) (service.searchAt text).run := by
  unfold Service.searchAt
  split
  · exact h.searchAround _
  · exact .pure _

lemma Service.Steady.clauseCone (h : service.Steady known) (clause : Clause) :
    Settled (service.Consistent known) (service.clauseCone clause) := by
  unfold Service.clauseCone
  split
  · refine Settled.bind ((h.searchAround _).bind fun result => ?_) fun _ => .pure _
    cases result <;> exact .pure _
  · exact .pure _

/-! ### Expansions -/

/-- The identifier that stands for a name in expanded queries. -/
def Service.identifier (service : Service σ) (known : Knowledge) (lookup : Catalog × String) :
    String :=
  if (service.catalogs lookup.1).isSome then
    ((known lookup.1 (upper lookup.2.toList)).map SkyObject.id).getD absentId
  else absentId

lemma identifierIn_eq {catalog : Catalog} {name : String} {result : Except CatalogFault ObjectTable}
    (h : service.Answers known catalog [name] result) :
    identifierIn name result = service.identifier known (catalog, name) := by
  cases result with
  | ok found =>
    obtain ⟨hclient, hfound⟩ := h name (List.mem_singleton_self name)
    rw [Service.identifier, if_pos hclient, identifierIn, hfound]
  | error fault =>
    obtain ⟨-, hclient, -⟩ := h
    rw [Service.identifier, hclient]
    rfl

lemma zip_identifierIn {lookups : List (Catalog × String)}
    {results : List (Except CatalogFault ObjectTable)}
    (h : List.Forall₂ (fun lookup => service.Answers known lookup.1 [lookup.2]) lookups results) :
    ((lookups.zip results).map fun (lookup, result) => (lookup, identifierIn lookup.2 result)) =
      lookups.map fun lookup => (lookup, service.identifier known lookup) := by
  induction h with
  | nil => rfl
  | cons hresult _ ih =>
    rw [List.zip_cons_cons, List.map_cons, List.map_cons, ih]
    exact congrArg (fun id => (_, id) :: _) (identifierIn_eq hresult)

lemma Service.Steady.identifiersOf (h : service.Steady known) (names : List String) :
    Settled (service.Consistent known) (service.identifiersOf names) := by
  refine ⟨Table.ofList ((service.targets.flatMap fun catalog =>
    names.map fun name => (catalog, name)).map fun lookup =>
      (lookup, service.identifier known lookup)), ?_⟩
  refine (h.lookupTogether _).bind fun results hresults => .pure ?_
  exact congrArg Table.ofList (zip_identifierIn hresults)

lemma Service.Steady.expand (h : service.Steady known) (query : String) :
    Settled (service.Consistent known) (service.expand query).run := by
  have hclauses : ∀ extraction,
      Settled (service.Consistent known) (service.expandClauses query extraction) := by
    intro extraction
    refine (Settled.mapM fun clause _ => h.clauseCone clause).bind fun cones => ?_
    exact (h.identifiersOf _).bind fun identifiers => .pure _
  unfold Service.expand
  by_cases hempty : (trim query.toList).isEmpty = true
  · simp only [if_pos hempty]
    exact .pure _
  · simp only [if_neg hempty]
    split
    · exact .pure _
    · split
      · exact .pure _
      · split
        · exact .pure _
        · exact (hclauses _).lift_run

/-! ### Requests -/

/-- The answer about names. -/
def Service.knownAnswer (service : Service σ) (known : Knowledge) (catalog : Catalog)
    (names : List String) : Except ServiceError LookupAnswer :=
  if (service.catalogs catalog).isSome ∨ names = [] then
    .ok (.records ((distinct names).map fun name => (name, known catalog (upper name.toList))))
  else .error (.catalog catalog (.transport .notConfigured))

lemma Service.Steady.nameRecords (h : service.Steady known) (catalog : Catalog)
    (names : List String) :
    Maintains (service.Consistent known)
      (fun result => ∃ answer, service.Answers known catalog names answer ∧
        result = answer.mapError (ServiceError.catalog catalog))
      (service.nameRecords catalog names).run := by
  refine (h.findNames catalog names).lift_run.bind_run ?_ ?_
  · rintro answer ⟨_, ⟨⟩, hanswer⟩
    cases answer with
    | ok found => exact .pure ⟨.ok found, hanswer, rfl⟩
    | error fault => exact .pure ⟨.error fault, hanswer, rfl⟩
  · rintro _ ⟨_, ⟨⟩, _⟩

lemma Service.Steady.nameAnswer (h : service.Steady known) (catalog : Catalog)
    (names : List String) :
    Settled (service.Consistent known)
      (do return LookupAnswer.ofKeys names (← service.nameRecords catalog names) :
        Action σ LookupAnswer).run := by
  refine ⟨service.knownAnswer known catalog names, (h.nameRecords catalog names).bind_run ?_ ?_⟩
  · rintro found ⟨answer, hanswer, hresult⟩
    obtain rfl : answer = .ok found := by cases answer <;> cases hresult; rfl
    refine .pure ?_
    have hrecords : ((distinct names).map fun name => (name, found.get? name)) =
        (distinct names).map fun name => (name, known catalog (upper name.toList)) :=
      List.map_congr_left fun name hname => by rw [(hanswer name (mem_distinct.1 hname)).2]
    have hknown : (service.catalogs catalog).isSome ∨ names = [] := by
      cases names with
      | nil => exact .inr rfl
      | cons name names => exact .inl (hanswer name List.mem_cons_self).1
    rw [Service.knownAnswer, if_pos hknown, ← hrecords]
    rfl
  · rintro error ⟨answer, hanswer, hresult⟩
    cases answer with
    | ok found => cases hresult
    | error fault =>
      obtain ⟨rfl, hclient, hne⟩ := hanswer
      cases hresult
      rw [Service.knownAnswer, if_neg (by simp [hclient, hne])]

lemma Service.Steady.identifierRecords (h : service.Steady known) (catalog : Catalog)
    (ids : List String) :
    Settled (service.Consistent known) (service.identifierRecords catalog ids).run := by
  refine Settled.mk_pure_bind_run fun client hclient => ?_
  obtain ⟨reply, hreply⟩ := h.identifiers catalog client (catalogs_of_client hclient) ids
  refine (Settled.of_eq hreply).onWorld.lift_run.bind_run fun reply => ?_
  split <;> exact .pure _

lemma Service.Steady.lookUp (h : service.Steady known) (request : LookupRequest) :
    Settled (service.Consistent known) (service.lookUp request).run := by
  refine Settled.mk_pure_bind_run fun catalog _ => ?_
  split
  · exact .pure _
  · exact h.nameAnswer catalog _
  · exact (h.identifierRecords catalog _).bind_run fun _ => .pure _
  · exact (h.searchAt _).bind_run fun _ => .pure _

/-- The cache is faithful after any requests. -/
theorem Service.Steady.after (h : service.Steady known) (requests : List ServiceRequest)
    {session : Session σ} (hsession : service.Faithful known session.cache) :
    service.Faithful known (service.after requests session).cache :=
  (h.conserves.sustains (service.Faithful known)).after requests hsession

/-- Whatever requests came before, a query is expanded and a lookup is answered as by a service that
has just started. -/
theorem answer_after (h : service.Steady known) (ttl : Duration) (start world : σ)
    (earlier : List ServiceRequest) :
    (∀ query, ((service.answer (.expand query)).run.run
        (service.after earlier ⟨Cache.empty ttl, start⟩)).1 =
      ((service.answer (.expand query)).run.run ⟨Cache.empty ttl, world⟩).1) ∧
    ∀ request, ((service.answer (.lookUp request)).run.run
        (service.after earlier ⟨Cache.empty ttl, start⟩)).1 =
      ((service.answer (.lookUp request)).run.run ⟨Cache.empty ttl, world⟩).1 := by
  have hfresh : service.Faithful known (Cache.empty ttl) := faithful_empty ttl
  have hafter : service.Faithful known (service.after earlier ⟨Cache.empty ttl, start⟩).cache :=
    h.after earlier hfresh
  refine ⟨fun query => ?_, fun request => ?_⟩
  · exact ((h.expand query).bind_run fun _ => .pure _).eq hafter hfresh
  · exact ((h.lookUp request).bind_run fun _ => .pure _).eq hafter hfresh

end Transparency

/-- A catalog that answers about names from what is known. -/
def CatalogClient.knowing (known : List Char → Option SkyObject) : CatalogClient Unit where
  maxRadius := 1.0
  maxResults := 1
  timeout := .ofSeconds 1
  names asked := pure (.finished (.ok ⟨asked.filterMap fun name =>
    (known (upper name.toList)).map fun record => (name, record)⟩))
  lookup _ := pure .late
  identifiers _ := pure .late
  cone _ _ _ := pure .late

def Service.knowing (known : Knowledge) : Service Unit where
  targets := Catalog.all
  defaultRadius := 0.1
  catalogs catalog := some (.knowing (known catalog))
  index := none
  verifyCones := false
  currentYear := 2024
  clock _ := 0
  overtaken := List.range

lemma knowing_steady (known : Knowledge) : (Service.knowing known).Steady known where
  names := by
    rintro catalog client ⟨⟩ asked world
    refine ⟨_, rfl, fun name record => ?_⟩
    simp only [List.mem_filterMap, Option.map_eq_some_iff, Prod.mk.injEq]
    constructor
    · rintro ⟨_, hname, _, hrecord, rfl, rfl⟩
      exact ⟨hname, hrecord⟩
    · rintro ⟨hname, hrecord⟩
      exact ⟨name, hname, record, hrecord, rfl, rfl⟩
  identifiers := by
    rintro catalog client ⟨⟩ ids
    exact ⟨_, fun _ => rfl⟩
  cone := by
    rintro catalog client ⟨⟩ place radius limit
    exact ⟨_, fun _ => rfl⟩
  verify := by
    rintro index ⟨⟩

/-- What is known of a single object. -/
def knownAndromeda : Knowledge := fun _ name =>
  if name = "M31".toList then some ⟨"1575544", "M 31"⟩ else none

theorem answer_after_of_two_spellings :
    (Service.knowing knownAndromeda).Steady knownAndromeda ∧
    ((Service.knowing knownAndromeda).after [.lookUp ⟨none, some ["m31", "x"], none, none⟩]
      ⟨Cache.empty (.ofSeconds 1), ()⟩).cache.size = 1 ∧
    (∀ query, (((Service.knowing knownAndromeda).answer (.expand query)).run.run
        ((Service.knowing knownAndromeda).after [.lookUp ⟨none, some ["m31", "x"], none, none⟩]
          ⟨Cache.empty (.ofSeconds 1), ()⟩)).1 =
      (((Service.knowing knownAndromeda).answer (.expand query)).run.run
        ⟨Cache.empty (.ofSeconds 1), ()⟩).1) ∧
    ∀ request, (((Service.knowing knownAndromeda).answer (.lookUp request)).run.run
        ((Service.knowing knownAndromeda).after [.lookUp ⟨none, some ["m31", "x"], none, none⟩]
          ⟨Cache.empty (.ofSeconds 1), ()⟩)).1 =
      (((Service.knowing knownAndromeda).answer (.lookUp request)).run.run
        ⟨Cache.empty (.ofSeconds 1), ()⟩).1 :=
  ⟨knowing_steady knownAndromeda, by decide +kernel,
    answer_after (knowing_steady knownAndromeda) (.ofSeconds 1) () () _⟩

end SkyResolver
