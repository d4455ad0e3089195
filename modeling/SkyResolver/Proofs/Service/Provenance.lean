import SkyResolver.Proofs.Service.Observation

/-! Where the records in the cache come from. Every reply about names is noted as it comes in;
whatever is found in the cache later is in a reply that was no failure, of the same catalog and
under the same name. -/
namespace SkyResolver
open SkyResolver.Text

/-! ### Noted replies -/

/-- The reply of a catalog that was asked about names. -/
structure NamesReply where
  catalog : Catalog
  asked : List String
  reply : Reply ObjectTable

/-- The reply came in time, is no failure, and has the record under a name with the key. -/
def NamesReply.Gives (noted : NamesReply) (key : Catalog × List Char) (record : SkyObject) : Prop :=
  noted.catalog = key.1 ∧ ∃ found name, noted.reply = .finished (.ok found) ∧
    (name, record) ∈ found.entries ∧ upper name.toList = key.2

/-- A world and the replies about names that were given in it, in their order. -/
structure Noted (σ : Type) where
  world : σ
  replies : List NamesReply

/-- A step of the world whose reply is noted. -/
def noting {σ : Type} (catalog : Catalog) (asked : List String)
    (step : StateM σ (Reply ObjectTable)) :
    StateM (Noted σ) (Reply ObjectTable) := fun noted =>
  let (reply, world) := step.run noted.world
  (reply, { world, replies := noted.replies ++ [⟨catalog, asked, reply⟩] })

/-- A step of the world with nothing to be noted. -/
def unnoted {σ α : Type} (step : StateM σ α) : StateM (Noted σ) α := fun noted =>
  let (result, world) := step.run noted.world
  (result, { noted with world })

def CatalogClient.noted {σ : Type} (catalog : Catalog) (client : CatalogClient σ) :
    CatalogClient (Noted σ) where
  maxRadius := client.maxRadius
  maxResults := client.maxResults
  timeout := client.timeout
  names asked := noting catalog asked (client.names asked)
  lookup asked := unnoted (client.lookup asked)
  identifiers asked := unnoted (client.identifiers asked)
  cone coordinate radius limit := unnoted (client.cone coordinate radius limit)

def IndexClient.noted {σ : Type} (index : IndexClient σ) : IndexClient (Noted σ) where
  verify field asked := unnoted (index.verify field asked)
  search query := unnoted (index.search query)

/-- The service with the replies about names noted. -/
def Service.noted {σ : Type} (service : Service σ) : Service (Noted σ) where
  targets := service.targets
  defaultRadius := service.defaultRadius
  catalogs catalog := (service.catalogs catalog).map (CatalogClient.noted catalog)
  index := service.index.map IndexClient.noted
  verifyCones := service.verifyCones
  currentYear := service.currentYear
  clock noted := service.clock noted.world
  overtaken := service.overtaken

section Noted
variable {σ : Type} (service : Service σ)

lemma shadows_noting (catalog : Catalog) (asked : List String)
    (step : StateM σ (Reply ObjectTable)) :
    Shadows Noted.world (noting catalog asked step) step := fun _ => ⟨rfl, rfl⟩

lemma shadows_unnoted {α : Type} (step : StateM σ α) : Shadows Noted.world (unnoted step) step :=
  fun _ => ⟨rfl, rfl⟩

lemma watches_noted : service.noted.Watches Noted.world service where
  targets := rfl
  defaultRadius := rfl
  catalogs catalog := by
    change Option.Rel _ ((service.catalogs catalog).map (CatalogClient.noted catalog)) _
    cases service.catalogs catalog with
    | none => exact .none
    | some client =>
      exact .some ⟨rfl, rfl, rfl, fun _ => shadows_noting _ _ _, fun _ => shadows_unnoted _,
        fun _ => shadows_unnoted _, fun _ _ _ => shadows_unnoted _⟩
  index := by
    change Option.Rel _ (service.index.map IndexClient.noted) _
    cases service.index with
    | none => exact .none
    | some index => exact .some ⟨fun _ _ => shadows_unnoted _, fun _ => shadows_unnoted _⟩
  verifyCones := rfl
  currentYear := rfl
  clock _ := rfl
  overtaken := rfl

/-! ### The origin of entries -/

/-- Every entry of the cache is in a reply that has been noted. -/
def Documented (session : Session (Noted σ)) : Prop :=
  ∀ entry ∈ session.cache.table.entries, ∃ noted ∈ session.world.replies,
  noted.Gives entry.1 entry.2.value

/-- What a lookup under way has found is a reply that has been noted. -/
def Awaiting (lookup : NameLookup) (session : Session (Noted σ)) : Prop :=
  ∀ found, lookup.asked = some (.ok found) → ∃ noted ∈ session.world.replies,
    noted.catalog = lookup.catalog ∧ noted.reply = .finished (.ok found)

variable {service} {session later : Session (Noted σ)}

lemma Documented.mono (h : Documented session) (hcache : later.cache = session.cache)
    (hreplies : session.world.replies ⊆ later.world.replies) : Documented later := by
  intro entry hentry
  rw [hcache] at hentry
  obtain ⟨noted, hnoted, hgives⟩ := h entry hentry
  exact ⟨noted, hreplies hnoted, hgives⟩

lemma Awaiting.mono {lookup : NameLookup} (h : Awaiting lookup session)
    (hreplies : session.world.replies ⊆ later.world.replies) : Awaiting lookup later := by
  intro found hfound
  obtain ⟨noted, hnoted, hreply⟩ := h found hfound
  exact ⟨noted, hreplies hnoted, hreply⟩

lemma eq_finished_of_inTime {α : Type} {timeout : Duration} {reply : Reply α} {found : α}
    (h : reply.inTime timeout = .ok found) : reply = .finished (.ok found) := by
  cases reply with
  | finished result => exact congrArg Reply.finished h
  | late => cases h

/-- Asking about names adds to the replies, and what is found is in one of them. -/
lemma askNames_noted (catalog : Catalog) (names : List String) (world : Noted σ) :
    world.replies ⊆ (service.noted.askNames catalog names world).2.replies ∧
    ∀ found, (service.noted.askNames catalog names world).1 = .ok found →
      ∃ noted ∈ (service.noted.askNames catalog names world).2.replies,
        noted.catalog = catalog ∧ noted.reply = .finished (.ok found) := by
  unfold Service.askNames Service.noted
  dsimp only
  cases service.catalogs catalog with
  | none => exact ⟨List.Subset.refl _, nofun⟩
  | some client =>
    refine ⟨List.subset_append_left _ _, fun found hfound => ?_⟩
    exact ⟨_, List.mem_append_right _ List.mem_cons_self, rfl, eq_finished_of_inTime hfound⟩

variable (service) in
lemma startLookup_noted (catalog : Catalog) (names : List String) (session : Session (Noted σ)) :
    session.world.replies ⊆ (service.noted.startLookup catalog names session).2.world.replies ∧
    Awaiting (service.noted.startLookup catalog names session).1
      (service.noted.startLookup catalog names session).2 := by
  rw [startLookup_run]
  split
  · exact ⟨List.Subset.refl _, nofun⟩
  · obtain ⟨hreplies, hfound⟩ := askNames_noted catalog _ session.world
    refine ⟨hreplies, fun found heq => ?_⟩
    exact hfound found (Option.some.inj heq)

lemma Documented.finishLookup (h : Documented session) {lookup : NameLookup}
    (hlookup : Awaiting lookup session) :
    Documented (service.noted.finishLookup lookup session).2 := by
  unfold Service.finishLookup
  rcases hasked : lookup.asked with _ | fault | found
  · exact h
  · exact h
  · obtain ⟨noted, hnoted, hcatalog, hreply⟩ := hlookup found hasked
    refine forall_mem_remember (fun key record => ∃ noted ∈ session.world.replies,
      noted.Gives key record) (fun name record hrecord => ?_) h
    exact ⟨noted, hnoted, hcatalog, found, name, hreply, hrecord, rfl⟩

lemma documented_unnoted {α : Type} (step : StateM σ α) : WorldKeeps Documented (unnoted step) :=
  fun _ _ hsession => ⟨trivial, hsession⟩

variable (service) in
lemma documented_sustained : service.noted.Sustains Documented Awaiting where
  start catalog names session hsession := by
    obtain ⟨hreplies, hawaiting⟩ := startLookup_noted service catalog names session
    exact ⟨hsession.mono (cache_startLookup _ _ _ _) hreplies, hawaiting⟩
  finish _ _ hsession hlookup := hsession.finishLookup hlookup
  start_other _ catalog names session hlookup :=
  hlookup.mono (startLookup_noted service catalog names session).1
  finish_other _ other session hlookup :=
    hlookup.mono (by rw [world_finishLookup]; exact List.Subset.refl _)
  lookup catalog client hclient names := by
    obtain ⟨_, _, rfl⟩ := Option.map_eq_some_iff.1 hclient
    exact documented_unnoted _
  identifiers catalog client hclient ids := by
    obtain ⟨_, _, rfl⟩ := Option.map_eq_some_iff.1 hclient
    exact documented_unnoted _
  cone catalog client hclient place radius limit := by
    obtain ⟨_, _, rfl⟩ := Option.map_eq_some_iff.1 hclient
    exact documented_unnoted _
  verify index hindex field ids := by
    obtain ⟨_, _, rfl⟩ := Option.map_eq_some_iff.1 hindex
    exact documented_unnoted _
  search index hindex query := by
    obtain ⟨_, _, rfl⟩ := Option.map_eq_some_iff.1 hindex
    exact documented_unnoted _

end Noted

/-! ### Failed requests -/

section Failures
variable {σ α β : Type}

/-- Whatever comes of the step, the cache stays as it is. -/
def LeavesCache (step : Step σ α) : Prop :=
  ∀ cache, Maintains (fun session : Session σ => session.cache = cache) (fun _ => True) step

/-- Where the action fails, the cache stays as it is. -/
def SparesCache (action : Action σ α) : Prop :=
  ∀ session error, (action.run session).1 = .error error →
  (action.run session).2.cache = session.cache

lemma leavesCache_onWorld (step : StateM σ α) : LeavesCache (onWorld step) :=
  fun _ _ hsession => ⟨trivial, hsession⟩

lemma LeavesCache.spares {action : Action σ α} (h : LeavesCache action.run) : SparesCache action :=
  fun session _ _ => (h session.cache session rfl).2

lemma SparesCache.bind {action : Action σ α} {next : α → Action σ β} (h : LeavesCache action.run)
    (hnext : ∀ a, SparesCache (next a)) : SparesCache (action >>= next) := by
  intro session error herror
  have hleaves := (h session.cache session rfl).2
  rw [run_bind] at herror ⊢
  rcases hrun : action.run session with ⟨_ | a, later⟩
  · rw [StateT.run, hrun] at hleaves
    exact hleaves
  · rw [StateT.run, hrun] at hleaves
    rw [hrun] at herror
    exact (hnext a later error herror).trans hleaves

lemma SparesCache.then_pure {action : Action σ α} (h : SparesCache action) (f : α → β) :
    SparesCache (action >>= fun a => pure (f a)) := by
  intro session error herror
  rw [run_bind] at herror ⊢
  rcases hrun : action.run session with ⟨fault | a, later⟩
  · have hspares := h session fault (by rw [hrun])
    rwa [hrun] at hspares
  · rw [hrun] at herror
    cases herror

variable (service : Service σ)

lemma leavesCache_searchAt (text : String) : LeavesCache (service.searchAt text).run := by
  intro cache
  unfold Service.searchAt
  split
  · refine (leavesCache_onWorld _ cache).keep_bind fun result => ?_
    cases result <;> exact .pure trivial
  · exact .pure trivial

lemma leavesCache_identifierRecords (catalog : Catalog) (ids : List String) :
    LeavesCache (service.identifierRecords catalog ids).run := by
  intro cache
  refine Maintains.mk_pure_bind_run (fun client _ => ?_) fun _ _ => trivial
  refine (leavesCache_onWorld _ cache).lift_run.keep.keep_bind_run fun reply => ?_
  split <;> exact .pure trivial

/-- A lookup writes into the cache only when it cannot fail any more. -/
lemma cache_findNames_of_error {catalog : Catalog} {names : List String} {session : Session σ}
    {fault : CatalogFault} (h : (service.findNames catalog names session).1 = .error fault) :
    (service.findNames catalog names session).2.cache = session.cache := by
  rw [result_findNames, NameLookup.result] at h
  rw [← cache_startLookup service catalog names session]
  change (service.finishLookup (service.startLookup catalog names session).1
    (service.startLookup catalog names session).2).2.cache = _
  unfold Service.finishLookup
  rcases hasked : (service.startLookup catalog names session).1.asked with _ | _ | found
  · rfl
  · rfl
  · rw [hasked] at h
    cases h

lemma sparesCache_nameRecords (catalog : Catalog) (names : List String) :
    SparesCache (service.nameRecords catalog names) := by
  intro session error herror
  have hrun : (service.nameRecords catalog names).run session =
      ((service.findNames catalog names session).1.mapError (ServiceError.catalog catalog),
        (service.findNames catalog names session).2) := by
    have hlift : (ExceptT.lift (service.findNames catalog names) : Action σ _).run session =
        (.ok (service.findNames catalog names session).1,
          (service.findNames catalog names session).2) := rfl
    rw [Service.nameRecords, run_bind, hlift]
    dsimp only
    cases (service.findNames catalog names session).1 <;> rfl
  rw [hrun] at herror ⊢
  cases hfind : (service.findNames catalog names session).1 with
  | error fault => exact cache_findNames_of_error service hfind
  | ok records =>
    rw [hfind] at herror
    cases herror

/-- A request for records that fails leaves the cache as it is. -/
lemma sparesCache_lookUp (request : LookupRequest) : SparesCache (service.lookUp request) := by
  refine SparesCache.bind (fun _ => .pure trivial) fun catalog => ?_
  split
  · exact fun _ _ _ => rfl
  · exact (sparesCache_nameRecords service catalog _).then_pure _
  · exact (leavesCache_identifierRecords service catalog _).spares.then_pure _
  · exact (leavesCache_searchAt service _).spares.then_pure _

end Failures

/-- After any requests, whatever the catalogs replied and whether they did, each record in the cache
has come from the catalog it stands under, in a reply that was no failure and under a name that is
its key in upper case. The notes about replies take no part in this. A request for records that
fails leaves the cache as it is. -/
theorem cache_documented {σ : Type} (service : Service σ) (ttl : Duration) (start : σ)
    (requests : List ServiceRequest) :
    let noted := service.noted.after requests ⟨Cache.empty ttl, ⟨start, []⟩⟩
    let session := service.after requests ⟨Cache.empty ttl, start⟩
    noted.seen Noted.world = session ∧
    (∀ entry ∈ session.cache.table.entries, ∃ reply ∈ noted.world.replies,
      reply.Gives entry.1 entry.2.value) ∧
    ∀ (before : Session σ) request error,
      ((service.answer (.lookUp request)).run.run before).1 = .error error →
      ((service.answer (.lookUp request)).run.run before).2.cache = before.cache := by
  intro noted session
  have hseen : noted.seen Noted.world = session := (watches_noted service).after requests _
  refine ⟨hseen, ?_, fun before request error herror => ?_⟩
  · rw [← hseen]
    exact (documented_sustained service).after requests nofun
  · exact (sparesCache_lookUp service request).then_pure Answer.found before error herror

end SkyResolver
