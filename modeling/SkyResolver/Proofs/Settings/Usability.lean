import SkyResolver.Service.Setup
import SkyResolver.Settings.Flaw
import SkyResolver.Proofs.Service.ConeSearch

/-! What the check of a configuration promises. A configuration passes just when its targets mean
catalogs, all its limits but one leave room, and an index that is to be asked has an address. The
limit that is not looked at is the timeout of the index. -/
namespace SkyResolver

/-! ### Targets -/

/-- The catalogs that names mean, one for each name. -/
def NamedBy (names : List String) (catalogs : List Catalog) : Prop :=
  names.map Catalog.ofName? = catalogs.map some

instance (names : List String) (catalogs : List Catalog) : Decidable (NamedBy names catalogs) :=
  inferInstanceAs (Decidable (_ = _))

section Targets
variable {name : String} {names : List String} {catalog : Catalog} {catalogs : List Catalog}

lemma namedBy_cons : NamedBy (name :: names) (catalog :: catalogs) ↔
    Catalog.ofName? name = some catalog ∧ NamedBy names catalogs := by
  simp only [NamedBy, List.map_cons, List.cons.injEq]

lemma namedBy_of_mapM {f : String → Except String Catalog}
    (hf : ∀ name catalog, f name = .ok catalog → Catalog.ofName? name = some catalog)
    (h : names.mapM f = .ok catalogs) : NamedBy names catalogs := by
  induction names generalizing catalogs with
  | nil =>
    cases h
    rfl
  | cons name names ih =>
    rw [List.mapM_cons] at h
    cases hname : f name with
    | error other =>
      rw [hname] at h
      cases h
    | ok catalog =>
      rw [hname] at h
      cases hnames : names.mapM f with
      | error other =>
        rw [hnames] at h
        cases h
      | ok rest =>
        rw [hnames] at h
        cases h
        exact namedBy_cons.2 ⟨hf name catalog hname, ih hnames⟩

lemma mapM_of_namedBy {f : String → Except String Catalog}
    (hf : ∀ name catalog, Catalog.ofName? name = some catalog → f name = .ok catalog)
    (h : NamedBy names catalogs) : names.mapM f = .ok catalogs := by
  induction names generalizing catalogs with
  | nil =>
    cases catalogs with
    | nil => rfl
    | cons catalog catalogs => cases h
  | cons name names ih =>
    cases catalogs with
    | nil => cases h
    | cons catalog catalogs =>
      obtain ⟨hname, hnames⟩ := namedBy_cons.1 h
      rw [List.mapM_cons, hf name catalog hname, ih hnames]
      rfl

/-- The targets are the catalogs that the names mean, each at its first mention. -/
lemma catalogsOfNames_eq_ok :
    catalogsOfNames names = .ok catalogs ↔ ∃ meant, NamedBy names meant ∧
    catalogs = meant.eraseDups := by
  unfold catalogsOfNames
  constructor
  · intro h
    generalize hmapM : names.mapM (m := Except String) _ = result at h
    cases result with
    | error name => cases h
    | ok meant =>
      cases h
      refine ⟨meant, namedBy_of_mapM (fun name catalog hname => ?_) hmapM,
        distinct_eq_eraseDups meant⟩
      split at hname
      · cases hname
        assumption
      · cases hname
  · rintro ⟨meant, hnamed, rfl⟩
    rw [mapM_of_namedBy (fun name catalog hname => by rw [hname]) hnamed, ← distinct_eq_eraseDups]
    rfl

end Targets

/-! ### Usable configurations -/

/-- The limits of a catalog leave room for answers. -/
structure LimitsOpen (maxRadius : Float) (maxNumber timeoutSecs : ℕ) : Prop where
  radius : 0.0 < maxRadius
  number : 0 < maxNumber
  timeout : 0 < timeoutSecs

/-- A service can be set up, and it has what it needs for all requests but those to the index. -/
structure Settings.Furnished (settings : Settings) : Prop where
  targets : ∃ meant, NamedBy settings.targets meant ∧ meant ≠ [] ∧
    settings.targetList = .ok meant.eraseDups ∧ meant.eraseDups.Nodup
  service :
  ∀ {σ : Type} (catalogs : Catalog → Option (CatalogClient σ)) (index : Option (IndexClient σ))
    (currentYear : Int) (clock : σ → ℕ) (overtaken : ℕ → List ℕ),
    ∃ service, Service.ofSettings settings catalogs index currentYear clock overtaken =
    .ok service ∧
      settings.targetList = .ok service.targets ∧ service.targets ≠ []
  defaultRadius : 0.0 < settings.defaultRadius
  cacheTtl : 0 < settings.cacheTtlSecs
  simbad :
  LimitsOpen settings.simbad.maxRadius settings.simbad.maxNumber settings.simbad.timeoutSecs
  ned : LimitsOpen settings.ned.maxRadius settings.ned.maxNumber settings.ned.timeoutSecs
  maxHits : 0 < settings.index.maxHits

/-- Requests to the index can be answered as well. -/
structure Settings.Usable (settings : Settings) : Prop extends settings.Furnished where
  indexTimeout : 0 < settings.index.timeoutSecs

/-! ### The check -/

section Check
variable {β : Type} {condition : Bool} {flaw : SettingsFlaw} {b : β}

lemma demand_bind_eq_ok {next : Unit → Except SettingsFlaw β} :
    demand condition flaw >>= next = .ok b ↔ condition = true ∧ next () = .ok b := by
  cases condition with
  | false => simp [demand, bind, Except.bind]
  | true => simp [demand, bind, Except.bind]

lemma demand_eq_ok : demand condition flaw = .ok () ↔ condition = true := by
  cases condition <;> simp [demand]

lemma checkLimits_bind_eq_ok {catalog : Catalog} {maxRadius : Float} {maxNumber timeoutSecs : ℕ}
    {next : Unit → Except SettingsFlaw β} :
    checkLimits catalog maxRadius maxNumber timeoutSecs >>= next = .ok b ↔
      LimitsOpen maxRadius maxNumber timeoutSecs ∧ next () = .ok b := by
  rw [checkLimits, bind_assoc, demand_bind_eq_ok, bind_assoc, demand_bind_eq_ok, demand_bind_eq_ok]
  simp only [decide_eq_true_eq, bne_iff_ne, ne_eq, ← Nat.pos_iff_ne_zero]
  exact ⟨fun ⟨hradius, hnumber, htimeout, hnext⟩ => ⟨⟨hradius, hnumber, htimeout⟩, hnext⟩,
    fun ⟨h, hnext⟩ => ⟨h.radius, h.number, h.timeout, hnext⟩⟩

end Check

section Settings
variable {settings : Settings} {targets : List Catalog}

lemma Settings.exists_service {σ : Type} (htargets : settings.targetList = .ok targets)
    (catalogs : Catalog → Option (CatalogClient σ)) (index : Option (IndexClient σ))
    (currentYear : Int) (clock : σ → ℕ) (overtaken : ℕ → List ℕ) :
    ∃ service, Service.ofSettings settings catalogs index currentYear clock overtaken =
      .ok service ∧
      service.targets = targets := by
  rw [Service.ofSettings, htargets]
  exact ⟨_, rfl, rfl⟩

lemma Settings.check_eq_ok_iff : settings.check = .ok () ↔
    0.0 < settings.defaultRadius ∧ 0 < settings.cacheTtlSecs ∧
      (∃ targets, settings.targetList = .ok targets ∧ targets ≠ []) ∧
      LimitsOpen settings.simbad.maxRadius settings.simbad.maxNumber settings.simbad.timeoutSecs ∧
      LimitsOpen settings.ned.maxRadius settings.ned.maxNumber settings.ned.timeoutSecs ∧
      (settings.index.verify = true → settings.index.queryUrl ≠ "") ∧
      0 < settings.index.maxHits := by
  have hindex : (!(settings.index.verify && settings.index.queryUrl.isEmpty)) = true ↔
      (settings.index.verify = true → settings.index.queryUrl ≠ "") := by
    cases settings.index.verify <;> simp
  rw [Settings.check, demand_bind_eq_ok, demand_bind_eq_ok]
  cases htargets : settings.targetList with
  | error name => simp [bind, Except.bind]
  | ok targets =>
    dsimp only
    rw [demand_bind_eq_ok, checkLimits_bind_eq_ok, checkLimits_bind_eq_ok, demand_bind_eq_ok,
      demand_eq_ok, hindex]
    simp [← Nat.pos_iff_ne_zero]

/-- A target list that is there and is not empty is all that a service needs to be set up. -/
lemma Settings.furnished_of_check (h : settings.check = .ok ()) : settings.Furnished := by
  obtain ⟨hradius, httl, ⟨targets, htargets, hne⟩, hsimbad, hned, -, hhits⟩ :=
    Settings.check_eq_ok_iff.1 h
  refine ⟨?_, ?_, hradius, httl, hsimbad, hned, hhits⟩
  · obtain ⟨meant, hnamed, rfl⟩ := catalogsOfNames_eq_ok.1 htargets
    exact ⟨meant, hnamed, fun hnil => hne (by rw [hnil, List.eraseDups_nil]), htargets,
      distinct_eq_eraseDups meant ▸ nodup_distinct meant⟩
  · intro σ catalogs index currentYear clock overtaken
    obtain ⟨service, hservice, rfl⟩ :=
      Settings.exists_service htargets catalogs index currentYear clock overtaken
    exact ⟨service, hservice, htargets, hne⟩

/-- A configuration passes the check just when it furnishes a service and gives the address of an
index that is to be asked before identifiers are used. Where it passes, it is usable just when the
timeout of the index is not zero, which the check does not look at. -/
theorem Settings.check_iff_furnished (settings : Settings) :
    (settings.check = .ok () ↔
      settings.Furnished ∧ (settings.index.verify = true → settings.index.queryUrl ≠ "")) ∧
    (settings.check = .ok () → (settings.Usable ↔ 0 < settings.index.timeoutSecs)) := by
  refine ⟨⟨fun h => ⟨furnished_of_check h, ?_⟩, fun ⟨h, hquery⟩ => Settings.check_eq_ok_iff.2 ?_⟩,
    fun h => ⟨fun husable => husable.indexTimeout,
      fun htimeout => ⟨furnished_of_check h, htimeout⟩⟩⟩
  · obtain ⟨-, -, -, -, -, hquery, -⟩ := Settings.check_eq_ok_iff.1 h
    exact hquery
  · obtain ⟨meant, -, hne, htargets, -⟩ := h.targets
    refine ⟨h.defaultRadius, h.cacheTtl, ⟨_, htargets, ?_⟩, h.simbad, h.ned, hquery, h.maxHits⟩
    rw [← distinct_eq_eraseDups]
    exact mt distinct_eq_nil.1 hne

end Settings

/-- A configuration whose targets name one catalog twice. -/
def nedFirst : Settings := { targets := [" NED", "simbad", "ned"] }

theorem Settings.check_iff_furnished_of_nedFirst :
    nedFirst.check = .ok () ∧ 0 < nedFirst.index.timeoutSecs ∧ nedFirst.Usable ∧
      nedFirst.targetList = .ok [.ned, .simbad] := by
  have htargets : nedFirst.targetList = .ok [.ned, .simbad] :=
    catalogsOfNames_eq_ok.2 ⟨[.ned, .simbad, .ned], by decide, by decide⟩
  have hcheck : nedFirst.check = .ok () :=
    Settings.check_eq_ok_iff.2 ⟨by decide +kernel, by decide, ⟨_, htargets, by decide⟩,
      ⟨by decide +kernel, by decide, by decide⟩, ⟨by decide +kernel, by decide, by decide⟩, by
    decide, by decide⟩
  exact ⟨hcheck, by decide, ((Settings.check_iff_furnished nedFirst).2 hcheck).2 (by decide),
    htargets⟩

/-- An index that is given no time passes the check. -/
theorem Settings.check_of_timeless_index :
    ({ index := { timeoutSecs := 0 } } : Settings).check = .ok () ∧
      ¬({ index := { timeoutSecs := 0 } } : Settings).Usable := by
  refine ⟨Settings.check_eq_ok_iff.2 ⟨by decide +kernel, by decide,
    ⟨[.simbad, .ned], ?_, by decide⟩, ⟨by decide +kernel, by decide, by decide⟩,
    ⟨by decide +kernel, by decide, by decide⟩, by decide, by decide⟩, ?_⟩
  · exact catalogsOfNames_eq_ok.2 ⟨[.simbad, .ned], by decide, by decide⟩
  · exact fun h => absurd h.indexTimeout (by decide)

end SkyResolver
