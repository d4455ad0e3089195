import SkyResolver.Proofs.Service.Steps

/-! What a cone search makes of the answers of the catalogs and of the index. Each catalog is taken
by itself: it contributes its own answer or gives its own reason, whatever comes of the other one.
-/
namespace SkyResolver

/-- The items of a list at their first places are what is left when later repetitions are erased. -/
lemma distinct_eq_eraseDups {α : Type} [DecidableEq α] (l : List α) : distinct l = l.eraseDups := by
  induction l using distinct_induction with
  | nil => rfl
  | cons a l ih =>
    rw [distinct_cons, List.eraseDups_cons, ih]
    congr 3
    funext b
    rw [Bool.eq_iff_iff]
    simp

lemma distinct_eq_nil {α : Type} [DecidableEq α] {l : List α} : distinct l = [] ↔ l = [] := by
  cases l with
  | nil => simp [distinct]
  | cons a l => simp [distinct_cons]

/-! ### The answers -/

section Answers
variable {σ : Type} (service : Service σ) (position : Position) (world : σ)

/-- The world in which a catalog is asked: SIMBAD is the first one. -/
def Service.coneWorld : Catalog → σ
  | .simbad => world
  | .ned => (askAround position (service.catalogs .simbad) world).2

/-- What a catalog, if there is one, answers about the surroundings of the position, with the radius
limited to what the catalog allows. -/
def Service.coneReply (catalog : Catalog) : Option (Reply (List String)) :=
  (service.catalogs catalog).map fun client =>
    let within := position.limited client.maxRadius
    (client.cone within.coordinate within.radius client.maxResults
      (service.coneWorld position world catalog)).1

/-- The answer of a catalog, or why there is none. -/
def Service.coneAnswer (catalog : Catalog) : Except CatalogFault (List String) :=
  (askAround position (service.catalogs catalog) (service.coneWorld position world catalog)).1

/-- The world when both catalogs have been asked. -/
def Service.askedWorld : σ :=
  (askAround position (service.catalogs .ned) (service.coneWorld position world .ned)).2

/-- The world in which the index is asked about the answer of a catalog: it is asked about the
answer of SIMBAD before it is asked about that of NED. -/
def Service.verifyWorld : Catalog → σ
  | .simbad => service.askedWorld position world
  | .ned => (contribution service.coneIndex .simbad (service.coneAnswer position world .simbad)
      (service.askedWorld position world)).2

/-- The catalog contributes what it found: it answered in time with at least one identifier, and
there is no index that says that it has none of them. An index that fails does not say so. -/
structure Service.Contributes (catalog : Catalog) (found : List String) : Prop where
  answered : service.coneReply position world catalog = some (.finished (.ok found))
  nonempty : found ≠ []
  indexed : ∀ index, service.coneIndex = some index →
    (index.verify catalog.field found.eraseDups (service.verifyWorld position world catalog)).1 ≠
    .ok false

/-- The reason for which a catalog does not contribute. -/
inductive Service.Withholds (catalog : Catalog) : ConeFault → Prop where
  | notConfigured (hreply : service.coneReply position world catalog = none) :
      Withholds catalog (.failed (.transport .notConfigured))
  | late {client : CatalogClient σ} (hclient : service.catalogs catalog = some client)
      (hreply : service.coneReply position world catalog = some .late) :
      Withholds catalog (.failed (.timeout client.timeout))
  | failed {fault : CatalogFault}
      (hreply : service.coneReply position world catalog = some (.finished (.error fault))) :
      Withholds catalog (.failed fault)
  | noObjects (hreply : service.coneReply position world catalog = some (.finished (.ok []))) :
      Withholds catalog .noObjects
  | notIndexed {found : List String} {index : IndexClient σ}
      (hreply : service.coneReply position world catalog = some (.finished (.ok found)))
      (hfound : found ≠ []) (hindex : service.coneIndex = some index)
      (hverify : (index.verify catalog.field found.eraseDups
        (service.verifyWorld position world catalog)).1 = .ok false) :
      Withholds catalog .notIndexed

/-- What comes of a catalog. -/
def Service.conePart (catalog : Catalog) : Except ConeFault (List String) :=
  (contribution service.coneIndex catalog (service.coneAnswer position world catalog)
    (service.verifyWorld position world catalog)).1

end Answers

/-! ### One catalog -/

section Contribution
variable {σ : Type} {index : Option (IndexClient σ)} {catalog : Catalog}
  {found : List String} {world : σ}

lemma contribution_of_admitted (hfound : found ≠ []) (hindex : ∀ client, index = some client →
      (client.verify catalog.field found.eraseDups world).1 ≠ .ok false) :
    (contribution index catalog (.ok found) world).1 = .ok found.eraseDups := by
  obtain ⟨id, ids, hids⟩ := List.exists_cons_of_ne_nil (mt distinct_eq_nil.1 hfound)
  rw [← distinct_eq_eraseDups, hids] at hindex ⊢
  cases index with
  | none => simp only [contribution, hids]; rfl
  | some client =>
    have hverify := hindex client rfl
    simp only [contribution, hids]
    rw [bind_apply]
    generalize (client.verify catalog.field (id :: ids) world).1 = answer at hverify ⊢
    rcases answer with fault | _ | _
    · rfl
    · exact absurd rfl hverify
    · rfl

lemma contribution_of_rejected {client : IndexClient σ} (hfound : found ≠ [])
    (hverify : (client.verify catalog.field found.eraseDups world).1 = .ok false) :
    (contribution (some client) catalog (.ok found) world).1 = .error .notIndexed := by
  obtain ⟨id, ids, hids⟩ := List.exists_cons_of_ne_nil (mt distinct_eq_nil.1 hfound)
  rw [← distinct_eq_eraseDups, hids] at hverify
  simp only [contribution, hids]
  rw [bind_apply, hverify]
  rfl

end Contribution

section Parts
variable {σ : Type} {service : Service σ} {position : Position} {world : σ} {catalog : Catalog}

lemma coneAnswer_of_none (h : service.coneReply position world catalog = none) :
    service.coneAnswer position world catalog = .error (.transport .notConfigured) := by
  rw [Service.coneAnswer, Option.map_eq_none_iff.1 h]
  rfl

lemma coneAnswer_of_some {reply : Reply (List String)}
    (h : service.coneReply position world catalog = some reply) :
    ∃ client, service.catalogs catalog = some client ∧
      service.coneAnswer position world catalog = reply.inTime client.timeout := by
  obtain ⟨client, hclient, rfl⟩ := Option.map_eq_some_iff.1 h
  refine ⟨client, hclient, ?_⟩
  rw [Service.coneAnswer, hclient]
  rfl

lemma Service.Contributes.conePart {found : List String}
    (h : service.Contributes position world catalog found) :
    service.conePart position world catalog = .ok found.eraseDups := by
  obtain ⟨client, -, hanswer⟩ := coneAnswer_of_some h.answered
  rw [Service.conePart, hanswer]
  exact contribution_of_admitted h.nonempty h.indexed

lemma Service.Withholds.conePart {fault : ConeFault}
    (h : service.Withholds position world catalog fault) :
    service.conePart position world catalog = .error fault := by
  rw [Service.conePart]
  cases h with
  | notConfigured hreply => rw [coneAnswer_of_none hreply]; rfl
  | late hclient hreply =>
    obtain ⟨client, hclient', hanswer⟩ := coneAnswer_of_some hreply
    obtain rfl : _ = client := Option.some.inj (hclient.symm.trans hclient')
    rw [hanswer]
    rfl
  | failed hreply =>
    obtain ⟨client, -, hanswer⟩ := coneAnswer_of_some hreply
    rw [hanswer]
    rfl
  | noObjects hreply =>
    obtain ⟨client, -, hanswer⟩ := coneAnswer_of_some hreply
    rw [hanswer]
    rfl
  | notIndexed hreply hfound hindex hverify =>
    obtain ⟨client, -, hanswer⟩ := coneAnswer_of_some hreply
    rw [hanswer, hindex]
    exact contribution_of_rejected hfound hverify

variable (service position world catalog) in
/-- A catalog contributes or has a reason not to. -/
lemma contributes_or_withholds : (∃ found, service.Contributes position world catalog found) ∨
    ∃ fault, service.Withholds position world catalog fault := by
  cases hreply : service.coneReply position world catalog with
  | none => exact .inr ⟨_, .notConfigured hreply⟩
  | some reply =>
    cases reply with
    | late =>
      obtain ⟨client, hclient, -⟩ := coneAnswer_of_some hreply
      exact .inr ⟨_, .late hclient hreply⟩
    | finished result =>
      cases result with
      | error fault => exact .inr ⟨_, .failed hreply⟩
      | ok found =>
        by_cases hfound : found = []
        · subst hfound
          exact .inr ⟨_, .noObjects hreply⟩
        by_cases hindex : ∃ index, service.coneIndex = some index ∧
            (index.verify catalog.field found.eraseDups
              (service.verifyWorld position world catalog)).1 = .ok false
        · obtain ⟨index, hindex, hverify⟩ := hindex
          exact .inr ⟨_, .notIndexed hreply hfound hindex hverify⟩
        · exact .inl ⟨found, hreply, hfound, fun index hi hv => hindex ⟨index, hi, hv⟩⟩

lemma conePart_eq_ok {ids : List String} : service.conePart position world catalog = .ok ids ↔
    ∃ found, service.Contributes position world catalog found ∧ ids = found.eraseDups := by
  refine ⟨fun h => ?_, ?_⟩
  · rcases contributes_or_withholds service position world catalog with ⟨found,
      hfound⟩ | ⟨fault, hfault⟩
    · exact ⟨found, hfound, Except.ok.inj (h.symm.trans hfound.conePart)⟩
    · rw [hfault.conePart] at h
      cases h
  · rintro ⟨found, hfound, rfl⟩
    exact hfound.conePart

lemma conePart_eq_error {fault : ConeFault} :
    service.conePart position world catalog = .error fault ↔
    service.Withholds position world catalog fault := by
  refine ⟨fun h => ?_, Service.Withholds.conePart⟩
  rcases contributes_or_withholds service position world catalog with ⟨found,
    hfound⟩ | ⟨fault', hfault⟩
  · rw [hfound.conePart] at h
    cases h
  · rw [hfault.conePart] at h
    cases h
    exact hfault

end Parts

/-! ### The search -/

section Search
variable {σ : Type} (service : Service σ) (position : Position)

/-- What the catalogs contribute. -/
def Service.coneIdentifiers (world : σ) : List (Catalog × List String) :=
  Catalog.all.filterMap fun catalog =>
    (service.conePart position world catalog).toOption.map fun ids => (catalog, ids)

/-- The reasons of the catalogs that contribute nothing. -/
def Service.coneFaults (world : σ) : List (Catalog × ConeFault) :=
  Catalog.all.filterMap fun catalog =>
    match service.conePart position world catalog with
    | .error fault => some (catalog, fault)
    | .ok _ => none

/-- What the search found, if anything was contributed. -/
def Service.coneOutcome (world : σ) : ConeOutcome where
  position
  identifiers := service.coneIdentifiers position world
  query := documentsQuery (service.coneIdentifiers position world)

lemma result_searchCone (world : σ) :
    (searchCone service.catalogs service.coneIndex position world).1 =
      if service.coneIdentifiers position world = [] then .error (service.coneFaults position world)
      else .ok (service.coneOutcome position world) := by
  have hrun : (searchCone service.catalogs service.coneIndex position world).1 =
      ((if (service.coneIdentifiers position world).isEmpty then
          pure (.error (service.coneFaults position world))
        else pure (.ok (service.coneOutcome position world)) :
          StateM σ (Except (List (Catalog × ConeFault)) ConeOutcome)) _).1 := rfl
  rw [hrun]
  simp only [List.isEmpty_iff]
  split <;> rfl

lemma result_searchAround (session : Session σ) :
    ((service.searchAround position).run.run session).1 =
      if service.coneIdentifiers position session.world = [] then
        .error (.bothCatalogsFailed (service.coneFaults position session.world))
      else .ok (service.coneOutcome position session.world) := by
  refine (congrArg Prod.fst (bind_apply (onWorld
    (searchCone service.catalogs service.coneIndex position)) _ session)).trans ?_
  rw [result_onWorld, result_searchCone]
  by_cases hempty : service.coneIdentifiers position session.world = []
  · rw [if_pos hempty, if_pos hempty]
    rfl
  · rw [if_neg hempty, if_neg hempty]
    rfl

variable {service position} {world : σ}

lemma mem_coneIdentifiers {catalog : Catalog} {ids : List String} :
    (catalog, ids) ∈ service.coneIdentifiers position world ↔
      ∃ found, service.Contributes position world catalog found ∧ ids = found.eraseDups := by
  rw [← conePart_eq_ok, Service.coneIdentifiers, List.mem_filterMap]
  refine ⟨?_, fun h => ⟨catalog, catalog.mem_all, by simp [h, Except.toOption]⟩⟩
  rintro ⟨catalog', -, h⟩
  obtain ⟨ids', hids, h⟩ := Option.map_eq_some_iff.1 h
  cases h
  cases hpart : service.conePart position world catalog with
  | error fault => simp [hpart, Except.toOption] at hids
  | ok ids'' => simpa [hpart, Except.toOption] using hids

lemma keys_coneIdentifiers :
    ((service.coneIdentifiers position world).map Prod.fst).Sublist Catalog.all := by
  have hkeys : (service.coneIdentifiers position world).map Prod.fst =
      Catalog.all.filter fun catalog =>
      (service.conePart position world catalog).toOption.isSome := by
    rw [Service.coneIdentifiers, List.map_filterMap, ← List.filterMap_eq_filter]
    refine congrArg (fun f => Catalog.all.filterMap f) (funext fun catalog => ?_)
    cases hpart : (service.conePart position world catalog).toOption <;> simp [Option.guard, hpart]
  rw [hkeys]
  exact List.filter_sublist

lemma coneIdentifiers_ne_nil : service.coneIdentifiers position world ≠ [] ↔
    ∃ catalog found, service.Contributes position world catalog found := by
  refine ⟨fun h => ?_, ?_⟩
  · obtain ⟨⟨catalog, ids⟩, rest, hcons⟩ := List.exists_cons_of_ne_nil h
    have hmem : (catalog, ids) ∈ service.coneIdentifiers position world := by
      rw [hcons]
      exact List.mem_cons_self
    obtain ⟨found, hfound, -⟩ := mem_coneIdentifiers.1 hmem
    exact ⟨catalog, found, hfound⟩
  · rintro ⟨catalog, found, hfound⟩
    exact List.ne_nil_of_mem (mem_coneIdentifiers.2 ⟨found, hfound, rfl⟩)

lemma coneFaults_of_empty (h : service.coneIdentifiers position world = []) :
    ∃ simbad ned, service.coneFaults position world = [(.simbad, simbad), (.ned, ned)] ∧
      service.Withholds position world .simbad simbad ∧
      service.Withholds position world .ned ned := by
  have hpart : ∀ catalog, ∃ fault, service.conePart position world catalog = .error fault := by
    intro catalog
    cases hpart : service.conePart position world catalog with
    | error fault => exact ⟨fault, rfl⟩
    | ok ids =>
      have hmem := mem_coneIdentifiers.2 (conePart_eq_ok.1 hpart)
      rw [h] at hmem
      cases hmem
  obtain ⟨simbad, hsimbad⟩ := hpart .simbad
  obtain ⟨ned, hned⟩ := hpart .ned
  refine ⟨simbad, ned, ?_, conePart_eq_error.1 hsimbad, conePart_eq_error.1 hned⟩
  simp [Service.coneFaults, Catalog.all, hsimbad, hned]

end Search

/-- A cone search merges exactly what the catalogs contribute. It succeeds if and only if a catalog
contributes; then each catalog that does is a key, once and in the order of the catalogs, of what it
found without later repetitions, and the position is the one that was asked for. Otherwise each of
the two catalogs gives the reason for which it does not contribute. -/
theorem searchAround_merges {σ : Type} (service : Service σ) (position : Position)
    (session : Session σ) :
    let result := ((service.searchAround position).run.run session).1
    ((∃ outcome, result = .ok outcome) ↔
      ∃ catalog found, service.Contributes position session.world catalog found) ∧
    (∀ outcome, result = .ok outcome → outcome.position = position ∧
      (outcome.identifiers.map Prod.fst).Sublist Catalog.all ∧
      ∀ catalog ids, (catalog, ids) ∈ outcome.identifiers ↔
        ∃ found, service.Contributes position session.world catalog found ∧ ids = found.eraseDups) ∧
    ∀ error, result = .error error → ∃ simbad ned,
      error = .bothCatalogsFailed [(.simbad, simbad), (.ned, ned)] ∧
      service.Withholds position session.world .simbad simbad ∧
      service.Withholds position session.world .ned ned := by
  intro result
  by_cases hempty : service.coneIdentifiers position session.world = []
  · have hresult :
        result = .error (.bothCatalogsFailed (service.coneFaults position session.world)) := by
      simp only [result, result_searchAround, if_pos hempty]
    refine ⟨?_, fun outcome h => ?_, fun error h => ?_⟩
    · rw [← coneIdentifiers_ne_nil, hresult]
      simp [hempty]
    · rw [hresult] at h
      cases h
    · obtain ⟨simbad, ned, hfaults, hsimbad, hned⟩ := coneFaults_of_empty hempty
      rw [hresult, hfaults] at h
      cases h
      exact ⟨simbad, ned, rfl, hsimbad, hned⟩
  · have hresult : result = .ok (service.coneOutcome position session.world) := by
      simp only [result, result_searchAround, if_neg hempty]
    refine ⟨?_, fun outcome h => ?_, fun error h => ?_⟩
    · rw [← coneIdentifiers_ne_nil, hresult]
      simp [hempty]
    · rw [hresult] at h
      cases h
      exact ⟨rfl, keys_coneIdentifiers, fun catalog ids => mem_coneIdentifiers⟩
    · rw [hresult] at h
      cases h

end SkyResolver
