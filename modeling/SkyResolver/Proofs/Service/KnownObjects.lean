import Mathlib.Data.List.Nodup
import SkyResolver.Proofs.Service.Recording
import SkyResolver.Proofs.Service.Transparency
import SkyResolver.Service.Publications

/-! The search for publications. NED is asked once about all names of a request, and the index once
about all objects that NED knows, unless it knows none. The objects stand in the query in the order
in which the names first mention them; a name without a record adds nothing, nor does a record that
no name asks for. -/
namespace SkyResolver

/-! ### Identifiers in the order of the names -/

/-- True if the name has a record with the identifier. -/
def mentions (records : ObjectTable) (id name : String) : Bool :=
  (records.get? name).any fun record => record.id == id

/-- The place of the first name with the identifier. -/
def firstPlace (records : ObjectTable) (names : List String) (id : String) : ℕ :=
  names.findIdx (mentions records id)

/-- The identifiers of the names that have a record, each once, in the order of the first names with
them. -/
structure KnownInOrder (records : ObjectTable) (names ids : List String) : Prop where
  nodup : ids.Nodup
  mem_iff : ∀ id, id ∈ ids ↔ ∃ name ∈ names, ∃ record, records.get? name = some record ∧
  record.id = id
  ordered : ids.Pairwise fun id id' => firstPlace records names id < firstPlace records names id'

section Order
variable {records : ObjectTable} {names ids : List String} {id name : String}

lemma mentions_eq_true :
    mentions records id name = true ↔ ∃ record, records.get? name = some record ∧
    record.id = id := by
  simp [mentions, Option.any_eq_true]

lemma mem_knownIds :
    id ∈ knownIds records names ↔ ∃ name ∈ names, ∃ record, records.get? name = some record ∧
    record.id = id := by
  simp only [knownIds, mem_distinct, List.mem_filterMap, Option.map_eq_some_iff]

lemma firstPlace_lt : firstPlace records names id < names.length ↔ id ∈ knownIds records names := by
  simp only [firstPlace, List.findIdx_lt_length, mentions_eq_true, mem_knownIds]

lemma firstPlace_concat (name : String) (h : id ∈ knownIds records names) :
    firstPlace records (names ++ [name]) id = firstPlace records names id := by
  rw [firstPlace, List.findIdx_append]
  exact if_pos (firstPlace_lt.2 h)

lemma length_le_firstPlace_concat (name : String) (h : id ∉ knownIds records names) :
    names.length ≤ firstPlace records (names ++ [name]) id := by
  have hnone : ¬names.findIdx (mentions records id) < names.length :=
    fun hlt => h (firstPlace_lt.1 hlt)
  rw [firstPlace, List.findIdx_append, if_neg hnone]
  exact Nat.le_add_left _ _

/-- One more name adds at most one identifier, at the end. -/
lemma knownIds_concat (records : ObjectTable) (names : List String) (name : String) :
    knownIds records (names ++ [name]) = knownIds records names ∨
      ∃ id, id ∉ knownIds records names ∧
      knownIds records (names ++ [name]) = knownIds records names ++ [id] := by
  unfold knownIds distinct
  rw [List.filterMap_append, List.foldl_append]
  cases hrecord : records.get? name with
  | none => simp [hrecord]
  | some record =>
    simp only [List.filterMap_cons, hrecord, Option.map_some, List.filterMap_nil, List.foldl_cons,
      List.foldl_nil]
    split
    · exact .inl rfl
    · rename_i hnew
      exact .inr ⟨record.id, hnew, rfl⟩

lemma ordered_knownIds (records : ObjectTable) (names : List String) :
    (knownIds records names).Pairwise fun id id' => firstPlace records names id <
      firstPlace records names id' := by
  induction names using List.reverseRecOn with
  | nil => exact .nil
  | append_singleton names name ih =>
    have hkept : (knownIds records names).Pairwise fun id id' =>
        firstPlace records (names ++ [name]) id < firstPlace records (names ++ [name]) id' :=
      ih.imp_of_mem fun hid hid' hlt => by
      rwa [firstPlace_concat name hid, firstPlace_concat name hid']
    obtain heq | ⟨id, hnew, heq⟩ := knownIds_concat records names name
    · rwa [heq]
    · rw [heq]
      refine List.pairwise_append.2 ⟨hkept, List.pairwise_singleton _ _,
        fun old hold new hmem => ?_⟩
      obtain rfl := List.mem_singleton.1 hmem
      rw [firstPlace_concat name hold]
      exact Nat.lt_of_lt_of_le (firstPlace_lt.2 hold) (length_le_firstPlace_concat name hnew)

lemma KnownInOrder.eq_nil_iff (h : KnownInOrder records names ids) :
    ids = [] ↔ ∀ name ∈ names, records.get? name = none := by
  rw [List.eq_nil_iff_forall_not_mem]
  constructor
  · intro hnone name hname
    refine Option.eq_none_iff_forall_ne_some.2 fun record hrecord => ?_
    exact hnone record.id ((h.mem_iff record.id).2 ⟨name, hname, record, hrecord, rfl⟩)
  · intro hnone id hid
    obtain ⟨name, hname, record, hrecord, -⟩ := (h.mem_iff id).1 hid
    rw [hnone name hname] at hrecord
    cases hrecord

/-- There is just one such list, the one that is searched for. -/
theorem knownInOrder_iff : KnownInOrder records names ids ↔ ids = knownIds records names := by
  have hknown : KnownInOrder records names (knownIds records names) :=
    ⟨nodup_distinct _, fun _ => mem_knownIds, ordered_knownIds records names⟩
  constructor
  · intro h
    have hperm : ids.Perm (knownIds records names) :=
      (List.perm_ext_iff_of_nodup h.nodup hknown.nodup).2 fun id => (h.mem_iff id).trans
        (hknown.mem_iff id).symm
    exact hperm.eq_of_pairwise (fun _ _ _ _ hlt hlt' => absurd hlt (Nat.lt_asymm hlt')) h.ordered
      hknown.ordered
  · rintro rfl
    exact hknown

end Order

/-! ### The run of a search -/

section Run
variable {σ : Type} {service : Service σ} {request : PublicationRequest} {client : CatalogClient σ}
  {index : IndexClient σ} {found : NameAnswers} {session : Session σ}

/-- What the index answers about some objects, as the answer to the request. -/
def PublicationRequest.answer (found : NameAnswers) : Except IndexFault (List String) →
    Except ServiceError Publications
  | .ok bibcodes => .ok ⟨found.ambiguous, bibcodes⟩
  | .error fault => .error (.index fault)

lemma mk_ok_bind {α β : Type} (a : α) (next : α → Action σ β) :
    (ExceptT.mk (pure (.ok a)) : Action σ α) >>= next = next a := rfl

lemma run_onWorld_bind {α β : Type} (step : StateM σ α) (next : α → Action σ β)
    (session : Session σ) :
    (ExceptT.lift (onWorld step) >>= next).run.run session =
      (next (step session.world).1).run.run ⟨session.cache, (step session.world).2⟩ := rfl

lemma Service.run_publications (hobjects : request.objects ≠ [])
    (hclient : service.catalogs .ned = some client) (hindex : service.index = some index)
    (hfound : (client.lookup request.objects session.world).1 = .finished (.ok found)) :
    (service.publications request).run.run session =
      if knownIds found.records request.objects = [] then
        (.ok ⟨found.ambiguous, []⟩,
          ⟨session.cache, (client.lookup request.objects session.world).2⟩)
      else
        let query :=
          publicationQuery service.currentYear (knownIds found.records request.objects) request
        let searched := index.search query (client.lookup request.objects session.world).2
        (PublicationRequest.answer found searched.1, ⟨session.cache, searched.2⟩) := by
  have hempty : request.objects.isEmpty = false := by simpa using hobjects
  have hclient' : service.client .ned = .ok client := by rw [Service.client, hclient]
  rw [Service.publications, hempty, hclient', hindex]
  simp only [Bool.false_eq_true, if_false]
  rw [mk_ok_bind, run_onWorld_bind, hfound]
  simp only [Reply.inTime]
  cases hids : knownIds found.records request.objects with
  | nil => rfl
  | cons id ids =>
    simp only [List.cons_ne_nil, if_false]
    rw [run_onWorld_bind]
    cases (index.search (publicationQuery service.currentYear (id :: ids) request)
      (client.lookup request.objects session.world).2).1 <;> rfl

end Run

/-! ### The calls of a search -/

/-- The terms of the identifiers stand in front of the filters, which do not depend on them. -/
lemma publicationQuery_eq (currentYear : Int) (ids : List String) (request : PublicationRequest) :
    publicationQuery currentYear ids request =
      " OR ".intercalate (ids.map fun id => "nedid:" ++ id) ++ publicationQuery currentYear
        [] request := by
  have hhead : Catalog.ned.fieldHead = "nedid:" := by decide
  simp [publicationQuery, hhead, String.append_assoc]

section Calls
variable {σ : Type} {service : Service σ} {request : PublicationRequest} {client : CatalogClient σ}
  {index : IndexClient σ} {found : NameAnswers} {session : Session (Recorded σ)}

/-- When NED answers about the names of a request, the index is searched once, for the identifiers
of all of them, or not at all, if none of the names has a record. The ambiguous names are those that
NED reports. -/
theorem publications_calls (hobjects : request.objects ≠ [])
    (hclient : service.catalogs .ned = some client) (hindex : service.index = some index)
    (hfound : (client.lookup request.objects session.world.world).1 = .finished (.ok found)) :
    let recorded := (service.recorded.publications request).run.run session
    let asked := client.lookup request.objects session.world.world
    recorded.1 = ((service.publications request).run.run session.forget).1 ∧
    ∃ ids, KnownInOrder found.records request.objects ids ∧
      (ids = [] ↔ ∀ name ∈ request.objects, found.records.get? name = none) ∧
      publicationQuery service.currentYear ids request = " OR ".intercalate
      (ids.map fun id => "nedid:" ++ id) ++
        publicationQuery service.currentYear [] request ∧
      recorded.2.world.calls = session.world.calls ++ .names .ned request.objects ::
        (if ids = [] then [] else [.search (publicationQuery service.currentYear ids request)]) ∧
      recorded.1 = if ids = [] then .ok ⟨found.ambiguous, []⟩
        else PublicationRequest.answer found
          (index.search (publicationQuery service.currentYear ids request) asked.2).1 := by
  intro recorded asked
  have hknown := knownInOrder_iff.2 (Eq.refl (knownIds found.records request.objects))
  have hclient' : service.recorded.catalogs .ned = some (client.recorded .ned) := by
    simp [Service.recorded, hclient]
  have hindex' : service.recorded.index = some index.recorded := by simp [Service.recorded, hindex]
  have hrun : recorded = _ := Service.run_publications hobjects hclient' hindex' hfound
  refine ⟨((watches_recorded service).publications request session).1, _, hknown, hknown.eq_nil_iff,
    publicationQuery_eq _ _ _, ?_, ?_⟩
  · rw [hrun]
    split
    · rfl
    · exact List.append_assoc _ _ _
  · rw [hrun]
    split <;> rfl

end Calls

/-- A service whose catalogs give the same answer to every lookup of names, and whose index finds
the same documents whatever is searched for. -/
def Service.answering (found : NameAnswers) (bibcodes : List String) : Service Unit :=
  { Service.knowing fun _ _ => none with
    catalogs := fun _ => some { CatalogClient.knowing fun _ => none with
      lookup := fun _ => pure (.finished (.ok found)) }
    index := some ⟨fun _ _ => pure (.ok false), fun _ => pure (.ok bibcodes)⟩ }

/-- Records of two objects, one of them under two names, and of a third object; one more name is
ambiguous. -/
def galleryAnswers : NameAnswers where
  records := ⟨[("D", ⟨"3", "D"⟩), ("B", ⟨"1", "B"⟩), ("A", ⟨"2", "A"⟩), ("C", ⟨"2", "A"⟩)]⟩
  ambiguous := [("E", ["e 1", "e 2"])]

theorem publications_calls_of_gallery :
    let service := Service.answering galleryAnswers ["2016ApJ...817..111D"]
    let request : PublicationRequest := ⟨["A", "E", "B", "C", "A"], none, none, none, none⟩
    let session : Session (Recorded Unit) := ⟨Cache.empty (.ofSeconds 1), ⟨(), []⟩⟩
    let recorded := (service.recorded.publications request).run.run session
    request.objects ≠ [] ∧ recorded.1 = .ok ⟨[("E", ["e 1", "e 2"])], ["2016ApJ...817..111D"]⟩ ∧
    recorded.2.world.calls = [.names .ned ["A", "E", "B", "C", "A"],
      .search "nedid:2 OR nedid:1 year:1800-2024"] := by
  intro service request session recorded
  have hobjects : request.objects ≠ [] := List.cons_ne_nil _ _
  obtain ⟨-, ids, hids, -, -, hcalls, hresult⟩ :=
    @publications_calls Unit service request _ _ _ session hobjects rfl rfl rfl
  obtain rfl : ids = ["2", "1"] := (knownInOrder_iff.1 hids).trans (by decide)
  have hquery : publicationQuery service.currentYear ["2",
      "1"] request = "nedid:2 OR nedid:1 year:1800-2024" := by
    decide +kernel
  rw [hquery] at hcalls
  exact ⟨hobjects, hresult, hcalls⟩

end SkyResolver
