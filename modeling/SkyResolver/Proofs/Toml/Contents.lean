import SkyResolver.Proofs.Toml.Documents

/-! What a text in TOML can hold. There is nothing that stands for an absent value, and whole
numbers are signed ones of 64 bits. Both are kept by all that happens to values on their way from
the lines of the text into one object. -/
namespace SkyResolver.Toml
open SkyResolver.Number

/-- A value that TOML has: nothing in it is null, and no whole number in it is too large. -/
inductive IsToml : Json → Prop
  | bool (b : Bool) : IsToml (.bool b)
  | int {n : ℤ} (h : n ≤ highestInt 64) : IsToml (.number (.int n))
  | float (x : Float) : IsToml (.number (.float x))
  | string (s : String) : IsToml (.string s)
  | array {items : List Json} (h : ∀ item ∈ items, IsToml item) : IsToml (.array items)
  | object {members : List (String × Json)} (h : ∀ member ∈ members, IsToml member.2) :
      IsToml (.object members)

/-- Members all of whose values TOML has. -/
def HoldsToml (members : List (String × Json)) : Prop := ∀ member ∈ members, IsToml member.2

/-! ### Scalars -/

section Scalars
variable {s r word : List Char} {n : ℤ} {base : ℕ} {p : Json × List Char}

lemma le_of_whole? (h : whole? base s = some n) : n ≤ highestInt 64 := by
  unfold whole? at h
  obtain ⟨⟨digits, rest⟩, -, h⟩ := Option.bind_eq_some_iff.1 h
  dsimp only at h
  split at h
  · cases h
  · obtain ⟨hbounds, hvalue⟩ := Option.ite_none_right_eq_some.1 h
    rw [Bool.and_eq_true, decide_eq_true_eq, decide_eq_true_eq] at hbounds
    obtain rfl := Option.some.inj hvalue
    exact hbounds.2

lemma isToml_of_whole? (h : (whole? base s).map (fun n => (Json.number (.int n), r)) = some p) :
    IsToml p.1 := by
  obtain ⟨n, hn, rfl⟩ := Option.map_eq_some_iff.1 h
  exact .int (le_of_whole? hn)

lemma isToml_of_number? (h : number? word r = some p) : IsToml p.1 := by
  unfold number? at h
  dsimp only at h
  split at h
  · exact isToml_of_whole? h
  · exact isToml_of_whole? h
  · exact isToml_of_whole? h
  · split at h
    · obtain ⟨x, -, rfl⟩ := Option.map_eq_some_iff.1 h
      exact .float _
    · split at h
      · obtain ⟨⟨fraction, r'⟩, -, h⟩ := Option.bind_eq_some_iff.1 h
        obtain ⟨x, -, h⟩ := Option.bind_eq_some_iff.1 h
        obtain rfl := Option.some.inj h
        exact .float _
      · split at h
        · obtain rfl := Option.some.inj h
          exact .float _
        · split at h
          · obtain rfl := Option.some.inj h
            exact .float _
          · exact isToml_of_whole? h

lemma isToml_of_numberOrDate? (h : numberOrDate? word r = some p) : IsToml p.1 := by
  have hdate (text : String) : IsToml (.object [(dateMember, .string text)]) :=
    .object (List.forall_mem_singleton.2 (.string text))
  unfold numberOrDate? at h
  dsimp only at h
  split at h
  · obtain ⟨r', -, rfl⟩ := Option.map_eq_some_iff.1 h
    exact hdate _
  · split at h
    · obtain ⟨r', -, rfl⟩ := Option.map_eq_some_iff.1 h
      exact hdate _
    · exact isToml_of_number? h

lemma isToml_of_scalar? (h : scalar? s = some p) : IsToml p.1 := by
  unfold scalar? at h
  split at h
  · obtain ⟨⟨word, r⟩, -, h⟩ := Option.bind_eq_some_iff.1 h
    exact isToml_of_number? h
  · split at h
    · obtain ⟨⟨⟨text, multiline⟩, r⟩, -, rfl⟩ := Option.map_eq_some_iff.1 h
      exact .string text
    · obtain ⟨⟨word, r⟩, -, h⟩ := Option.bind_eq_some_iff.1 h
      dsimp only at h
      split at h
      · obtain rfl := Option.some.inj h
        exact .bool true
      · split at h
        · obtain rfl := Option.some.inj h
          exact .bool false
        · split at h
          · exact isToml_of_numberOrDate? h
          · cases h
  · cases h

end Scalars

/-! ### Keys -/

section Keys
variable {members members' : List (String × Json)} {nodes nodes' : List (String × Node)}
  {node : Node} {key : String} {keys : List String} {value : Json}

lemma holdsToml_membersToJson : HoldsToml (Node.membersToJson nodes) ↔
    ∀ node ∈ nodes, IsToml node.2.toJson := by
  rw [membersToJson_eq, HoldsToml, List.forall_mem_map]

lemma holdsToml_nil : HoldsToml (Node.membersToJson []) := List.forall_mem_nil _

lemma mem_of_lookup {α : Type} {l : List (String × α)} {a : α} (h : l.lookup key = some a) :
    (key, a) ∈ l := by
  obtain ⟨before, after, rfl, -⟩ := List.lookup_eq_some_iff.1 h
  exact List.mem_append_right before List.mem_cons_self

lemma isToml_object : IsToml (.object members) ↔ HoldsToml members := by
  constructor
  · rintro (_ | _ | _ | _ | _ | h)
    exact h
  · exact .object

lemma holdsToml_replaceFirst (hnodes : HoldsToml (Node.membersToJson nodes))
    (hnode : IsToml node.toJson) :
    HoldsToml (Node.membersToJson (replaceFirst key node nodes)) := by
  rw [holdsToml_membersToJson] at hnodes ⊢
  induction nodes with
  | nil => exact hnodes
  | cons other nodes ih =>
    obtain ⟨hother, hrest⟩ := List.forall_mem_cons.1 hnodes
    rw [replaceFirst]
    split
    · exact List.forall_mem_cons.2 ⟨hnode, hrest⟩
    · exact List.forall_mem_cons.2 ⟨hother, ih hrest⟩

lemma holdsToml_add (hnodes : HoldsToml (Node.membersToJson nodes)) (hnode : IsToml node.toJson) :
    HoldsToml (Node.membersToJson (nodes ++ [(key, node)])) := by
  rw [holdsToml_membersToJson] at hnodes ⊢
  exact List.forall_mem_append.2 ⟨hnodes, List.forall_mem_singleton.2 hnode⟩

lemma holdsToml_putUnder (hvalue : IsToml value) (hnodes : HoldsToml (Node.membersToJson nodes))
    (h : putUnder key keys value nodes = some nodes') : HoldsToml (Node.membersToJson nodes') := by
  induction keys generalizing key nodes nodes' with
  | nil =>
    obtain rfl := Option.some.inj h
    exact holdsToml_add hnodes hvalue
  | cons next keys ih =>
    rw [putUnder] at h
    split at h
    · obtain ⟨inner, hinner, h⟩ := Option.bind_eq_some_iff.1 h
      obtain rfl := Option.some.inj h
      exact holdsToml_add hnodes (.object (ih holdsToml_nil hinner))
    · rename_i inner hlookup
      obtain ⟨inner', hinner, h⟩ := Option.bind_eq_some_iff.1 h
      obtain rfl := Option.some.inj h
      have hdotted : IsToml (Node.dotted inner).toJson :=
        holdsToml_membersToJson.1 hnodes _ (mem_of_lookup hlookup)
      exact holdsToml_replaceFirst hnodes (.object (ih (isToml_object.1 hdotted) hinner))
    · cases h

lemma holdsToml_putAt (hvalue : IsToml value) (hnodes : HoldsToml (Node.membersToJson nodes))
    (h : putAt nodes keys value = some nodes') : HoldsToml (Node.membersToJson nodes') := by
  cases keys with
  | nil => cases h
  | cons key keys => exact holdsToml_putUnder hvalue hnodes h

end Keys

/-! ### Values -/

/-- All that is read with a bound on the depth is what TOML has: values, the items of lists, the
members of objects. -/
structure ReadsToml (fuel : ℕ) : Prop where
  value : ∀ {s p}, value? fuel s = some p → IsToml p.1
  items : ∀ {s p}, items? fuel s = some p → ∀ item ∈ p.1, IsToml item
  members : ∀ {s nodes p}, members? fuel nodes s = some p → HoldsToml (Node.membersToJson nodes) →
    HoldsToml (Node.membersToJson p.1)

section Values
variable {s : List Char} {fuel : ℕ}

lemma ReadsToml.value_succ (hreads : ReadsToml fuel) {p : Json × List Char}
    (h : value? (fuel + 1) s = some p) :
    IsToml p.1 := by
  unfold value? at h
  split at h
  · cases h
  · rename_i heq
    obtain rfl := Nat.succ.inj heq
    obtain ⟨items, hread, rfl⟩ := Option.map_eq_some_iff.1 h
    exact .array (hreads.items hread)
  · rename_i heq
    obtain rfl := Nat.succ.inj heq
    split at h
    · obtain rfl := Option.some.inj h
      exact .object holdsToml_nil
    · obtain ⟨members, hread, rfl⟩ := Option.map_eq_some_iff.1 h
      exact .object (hreads.members hread holdsToml_nil)
  · exact isToml_of_scalar? h

lemma ReadsToml.items_succ (hreads : ReadsToml fuel) {p : List Json × List Char}
    (h : items? (fuel + 1) s = some p) :
    ∀ item ∈ p.1, IsToml item := by
  unfold items? at h
  obtain ⟨t, -, h⟩ := Option.bind_eq_some_iff.1 h
  split at h
  · obtain rfl := Option.some.inj h
    exact List.forall_mem_nil _
  · obtain ⟨item, hitem, h⟩ := Option.bind_eq_some_iff.1 h
    obtain ⟨t, -, h⟩ := Option.bind_eq_some_iff.1 h
    split at h
    · obtain ⟨items, hrest, h⟩ := Option.bind_eq_some_iff.1 h
      obtain rfl := Option.some.inj h
      exact List.forall_mem_cons.2 ⟨hreads.value hitem, hreads.items hrest⟩
    · obtain rfl := Option.some.inj h
      exact List.forall_mem_singleton.2 (hreads.value hitem)
    · cases h

lemma ReadsToml.members_succ (hreads : ReadsToml fuel) {nodes : List (String × Node)}
    {p : List (String × Node) × List Char} (h : members? (fuel + 1) nodes s = some p)
    (hnodes : HoldsToml (Node.membersToJson nodes)) : HoldsToml (Node.membersToJson p.1) := by
  unfold members? at h
  obtain ⟨keys, -, h⟩ := Option.bind_eq_some_iff.1 h
  obtain ⟨t, -, h⟩ := Option.bind_eq_some_iff.1 h
  obtain ⟨value, hread, h⟩ := Option.bind_eq_some_iff.1 h
  obtain ⟨nodes', hput, h⟩ := Option.bind_eq_some_iff.1 h
  have hnodes' := holdsToml_putAt (hreads.value hread) hnodes hput
  split at h
  · obtain rfl := Option.some.inj h
    exact hnodes'
  · exact hreads.members h hnodes'
  · cases h

/-- One induction carries values, items and members, each of which calls the others one level down.
-/
lemma readsToml (fuel : ℕ) : ReadsToml fuel := by
  induction fuel with
  | zero =>
    refine ⟨fun h => ?_, fun h => ?_, fun h => ?_⟩
    · rw [value?] at h
      cases h
    · rw [items?] at h
      cases h
    · rw [members?] at h
      cases h
  | succ fuel ih => exact ⟨ih.value_succ, ih.items_succ, ih.members_succ⟩

end Values

/-! ### Sections -/

section Sections
variable {s : List Char} {t first : Section} {others sections : List Section} {draft : Draft}
  {fuel depth : ℕ} {key : String} {members : List (String × Json)}

/-- Sections that hold what TOML has. -/
def SectionsHoldToml (sections : List Section) : Prop := ∀ t ∈ sections, HoldsToml t.members

lemma holdsToml_of_sections? (h : sections? fuel draft s = some sections)
    (hdraft : HoldsToml (Node.membersToJson draft.nodes)) : SectionsHoldToml sections := by
  induction fuel generalizing draft s sections with
  | zero => cases h
  | succ fuel ih =>
    unfold sections? at h
    obtain ⟨t, -, h⟩ := Option.bind_eq_some_iff.1 h
    split at h
    · obtain rfl := Option.some.inj h
      exact List.forall_mem_singleton.2 hdraft
    · obtain ⟨⟨heading, r⟩, -, h⟩ := Option.bind_eq_some_iff.1 h
      obtain ⟨rest, hrest, h⟩ := Option.bind_eq_some_iff.1 h
      obtain rfl := Option.some.inj h
      exact List.forall_mem_cons.2 ⟨hdraft, ih hrest holdsToml_nil⟩
    · obtain ⟨⟨keys, r⟩, -, h⟩ := Option.bind_eq_some_iff.1 h
      obtain ⟨t, -, h⟩ := Option.bind_eq_some_iff.1 h
      obtain ⟨⟨value, r⟩, hread, h⟩ := Option.bind_eq_some_iff.1 h
      obtain ⟨nodes, hput, h⟩ := Option.bind_eq_some_iff.1 h
      obtain ⟨t, -, h⟩ := Option.bind_eq_some_iff.1 h
      exact ih h (holdsToml_putAt ((readsToml _).value hread) hdraft hput)

/-- The section below a key holds what the section holds. -/
lemma members_below? {t' : Section} (h : t.below? key = some t') : t'.members = t.members := by
  unfold Section.below? at h
  split at h
  · cases h
  · obtain ⟨-, h⟩ := Option.ite_none_right_eq_some.1 h
    obtain rfl := Option.some.inj h
    rfl

lemma SectionsHoldToml.below (h : SectionsHoldToml sections) :
    SectionsHoldToml (sections.filterMap (Section.below? key)) := by
  intro t' hmem
  obtain ⟨t, ht, hbelow⟩ := List.mem_filterMap.1 hmem
  rw [members_below? hbelow]
  exact h t ht

/-- A run of sections is made of sections of the list. -/
lemma mem_of_mem_itemRuns (h : (first, others) ∈ itemRuns sections) :
    first ∈ sections ∧ ∀ t ∈ others, t ∈ sections := by
  induction sections with
  | nil => cases h
  | cons t sections ih =>
    rw [itemRuns] at h
    have hlater (h : (first, others) ∈ itemRuns sections) : first ∈ t :: sections ∧
        ∀ u ∈ others, u ∈ t :: sections :=
      ⟨List.mem_cons_of_mem _ (ih h).1, fun u hu => List.mem_cons_of_mem _ ((ih h).2 u hu)⟩
    split at h
    · obtain heq | h := List.mem_cons.1 h
      · obtain ⟨rfl, rfl⟩ := Prod.mk.inj heq
        exact ⟨List.mem_cons_self,
          fun u hu => List.mem_cons_of_mem _ ((List.takeWhile_prefix _).subset hu)⟩
      · exact hlater h
    · exact hlater h

lemma forall_mem_of_mapM {α β : Type} {f : α → Option β} {l : List α} {l' : List β} {P : β → Prop}
    (h : l.mapM f = some l') (hf : ∀ a ∈ l, ∀ b, f a = some b → P b) : ∀ b ∈ l', P b := by
  induction l generalizing l' with
  | nil =>
    obtain rfl := Option.some.inj h
    exact List.forall_mem_nil _
  | cons a l ih =>
    rw [List.mapM_cons] at h
    obtain ⟨b, hb, h⟩ := Option.bind_eq_some_iff.1 h
    obtain ⟨l', hl', h⟩ := Option.bind_eq_some_iff.1 h
    obtain rfl := Option.some.inj h
    exact List.forall_mem_cons.2
      ⟨hf a List.mem_cons_self b hb, ih hl' fun c hc => hf c (List.mem_cons_of_mem _ hc)⟩

lemma SectionsHoldToml.ownMembers? (h : SectionsHoldToml sections)
    (hmembers : Toml.ownMembers? sections = some members) : HoldsToml members := by
  unfold Toml.ownMembers? at hmembers
  split at hmembers
  · obtain rfl := Option.some.inj hmembers
    exact holdsToml_nil
  · rename_i t heq
    obtain ⟨-, hmembers⟩ := Option.ite_none_left_eq_some.1 hmembers
    obtain rfl := Option.some.inj hmembers
    exact h t (List.mem_of_mem_filter (by rw [heq]; exact List.mem_cons_self))
  · cases hmembers

lemma SectionsHoldToml.assemble (h : SectionsHoldToml sections)
    (hmembers : Toml.assemble depth sections = some members) : HoldsToml members := by
  induction depth generalizing sections members with
  | zero => cases hmembers
  | succ depth ih =>
    rw [assemble_eq] at hmembers
    obtain ⟨own, hown, hmembers⟩ := Option.bind_eq_some_iff.1 hmembers
    obtain ⟨inner, hinner, hmembers⟩ := Option.bind_eq_some_iff.1 hmembers
    obtain rfl := Option.some.inj hmembers
    refine List.forall_mem_append.2 ⟨h.ownMembers? hown,
      forall_mem_of_mapM hinner fun key _ member hmember => ?_⟩
    unfold memberUnder? at hmember
    split at hmember
    · obtain ⟨items, hitems, hmember⟩ := Option.bind_eq_some_iff.1 hmember
      obtain rfl := Option.some.inj hmember
      refine .array (forall_mem_of_mapM hitems fun run hrun item hitem => ?_)
      obtain ⟨-, hitem⟩ := Option.ite_none_left_eq_some.1 hitem
      obtain ⟨rest, hrest, rfl⟩ := Option.map_eq_some_iff.1 hitem
      obtain ⟨hfirst, hothers⟩ := mem_of_mem_itemRuns hrun
      exact .object (List.forall_mem_append.2 ⟨h.below _ hfirst,
        ih (fun t ht => h.below t (hothers t ht)) hrest⟩)
    · obtain ⟨rest, hrest, rfl⟩ := Option.map_eq_some_iff.1 hmember
      exact .object (ih h.below hrest)

/-- What a text stands for has no null in it, and no number that is too large. -/
theorem isToml_of_parse? {text : String} {value : Json} (h : parse? text = some value) :
    IsToml value := by
  obtain ⟨sections, hsections, h⟩ := Option.bind_eq_some_iff.1 h
  obtain ⟨members, hmembers, rfl⟩ := Option.map_eq_some_iff.1 h
  exact .object ((holdsToml_of_sections? hsections holdsToml_nil).assemble hmembers)

end Sections
end SkyResolver.Toml
