import SkyResolver.Proofs.Toml.Values

/-! Documents in TOML. The text of a document is read line by line; each line adds one member to its
section, and each heading opens a section. What comes out is the document. -/
namespace SkyResolver.Toml
open SkyResolver.Number SkyResolver.Text

/-! ### Documents that can be read back -/

/-- A name that is written without marks. -/
def IsBareWord (name : String) : Prop := name.toList ≠ [] ∧ ∀ c ∈ name.toList, isWordChar c = true

instance (name : String) : Decidable (IsBareWord name) := inferInstanceAs (Decidable (_ ∧ _))

/-- The members of a section have bare names and values that can be read back. -/
def ReadableMembers (members : List (String × Value)) : Prop :=
  ∀ member ∈ members, IsBareWord member.1 ∧ member.2.Readable

/-- A document whose names and values can be read back; no two sections have the same name. -/
structure Document.Readable (document : Document) : Prop where
  top : ReadableMembers document.top
  names : ∀ s ∈ document.sections, IsBareWord s.1
  members : ∀ s ∈ document.sections, ReadableMembers s.2
  nodup : (document.sections.map Prod.fst).Nodup

/-! ### Keys -/

section Keys
variable {name : String} {c : Char} {s r t : List Char} {fuel : ℕ}

lemma IsBareWord.exists_eq (h : IsBareWord name) : ∃ d s, name.toList = d :: s ∧
    isWordChar d = true := by
  obtain ⟨d, s, hs⟩ := List.exists_cons_of_ne_nil h.1
  exact ⟨d, s, hs, h.2 d (by rw [hs]; exact List.mem_cons_self)⟩

/-- What no bare word starts with. -/
lemma ne_of_isWordChar {d : Char} (hd : isWordChar d = true) (hc : isWordChar c = false) :
    d ≠ c := by
  rintro rfl
  rw [hd] at hc
  cases hc

lemma isGap_of_isWordChar (h : isWordChar c = true) : isGap c = false := by
  rw [isGap, Bool.or_eq_false_iff, beq_eq_false_iff_ne, beq_eq_false_iff_ne]
  exact ⟨ne_of_isWordChar h rfl, ne_of_isWordChar h rfl⟩

lemma skipGap_bareWord (h : IsBareWord name) : skipGap (name.toList ++ r) = name.toList ++ r := by
  obtain ⟨d, s, hs, hd⟩ := h.exists_eq
  rw [hs, List.cons_append, skipGap_of_not (isGap_of_isWordChar hd)]

/-- A bare word is a key of its own where a gap and something else than a point follow. -/
lemma keys?_bareWord (h : IsBareWord name) (hc : isWordChar c = false)
    (hrest : skipGap (c :: r) = t) (hpoint : t.head? ≠ some '.') :
    keys? (fuel + 1) (name.toList ++ c :: r) = some ([name], t) := by
  have hword := word?_append (r := r) h.1 h.2 hc
  rw [keys?, skipGap_bareWord h, key?, hword]
  simp only [Option.bind_eq_bind, Option.bind_some, hrest, String.ofList_toList]
  split
  · rename_i heq
    exact absurd rfl hpoint
  · rfl

lemma skipLines?_bareWord (h : IsBareWord name) :
    skipLines? fuel (name.toList ++ r) = some (name.toList ++ r) := by
  obtain ⟨d, s, hs, hd⟩ := h.exists_eq
  rw [hs, List.cons_append]
  exact skipLines?_of_not (isGap_of_isWordChar hd) (ne_of_isWordChar hd rfl)
    (ne_of_isWordChar hd rfl)

end Keys

/-! ### Lines -/

section Lines
variable {name key : String} {value : Value} {c : Char} {r s t : List Char}
  {p : Json × List Char} {fuel : ℕ} {draft : Draft} {members : List (String × Value)}

/-- No value starts with a gap. -/
lemma skipGap_of_value? (h : value? fuel s = some p) : skipGap s = s := by
  cases s with
  | nil => rfl
  | cons c s =>
    refine skipGap_of_not ?_
    by_contra hgap
    rw [Bool.not_eq_false, isGap, Bool.or_eq_true, beq_iff_eq, beq_iff_eq] at hgap
    cases fuel with
    | zero =>
      rw [value?] at h
      cases h
    | succ fuel =>
      have hscalar : scalar? (c :: s) = none := by
        obtain rfl | rfl := hgap
        · exact scalar?_eq_none rfl (by decide) (by decide) (by decide)
        · exact scalar?_eq_none rfl (by decide) (by decide) (by decide)
      obtain rfl | rfl := hgap
      · cases hscalar.symm.trans h
      · cases hscalar.symm.trans h

/-- The draft with one more member. -/
def Draft.add (draft : Draft) (key : String) (value : Value) : Draft :=
  { draft with nodes := draft.nodes ++ [(key, .value value.toJson)] }

/-- A line adds its member to the section. -/
lemma sections?_line (hkey : IsBareWord key) (hvalue : value.Readable) :
    sections? (fuel + 1) draft (key.toList ++ " = ".toList ++ value.chars ++ '\n' :: r) =
      sections? fuel (draft.add key value) r := by
  obtain ⟨d, s, hs, hd⟩ := hkey.exists_eq
  have hread : value? ((value.chars ++ '\n' :: r).length + 1) (value.chars ++ '\n' :: r) =
      some (value.toJson, '\n' :: r) :=
    value?_chars hvalue (.inl rfl) (by rw [List.length_append]; omega)
  have hgap := skipGap_of_value? hread
  have hkeys (fuel : ℕ) : keys? (fuel + 1)
      (key.toList ++ ' ' :: '=' :: ' ' :: (value.chars ++ '\n' :: r)) =
      some ([key], '=' :: ' ' :: (value.chars ++ '\n' :: r)) :=
    keys?_bareWord hkey rfl rfl (by simp)
  have hequals : afterEquals? ('=' :: ' ' :: (value.chars ++ '\n' :: r)) =
      some (value.chars ++ '\n' :: r) :=
    congrArg some hgap
  have hline : key.toList ++ " = ".toList ++ value.chars ++ '\n' :: r =
      key.toList ++ ' ' :: '=' :: ' ' :: (value.chars ++ '\n' :: r) := by
    rw [List.append_assoc, List.append_assoc]
    rfl
  rw [hline, sections?, skipLines?_bareWord hkey]
  simp only [Option.bind_eq_bind, Option.bind_some]
  split
  · rename_i heq
    rw [hs] at heq
    cases heq
  · rename_i heq
    rw [hs, List.cons_append] at heq
    exact absurd (List.cons.inj heq).1 (ne_of_isWordChar hd rfl)
  · rw [hkeys, Option.bind_some]
    dsimp only
    rw [hequals, Option.bind_some, hread, Option.bind_some]
    rfl

/-- The draft with more members. -/
def Draft.addAll (draft : Draft) (members : List (String × Value)) : Draft :=
  members.foldl (fun draft member => draft.add member.1 member.2) draft

lemma linesChars_cons (member : String × Value) (members : List (String × Value)) :
    linesChars (member :: members) =
      member.1.toList ++ " = ".toList ++ member.2.chars ++ '\n' :: linesChars members := by
  rw [linesChars, List.flatMap_cons, List.append_assoc, List.singleton_append]
  rfl

/-- Lines add their members to the section, one after another. -/
lemma sections?_lines (draft : Draft) (hmembers : ReadableMembers members)
    (hfuel : (linesChars members ++ r).length < fuel) : ∃ fuel', r.length < fuel' ∧
      sections? fuel draft (linesChars members ++ r) =
        sections? fuel' (draft.addAll members) r := by
  induction members generalizing fuel draft with
  | nil => exact ⟨fuel, hfuel, rfl⟩
  | cons member members ih =>
    obtain ⟨fuel, rfl⟩ := Nat.exists_eq_succ_of_ne_zero (Nat.ne_zero_of_lt hfuel)
    obtain ⟨hkey, hvalue⟩ := hmembers member List.mem_cons_self
    have hrest : (linesChars members ++ r).length < fuel := by
      rw [linesChars_cons] at hfuel
      simp only [List.length_append, List.length_cons] at hfuel ⊢
      omega
    obtain ⟨fuel', hfuel', heq⟩ := ih (draft.add member.1 member.2)
      (fun other hother => hmembers other (List.mem_cons_of_mem _ hother)) hrest
    refine ⟨fuel', hfuel', ?_⟩
    rw [linesChars_cons, List.append_assoc, List.cons_append, sections?_line hkey hvalue, heq]
    rfl

lemma membersToJson_eq (nodes : List (String × Node)) :
    Node.membersToJson nodes = nodes.map fun node => (node.1, node.2.toJson) := by
  induction nodes with
  | nil => rfl
  | cons node nodes ih => rw [Node.membersToJson, ih, List.map_cons]

lemma finish_addAll (draft : Draft) (members : List (String × Value)) :
    (draft.addAll members).finish =
      { draft.heading with
        members := Node.membersToJson draft.nodes ++ membersToJson members } := by
  induction members generalizing draft with
  | nil =>
    rw [membersToJson, List.map_nil, List.append_nil]
    rfl
  | cons member members ih =>
    have hnodes : Node.membersToJson (draft.add member.1 member.2).nodes =
        Node.membersToJson draft.nodes ++ [(member.1, member.2.toJson)] := by
      rw [membersToJson_eq, membersToJson_eq, Draft.add, List.map_append]
      rfl
    change ((draft.add member.1 member.2).addAll members).finish = _
    rw [ih, hnodes, List.append_assoc]
    rfl

/-! ### Headings -/

/-- The section of a name and its members. -/
def sectionOf (path : List String) (members : List (String × Value)) : Section :=
  ⟨path, false, membersToJson members⟩

/-- A section as it is written. -/
def sectionChars (s : String × List (String × Value)) : List Char :=
  '\n' :: '[' :: s.1.toList ++ [']', '\n'] ++ linesChars s.2

lemma heading?_bareWord (hname : IsBareWord name) :
    heading? (name.toList ++ ']' :: '\n' :: r) = some (⟨[name], false, []⟩, r) := by
  obtain ⟨d, s, hs, hd⟩ := hname.exists_eq
  have hkeys (fuel : ℕ) : keys? (fuel + 1) (name.toList ++ ']' :: '\n' :: r) =
      some ([name], ']' :: '\n' :: r) :=
    keys?_bareWord hname rfl (skipGap_of_not rfl) (by simp)
  have hopen (r' : List Char) : name.toList ++ ']' :: '\n' :: r = '[' :: r' → False := by
    rw [hs, List.cons_append]
    exact fun heq => ne_of_isWordChar hd rfl (List.cons.inj heq).1
  unfold heading?
  simp only [hkeys, Option.bind_eq_bind, Option.bind_some]
  rfl

/-- A heading ends the section in front of it and opens its own. -/
lemma sections?_heading (hname : IsBareWord name) :
    sections? (fuel + 1) draft ('\n' :: '[' :: (name.toList ++ ']' :: '\n' :: r)) =
      (sections? fuel ⟨⟨[name], false, []⟩, []⟩ r).map (draft.finish :: ·) := by
  have hskip : skipLines? (('\n' :: '[' :: (name.toList ++ ']' :: '\n' :: r)).length + 1)
      ('\n' :: '[' :: (name.toList ++ ']' :: '\n' :: r)) =
      some ('[' :: (name.toList ++ ']' :: '\n' :: r)) := by
    rw [skipLines?_lineEnd]
    exact skipLines?_of_not rfl (by decide) (by decide)
  rw [sections?, hskip]
  simp only [Option.bind_eq_bind, Option.bind_some, heading?_bareWord hname]
  cases sections? fuel ⟨⟨[name], false, []⟩, []⟩ r <;> rfl

/-- The sections behind the first one, up to the end of the text. -/
lemma sections?_sections {sections : List (String × List (String × Value))} (draft : Draft)
    {last : List Char} (hnames : ∀ s ∈ sections, IsBareWord s.1)
    (hmembers : ∀ s ∈ sections, ReadableMembers s.2)
    (hlast : ∀ fuel draft, last.length < fuel → sections? fuel draft last = some [draft.finish])
    (hfuel : (sections.flatMap sectionChars ++ last).length < fuel) :
    sections? fuel draft (sections.flatMap sectionChars ++ last) =
      some (draft.finish :: sections.map fun s => sectionOf [s.1] s.2) := by
  induction sections generalizing fuel draft with
  | nil => exact hlast fuel draft hfuel
  | cons s sections ih =>
    obtain ⟨fuel, rfl⟩ := Nat.exists_eq_succ_of_ne_zero (Nat.ne_zero_of_lt hfuel)
    have hchars : (s :: sections).flatMap sectionChars ++ last =
        '\n' :: '[' :: (s.1.toList ++ ']' :: '\n' ::
        (linesChars s.2 ++ (sections.flatMap sectionChars ++ last))) := by
      simp [sectionChars]
    rw [hchars] at hfuel ⊢
    have hrest : (linesChars s.2 ++ (sections.flatMap sectionChars ++ last)).length < fuel := by
      simp only [List.length_append, List.length_cons] at hfuel ⊢
      omega
    obtain ⟨fuel', hfuel', heq⟩ := sections?_lines ⟨⟨[s.1], false, []⟩, []⟩
      (hmembers s List.mem_cons_self) hrest
    rw [sections?_heading (hnames s List.mem_cons_self), heq,
      ih _ (fun other hother => hnames other (List.mem_cons_of_mem _ hother))
        (fun other hother => hmembers other (List.mem_cons_of_mem _ hother)) hfuel', finish_addAll]
    rfl

end Lines

/-! ### Assembly -/

section Assembly
variable {sections : List Section} {depth : ℕ}

/-- The members of the section whose keys have all been used up, if there is one. -/
def ownMembers? (sections : List Section) : Option (List (String × Json)) :=
  match sections.filter Section.isHere with
  | [] => some []
  | [s] => if s.isItem then none else some s.members
  | _ => none

/-- The item of a list that a run of sections stands for. -/
def itemOf? (depth : ℕ) (run : Section × List Section) : Option Json :=
  if run.2.any Section.isHere then none
  else (assemble depth run.2).map fun members => .object (run.1.members ++ members)

/-- The member that the sections below a key stand for, together. -/
def memberUnder? (depth : ℕ) (sections : List Section) (key : String) : Option (String × Json) :=
  if (sections.filterMap (Section.below? key)).head?.any fun s => s.isHere && s.isItem then do
    let items ← (itemRuns (sections.filterMap (Section.below? key))).mapM (itemOf? depth)
    some (key, .array items)
  else (assemble depth (sections.filterMap (Section.below? key))).map fun members => (key,
    .object members)

lemma assemble_eq : assemble (depth + 1) sections = (ownMembers? sections).bind fun own =>
    ((distinct (sections.filterMap fun s => s.path.head?)).mapM (memberUnder? depth sections)).bind
      fun inner =>
      some (own ++ inner) := by
  unfold assemble ownMembers?
  cases sections.filter Section.isHere with
  | nil => rfl
  | cons t rest =>
    cases rest with
    | nil =>
      dsimp only
      split <;> rfl
    | cons u rest => rfl

end Assembly

section Assembly
variable {sections : List (String × List (String × Value))} {top : List (String × Value)}
  {s : String × List (String × Value)} {depth : ℕ}

lemma distinct_of_nodup {α : Type} [DecidableEq α] {l : List α} (h : l.Nodup) : distinct l = l := by
  induction l with
  | nil => rfl
  | cons a l ih =>
    obtain ⟨ha, hl⟩ := List.nodup_cons.1 h
    have hfilter : l.filter (fun b => b ≠ a) = l :=
      List.filter_eq_self.2 fun b hb => decide_eq_true (ne_of_mem_of_not_mem hb ha)
    rw [distinct_cons, hfilter, ih hl]

lemma mapM_map_eq_some {α β γ : Type} {f : β → Option γ} {e : α → β} {g : α → γ} {l : List α}
    (h : ∀ a ∈ l, f (e a) = some (g a)) : (l.map e).mapM f = some (l.map g) := by
  induction l with
  | nil => rfl
  | cons a l ih =>
    rw [List.map_cons, List.mapM_cons, h a List.mem_cons_self,
      ih fun b hb => h b (List.mem_cons_of_mem a hb)]
    rfl

/-- A section without a heading, alone, is its members. -/
lemma assemble_own (members : List (String × Value)) :
    assemble (depth + 1) [sectionOf [] members] = some (membersToJson members) := by
  have happend : membersToJson members ++ [] = membersToJson members := List.append_nil _
  exact congrArg some happend

lemma below?_sectionOf (key name : String) (members : List (String × Value)) :
    Section.below? key (sectionOf [name] members) = if name = key then some (sectionOf [] members)
    else none := rfl

lemma filterMap_below?_of_not_mem {key : String} (h : key ∉ sections.map Prod.fst) :
    (sections.map fun s => sectionOf [s.1] s.2).filterMap (Section.below? key) = [] := by
  rw [List.filterMap_eq_nil_iff]
  intro s hs
  obtain ⟨t, ht, rfl⟩ := List.mem_map.1 hs
  rw [below?_sectionOf, if_neg]
  rintro rfl
  exact h (List.mem_map_of_mem ht)

/-- Below a name stands the one section of this name. -/
lemma filterMap_below? (hnodup : (sections.map Prod.fst).Nodup) (hs : s ∈ sections) :
    (sections.map fun s => sectionOf [s.1] s.2).filterMap (Section.below? s.1) =
      [sectionOf [] s.2] := by
  induction sections with
  | nil => cases hs
  | cons t sections ih =>
    obtain ⟨ht, hrest⟩ := List.nodup_cons.1 hnodup
    rw [List.map_cons, List.filterMap_cons, below?_sectionOf]
    obtain rfl | hs := List.mem_cons.1 hs
    · rw [if_pos rfl]
      dsimp only
      rw [filterMap_below?_of_not_mem ht]
    · have hne : t.1 ≠ s.1 := fun heq => ht (by rw [heq]; exact List.mem_map_of_mem hs)
      rw [if_neg hne]
      exact ih hrest hs

/-- The sections of a document, the first one without a heading. -/
def sectionsOf (top : List (String × Value)) (sections : List (String × List (String × Value))) :
    List Section :=
  sectionOf [] top :: sections.map fun s => sectionOf [s.1] s.2

lemma ownMembers?_sectionsOf :
    ownMembers? (sectionsOf top sections) = some (membersToJson top) := by
  have hhere : (sectionsOf top sections).filter Section.isHere = [sectionOf [] top] := by
    rw [sectionsOf, List.filter_cons_of_pos rfl, List.filter_eq_nil_iff.2]
    intro t ht
    obtain ⟨s, -, rfl⟩ := List.mem_map.1 ht
    exact Bool.false_ne_true
  rw [ownMembers?, hhere]
  rfl

lemma heads_sectionsOf (hnodup : (sections.map Prod.fst).Nodup) :
    distinct ((sectionsOf top sections).filterMap fun s => s.path.head?) =
      sections.map Prod.fst := by
  have hheads : (sectionsOf top sections).filterMap (fun s => s.path.head?) =
      sections.map Prod.fst := by
    rw [sectionsOf, List.filterMap_cons, List.filterMap_map, ← List.filterMap_eq_map]
    rfl
  rw [hheads, distinct_of_nodup hnodup]

lemma memberUnder?_sectionsOf (hnodup : (sections.map Prod.fst).Nodup) (hs : s ∈ sections) :
    memberUnder? (depth + 1) (sectionsOf top sections) s.1 =
      some (s.1, .object (membersToJson s.2)) := by
  have hbelow : (sectionsOf top sections).filterMap (Section.below? s.1) = [sectionOf [] s.2] := by
    rw [sectionsOf, List.filterMap_cons]
    exact filterMap_below? hnodup hs
  have hitem : ([sectionOf [] s.2].head?.any fun s => s.isHere && s.isItem) = false := rfl
  rw [memberUnder?, hbelow, hitem, if_neg Bool.false_ne_true, assemble_own]
  rfl

/-- Sections with names of their own are objects behind the members without a heading. -/
lemma assemble_sectionsOf (hnodup : (sections.map Prod.fst).Nodup) :
    assemble (depth + 2) (sectionsOf top sections) =
      some (membersToJson top ++ sections.map fun s => (s.1, .object (membersToJson s.2))) := by
  have hmembers :
      (sections.map Prod.fst).mapM (memberUnder? (depth + 1) (sectionsOf top sections)) =
      some (sections.map fun s => (s.1, .object (membersToJson s.2))) :=
    mapM_map_eq_some fun _ hs => memberUnder?_sectionsOf hnodup hs
  rw [assemble_eq, ownMembers?_sectionsOf, heads_sectionsOf hnodup, Option.bind_some, hmembers,
    Option.bind_some]

end Assembly

/-! ### The whole text -/

section Text
variable {members : List (String × Value)} {document : Document}

lemma replacePair_eq_self {a b c : Char} {s : List Char} (h : a ∉ s) : replacePair a b c s = s := by
  induction s with
  | nil => rfl
  | cons d s ih =>
    obtain ⟨hd, hs⟩ := not_or.1 (List.mem_cons.not.1 h)
    cases s with
    | nil => rfl
    | cons e s => rw [replacePair, if_neg fun heq => hd heq.1.symm, ih hs]

lemma foldLines_eq_self {s : List Char} (hreturn : '\r' ∉ s) (hmark : s.head? ≠ some '\ufeff') :
    foldLines s = s := by
  unfold foldLines
  split
  · exact absurd rfl hmark
  · exact replacePair_eq_self hreturn

lemma IsBareWord.return_not_mem {name : String} (h : IsBareWord name) : '\r' ∉ name.toList :=
  fun hmem =>
  absurd (h.2 _ hmem) (by decide)

lemma return_not_mem_linesChars (hmembers : ReadableMembers members) :
    '\r' ∉ linesChars members := by
  rw [linesChars, List.mem_flatMap]
  rintro ⟨member, hmember, hmem⟩
  obtain ⟨hkey, hvalue⟩ := hmembers member hmember
  simp only [List.mem_append] at hmem
  obtain ((hmem | hmem) | hmem) | hmem := hmem
  · exact hkey.return_not_mem hmem
  · exact absurd hmem (by decide)
  · exact return_not_mem_chars hvalue hmem
  · exact absurd hmem (by decide)

lemma toList_write (document : Document) :
    document.write.toList = linesChars document.top ++ document.sections.flatMap sectionChars :=
  String.toList_ofList

lemma Document.Readable.return_not_mem (h : document.Readable) : '\r' ∉ document.write.toList := by
  rw [toList_write, List.mem_append, List.mem_flatMap]
  rintro (hmem | ⟨s, hs, hmem⟩)
  · exact return_not_mem_linesChars h.top hmem
  · rw [sectionChars, List.mem_append, List.mem_append, List.mem_cons, List.mem_cons] at hmem
    obtain ((hmem | hmem | hmem) | hmem) | hmem := hmem
    · exact absurd hmem (by decide)
    · exact absurd hmem (by decide)
    · exact (h.names s hs).return_not_mem hmem
    · exact absurd hmem (by decide)
    · exact return_not_mem_linesChars (h.members s hs) hmem

/-- The text starts with a bare word or with the end of a line. -/
lemma Document.Readable.head?_ne (h : document.Readable) {last : List Char}
    (hlast : last.head? ≠ some '\ufeff') :
    (document.write.toList ++ last).head? ≠ some '\ufeff' := by
  rw [toList_write]
  cases htop : document.top with
  | cons member members =>
    obtain ⟨d, s, hs, hd⟩ := (h.top member (by rw [htop]; exact List.mem_cons_self)).1.exists_eq
    rw [linesChars_cons, hs]
    exact fun heq => ne_of_isWordChar hd rfl (Option.some.inj heq)
  | nil =>
    cases hsections : document.sections with
    | cons s sections =>
      exact fun heq => absurd (Option.some.inj heq) (by decide)
    | nil => exact hlast

end Text

/-- The text of a document is read as the document, also with one more line end behind it. -/
theorem parse?_write {document : Document} (h : document.Readable) {last : String}
    (hlast : last = "" ∨ last = "\n") :
    parse? (document.write ++ last) = some document.toJson := by
  have hreturn : '\r' ∉ (document.write ++ last).toList := by
    rw [String.toList_append, List.mem_append]
    exact not_or.2 ⟨h.return_not_mem, by obtain rfl | rfl := hlast <;> decide⟩
  have hmark : (document.write ++ last).toList.head? ≠ some '\ufeff' := by
    rw [String.toList_append]
    exact h.head?_ne (by obtain rfl | rfl := hlast <;> decide)
  have hend (fuel : ℕ) (draft : Draft) (hfuel : last.toList.length < fuel) :
      sections? fuel draft last.toList = some [draft.finish] := by
    obtain ⟨fuel, rfl⟩ := Nat.exists_eq_succ_of_ne_zero (Nat.ne_zero_of_lt hfuel)
    obtain rfl | rfl := hlast <;> rfl
  have hchars : (document.write ++ last).toList =
      linesChars document.top ++ (document.sections.flatMap sectionChars ++ last.toList) := by
    rw [String.toList_append, toList_write, List.append_assoc]
  obtain ⟨fuel, hfuel, hlines⟩ := sections?_lines .start h.top
    (Nat.lt_succ_self (linesChars document.top ++
      (document.sections.flatMap sectionChars ++ last.toList)).length)
  have hfirst : (Draft.start.addAll document.top).finish = sectionOf [] document.top :=
    finish_addAll _ _
  have hsections : sections? fuel (Draft.start.addAll document.top)
      (document.sections.flatMap sectionChars ++ last.toList) =
      some (sectionsOf document.top document.sections) := by
    rw [sections?_sections _ h.names h.members hend hfuel, hfirst]
    rfl
  rw [parse?, foldLines_eq_self hreturn hmark, hchars, hlines, hsections, Option.bind_eq_bind,
    Option.bind_some, ofSections, assemble_sectionsOf h.nodup]
  rfl

end SkyResolver.Toml
