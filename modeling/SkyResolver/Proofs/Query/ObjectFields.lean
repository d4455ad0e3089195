import SkyResolver.Query.Clause
import SkyResolver.Proofs.Query.Marks
import SkyResolver.Proofs.Query.NormalForm
import SkyResolver.Proofs.Query.Places
import SkyResolver.Proofs.Service.ConeSearch
import SkyResolver.Proofs.Text.Words

/-! The clauses of a tree are its object fields that are not below another field, one for each and
in depth-first order, and the names of the tree are those of its clauses. Both are read off the list
of all nodes of a tree, each with the nodes that it is below. -/
namespace SkyResolver.Query
open SkyResolver.Text

/-! ### The nodes of a tree -/

/-- A node of a tree, and the nodes that it is below, the nearest one first. -/
structure Place where
  node : Tree
  above : List Tree

mutual

/-- The nodes of a tree in depth-first order, where the tree itself is below given nodes. -/
def Tree.places : List Tree → Tree → List Place
  | above, .word text => [⟨.word text, above⟩]
  | above, .phrase text => [⟨.phrase text, above⟩]
  | above, .field name value span =>
    ⟨.field name value span, above⟩ :: Tree.places (.field name value span :: above) value
  | above, .group inner => ⟨.group inner, above⟩ :: Tree.places (.group inner :: above) inner
  | above, .fieldGroup inner =>
    ⟨.fieldGroup inner, above⟩ :: Tree.places (.fieldGroup inner :: above) inner
  | above, .operation op operands =>
    ⟨.operation op operands, above⟩ :: Tree.placesOfAll (.operation op operands :: above) operands
  | above, .prefixed op operand =>
    ⟨.prefixed op operand, above⟩ :: Tree.places (.prefixed op operand :: above) operand
  | above, .boost operand factor =>
    ⟨.boost operand factor, above⟩ :: Tree.places (.boost operand factor :: above) operand
  | above, .approx operand degree =>
    ⟨.approx operand degree, above⟩ :: Tree.places (.approx operand degree :: above) operand
  | above, .range low high includeLow includeHigh =>
    ⟨.range low high includeLow includeHigh, above⟩ ::
      (Tree.places (.range low high includeLow includeHigh :: above) low ++
        Tree.places (.range low high includeLow includeHigh :: above) high)

/-- The nodes of several trees below given nodes. -/
def Tree.placesOfAll : List Tree → List Tree → List Place
  | _, [] => []
  | above, tree :: trees => Tree.places above tree ++ Tree.placesOfAll above trees

end

/-- What stands directly below a node. -/
def Tree.children : Tree → List Tree
  | .word _ => []
  | .phrase _ => []
  | .field _ value _ => [value]
  | .group inner => [inner]
  | .fieldGroup inner => [inner]
  | .operation _ operands => operands
  | .prefixed _ operand => [operand]
  | .boost operand _ => [operand]
  | .approx operand _ => [operand]
  | .range low high _ _ => [low, high]

/-- The place is below a node of a kind. -/
def Place.isBelow (kind : Tree → Bool) (place : Place) : Bool := place.above.any kind

lemma Place.isBelow_or (place : Place) (kind kind' : Tree → Bool) :
    (place.isBelow fun node => kind node || kind' node) =
      (place.isBelow kind || place.isBelow kind') := by
  rw [Bool.eq_iff_iff]
  simp only [Place.isBelow, List.any_eq_true, Bool.or_eq_true]
  constructor
  · rintro ⟨node, hnode, h | h⟩
    · exact .inl ⟨node, hnode, h⟩
    · exact .inr ⟨node, hnode, h⟩
  · rintro (⟨node, hnode, h⟩ | ⟨node, hnode, h⟩)
    · exact ⟨node, hnode, .inl h⟩
    · exact ⟨node, hnode, .inr h⟩

section Places
variable {above : List Tree} {tree : Tree}

lemma Tree.placesOfAll_eq (above trees : List Tree) :
    Tree.placesOfAll above trees = trees.flatMap (Tree.places above) := by
  induction trees with
  | nil => rfl
  | cons tree trees ih => rw [Tree.placesOfAll, ih, List.flatMap_cons]

lemma Tree.places_eq (above : List Tree) (tree : Tree) :
    tree.places above = ⟨tree, above⟩ :: tree.children.flatMap (Tree.places (tree :: above)) := by
  cases tree <;> simp [Tree.places, Tree.children, Tree.placesOfAll_eq]

lemma Tree.sizeOf_lt_of_mem_children {child : Tree} (h : child ∈ tree.children) :
    sizeOf child < sizeOf tree := by
  cases tree with
  | word => cases h
  | phrase => cases h
  | operation op operands =>
    have hlt : sizeOf child < sizeOf operands := List.sizeOf_lt_of_mem h
    rw [Tree.operation.sizeOf_spec]
    omega
  | range low high =>
    simp only [Tree.children, List.mem_cons, List.not_mem_nil, or_false] at h
    rw [Tree.range.sizeOf_spec]
    obtain rfl | rfl := h <;> omega
  | _ =>
    obtain rfl := List.mem_singleton.1 h
    simp +arith

/-- Induction over the nodes of a tree, whatever they are. -/
@[elab_as_elim]
theorem Tree.children_induction {motive : Tree → Prop}
    (step : ∀ tree, (∀ child ∈ tree.children, motive child) → motive tree) (tree : Tree) :
    motive tree := by
  induction hn : sizeOf tree using Nat.strongRecOn generalizing tree with
  | ind n ih => exact step tree fun child hchild => ih _ (hn ▸
      Tree.sizeOf_lt_of_mem_children hchild) child rfl

lemma Tree.subtrees_eq (tree : Tree) : tree.subtrees =
    tree :: tree.children.flatMap Tree.subtrees := by
  cases tree <;> simp [Tree.subtrees, Tree.children, Tree.subtreesOfAll_eq]

lemma Tree.places_below {place : Place} (h : place ∈ tree.places above) :
    above <:+ place.above := by
  induction tree using Tree.children_induction generalizing above with
  | step tree ih =>
    rw [Tree.places_eq, List.mem_cons, List.mem_flatMap] at h
    obtain rfl | ⟨child, hchild, h⟩ := h
    · exact List.suffix_rfl
    · exact (List.suffix_cons tree above).trans (ih child hchild h)

/-- A walk from the top that collects something at each node, and that does not go below the nodes
of a kind, collects it at the places that are not below such a node, in their order. -/
theorem Tree.collect_eq {α : Type} {collect own : Tree → List α} {stops : Tree → Bool}
    (hcollect : ∀ tree, collect tree = own tree ++ if stops tree then [] else
      tree.children.flatMap collect)
    (hopen : above.any stops = false) :
    collect tree =
      ((tree.places above).filter fun place => !place.isBelow stops).flatMap fun place => own
        place.node := by
  induction tree using Tree.children_induction generalizing above with
  | step tree ih =>
    rw [hcollect, Tree.places_eq, List.filter_cons_of_pos (by simpa [Place.isBelow] using hopen),
      List.flatMap_cons, List.filter_flatMap, List.flatMap_assoc]
    congr 1
    cases hstops : stops tree with
    | true =>
      -- All that is below the node is below a node of the kind.
      rw [if_pos rfl, eq_comm, List.flatMap_eq_nil_iff]
      intro child _
      rw [List.filter_eq_nil_iff.2 fun place hplace => ?_, List.flatMap_nil]
      have hmem := (Tree.places_below hplace).subset List.mem_cons_self
      simp only [Place.isBelow, Bool.not_eq_true', Bool.not_eq_false, List.any_eq_true]
      exact ⟨tree, hmem, hstops⟩
    | false =>
      rw [if_neg (by decide)]
      exact List.flatMap_congr fun child hchild =>
        ih child hchild (by rw [List.any_cons, hstops, hopen]; rfl)

end Places

/-! ### The object fields -/

def Tree.isField : Tree → Bool
  | .field _ _ _ => true
  | _ => false

def Tree.isRange : Tree → Bool
  | .range _ _ _ _ => true
  | _ => false

/-- True for a field that is named `object`. -/
def Tree.isObject : Tree → Bool
  | .field name _ _ => isObjectField name
  | _ => false

/-- True for a node whose parts hold no names: another field, or a range. -/
def Tree.isNameless : Tree → Bool
  | .field name _ _ => !isObjectField name
  | .range _ _ _ _ => true
  | _ => false

/-- The name that a word or a phrase is, if anything is left of it. -/
def Tree.ownName : Tree → List String
  | .word text => nameIn text.toList
  | .phrase text => nameIn (withoutQuotes text.toList)
  | _ => []

/-- What an object field adds to the object fields of a tree. -/
def Tree.ownObjectField : Tree → List (Tree × Tree × Span)
  | .field name value span =>
    if isObjectField name then [(.field name value span, value, span)] else []
  | _ => []

/-- The names of a tree are its words and phrases that are not below another field or a range. -/
lemma Tree.names_eq (tree : Tree) : tree.names =
    ((tree.places []).filter fun place => !place.isBelow Tree.isNameless).flatMap
      fun place => place.node.ownName := by
  refine Tree.collect_eq (fun tree => ?_) rfl
  cases tree with
  | operation op operands => simp [Tree.names_operation, Tree.ownName, Tree.isNameless,
      Tree.children]
  | field name value span => cases hname : isObjectField name <;>
      simp [Tree.names, Tree.ownName, Tree.isNameless, Tree.children, hname]
  | _ => simp [Tree.names, Tree.ownName, Tree.isNameless, Tree.children]

/-- The object fields of a tree are found by a walk that goes below no field and below no range. -/
lemma Tree.objectFields_eq (tree : Tree) : tree.objectFields =
    ((tree.places []).filter fun place => !place.isBelow fun node =>
      node.isField || node.isRange).flatMap
      fun place => place.node.ownObjectField := by
  refine Tree.collect_eq (fun tree => ?_) rfl
  cases tree with
  | operation op operands =>
    simp [Tree.objectFields_operation, Tree.ownObjectField, Tree.isField, Tree.isRange,
      Tree.children]
  | _ => simp [Tree.objectFields, Tree.ownObjectField, Tree.isField, Tree.isRange, Tree.children]

/-! ### Clauses and their fields -/

/-- The names in the value of an object field: the parts of a value that is one phrase, or else the
words and phrases of the value that are not below another field or a range. -/
structure Harvested (value : Tree) (names : List String) : Prop where
  phrase : ∀ text, value = .phrase text →
  names = (separated (withoutQuotes text.toList)).flatMap nameIn
  other : (∀ text, value ≠ .phrase text) → names =
    ((value.places []).filter fun place => !place.isBelow Tree.isNameless).flatMap
    fun place => place.node.ownName

/-- The clause of a field: it has the range of the field, the text in this range or else the written
form of the field, and the names in the value of the field. -/
structure ClauseOf (source : String) (field : Tree) (clause : Clause) : Prop where
  parts : ∃ name value, field = .field name value clause.span ∧ Harvested value clause.names
  text : clause.text.toList = (clause.span.slice? source.toList).getD field.write

lemma harvested_namesInValue (value : Tree) : Harvested value (namesInValue value) where
  phrase text h := by rw [h, namesInValue]
  other h := by
    rw [← Tree.names_eq, namesInValue]
    exact h

lemma clauseOf_ofField (source name : String) (value : Tree) (span : Span) :
    ClauseOf source (.field name value span)
      (Clause.ofField source (.field name value span) value span) where
  parts := ⟨name, value, rfl, harvested_namesInValue value⟩
  text := String.toList_ofList

lemma forall₂_flatMap {α β : Type} {R : α → β → Prop} {p : α → Bool} {own : α → List β}
    (h : ∀ a, (p a = true ∧ ∃ b, own a = [b] ∧ R a b) ∨ (p a = false ∧ own a = [])) (l : List α) :
    List.Forall₂ R (l.filter p) (l.flatMap own) := by
  induction l with
  | nil => exact .nil
  | cons a l ih =>
    rw [List.flatMap_cons]
    obtain ⟨hp, b, hown, hR⟩ | ⟨hp, hown⟩ := h a
    · rw [List.filter_cons_of_pos hp, hown]
      exact .cons hR ih
    · rw [List.filter_cons_of_neg (by simp [hp]), hown]
      exact ih

/-- The clauses of a tree belong one to one to its object fields that are not below a field or a
range. -/
lemma forall₂_clauses (source : String) (tree : Tree) :
    List.Forall₂ (fun place => ClauseOf source place.node) ((tree.places []).filter fun place =>
      place.node.isObject && !place.isBelow fun node => node.isField || node.isRange)
    (Extraction.ofTree source tree).clauses := by
  rw [Extraction.ofTree, Tree.objectFields_eq, List.map_flatMap, ← List.filter_filter]
  refine forall₂_flatMap (fun place => ?_) _
  obtain ⟨node, above⟩ := place
  cases node with
  | field name value span =>
    cases hname : isObjectField name with
    | true => exact .inl ⟨hname, _, by simp [Tree.ownObjectField, hname],
        clauseOf_ofField source name value span⟩
    | false => exact .inr ⟨hname, by simp [Tree.ownObjectField, hname]⟩
  | _ => exact .inr ⟨rfl, rfl⟩

/-! ### Ranges -/

/-- The bounds of ranges are words and phrases. -/
def Tree.PlainBounds (tree : Tree) : Prop :=
  ∀ low high includeLow includeHigh, .range low high includeLow includeHigh ∈ tree.subtrees →
    low.isBound = true ∧ high.isBound = true

lemma plainBounds_of_parse {query : String} {tree : Tree} (h : Tree.parse query = .ok tree) :
    tree.PlainBounds := by
  obtain ⟨before, after, p, -, -, rfl, -⟩ := exists_spelling_of_parse h
  intro low high includeLow includeHigh hrange
  exact (p.stands (byteLength query.toList) after.chars).1.joined _ hrange

section PlainBounds
variable {tree : Tree}

lemma Tree.PlainBounds.child (h : tree.PlainBounds) {child : Tree}
    (hchild : child ∈ tree.children) :
    child.PlainBounds := fun low high includeLow includeHigh hrange => by
  refine h low high includeLow includeHigh ?_
  rw [Tree.subtrees_eq]
  exact List.mem_cons_of_mem _ (List.mem_flatMap.2 ⟨child, hchild, hrange⟩)

lemma Tree.places_of_isBound {above : List Tree} (h : tree.isBound = true) :
    tree.places above = [⟨tree, above⟩] := by
  cases tree with
  | word => rfl
  | phrase => rfl
  | _ => cases h

/-- What is below a range of such a tree is no field. -/
lemma Tree.PlainBounds.not_below_range (h : tree.PlainBounds) {above : List Tree}
    (hopen : above.any Tree.isRange = false) {place : Place} (hplace : place ∈ tree.places above)
    (hobject : place.node.isObject = true) : place.isBelow Tree.isRange = false := by
  induction tree using Tree.children_induction generalizing above with
  | step tree ih =>
    rw [Tree.places_eq, List.mem_cons, List.mem_flatMap] at hplace
    obtain rfl | ⟨child, hchild, hplace⟩ := hplace
    · exact hopen
    · cases hrange : tree.isRange with
      | false =>
        exact ih child hchild (h.child hchild) (by rw [List.any_cons, hrange, hopen]; rfl) hplace
      | true =>
        have hbound : child.isBound = true := by
          cases tree with
          | range low high includeLow includeHigh =>
            have hself : .range low high includeLow includeHigh ∈
                (Tree.range low high includeLow includeHigh).subtrees := by
              rw [Tree.subtrees_eq]
              exact List.mem_cons_self
            obtain ⟨hlow, hhigh⟩ := h low high includeLow includeHigh hself
            simp only [Tree.children, List.mem_cons, List.not_mem_nil, or_false] at hchild
            obtain rfl | rfl := hchild
            · exact hlow
            · exact hhigh
          | _ => cases hrange
        rw [Tree.places_of_isBound hbound, List.mem_singleton] at hplace
        subst hplace
        cases child with
        | word => cases hobject
        | phrase => cases hobject
        | _ => cases hbound

end PlainBounds

/-! ### Names -/

lemma bare_of_mem_nameIn {s : List Char} {name : String} (h : name ∈ nameIn s) :
    name ≠ "" ∧ IsTrimmed name.toList := by
  unfold nameIn at h
  split at h
  · cases h
  · rename_i c r htrim
    obtain rfl := List.mem_singleton.1 h
    refine ⟨by simp, ?_⟩
    rw [String.toList_ofList, ← htrim]
    exact isTrimmed_trim s

lemma bare_of_mem_names {tree : Tree} {name : String} (h : name ∈ tree.names) :
    name ≠ "" ∧ IsTrimmed name.toList := by
  rw [Tree.names_eq] at h
  obtain ⟨⟨node, above⟩, -, h⟩ := List.mem_flatMap.1 h
  cases node with
  | word text => exact bare_of_mem_nameIn h
  | phrase text => exact bare_of_mem_nameIn h
  | _ => cases h

lemma bare_of_mem_namesInValue {value : Tree} {name : String} (h : name ∈ namesInValue value) :
    name ≠ "" ∧ IsTrimmed name.toList := by
  cases value with
  | phrase text =>
    obtain ⟨piece, -, hpiece⟩ := List.mem_flatMap.1 h
    exact bare_of_mem_nameIn hpiece
  | _ => exact bare_of_mem_names h

/-! ### Extractions -/

/-- Whatever the tree and whatever the text, the names of an extraction are the names of its
clauses, each at its first place, and none of them is empty or has a margin. The clauses belong one
to one, in depth-first order, to the object fields that are not below another field; in a tree with
fields below a range, which no query has, those fields are left out as well. -/
theorem ofTree_collects (source : String) (tree : Tree) :
    (Extraction.ofTree source tree).names =
      ((Extraction.ofTree source tree).clauses.flatMap Clause.names).eraseDups ∧
    (∀ clause ∈ (Extraction.ofTree source tree).clauses, ∀ name ∈ clause.names, name ≠ "" ∧
      IsTrimmed name.toList) ∧
    List.Forall₂ (fun place => ClauseOf source place.node)
      ((tree.places []).filter fun place =>
        place.node.isObject && !place.isBelow fun node => node.isField || node.isRange)
      (Extraction.ofTree source tree).clauses ∧
    (tree.PlainBounds → List.Forall₂ (fun place => ClauseOf source place.node)
      ((tree.places []).filter fun place => place.node.isObject && !place.isBelow Tree.isField)
      (Extraction.ofTree source tree).clauses) ∧
    ∀ query, Tree.parse query = .ok tree → tree.PlainBounds := by
  refine ⟨distinct_eq_eraseDups _, fun clause hclause name hname => ?_, forall₂_clauses source tree,
    fun hplain => ?_, fun query => plainBounds_of_parse⟩
  · obtain ⟨⟨field, value, span⟩, -, rfl⟩ := List.mem_map.1 hclause
    exact bare_of_mem_namesInValue hname
  · convert forall₂_clauses source tree using 1
    refine List.filter_congr fun place hplace => ?_
    cases hobject : place.node.isObject with
    | false => rfl
    | true =>
      rw [Place.isBelow_or, hplain.not_below_range rfl hplace hobject, Bool.or_false]

/-- A range with a field for a bound, which no query has. -/
def fieldBoundTree : Tree := .range (.field "object" (.word "a") ⟨1, 9⟩) (.word "b") true true

/-- The walk does not look into ranges, so an object field that is a bound has no clause. -/
theorem ofTree_of_field_bound :
    (Extraction.ofTree "[object:a TO b]" fieldBoundTree).clauses = [] ∧
    (((fieldBoundTree.places []).filter fun place =>
      place.node.isObject && !place.isBelow Tree.isField).map fun place => place.node.write) =
        ["object:a".toList] ∧
    ¬List.Forall₂ (fun place => ClauseOf "[object:a TO b]" place.node)
      ((fieldBoundTree.places []).filter fun place =>
        place.node.isObject && !place.isBelow Tree.isField)
      (Extraction.ofTree "[object:a TO b]" fieldBoundTree).clauses := by
  have hclauses : (Extraction.ofTree "[object:a TO b]" fieldBoundTree).clauses = [] := by decide
  have hplaces : (((fieldBoundTree.places []).filter fun place =>
      place.node.isObject && !place.isBelow Tree.isField).map fun place => place.node.write) =
        ["object:a".toList] := by decide
  refine ⟨hclauses, hplaces, fun h => ?_⟩
  have hlength := congrArg List.length hplaces
  rw [List.length_map, h.length_eq, hclauses] at hlength
  cases hlength

/-- A name twice in one clause, and an object field in the value of another field. -/
def repeatedNameTree : Tree :=
  .operation .implicit
    [.field "object" (.fieldGroup (.operation .or [.word "a", .phrase "\" a \""])) ⟨0, 19⟩,
      .field "x" (.fieldGroup (.field "object" (.word "b") ⟨23, 31⟩)) ⟨20, 32⟩]

theorem ofTree_collects_of_repeated_name :
    Tree.parse "object:(a OR \" a \") x:(object:b)" = .ok repeatedNameTree ∧
    (Extraction.ofTree "object:(a OR \" a \") x:(object:b)" repeatedNameTree).names = ["a"] ∧
    List.Forall₂ (fun place => ClauseOf "object:(a OR \" a \") x:(object:b)" place.node)
      ((repeatedNameTree.places []).filter fun place => place.node.isObject &&
        !place.isBelow Tree.isField)
      (Extraction.ofTree "object:(a OR \" a \") x:(object:b)" repeatedNameTree).clauses := by
  have h : Tree.parse "object:(a OR \" a \") x:(object:b)" = .ok repeatedNameTree :=
    Spelling.parse .empty .empty
      (.linked (.bare (.group (some ⟨"object", .empty, .empty⟩) .empty
          (.linked (.bare (.atom none (.word "a"))) (.or .one .one)
            (.single (.bare (.atom none (.phrase "\" a \""))))) .empty)) (.beside .one)
        (.single (.bare (.group (some ⟨"x", .empty, .empty⟩) .empty
          (.single (.bare (.atom (some ⟨"object", .empty, .empty⟩) (.word "b")))) .empty))))
      rfl (by decide +kernel) rfl
  obtain ⟨hnames, -, -, hfields, hplain⟩ :=
    ofTree_collects "object:(a OR \" a \") x:(object:b)" repeatedNameTree
  exact ⟨h, hnames.trans (by decide +kernel), hfields (hplain _ h)⟩

end SkyResolver.Query
