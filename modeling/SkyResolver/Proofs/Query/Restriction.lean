import SkyResolver.Proofs.Query.Alternatives
import SkyResolver.Proofs.Query.Composition

/-! Expressions within the astronomy collection. A query in parentheses is read as it is read by
itself, so its operators, prefixes and modifiers stay inside, and the collection is joined to the
whole of it. -/
namespace SkyResolver.Query

/-! ### Trees of parts -/

lemma shape_group (before after : Gap) (inner : Spelling .chain) :
    (Spelling.group none before inner after).shape = .group inner.shape :=
  congrArg Tree.group (inner.withoutSpans_tree 0 (after.chars ++ [')']))

lemma shape_juxtaposition (first : Spelling .element) (rest : List (Spelling .element)) :
    (juxtaposition first rest).shape = Tree.ofOperands .implicit
      (first.shape :: rest.map Spelling.shape) := by
  rw [Spelling.shape, Spelling.withoutSpans_eq_choices, choices_juxtaposition]
  rfl

/-! ### Restricted expressions -/

namespace Layout
variable {s : List Char} (layout : Layout s)

lemma withoutSpans_tree : layout.tree.withoutSpans = layout.chain.shape :=
  layout.chain.withoutSpans_tree _ _

lemma restricted_eq : layout.restricted =
    juxtaposition (.group none layout.before layout.chain layout.after)
      [wordField "database" "astronomy"] := rfl

lemma shape_restricted : layout.restricted.shape = .operation .implicit
    [.group layout.tree.withoutSpans, .field "database" (.word "astronomy") ⟨0, 0⟩] := by
  rw [restricted_eq, shape_juxtaposition, shape_group, withoutSpans_tree]
  rfl

/-- The restricted expression with the parentheses around it. -/
def enclosed : Spelling .chain := .single (.bare (.group none .empty layout.restricted .empty))

lemma text_enclosed : layout.enclosed.text = (withinAstronomy (String.ofList s)).toList := by
  rw [← layout.text_restricted]
  rfl

lemma valid_enclosed : layout.enclosed.Valid [] := by
  refine ⟨fun head hhead => ?_, layout.valid_restricted.inert (.closing .empty [])⟩
  cases hhead

lemma shape_enclosed : layout.enclosed.shape = .group (.operation .implicit
    [.group layout.tree.withoutSpans, .field "database" (.word "astronomy") ⟨0, 0⟩]) :=
  (shape_group .empty .empty layout.restricted).trans (congrArg Tree.group layout.shape_restricted)

end Layout

section Restricted
variable {expr : String} {tree : Tree}

lemma parenthesesMatch_withinAstronomy (h : parenthesesMatch expr = true) :
    parenthesesMatch (withinAstronomy expr) = true := by
  have hend : closesAll 2 ") database:astronomy)".toList = true := by decide
  have hinside := closesAll_append h hend
  have htext : (withinAstronomy expr).toList =
      '(' :: '(' :: (expr.toList ++ ") database:astronomy)".toList) := by
    simp [withinAstronomy]
  rwa [parenthesesMatch, htext, closesAll, if_pos rfl, closesAll, if_pos rfl]

/-- An expression that is a query is one within the astronomy collection as well. Its tree stands
there as a group of its own beside the field for the collection. -/
theorem parse_withinAstronomy (h : Tree.parse expr = .ok tree) :
    ∃ tree', Tree.parse (withinAstronomy expr) = .ok tree' ∧
    tree'.withoutSpans = .group (.operation .implicit
      [.group tree.withoutSpans, .field "database" (.word "astronomy") ⟨0, 0⟩]) := by
  obtain ⟨hbalanced, hchars⟩ := parse_eq_ok.1 h
  obtain ⟨layout, rfl⟩ := Layout.exists_of_ofChars? hchars
  have hquery : (withinAstronomy expr).toList = Gap.empty.chars ++
      (layout.enclosed.text ++ Gap.empty.chars) := by
    rw [layout.text_enclosed, String.ofList_toList]
    exact (List.append_nil _).symm
  refine ⟨_, Spelling.parse .empty .empty _ hquery layout.valid_enclosed
    (parenthesesMatch_withinAstronomy hbalanced), ?_⟩
  rw [Spelling.withoutSpans_tree]
  exact layout.shape_enclosed

/-- Neither the sign at the start nor the boost at the end gets hold of what stands around the
expression. -/
theorem parse_withinAstronomy_of_boost :
    Tree.parse "-a OR b^" = .ok (.operation .or [.prefixed .minus (.word "a"),
      .boost (.word "b") none]) ∧
    ∃ tree', Tree.parse (withinAstronomy "-a OR b^") = .ok tree' ∧
    tree'.withoutSpans = .group (.operation .implicit
      [.group (.operation .or [.prefixed .minus (.word "a"), .boost (.word "b") none]),
        .field "database" (.word "astronomy") ⟨0, 0⟩]) :=
  have h : Tree.parse "-a OR b^" = .ok (.operation .or [.prefixed .minus (.word "a"),
      .boost (.word "b") none]) :=
    Spelling.parse .empty .empty
      (.linked (.prefixed .minus .empty (.bare (.atom none (.word "a")))) (.or .one .one)
        (.single (.bare (.modified (.atom none (.word "b")) .empty .boost none)))) rfl
        (by decide) rfl
  ⟨h, parse_withinAstronomy h⟩

end Restricted
end SkyResolver.Query
