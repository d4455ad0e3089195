import Mathlib.Logic.Function.Basic
import Mathlib.Tactic.Lemma
import SkyResolver.Proofs.Text.Words
import SkyResolver.Simbad.Adql

/-! Conditions read back. A reader of literals takes a query's condition apart into the values that
were put into it, so no value gets out of its literal, and different values make different queries.
-/
namespace SkyResolver.Simbad
open SkyResolver.Text

/-! ### Literals -/

/-- What a literal stands for and the text behind it, read from behind its first mark. Two marks
stand for one, and a mark by itself ends the literal. -/
def literalRest? : List Char → Option (List Char × List Char)
  | [] => none
  | c :: s =>
    if c = quoteMark then
      match s with
      | [] => some ([], [])
      | d :: t =>
        if d = quoteMark then (literalRest? t).map fun (value, rest) => (quoteMark :: value, rest)
        else some ([], d :: t)
    else (literalRest? s).map fun (value, rest) => (c :: value, rest)

/-- The text with each of its marks written twice. -/
def doubled (s : List Char) : List Char := replaceChar quoteMark [quoteMark, quoteMark] s

section Literal
variable {s value rest : List Char} {c : Char}

lemma doubled_mark (s : List Char) :
    doubled (quoteMark :: s) = quoteMark :: quoteMark :: doubled s := by
  simp [doubled, replaceChar]

lemma doubled_cons (hc : c ≠ quoteMark) (s : List Char) : doubled (c :: s) = c :: doubled s := by
  simp [doubled, replaceChar, hc]

lemma literalRest?_cons (hc : c ≠ quoteMark) (s : List Char) :
    literalRest? (c :: s) = (literalRest? s).map fun (value, rest) => (c :: value, rest) := by
  rw [literalRest?.eq_def]
  simp [hc]

lemma literalRest?_doubled (hrest : rest.head? ≠ some quoteMark) :
    literalRest? (doubled value ++ quoteMark :: rest) = some (value, rest) := by
  induction value with
  | nil =>
    cases rest with
    | nil => rfl
    | cons d rest =>
      have hd : d ≠ quoteMark := by simpa using hrest
      simp [doubled, replaceChar, literalRest?, hd]
  | cons c value ih =>
    by_cases hc : c = quoteMark
    · subst hc
      simp [doubled_mark, literalRest?, ih]
    · rw [doubled_cons hc, List.cons_append, literalRest?_cons hc, ih, Option.map_some]

lemma eq_of_literalRest? (h : literalRest? s = some (value, rest)) :
    s = doubled value ++ quoteMark :: rest := by
  fun_induction literalRest? s generalizing value rest with
  | case1 => cases h
  | case2 =>
    cases h
    rfl
  | case3 t ih =>
    obtain ⟨⟨value, rest⟩, ht, hpair⟩ := Option.map_eq_some_iff.1 h
    cases hpair
    rw [ih ht, doubled_mark]
    rfl
  | case4 d t hd =>
    cases h
    rfl
  | case5 c s hc ih =>
    obtain ⟨⟨value, rest⟩, hs, hpair⟩ := Option.map_eq_some_iff.1 h
    cases hpair
    rw [ih hs, doubled_cons hc]
    rfl

end Literal

/-! ### Conditions -/

/-- The condition that a column has a value. -/
def condition (column value : String) : List Char := column.toList ++ '=' :: literal value.toList

/-- The value in a condition on the column, and the text behind the condition. -/
def condition? (column : String) (s : List Char) : Option (String × List Char) :=
  (afterPrefix? (column.toList ++ ['=', quoteMark]) s).bind fun inside =>
    (literalRest? inside).map fun (value, rest) => (String.ofList value, rest)

section Condition
variable {column value : String} {values : List String} {s rest : List Char}

lemma condition_append (column value : String) (rest : List Char) :
    condition column value ++ rest =
      (column.toList ++ ['=', quoteMark]) ++ (doubled value.toList ++ quoteMark :: rest) := by
  simp [condition, literal, doubled]

lemma condition?_append (hrest : rest.head? ≠ some quoteMark) :
    condition? column (condition column value ++ rest) = some (value, rest) := by
  rw [condition_append, condition?, afterPrefix?_eq_some_iff.2 rfl, Option.bind_some,
    literalRest?_doubled hrest]
  simp

lemma eq_of_condition? (h : condition? column s = some (value, rest)) :
    s = condition column value ++ rest := by
  obtain ⟨inside, hinside, h⟩ := Option.bind_eq_some_iff.1 h
  obtain ⟨⟨value, rest⟩, hliteral, hpair⟩ := Option.map_eq_some_iff.1 h
  cases hpair
  rw [afterPrefix?_eq_some_iff.1 hinside, eq_of_literalRest? hliteral, condition_append,
    String.toList_ofList]

/-- The values in a chain of conditions on the column, with `OR` between neighbours. Nothing may
stand behind it. -/
def conditionChain? (column : String) (s : List Char) : Option (List String) :=
  match _h : condition? column s with
  | none => none
  | some (value, rest) =>
    if rest = [] then some [value]
    else
      match _hnext : afterPrefix? " OR ".toList rest with
      | none => none
      | some next => (conditionChain? column next).map (value :: ·)
termination_by s.length
decreasing_by
  rw [eq_of_condition? _h, afterPrefix?_eq_some_iff.1 _hnext]
  simp
  omega

/-- The values in the condition that a column has one of several values; the empty text names none.
-/
def conditions? (column : String) (s : List Char) : Option (List String) :=
  if s = [] then some [] else conditionChain? column s

lemma conditionChain?_of_condition? (h : condition? column s = some (value, rest)) :
    conditionChain? column s =
      if rest = [] then some [value]
      else (afterPrefix? " OR ".toList rest).bind fun next => (conditionChain? column next).map
        (value :: ·) := by
  rw [conditionChain?]
  split
  · simp_all
  · rename_i value' rest' h'
    obtain ⟨rfl, rfl⟩ : value = value' ∧ rest = rest' := by simpa [h] using h'
    congr 1
    split <;> simp_all

lemma anyOf_singleton (column value : String) :
    anyOf column [value] = condition column value ++ [] :=
  (join_singleton _ _).trans (List.append_nil _).symm

lemma anyOf_cons_cons (column first second : String) (values : List String) :
    anyOf column (first :: second :: values) =
      condition column first ++ (" OR ".toList ++ anyOf column (second :: values)) :=
  join_cons_cons _ _ _ _

lemma conditionChain?_anyOf (first : String) (values : List String) :
    conditionChain? column (anyOf column (first :: values)) = some (first :: values) := by
  induction values generalizing first with
  | nil =>
    rw [anyOf_singleton, conditionChain?_of_condition? (condition?_append (by simp)), if_pos rfl]
  | cons second values ih =>
    -- A blank stands behind the literal, so its last mark is not one of two.
    have hblank : (" OR ".toList ++ anyOf column (second :: values)).head? ≠ some quoteMark :=
      show some ' ' ≠ some quoteMark by decide
    rw [anyOf_cons_cons, conditionChain?_of_condition? (condition?_append hblank), if_neg (by simp),
      afterPrefix?_eq_some_iff.2 rfl, Option.bind_some, ih, Option.map_some]

lemma eq_of_conditionChain? (h : conditionChain? column s = some values) :
    s = anyOf column values ∧ values ≠ [] := by
  fun_induction conditionChain? column s generalizing values with
  | case1 => cases h
  | case2 s value hread =>
    cases h
    rw [anyOf_singleton, ← eq_of_condition? hread]
    simp
  | case3 => cases h
  | case4 s value rest hread hrest next hnext ih =>
    obtain ⟨values, hvalues, rfl⟩ := Option.map_eq_some_iff.1 h
    obtain ⟨rfl, hne⟩ := ih hvalues
    obtain ⟨second, values, rfl⟩ := List.exists_cons_of_ne_nil hne
    rw [anyOf_cons_cons, ← afterPrefix?_eq_some_iff.1 hnext, ← eq_of_condition? hread]
    simp

lemma anyOf_ne_nil (column first : String) (values : List String) :
    anyOf column (first :: values) ≠ [] := by
  cases values <;> simp [anyOf_singleton, anyOf_cons_cons, condition]

/-- The texts that the reader takes are those that are written. -/
theorem conditions?_eq_some_iff : conditions? column s = some values ↔ s = anyOf column values := by
  constructor
  · intro h
    rw [conditions?] at h
    split at h
    · cases h
      simpa [anyOf, join] using ‹s = []›
    · exact (eq_of_conditionChain? h).1
  · rintro rfl
    cases values with
    | nil => rfl
    | cons first values => rw [conditions?, if_neg (anyOf_ne_nil _ _ _), conditionChain?_anyOf]

end Condition

/-! ### Queries -/

/-- What stands behind the first `WHERE` of a query. -/
def wherePart? (query : String) : Option (List Char) :=
  (cutAt? "WHERE ".toList query.toList).map Prod.snd

lemma cutAt?_append {c : Char} {p s : List Char} (t : List Char) (hc : c ∉ s) :
    cutAt? (c :: p) (s ++ (c :: p ++ t)) = some (s, t) := by
  induction s with
  | nil =>
    have hprefix : afterPrefix? (c :: p) (c :: (p ++ t)) = some t := afterPrefix?_eq_some_iff.2 rfl
    rw [List.nil_append, List.cons_append, cutAt?, hprefix]
  | cons d s ih =>
    rw [List.mem_cons, not_or] at hc
    rw [List.cons_append, cutAt?, afterPrefix?, if_neg hc.1, ih hc.2, Option.map_some]

lemma wherePart?_append {selection : String} (h : 'W' ∉ selection.toList) (s : List Char) :
    wherePart? (selection ++ "WHERE " ++ String.ofList s) = some s := by
  have hcut : cutAt? "WHERE ".toList (selection ++ "WHERE " ++ String.ofList s).toList =
      some (selection.toList, s) := by
    rw [String.toList_append, String.toList_append, String.toList_ofList (l := s),
      List.append_assoc]
    exact cutAt?_append s h
  exact congrArg (Option.map Prod.snd) hcut

lemma wherePart?_queryForNames (names : List String) :
    wherePart? (queryForNames names) = some (anyOf "ident2.id" names) := by
  have hselection : "SELECT ident1.oidref, ident1.id, basic.main_id FROM ident AS ident1 " ++
      "JOIN ident AS ident2 ON ident1.oidref = ident2.oidref " ++
      "JOIN basic ON ident1.oidref = basic.oid WHERE " =
      "SELECT ident1.oidref, ident1.id, basic.main_id FROM ident AS ident1 JOIN ident AS ident2 " ++
      "ON ident1.oidref = ident2.oidref JOIN basic ON ident1.oidref = basic.oid " ++ "WHERE " := by
    decide +kernel
  have hquery := congrArg (· ++ String.ofList (anyOf "ident2.id" names)) hselection
  exact (congrArg wherePart? hquery).trans (wherePart?_append (by decide +kernel) _)

lemma wherePart?_queryForIds (identifiers : List String) :
    wherePart? (queryForIds identifiers) = some (anyOf "oid" identifiers) := by
  have hselection : "SELECT oid, main_id, main_id FROM basic WHERE " =
      "SELECT oid, main_id, main_id FROM basic " ++ "WHERE " := by decide +kernel
  have hquery := congrArg (· ++ String.ofList (anyOf "oid" identifiers)) hselection
  exact (congrArg wherePart? hquery).trans (wherePart?_append (by decide +kernel) _)

/-- The values in a query are read back as they were put in, whatever stands in them. So none of
them gets out of its literal, and different lists never make the same query. -/
theorem conditions_read_back :
    (∀ names, (wherePart? (queryForNames names)).bind (conditions? "ident2.id") = some names) ∧
      (∀ identifiers, (wherePart? (queryForIds identifiers)).bind (conditions? "oid") =
        some identifiers) ∧
      Function.Injective queryForNames ∧ Function.Injective queryForIds := by
  have hnames : ∀ names, (wherePart? (queryForNames names)).bind (conditions? "ident2.id") =
      some names := by
    intro names
    rw [wherePart?_queryForNames, Option.bind_some, conditions?_eq_some_iff]
  have hids : ∀ identifiers, (wherePart? (queryForIds identifiers)).bind (conditions? "oid") =
      some identifiers := by
    intro identifiers
    rw [wherePart?_queryForIds, Option.bind_some, conditions?_eq_some_iff]
  refine ⟨hnames, hids, fun names names' h => ?_, fun identifiers identifiers' h => ?_⟩
  · have hread := hnames names
    rw [h, hnames names'] at hread
    exact (Option.some.inj hread).symm
  · have hread := hids identifiers
    rw [h, hids identifiers'] at hread
    exact (Option.some.inj hread).symm

end SkyResolver.Simbad
