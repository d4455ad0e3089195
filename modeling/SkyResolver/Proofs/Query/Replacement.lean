import SkyResolver.Proofs.Query.Splice
import SkyResolver.Proofs.Service.Observation

/-! Replacement of the clauses of a query, whatever they are replaced by and wherever their texts
are found. What stands behind a clause is not touched before the next clause's turn, so each clause
still has its own occurrence when it is looked for. -/
namespace SkyResolver.Query
open SkyResolver.Text

/-! ### Inquiries -/

/-- A call for the replacement of a clause, and its answer. -/
structure Inquiry where
  index : Nat
  clause : Clause
  answer : String

/-- A world and the inquiries that were made in it, in their order. -/
structure Ledger (σ : Type) where
  world : σ
  inquiries : List Inquiry

section Noting
variable {σ : Type} (replacement : Nat → Clause → StateM σ String)

/-- A replacement that is noted whenever it is called. -/
def inquiring (index : Nat) (clause : Clause) : StateM (Ledger σ) String := fun ledger =>
  let (answer, world) := (replacement index clause).run ledger.world
  (answer, { world, inquiries := ledger.inquiries ++ [⟨index, clause, answer⟩] })

lemma shadows_replaceClause (query : String) (indexed : Clause × Nat) :
    Shadows Ledger.world (replaceClause (inquiring replacement) query indexed)
      (replaceClause replacement query indexed) := by
  unfold replaceClause
  dsimp only
  split
  · exact Shadows.bind (fun ledger => ⟨rfl, rfl⟩) fun _ => .pure _
  · exact .pure query

/-- Whether inquiries are noted or not makes no difference to the result. -/
lemma shadows_replaceClauses (query : String) (clauses : List Clause) :
    Shadows Ledger.world (replaceClauses (inquiring replacement) query clauses)
      (replaceClauses replacement query clauses) := by
  rw [replaceClauses, replaceClauses]
  generalize clauses.zipIdx = indexed
  induction indexed generalizing query with
  | nil => exact .pure query
  | cons first indexed ih =>
    rw [List.foldlM_cons, List.foldlM_cons]
    exact (shadows_replaceClause replacement query first).bind ih

end Noting

/-! ### Texts and the inquiries that changed them -/

/-- The text `old` stands between `before` and `after`, and nowhere earlier. -/
structure FirstPlace (old s before after : List Char) : Prop where
  splits : s = before ++ old ++ after
  first : ∀ before' after', s = before' ++ old ++ after' → before.length ≤ before'.length

/-- The second text comes of the first one when each inquiry in turn puts its answer in the first
place of the text of its clause. -/
inductive Replaces : List Char → List Inquiry → List Char → Prop where
  | done (s : List Char) : Replaces s [] s
  | next {s before after t : List Char} {inquiry : Inquiry} {inquiries : List Inquiry}
      (place : FirstPlace inquiry.clause.text.toList s before after)
      (rest : Replaces (before ++ inquiry.answer.toList ++ after) inquiries t) :
      Replaces s (inquiry :: inquiries) t

lemma firstPlace_of_cutAt? {old s before after : List Char}
    (h : cutAt? old s = some (before, after)) :
    FirstPlace old s before after where
  splits := eq_append_of_cutAt? h
  first before' after' hs := by
    obtain ⟨first, rest, hcut, hle⟩ := exists_cutAt? old before' after'
    rw [← List.append_assoc, ← hs, h] at hcut
    cases hcut
    exact hle

/-! ### One clause and all clauses -/

section Run
variable {σ : Type} (replacement : Nat → Clause → StateM σ String)

/-- A clause in front of a suffix `t` is found, there or earlier; `t` stays a suffix. -/
lemma replaceClause_of_suffix {query : String} {clause : Clause} {t : List Char}
    (h : clause.text.toList ++ t <:+ query.toList) (index : Nat) (ledger : Ledger σ) :
    ∃ before after answer world, FirstPlace clause.text.toList query.toList before after ∧
      (replaceClause (inquiring replacement) query (clause, index)).run ledger =
        (String.ofList (before ++ answer.toList ++ after),
          ⟨world, ledger.inquiries ++ [⟨index, clause, answer⟩]⟩) ∧ t <:+ after := by
  obtain ⟨u, hu⟩ := h
  obtain ⟨before, after, hcut, hle⟩ := exists_cutAt? clause.text.toList u t
  rw [hu] at hcut
  have hplace := firstPlace_of_cutAt? hcut
  -- The occurrence that is replaced ends no later than this one does.
  have hafter : t <:+ after := by
    have hsuffix : t <:+ query.toList := ⟨u ++ clause.text.toList, by rw [← hu, List.append_assoc]⟩
    have hlength := congrArg List.length (hu.trans hplace.splits)
    simp only [List.length_append] at hlength
    exact List.suffix_of_suffix_length_le hsuffix ⟨_, hplace.splits.symm⟩ (by omega)
  refine ⟨before, after, ((replacement index clause).run ledger.world).1,
    ((replacement index clause).run ledger.world).2, hplace, ?_, hafter⟩
  simp only [replaceClause, hcut]
  rfl

/-- What stands behind the last one of the fields that are laid out in `s`. -/
def behindLast (s : List Char) (fields : List (Spelling .element × List Char)) : List Char :=
  (fields.getLast?.map Prod.snd).getD s

lemma behindLast_cons (s : List Char) (x : Spelling .element × List Char)
    (fields : List (Spelling .element × List Char)) :
    behindLast s (x :: fields) = behindLast x.2 fields := by
  cases h : fields.getLast? <;> simp [behindLast, List.getLast?_cons, h]

variable {new : Spelling .element → List Char → List Char} {s r w : List Char}
  {fields : List (Spelling .element × List Char)}

/-- From a text that ends with the fields and what is between them: every clause is found in its
turn. -/
theorem LaidOut.run (h : LaidOut new s fields r w) (total n : Nat) {query : String}
    (hquery : s <:+ query.toList) (ledger : Ledger σ) :
    ∃ text inquiries world,
      (((clausesAt total fields).zipIdx n).foldlM (replaceClause (inquiring replacement)) query).run
          ledger = (text, ⟨world, ledger.inquiries ++ inquiries⟩) ∧
        inquiries.map Inquiry.clause = clausesAt total fields ∧
        inquiries.map Inquiry.index = List.range' n fields.length ∧
        Replaces query.toList inquiries text.toList ∧ behindLast s fields <:+ text.toList := by
  induction h generalizing n query ledger with
  | nil s r =>
    refine ⟨query, [], ledger.world, ?_, rfl, rfl, .done _, hquery⟩
    rw [List.append_nil]
    rfl
  | @cons x field t r w fields rest ih =>
    have hfield : (clauseAt total field t).text.toList ++ t <:+ query.toList := by
      rw [clauseAt, String.toList_ofList]
      exact (List.suffix_append x _).trans hquery
    obtain ⟨before, after, answer, world, hplace, hstep, hafter⟩ :=
      replaceClause_of_suffix replacement hfield n ledger
    have hsuffix : t <:+ (String.ofList (before ++ answer.toList ++ after)).toList := by
      rw [String.toList_ofList]
      exact hafter.trans (List.suffix_append _ _)
    obtain ⟨text, inquiries, world', hrun, hclauses, hindices, hreplaces, hbehind⟩ :=
      ih (n + 1) hsuffix ⟨world, ledger.inquiries ++ [⟨n, clauseAt total field t, answer⟩]⟩
    refine ⟨text, ⟨n, clauseAt total field t, answer⟩ :: inquiries, world', ?_, ?_, ?_, ?_, ?_⟩
    · rw [clausesAt, List.map_cons, List.zipIdx_cons, List.foldlM_cons, StateT.run_bind, hstep,
        ← clausesAt]
      refine hrun.trans ?_
      rw [List.append_assoc]
      rfl
    · rw [List.map_cons, hclauses]
      rfl
    · rw [List.map_cons, hindices, List.length_cons, List.range'_succ]
    · rw [String.toList_ofList] at hreplaces
      exact .next hplace hreplaces
    · rwa [behindLast_cons]

end Run

/-- Whatever the clauses of a query are replaced by, every clause is found: the replacement is
called once for each of them, in order, and each answer is put in the first place of the clause's
text. The result ends as the query does behind the last clause. -/
theorem replaceClauses_calls {query : String} {extraction : Extraction}
    (h : Extraction.ofQuery query = .ok extraction) {σ : Type}
    (replacement : Nat → Clause → StateM σ String) (world : σ) :
    ∃ text inquiries world',
      (replaceClauses replacement query extraction.clauses).run world = (text, world') ∧
      (replaceClauses (inquiring replacement) query extraction.clauses).run ⟨world, []⟩ =
        (text, ⟨world', inquiries⟩) ∧
      inquiries.map Inquiry.clause = extraction.clauses ∧
      inquiries.map Inquiry.index = List.range extraction.clauses.length ∧
      Replaces query.toList inquiries text.toList ∧
      ∀ last ∈ extraction.clauses.getLast?, ∃ rest,
        dropBytes? last.span.stop query.toList = some rest ∧ rest <:+ text.toList := by
  obtain ⟨before, after, p, hquery, -, hclauses⟩ := exists_clauses h
  have hlaid := (p.laidOut (fun _ _ => []) after.chars).append_left before.chars
  rw [← hquery] at hlaid
  obtain ⟨text, inquiries, world', hrun, hcalled, hindices, hreplaces, hbehind⟩ :=
    hlaid.run replacement (byteLength query.toList) 0 List.suffix_rfl ⟨world, []⟩
  rw [clausesAt, ← hclauses, ← replaceClauses] at hrun
  obtain ⟨htext, hworld⟩ := shadows_replaceClauses replacement query extraction.clauses ⟨world, []⟩
  refine ⟨text, inquiries, world', ?_, hrun, ?_, ?_, hreplaces, fun last hlast => ?_⟩
  · have hnoted : replaceClauses (inquiring replacement) query extraction.clauses ⟨world, []⟩ =
        (text, ⟨world', inquiries⟩) := hrun
    rw [hnoted] at htext hworld
    exact (Prod.ext htext hworld).symm
  · rw [hcalled, hclauses]
    rfl
  · rw [hindices, hclauses, List.length_map, List.range_eq_range']
  · rw [hclauses, List.getLast?_map] at hlast
    obtain ⟨⟨field, t⟩, hx, rfl⟩ := Option.map_eq_some_iff.1 hlast
    obtain ⟨u, hu⟩ := hlaid.split _ (List.mem_of_getLast? hx)
    have hlast : behindLast query.toList (p.objectFields after.chars) = t := by
      rw [behindLast, hx, Option.map_some, Option.getD_some]
    refine ⟨t, ?_, hlast ▸ hbehind⟩
    rw [span_clauseAt _ (congrArg byteLength hu), hu, ← List.append_assoc, dropBytes?_append]

/-- A replacement that counts its inquiries and brings the text of the next clause back: that clause
is then found in it. -/
def countedGroup (_ : Nat) (clause : Clause) : StateM Nat String := do
  modify (· + 1)
  pure ("(" ++ clause.text ++ ")")

theorem replaceClauses_calls_of_repeated_clause :
    Extraction.ofQuery "object:b object:b year:1" =
      .ok ⟨["b"], [⟨"object:b", ⟨0, 8⟩, ["b"]⟩, ⟨"object:b", ⟨9, 17⟩, ["b"]⟩]⟩ ∧
    ∃ inquiries, (replaceClauses (inquiring countedGroup) "object:b object:b year:1"
        [⟨"object:b", ⟨0, 8⟩, ["b"]⟩, ⟨"object:b", ⟨9, 17⟩, ["b"]⟩]).run ⟨0, []⟩ =
          ("((object:b)) object:b year:1", ⟨2, inquiries⟩) ∧
      inquiries.map Inquiry.index = [0, 1] ∧
      Replaces "object:b object:b year:1".toList inquiries
        "((object:b)) object:b year:1".toList := by
  have h : Extraction.ofQuery "object:b object:b year:1" =
      .ok ⟨["b"], [⟨"object:b", ⟨0, 8⟩, ["b"]⟩, ⟨"object:b", ⟨9, 17⟩, ["b"]⟩]⟩ := by
    rw [Extraction.ofQuery, Spelling.parse .empty .empty
      (.linked (.bare (.atom (some ⟨"object", .empty, .empty⟩) (.word "b"))) (.beside .one)
        (.linked (.bare (.atom (some ⟨"object", .empty, .empty⟩) (.word "b"))) (.beside .one)
          (.single (.bare (.atom (some ⟨"year", .empty, .empty⟩) (.word "1"))))))
      rfl (by decide +kernel) rfl]
    exact congrArg Except.ok (by decide +kernel)
  obtain ⟨text, inquiries, world', hplain, hrun, -, hindices, hreplaces, -⟩ :=
    replaceClauses_calls h countedGroup 0
  have hresult : Id.run ((replaceClauses countedGroup "object:b object:b year:1"
      [⟨"object:b", ⟨0, 8⟩, ["b"]⟩, ⟨"object:b", ⟨9, 17⟩, ["b"]⟩]).run 0) =
        ("((object:b)) object:b year:1", 2) := by decide +kernel
  obtain ⟨rfl, rfl⟩ := Prod.mk.inj (hplain.symm.trans hresult)
  exact ⟨h, inquiries, hrun, hindices, hreplaces⟩

end SkyResolver.Query
