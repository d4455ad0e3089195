import SkyResolver.Query.Expansion
import SkyResolver.Proofs.Query.Places

/-! Replacement of clauses by place and by text. A query's clauses have spans, but expansion looks
for their texts, each from the start of what the earlier replacements left. The two agree exactly
when no clause's text occurs before the clause itself. -/
namespace SkyResolver.Query
open SkyResolver.Text

/-- The text with the bytes of a span replaced, if the span lies in it between characters. -/
def replaceSpan? (span : Span) (new s : List Char) : Option (List Char) :=
  (takeBytes? span.start s).bind fun before =>
    (dropBytes? span.stop s).map fun after => before ++ new ++ after

/-- The text with the bytes of several spans replaced; the spans stand in order, and the last one is
replaced first, so that all of them are places in the given text. -/
def replaceSpans? (edits : List (Span × List Char)) (s : List Char) : Option (List Char) :=
  edits.foldr (fun edit done => done.bind (replaceSpan? edit.1 edit.2)) (some s)

/-- The replacements that put `expansion` in the place of each clause. -/
def editsOf (expansion : Clause → String) (clauses : List Clause) : List (Span × List Char) :=
  clauses.map fun clause => (clause.span, (expansion clause).toList)

/-- Each clause is found in its own place: once the clauses before it are replaced there, what
follows the first occurrence of its text is what follows its span in the query. -/
def FoundInPlace (query : List Char) (expansion : Clause → String) (clauses : List Clause) : Prop :=
  ∀ i clause, clauses[i]? = some clause →
    ∀ s, replaceSpans? (editsOf expansion (clauses.take i)) query = some s →
      (cutAt? clause.text.toList s).map Prod.snd = dropBytes? clause.span.stop query

instance (query : List Char) (expansion : Clause → String) (clauses : List Clause) :
    Decidable (FoundInPlace query expansion clauses) :=
  decidable_of_iff (∀ i ∈ List.range clauses.length, ∀ clause ∈ clauses[i]?,
      ∀ s ∈ replaceSpans? (editsOf expansion (clauses.take i)) query,
        (cutAt? clause.text.toList s).map Prod.snd = dropBytes? clause.span.stop query) (by
    refine ⟨fun h i clause hclause => h i ?_ clause hclause, fun h i _ => h i⟩
    exact List.mem_range.2 (List.getElem?_eq_some_iff.1 hclause).1)

/-! ### First occurrences -/

/-- The text with the first occurrence of `old` replaced. -/
def replaceFirst (old new s : List Char) : List Char :=
  match cutAt? old s with
  | some (before, after) => before ++ new ++ after
  | none => s

lemma replaceClauses_text (expansion : Clause → String) (query : String) (clauses : List Clause) :
    (Id.run (replaceClauses (fun _ clause => pure (expansion clause)) query clauses)).toList =
      clauses.foldl (fun s clause => replaceFirst clause.text.toList (expansion clause).toList s)
        query.toList := by
  rw [replaceClauses, List.idRun_foldlM]
  generalize 0 = n
  induction clauses generalizing n query with
  | nil => rfl
  | cons clause clauses ih =>
    rw [List.zipIdx_cons, List.foldl_cons, List.foldl_cons, ih]
    congr 1
    unfold replaceClause replaceFirst
    cases hcut : cutAt? clause.text.toList query.toList <;> simp [hcut]

/-- A text that occurs is found, there or earlier. -/
lemma exists_cutAt? (p u t : List Char) :
    ∃ before after, cutAt? p (u ++ (p ++ t)) = some (before, after) ∧ before.length ≤ u.length := by
  induction u with
  | nil =>
    refine ⟨[], t, ?_, Nat.le_refl _⟩
    cases h : p ++ t with
    | nil =>
      obtain ⟨rfl, rfl⟩ := List.append_eq_nil_iff.1 h
      rfl
    | cons c s =>
      have : afterPrefix? p (c :: s) = some t := afterPrefix?_eq_some_iff.2 h.symm
      rw [List.nil_append, cutAt?, this]
  | cons c u ih =>
    obtain ⟨before, after, hcut, hle⟩ := ih
    rw [List.cons_append, cutAt?]
    cases h : afterPrefix? p (c :: (u ++ (p ++ t))) with
    | some r => exact ⟨[], r, rfl, by simp⟩
    | none => exact ⟨c :: before, after, by rw [hcut]; rfl, by simpa using hle⟩

/-- A text is found in the place of a later occurrence only if that is the first one. -/
lemma cutAt?_cases {p : List Char} (hp : p ≠ []) (u t : List Char) :
    cutAt? p (u ++ (p ++ t)) = some (u, t) ∨
      ∃ before after c v, cutAt? p (u ++ (p ++ t)) = some (before, after) ∧ u = before ++ c :: v ∧
        p.head? = some c ∧ after ≠ t := by
  obtain ⟨before, after, hcut, hle⟩ := exists_cutAt? p u t
  have happend := eq_append_of_cutAt? hcut
  rw [List.append_assoc] at happend
  have hbefore : before <+: u ++ (p ++ t) := ⟨p ++ after, happend.symm⟩
  obtain ⟨v, rfl⟩ := List.prefix_of_prefix_length_le hbefore (List.prefix_append u _) hle
  rw [List.append_assoc, List.append_cancel_left_eq] at happend
  cases v with
  | nil =>
    rw [List.nil_append, List.append_cancel_left_eq] at happend
    left
    rw [hcut, happend, List.append_nil]
  | cons c v =>
    refine .inr ⟨before, after, c, v, hcut, rfl, ?_, ?_⟩
    · obtain ⟨d, q, rfl⟩ := List.exists_cons_of_ne_nil hp
      simp only [List.cons_append, List.cons.injEq] at happend
      rw [happend.1]
      rfl
    · rintro rfl
      have := congrArg List.length happend
      simp at this
      omega

/-! ### Divergence -/

/-- The first text has an opening parenthesis where the second one goes on with another character.
-/
def Diverges (s v : List Char) : Prop :=
  ∃ x y c z, s = x ++ '(' :: y ∧ v = x ++ c :: z ∧ c ≠ '('

lemma Diverges.ne {s v : List Char} (h : Diverges s v) (t : List Char) : s ≠ v ++ t := by
  obtain ⟨x, y, c, z, rfl, rfl, hc⟩ := h
  intro heq
  rw [List.append_assoc, List.append_cancel_left_eq, List.cons_append, List.cons.injEq] at heq
  exact hc heq.1.symm

/-- Texts that have diverged stay so, since no clause starts with a parenthesis and every
replacement does. -/
lemma Diverges.replaceFirst {s v old new : List Char} (h : Diverges s v)
    (hold : ∃ c t, old = c :: t ∧ c ≠ '(') (hnew : ∃ t, new = '(' :: t) :
    Diverges (replaceFirst old new s) v := by
  obtain ⟨x, y, c, z, rfl, rfl, hc⟩ := h
  obtain ⟨d, w, rfl, hd⟩ := hold
  obtain ⟨new, rfl⟩ := hnew
  unfold Query.replaceFirst
  cases hcut : cutAt? (d :: w) (x ++ '(' :: y) with
  | none => exact ⟨x, y, c, z, rfl, rfl, hc⟩
  | some b =>
    obtain ⟨before, after⟩ := b
    have happend := eq_append_of_cutAt? hcut
    rw [List.append_assoc] at happend
    dsimp only
    rcases List.append_eq_append_iff.1 happend with ⟨u, rfl, hu⟩ | ⟨u, rfl, hu⟩
    · cases u with
      | nil =>
        simp only [List.nil_append, List.cons_append, List.cons.injEq] at hu
        exact absurd hu.1.symm hd
      | cons e u =>
        obtain rfl : '(' = e := by simpa using (List.cons.inj hu).1
        exact ⟨x, u ++ ('(' :: new ++ after), c, z, by simp, rfl, hc⟩
    · cases u with
      | nil =>
        simp only [List.nil_append, List.cons_append, List.cons.injEq] at hu
        exact absurd hu.1 hd
      | cons e u =>
        obtain rfl : d = e := by simpa using (List.cons.inj hu).1
        exact ⟨before, new ++ after, d, u ++ c :: z, by simp, by simp, hd⟩

/-! ### The exact condition -/

/-- Every field starts with its name. -/
lemma exists_cons_of_field {field : Spelling .element} {r : List Char} (h : field.Valid r)
    {name : String} (hname : field.fieldName? = some name) :
    ∃ c t, field.text = c :: t ∧ c ≠ '(' := by
  have hhead : ∀ (head : FieldHead) (s : List Char), IsFieldName head.name.toList →
      ∃ c t, headText (some head) ++ s = c :: t ∧ c ≠ '(' := by
    rintro head s ⟨c, t, hname, hc, -⟩
    refine ⟨c, t ++ (head.before.chars ++ ':' :: head.after.chars) ++ s, ?_, ?_⟩
    · simp [headText, FieldHead.text, hname]
    · rintro rfl
      cases hc
  cases field with
  | atom head value =>
    cases head with
    | none => cases hname
    | some head => exact hhead head _ (h.1 head rfl)
  | group head before inner after =>
    cases head with
    | none => cases hname
    | some head => exact hhead head _ (h.1 head rfl)
  | modified => cases hname

lemma withinAstronomy_cons (expr : String) : ∃ t, (withinAstronomy expr).toList = '(' :: t := by
  refine ⟨('(' :: (expr.toList ++ ") database:astronomy)".toList)), ?_⟩
  simp [withinAstronomy]

lemma replaceSpans?_append (edits edits' : List (Span × List Char)) (s : List Char) :
    replaceSpans? (edits ++ edits') s = (replaceSpans? edits' s).bind (replaceSpans? edits) := by
  induction edits with
  | nil =>
    rw [List.nil_append]
    cases replaceSpans? edits' s <;> rfl
  | cons edit edits ih =>
    rw [List.cons_append, replaceSpans?, List.foldr_cons, ← replaceSpans?, ih]
    cases replaceSpans? edits' s <;> rfl

section Splice
variable (expansion : Clause → String) (total : Nat)

/-- The clauses of fields that stand in a text. -/
def clausesAt (fields : List (Spelling .element × List Char)) : List Clause :=
  fields.map fun x => clauseAt total x.1 x.2

/-- Looks for the texts of the clauses, one after another, and replaces what it finds. -/
def replaceAll (clauses : List Clause) (s : List Char) : List Char :=
  clauses.foldl (fun s clause => replaceFirst clause.text.toList (expansion clause).toList s) s

/-- Each clause is found in its own place in a text, once `done` and the clauses before it are
replaced there. -/
def FoundAfter (done : List (Span × List Char)) (s : List Char) (clauses : List Clause) : Prop :=
  ∀ i clause, clauses[i]? = some clause →
    ∀ t, replaceSpans? (done ++ editsOf expansion (clauses.take i)) s = some t →
      (cutAt? clause.text.toList t).map Prod.snd = dropBytes? clause.span.stop s

/-- The first clause is looked for where `done` is replaced, the others where it is replaced as
well. -/
lemma foundAfter_cons (done : List (Span × List Char)) (s : List Char) (clause : Clause)
    (clauses : List Clause) : FoundAfter expansion done s (clause :: clauses) ↔
      (∀ t, replaceSpans? done s = some t →
        (cutAt? clause.text.toList t).map Prod.snd = dropBytes? clause.span.stop s) ∧
      FoundAfter expansion (done ++ [(clause.span, (expansion clause).toList)]) s clauses := by
  constructor
  · intro h
    refine ⟨fun t ht => h 0 clause rfl t (by simpa [editsOf] using ht), fun i other hi t ht => ?_⟩
    exact h (i + 1) other (by simpa using hi) t (by simpa [editsOf] using ht)
  · rintro ⟨hfirst, hrest⟩ i other hi t ht
    cases i with
    | zero =>
      obtain rfl : clause = other := by simpa using hi
      exact hfirst t (by simpa [editsOf] using ht)
    | succ i => exact hrest i other (by simpa using hi) t (by simpa [editsOf] using ht)

lemma text_clauseAt (field : Spelling .element) (t : List Char) :
    (clauseAt total field t).text.toList = field.text := String.toList_ofList

lemma replaceAll_cons (field : Spelling .element) (t : List Char)
    (fields : List (Spelling .element × List Char)) (s : List Char) :
    replaceAll expansion (clausesAt total ((field, t) :: fields)) s =
      replaceAll expansion (clausesAt total fields)
        (replaceFirst field.text (expansion (clauseAt total field t)).toList s) := by
  rw [clausesAt, List.map_cons, replaceAll, List.foldl_cons, text_clauseAt]
  rfl

lemma span_clauseAt {u : List Char} {field : Spelling .element} {t : List Char}
    (htotal : total = byteLength (u ++ (field.text ++ t))) :
    (clauseAt total field t).span = ⟨byteLength u, byteLength (u ++ field.text)⟩ := by
  subst htotal
  simp only [clauseAt, spanBefore, byteLength_append]
  congr 1 <;> omega

lemma dropBytes?_of_clauseAt {u : List Char} {field : Spelling .element} {t : List Char}
    (htotal : total = byteLength (u ++ (field.text ++ t))) :
    dropBytes? (clauseAt total field t).span.stop (u ++ (field.text ++ t)) = some t := by
  rw [span_clauseAt total htotal, ← List.append_assoc, dropBytes?_append]

lemma replaceSpan?_of_clauseAt {u : List Char} {field : Spelling .element} {t : List Char}
    (htotal : total = byteLength (u ++ (field.text ++ t))) (new t' : List Char) :
    replaceSpan? (clauseAt total field t).span new (u ++ (field.text ++ t')) =
      some (u ++ new ++ t') := by
  have hdrop : dropBytes? (byteLength (u ++ field.text)) (u ++ (field.text ++ t')) = some t' := by
    rw [← List.append_assoc, dropBytes?_append]
  rw [replaceSpan?, span_clauseAt total htotal, takeBytes?_append, Option.bind_some, hdrop]
  rfl

/-- Where `v` stands for `u` once `done` is replaced, one more clause is replaced in its place. -/
lemma replaceSpans?_concat {u v x : List Char} {field : Spelling .element} {t : List Char}
    (htotal : total = byteLength (u ++ x ++ (field.text ++ t))) {done : List (Span × List Char)}
    (hdone : ∀ t, replaceSpans? done (u ++ t) = some (v ++ t)) (new t' : List Char) :
    replaceSpans? (done ++ [((clauseAt total field t).span, new)])
      (u ++ x ++ field.text ++ t') = some (v ++ x ++ new ++ t') := by
  have hreplace := replaceSpan?_of_clauseAt total htotal new t'
  rw [replaceSpans?_append, List.append_assoc (u ++ x), replaceSpans?, List.foldr_cons,
    List.foldr_nil, Option.bind_some, hreplace, Option.bind_some, List.append_assoc u,
    List.append_assoc u, hdone]
  simp

/-- Texts that have diverged stay so through all later replacements. -/
lemma Diverges.replaceAll {fields : List (Spelling .element × List Char)}
    (hfields : ∀ x ∈ fields, ∃ c t, x.1.text = c :: t ∧ c ≠ '(')
    (hexpansion : ∀ clause, ∃ t, (expansion clause).toList = '(' :: t) {s v : List Char}
    (h : Diverges s v) : Diverges (replaceAll expansion (clausesAt total fields) s) v := by
  induction fields generalizing s with
  | nil => exact h
  | cons x fields ih =>
    refine ih (fun y hy => hfields y (List.mem_cons_of_mem x hy)) (h.replaceFirst ?_ (hexpansion _))
    simpa [clauseAt] using hfields x (by simp)

/-- From the state in which the clauses of `u` are replaced, so that `v` stands for it: the rest is
spliced, and the search gives the same if and only if it finds every clause in its place. -/
theorem LaidOut.splice {s r w : List Char} {fields : List (Spelling .element × List Char)}
    (h : LaidOut (fun field t => (expansion (clauseAt total field t)).toList) s fields r w)
    (hfields : ∀ x ∈ fields, ∃ c t, x.1.text = c :: t ∧ c ≠ '(')
    (hexpansion : ∀ clause, ∃ t, (expansion clause).toList = '(' :: t)
    {u v : List Char} (htotal : total = byteLength (u ++ s)) (done : List (Span × List Char))
    (hdone : ∀ t, replaceSpans? done (u ++ t) = some (v ++ t)) :
    replaceSpans? (done ++ editsOf expansion (clausesAt total fields)) (u ++ s) =
        some (v ++ (w ++ r)) ∧
      (replaceAll expansion (clausesAt total fields) (v ++ s) = v ++ (w ++ r) ↔
        FoundAfter expansion done (u ++ s) (clausesAt total fields)) := by
  induction h generalizing u v done with
  | nil s r =>
    refine ⟨by simpa [editsOf, clausesAt] using hdone (s ++ r), ?_⟩
    simp [replaceAll, clausesAt, FoundAfter]
  | @cons x field t r w fields rest ih =>
    have hfields' : ∀ y ∈ fields, ∃ c t, y.1.text = c :: t ∧ c ≠ '(' :=
      fun y hy => hfields y (List.mem_cons_of_mem _ hy)
    rw [← List.append_assoc] at htotal
    obtain ⟨hw, hiff⟩ := ih hfields' (u := u ++ x ++ field.text) (by rw [htotal]; simp) _
      (replaceSpans?_concat total htotal hdone (expansion (clauseAt total field t)).toList)
    have hstart : u ++ (x ++ (field.text ++ t)) = u ++ x ++ field.text ++ t := by simp
    refine ⟨?_, ?_⟩
    · rw [hstart]
      simpa [editsOf, clausesAt] using hw
    have hstate : v ++ (x ++ (field.text ++ t)) = v ++ x ++ (field.text ++ t) := by simp
    -- The first clause is looked for in the one text that `done` leaves.
    have hfound : FoundAfter expansion done (u ++ (x ++ (field.text ++ t)))
        (clausesAt total ((field, t) :: fields)) ↔
          (cutAt? field.text (v ++ x ++ (field.text ++ t))).map Prod.snd = some t ∧
          FoundAfter expansion (done ++ [((clauseAt total field t).span,
            (expansion (clauseAt total field t)).toList)]) (u ++ x ++ field.text ++ t)
            (clausesAt total fields) := by
      rw [clausesAt, List.map_cons, foundAfter_cons, hdone, ← List.append_assoc u,
        dropBytes?_of_clauseAt total htotal, text_clauseAt, hstate, ← List.append_assoc (u ++ x)]
      simp [clausesAt]
    rw [hfound, hstate, replaceAll_cons]
    obtain ⟨d, f, hd, hparen⟩ := hfields _ List.mem_cons_self
    rcases cutAt?_cases (p := field.text) (by simp [hd]) (v ++ x) t with hcut |
      ⟨before, after, c, z, hcut, hsplit, hc, hne⟩
    · -- The clause is found in its place: the rest decides.
      have hout : v ++ (x ++ ((expansion (clauseAt total field t)).toList ++ w) ++ r) =
          v ++ x ++ (expansion (clauseAt total field t)).toList ++ (w ++ r) := by simp
      rw [replaceFirst, hcut, hout, hiff]
      simp
    · -- Its text occurs earlier: the texts diverge there, and the search is not in place.
      have hc' : c ≠ '(' := by
        rw [hd] at hc
        cases hc
        exact hparen
      obtain ⟨new, hnew⟩ := hexpansion (clauseAt total field t)
      have hfirst : Diverges (replaceFirst field.text (expansion (clauseAt total field t)).toList
          (v ++ x ++ (field.text ++ t))) (v ++ x) := by
        rw [Query.replaceFirst, hcut]
        exact ⟨before, new ++ after, c, z, by simp [hnew], hsplit, hc'⟩
      have hall := hfirst.replaceAll expansion total hfields' hexpansion
      refine iff_of_false (fun heq => ?_) fun hplaces => ?_
      · exact hall.ne ((expansion (clauseAt total field t)).toList ++ (w ++ r)) (by simpa using heq)
      · rw [hcut] at hplaces
        exact hne (Option.some.inj hplaces.1)

end Splice

/-- The spelling of an accepted query, and what replacement makes of it: with the replacements in
the places of the clauses, if each clause is found there. -/
theorem exists_spliced {query : String} {extraction : Extraction}
    (h : Extraction.ofQuery query = .ok extraction) (expansion : Clause → String)
    (hexpansion : ∀ clause, ∃ t, (expansion clause).toList = '(' :: t) :
    ∃ (before after : Gap) (p : Spelling .chain) (spliced : List Char),
      query.toList = before.chars ++ (p.text ++ after.chars) ∧ p.Valid after.chars ∧
      extraction.clauses = (p.objectFields after.chars).map (fun x =>
        clauseAt (byteLength query.toList) x.1 x.2) ∧
      spliced = before.chars ++ (p.textWith (fun field t =>
        (expansion (clauseAt (byteLength query.toList) field t)).toList) after.chars ++
          after.chars) ∧
      replaceSpans? (editsOf expansion extraction.clauses) query.toList = some spliced ∧
      ((Id.run (replaceClauses (fun _ clause => pure (expansion clause)) query
          extraction.clauses)).toList = spliced ↔
        FoundInPlace query.toList expansion extraction.clauses) := by
  obtain ⟨before, after, p, hquery, hvalid, hclauses⟩ := exists_clauses h
  have hlaid := (p.laidOut (fun field t =>
    (expansion (clauseAt (byteLength query.toList) field t)).toList) after.chars).append_left
      before.chars
  rw [← hquery] at hlaid
  have hfields : ∀ x ∈ p.objectFields after.chars, ∃ c t, x.1.text = c :: t ∧ c ≠ '(' := by
    intro x hx
    obtain ⟨hx, name, hname, -⟩ := p.objectFields_valid hvalid x hx
    exact exists_cons_of_field hx hname
  obtain ⟨hw, hiff⟩ := hlaid.splice expansion _ hfields hexpansion (u := [])
    (v := []) rfl [] fun t => rfl
  rw [List.append_assoc, List.nil_append] at hw hiff
  refine ⟨before, after, p, _, hquery, hvalid, hclauses, rfl, ?_, ?_⟩
  · rw [hclauses]
    exact hw
  · rw [hclauses, replaceClauses_text]
    exact hiff

/-- The expansion of a query is the query with each clause replaced by its expression at its span,
if and only if the search for the texts of the clauses finds every clause in its own place. -/
theorem expandQuery_eq_splice_iff {query : String} {extraction : Extraction}
    (h : Extraction.ofQuery query = .ok extraction) (names : List String) (targets : List Catalog)
    (identification : Identification) :
    ∃ spliced, replaceSpans? (editsOf
        (fun clause => clauseExpansion clause names targets identification) extraction.clauses)
        query.toList = some spliced ∧
      ((expandQuery query extraction.clauses names targets identification).toList = spliced ↔
        FoundInPlace query.toList
          (fun clause => clauseExpansion clause names targets identification)
            extraction.clauses) := by
  obtain ⟨-, -, -, spliced, -, -, -, -, hspliced, hiff⟩ := exists_spliced h
    (fun clause => clauseExpansion clause names targets identification)
    fun clause => withinAstronomy_cons _
  exact ⟨spliced, hspliced, hiff⟩

theorem expandQuery_eq_splice_iff_of_field :
    Extraction.ofQuery "title:a OR object:b" =
      .ok ⟨["b"], [⟨"object:b", ⟨11, 19⟩, ["b"]⟩]⟩ ∧
    ∃ spliced, replaceSpans? (editsOf
        (fun clause => clauseExpansion clause ["b"] [.simbad] fun _ _ => some "1")
        [⟨"object:b", ⟨11, 19⟩, ["b"]⟩]) "title:a OR object:b".toList = some spliced ∧
      ((expandQuery "title:a OR object:b" [⟨"object:b", ⟨11, 19⟩, ["b"]⟩] ["b"] [.simbad]
          fun _ _ => some "1").toList = spliced ↔
        FoundInPlace "title:a OR object:b".toList
          (fun clause => clauseExpansion clause ["b"] [.simbad] fun _ _ => some "1")
          [⟨"object:b", ⟨11, 19⟩, ["b"]⟩]) :=
  have h : Extraction.ofQuery "title:a OR object:b" =
      .ok ⟨["b"], [⟨"object:b", ⟨11, 19⟩, ["b"]⟩]⟩ := by
    rw [Extraction.ofQuery, Spelling.parse .empty .empty
      (.linked (.bare (.atom (some ⟨"title", .empty, .empty⟩) (.word "a"))) (.or .one .one)
        (.single (.bare (.atom (some ⟨"object", .empty, .empty⟩) (.word "b")))))
      rfl (by decide) rfl]
    exact congrArg Except.ok (by decide)
  ⟨h, expandQuery_eq_splice_iff h ["b"] [.simbad] fun _ _ => some "1"⟩

/-- A phrase that holds the text of a later clause is rewritten instead of the clause. -/
theorem expandQuery_of_quoted_clause :
    Extraction.ofQuery "\"object:b\" object:b" =
      .ok ⟨["b"], [⟨"object:b", ⟨11, 19⟩, ["b"]⟩]⟩ ∧
    (expandQuery "\"object:b\" object:b" [⟨"object:b", ⟨11, 19⟩, ["b"]⟩] ["b"] []
      fun _ _ => none) = "\"((=abs:b) database:astronomy)\" object:b" ∧
    replaceSpans? (editsOf (fun clause => clauseExpansion clause ["b"] [] fun _ _ => none)
        [⟨"object:b", ⟨11, 19⟩, ["b"]⟩]) "\"object:b\" object:b".toList =
      some "\"object:b\" ((=abs:b) database:astronomy)".toList := by
  refine ⟨?_, by decide +kernel, by decide +kernel⟩
  rw [Extraction.ofQuery, Spelling.parse .empty .empty
    (.linked (.bare (.atom none (.phrase "\"object:b\""))) (.beside .one)
      (.single (.bare (.atom (some ⟨"object", .empty, .empty⟩) (.word "b")))))
    rfl (by decide +kernel) rfl]
  exact congrArg Except.ok (by decide)

end SkyResolver.Query
