import SkyResolver.Proofs.Query.Composition
import SkyResolver.Proofs.Query.Lexical

/-! Names in spellings. Where the listed names stand in lexemes, the pass over a text finds them in
the rooms of its spelling and nowhere else. -/
namespace SkyResolver.Query
open SkyResolver.Text

/-! ### Grounds of spellings -/

lemma Token.text_groundOf {tokens : List Token}
    (h : ∀ value, .atom value ∈ tokens → value.ground.text = value.text) :
    (groundOf tokens).text = textOf tokens := by
  induction tokens with
  | nil => rfl
  | cons token tokens ih =>
    rw [groundOf_cons, Ground.text_append, textOf_cons,
      Token.text_ground fun value hvalue => h value (by rw [hvalue]; exact List.mem_cons_self),
      ih fun value hvalue => h value (List.mem_cons_of_mem token hvalue)]

/-- No name stands in a token that is no atom. -/
lemma Token.lexical_groundOf {tokens : List Token} (h : ∀ value, .atom value ∉ tokens) :
    ∀ x ∈ groundOf tokens, x.2.lexical = false := by
  refine List.forall_mem_flatMap.2 fun token htoken => ?_
  cases token with
  | atom value => exact absurd htoken (h value)
  | gap c => exact lexical_led rfl rfl [c]
  | opening | closing => simp [Token.ground, Role.lexical]
  | sign op => exact lexical_led rfl rfl _
  | head head => exact lexical_led rfl rfl _
  | modifier m number => exact lexical_led rfl rfl (m.mark :: optionalChars number)
  | and keyword => exact lexical_led rfl rfl _
  | or => exact lexical_led rfl rfl ['O', 'R']

lemma Gap.not_atom (gap : Gap) (value : Atom) : .atom value ∉ gap.tokens := by simp [Gap.tokens]

lemma not_atom_headTokens (head : Option FieldHead) (value : Atom) :
    .atom value ∉ headTokens head := by
  cases head <;> simp [headTokens]

lemma Link.not_atom (link : Link) (value : Atom) : .atom value ∉ link.tokens := by
  cases link <;> simp [Link.tokens, Gap.not_atom]

section Spellings
variable {k : Rank} {p : Spelling k} {r : List Char}

lemma Spelling.Valid.exists_of_atom (hp : p.Valid r) {value : Atom} (h : .atom value ∈ p.tokens) :
    ∃ colons r, value.Valid colons r := by
  induction p generalizing r with
  | atom head value' =>
    rcases List.mem_append.1 h with h | h
    · exact absurd h (not_atom_headTokens head value)
    · obtain rfl := by simpa using h
      exact ⟨_, _, hp.2⟩
  | group head before inner after ih =>
    exact ih hp.2 (by simpa [Spelling.tokens, not_atom_headTokens, Gap.not_atom] using h)
  | modified operand gap modifier number ih =>
    exact ih hp.1 (by simpa [Spelling.tokens, Gap.not_atom] using h)
  | bare element ih => exact ih hp h
  | prefixed op gap operand ih =>
    exact ih hp.2 (by simpa [Spelling.tokens, Gap.not_atom] using h)
  | single operand ih => exact ih hp h
  | linked first link rest ihFirst ihRest =>
    simp only [Spelling.tokens, List.mem_append, Link.not_atom, false_or] at h
    exact h.elim (ihFirst hp.1) (ihRest hp.2.2)

lemma Spelling.Valid.text_ground (hp : p.Valid r) : (Token.groundOf p.tokens).text = p.text := by
  rw [← p.textOf_tokens]
  refine Token.text_groundOf fun value hvalue => ?_
  obtain ⟨colons, r, h⟩ := hp.exists_of_atom hvalue
  exact h.text_ground

lemma Token.text_groundOf_plain {tokens : List Token} (hatoms : ∀ value, .atom value ∉ tokens) :
    (Token.groundOf tokens).text = Token.textOf tokens :=
  Token.text_groundOf fun value hvalue => absurd hvalue (hatoms value)

lemma text_ground_modified (gap : Gap) (modifier : Modifier) (number : Option String)
    (ground : Ground) :
    Ground.text (Token.groundOf (gap.tokens ++ [.modifier modifier number]) ++ ground) =
      gap.chars ++ modifier.mark :: (optionalChars number ++ ground.text) := by
  rw [Ground.text_append, Token.text_groundOf_plain (by simp [Gap.not_atom])]
  simp [Token.text]

lemma Spelling.Valid.text_ground_linked {rest : Spelling .chain} (hrest : rest.Valid r)
    (link : Link) (ground : Ground) :
    Ground.text (Token.groundOf link.tokens ++ (Token.groundOf rest.tokens ++ ground)) =
      link.text ++ (rest.text ++ ground.text) := by
  rw [Ground.text_append, Ground.text_append, hrest.text_ground,
    Token.text_groundOf_plain link.not_atom, Link.textOf_tokens]

/-- Where the ground of a spelling starts with a word, the text does. -/
lemma Spelling.Valid.atWordChar_of_head {ground : Ground} (hp : p.Valid ground.text) :
    ∀ x ∈ (Token.groundOf p.tokens ++ ground).head?, x.2 = .word →
      Query.atWordChar (p.text ++ ground.text) = true := by
  have hother : ∀ {role : Role} {c : Char} {ground : Ground} {b : Bool}, role ≠ .word →
      ∀ x ∈ List.head? ((c, role) :: ground), x.2 = .word → b = true := by
    rintro role c ground b hrole x ⟨⟩ hx
    exact absurd hx hrole
  have hhead : ∀ {head : FieldHead} {ground : Ground} {b : Bool}, IsFieldName head.name.toList →
      ∀ x ∈ (Token.groundOf (headTokens (some head)) ++ ground).head?, x.2 = .word → b = true := by
    rintro head ground b ⟨c, s, hname, -, -⟩
    have htext : head.text = c :: (s ++ head.before.chars ++ ':' :: head.after.chars) := by
      simp [FieldHead.text, hname]
    rw [headTokens, Token.groundOf_cons, Token.ground, htext]
    exact hother (by decide)
  induction p generalizing ground with
  | atom head value =>
    rw [Spelling.tokens, Token.groundOf_append, List.append_assoc]
    cases head with
    | some head => exact hhead (hp.1 head rfl)
    | none =>
      cases value with
      | word text =>
        obtain ⟨-, hterm, -⟩ := hp
        exact fun _ _ _ => by
          rw [Spelling.text, headText, List.nil_append, Atom.text,
            atWordChar_of_run hterm.run hterm.ne_nil fun hc => (hterm.start _ hc).2.2 rfl]
      | phrase text => exact hother (by decide)
      | range => exact hother (by decide)
  | group head before inner after ih =>
    rw [Spelling.tokens, Token.groundOf_append, List.append_assoc]
    cases head with
    | some head => exact hhead (hp.1 head rfl)
    | none => exact hother (by decide)
  | modified operand gap modifier number ih =>
    have hoperand := hp.1
    rw [← text_ground_modified] at hoperand
    have := ih hoperand
    rw [text_ground_modified] at this
    simpa [Spelling.tokens, Spelling.text] using this
  | bare element ih => exact ih hp
  | prefixed op gap operand ih =>
    cases op <;> exact hother (by decide)
  | single operand ih => exact ih hp
  | linked first link rest ihFirst ihRest =>
    have hfirst := hp.1
    rw [← hp.2.2.text_ground_linked] at hfirst
    have := ihFirst hfirst
    rw [hp.2.2.text_ground_linked] at this
    simpa [Spelling.tokens, Spelling.text] using this

end Spellings

/-! ### Names are confined to atoms -/

section Names
variable {names : List String} {before : List Char} {ground : Ground}

section Plain
variable {tokens : List Token} (hatoms : ∀ value, .atom value ∉ tokens)
include hatoms

/-- In tokens without atoms no name is found. -/
lemma StandOn.confined_tokens
    (h : StandOn names InLexeme before (Token.groundOf tokens ++ ground)) :
    (nameFinder (longestFirst names)).Confined ground.text before.getLast?
      (closed (Token.textOf tokens)) ∧
      StandOn names InLexeme (before ++ Token.textOf tokens) ground := by
  rw [← Token.text_groundOf_plain hatoms]
  exact ⟨h.confined_plain (Token.lexical_groundOf hatoms), h.behind _⟩

/-- No word comes first where there are tokens without atoms. -/
lemma not_word_of_plain (hne : Token.textOf tokens ≠ []) :
    ∀ x ∈ (Token.groundOf tokens ++ ground).head?, x.2 ≠ .word := by
  rintro x hx hrole
  have hlexical := Token.lexical_groundOf hatoms
  rw [← Token.text_groundOf_plain hatoms] at hne
  cases hground : Token.groundOf tokens with
  | nil => exact hne (by rw [hground]; rfl)
  | cons y region =>
    rw [hground] at hx hlexical
    cases hx
    have := hlexical x List.mem_cons_self
    rw [hrole] at this
    cases this

end Plain

lemma closed_append (s t : List Char) : closed (s ++ t) = closed s ++ closed t := List.map_append

/-- A spelling between tokens without atoms. -/
lemma StandOn.confined_around {front back : List Token} (hfront : ∀ value, .atom value ∉ front)
    (hback : ∀ value, .atom value ∉ back) {k : Rank} {p : Spelling k} {r : List Char}
    (hp : p.Valid r) {rooms : Rooms} (hrooms : Rooms.text rooms = p.text)
    (h : StandOn names InLexeme before (Token.groundOf (front ++ (p.tokens ++ back)) ++ ground))
    (hinner : StandOn names InLexeme (before ++ Token.textOf front)
        (Token.groundOf p.tokens ++ (Token.groundOf back ++ ground)) →
      (nameFinder (longestFirst names)).Confined (Ground.text (Token.groundOf back ++ ground))
        (before ++ Token.textOf front).getLast? rooms) :
    (nameFinder (longestFirst names)).Confined ground.text before.getLast?
      (closed (Token.textOf front) ++ (rooms ++ closed (Token.textOf back))) := by
  rw [Token.groundOf_append, Token.groundOf_append, List.append_assoc, List.append_assoc] at h
  obtain ⟨hopened, h⟩ := h.confined_tokens hfront
  obtain ⟨hclosed, -⟩ := (h.behind _).confined_tokens hback
  rw [hp.text_ground] at hclosed
  have hrest := hinner h
  rw [Ground.text_append, Token.text_groundOf_plain hback] at hrest
  rw [Ground.text_append, Ground.text_append, hp.text_ground,
    Token.text_groundOf_plain hback] at hopened
  rw [confined_append_behind, confined_append_behind, Rooms.text_append, hrooms, Rooms.text_closed,
    Rooms.text_closed, List.append_assoc]
  exact ⟨hopened, hrest, hclosed⟩

/-- The ground behind an operand starts with a word only if its text does. -/
def Ground.Fronted (ground : Ground) : Prop :=
  ∀ x ∈ ground.head?, x.2 = .word → Query.atWordChar ground.text = true

lemma fronted_of_plain {tokens : List Token} (hatoms : ∀ value, .atom value ∉ tokens)
    (hne : Token.textOf tokens ≠ []) : (Token.groundOf tokens ++ ground).Fronted := by
  intro x hx hrole
  exact absurd hrole (not_word_of_plain hatoms hne x hx)

lemma Spelling.Valid.fronted_linked {rest : Spelling .chain} (hrest : rest.Valid ground.text)
    (link : Link) :
    (Token.groundOf link.tokens ++ (Token.groundOf rest.tokens ++ ground)).Fronted := by
  by_cases hempty : Token.textOf link.tokens = []
  · have hnil : Token.groundOf link.tokens = [] :=
      List.map_eq_nil_iff.1 ((Token.text_groundOf_plain link.not_atom).trans hempty)
    rw [hnil, List.nil_append, Ground.Fronted, Ground.text_append, hrest.text_ground]
    exact hrest.atWordChar_of_head
  · exact fronted_of_plain link.not_atom hempty

lemma Spelling.Valid.confined_atom {head : Option FieldHead} {value : Atom}
    (hp : (Spelling.atom head value).Valid ground.text) (hfronted : ground.Fronted)
    (h : StandOn names InLexeme before
      (Token.groundOf (Spelling.atom head value).tokens ++ ground))
    (hsymbols : ∀ word ∈ (Spelling.atom head value).looseWords, SymbolKept names word.toList) :
    (nameFinder (longestFirst names)).Confined ground.text before.getLast?
      (Spelling.atom head value).rooms := by
  have hgroundOf : Token.groundOf [.atom value] = value.ground := List.append_nil _
  rw [Spelling.tokens, Token.groundOf_append, List.append_assoc, hgroundOf] at h
  obtain ⟨hhead, hvalue⟩ := h.confined_tokens (not_atom_headTokens head)
  rw [Spelling.rooms, Spelling.pieces, confined_append_behind, hp.2.text_rooms, Rooms.text_closed]
  rw [textOf_headTokens] at hhead hvalue
  rw [Ground.text_append, hp.2.text_ground] at hhead
  refine ⟨hhead, hvalue.confined_lexical_atom hp.2 ?_ ?_⟩
  · rintro text rfl x hx hrole
    obtain ⟨-, -, hstop, -⟩ := hp
    rw [hfronted x hx hrole] at hstop
    cases hstop
  · rintro hnone text rfl
    cases head with
    | none => exact hsymbols text (List.mem_singleton_self _)
    | some head => cases hnone

/-- Where the listed names stand in lexemes, they are found in the rooms of the spelling only. -/
theorem Spelling.Valid.confined_rooms {k : Rank} {p : Spelling k} (hp : p.Valid ground.text)
    (hfronted : ground.Fronted)
    (h : StandOn names InLexeme before (Token.groundOf p.tokens ++ ground))
    (hsymbols : ∀ word ∈ p.looseWords, SymbolKept names word.toList) :
    (nameFinder (longestFirst names)).Confined ground.text before.getLast? p.rooms := by
  have hnone : ∀ value, Token.atom value ∉ ([] : List Token) := by simp
  induction p generalizing before ground with
  | atom head value => exact hp.confined_atom hfronted h hsymbols
  | group head gap inner after ih =>
    have hopen : ∀ value, .atom value ∉ headTokens head ++ .opening :: gap.tokens := by
      simp [not_atom_headTokens, Gap.not_atom]
    have hclose : ∀ value, .atom value ∉ after.tokens ++ [.closing] := by simp [Gap.not_atom]
    have htokens : (Spelling.group head gap inner after).tokens =
        (headTokens head ++ .opening :: gap.tokens) ++
          (inner.tokens ++ (after.tokens ++ [.closing])) := by
      simp [Spelling.tokens]
    have hvalid : inner.Valid
        (Ground.text (Token.groundOf (after.tokens ++ [.closing]) ++ ground)) := by
      rw [Ground.text_append, Token.text_groundOf_plain hclose]
      simpa [Token.text] using hp.2
    rw [htokens] at h
    have hall := h.confined_around hopen hclose hp.2 hp.2.text_rooms fun hinner =>
      ih hvalid (fronted_of_plain hclose (by simp [Token.text])) hinner hsymbols
    simpa [Spelling.pieces, closed_append, Token.text] using hall
  | modified operand gap modifier number ih =>
    have hclose : ∀ value, .atom value ∉ gap.tokens ++ [.modifier modifier number] := by
      simp [Gap.not_atom]
    have hvalid := hp.1
    rw [← text_ground_modified] at hvalid
    have hall := StandOn.confined_around hnone hclose hp.1 hp.1.text_rooms h fun hinner =>
      ih hvalid (fronted_of_plain hclose (by simp [Token.text])) hinner hsymbols
    have htext : Token.textOf (gap.tokens ++ [.modifier modifier number]) =
        gap.chars ++ modifier.mark :: optionalChars number := by simp [Token.text]
    rwa [htext] at hall
  | bare element ih => exact ih hp hfronted h hsymbols
  | prefixed op gap operand ih =>
    have hopen : ∀ value, .atom value ∉ .sign op :: gap.tokens := by simp [Gap.not_atom]
    have htokens : (Spelling.prefixed op gap operand).tokens =
        (.sign op :: gap.tokens) ++ (operand.tokens ++ []) := by simp [Spelling.tokens]
    rw [htokens] at h
    have hall := h.confined_around hopen hnone hp.2 hp.2.text_rooms fun hinner =>
      ih hp.2 hfronted hinner hsymbols
    have htext : Token.textOf (.sign op :: gap.tokens) = signText op ++ gap.chars := by
      simp [Token.text]
    rw [htext, Token.textOf_nil, show closed [] = [] from rfl, List.append_nil] at hall
    exact hall
  | single operand ih => exact ih hp hfronted h hsymbols
  | linked first link rest ihFirst ihRest =>
    obtain ⟨hp₁, -, hp₂⟩ := hp
    have hmore := hp₂.text_ground_linked link ground
    rw [Spelling.tokens, Token.groundOf_append, Token.groundOf_append, List.append_assoc,
      List.append_assoc] at h
    have hfirst := ihFirst (by rwa [hmore]) (hp₂.fronted_linked link) h
      (fun word hword => hsymbols word (List.mem_append_left _ hword))
    have hrest := h.behind _
    rw [hp₁.text_ground] at hrest
    obtain ⟨hlink, hrest⟩ := hrest.confined_tokens link.not_atom
    rw [Link.textOf_tokens] at hlink hrest
    have hrest := ihRest hp₂ hfronted hrest
      (fun word hword => hsymbols word (List.mem_append_right _ hword))
    rw [Spelling.rooms, Spelling.pieces, confined_append_behind, confined_append_behind,
      Rooms.text_append, Rooms.text_closed, hp₁.text_rooms, hp₂.text_rooms, List.append_assoc]
    rw [hmore] at hfirst
    rw [Ground.text_append, hp₂.text_ground] at hlink
    exact ⟨hfirst, hlink, hrest⟩

end Names

end SkyResolver.Query
