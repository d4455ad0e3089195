import SkyResolver.Proofs.Query.Acceptance
import SkyResolver.Proofs.Query.Grounds

/-! Numbers in place of names that cover tokens. A name may stand on several tokens of a query; with
a number in its place they become one word, or the end of one, and the query stays a query as long
as nothing that must stay in one piece is cut and as many parentheses are lost on both sides. -/
namespace SkyResolver.Query
open SkyResolver.Text

/-- The name starts a token or stands in a word, and it covers all tokens up to its end but no head
without its value; of the parentheses it covers, as many open as close. -/
structure Spans (name after : Ground) : Prop where
  begins : ∀ x ∈ name.head?, x.2 = .word ∨ x.2.starts = true
  ends : ∀ x ∈ name.getLast?, x.2 ≠ .head
  stops : ∀ x ∈ after.head?, x.2.starts = true
  balanced : name.countP (·.2 = .opening) = name.countP (·.2 = .closing)

/-- The name cuts off no escape, and it stands in a word, in a phrase, in a bound of a range, or on
whole tokens. -/
structure StandsWell (name after : Ground) : Prop where
  escapes : endsEscaped name.text = false
  place : (∀ x ∈ name, x.2 = .word) ∨ (∀ x ∈ name, x.2 = .quoted) ∨ (∀ x ∈ name, x.2 = .bound) ∨
    Spans name after

instance (name after : Ground) : Decidable (Spans name after) :=
  decidable_of_iff ((∀ x ∈ name.head?, x.2 = .word ∨ x.2.starts = true) ∧
      (∀ x ∈ name.getLast?, x.2 ≠ .head) ∧ (∀ x ∈ after.head?, x.2.starts = true) ∧
      name.countP (·.2 = .opening) = name.countP (·.2 = .closing))
    ⟨fun h => ⟨h.1, h.2.1, h.2.2.1, h.2.2.2⟩, fun h => ⟨h.1, h.2, h.3, h.4⟩⟩

instance : DecidableRel StandsWell := fun name after =>
  decidable_of_iff (endsEscaped name.text = false ∧ ((∀ x ∈ name, x.2 = .word) ∨
      (∀ x ∈ name, x.2 = .quoted) ∨ (∀ x ∈ name, x.2 = .bound) ∨ Spans name after))
    ⟨fun h => ⟨h.1, h.2⟩, fun h => ⟨h.1, h.2⟩⟩

/-! ### Grounds of tokens -/

lemma role_of_mem_painted {role : Role} {s : List Char} {x : Char × Role} (h : x ∈ painted role s) :
    x.2 = role := by
  obtain ⟨c, -, rfl⟩ := List.mem_map.1 h
  rfl

/-- No token that is not a word starts on the ground. -/
def Ground.Quiet (ground : Ground) : Prop := ∀ x ∈ ground, x.2.starts = false

lemma quiet_painted {role : Role} (h : role.starts = false) (s : List Char) :
    (painted role s).Quiet := fun _ hx => by rw [role_of_mem_painted hx, h]

lemma Ground.Quiet.append {ground ground' : Ground} (h : ground.Quiet) (h' : ground'.Quiet) :
    Ground.Quiet (ground ++ ground') := fun x hx => (List.mem_append.1 hx).elim (h x) (h' x)

lemma quiet_tail_led (first : Role) {rest : Role} (h : rest.starts = false) (s : List Char) :
    Ground.Quiet (led first rest s).tail := by
  cases s with
  | nil => exact fun _ hx => absurd hx (List.not_mem_nil)
  | cons c s => exact quiet_painted h s

lemma quiet_tail_phraseGround (first : Role) (s : List Char) :
    Ground.Quiet (phraseGround first s).tail :=
  (quiet_painted rfl _).append (quiet_painted (show Role.inner.starts = false from rfl) ['"'])

lemma Bound.quiet_ground (bound : Bound) : bound.ground.Quiet := by
  cases bound with
  | word text => exact quiet_painted rfl _
  | phrase text => exact List.forall_mem_cons.2 ⟨rfl, quiet_tail_phraseGround .inner _⟩

lemma Token.quiet_tail (token : Token) : Ground.Quiet token.ground.tail := by
  have hnil : Ground.Quiet [] := fun _ hx => absurd hx (List.not_mem_nil)
  cases token with
  | gap c => exact hnil
  | opening | closing => exact hnil
  | or => exact quiet_painted rfl ['R']
  | sign op => exact quiet_tail_led _ rfl _
  | head head => exact quiet_tail_led _ rfl _
  | modifier m number => exact quiet_tail_led .start rfl (m.mark :: optionalChars number)
  | and keyword => exact quiet_tail_led _ rfl _
  | atom value =>
    cases value with
    | word text => exact fun x hx => quiet_painted rfl _ x (List.mem_of_mem_tail hx)
    | phrase text => exact quiet_tail_phraseGround _ _
    | range includeLow includeHigh g₁ low g₂ g₃ high g₄ =>
      exact (quiet_painted rfl g₁.chars).append
        (low.quiet_ground.append ((quiet_painted rfl _).append
        (high.quiet_ground.append (quiet_painted rfl _))))

lemma Token.starts_ground {token : Token} (h : ∀ text, token ≠ .atom (.word text)) :
    ∀ x ∈ token.ground.head?, x.2.starts = true := by
  have hled : ∀ {first rest : Role} (s : List Char), first.starts = true →
      ∀ x ∈ (led first rest s).head?, x.2.starts = true := by
    rintro first rest (_ | ⟨c, s⟩) hfirst x hx
    · cases hx
    · cases hx
      exact hfirst
  cases token with
  | gap c => exact hled [c] rfl
  | opening | closing => exact fun x hx => by cases hx; rfl
  | or => exact hled ['O', 'R'] rfl
  | sign op => exact hled _ rfl
  | head head => exact hled _ rfl
  | modifier m number => exact hled (m.mark :: optionalChars number) rfl
  | and keyword => exact hled _ rfl
  | atom value =>
    cases value with
    | word text => exact absurd rfl (h text)
    | phrase text => exact fun x hx => by cases hx; rfl
    | range => exact fun x hx => by cases hx; rfl

lemma Ground.Quiet.countP {ground : Ground} (h : ground.Quiet) :
    ground.countP (·.2 = .opening) = 0 ∧ ground.countP (·.2 = .closing) = 0 := by
  constructor <;>
  · rw [List.countP_eq_zero]
    intro x hx hrole
    have := h x hx
    rw [of_decide_eq_true hrole] at this
    cases this

lemma Token.countP_ground (token : Token) :
    token.ground.countP (·.2 = .opening) = token.opened ∧
      token.ground.countP (·.2 = .closing) = token.closed := by
  have hled : ∀ {first rest : Role} (s : List Char), first ≠ .opening → first ≠ .closing →
      rest.starts = false → (led first rest s).countP (·.2 = .opening) = 0 ∧
        (led first rest s).countP (·.2 = .closing) = 0 := by
    rintro first rest (_ | ⟨c, s⟩) hopening hclosing hrest
    · exact ⟨rfl, rfl⟩
    · have := (quiet_painted hrest s).countP
      simp [led, hopening, hclosing, this]
  cases token with
  | gap c => exact ⟨rfl, rfl⟩
  | opening | closing => exact ⟨rfl, rfl⟩
  | or => exact ⟨rfl, rfl⟩
  | sign op => exact hled _ (by decide) (by decide) rfl
  | head head => exact hled _ (by decide) (by decide) rfl
  | modifier m number =>
    exact hled (m.mark :: optionalChars number) (by decide) (by decide) rfl
  | and keyword => exact hled _ (by decide) (by decide) rfl
  | atom value =>
    have htail := (Token.quiet_tail (.atom value)).countP
    cases value with
    | word text => exact (quiet_painted rfl _).countP
    | phrase text => simpa [Token.ground, Atom.ground, phraseGround, Token.opened,
        Token.closed] using htail
    | range => simpa [Token.ground, Atom.ground, led, Token.opened, Token.closed] using htail

lemma FieldHead.getLast?_ground (head : FieldHead) (hname : IsFieldName head.name.toList) :
    ∀ x ∈ (Token.head head).ground.getLast?, x.2 = .head := by
  obtain ⟨c, t, ht, -, -⟩ := hname
  have htext : head.text = c :: (t ++ head.before.chars ++ ':' :: head.after.chars) := by
    simp [FieldHead.text, ht]
  rw [Token.ground, htext, led, List.getLast?_cons_of_ne_nil (by simp [painted])]
  exact fun x hx => role_of_mem_painted (List.mem_of_mem_getLast? hx)

/-! ### Behind a name -/

/-- Behind a name that ends with a token, no value expected, the rest of the query goes on. -/
lemma Completes.skip {stage : Stage} {depth : Nat} {tokens : List Token} {name after : Ground}
    (h : Completes stage depth tokens) (hground : Token.groundOf tokens = name ++ after)
    (hvalue : stage = .value → name ≠ []) (hends : ∀ x ∈ name.getLast?, x.2 ≠ .head)
    (hstops : ∀ x ∈ after.head?, x.2.starts = true) :
    ∃ stage' depth' rest, stage' ≠ .value ∧ Token.groundOf rest = after ∧
      Completes stage' depth' rest ∧
      depth + name.countP (·.2 = .opening) = depth' + name.countP (·.2 = .closing) := by
  induction h generalizing name with
  | nil =>
    obtain ⟨rfl, rfl⟩ := List.append_eq_nil_iff.1 hground.symm
    exact ⟨.done, 0, [], by simp, rfl, .nil, rfl⟩
  | @cons stage stage' depth depth' token tokens hnext hdepth hstops' rest ih =>
    by_cases hempty : name = []
    · subst hempty
      exact ⟨stage, depth, _, fun h => hvalue h rfl, hground, .cons hnext hdepth hstops' rest, rfl⟩
    obtain ⟨name', rfl, hrest⟩ : ∃ name', name = token.ground ++ name' ∧
        Token.groundOf tokens = name' ++ after := by
      rcases List.append_eq_append_iff.1 hground with ⟨name', rfl, hrest⟩ | ⟨cut, hcut, hrest⟩
      · exact ⟨name', rfl, hrest⟩
      -- Nothing starts inside of a token, so the name does not end there.
      obtain rfl : cut = [] := by
        obtain ⟨x, name, rfl⟩ := List.exists_cons_of_ne_nil hempty
        cases cut with
        | nil => rfl
        | cons y cut =>
          have hquiet := token.quiet_tail y (by rw [hcut]; simp)
          rw [hstops y (by rw [hrest]; rfl)] at hquiet
          cases hquiet
      exact ⟨[], by simpa using hcut.symm, hrest.symm⟩
    have hvalue' : stage' = .value → name' ≠ [] := by
      rintro rfl rfl
      rw [List.append_nil] at hends hempty
      cases token with
      | head head =>
        obtain ⟨x, hx⟩ := Option.isSome_iff_exists.1 (List.getLast?_isSome.2 hempty)
        exact hends x hx (head.getLast?_ground hstops' x hx)
      | gap => cases stage <;> cases hnext
      | sign | atom | opening | closing | modifier | and | or => cases stage <;> cases hnext
    have hends' : ∀ x ∈ name'.getLast?, x.2 ≠ .head := by
      intro x hx
      refine hends x ?_
      rw [List.getLast?_append, Option.mem_def.1 hx]
      rfl
    obtain ⟨stage'', depth'', rest', hstage, hground', hcompletes, hcount⟩ :=
      ih hrest hvalue' hends'
    refine ⟨stage'', depth'', rest', hstage, hground', hcompletes, ?_⟩
    rw [List.countP_append, List.countP_append, token.countP_ground.1, token.countP_ground.2]
    omega

/-! ### Names in lexemes -/

section Lexemes
variable {names : List String} {before : List Char} {ground : Ground}

lemma StandsWell.role {name after : Ground} {x : Char × Role} (h : StandsWell (x :: name) after) :
    x.2 ≠ .inner ∧ x.2 ≠ .head := by
  rcases h.place with h | h | h | h
  · simp [h x List.mem_cons_self]
  · simp [h x List.mem_cons_self]
  · simp [h x List.mem_cons_self]
  · rcases h.begins x rfl with h | h <;> constructor <;>
      · intro hrole; simp [hrole, Role.starts] at h

lemma head?_painted {role : Role} {s : List Char} (hne : s ≠ []) :
    ∀ x ∈ (painted role s ++ ground).head?, x.2 = role := by
  obtain ⟨c, s, rfl⟩ := List.exists_cons_of_ne_nil hne
  rintro x ⟨⟩
  rfl

lemma not_standsWell {x : Char × Role} {name after : Ground} (hx : x.2 = .inner ∨ x.2 = .head) :
    ¬StandsWell (x :: name) after := fun h => hx.elim h.role.1 h.role.2

/-- No name is found where none may start. -/
lemma StandOn.find_eq_none {well : Ground → Ground → Prop} {x : Char × Role}
    (h : StandOn names well before (x :: ground)) (hx : ∀ name after, ¬well (x :: name) after) :
    (nameFinder (longestFirst names)).find before.getLast? (x.1 :: ground.text) = none := by
  rw [Option.eq_none_iff_forall_ne_some]
  intro old hfind
  obtain ⟨name, after, hname, -, hstands, hwell⟩ := h.found hfind
  cases name with
  | nil => exact hstands.nonempty rfl
  | cons y name =>
    obtain ⟨rfl, -⟩ := List.cons.inj hname
    exact hx name after hwell

lemma confined_append_behind {finder : Finder} {r : List Char} (rooms rooms' : Rooms) :
    finder.Confined r before.getLast? (rooms ++ rooms') ↔
      finder.Confined (Rooms.text rooms' ++ r) before.getLast? rooms ∧
        finder.Confined r (before ++ Rooms.text rooms).getLast? rooms' := by
  rw [Finder.confined_append, lastOf_getLast?]

lemma confined_singleton {finder : Finder} {r : List Char} {previous : Option Char} {c : Char}
    (h : finder.find previous (c :: r) = none) : finder.Confined r previous (closed [c]) := by
  refine ⟨fun old hold => ?_, trivial⟩
  cases (show finder.find previous (c :: r) = some old from hold).symm.trans h

lemma StandOn.confined_region {well : Ground → Ground → Prop} {region : Ground}
    (h : StandOn names well before (region ++ ground))
    (hregion : ∀ x ∈ region, ∀ name after, ¬well (x :: name) after) :
    (nameFinder (longestFirst names)).Confined ground.text before.getLast?
      (closed region.text) := by
  induction region generalizing before with
  | nil => trivial
  | cons x region ih =>
    obtain ⟨hx, hregion⟩ := List.forall_mem_cons.1 hregion
    have hnone : (nameFinder (longestFirst names)).find before.getLast?
        (x.1 :: Ground.text (region ++ ground)) = none := h.find_eq_none hx
    rw [Ground.text_append] at hnone
    refine (confined_append_behind (closed [x.1]) (closed (Ground.text region))).2 ⟨?_, ?_⟩
    · exact confined_singleton (by rwa [Rooms.text_closed])
    · exact ih (h.behind [x]) hregion

/-- Inside of a token that is no word, no quotes and no bound, no name is found. -/
lemma StandOn.confined_closed {role : Role} {s : List Char}
    (h : StandOn names StandsWell before (painted role s ++ ground))
    (hrole : role = .inner ∨ role = .head) :
    (nameFinder (longestFirst names)).Confined ground.text before.getLast? (closed s) := by
  have hclosed := h.confined_region fun x hx name after =>
    not_standsWell (role_of_mem_painted hx ▸ hrole)
  rwa [text_painted] at hclosed

/-- A name in one role ends before the next one begins. -/
lemma exists_rest_of_role {role : Role} {s : List Char} {name after : Ground}
    (hname : name ++ after = painted role s ++ ground) (hall : ∀ x ∈ name, x.2 = role)
    (hground : ∀ x ∈ ground.head?, x.2 ≠ role) :
    ∃ s', s = name.text ++ s' ∧ after = painted role s' ++ ground := by
  rcases List.append_eq_append_iff.1 hname with ⟨more, hmore, rfl⟩ | ⟨more, rfl, rfl⟩
  · obtain ⟨t, s', rfl, rfl, rfl⟩ := List.map_eq_append_iff.1 hmore
    exact ⟨s', congrArg (· ++ s') (text_painted role t).symm, rfl⟩
  · cases more with
    | nil => exact ⟨[], by simp, by simp [painted]⟩
    | cons x more => exact absurd (hall x (by simp)) (hground x rfl)

/-- A name that starts between quotes or in a bound stays there. -/
lemma StandsWell.all_role {role : Role} {x : Char × Role} {name after : Ground}
    (h : StandsWell (x :: name) after) (hx : x.2 = role) (hrole : role = .quoted ∨ role = .bound) :
    ∀ y ∈ x :: name, y.2 = role := by
  rcases h.place with hall | hall | hall | hspans
  · rcases hrole with rfl | rfl <;> cases hx.symm.trans (hall x List.mem_cons_self)
  · exact fun y hy => by rw [hall y hy, ← hx, hall x List.mem_cons_self]
  · exact fun y hy => by rw [hall y hy, ← hx, hall x List.mem_cons_self]
  · rcases hspans.begins x rfl with hword | hstarts
    · rcases hrole with rfl | rfl <;> cases hx.symm.trans hword
    · rw [hx] at hstarts
      rcases hrole with rfl | rfl <;> cases hstarts

/-- Names that start in a lexeme and stay there are confined to it. -/
lemma StandOn.confined_opened {well : Ground → Ground → Prop} {role : Role} {s : List Char}
    (h : StandOn names well before (painted role s ++ ground))
    (hescapes : ∀ {name after}, well name after → endsEscaped name.text = false)
    (hrole : ∀ {x name after}, well (x :: name) after → x.2 = role → ∀ y ∈ x :: name, y.2 = role)
    (hground : ∀ x ∈ ground.head?, x.2 ≠ role) :
    (nameFinder (longestFirst names)).Confined ground.text before.getLast? (opened s) := by
  induction s generalizing before with
  | nil => trivial
  | cons c s ih =>
    rw [painted_cons, List.cons_append] at h
    have hrest := ih (h.behind [(c, role)])
    rw [Ground.text_cons, Ground.text_nil, List.getLast?_concat] at hrest
    refine ⟨fun old hold => ?_, hrest⟩
    rw [Rooms.text_opened] at hold
    have hfind : (nameFinder (longestFirst names)).find before.getLast?
        (Ground.text ((c, role) :: (painted role s ++ ground))) = some old := by
      rwa [Ground.text_cons, Ground.text_append, text_painted]
    obtain ⟨name, after, hname, rfl, hstands, hwell⟩ := h.found hfind
    refine ⟨?_, hescapes hwell⟩
    cases name with
    | nil => exact absurd rfl hstands.nonempty
    | cons y name =>
      obtain ⟨rfl, -⟩ := List.cons.inj hname
      obtain ⟨s', hs, -⟩ := exists_rest_of_role (s := c :: s) hname.symm (hrole hwell rfl) hground
      have := congrArg List.length hs
      simp only [List.length_append, List.length_cons] at this ⊢
      omega

lemma StandOn.confined_phrase {first : Role} {s : List Char} (hs : IsPhrase s)
    (h : StandOn names StandsWell before (phraseGround first s ++ ground))
    (hfind : (nameFinder (longestFirst names)).find before.getLast? (s ++ ground.text) = none) :
    (nameFinder (longestFirst names)).Confined ground.text before.getLast? (phraseRooms s) := by
  obtain ⟨u, rfl, -⟩ := isPhrase_iff_units.1 hs
  rw [phraseGround, withoutQuotes_phrase, List.cons_append, List.append_assoc] at h
  have hinner := h.behind [('"', first)]
  have hclose := hinner.behind _
  rw [phraseRooms, withoutQuotes_phrase, confined_append_behind, confined_append_behind]
  simp only [Rooms.text_append, Rooms.text_closed, Rooms.text_opened]
  refine ⟨confined_singleton (by simpa using hfind), ?_, ?_⟩
  · exact hinner.confined_opened StandsWell.escapes (fun hwell hx => hwell.all_role hx (.inl rfl))
      (by simp)
  · rw [text_painted] at hclose
    exact StandOn.confined_closed (s := ['"']) hclose (.inl rfl)

lemma StandOn.confined_bound {bound : Bound} {r : List Char} (hbound : bound.Valid r)
    (h : StandOn names StandsWell before (bound.ground ++ ground))
    (hground : ∀ x ∈ ground.head?, x.2 = .inner) :
    (nameFinder (longestFirst names)).Confined ground.text before.getLast? bound.rooms := by
  cases bound with
  | word text =>
    exact h.confined_opened StandsWell.escapes (fun hwell hx => hwell.all_role hx (.inr rfl))
      fun x hx => by rw [hground x hx]; decide
  | phrase text =>
    refine h.confined_phrase hbound ?_
    have hnone := h.find_eq_none fun _ _ => not_standsWell (.inl rfl)
    rwa [← IsPhrase.text_ground hbound .inner, ← Ground.text_append]

/-- Where no name is found at the start of a phrase or a range, names are found only in its quotes
and its bounds. -/
lemma StandOn.confined_atom {value : Atom} {colons : Bool} {r : List Char}
    (hvalue : value.Valid colons r) (hword : ∀ text, value ≠ .word text)
    (h : StandOn names StandsWell before (value.ground ++ ground))
    (hfind : (nameFinder (longestFirst names)).find before.getLast? (value.text ++ ground.text) =
      none) :
    (nameFinder (longestFirst names)).Confined ground.text before.getLast?
      (value.rooms colons) := by
  cases value with
  | word text => exact absurd rfl (hword text)
  | phrase text => exact h.confined_phrase hvalue hfind
  | range includeLow includeHigh g₁ low g₂ g₃ high g₄ =>
    obtain ⟨hlow, -, hhigh⟩ := hvalue
    simp only [Atom.ground, led, List.append_assoc, List.cons_append] at h
    have hopen := h.behind [(openingBracket includeLow, .start)]
    have hl := hopen.behind _
    have hto := hl.behind _
    have hh := hto.behind _
    have hclose := hh.behind _
    simp only [text_painted, hlow.text_ground, hhigh.text_ground] at hl hto hh hclose
    have hbracket : closed (openingBracket includeLow :: g₁.chars) =
        closed [openingBracket includeLow] ++ closed g₁.chars := rfl
    simp only [Atom.rooms, hbracket, List.append_assoc, confined_append_behind, Rooms.text_append,
      Rooms.text_closed, hlow.text_rooms, hhigh.text_rooms]
    refine ⟨confined_singleton (by simpa [Atom.text] using hfind), ?_, ?_, ?_, ?_, ?_⟩
    · simpa [hlow.text_ground, hhigh.text_ground] using hopen.confined_closed (.inl rfl)
    · simpa [hhigh.text_ground] using hl.confined_bound hlow (head?_painted (by simp))
    · simpa [hhigh.text_ground] using hto.confined_closed (.inl rfl)
    · simpa using hh.confined_bound hhigh (head?_painted (by simp))
    · simpa using hclose.confined_closed (.inl rfl)

end Lexemes

end SkyResolver.Query
