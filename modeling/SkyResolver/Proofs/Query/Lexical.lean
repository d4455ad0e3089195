import SkyResolver.Proofs.Query.Coverage
import SkyResolver.Proofs.Text.Words

/-! Names in lexemes. If the listed names stand in words, in the quotes of phrases and in bounds
only, the finder of names is confined to these; and a lexeme that is set apart from what is around
it is rewritten as if it stood by itself. -/
namespace SkyResolver.Query
open SkyResolver.Text

/-- The name cuts off no escape, and it stands in one word, in the quotes of one phrase or in one
bound. -/
structure InLexeme (name _after : Ground) : Prop where
  escapes : endsEscaped name.text = false
  place : (∀ x ∈ name, x.2 = .word) ∨ (∀ x ∈ name, x.2 = .quoted) ∨ ∀ x ∈ name, x.2 = .bound

instance : DecidableRel InLexeme := fun name _ =>
  decidable_of_iff (endsEscaped name.text = false ∧ ((∀ x ∈ name, x.2 = .word) ∨
      (∀ x ∈ name, x.2 = .quoted) ∨ ∀ x ∈ name, x.2 = .bound))
    ⟨fun h => ⟨h.1, h.2⟩, fun h => ⟨h.1, h.2⟩⟩

lemma InLexeme.standsWell {name after : Ground} (h : InLexeme name after) : StandsWell name after :=
  ⟨h.escapes, h.place.imp_right fun hplace => hplace.imp_right .inl⟩

lemma InLexeme.all_role {role : Role} {x : Char × Role} {name after : Ground}
    (h : InLexeme (x :: name) after) (hx : x.2 = role) : ∀ y ∈ x :: name, y.2 = role := by
  rcases h.place with hall | hall | hall <;>
  · intro y hy
    rw [hall y hy, ← hx, hall x List.mem_cons_self]

/-- The character is in a lexeme in which a name may stand. -/
def Role.lexical : Role → Bool
  | .word | .quoted | .bound => true
  | _ => false

lemma lexical_painted {role : Role} (h : role.lexical = false) (s : List Char) :
    ∀ x ∈ painted role s, x.2.lexical = false := fun x hx => by rw [role_of_mem_painted hx, h]

lemma lexical_led {first rest : Role} (hfirst : first.lexical = false)
    (hrest : rest.lexical = false) (s : List Char) :
    ∀ x ∈ led first rest s, x.2.lexical = false := by
  cases s with
  | nil => exact fun x hx => absurd hx List.not_mem_nil
  | cons c s => exact List.forall_mem_cons.2 ⟨hfirst, lexical_painted hrest s⟩

lemma not_inLexeme {x : Char × Role} {name after : Ground} (hx : x.2.lexical = false) :
    ¬InLexeme (x :: name) after := by
  intro h
  rcases h.place with hall | hall | hall <;>
  · rw [hall x List.mem_cons_self] at hx
    cases hx

/-! ### Names are confined to lexemes -/

/-- A name that stands in a part of a text stands in the part by itself. -/
lemma Stands.alone {names : List String} {before u name v r : List Char}
    (h : Stands names (before ++ u) name (v ++ r)) : Stands names u name v := by
  refine ⟨h.listed, h.nonempty, ?_, ?_⟩
  · by_cases hu : u = []
    · rw [hu]
      rfl
    · have hopened := h.opened
      rwa [getLast?_append_of_ne_nil before hu] at hopened
  · have hclosed := h.closed
    cases v with
    | nil => rfl
    | cons c v => exact hclosed

section Confined
variable {names : List String} {before : List Char} {ground : Ground}

/-- Between the lexemes no name is found. -/
lemma StandOn.confined_plain {region : Ground}
    (h : StandOn names InLexeme before (region ++ ground))
    (hregion : ∀ x ∈ region, x.2.lexical = false) :
    (nameFinder (longestFirst names)).Confined ground.text before.getLast? (closed region.text) :=
  h.confined_region fun x hx _ _ => not_inLexeme (hregion x hx)

/-- A name that is found in a lexeme stands in the lexeme by itself. -/
lemma StandOn.exists_of_find {role : Role} {u v old : List Char}
    (h : StandOn names InLexeme before (painted role (u ++ v) ++ ground))
    (hground : ∀ x ∈ ground.head?, x.2 ≠ role) (hv : v ≠ [])
    (hfind : (nameFinder (longestFirst names)).find (before ++ u).getLast? (v ++ ground.text) =
      some old) :
    ∃ v', v = old ++ v' ∧ Stands names u old v' := by
  rw [painted_append, List.append_assoc] at h
  have hbehind := h.behind (painted role u)
  rw [text_painted] at hbehind
  obtain ⟨name, after, hname, rfl, hstands, hwell⟩ :=
    hbehind.found (by rwa [Ground.text_append, text_painted])
  have hall : ∀ x ∈ name, x.2 = role := by
    cases name with
    | nil => exact absurd rfl hstands.nonempty
    | cons x name => exact hwell.all_role (head?_painted hv x (by rw [hname]; rfl))
  obtain ⟨v', hv', rfl⟩ := exists_rest_of_role hname.symm hall hground
  rw [Ground.text_append, text_painted] at hstands
  exact ⟨v', hv', hstands.alone⟩

lemma confined_closed_of_find {finder : Finder} {previous : Option Char} {s r : List Char}
    (h : ∀ u c v, s = u ++ c :: v → finder.find (lastOf previous u) (c :: (v ++ r)) = none) :
    finder.Confined r previous (closed s) := by
  induction s generalizing previous with
  | nil => trivial
  | cons c s ih =>
    rw [show closed (c :: s) = closed [c] ++ closed s from rfl, Finder.confined_append]
    refine ⟨confined_singleton ?_, ih fun u d v hs => ?_⟩
    · rw [Rooms.text_closed]
      exact h [] c s rfl
    · exact h (c :: u) d v (by rw [hs]; rfl)

/-- In a text that starts with the symbol for `AND`, listed names stand at its start only. -/
def SymbolKept (names : List String) (s : List Char) : Prop :=
  ['&', '&'] <+: s → ∀ u name after, s = u ++ (name ++ after) → Stands names u name after → u = []

lemma StandOn.confined_word {s : List Char} (colons : Bool)
    (h : StandOn names InLexeme before (painted .word s ++ ground))
    (hground : ∀ x ∈ ground.head?, x.2 ≠ .word) (hsymbol : colons = false → SymbolKept names s) :
    (nameFinder (longestFirst names)).Confined ground.text before.getLast?
      (wordRooms colons s) := by
  have hopened := h.confined_opened InLexeme.escapes InLexeme.all_role hground
  unfold wordRooms
  split
  · rename_i s
    cases colons with
    | true => exact hopened
    | false =>
      obtain ⟨hfirst, -⟩ := hopened
      refine ⟨by simpa using hfirst, confined_closed_of_find fun u c v hs => ?_⟩
      rw [Option.eq_none_iff_forall_ne_some]
      intro old hfind
      have hsplit : '&' :: '&' :: s = ('&' :: u) ++ (c :: v) := congrArg ('&' :: ·) hs
      rw [hsplit] at h hsymbol
      rw [← lastOf_cons before.getLast?, lastOf_getLast?] at hfind
      obtain ⟨v', hv', hstands⟩ := h.exists_of_find hground (List.cons_ne_nil _ _) hfind
      have := hsymbol rfl (hsplit ▸ ⟨s, rfl⟩) ('&' :: u) old v' (by rw [hv']) hstands
      cases this
  · exact hopened

lemma StandOn.confined_lexical_atom {value : Atom} {colons : Bool} {r : List Char}
    (hvalue : value.Valid colons r) (h : StandOn names InLexeme before (value.ground ++ ground))
    (hword : ∀ text, value = .word text → ∀ x ∈ ground.head?, x.2 ≠ .word)
    (hsymbol : colons = false → ∀ text, value = .word text → SymbolKept names text.toList) :
    (nameFinder (longestFirst names)).Confined ground.text before.getLast?
      (value.rooms colons) := by
  have hwell : StandOn names StandsWell before (value.ground ++ ground) :=
    fun passed name after hground hstands => (h passed name after hground hstands).standsWell
  have hfind : ∀ x rest, value.ground = x :: rest → x.2.lexical = false →
      (nameFinder (longestFirst names)).find before.getLast?
      (value.text ++ ground.text) = none := by
    intro x rest hrest hx
    rw [← hvalue.text_ground, ← Ground.text_append]
    rw [hrest] at h ⊢
    exact h.find_eq_none fun _ _ => not_inLexeme hx
  cases value with
  | word text =>
    exact h.confined_word colons (hword text rfl) fun hcolons => hsymbol hcolons text rfl
  | phrase text => exact hwell.confined_atom hvalue (by simp) (hfind _ _ rfl rfl)
  | range => exact hwell.confined_atom hvalue (by simp) (hfind _ _ rfl rfl)

end Confined

/-! ### Lexemes by themselves -/

lemma getLast?_all_append {p : Char → Bool} {s t : List Char} (hs : s.getLast?.all p = true)
    (ht : t.getLast?.all p = true) : (s ++ t).getLast?.all p = true := by
  by_cases hne : t = []
  · rwa [hne, List.append_nil]
  · rwa [getLast?_append_of_ne_nil s hne]

lemma head?_all_append {p : Char → Bool} {s t : List Char} (hs : s.head?.all p = true)
    (ht : t.head?.all p = true) : (s ++ t).head?.all p = true := by
  cases s with
  | nil => exact ht
  | cons c s => exact hs

section Alone
variable {names : List String} {put : List Char → List Char} {before u name v r : List Char}

section SetApart
variable (hbefore : before.getLast?.all opensName = true) (hr : r.head?.all closesName = true)
include hbefore hr

/-- In a part that is set apart, the names stand that stand in it by itself. -/
lemma Stands.within (h : Stands names u name v) : Stands names (before ++ u) name (v ++ r) :=
  ⟨h.listed, h.nonempty, getLast?_all_append hbefore h.opened, head?_all_append h.closed hr⟩

lemma splitAtNames_of_rewrites {s t : List Char}
    (h : (namePass (longestFirst names) put).Rewrites (before ++ u).getLast? s r t) :
    ∃ marks, markedText marks = s ∧ swappedText put marks = t ∧ SplitAtNames names u marks := by
  generalize hq : (before ++ u).getLast? = q at h
  induction h generalizing u with
  | nil => exact ⟨[], rfl, rfl, splitAtNames_nil⟩
  | @keep _ c s r t hfind _ ih =>
    subst hq
    obtain ⟨marks, rfl, rfl, hsplit⟩ :=
      ih (u := u ++ [c]) hr (by rw [← List.append_assoc, List.getLast?_concat])
    refine ⟨.kept c :: marks, rfl, rfl,
      splitAtNames_cons.2 ⟨fun name behind hname hstands => ?_, hsplit⟩⟩
    have hfits : Mark.Fits names (before ++ u) (markedText marks ++ r) (.kept c) :=
      Mark.fits_iff.2 hfind
    refine hfits name (behind ++ r) ?_ (hstands.within hbefore hr)
    rw [← List.append_assoc, ← hname, List.cons_append]
  | @swap _ old s r t hfind _ _ ih =>
    subst hq
    obtain ⟨marks, rfl, rfl, hsplit⟩ :=
      ih (u := u ++ old) hr (by rw [lastOf_getLast?, List.append_assoc])
    refine ⟨.found old :: marks, rfl, rfl, splitAtNames_cons.2 ⟨?_, by simpa using hsplit⟩⟩
    have hfits : Mark.Fits names (before ++ u) (markedText marks ++ r) (.found old) :=
      Mark.fits_iff.2 (by rw [markedText_found]; exact hfind)
    refine ⟨hfits.toStands.alone, fun other behind hother hstands => ?_⟩
    refine hfits.longest other (behind ++ r) ?_ (hstands.within hbefore hr)
    rw [← List.append_assoc, hother, List.append_assoc]

end SetApart

/-- What becomes of a text when the listed names in it are replaced. -/
abbrev replacedText (names : List String) (put : List Char → List Char) : List Char → List Char :=
  replaceNamesFrom (longestFirst names) put none

/-- A text that is set apart is rewritten as if it stood by itself. -/
lemma replacedText_of_rewrites {previous : Option Char} {s r t : List Char}
    (hprevious : previous.all opensName = true) (hr : r.head?.all closesName = true)
    (h : (namePass (longestFirst names) put).Rewrites previous s r t) :
    replacedText names put s = t := by
  have hlast : previous = (previous.toList ++ []).getLast? := by cases previous <;> rfl
  rw [hlast] at h hprevious
  rw [List.append_nil] at hprevious
  obtain ⟨marks, rfl, rfl, hsplit⟩ := splitAtNames_of_rewrites hprevious hr h
  exact hsplit.replaceNamesFrom put

end Alone

/-! ### Harvested lexemes -/

section Harvested
variable {names : List String} (hnames : ∀ name ∈ names, IsTrimmed name.toList)
  {put : List Char → List Char} {before s : List Char}
include hnames

/-- At a blank no name starts. -/
lemma splitAtNames_blanks {b : List Char} (hb : ∀ c ∈ b, isBlank c = true) {marks : List Mark}
    (h : SplitAtNames names (before ++ b) marks) :
    SplitAtNames names before (keepAll b ++ marks) := by
  induction b generalizing before with
  | nil => simpa [keepAll] using h
  | cons c b ih =>
    refine splitAtNames_cons.2 ⟨fun name behind hname hstands => ?_,
      ih (fun d hd => hb d (List.mem_cons_of_mem c hd)) (by simpa using h)⟩
    cases name with
    | nil => exact hstands.nonempty rfl
    | cons d name =>
      obtain ⟨rfl, -⟩ := List.cons.inj hname
      have htrimmed := hnames _ hstands.listed
      rw [String.toList_ofList] at htrimmed
      have := htrimmed.first c rfl
      rw [hb c List.mem_cons_self] at this
      cases this

/-- A listed name with blanks around it is found as a whole. -/
lemma standsLongest_of_margins {left name right : List Char} (hlisted : String.ofList name ∈ names)
    (hne : name ≠ []) (hleft : ∀ c ∈ left, isBlank c = true)
    (hright : ∀ c ∈ right, isBlank c = true) :
    StandsLongest names left name right := by
  refine ⟨⟨hlisted, hne, ?_, ?_⟩, fun other behind hother hstands => ?_⟩
  · cases hlast : left.getLast? with
    | none => rfl
    | some c => simp [opensName, hleft c (List.mem_of_mem_getLast? hlast)]
  · cases right with
    | nil => rfl
    | cons c right => simp [closesName, hright c List.mem_cons_self]
  · -- A longer name would end in a blank.
    by_contra hlonger
    rcases List.append_eq_append_iff.1 hother with ⟨more, rfl, rfl⟩ | ⟨more, rfl, -⟩
    · have htrimmed := hnames _ hstands.listed
      rw [String.toList_ofList] at htrimmed
      cases hlast : more.getLast? with
      | none =>
        rw [List.getLast?_eq_none_iff.1 hlast, List.append_nil] at hlonger
        exact hlonger le_rfl
      | some c =>
        have := htrimmed.last c (by rw [List.getLast?_append, hlast]; rfl)
        rw [hright c (List.mem_append_left _ (List.mem_of_mem_getLast? hlast))] at this
        cases this
    · simp at hlonger

/-- In a text whose name is listed, the name is replaced and nothing else. -/
lemma replacedText_eq (hlisted : ∀ name ∈ nameIn s, name ∈ names) :
    replacedText names put s = identifiedText put s := by
  have hleft : ∀ c ∈ leftMargin s, isBlank c = true := fun c hc => List.mem_takeWhile_imp hc
  have hright : ∀ c ∈ rightMargin s, isBlank c = true := fun c hc =>
    List.mem_takeWhile_imp (List.mem_reverse.1 hc)
  have hnil : SplitAtNames names (leftMargin s ++ trim s ++ rightMargin s) [] := splitAtNames_nil
  have hbehind := splitAtNames_blanks hnames hright hnil
  rw [List.append_nil] at hbehind
  have key : ∀ marks, markedText marks = trim s → SplitAtNames names (leftMargin s)
      (marks ++ keepAll (rightMargin s)) → replacedText names put s =
        leftMargin s ++ (swappedText put marks ++ rightMargin s) := by
    intro marks hmarks hsplit
    have hwhole : SplitAtNames names []
        (keepAll (leftMargin s) ++ (marks ++ keepAll (rightMargin s))) :=
      splitAtNames_blanks hnames hleft hsplit
    simpa [hmarks, margins] using hwhole.replaceNamesFrom put
  unfold identifiedText
  split
  · rename_i htrim
    rw [htrim, List.append_nil] at hbehind
    have := key [] htrim.symm hbehind
    rw [this]
    have := margins s
    rw [htrim] at this
    exact this
  · rename_i htrim
    obtain ⟨c, r, hname⟩ := List.exists_cons_of_ne_nil htrim
    have hmem : String.ofList (trim s) ∈ names := hlisted _ (by simp [nameIn, hname])
    have hfound := standsLongest_of_margins hnames hmem htrim hleft hright
    have := key [.found (trim s)] (by simp) (splitAtNames_cons.2 ⟨by simpa [Mark.Fits] using hfound,
      by simpa using hbehind⟩)
    simpa [swappedText] using this

end Harvested

/-! ### Rewritten atoms -/

/-- The second text is the first one with the listed names replaced that stand in it somewhere. -/
def NamesReplaced (names : List String) (put : List Char → List Char) (s t : List Char) : Prop :=
  ∃ previous r, (namePass (longestFirst names) put).Rewrites previous s r t

section Atoms
variable {names : List String} {put : List Char → List Char} {previous : Option Char}
  {r : List Char}

lemma Bound.Rewritten.substituted {bound bound' : Bound} (field : String)
    (h : bound.Rewritten (namePass (longestFirst names) put) previous r bound') :
    bound.tree.Substituted field put (NamesReplaced names put) false bound'.tree := by
  cases bound with
  | word text =>
    obtain ⟨text', rfl, ht⟩ := h
    exact .word ⟨_, _, ht⟩
  | phrase text =>
    obtain ⟨text', rfl, u, t, hu, htext, ht⟩ := h
    refine .phrase ?_ htext
    rw [hu, withoutQuotes_phrase]
    exact ⟨_, _, ht⟩

/-- Rewriting a harvested word that is set apart puts an identifier in place of its name. -/
lemma Atom.Rewritten.substituted {value value' : Atom} {colons harvest : Bool} (field : String)
    (htrimmed : ∀ name ∈ names, IsTrimmed name.toList)
    (h : value.Rewritten (namePass (longestFirst names) put) colons previous r value')
    (hword : harvest = true → ∀ text, value = .word text →
      previous.all opensName = true ∧ r.head?.all closesName = true)
    (hlisted : ∀ name ∈ if harvest then value.tree.names else [], name ∈ names) :
    value.tree.Substituted field put (NamesReplaced names put) harvest value'.tree := by
  cases value with
  | word text =>
    obtain ⟨text', rfl, ht, -⟩ := h
    refine .word ?_
    cases harvest with
    | false => exact ⟨_, _, ht⟩
    | true =>
      obtain ⟨hprevious, hr⟩ := hword rfl text rfl
      exact (replacedText_of_rewrites hprevious hr ht).symm.trans (replacedText_eq htrimmed hlisted)
  | phrase text =>
    obtain ⟨text', rfl, u, t, hu, htext, ht⟩ := h
    refine .phrase ?_ htext
    rw [hu, withoutQuotes_phrase]
    cases harvest with
    | false => exact ⟨_, _, ht⟩
    | true =>
      rw [Atom.tree, Tree.names, hu, withoutQuotes_phrase] at hlisted
      exact (replacedText_of_rewrites rfl rfl ht).symm.trans (replacedText_eq htrimmed hlisted)
  | range =>
    obtain ⟨low', high', rfl, hlow, hhigh⟩ := h
    exact .range _ _ (hlow.substituted field) (hhigh.substituted field)

end Atoms

end SkyResolver.Query
