import SkyResolver.Proofs.Query.Variants

/-! Names replaced in spellings. Where the names in the text of a spelling are found inside its
words, bounds and phrases only, replacing them rewrites these, each in its place, and the rest of
the spelling stays. -/
namespace SkyResolver.Query
open SkyResolver.Text

/-! ### Rooms of spellings -/

def phraseRooms (s : List Char) : Rooms :=
  closed ['"'] ++ (opened (withoutQuotes s) ++ closed ['"'])

/-- A word that starts with the symbol for `AND` may only be replaced from its start. -/
def wordRooms (colons : Bool) : List Char → Rooms
  | '&' :: '&' :: s =>
    if colons then opened ('&' :: '&' :: s) else ('&', s.length + 2) :: closed ('&' :: s)
  | s => opened s

def Bound.rooms : Bound → Rooms
  | .word text => opened text.toList
  | .phrase text => phraseRooms text.toList

def Atom.rooms (colons : Bool) : Atom → Rooms
  | .word text => wordRooms colons text.toList
  | .phrase text => phraseRooms text.toList
  | .range includeLow includeHigh g₁ low g₂ g₃ high g₄ =>
    closed (openingBracket includeLow :: g₁.chars) ++ (low.rooms ++
      (closed (g₂.chars ++ 'T' :: 'O' :: g₃.chars) ++
        (high.rooms ++ closed (g₄.chars ++ [closingBracket includeHigh]))))

/-- The text of a spelling with room for names inside its words, bounds and phrases. -/
abbrev Spelling.rooms {k : Rank} (p : Spelling k) : Rooms :=
  p.pieces closed (fun head => closed (headText head)) Atom.rooms

lemma IsPhrase.text_rooms {s : List Char} (h : IsPhrase s) : Rooms.text (phraseRooms s) = s := by
  obtain ⟨u, rfl, -⟩ := isPhrase_iff_units.1 h
  simp [phraseRooms, withoutQuotes_phrase]

lemma text_wordRooms (colons : Bool) (s : List Char) : Rooms.text (wordRooms colons s) = s := by
  unfold wordRooms
  split
  · split
    · exact Rooms.text_opened _
    · exact congrArg ('&' :: ·) (Rooms.text_closed _)
  · exact Rooms.text_opened s

lemma Bound.Valid.text_rooms {bound : Bound} {r : List Char} (h : bound.Valid r) :
    Rooms.text bound.rooms = bound.text := by
  cases bound with
  | word text => exact Rooms.text_opened _
  | phrase text => exact IsPhrase.text_rooms h

lemma Atom.Valid.text_rooms {value : Atom} {colons : Bool} {r : List Char}
    (h : value.Valid colons r) : Rooms.text (value.rooms colons) = value.text := by
  cases value with
  | word text => exact text_wordRooms colons _
  | phrase text => exact IsPhrase.text_rooms h
  | range =>
    obtain ⟨hlow, -, hhigh⟩ := h
    simp [Atom.rooms, Atom.text, hlow.text_rooms, hhigh.text_rooms]

lemma Spelling.Valid.text_rooms {k : Rank} {p : Spelling k} {r : List Char} (h : p.Valid r) :
    Rooms.text p.rooms = p.text := by
  rw [Spelling.rooms, h.text_withHeads (fun head => head) Rooms.text_append Rooms.text_closed,
    Spelling.withHeads_id]
  · exact fun head => by simp
  · exact fun _ _ _ hvalue => hvalue.text_rooms

/-! ### Rewritten spellings -/

section Rewritten
variable (pass : Pass)

/-- The phrase is rewritten between its quotes. -/
def PhraseRewritten (s r s' : List Char) : Prop :=
  ∃ u t, s = '"' :: (u ++ ['"']) ∧ s' = '"' :: (t ++ ['"']) ∧
  pass.Rewrites (some '"') u ('"' :: r) t

def Bound.Rewritten (previous : Option Char) (r : List Char) : Bound → Bound → Prop
  | .word text, bound' =>
    ∃ text', bound' = .word text' ∧ pass.Rewrites previous text.toList r text'.toList
  | .phrase text, bound' => ∃ text', bound' = .phrase text' ∧
      PhraseRewritten pass text.toList r text'.toList

/-- The symbol for `AND` comes first in no rewritten word, unless the word stays. -/
def Atom.Rewritten (colons : Bool) (previous : Option Char) (r : List Char) : Atom → Atom → Prop
  | .word text, value' => ∃ text', value' = .word text' ∧
    pass.Rewrites previous text.toList r text'.toList ∧
      (colons = false → ∀ v, text'.toList = '&' :: '&' :: v → text' = text)
  | .phrase text, value' => ∃ text', value' = .phrase text' ∧
      PhraseRewritten pass text.toList r text'.toList
  | .range includeLow includeHigh g₁ low g₂ g₃ high g₄, value' =>
    ∃ low' high', value' = .range includeLow includeHigh g₁ low' g₂ g₃ high' g₄ ∧
      low.Rewritten pass (lastOf previous (openingBracket includeLow :: g₁.chars))
        (g₂.chars ++ 'T' :: 'O' :: (g₃.chars ++ (high.text ++ (g₄.chars ++
          closingBracket includeHigh :: r)))) low' ∧
      high.Rewritten pass (lastOf (some 'O') g₃.chars) (g₄.chars ++ closingBracket includeHigh :: r)
        high'

/-- Each atom of the spelling, which stands behind `previous` and in front of `r`, is rewritten
where it stands. -/
def Spelling.Rewritten : {k : Rank} → Option Char → List Char → Spelling k → Spelling k → Prop
  | _, previous, r, .atom head value, p' => ∃ value', p' = .atom head value' ∧
    value.Rewritten pass head.isSome (lastOf previous (headText head)) r value'
  | _, _, r, .group head before inner after, p' => ∃ inner', p' = .group head before inner' after ∧
    inner.Rewritten (lastOf (some '(') before.chars) (after.chars ++ ')' :: r) inner'
  | _, previous, r, .modified operand gap modifier number, p' =>
    ∃ operand', p' = .modified operand' gap modifier number ∧
      operand.Rewritten previous
      (gap.chars ++ modifier.mark :: (optionalChars number ++ r)) operand'
  | _, previous, r, .bare element, p' =>
    ∃ element', p' = .bare element' ∧ element.Rewritten previous r element'
  | _, previous, r, .prefixed op gap operand, p' => ∃ operand', p' = .prefixed op gap operand' ∧
    operand.Rewritten (lastOf previous (signText op ++ gap.chars)) r operand'
  | _, previous, r, .single operand, p' =>
    ∃ operand', p' = .single operand' ∧ operand.Rewritten previous r operand'
  | _, previous, r, .linked first link rest, p' => ∃ first' rest', p' = .linked first' link rest' ∧
    first.Rewritten previous (link.text ++ (rest.text ++ r)) first' ∧
      rest.Rewritten (lastOf (lastOf previous first.text) link.text) r rest'

end Rewritten

/-! ### Revisions -/

/-- How one bound of a range may take the place of another behind `previous`. -/
structure Bound.Revises (previous : Option Char) (bound bound' : Bound) : Prop where
  valid : ∀ s, bound.Valid s → bound'.Valid s
  front : ∀ d, previous = some d → opensName d = false → ∀ s t, bound.Valid s →
    atWordChar (bound.text ++ s) = false → atWordChar (bound'.text ++ t) = false

/-- Behind a character in the middle of a lexeme, the second atom prolongs no number that the first
one does not prolong. -/
def Atom.TameBehind (previous : Option Char) (value value' : Atom) : Prop :=
  ∀ d, previous = some d → opensName d = false → (Spelling.atom none value).Tame (.atom none value')

section Bounds
variable {colons includeLow includeHigh : Bool} {g₁ g₂ g₃ g₄ : Gap} {low low' high high' : Bound}
  {previous : Option Char} (hlow : low.Revises previous low')
  (hhigh : high.Revises (lastOf (some 'O') g₃.chars) high')
include hlow hhigh

lemma Atom.Valid.of_bounds {r r' : List Char}
    (h : (Atom.range includeLow includeHigh g₁ low g₂ g₃ high g₄).Valid colons r) :
    (Atom.range includeLow includeHigh g₁ low' g₂ g₃ high' g₄).Valid colons r' :=
  h.bounds hlow.valid hhigh.valid fun hempty => hhigh.front 'O' (by rw [hempty]; rfl) rfl

lemma Atom.Revises.of_bounds :
    (Atom.range includeLow includeHigh g₁ low g₂ g₃ high g₄).Revises colons
      (.range includeLow includeHigh g₁ low' g₂ g₃ high' g₄) :=
  .range fun _ _ h => h.of_bounds hlow hhigh

end Bounds

section Gentle
variable {pass : Pass} (hpass : pass.Gentle) {previous : Option Char} {r : List Char}
include hpass

lemma PhraseRewritten.isPhrase {s s' : List Char} (h : PhraseRewritten pass s r s')
    (hs : IsPhrase s) :
    IsPhrase s' := by
  obtain ⟨u, t, rfl, rfl, ht⟩ := h
  exact ht.isPhrase hpass hs

lemma Bound.Rewritten.revises {bound bound' : Bound} (h : bound.Rewritten pass previous r bound') :
    bound.Revises previous bound' := by
  cases bound with
  | word text =>
    obtain ⟨text', rfl, ht⟩ := h
    refine ⟨fun s hs => ⟨ht.isBound hpass hs.1, hs.2⟩, ?_⟩
    rintro d rfl hd s t hs hword
    have hne := ht.ne_nil hpass hs.1.ne_nil
    rw [Bound.text, atWordChar_append (ht.run hpass hs.1.run) hne, ht.atWordChar hpass hd]
    rwa [Bound.text, atWordChar_append hs.1.run hs.1.ne_nil] at hword
  | phrase text =>
    obtain ⟨text', rfl, ht⟩ := h
    refine ⟨fun _ hs => ht.isPhrase hpass hs, fun _ _ _ _ t _ _ => ?_⟩
    obtain ⟨u, v, -, hv, -⟩ := ht
    rw [Bound.text, hv]
    rfl

lemma Atom.Rewritten.revises {value value' : Atom} {colons : Bool}
    (h : value.Rewritten pass colons previous r value') :
    value.Revises colons value' ∧ value.TameBehind previous value' := by
  cases value with
  | word text =>
    obtain ⟨text', rfl, ht, hsymbol⟩ := h
    refine ⟨.word (ht.isTerm hpass) hsymbol, ?_⟩
    rintro d rfl hd s s' ⟨-, hterm, -⟩ ⟨-, -, hword, -⟩
    exact ht.tamer hpass hd hterm.ne_nil s hword
  | phrase text =>
    obtain ⟨text', rfl, ht⟩ := h
    exact ⟨.phrase (ht.isPhrase hpass), fun _ _ _ => .phrase _ _⟩
  | range =>
    obtain ⟨low', high', rfl, hlow, hhigh⟩ := h
    exact ⟨.of_bounds (hlow.revises hpass) (hhigh.revises hpass),
      fun _ _ _ => .range _ _ _ _ _ _ _ _ _⟩

/-- A rewritten spelling is a revision; it has no new object fields, and it prolongs no number when
it stands behind one. -/
theorem Spelling.Rewritten.revises {k : Rank} {p p' : Spelling k} {s : List Char} (hp : p.Valid s)
    (h : p.Rewritten pass previous r p') :
    p.Revises p' ∧ p'.endsModified = p.endsModified ∧
      (∀ t t', p.objectFields t = [] → p'.objectFields t' = []) ∧
      ∀ d, previous = some d → opensName d = false → p.Tame p' := by
  have hhead : ∀ head, HeadRevises head head := fun head => ⟨rfl, id⟩
  induction p generalizing s r previous with
  | atom head value =>
    obtain ⟨value', rfl, hvalue⟩ := h
    obtain ⟨hrevises, htame⟩ := hvalue.revises hpass
    cases head with
    | none => exact ⟨.atom (hhead none) hrevises, rfl, fun _ _ _ => rfl, htame⟩
    | some head =>
      refine ⟨.atom (hhead (some head)) hrevises, rfl, fun t t' hclear => ?_,
        fun _ _ _ => .named _ head value'⟩
      simpa [Spelling.objectFields] using hclear
  | group head before inner after ih =>
    obtain ⟨inner', rfl, hinner⟩ := h
    obtain ⟨hrevises, -, hfields, -⟩ := ih hp.2 hinner
    refine ⟨.group _ _ _ _ (hhead head) hrevises, rfl, fun t t' hclear => ?_,
      fun _ _ _ => .group _ _ _ _ _⟩
    cases head with
    | none => exact hfields _ _ hclear
    | some head => simpa [Spelling.objectFields] using hclear
  | modified operand gap modifier number ih =>
    obtain ⟨operand', rfl, hoperand⟩ := h
    obtain ⟨hrevises, -, hfields, htame⟩ := ih hp.1 hoperand
    exact ⟨.modified _ _ _ _ hrevises, rfl, fun _ _ => hfields _ _,
      fun d hprevious hd => (htame d hprevious hd).modified _ _ _⟩
  | bare element ih =>
    obtain ⟨element', rfl, helement⟩ := h
    obtain ⟨hrevises, hrest⟩ := ih hp helement
    exact ⟨.bare hrevises, hrest⟩
  | prefixed op gap operand ih =>
    obtain ⟨operand', rfl, hoperand⟩ := h
    obtain ⟨hrevises, hends, hfields, -⟩ := ih hp.2 hoperand
    exact ⟨.prefixed _ _ _ (fun _ => .inl rfl) hrevises, hends, hfields,
      fun _ _ _ => .prefixed _ _ _ _⟩
  | single operand ih =>
    obtain ⟨operand', rfl, hoperand⟩ := h
    obtain ⟨hrevises, hrest⟩ := ih hp hoperand
    exact ⟨.single hrevises, hrest⟩
  | linked first link rest ihFirst ihRest =>
    obtain ⟨first', rest', rfl, hfirst, hrest⟩ := h
    obtain ⟨hrevises, hends, hfields, htame⟩ := ihFirst hp.1 hfirst
    obtain ⟨hrevises', hends', hfields', htame'⟩ := ihRest hp.2.2 hrest
    refine ⟨.linked hrevises (.inl rfl) hrevises' fun hmodified hempty => ?_, hends',
      fun t t' hclear => ?_, fun d hprevious hd => (htame d hprevious hd).linked _ _ _⟩
    · rw [hends] at hmodified
      obtain ⟨d, hd, hlast⟩ := hp.1.lastOf_of_endsModified hmodified previous
      exact htame' d (by rw [hempty, lastOf_nil, hlast]) hd
    · obtain ⟨hclear, hclear'⟩ := List.append_eq_nil_iff.1 hclear
      exact List.append_eq_nil_iff.2 ⟨hfields _ _ hclear, hfields' _ _ hclear'⟩

/-! ### Names in the rooms -/

lemma IsPhrase.exists_rewritten {s : List Char} (hs : IsPhrase s)
    (h : pass.Confined r previous (phraseRooms s)) :
    ∃ t, pass.Rewrites previous s r t ∧ PhraseRewritten pass s r t := by
  obtain ⟨u, rfl, -⟩ := isPhrase_iff_units.1 hs
  rw [phraseRooms, withoutQuotes_phrase, Finder.confined_append, Finder.confined_append] at h
  obtain ⟨hopen, hinner, hclose⟩ := h
  obtain ⟨t, ht⟩ := Finder.Confined.opened hpass hinner
  have hopen' := Finder.Confined.closed hpass hopen
  have hclose' := Finder.Confined.closed hpass hclose
  simp only [Rooms.text_append, Rooms.text_closed, Rooms.text_opened] at hopen' ht hclose'
  exact ⟨'"' :: (t ++ ['"']), hopen'.append (ht.append hclose'), u, t, rfl, rfl, ht⟩

/-- No symbol for `AND` comes to the start of a word, and one that is there stays only with the
word. -/
lemma exists_rewrites_word {colons : Bool} {s : List Char}
    (h : pass.Confined r previous (wordRooms colons s)) : ∃ t, pass.Rewrites previous s r t ∧
      (colons = false → ∀ v, t = '&' :: '&' :: v → t = s) := by
  unfold wordRooms at h
  split at h
  · rename_i s
    cases colons with
    | true =>
      obtain ⟨t, ht⟩ := Finder.Confined.opened hpass h
      exact ⟨t, ht, by simp⟩
    | false =>
      obtain ⟨hroom, h⟩ := h
      rw [Rooms.text_closed] at hroom
      cases hfind : pass.find previous ('&' :: ('&' :: s ++ r)) with
      | none => exact ⟨_, .keep hfind (Finder.Confined.closed hpass h), fun _ _ _ => rfl⟩
      | some old =>
        obtain ⟨hlength, hend⟩ := hroom old hfind
        obtain ⟨hne, rest, hrest⟩ := hpass.occurs hfind
        obtain ⟨s', hs'⟩ : old <+: '&' :: '&' :: s :=
          List.prefix_of_prefix_length_le ⟨rest, hrest.symm⟩ ⟨r, rfl⟩ (by simpa using hlength)
        obtain ⟨d, old, rfl⟩ := List.exists_cons_of_ne_nil hne
        rw [List.cons_append, List.cons.injEq] at hs'
        obtain ⟨rfl, hs'⟩ := hs'
        rw [← hs', closed, List.map_append, ← closed, ← closed, Finder.confined_append] at h
        rw [← hs'] at hfind ⊢
        have hrest' := Finder.Confined.closed hpass h.2
        rw [Rooms.text_closed] at hrest'
        refine ⟨pass.put ('&' :: old) ++ s', ?_, fun _ v hv => ?_⟩
        · rw [← List.cons_append]
          exact .swap (by simpa using hfind) hend hrest'
        · obtain ⟨hput, hdigits⟩ := hpass.digits ('&' :: old)
          obtain ⟨c, new, hnew⟩ := List.exists_cons_of_ne_nil hput
          rw [hnew, List.cons_append, List.cons.injEq] at hv
          exact absurd hv.1 (ne_of_isDigit (hdigits c (by simp [hnew]))).2.2.2
  · rename_i hsymbol
    obtain ⟨t, ht⟩ := Finder.Confined.opened hpass h
    refine ⟨t, ht, fun _ v hv => ?_⟩
    subst hv
    obtain ⟨u, rfl, hrest⟩ := ht.kept hpass rfl
    obtain ⟨u', rfl, -⟩ := hrest.kept hpass rfl
    exact absurd rfl (hsymbol u')

lemma Bound.exists_rewritten {bound : Bound} {s : List Char} (hbound : bound.Valid s)
    (h : pass.Confined r previous bound.rooms) :
    ∃ bound' : Bound, pass.Rewrites previous bound.text r bound'.text ∧
      bound.Rewritten pass previous r bound' := by
  cases bound with
  | word text =>
    obtain ⟨t, ht⟩ := Finder.Confined.opened hpass h
    rw [← String.toList_ofList (l := t)] at ht
    exact ⟨.word (String.ofList t), ht, _, rfl, ht⟩
  | phrase text =>
    obtain ⟨t, ht, hphrase⟩ := IsPhrase.exists_rewritten hpass hbound h
    rw [← String.toList_ofList (l := t)] at ht hphrase
    exact ⟨.phrase (String.ofList t), ht, _, rfl, hphrase⟩

lemma Atom.exists_rewritten {value : Atom} {colons : Bool} {s : List Char}
    (hvalue : value.Valid colons s) (h : pass.Confined r previous (value.rooms colons)) :
    ∃ value' : Atom, pass.Rewrites previous value.text r value'.text ∧
      value.Rewritten pass colons previous r value' := by
  cases value with
  | word text =>
    obtain ⟨t, ht, hsymbol⟩ := exists_rewrites_word hpass h
    rw [← String.toList_ofList (l := t)] at ht
    refine ⟨.word (String.ofList t), ht, _, rfl, ht, fun hcolons v hv => ?_⟩
    rw [String.toList_ofList] at hv
    rw [hsymbol hcolons v hv, String.ofList_toList]
  | phrase text =>
    obtain ⟨t, ht, hphrase⟩ := IsPhrase.exists_rewritten hpass hvalue h
    rw [← String.toList_ofList (l := t)] at ht hphrase
    exact ⟨.phrase (String.ofList t), ht, _, rfl, hphrase⟩
  | range includeLow includeHigh g₁ low g₂ g₃ high g₄ =>
    obtain ⟨hlow, -, hhigh⟩ := hvalue
    simp only [Atom.rooms, Finder.confined_append, Rooms.text_append, Rooms.text_closed,
      hlow.text_rooms, hhigh.text_rooms] at h
    obtain ⟨hopen, hl, hto, hh, hclose⟩ := h
    obtain ⟨low', hlow', hlowRewritten⟩ := Bound.exists_rewritten hpass hlow hl
    obtain ⟨high', hhigh', hhighRewritten⟩ := Bound.exists_rewritten hpass hhigh hh
    refine ⟨.range includeLow includeHigh g₁ low' g₂ g₃ high' g₄, ?_, low', high', rfl,
      by simpa using hlowRewritten, by simpa using hhighRewritten⟩
    have hrewrites := (Finder.Confined.closed hpass hopen).append (hlow'.append
      ((Finder.Confined.closed hpass hto).append
        (hhigh'.append (Finder.Confined.closed hpass hclose))))
    simpa [Atom.text] using hrewrites

/-- Where names are found in the rooms of a spelling only, the pass rewrites the spelling. -/
theorem Spelling.Valid.exists_rewritten {k : Rank} {p : Spelling k} {s : List Char} (hp : p.Valid s)
    (h : pass.Confined r previous p.rooms) :
    ∃ p' : Spelling k, pass.Rewrites previous p.text r p'.text ∧
    p.Rewritten pass previous r p' := by
  induction p generalizing s r previous with
  | atom head value =>
    simp only [Spelling.rooms, Spelling.pieces, Finder.confined_append, hp.2.text_rooms,
      Rooms.text_closed] at h
    obtain ⟨value', hrewrites, hvalue⟩ := Atom.exists_rewritten hpass hp.2 h.2
    exact ⟨.atom head value', (Finder.Confined.closed hpass h.1).append hrewrites,
      value', rfl, hvalue⟩
  | group head before inner after ih =>
    simp only [Spelling.rooms, Spelling.pieces, Finder.confined_append, Rooms.text_append,
      Rooms.text_closed] at h
    obtain ⟨hname, hopen, hinner, hclose⟩ := h
    obtain ⟨inner', hrewrites, hrewritten⟩ := ih hp.2 hinner
    refine ⟨.group head before inner' after, ?_, inner', rfl, by simpa using hrewritten⟩
    rw [hp.2.text_rooms] at hname hopen hclose
    have hall := (Finder.Confined.closed hpass hname).append
      ((Finder.Confined.closed hpass hopen).append
        (hrewrites.append (Finder.Confined.closed hpass hclose)))
    simpa [Spelling.text] using hall
  | modified operand gap modifier number ih =>
    simp only [Spelling.rooms, Spelling.pieces, Finder.confined_append, Rooms.text_closed] at h
    rw [hp.1.text_rooms] at h
    obtain ⟨operand', hrewrites, hrewritten⟩ := ih hp.1 h.1
    exact ⟨.modified operand' gap modifier number,
      hrewrites.append (Finder.Confined.closed hpass h.2), operand', rfl, by simpa using hrewritten⟩
  | bare element ih =>
    obtain ⟨element', hrewrites, hrewritten⟩ := ih hp h
    exact ⟨.bare element', hrewrites, element', rfl, hrewritten⟩
  | prefixed op gap operand ih =>
    simp only [Spelling.rooms, Spelling.pieces, Finder.confined_append, Rooms.text_closed] at h
    rw [hp.2.text_rooms] at h
    obtain ⟨operand', hrewrites, hrewritten⟩ := ih hp.2 h.2
    refine ⟨.prefixed op gap operand', ?_, operand', rfl, hrewritten⟩
    simpa [Spelling.text] using (Finder.Confined.closed hpass h.1).append hrewrites
  | single operand ih =>
    obtain ⟨operand', hrewrites, hrewritten⟩ := ih hp h
    exact ⟨.single operand', hrewrites, operand', rfl, hrewritten⟩
  | linked first link rest ihFirst ihRest =>
    simp only [Spelling.rooms, Spelling.pieces, Finder.confined_append, Rooms.text_append,
      Rooms.text_closed] at h
    rw [hp.1.text_rooms, hp.2.2.text_rooms] at h
    obtain ⟨hfirst, hlink, hrest⟩ := h
    obtain ⟨first', hrewrites, hrewritten⟩ := ihFirst hp.1 hfirst
    obtain ⟨rest', hrewrites', hrewritten'⟩ := ihRest hp.2.2 hrest
    exact ⟨.linked first' link rest', hrewrites.append
        ((Finder.Confined.closed hpass hlink).append hrewrites'),
      first', rest', rfl, by simpa using hrewritten, hrewritten'⟩

end Gentle

end SkyResolver.Query
