import SkyResolver.Proofs.Query.Alignment
import SkyResolver.Proofs.Query.Tokens
import SkyResolver.Proofs.Query.WholeNames

/-! The ground that names stand on. Each character of a query has a role in it, so it can be told of
a name that stands somewhere as a whole whether it stands in a lexeme, on several tokens, or over
the end of something that must stay in one piece. -/
namespace SkyResolver.Query
open SkyResolver.Text

inductive Role where
  | word
  /-- Between the quotes of a phrase. -/
  | quoted
  /-- In a word that bounds a range. -/
  | bound
  | opening
  | closing
  /-- The first character of the head of a field. -/
  | field
  /-- Any other character of the head of a field. -/
  | head
  /-- The first character of any other token. -/
  | start
  | inner
  deriving DecidableEq

/-- A token starts with a character in this role, one that is no word. -/
def Role.starts : Role → Bool
  | .opening | .closing | .field | .start => true
  | _ => false

abbrev Ground := List (Char × Role)

def Ground.text (ground : Ground) : List Char := ground.map Prod.fst

/-- A text in which all characters have one role. -/
def painted (role : Role) (s : List Char) : Ground := s.map fun c => (c, role)

/-- The first character of a text has a role of its own. -/
def led (first rest : Role) : List Char → Ground
  | [] => []
  | c :: s => (c, first) :: painted rest s

def phraseGround (first : Role) (s : List Char) : Ground :=
  ('"', first) :: (painted .quoted (withoutQuotes s) ++ [('"', .inner)])

def Bound.ground : Bound → Ground
  | .word text => painted .bound text.toList
  | .phrase text => phraseGround .inner text.toList

def Atom.ground : Atom → Ground
  | .word text => painted .word text.toList
  | .phrase text => phraseGround .start text.toList
  | .range includeLow includeHigh g₁ low g₂ g₃ high g₄ =>
    led .start .inner (openingBracket includeLow :: g₁.chars) ++ (low.ground ++
      (painted .inner (g₂.chars ++ 'T' :: 'O' :: g₃.chars) ++
        (high.ground ++ painted .inner (g₄.chars ++ [closingBracket includeHigh]))))

def Token.ground : Token → Ground
  | opening => [('(', .opening)]
  | closing => [(')', .closing)]
  | head h => led .field .head h.text
  | atom value => value.ground
  | token => led .start .inner token.text

def Token.groundOf (tokens : List Token) : Ground := tokens.flatMap ground

/-! ### Texts of grounds -/

@[simp] lemma Ground.text_nil : Ground.text [] = [] := rfl

@[simp] lemma Ground.text_cons (c : Char) (role : Role) (ground : Ground) :
    Ground.text ((c, role) :: ground) = c :: ground.text := rfl

@[simp] lemma Ground.text_append (ground ground' : Ground) :
    Ground.text (ground ++ ground') = ground.text ++ ground'.text := List.map_append

@[simp] lemma text_painted (role : Role) (s : List Char) : (painted role s).text = s := by
  simp [Ground.text, painted, Function.comp_def]

@[simp] lemma painted_cons (role : Role) (c : Char) (s : List Char) :
    painted role (c :: s) = (c, role) :: painted role s := rfl

@[simp] lemma painted_append (role : Role) (s t : List Char) :
    painted role (s ++ t) = painted role s ++ painted role t := List.map_append

@[simp] lemma text_led (first rest : Role) (s : List Char) : (led first rest s).text = s := by
  cases s with
  | nil => rfl
  | cons c s => exact congrArg (c :: ·) (text_painted rest s)

lemma IsPhrase.text_ground {s : List Char} (h : IsPhrase s) (first : Role) :
    (phraseGround first s).text = s := by
  obtain ⟨u, rfl, -⟩ := isPhrase_iff_units.1 h
  simp [phraseGround, withoutQuotes]

lemma Bound.Valid.text_ground {bound : Bound} {r : List Char} (h : bound.Valid r) :
    bound.ground.text = bound.text := by
  cases bound with
  | word text => exact text_painted _ _
  | phrase text => exact IsPhrase.text_ground h _

lemma Atom.Valid.text_ground {value : Atom} {colons : Bool} {r : List Char}
    (h : value.Valid colons r) : value.ground.text = value.text := by
  cases value with
  | word text => exact text_painted _ _
  | phrase text => exact IsPhrase.text_ground h _
  | range =>
    obtain ⟨hlow, -, hhigh⟩ := h
    simp [Atom.ground, Atom.text, hlow.text_ground, hhigh.text_ground]

lemma Token.text_ground {token : Token}
    (h : ∀ value, token = .atom value → value.ground.text = value.text) :
    token.ground.text = token.text := by
  cases token with
  | atom value => exact h value rfl
  | opening | closing => rfl
  | gap c => rfl
  | sign op => exact text_led _ _ _
  | head h => exact text_led _ _ _
  | modifier m number => exact text_led _ _ (m.mark :: optionalChars number)
  | and keyword => exact text_led _ _ _
  | or => rfl

lemma Token.Stops.text_ground {token : Token} {stage : Stage} {r : List Char}
    (h : token.Stops stage r) : token.ground.text = token.text :=
  Token.text_ground fun _ hvalue => by
    rw [hvalue] at h
    exact h.1.text_ground

@[simp] lemma Token.groundOf_cons (token : Token) (tokens : List Token) :
    groundOf (token :: tokens) = token.ground ++ groundOf tokens := rfl

@[simp] lemma Token.groundOf_append (tokens tokens' : List Token) :
    groundOf (tokens ++ tokens') = groundOf tokens ++ groundOf tokens' := List.flatMap_append

lemma Completes.text_ground {stage : Stage} {depth : Nat} {tokens : List Token}
    (h : Completes stage depth tokens) :
    (Token.groundOf tokens).text = Token.textOf tokens := by
  induction h with
  | nil => rfl
  | cons hnext hdepth hstops rest ih =>
    rw [Token.groundOf_cons, Ground.text_append, hstops.text_ground, ih, Token.textOf_cons]

/-! ### Names on a ground -/

/-- Wherever a listed name stands on the ground as a whole, it stands well there: on its own part of
the ground, in front of the rest. -/
def StandOn (names : List String) (well : Ground → Ground → Prop) (before : List Char)
    (ground : Ground) : Prop :=
  ∀ passed name after, ground = passed ++ (name ++ after) →
    Stands names (before ++ passed.text) name.text after.text → well name after

section Deciding
variable {names : List String} {well : Ground → Ground → Prop} {before : List Char}
  {ground : Ground}

lemma stands_iff {name after : List Char} : Stands names before name after ↔
    before.getLast?.all opensName = true ∧ after.head?.all closesName = true ∧ name ≠ [] ∧
      names.any (fun listed => listed.toList == name) = true := by
  have hlisted : String.ofList name ∈ names ↔
      names.any (fun listed => listed.toList == name) = true := by
    simp only [List.any_eq_true, beq_iff_eq]
    exact ⟨fun h => ⟨_, h, String.toList_ofList⟩, fun ⟨listed, h, hname⟩ => by
      rwa [← hname, String.ofList_toList]⟩
  rw [← hlisted]
  exact ⟨fun h => ⟨h.3, h.4, h.2, h.1⟩, fun h => ⟨h.2.2.2, h.2.2.1, h.1, h.2.1⟩⟩

instance (names : List String) (before name after : List Char) :
    Decidable (Stands names before name after) := decidable_of_iff' _ stands_iff

lemma standOn_nil : StandOn names well before [] := by
  intro passed name after h hstands
  obtain ⟨-, h⟩ := List.append_eq_nil_iff.1 h.symm
  obtain ⟨rfl, -⟩ := List.append_eq_nil_iff.1 h
  exact absurd rfl hstands.nonempty

lemma standOn_cons {x : Char × Role} : StandOn names well before (x :: ground) ↔
    (∀ listed ∈ names, Stands names before (Ground.text ((x :: ground).take listed.length))
        (Ground.text ((x :: ground).drop listed.length)) →
      well ((x :: ground).take listed.length) ((x :: ground).drop listed.length)) ∧
    StandOn names well (before ++ [x.1]) ground := by
  constructor
  · refine fun h => ⟨fun listed _ hstands => h [] _ _ (List.take_append_drop _ _).symm ?_,
      fun passed name after hground hstands => h (x :: passed) name after (by rw [hground]; rfl) ?_⟩
    · rwa [Ground.text_nil, List.append_nil]
    · rwa [Ground.text_cons, List.append_cons]
  · rintro ⟨hhere, hthere⟩ passed name after h hstands
    cases passed with
    | nil =>
      rw [Ground.text_nil, List.append_nil] at hstands
      have hlength : (String.ofList name.text).length = name.length := by
        rw [String.length_ofList, Ground.text, List.length_map]
      have := hhere _ hstands.listed
      rw [h, List.nil_append, hlength, List.take_left, List.drop_left] at this
      exact this hstands
    | cons y passed =>
      obtain ⟨rfl, hground⟩ := List.cons.inj h
      refine hthere passed name after hground ?_
      rwa [← List.append_cons]

instance decidableStandOn [DecidableRel well] : (before : List Char) → (ground : Ground) →
    Decidable (StandOn names well before ground)
  | _, [] => isTrue standOn_nil
  | before, x :: ground =>
    have := decidableStandOn (before ++ [x.1]) ground
    decidable_of_iff' _ standOn_cons

lemma StandOn.behind (passed : Ground) (h : StandOn names well before (passed ++ ground)) :
    StandOn names well (before ++ passed.text) ground := by
  rintro passed' name after rfl hstands
  refine h (passed ++ passed') name after (by simp) ?_
  rwa [Ground.text_append, ← List.append_assoc]

/-- What the finder finds stands on a part of the ground, and stands well there. -/
lemma StandOn.found {old : List Char} (h : StandOn names well before ground)
    (hfind : (nameFinder (longestFirst names)).find before.getLast? ground.text = some old) :
    ∃ name after : Ground, ground = name ++ after ∧ name.text = old ∧
      Stands names before name.text after.text ∧ well name after := by
  obtain ⟨behind, htext, hstands⟩ := nameFinder_eq_some_iff.1 hfind
  obtain ⟨name, after, rfl, rfl, rfl⟩ := List.map_eq_append_iff.1 htext
  refine ⟨name, after, rfl, rfl, hstands.toStands, h [] name after rfl ?_⟩
  rw [Ground.text_nil, List.append_nil]
  exact hstands.toStands

end Deciding

lemma lastOf_getLast? (before s : List Char) :
    lastOf before.getLast? s = (before ++ s).getLast? := by
  cases s with
  | nil => simp
  | cons c s =>
    rw [lastOf_eq_getLast? (List.cons_ne_nil c s),
      getLast?_append_of_ne_nil before (List.cons_ne_nil c s)]

end SkyResolver.Query
