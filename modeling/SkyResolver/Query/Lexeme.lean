import SkyResolver.Text.Search

/-! The lexemes of the query language. Each reader takes what it reads from the start of a text and
returns it with the rest, or fails; none of them skips blanks in front. Runs are greedy: a reader
takes as much as it can. The length lemmas say that a successful reader consumes something, which
is what bounds the grammar. -/
namespace SkyResolver.Query
open SkyResolver.Text

/-- The blanks that separate lexemes: blank, tab, carriage return and line feed. -/
def isGap (c : Char) : Bool := c == ' ' || c == '\t' || c == '\r' || c == '\n'

/-- The characters that are part of a word only after a backslash. -/
def isSpecial (c : Char) : Bool :=
  c == '(' || c == ')' || c == '[' || c == ']' || c == '\x7b' || c == '\x7d' || c == '"' ||
  c == '^' || c == '~' || c == ':' || c == '\\'

def isPlain (c : Char) : Bool := !isGap c && !isSpecial c

def skipGap (s : List Char) : List Char := s.dropWhile isGap

theorem length_skipGap_le (s : List Char) : (skipGap s).length ≤ s.length := by
  simpa [skipGap] using (List.dropWhile_sublist isGap (l := s)).length_le

def atWordChar : List Char → Bool
  | '\\' :: _ :: _ => true
  | c :: _ => isPlain c
  | [] => false

/-- The longest run of word characters, with escaped characters counted as one; colons belong to the
run when `colons` is set. -/
def wordRun (colons : Bool) : List Char → List Char × List Char
  | '\\' :: c :: s => let (run, rest) := wordRun colons s; ('\\' :: c :: run, rest)
  | c :: s =>
    if isPlain c || (colons && c == ':') then
      let (run, rest) := wordRun colons s; (c :: run, rest)
    else ([], c :: s)
  | [] => ([], [])

theorem wordRun_append (colons : Bool) (s : List Char) :
    (wordRun colons s).1 ++ (wordRun colons s).2 = s := by
  fun_induction wordRun colons s with
  | case1 c s run rest h ih => simpa [h] using ih
  | case2 c s _ h run rest h' ih => simpa [h, h'] using ih
  | case3 c s _ h => simp
  | case4 => simp

/-- The rest after a keyword that no word character follows. -/
def keyword? (word : String) (s : List Char) : Option (List Char) :=
  match afterPrefix? word.toList s with
  | some rest => if atWordChar rest then none else some rest
  | none => none

/-- True at one of the three words that are operators and never terms. -/
def atReserved (s : List Char) : Bool :=
  (keyword? "AND" s).isSome || (keyword? "OR" s).isSome || (keyword? "NOT" s).isSome

def run? (colons : Bool) (s : List Char) : Option (String × List Char) :=
  match wordRun colons s with
  | ([], _) => none
  | (c :: run, rest) => some (String.ofList (c :: run), rest)

/-- A term: it does not start with a sign or a colon and is not reserved. The value of a field may
hold colons. -/
def term? (colons : Bool) (s : List Char) : Option (String × List Char) :=
  match s with
  | '+' :: _ | '-' :: _ | ':' :: _ => none
  | _ => if atReserved s then none else run? colons s

/-- The bound of a range; only `TO` is reserved there. -/
def bound? (s : List Char) : Option (String × List Char) :=
  if (keyword? "TO" s).isSome then none else run? true s

/-- What follows the opening quote of a phrase, up to its closing quote. -/
def phraseBody? : List Char → Option (List Char × List Char)
  | '\\' :: c :: s => (phraseBody? s).map fun (body, rest) => ('\\' :: c :: body, rest)
  | '"' :: s => some (['"'], s)
  | c :: s => (phraseBody? s).map fun (body, rest) => (c :: body, rest)
  | [] => none

def phrase? : List Char → Option (String × List Char)
  | '"' :: s => (phraseBody? s).map fun (body, rest) => (String.ofList ('"' :: body), rest)
  | _ => none

def fieldName? : List Char → Option (String × List Char)
  | c :: s =>
    if c == '=' || c == '_' || c.isAlpha then
      let inName (d : Char) := d == '_' || d == '.' || d == '-' || d.isAlphanum
      some (String.ofList (c :: s.takeWhile inName), s.dropWhile inName)
    else none
  | [] => none

/-- An unsigned decimal number; the part before the point may be missing, the one behind it only
together with the point. -/
def number? (s : List Char) : Option (String × List Char) :=
  let whole := s.takeWhile Char.isDigit
  match s.dropWhile Char.isDigit with
  | '.' :: r =>
    let fraction := r.takeWhile Char.isDigit
    if fraction.isEmpty then
      if whole.isEmpty then none else some (String.ofList whole, '.' :: r)
    else some (String.ofList (whole ++ '.' :: fraction), r.dropWhile Char.isDigit)
  | r => if whole.isEmpty then none else some (String.ofList whole, r)

def optionalNumber (s : List Char) : Option String × List Char :=
  match number? s with
  | some (text, rest) => (some text, rest)
  | none => (none, s)

inductive OperatorMark where
  | and
  | or

def OperatorMark.word : OperatorMark → String
  | .and => "AND"
  | .or => "OR"

def OperatorMark.symbol : OperatorMark → List Char
  | .and => ['&', '&']
  | .or => ['|', '|']

def OperatorMark.read? (op : OperatorMark) (s : List Char) : Option (List Char) :=
  (keyword? op.word s).orElse fun _ => afterPrefix? op.symbol s

theorem length_lt_of_afterPrefix? {p s r : List Char} (hp : p ≠ [])
    (h : afterPrefix? p s = some r) :
    r.length < s.length := by
  rw [afterPrefix?_eq_some_iff.1 h]
  have := List.length_pos_iff.2 hp
  simp; omega

theorem length_lt_of_keyword? {word : String} {s r : List Char} (hw : word.toList ≠ [])
    (h : keyword? word s = some r) : r.length < s.length := by
  unfold keyword? at h
  split at h
  · rename_i rest hrest
    split at h
    · cases h
    · cases h
      exact length_lt_of_afterPrefix? hw hrest
  · cases h

theorem OperatorMark.length_lt_of_read? (op : OperatorMark) {s r : List Char}
    (h : op.read? s = some r) :
    r.length < s.length := by
  unfold OperatorMark.read? at h
  cases hk : keyword? op.word s with
  | some r' =>
    rw [hk] at h
    cases h
    exact length_lt_of_keyword? (by cases op <;> decide) hk
  | none =>
    rw [hk] at h
    exact length_lt_of_afterPrefix? (by cases op <;> decide) h

theorem length_lt_of_run? {colons : Bool} {s : List Char} {text : String} {r : List Char}
    (h : run? colons s = some (text, r)) : r.length < s.length := by
  unfold run? at h
  have happend := wordRun_append colons s
  split at h
  · cases h
  · rename_i c run rest hrun
    cases h
    rw [hrun] at happend
    rw [← happend]
    simp only [List.cons_append, List.length_cons, List.length_append]
    omega

theorem length_lt_of_term? {colons : Bool} {s : List Char} {text : String} {r : List Char}
    (h : term? colons s = some (text, r)) : r.length < s.length := by
  unfold term? at h
  split at h
  · cases h
  · cases h
  · cases h
  · split at h
    · cases h
    · exact length_lt_of_run? h

theorem length_lt_of_bound? {s : List Char} {text : String} {r : List Char}
    (h : bound? s = some (text, r)) : r.length < s.length := by
  unfold bound? at h
  split at h
  · cases h
  · exact length_lt_of_run? h

theorem length_lt_of_phraseBody? {s body r : List Char} (h : phraseBody? s = some (body, r)) :
    r.length < s.length := by
  fun_induction phraseBody? s generalizing body with
  | case1 c s ih =>
    simp only [Option.map_eq_some_iff, Prod.mk.injEq] at h
    obtain ⟨⟨b, r'⟩, hb, _, rfl⟩ := h
    have := ih hb
    simp only [List.length_cons] at this ⊢
    omega
  | case2 s =>
    cases h
    simp
  | case3 c s _ _ ih =>
    simp only [Option.map_eq_some_iff, Prod.mk.injEq] at h
    obtain ⟨⟨b, r'⟩, hb, _, rfl⟩ := h
    have := ih hb
    simp only [List.length_cons] at this ⊢
    omega
  | case4 => cases h

theorem length_lt_of_phrase? {s : List Char} {text : String} {r : List Char}
    (h : phrase? s = some (text, r)) : r.length < s.length := by
  unfold phrase? at h
  split at h
  · simp only [Option.map_eq_some_iff, Prod.mk.injEq] at h
    obtain ⟨⟨b, r'⟩, hb, _, rfl⟩ := h
    have := length_lt_of_phraseBody? hb
    simp; omega
  · cases h

theorem length_lt_of_fieldName? {s : List Char} {text : String} {r : List Char}
    (h : fieldName? s = some (text, r)) : r.length < s.length := by
  unfold fieldName? at h
  split at h
  · rename_i c t
    split at h
    · cases h
      have := (List.dropWhile_sublist
        (fun d => d == '_' || d == '.' || d == '-' || d.isAlphanum) (l := t)).length_le
      simp only [List.length_cons]
      omega
    · cases h
  · cases h

theorem length_optionalNumber_le (s : List Char) : (optionalNumber s).2.length ≤ s.length := by
  unfold optionalNumber
  split
  · rename_i text rest h
    unfold number? at h
    have hwhole := (List.dropWhile_sublist Char.isDigit (l := s)).length_le
    dsimp only at h
    split at h
    · rename_i r hr
      rw [hr] at hwhole
      have hfraction := (List.dropWhile_sublist Char.isDigit (l := r)).length_le
      split at h
      · split at h
        · cases h
        · cases h
          exact hwhole
      · cases h
        simp only [List.length_cons] at hwhole ⊢
        omega
    · split at h
      · cases h
      · cases h
        exact hwhole
  · exact Nat.le_refl _

end SkyResolver.Query
