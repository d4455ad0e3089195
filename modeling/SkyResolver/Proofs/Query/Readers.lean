import SkyResolver.Proofs.Query.Lexemes

/-! The readers of the grammar as functions on texts: what a reader takes and the rest, without the
proof that bounds the rest. Each has one equation, in terms of the other readers. -/
namespace SkyResolver.Query
open SkyResolver.Text

def prefixAt (s : List Char) : Option (PrefixOp × List Char) := (prefixOp? s).map Subtype.val

def boundAt (s : List Char) : Option (Tree × List Char) := (boundTree? s).map Subtype.val

def rangeAt (s : List Char) : Option (Tree × List Char) := (rangeTree? s).map Subtype.val

def plainAt (colons : Bool) (s : List Char) : Option (Tree × List Char) :=
  (plainTree? colons s).map Subtype.val

def afterAt (op : OperatorMark) (s : List Char) : Option (List Char) :=
  (afterOperator? op s).map Subtype.val

def enclosedAt (total : Nat) (s : List Char) : Option (Tree × List Char) :=
  (enclosed? total s).map Subtype.val

def elementAt (total : Nat) (s : List Char) : Option (Tree × List Char) :=
  (element? total s).map Subtype.val

def operandAt (total : Nat) (s : List Char) : Option (Tree × List Char) :=
  (operand? total s).map Subtype.val

def conjunctsAt (total : Nat) (s : List Char) : Option (List Tree × List Char) :=
  (conjuncts? total s).map Subtype.val

def membersAt (total : Nat) (s : List Char) : Option (List Tree × List Char) :=
  (juxtaposed? total s).map Subtype.val

def disjunctsAt (total : Nat) (s : List Char) : Option (List Tree × List Char) :=
  (disjuncts? total s).map Subtype.val

/-- The conjuncts behind the first one. -/
def moreConjuncts (total : Nat) (s : List Char) : List Tree × List Char :=
  ((afterAt .and s).bind (conjunctsAt total)).getD ([], s)

/-- The members of a juxtaposition behind the first one. -/
def moreMembers (total : Nat) (s : List Char) : List Tree × List Char :=
  (membersAt total s).getD ([], s)

/-- The disjuncts behind the first one. -/
def moreDisjuncts (total : Nat) (s : List Char) : List Tree × List Char :=
  ((afterAt .or s).bind (disjunctsAt total)).getD ([], s)

lemma prefixAt_eq (s : List Char) : prefixAt s =
    ((keyword? "NOT" s).map fun r => (.not, r)).or
      (match s with
      | '+' :: r => some (.plus, r)
      | '-' :: r => some (.minus, r)
      | _ => none) := by
  unfold prefixAt prefixOp?
  split
  · rename_i r h
    simp [h]
  · rename_i h
    simp only [h, Option.map_none, Option.none_or]
    cases s with
    | nil => rfl
    | cons c t =>
      by_cases hplus : c = '+'
      · subst hplus
        rfl
      · by_cases hminus : c = '-'
        · subst hminus
          rfl
        · split <;> simp_all

lemma afterAt_eq (op : OperatorMark) (s : List Char) : afterAt op s = op.read? (skipGap s) := by
  unfold afterAt afterOperator?
  split
  · rename_i r h
    simp [h]
  · rename_i h
    simp [h]

lemma boundAt_eq (s : List Char) : boundAt s =
    ((phrase? s).map fun x => (.phrase x.1, x.2)).or
      ((bound? s).map fun x => (.word x.1, x.2)) := by
  unfold boundAt boundTree? phraseTree?
  split
  · rename_i h
    simp [h]
  · rename_i h
    simp only [h, Option.orElse_none]
    split
    · rename_i h'
      simp [h']
    · rename_i h'
      simp [h']

lemma length_lt_of_boundAt {s r : List Char} {tree : Tree} (h : boundAt s = some (tree, r)) :
    r.length < s.length := by
  obtain ⟨⟨x, hx⟩, -, rfl⟩ := Option.map_eq_some_iff.1 h
  exact hx

/-- What stands between the brackets of a range, and the closing bracket. -/
def interiorAt (includeLow : Bool) (s : List Char) : Option (Tree × List Char) :=
  (boundAt (skipGap s)).bind fun low => (keyword? "TO" (skipGap low.2)).bind fun r =>
    (boundAt (skipGap r)).bind fun high =>
      match skipGap high.2 with
      | ']' :: r => some (.range low.1 high.1 includeLow true, r)
      | '\x7d' :: r => some (.range low.1 high.1 includeLow false, r)
      | _ => none

lemma length_interiorAt_le {includeLow : Bool} {s r : List Char} {tree : Tree}
    (h : interiorAt includeLow s = some (tree, r)) : r.length ≤ s.length := by
  unfold interiorAt at h
  simp only [Option.bind_eq_some_iff, Prod.exists] at h
  obtain ⟨low, r₁, hlow, r₂, hto, high, r₃, hhigh, h⟩ := h
  have h₁ := length_lt_of_boundAt hlow
  have h₂ := length_lt_of_keyword? (by decide) hto
  have h₃ := length_lt_of_boundAt hhigh
  have g₀ := length_skipGap_le s
  have g₁ := length_skipGap_le r₁
  have g₂ := length_skipGap_le r₂
  have g₃ := length_skipGap_le r₃
  split at h
  · rename_i hend
    cases h
    simp only [hend, List.length_cons] at g₃
    omega
  · rename_i hend
    cases h
    simp only [hend, List.length_cons] at g₃
    omega
  · cases h

lemma rangeAt_eq (s : List Char) : rangeAt s =
    match s with
    | '[' :: r => interiorAt true r
    | '\x7b' :: r => interiorAt false r
    | _ => none := by
  have hcheck : ∀ {s : List Char} {found : Option (Tree × List Char)},
      (∀ x, found = some x → x.2.length < s.length) →
      (found.bind (Reading.check? s)).map Subtype.val = found := by
    intro s found hlt
    cases found with
    | none => rfl
    | some x => simp [Reading.check?, hlt x rfl]
  have hinterior : ∀ includeLow r, interiorAt includeLow r =
      (boundTree? (skipGap r)).bind fun low => (keyword? "TO" (skipGap low.1.2)).bind fun r =>
        (boundTree? (skipGap r)).bind fun high =>
          match skipGap high.1.2 with
          | ']' :: r => some (.range low.1.1 high.1.1 includeLow true, r)
          | '\x7d' :: r => some (.range low.1.1 high.1.1 includeLow false, r)
          | _ => none := by
    intro includeLow r
    simp only [interiorAt, boundAt, Option.bind_map]
    rfl
  unfold rangeAt rangeTree?
  dsimp only
  split
  · rename_i r
    refine Eq.trans (hcheck fun x h => ?_) (hinterior true r).symm
    exact Nat.lt_succ_of_le (length_interiorAt_le ((hinterior true r).trans h))
  · rename_i r
    refine Eq.trans (hcheck fun x h => ?_) (hinterior false r).symm
    exact Nat.lt_succ_of_le (length_interiorAt_le ((hinterior false r).trans h))
  · simp

lemma plainAt_eq (colons : Bool) (s : List Char) : plainAt colons s =
    ((rangeAt s).or ((phrase? s).map fun x => (.phrase x.1, x.2))).or
      ((term? colons s).map fun x => (.word x.1, x.2)) := by
  unfold plainAt plainTree? rangeAt
  cases rangeTree? s with
  | some x => rfl
  | none =>
    simp only [Option.orElse_none, Option.map_none, Option.none_or]
    unfold phraseTree? termTree?
    split
    · rename_i h
      simp [h]
    · rename_i h
      simp only [h, Option.orElse_none]
      split
      · rename_i h'
        simp [h']
      · rename_i h'
        simp [h']

lemma enclosedAt_eq (total : Nat) (s : List Char) : enclosedAt total s =
    match s with
    | '(' :: r => (disjunctsAt total r).bind fun x =>
      match skipGap x.2 with
      | ')' :: r => some (Tree.ofOperands .or x.1, r)
      | _ => none
    | _ => none := by
  unfold enclosedAt
  rw [enclosed?.eq_def]
  split
  · rename_i r
    simp only [disjunctsAt]
    cases disjuncts? total r with
    | none => rfl
    | some x =>
      obtain ⟨⟨trees, r'⟩, hlt⟩ := x
      simp only [Option.map_some, Option.bind_some]
      split
      · rename_i h
        simp [h]
      · rename_i hne
        split
        · rename_i r'' h
          exact absurd h (hne r'')
        · rfl
  · simp

/-- The value of a field. -/
def valueAt (total : Nat) (s : List Char) : Option (Tree × List Char) :=
  ((enclosedAt total s).map fun x => (.fieldGroup x.1, x.2)).or (plainAt true s)

/-- An element that is not a field. -/
def unnamedAt (total : Nat) (s : List Char) : Option (Tree × List Char) :=
  ((enclosedAt total s).map fun x => (.group x.1, x.2)).or (plainAt false s)

lemma elementAt_eq (total : Nat) (s : List Char) : elementAt total s =
    ((headAt s).bind fun x => (valueAt total (skipGap x.2)).map fun y =>
      (.field x.1 y.1 ⟨total - byteLength s, total - byteLength y.2⟩, y.2)).or
      (unnamedAt total s) := by
  unfold elementAt headAt valueAt unnamedAt enclosedAt plainAt
  rw [element?.eq_def]
  cases fieldHead? s with
  | none => cases enclosed? total s <;> rfl
  | some x =>
    obtain ⟨⟨name, r⟩, hlt⟩ := x
    simp only [Option.map_some, Option.bind_some]
    cases enclosed? total (skipGap r) with
    | some y => rfl
    | none =>
      cases plainTree? true (skipGap r) with
      | some y => rfl
      | none => cases enclosed? total s <;> rfl

lemma operandAt_eq (total : Nat) (s : List Char) : operandAt total s =
    ((prefixAt (skipGap s)).bind fun x => (operandAt total x.2).map fun y =>
      (.prefixed x.1 y.1, y.2)).or
      ((elementAt total (skipGap s)).map fun x => modifiers x.1 x.2) := by
  conv_lhs => rw [operandAt, operand?.eq_def]
  unfold operandAt prefixAt elementAt
  cases prefixOp? (skipGap s) with
  | none => cases element? total (skipGap s) <;> rfl
  | some x =>
    simp only [Option.map_some, Option.bind_some]
    cases operand? total x.1.2 with
    | some y => rfl
    | none => cases element? total (skipGap s) <;> rfl

lemma conjunctsAt_eq (total : Nat) (s : List Char) : conjunctsAt total s =
    (operandAt total s).map fun x =>
      (x.1 :: (moreConjuncts total x.2).1, (moreConjuncts total x.2).2) := by
  conv_lhs => rw [conjunctsAt, conjuncts?.eq_def]
  unfold operandAt moreConjuncts
  cases operand? total s with
  | none => rfl
  | some x =>
    obtain ⟨⟨first, r⟩, hlt⟩ := x
    dsimp only [Option.map_some]
    unfold afterAt
    cases afterOperator? .and r with
    | none => rfl
    | some y =>
      simp only [Option.map_some, Option.bind_some]
      unfold conjunctsAt
      cases conjuncts? total y.1 <;> rfl

lemma membersAt_eq (total : Nat) (s : List Char) : membersAt total s =
    (conjunctsAt total s).map fun x =>
      (Tree.ofOperands .and x.1 :: (moreMembers total x.2).1, (moreMembers total x.2).2) := by
  conv_lhs => rw [membersAt, juxtaposed?.eq_def]
  unfold conjunctsAt moreMembers
  cases conjuncts? total s with
  | none => rfl
  | some x =>
    obtain ⟨⟨trees, r⟩, hlt⟩ := x
    dsimp only [Option.map_some]
    unfold membersAt
    cases juxtaposed? total r <;> rfl

lemma disjunctsAt_eq (total : Nat) (s : List Char) : disjunctsAt total s =
    (membersAt total s).map fun x =>
      (Tree.ofOperands .implicit x.1 :: (moreDisjuncts total x.2).1,
        (moreDisjuncts total x.2).2) := by
  conv_lhs => rw [disjunctsAt, disjuncts?.eq_def]
  unfold membersAt moreDisjuncts
  cases juxtaposed? total s with
  | none => rfl
  | some x =>
    obtain ⟨⟨trees, r⟩, hlt⟩ := x
    dsimp only [Option.map_some]
    unfold afterAt
    cases afterOperator? .or r with
    | none => rfl
    | some y =>
      simp only [Option.map_some, Option.bind_some]
      unfold disjunctsAt
      cases disjuncts? total y.1 <;> rfl

lemma ofChars?_eq (s : List Char) : Tree.ofChars? s = (disjunctsAt (byteLength s) s).bind fun x =>
    if skipGap x.2 = [] then some (Tree.ofOperands .or x.1) else none := by
  unfold Tree.ofChars? disjunctsAt
  cases disjuncts? (byteLength s) s <;> rfl

end SkyResolver.Query
