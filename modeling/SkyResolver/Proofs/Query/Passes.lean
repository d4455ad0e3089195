import SkyResolver.Query.Expansion
import SkyResolver.Proofs.Query.Revision

/-! Passes over the text of a clause. A pass goes through a text from left to right; at each place
it may find something to replace, for which it also looks at the character in front, and behind what
it found it goes on. Expansion exchanges heads in one pass and names in another. What a pass does to
a text is put together from what it does to the pieces, each of them in front of what follows it. -/
namespace SkyResolver.Query
open SkyResolver.Text

/-- The last character of a text, or of what stands in front of it. -/
def lastOf (previous : Option Char) (s : List Char) : Option Char :=
  s.foldl (fun _ c => some c) previous

@[simp] lemma lastOf_nil (previous : Option Char) : lastOf previous [] = previous := rfl

@[simp] lemma lastOf_cons (previous : Option Char) (c : Char) (s : List Char) :
    lastOf previous (c :: s) = lastOf (some c) s := rfl

@[simp] lemma lastOf_append (previous : Option Char) (s t : List Char) :
    lastOf previous (s ++ t) = lastOf (lastOf previous s) t := List.foldl_append

lemma lastOf_eq_getLast? {s : List Char} (h : s ≠ []) (previous : Option Char) :
    lastOf previous s = s.getLast? := by
  induction s generalizing previous with
  | nil => exact absurd rfl h
  | cons c s ih =>
    cases s with
    | nil => rfl
    | cons d s => rw [lastOf_cons, ih (by simp), List.getLast?_cons_cons]

/-- True when the last character of a text is a backslash that escapes nothing in it. -/
def endsEscaped : List Char → Bool
  | ['\\'] => true
  | '\\' :: _ :: s => endsEscaped s
  | _ :: s => endsEscaped s
  | [] => false

/-- What is looked for: at a place behind the given character, the text to be replaced there. -/
structure Finder where
  find : Option Char → List Char → Option (List Char)

structure Pass extends Finder where
  put : List Char → List Char

/-- Behind `previous` and in front of `r`, the pass makes the second text of the first one. -/
inductive Pass.Rewrites (pass : Pass) : Option Char → List Char → List Char → List Char → Prop where
  | nil (previous : Option Char) (r : List Char) : Rewrites pass previous [] r []
  | keep {previous : Option Char} {c : Char} {s r t : List Char}
      (hfind : pass.find previous (c :: (s ++ r)) = none) (rest : Rewrites pass (some c) s r t) :
      Rewrites pass previous (c :: s) r (c :: t)
  | swap {previous : Option Char} {old s r t : List Char}
      (hfind : pass.find previous (old ++ (s ++ r)) = some old) (hend : endsEscaped old = false)
      (rest : Rewrites pass (lastOf previous old) s r t) :
      Rewrites pass previous (old ++ s) r (pass.put old ++ t)

lemma Pass.Rewrites.append {pass : Pass} {previous : Option Char} {s s' r t t' : List Char}
    (h : pass.Rewrites previous s (s' ++ r) t) (h' : pass.Rewrites (lastOf previous s) s' r t') :
    pass.Rewrites previous (s ++ s') r (t ++ t') := by
  generalize hr : s' ++ r = u at h
  induction h with
  | nil => exact h'
  | @keep _ c s _ _ hfind _ ih =>
    subst hr
    refine .keep (s := s ++ s') ?_ (ih h' rfl)
    rwa [List.append_assoc]
  | swap hfind hend _ ih =>
    subst hr
    rw [List.append_assoc, List.append_assoc]
    rw [lastOf_append] at h'
    exact .swap (by rwa [List.append_assoc]) hend (ih h' rfl)

lemma Pass.Rewrites.of_find_none {pass : Pass} {previous : Option Char} {c : Char}
    {s r t : List Char} (h : pass.Rewrites previous (c :: s) r t)
    (hfind : pass.find previous (c :: (s ++ r)) = none) :
    ∃ t', t = c :: t' ∧ pass.Rewrites (some c) s r t' := by
  generalize hs : c :: s = s' at h
  cases h with
  | nil => cases hs
  | keep _ rest =>
    obtain ⟨rfl, rfl⟩ := List.cons.inj hs
    exact ⟨_, rfl, rest⟩
  | swap hfind' _ _ =>
    rw [← List.append_assoc, ← hs, List.cons_append, hfind] at hfind'
    cases hfind'

lemma Pass.Rewrites.of_find_some {pass : Pass} {previous : Option Char} {old s r t : List Char}
    (h : pass.Rewrites previous (old ++ s) r t) (hne : old ≠ [])
    (hfind : pass.find previous (old ++ (s ++ r)) = some old) :
    endsEscaped old = false ∧
      ∃ t', t = pass.put old ++ t' ∧ pass.Rewrites (lastOf previous old) s r t' := by
  generalize hs : old ++ s = s' at h
  cases h with
  | nil => exact absurd (List.append_eq_nil_iff.1 hs).1 hne
  | keep hfind' _ =>
    rw [← List.cons_append, ← hs, List.append_assoc, hfind] at hfind'
    cases hfind'
  | swap hfind' hend rest =>
    rw [← List.append_assoc, ← hs, List.append_assoc, hfind] at hfind'
    obtain rfl := Option.some.inj hfind'
    obtain rfl := List.append_cancel_left hs
    exact ⟨hend, _, rfl, rest⟩

/-! ### The two passes -/

def headFinder : Finder where
  find previous s :=
    if previous.all startsField then
      (afterObjectHead? s).map fun rest => s.take (s.length - rest.length)
    else none

def nameFinder (names : List (List Char)) : Finder where
  find previous s :=
    if previous.all opensName then (firstName? names s).map Prod.fst else none

/-- The exchange of heads. -/
def headPass (head : List Char) : Pass := { headFinder with put := fun _ => head }

/-- The substitution of names. -/
def namePass (names : List (List Char)) (replacement : List Char → List Char) : Pass :=
  { nameFinder names with put := replacement }

lemma afterObjectHead?_eq_some {s rest : List Char} (h : afterObjectHead? s = some rest) :
    ∃ word blanks, s = word ++ (blanks ++ ':' :: rest) ∧
      equalIgnoringCase word "object".toList = true ∧ ∀ c ∈ blanks, isBlank c = true := by
  unfold afterObjectHead? at h
  split at h
  · rename_i hword
    split at h
    · rename_i rest' hrest
      cases h
      refine ⟨s.take 6, (s.drop 6).takeWhile isBlank, ?_, hword,
        fun c hc => List.mem_takeWhile_imp hc⟩
      rw [← hrest, List.takeWhile_append_dropWhile, List.take_append_drop]
    · cases h
  · cases h

lemma headFinder_find {s old : List Char} {previous : Option Char}
    (h : headFinder.find previous s = some old) :
    previous.all startsField = true ∧ ∃ word rest, old = word ++ [':'] ∧ s = old ++ rest ∧
      afterObjectHead? s = some rest := by
  simp only [headFinder] at h
  split at h
  · rename_i hprevious
    rw [Option.map_eq_some_iff] at h
    obtain ⟨rest, hrest, rfl⟩ := h
    obtain ⟨word, blanks, hs, -, -⟩ := afterObjectHead?_eq_some hrest
    have htake : s.take (s.length - rest.length) = word ++ blanks ++ [':'] := by
      have hsplit : s = (word ++ blanks ++ [':']) ++ rest := by simp [hs]
      rw [hsplit, List.length_append, Nat.add_sub_cancel, List.take_left]
    exact ⟨hprevious, word ++ blanks, rest, htake, by rw [htake, hs]; simp, hrest⟩
  · cases h

lemma headFinder_find_ne_none {s rest : List Char} {previous : Option Char}
    (h : afterObjectHead? s = some rest) (hprevious : previous.all startsField = true) :
    headFinder.find previous s ≠ none := by
  simp [headFinder, hprevious, h]

lemma renameInnerHeads_cons (head : List Char) (c : Char) (s : List Char) :
    renameInnerHeads head (c :: s) =
      c :: match if startsField c then afterObjectHead? s else none with
        | some rest => head ++ renameInnerHeads head rest
        | none => renameInnerHeads head s := by
  conv_lhs => rw [renameInnerHeads.eq_def]
  dsimp only
  split
  · split <;> rename_i h <;> rw [h]
  · rfl

/-- Heads are exchanged as the pass says; at the first place of a text that has none in front, the
pass may also find a head. -/
lemma renameInnerHeads_eq {head s t : List Char} {previous : Option Char}
    (h : (headPass head).Rewrites previous s [] t) :
    (headFinder.find previous s = none → renameInnerHeads head s = t) ∧
      ∀ rest, afterObjectHead? s = some rest → previous.all startsField = true →
        head ++ renameInnerHeads head rest = t := by
  generalize hr : [] = r at h
  induction h with
  | nil =>
    refine ⟨fun _ => by rw [renameInnerHeads.eq_def], fun rest hrest _ => ?_⟩
    exact absurd (length_lt_of_afterObjectHead? hrest) (Nat.not_lt_zero _)
  | @keep previous c s r t hfind _ ih =>
    subst hr
    rw [List.append_nil] at hfind
    refine ⟨fun _ => ?_, fun rest hrest hprevious => ?_⟩
    · rw [renameInnerHeads_cons]
      congr 1
      by_cases hc : startsField c = true
      · rw [if_pos hc]
        cases hrest : afterObjectHead? s with
        | some rest => exact (ih rfl).2 rest hrest (by simpa using hc)
        | none => exact (ih rfl).1 (by simp [headFinder, hrest])
      · rw [if_neg hc]
        exact (ih rfl).1 (by simp [headFinder, hc])
    · exact absurd hfind (headFinder_find_ne_none hrest hprevious)
  | @swap previous old s r t hfind _ _ ih =>
    subst hr
    rw [List.append_nil] at hfind
    refine ⟨fun hnone => ?_, fun rest hrest hprevious => ?_⟩
    · exact absurd (hnone.symm.trans hfind) (by simp)
    · obtain ⟨-, word, rest', hold, hs, hrest'⟩ := headFinder_find hfind
      obtain rfl : s = rest' := List.append_cancel_left hs
      rw [hrest, Option.some.injEq] at hrest'
      rw [hrest', (ih rfl).1]
      · rfl
      · -- Behind the colon of a head no head is found.
        rw [hold, lastOf_append]
        rfl

theorem renameHead_eq {head s t : List Char} (h : (headPass head).Rewrites none s [] t) :
    renameHead head s = t := by
  unfold renameHead
  split
  · rename_i rest hrest
    exact (renameInnerHeads_eq h).2 rest hrest rfl
  · rename_i hrest
    exact (renameInnerHeads_eq h).1 (by simp [headFinder, hrest])

lemma firstName?_eq_some {names : List (List Char)} {s name r : List Char}
    (h : firstName? names s = some (name, r)) : name ∈ names ∧ name ≠ [] ∧ s = name ++ r := by
  obtain ⟨candidate, hmem, h⟩ := List.exists_of_findSome?_eq_some h
  split at h
  · cases h
  · rename_i hne
    simp only [Option.map_eq_some_iff, Prod.mk.injEq] at h
    obtain ⟨rest, hrest, rfl, rfl⟩ := h
    refine ⟨hmem, by simpa using hne, ?_⟩
    unfold afterName? at hrest
    split at hrest
    · rename_i hafter
      cases hrest
      exact afterPrefix?_eq_some_iff.1 hafter
    · rename_i c rest' hafter
      split at hrest
      · cases hrest
        exact afterPrefix?_eq_some_iff.1 hafter
      · cases hrest
    · cases hrest

lemma nameFinder_find {names : List (List Char)} {previous : Option Char} {s old : List Char}
    (h : (nameFinder names).find previous s = some old) :
    previous.all opensName = true ∧ ∃ r, firstName? names s = some (old, r) ∧ s = old ++ r := by
  simp only [nameFinder] at h
  split at h
  · rename_i hprevious
    rw [Option.map_eq_some_iff] at h
    obtain ⟨⟨name, r⟩, hfirst, rfl⟩ := h
    exact ⟨hprevious, r, hfirst, (firstName?_eq_some hfirst).2.2⟩
  · cases h

lemma replaceNamesFrom_cons (names : List (List Char)) (replacement : List Char → List Char)
    (previous : Option Char) (c : Char) (s : List Char) :
    replaceNamesFrom names replacement previous (c :: s) =
      match if previous.all opensName then firstName? names (c :: s) else none with
      | some (name, after) =>
        replacement name ++ replaceNamesFrom names replacement name.getLast? after
      | none => c :: replaceNamesFrom names replacement (some c) s := by
  rw [replaceNamesFrom]
  dsimp only
  split <;> rename_i h <;> rw [h]

theorem replaceNamesFrom_eq {names : List (List Char)} {replacement : List Char → List Char}
    {previous : Option Char} {s t : List Char}
    (h : (namePass names replacement).Rewrites previous s [] t) :
    replaceNamesFrom names replacement previous s = t := by
  generalize hr : [] = r at h
  induction h with
  | nil => rw [replaceNamesFrom]
  | @keep previous c s r t hfind _ ih =>
    subst hr
    rw [List.append_nil] at hfind
    rw [replaceNamesFrom_cons]
    by_cases hprevious : previous.all opensName = true
    · simp only [namePass, nameFinder, hprevious, if_true, Option.map_eq_none_iff] at hfind
      rw [if_pos hprevious, hfind, ih rfl]
    · rw [if_neg hprevious, ih rfl]
  | @swap previous old s r t hfind _ _ ih =>
    subst hr
    rw [List.append_nil] at hfind
    obtain ⟨hprevious, after, hfirst, hs⟩ := nameFinder_find hfind
    obtain rfl : s = after := List.append_cancel_left hs
    obtain ⟨-, hne, -⟩ := firstName?_eq_some hfirst
    obtain ⟨c, old, rfl⟩ := List.exists_cons_of_ne_nil hne
    rw [List.cons_append] at hfirst ⊢
    rw [replaceNamesFrom_cons, if_pos hprevious, hfirst]
    dsimp only
    rw [← lastOf_eq_getLast? hne previous, ih rfl]
    rfl

/-! ### Marks -/

/-- A piece of a text: a character that stays, or a text that a pass should find as a whole. -/
inductive Mark where
  | kept (c : Char)
  | found (old : List Char)

/-- The text with marks, before a pass. -/
def markedText : List Mark → List Char
  | [] => []
  | .kept c :: marks => c :: markedText marks
  | .found old :: marks => old ++ markedText marks

/-- The text with marks, behind a pass that finds all that it should and nothing else. -/
def swappedText (put : List Char → List Char) : List Mark → List Char
  | [] => []
  | .kept c :: marks => c :: swappedText put marks
  | .found old :: marks => put old ++ swappedText put marks

/-- What is found is exactly what is marked. -/
def Finder.Fires (finder : Finder) (r : List Char) : Option Char → List Mark → Prop
  | _, [] => True
  | previous, .kept c :: marks =>
    finder.find previous (c :: (markedText marks ++ r)) = none ∧ finder.Fires r (some c) marks
  | previous, .found old :: marks =>
    (finder.find previous (old ++ (markedText marks ++ r)) = some old ∧ endsEscaped old = false) ∧
      finder.Fires r (lastOf previous old) marks

instance Finder.decidableFires (finder : Finder) (r : List Char) : (previous : Option Char) →
    (marks : List Mark) → Decidable (finder.Fires r previous marks)
  | _, [] => inferInstanceAs (Decidable True)
  | _, .kept c :: marks =>
    have := finder.decidableFires r (some c) marks
    inferInstanceAs (Decidable (_ ∧ _))
  | previous, .found old :: marks =>
    have := finder.decidableFires r (lastOf previous old) marks
    inferInstanceAs (Decidable ((_ ∧ _) ∧ _))

@[simp] lemma markedText_append (marks marks' : List Mark) :
    markedText (marks ++ marks') = markedText marks ++ markedText marks' := by
  induction marks with
  | nil => rfl
  | cons mark marks ih => cases mark <;> simp [markedText, ih]

@[simp] lemma swappedText_append (put : List Char → List Char) (marks marks' : List Mark) :
    swappedText put (marks ++ marks') = swappedText put marks ++ swappedText put marks' := by
  induction marks with
  | nil => rfl
  | cons mark marks ih => cases mark <;> simp [swappedText, ih]

lemma Finder.fires_append {finder : Finder} {r : List Char} {previous : Option Char}
    {marks marks' : List Mark} : finder.Fires r previous (marks ++ marks') ↔
      finder.Fires (markedText marks' ++ r) previous marks ∧
        finder.Fires r (lastOf previous (markedText marks)) marks' := by
  induction marks generalizing previous with
  | nil => simp [Finder.Fires, markedText]
  | cons mark marks ih => cases mark <;> simp [Finder.Fires, markedText, ih, and_assoc]

theorem Finder.Fires.rewrites {pass : Pass} {r : List Char} {previous : Option Char}
    {marks : List Mark} (h : pass.Fires r previous marks) :
    pass.Rewrites previous (markedText marks) r (swappedText pass.put marks) := by
  induction marks generalizing previous with
  | nil => exact .nil previous r
  | cons mark marks ih =>
    cases mark with
    | kept c => exact .keep h.1 (ih h.2)
    | found old => exact .swap h.1.1 h.1.2 (ih h.2)

/-- All characters of a text stay. -/
def keepAll (s : List Char) : List Mark := s.map .kept

@[simp] lemma markedText_keepAll (s : List Char) : markedText (keepAll s) = s := by
  induction s with
  | nil => rfl
  | cons c s ih => exact congrArg (c :: ·) ih

@[simp] lemma swappedText_keepAll (put : List Char → List Char) (s : List Char) :
    swappedText put (keepAll s) = s := by
  induction s with
  | nil => rfl
  | cons c s ih => exact congrArg (c :: ·) ih

/-- Nothing is found if nothing is found at any place. -/
lemma Finder.fires_keepAll_iff {finder : Finder} {r : List Char} {previous : Option Char}
    {s : List Char} : finder.Fires r previous (keepAll s) ↔
      ∀ u c v, s = u ++ c :: v → finder.find (lastOf previous u) (c :: (v ++ r)) = none := by
  induction s generalizing previous with
  | nil => simp [keepAll, Finder.Fires]
  | cons c s ih =>
    have hcons : finder.Fires r previous (keepAll (c :: s)) ↔
        finder.find previous (c :: (s ++ r)) = none ∧ finder.Fires r (some c) (keepAll s) := by
      rw [keepAll, List.map_cons, Finder.Fires, ← keepAll, markedText_keepAll]
    rw [hcons, ih]
    constructor
    · rintro ⟨hfind, hrest⟩ (_ | ⟨d, u⟩) e v h
      · obtain ⟨rfl, rfl⟩ := List.cons.inj h
        exact hfind
      · obtain ⟨rfl, rfl⟩ := List.cons.inj h
        exact hrest u e v rfl
    · exact fun h => ⟨h [] c s rfl, fun u e v hs => h (c :: u) e v (by rw [hs]; rfl)⟩

/-! ### Rooms -/

/-- A text with the number of characters that may be replaced from each place on. -/
abbrev Rooms := List (Char × Nat)

/-- The text in the rooms. -/
def Rooms.text (rooms : Rooms) : List Char := rooms.map Prod.fst

/-- Nothing may be replaced. -/
def closed (s : List Char) : Rooms := s.map fun c => (c, 0)

/-- All up to the end may be replaced. -/
def opened : List Char → Rooms
  | [] => []
  | c :: s => (c, s.length + 1) :: opened s

/-- Wherever something is found, there is room for it, and no escape is cut off. -/
def Finder.Confined (finder : Finder) (r : List Char) : Option Char → Rooms → Prop
  | _, [] => True
  | previous, (c, room) :: rooms =>
    (∀ old ∈ finder.find previous (c :: (Rooms.text rooms ++ r)),
        old.length ≤ room ∧ endsEscaped old = false) ∧
      finder.Confined r (some c) rooms

instance Finder.decidableConfined (finder : Finder) (r : List Char) : (previous : Option Char) →
    (rooms : Rooms) → Decidable (finder.Confined r previous rooms)
  | _, [] => inferInstanceAs (Decidable True)
  | previous, (c, room) :: rooms =>
    have := finder.decidableConfined r (some c) rooms
    have : Decidable (∀ old ∈ finder.find previous (c :: (Rooms.text rooms ++ r)),
        old.length ≤ room ∧ endsEscaped old = false) :=
      match finder.find previous (c :: (Rooms.text rooms ++ r)) with
      | none => isTrue nofun
      | some old => decidable_of_iff (old.length ≤ room ∧ endsEscaped old = false) (by simp)
    inferInstanceAs (Decidable (_ ∧ _))

@[simp] lemma Rooms.text_append (rooms rooms' : Rooms) :
    Rooms.text (rooms ++ rooms') = Rooms.text rooms ++ Rooms.text rooms' := List.map_append

@[simp] lemma Rooms.text_closed (s : List Char) : Rooms.text (closed s) = s := by
  simp [Rooms.text, closed, Function.comp_def]

@[simp] lemma Rooms.text_opened (s : List Char) : Rooms.text (opened s) = s := by
  induction s with
  | nil => rfl
  | cons c s ih => exact congrArg (c :: ·) ih

lemma Finder.confined_append {finder : Finder} {r : List Char} {previous : Option Char}
    {rooms rooms' : Rooms} : finder.Confined r previous (rooms ++ rooms') ↔
      finder.Confined (Rooms.text rooms' ++ r) previous rooms ∧
        finder.Confined r (lastOf previous (Rooms.text rooms)) rooms' := by
  induction rooms generalizing previous with
  | nil => simp [Finder.Confined, Rooms.text]
  | cons room rooms ih =>
    have := @ih (some room.1)
    simp only [List.cons_append, Finder.Confined, this, Rooms.text_append,
      List.append_assoc, and_assoc]
    rfl

lemma opened_append (s t : List Char) : ∃ rooms, Rooms.text rooms = s ∧
    opened (s ++ t) = rooms ++ opened t := by
  induction s with
  | nil => exact ⟨[], rfl, rfl⟩
  | cons c s ih =>
    obtain ⟨rooms, htext, hopened⟩ := ih
    exact ⟨(c, (s ++ t).length + 1) :: rooms, by rw [← htext]; rfl, by simp [opened, hopened]⟩

/-- What a pass needs for its results to be lexemes: what it finds is there, it finds nothing behind
a character that may be in the middle of a lexeme, and it puts digits. -/
structure Pass.Gentle (pass : Pass) : Prop where
  occurs : ∀ {previous s old}, pass.find previous s = some old → old ≠ [] ∧ ∃ r, s = old ++ r
  apart : ∀ {previous s old}, pass.find previous s = some old → previous.all opensName = true
  digits : ∀ old, pass.put old ≠ [] ∧ ∀ c ∈ pass.put old, c.isDigit = true

lemma Finder.Confined.closed {pass : Pass} (hpass : pass.Gentle) {r s : List Char}
    {previous : Option Char} (h : pass.Confined r previous (closed s)) :
    pass.Rewrites previous s r s := by
  induction s generalizing previous with
  | nil => exact .nil previous r
  | cons c s ih =>
    obtain ⟨hroom, h⟩ := h
    rw [← Query.closed, Rooms.text_closed] at hroom
    refine .keep ?_ (ih h)
    cases hfind : pass.find previous (c :: (s ++ r)) with
    | none => rfl
    | some old =>
      obtain ⟨hlength, -⟩ := hroom old hfind
      exact absurd (List.eq_nil_of_length_eq_zero (Nat.le_zero.1 hlength)) (hpass.occurs hfind).1

lemma Finder.Confined.opened {pass : Pass} (hpass : pass.Gentle) {r s : List Char}
    {previous : Option Char} (h : pass.Confined r previous (opened s)) :
    ∃ t, pass.Rewrites previous s r t := by
  induction hn : s.length using Nat.strong_induction_on generalizing s previous with
  | h n ih =>
    cases s with
    | nil => exact ⟨[], .nil previous r⟩
    | cons c s =>
      obtain ⟨hroom, h⟩ := h
      rw [Rooms.text_opened] at hroom
      cases hfind : pass.find previous (c :: (s ++ r)) with
      | none =>
        obtain ⟨t, ht⟩ := ih s.length (by simp [← hn]) h rfl
        exact ⟨c :: t, .keep hfind ht⟩
      | some old =>
        obtain ⟨hlength, hend⟩ := hroom old hfind
        obtain ⟨hne, rest, hrest⟩ := hpass.occurs hfind
        -- What is found lies in the text, so the text goes on behind it.
        obtain ⟨s', hs'⟩ : old <+: c :: s := by
          refine List.prefix_of_prefix_length_le ⟨rest, hrest.symm⟩ ⟨r, rfl⟩ ?_
          simpa using hlength
        obtain ⟨d, old, rfl⟩ := List.exists_cons_of_ne_nil hne
        rw [List.cons_append, List.cons.injEq] at hs'
        obtain ⟨rfl, rfl⟩ := hs'
        obtain ⟨rooms, htext, hopened⟩ := opened_append old s'
        rw [hopened, Finder.confined_append, htext] at h
        obtain ⟨t, ht⟩ :=
          ih s'.length (by simp only [← hn, List.length_cons, List.length_append]; omega) h.2 rfl
        refine ⟨pass.put (d :: old) ++ t, ?_⟩
        rw [← List.cons_append]
        exact .swap (by simpa using hfind) hend ht

end SkyResolver.Query
