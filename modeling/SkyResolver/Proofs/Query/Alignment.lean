import SkyResolver.Proofs.Query.Passes

/-! Lexemes under a pass. A pass that puts digits for names makes words of words, bounds of bounds
and phrases of phrases, as long as it cuts off no escape: what it finds starts behind a character
that is not in the middle of anything, so it starts and ends between the units of the lexeme, and no
keyword comes of digits. -/
namespace SkyResolver.Query
open SkyResolver.Text

/-! ### Units -/

lemma Units.append {ok : Char → Bool} {u v : List Char} (hu : Units ok u) (hv : Units ok v) :
    Units ok (u ++ v) := by
  induction hu with
  | nil => exact hv
  | escaped c _ ih => exact .escaped c ih
  | plain hc _ ih => exact .plain hc ih

lemma Units.tail {ok : Char → Bool} {c : Char} {s : List Char} (h : Units ok (c :: s))
    (hc : c ≠ '\\') :
    ok c = true ∧ Units ok s := by
  cases h with
  | escaped => exact absurd rfl hc
  | plain hok tail => exact ⟨hok, tail⟩

/-- A text of units can be cut where no escape is open. -/
lemma Units.split {ok : Char → Bool} (hok : ok '\\' = false) {u v : List Char}
    (h : Units ok (u ++ v)) (hu : endsEscaped u = false) : Units ok u ∧ Units ok v := by
  fun_induction endsEscaped u with
  | case1 => cases hu
  | case2 c u ih =>
    cases h with
    | escaped _ tail =>
      obtain ⟨hleft, hright⟩ := ih tail hu
      exact ⟨.escaped c hleft, hright⟩
    | plain hc _ =>
      rw [hok] at hc
      cases hc
  | case3 c u hlast hescape ih =>
    have hc : c ≠ '\\' := by
      rintro rfl
      cases u with
      | nil => exact hlast rfl rfl
      | cons d u => exact hescape d u rfl rfl
    obtain ⟨hplain, tail⟩ := h.tail hc
    obtain ⟨hleft, hright⟩ := ih tail hu
    exact ⟨.plain hplain hleft, hright⟩
  | case4 => exact ⟨.nil, h⟩

lemma Units.digits {ok : Char → Bool} (hok : ∀ c, c.isDigit = true → ok c = true) {s : List Char}
    (h : ∀ c ∈ s, c.isDigit = true) : Units ok s := by
  induction s with
  | nil => exact .nil
  | cons c s ih => exact .plain (hok c (h c (by simp))) (ih fun d hd => h d (by simp [hd]))

/-- What may stand between the quotes of a phrase without a backslash in front. -/
def inPhrase (c : Char) : Bool := c != '"' && c != '\\'

lemma phraseBody?_of_units {s : List Char} (h : Units inPhrase s) (t : List Char) :
    phraseBody? (s ++ '"' :: t) = some (s ++ ['"'], t) := by
  induction h with
  | nil => simp [phraseBody?]
  | escaped c _ ih => simp [phraseBody?, ih]
  | @plain c s hc _ ih =>
    simp only [inPhrase, Bool.and_eq_true, bne_iff_ne] at hc
    rw [List.cons_append, phraseBody?]
    · simp [ih]
    · exact fun _ _ h _ => hc.2 h
    · exact hc.1

lemma exists_units_of_phraseBody? {s body r : List Char} (h : phraseBody? s = some (body, r)) :
    ∃ u, body = u ++ ['"'] ∧ Units inPhrase u := by
  fun_induction phraseBody? s generalizing body with
  | case1 c s ih =>
    simp only [Option.map_eq_some_iff, Prod.mk.injEq] at h
    obtain ⟨⟨b, r'⟩, hb, rfl, rfl⟩ := h
    obtain ⟨u, rfl, hu⟩ := ih hb
    exact ⟨'\\' :: c :: u, rfl, .escaped c hu⟩
  | case2 s =>
    cases h
    exact ⟨[], rfl, .nil⟩
  | case3 c s hescape hquote ih =>
    simp only [Option.map_eq_some_iff, Prod.mk.injEq] at h
    obtain ⟨⟨b, r'⟩, hb, rfl, rfl⟩ := h
    obtain ⟨u, rfl, hu⟩ := ih hb
    refine ⟨c :: u, rfl, .plain ?_ hu⟩
    have hb' : c ≠ '\\' := by
      rintro rfl
      cases s with
      | nil => simp [phraseBody?] at hb
      | cons d s => exact hescape d s rfl rfl
    simpa [inPhrase, hb'] using hquote
  | case4 => cases h

lemma isPhrase_iff_units {w : List Char} :
    IsPhrase w ↔ ∃ u, w = '"' :: (u ++ ['"']) ∧ Units inPhrase u := by
  constructor
  · intro h
    obtain ⟨t, rfl⟩ := h.exists_cons
    have hbody := h []
    simp only [List.append_nil, phrase?, Option.map_eq_some_iff, Prod.mk.injEq] at hbody
    obtain ⟨⟨body, r⟩, hbody, htext, -⟩ := hbody
    obtain ⟨u, rfl, hu⟩ := exists_units_of_phraseBody? hbody
    refine ⟨u, ?_, hu⟩
    simpa using (congrArg String.toList htext).symm
  · rintro ⟨u, rfl, hu⟩ s
    simp [phrase?, phraseBody?_of_units hu]

/-! ### Behind a character in the middle of a lexeme -/

lemma not_opensName_of_isDigit {c : Char} (h : c.isDigit = true) : opensName c = false := by
  have hblank : isBlank c = false := by
    obtain ⟨hlow, hhigh⟩ := toNat_of_isDigit h
    cases hb : isBlank c
    · rfl
    · simp [isBlank] at hb
      omega
  have hne : ∀ d : Char, d.isDigit = false → c ≠ d := by
    rintro d hd rfl
    rw [h] at hd
    cases hd
  simp [opensName, hblank, hne '(' rfl, hne ':' rfl, hne '"' rfl, hne '+' rfl, hne '-' rfl]

lemma ne_of_isDigit {c : Char} (h : c.isDigit = true) : c ≠ '+' ∧ c ≠ '-' ∧ c ≠ ':' ∧ c ≠ '&' := by
  refine ⟨?_, ?_, ?_, ?_⟩ <;>
  · rintro rfl
    cases h

section Alignment
variable {pass : Pass} (hpass : pass.Gentle)
include hpass

/-- What a pass makes of the first part of a text, it also makes of it together with the rest. -/
lemma Pass.Rewrites.split {previous : Option Char} {s s' r t u : List Char}
    (h : pass.Rewrites previous s (s' ++ r) t) (hall : pass.Rewrites previous (s ++ s') r u) :
    ∃ u', u = t ++ u' ∧ pass.Rewrites (lastOf previous s) s' r u' := by
  generalize hr : s' ++ r = r' at h
  induction h generalizing u with
  | nil => exact ⟨u, rfl, hall⟩
  | keep hfind _ ih =>
    subst hr
    rw [List.cons_append] at hall
    obtain ⟨v, rfl, hv⟩ := hall.of_find_none (by rwa [List.append_assoc])
    obtain ⟨u', rfl, hrest⟩ := ih hv rfl
    exact ⟨u', rfl, hrest⟩
  | @swap _ old _ _ _ hfind _ _ ih =>
    subst hr
    rw [List.append_assoc] at hall
    obtain ⟨-, v, rfl, hv⟩ :=
      hall.of_find_some (hpass.occurs hfind).1 (by rwa [List.append_assoc])
    obtain ⟨u', rfl, hrest⟩ := ih hv rfl
    exact ⟨u', by rw [List.append_assoc], by rwa [lastOf_append]⟩

lemma Pass.Rewrites.front {d : Char} {s r t : List Char} (h : pass.Rewrites (some d) s r t)
    (hd : opensName d = false) : (s = [] ∧ t = []) ∨
      ∃ c u u', s = c :: u ∧ t = c :: u' ∧ pass.Rewrites (some c) u r u' := by
  cases h with
  | nil => exact .inl ⟨rfl, rfl⟩
  | keep _ rest => exact .inr ⟨_, _, _, rfl, rfl, rest⟩
  | swap hfind _ _ =>
    have := hpass.apart hfind
    simp [hd] at this

lemma Pass.Rewrites.units {ok : Char → Bool} (hok : ok '\\' = false)
    (hdigit : ∀ c, c.isDigit = true → ok c = true) {previous : Option Char} {s r t : List Char}
    (h : pass.Rewrites previous s r t) (hs : Units ok s) : Units ok t := by
  -- An escaped character stays, since nothing is found behind a backslash.
  have key : (Units ok s → Units ok t) ∧
      (previous = some '\\' → ∀ c u, s = c :: u → Units ok u → ∃ u', t = c :: u' ∧
        Units ok u') := by
    clear hs
    induction h with
    | nil => exact ⟨id, fun _ _ _ h => by cases h⟩
    | @keep previous c s r t _ _ ih =>
      refine ⟨fun hs => ?_, fun _ d u hcons hu => ?_⟩
      · cases hs with
        | @escaped d u tail =>
          obtain ⟨u', rfl, hu'⟩ := ih.2 rfl d u rfl tail
          exact .escaped d hu'
        | plain hc tail => exact .plain hc (ih.1 tail)
      · cases hcons
        exact ⟨t, rfl, ih.1 hu⟩
    | @swap previous old s r t hfind hend _ ih =>
      refine ⟨fun hs => ?_, fun hprevious => ?_⟩
      · exact (Units.digits hdigit (hpass.digits old).2).append (ih.1 (hs.split hok hend).2)
      · have := hpass.apart hfind
        rw [hprevious] at this
        cases this
  exact key.1 hs

lemma Pass.Rewrites.ne_nil {previous : Option Char} {s r t : List Char}
    (h : pass.Rewrites previous s r t) (hs : s ≠ []) : t ≠ [] := by
  cases h with
  | nil => exact hs
  | keep => exact List.cons_ne_nil _ _
  | swap => simp [(hpass.digits _).1]

/-- The first character stays or becomes a digit. -/
lemma Pass.Rewrites.head? {previous : Option Char} {s r t : List Char}
    (h : pass.Rewrites previous s r t) : t.head? = s.head? ∨ ∃ c, t.head? = some c ∧
    c.isDigit = true := by
  cases h with
  | nil => exact .inl rfl
  | keep => exact .inl rfl
  | @swap _ old _ _ _ hfind =>
    obtain ⟨hne, hdigits⟩ := hpass.digits old
    obtain ⟨c, new, hnew⟩ := List.exists_cons_of_ne_nil hne
    exact .inr ⟨c, by rw [hnew]; rfl, hdigits c (by simp [hnew])⟩

/-- Behind a character in the middle of a lexeme, a word goes on or does not go on as before. -/
lemma Pass.Rewrites.atWordChar {d : Char} {s r t : List Char} (h : pass.Rewrites (some d) s r t)
    (hd : opensName d = false) : atWordChar t = atWordChar s := by
  rcases h.front hpass hd with ⟨rfl, rfl⟩ | ⟨c, u, u', rfl, rfl, hrest⟩
  · rfl
  by_cases hc : c = '\\'
  · subst hc
    rcases hrest.front hpass rfl with ⟨rfl, rfl⟩ | ⟨_, _, _, rfl, rfl, -⟩ <;> rfl
  · simp [Query.atWordChar, hc]

/-- A word that starts somewhere still starts there. -/
lemma Pass.Rewrites.atWordChar_eq_true {previous : Option Char} {s r t : List Char}
    (h : pass.Rewrites previous s r t) (hs : Query.atWordChar s = true) :
    Query.atWordChar t = true := by
  cases h with
  | nil => exact hs
  | @keep _ c s _ t _ rest =>
    by_cases hc : c = '\\'
    · subst hc
      rcases rest.front hpass rfl with ⟨rfl, rfl⟩ | ⟨_, _, _, rfl, rfl, -⟩
      · exact hs
      · rfl
    · simpa [Query.atWordChar, hc] using hs
  | @swap _ old _ _ t =>
    obtain ⟨hne, hdigits⟩ := hpass.digits old
    obtain ⟨d, new, hnew⟩ := List.exists_cons_of_ne_nil hne
    rw [hnew]
    exact atWordChar_cons (isPlain_of_isDigit (hdigits d (by simp [hnew])))

/-- What is no digit was there before. -/
lemma Pass.Rewrites.kept {previous : Option Char} {c : Char} {s r t : List Char}
    (h : pass.Rewrites previous s r (c :: t)) (hc : c.isDigit = false) :
    ∃ u, s = c :: u ∧ pass.Rewrites (some c) u r t := by
  generalize ht : c :: t = t' at h
  cases h with
  | nil => cases ht
  | @keep _ _ u _ _ _ rest =>
    cases ht
    exact ⟨u, rfl, rest⟩
  | @swap _ old _ _ _ hfind =>
    obtain ⟨hne, hdigits⟩ := hpass.digits old
    obtain ⟨d, new, hnew⟩ := List.exists_cons_of_ne_nil hne
    rw [hnew, List.cons_append, List.cons.injEq] at ht
    have := hdigits d (by simp [hnew])
    rw [← ht.1, hc] at this
    cases this

lemma Pass.Rewrites.afterPrefix? {k : List Char}
    (hk : ∀ c ∈ k, opensName c = false ∧ c.isDigit = false) {previous : Option Char}
    {s r t t' : List Char} (h : pass.Rewrites previous s r t) (ht : afterPrefix? k t = some t') :
    ∃ s', Text.afterPrefix? k s = some s' ∧ pass.Rewrites (lastOf previous k) s' r t' := by
  induction k generalizing previous s t with
  | nil =>
    cases ht
    exact ⟨s, rfl, h⟩
  | cons d k ih =>
    rw [afterPrefix?_eq_some_iff, List.cons_append] at ht
    subst ht
    obtain ⟨u, rfl, hrest⟩ := h.kept hpass (hk d (by simp)).2
    obtain ⟨s', hs', hrest'⟩ := ih (fun c hc => hk c (by simp [hc])) hrest
      (afterPrefix?_eq_some_iff.2 rfl)
    exact ⟨s', by simpa [Text.afterPrefix?] using hs', hrest'⟩

/-- No keyword comes of a pass. -/
lemma Pass.Rewrites.keyword? {k : String} (hk : k = "AND" ∨ k = "OR" ∨ k = "NOT" ∨ k = "TO")
    {previous : Option Char} {s r t : List Char} (h : pass.Rewrites previous s r t)
    (hs : (keyword? k s).isSome = false) : (Query.keyword? k t).isSome = false := by
  have hletters : ∀ c ∈ k.toList, opensName c = false ∧ c.isDigit = false := by
    have : k.toList.all (fun c => !opensName c && !c.isDigit) = true := by
      rcases hk with rfl | rfl | rfl | rfl <;> rfl
    simpa using this
  have hlast : ∃ d, lastOf previous k.toList = some d ∧ opensName d = false := by
    rcases hk with rfl | rfl | rfl | rfl <;> exact ⟨_, rfl, rfl⟩
  obtain ⟨d, hlast, hd⟩ := hlast
  cases hkeyword : Query.keyword? k t with
  | none => rfl
  | some t' =>
    obtain ⟨ht, hword⟩ := keyword?_eq_some hkeyword
    obtain ⟨s', hs', hrest⟩ := h.afterPrefix? hpass hletters (afterPrefix?_eq_some_iff.2 ht)
    rw [hlast] at hrest
    rw [afterPrefix?_eq_some_iff.1 hs', keyword?_self (by rwa [← hrest.atWordChar hpass hd])] at hs
    cases hs

/-! ### Lexemes -/

theorem Pass.Rewrites.run {colons : Bool} {previous : Option Char} {s r t : List Char}
    (h : pass.Rewrites previous s r t) (hs : Run colons s) : Run colons t :=
  h.units hpass (by cases colons <;> rfl) (fun c hc => by simp [isPlain_of_isDigit hc]) hs

lemma Pass.Rewrites.atReserved {previous : Option Char} {s r t : List Char}
    (h : pass.Rewrites previous s r t) (hs : atReserved s = false) :
    Query.atReserved t = false := by
  simp only [Query.atReserved, Bool.or_eq_false_iff] at hs ⊢
  exact ⟨⟨h.keyword? hpass (by simp) hs.1.1, h.keyword? hpass (by simp) hs.1.2⟩,
    h.keyword? hpass (by simp) hs.2⟩

theorem Pass.Rewrites.isTerm {colons : Bool} {previous : Option Char} {s r t : List Char}
    (h : pass.Rewrites previous s r t) (hs : IsTerm colons s) : IsTerm colons t := by
  refine ⟨h.run hpass hs.run, h.ne_nil hpass hs.ne_nil, fun c hc => ?_, h.atReserved hpass hs.free⟩
  rcases h.head? hpass with hhead | ⟨d, hhead, hd⟩
  · exact hs.start c (hhead ▸ hc)
  · rw [hhead, Option.mem_some_iff] at hc
    subst hc
    exact ⟨(ne_of_isDigit hd).1, (ne_of_isDigit hd).2.1, (ne_of_isDigit hd).2.2.1⟩

theorem Pass.Rewrites.isBound {previous : Option Char} {s r t : List Char}
    (h : pass.Rewrites previous s r t) (hs : IsBound s) : IsBound t :=
  ⟨h.run hpass hs.run, h.ne_nil hpass hs.ne_nil, h.keyword? hpass (by simp) hs.free⟩

theorem Pass.Rewrites.isPhrase {previous : Option Char} {s r t : List Char}
    (h : pass.Rewrites previous s r t) (hs : IsPhrase ('"' :: (s ++ ['"']))) :
    IsPhrase ('"' :: (t ++ ['"'])) := by
  obtain ⟨u, hu, hunits⟩ := isPhrase_iff_units.1 hs
  obtain rfl : s = u := by simpa using hu
  refine isPhrase_iff_units.2 ⟨t, rfl, h.units hpass rfl (fun c hc => ?_) hunits⟩
  simp only [inPhrase, Bool.and_eq_true, bne_iff_ne]
  refine ⟨?_, ?_⟩ <;>
  · rintro rfl
    cases hc

/-- Behind a number no digit comes that did not come before. -/
theorem Pass.Rewrites.tamer {d : Char} {w r w' : List Char} (h : pass.Rewrites (some d) w r w')
    (hd : opensName d = false) (hne : w ≠ []) (s : List Char) {s' : List Char}
    (hs' : Query.atWordChar s' = false) : Tamer (w ++ s) (w' ++ s') := by
  rcases h.front hpass hd with ⟨rfl, -⟩ | ⟨c, u, u', rfl, rfl, hrest⟩
  · exact absurd rfl hne
  refine .cons ?_
  rintro rfl hdigit
  rcases hrest.front hpass rfl with ⟨rfl, rfl⟩ | ⟨e, v, v', rfl, rfl, -⟩
  · exact absurd hdigit (by simp [not_digitAhead_of_not_word hs'])
  · simpa [digitAhead] using hdigit

end Alignment

end SkyResolver.Query
