import SkyResolver.Proofs.Sky.Sexagesimal

/-! What stands behind the first colon of a position. It may be any text: whichever of its readings
applies, it gives a finite number, and only a number above zero is taken; otherwise the default is.
So a circle always has a radius, and its coordinate is the one that stands in front of the colon. -/
namespace SkyResolver
open SkyResolver.Number SkyResolver.Text

/-! ### Readings of a radius -/

section Readings
variable {s : List Char} {x : Float}

lemma exists_hasValue_of_readFinite? (h : readFinite? s = some x) : ∃ q, HasValue x q :=
  isFinite_iff.1 (Option.filter_eq_some_iff.1 h).2

lemma le_of_readNat? {limit n : ℕ} (h : readNat? limit s = some n) : n ≤ limit :=
  of_decide_eq_true (Option.filter_eq_some_iff.1 h).2

lemma forall_le_of_mapM {limit : ℕ} {texts : List (List Char)} {parts : List ℕ}
    (h : texts.mapM (readNat? limit) = some parts) : ∀ n ∈ parts, n ≤ limit := by
  induction texts generalizing parts with
  | nil =>
    obtain rfl : [] = parts := by simpa using h
    exact List.forall_mem_nil _
  | cons text texts ih =>
    simp only [List.mapM_cons, Option.bind_eq_bind, Option.bind_eq_some_iff, Option.pure_def,
      Option.some.injEq] at h
    obtain ⟨n, hn, rest, hrest, rfl⟩ := h
    exact List.forall_mem_cons.2 ⟨le_of_readNat? hn, ih hrest⟩

/-- Whole degrees, minutes and seconds of any size that is read make a finite number. -/
lemma exists_hasValue_of_parts {d m s : ℕ} (hd : d ≤ highestNat 32) (hm : m ≤ highestNat 32)
    (hs : s ≤ highestNat 32) :
    ∃ q, HasValue (Float.ofNat d + Float.ofNat m / 60.0 + Float.ofNat s / 3600.0) q := by
  have hlimit : highestNat 32 < 2 ^ 32 := by decide
  have hcast : ∀ {n : ℕ}, n ≤ highestNat 32 → (n : ℚ) ≤ (2 ^ 32 : ℕ) := fun hn => by
    exact_mod_cast hn.trans hlimit.le
  have hread : ∀ {n : ℕ}, n ≤ highestNat 32 → HasValue (Float.ofNat n) n :=
    fun hn => hasValue_ofNat (by omega)
  have hm₀ : 0 ≤ nearest (m / 60) := nearest_nonneg (by positivity)
  have hs₀ : 0 ≤ nearest (s / 3600) := nearest_nonneg (by positivity)
  have hm₁ : nearest (m / 60) ≤ (2 ^ 32 : ℕ) :=
    nearest_le (representable_natCast (by norm_num))
      ((div_le_self m.cast_nonneg (by norm_num)).trans (hcast hm))
  have hs₁ : nearest (s / 3600) ≤ (2 ^ 32 : ℕ) :=
    nearest_le (representable_natCast (by norm_num))
      ((div_le_self s.cast_nonneg (by norm_num)).trans (hcast hs))
  have hsum₀ : 0 ≤ nearest (d + nearest (m / 60)) := nearest_nonneg (by positivity)
  have hsum₁ : nearest (d + nearest (m / 60)) ≤ (2 ^ 33 : ℕ) :=
    nearest_le (representable_natCast (by norm_num))
      (by have := hcast hd; push_cast at this hm₁ ⊢; linarith)
  have hd₁ := hcast hd
  push_cast at hd₁ hm₁ hs₁ hsum₁
  have hminutes := (hread hm).div_of_one_le hasValue_60 (by norm_num)
  have hseconds := (hread hs).div_of_one_le hasValue_3600 (by norm_num)
  exact ⟨_,
    ((hread hd).add hminutes (abs_nearest_lt_of_le (by positivity) (by linarith))).add hseconds
    (abs_nearest_lt_of_le (by positivity) (by linarith))⟩

lemma exists_hasValue_of_radiusOfParts? {parts : List ℕ} (hparts : ∀ n ∈ parts, n ≤ highestNat 32)
    (h : radiusOfParts? parts = some x) : ∃ q, HasValue x q := by
  have hzero : 0 ≤ highestNat 32 := Nat.zero_le _
  match parts with
  | [s] =>
    obtain rfl := Option.some.inj h
    exact exists_hasValue_of_parts hzero hzero (hparts s (by simp))
  | [m, s] =>
    obtain rfl := Option.some.inj h
    exact exists_hasValue_of_parts hzero (hparts m (by simp)) (hparts s (by simp))
  | [d, m, s] =>
    obtain rfl := Option.some.inj h
    exact exists_hasValue_of_parts (hparts d (by simp)) (hparts m (by simp)) (hparts s (by simp))

/-- Whichever way a radius is read, it is a finite number. -/
theorem exists_hasValue_of_degreesIn? (h : degreesIn? s = some x) : ∃ q, HasValue x q := by
  have hdivided : ∀ {t : List Char} {y : Float} {b : ℚ}, HasValue y b → 1 ≤ b →
      (readFinite? t).map (· / y) = some x → ∃ q, HasValue x q := by
    intro t y b hy hb h
    obtain ⟨z, hz, rfl⟩ := Option.map_eq_some_iff.1 h
    obtain ⟨q, hq⟩ := exists_hasValue_of_readFinite? hz
    exact ⟨_, hq.div_of_one_le hy hb⟩
  unfold degreesIn? at h
  dsimp only at h
  split at h
  · rename_i y hy
    obtain rfl := Option.some.inj h
    exact exists_hasValue_of_readFinite? hy
  · split at h
    · exact hdivided hasValue_60 (by norm_num) h
    · split at h
      · exact hdivided hasValue_3600 (by norm_num) h
      · obtain ⟨parts, hparts, h⟩ := Option.bind_eq_some_iff.1 h
        exact exists_hasValue_of_radiusOfParts? (forall_le_of_mapM hparts) h

lemma exists_pos_of_radiusIn? (h : radiusIn? s = some x) : ∃ q, HasValue x q ∧ 0 < q := by
  obtain ⟨hread, hpos⟩ := Option.filter_eq_some_iff.1 h
  obtain ⟨q, hq⟩ := exists_hasValue_of_degreesIn? hread
  exact ⟨q, hq, (hasValue_zero.lt_iff hq).1 (of_decide_eq_true hpos)⟩

end Readings

/-! ### Positions with a radius -/

/-- The radius of a circle: what the text says, or the default. -/
def chosenRadius (default : Float) (radius : List Char) : Float := (radiusIn? radius).getD default

section Radius
variable {place : String} {default : Float}

/-- The radius is above zero, and finite if it is read from the text. -/
lemma chosenRadius_pos (hdefault : 0.0 < default) (radius : List Char) :
    0.0 < chosenRadius default radius ∧ (∀ x, radiusIn? radius = some x →
      chosenRadius default radius = x ∧ ∃ q, HasValue x q ∧ 0 < q) := by
  unfold chosenRadius
  cases hread : radiusIn? radius with
  | none => exact ⟨hdefault, fun x hx => by cases hx⟩
  | some y =>
    obtain ⟨q, hq, hpos⟩ := exists_pos_of_radiusIn? hread
    refine ⟨(hasValue_zero.lt_iff hq).2 hpos, fun x hx => ?_⟩
    obtain rfl := Option.some.inj hx
    exact ⟨rfl, q, hq, hpos⟩

/-- Any text may stand behind the colon of a position: the place in front of it is accepted as if it
stood alone, with the same coordinate, or refused for the same reason. The radius is what the text
says, if it says a number of degrees above zero, and the default otherwise, as it is for the place
alone; so it is always a number above zero. -/
theorem Position.parse_with_radius (hplace : ':' ∉ place.toList) (hdefault : 0.0 < default)
    (radius : String) :
    ((∃ c, Position.parse default place = .ok ⟨c, default⟩ ∧
        Position.parse default (place ++ ":" ++ radius) =
          .ok ⟨c, chosenRadius default radius.toList⟩) ∨
      ∃ fault, Position.parse default place = .error ⟨place, fault⟩ ∧
        Position.parse default (place ++ ":" ++ radius) = .error ⟨place ++ ":" ++ radius, fault⟩) ∧
    0.0 < chosenRadius default radius.toList ∧ (chosenRadius default radius.toList).isNaN = false ∧
    (∀ x, radiusIn? radius.toList = some x →
      chosenRadius default radius.toList = x ∧ ∃ q, HasValue x q ∧ 0 < q) ∧
    (radiusIn? radius.toList = none → chosenRadius default radius.toList = default) := by
  obtain ⟨hpos, hread⟩ := chosenRadius_pos hdefault radius.toList
  refine ⟨?_, hpos, isNaN_of_lt hpos, hread, fun hnone => by rw [chosenRadius, hnone,
    Option.getD_none]⟩
  have halone : place.toList = place.toList ++ radiusSuffix none := (List.append_nil _).symm
  have hwith : (place ++ ":" ++ radius).toList = place.toList ++ radiusSuffix
      (some radius.toList) := by
    simp [radiusSuffix]
  rw [Position.parse_eq hplace halone, Position.parse_eq hplace hwith]
  cases Coordinate.parse place.toList with
  | ok c => exact .inl ⟨c, rfl, rfl⟩
  | error fault => exact .inr ⟨fault, rfl, rfl⟩

theorem Position.parse_with_radius_of_colons : ':' ∉ "5 +7".toList ∧ (0.0 : Float) < 0.5 ∧
    ∃ c, Position.parse 0.5 "5 +7" = .ok ⟨c, 0.5⟩ ∧ Position.parse 0.5 "5 +7:1:30" = .ok ⟨c, 0.5⟩ ∧
      ∃ x, radiusIn? "90''".toList = some x ∧ (∃ q, HasValue x q ∧ 0 < q) ∧
        Position.parse 0.5 "5 +7:90''" = .ok ⟨c, x⟩ := by
  have hplace : ':' ∉ "5 +7".toList := by decide
  have hdefault : (0.0 : Float) < 0.5 := by decide +kernel
  have haccepted : (Position.parse 0.5 "5 +7").isOk = true := by decide +kernel
  have hnone : radiusIn? "1:30".toList = none := by decide +kernel
  have hsome : (radiusIn? "90''".toList).isSome = true := by decide +kernel
  obtain ⟨x, hx⟩ := Option.isSome_iff_exists.1 hsome
  obtain ⟨hcolons, -, -, -, hdefaulted⟩ := Position.parse_with_radius hplace hdefault "1:30"
  obtain ⟨hseconds, -, -, hread, -⟩ := Position.parse_with_radius hplace hdefault "90''"
  obtain ⟨hchosen, hpos⟩ := hread x hx
  rw [hdefaulted hnone] at hcolons
  rw [hchosen] at hseconds
  refine ⟨hplace, hdefault, ?_⟩
  obtain ⟨c, hc, hcolons⟩ | ⟨fault, herror, -⟩ := hcolons
  · obtain ⟨c', hc', hseconds⟩ | ⟨fault, herror, -⟩ := hseconds
    · cases hc.symm.trans hc'
      exact ⟨c, hc, hcolons, x, hx, hpos, hseconds⟩
    · cases hc.symm.trans herror
  · rw [herror] at haccepted
    cases haccepted

/-- A number below zero is no radius. -/
example : (radiusIn? "-1".toList).isNone = true := by decide +kernel

end Radius

end SkyResolver
