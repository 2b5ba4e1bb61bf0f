import Chiptune.Binary64.PowerOfTwo
import Chiptune.Proofs.Binary64.Ratio

/-!
# Powers of two that are zero

A power of two is a float above zero as long as the least float is not too large for it. From an
exponent of -1075 downwards the nearest float is zero: at -1075 itself, which is half way to the
least float, zero is the even one (`view_powDyadic_of_le`). A sixteenth above it the power is nearer
to the least float (`view_powDyadic_of_ge`).

The power is the sum of a series, so this needs bounds for the series: the sum is at least its first
two terms, and below two. The same bounds give a float for every power that is not too large
(`exists_powDyadic_le`).
-/

namespace Chiptune
namespace Binary64

/-! ## The series -/

theorem sumTerms_mono {argument argument' : Nat} (h : argument ≤ argument') (fuel k : Nat)
    {term term' : Nat} (hterm : term ≤ term') :
    sumTerms argument fuel k term ≤ sumTerms argument' fuel k term' := by
  induction fuel generalizing k term term' with
  | zero => exact le_rfl
  | succ fuel ih =>
    exact Nat.add_le_add hterm (ih (k + 1) (Nat.div_le_div_right (Nat.mul_le_mul hterm h)))

theorem expSeries_lt {argument : Nat} (h : argument ≤ logTwo) : expSeries argument < 2 ^ 161 := by
  have hlast : expSeries logTwo < 2 ^ 161 := by decide +kernel
  exact (sumTerms_mono h 60 1 le_rfl).trans_lt hlast

theorem le_expSeries (argument : Nat) : 2 ^ 160 + argument ≤ expSeries argument := by
  have hsecond : Nat.pow 2 seriesBits * argument / (Nat.pow 2 seriesBits * 1) = argument := by
    rw [mul_one]
    exact Nat.mul_div_cancel_left argument (Nat.two_pow_pos _)
  show 2 ^ 160 + argument ≤ Nat.pow 2 seriesBits + (Nat.pow 2 seriesBits * argument /
    (Nat.pow 2 seriesBits * 1) + sumTerms argument 58 3 _)
  rw [hsecond]
  exact Nat.add_le_add_left (Nat.le_add_right _ _) _

/-! ## Whole and fractional part -/

theorem Dyadic.value_negSucc (m : Int) (e : Nat) :
    Dyadic.value ⟨m, .negSucc e⟩ = m / 2 ^ (e + 1) := by
  rw [value, zpow_negSucc]
  rfl

/-- What is behind the point, in units of the exponent. -/
theorem Dyadic.value_eq_floor_add (m : Int) (e : Nat) :
    Dyadic.value ⟨m, .negSucc e⟩ =
      Dyadic.floor ⟨m, .negSucc e⟩ + (m % 2 ^ (e + 1) : Int) / (2 ^ (e + 1) : ℚ) := by
  have hsplit : ((m / 2 ^ (e + 1) * 2 ^ (e + 1) + m % 2 ^ (e + 1) : Int) : ℚ) = m :=
    congrArg _ (Int.ediv_mul_add_emod m (2 ^ (e + 1)))
  have hpos : (0 : ℚ) < 2 ^ (e + 1) := by positivity
  have hfloor : Dyadic.floor ⟨m, .negSucc e⟩ = m / 2 ^ (e + 1) := by
    simp [floor]
  rw [value_negSucc, hfloor, add_div' _ _ _ hpos.ne', ← hsplit]
  push_cast
  rfl

theorem Dyadic.value_ofNat (m : Int) (e : Nat) :
    Dyadic.value ⟨m, .ofNat e⟩ = Dyadic.floor ⟨m, .ofNat e⟩ := by
  simp [value, floor]

theorem Dyadic.floor_le (d : Dyadic) : (d.floor : ℚ) ≤ d.value := by
  obtain ⟨m, e⟩ := d
  cases e with
  | ofNat e => rw [value_ofNat]
  | negSucc e =>
    rw [value_eq_floor_add]
    have hrem : (0 : ℚ) ≤ (m % 2 ^ (e + 1) : Int) := by
      exact_mod_cast Int.emod_nonneg m (by positivity)
    have : (0 : ℚ) ≤ (m % 2 ^ (e + 1) : Int) / (2 ^ (e + 1) : ℚ) := by positivity
    linarith

theorem Dyadic.le_ceil (d : Dyadic) : d.value ≤ d.ceil := by
  have hfloor := floor_le ⟨-d.mantissa, d.exponent⟩
  have hneg : value ⟨-d.mantissa, d.exponent⟩ = -d.value := by simp [value]
  unfold ceil
  push_cast
  linarith

theorem Dyadic.lt_floor_add_one (d : Dyadic) : d.value < d.floor + 1 := by
  obtain ⟨m, e⟩ := d
  cases e with
  | ofNat e =>
    rw [value_ofNat]
    linarith
  | negSucc e =>
    rw [value_eq_floor_add]
    have hpos : (0 : ℚ) < 2 ^ (e + 1) := by positivity
    have hrem : ((m % 2 ^ (e + 1) : Int) : ℚ) < 2 ^ (e + 1) := by
      exact_mod_cast Int.emod_lt_of_pos m (by positivity)
    linarith [(div_lt_one hpos).mpr hrem]

/-! ## The least floats -/

theorem representable_least : Representable (2 ^ (-1074 : Int)) := by
  have hfits : Fits 1 (-1074) := ⟨by decide, le_rfl, Or.inr rfl⟩
  simpa using representable_of_fits hfits

theorem least_le {v : ℚ} (hv : Representable v) (hpos : 0 < v) : 2 ^ (-1074 : Int) ≤ v := by
  obtain ⟨m, e, hfits, habs⟩ := hv
  rw [abs_of_pos hpos] at habs
  have hm : 1 ≤ m := by
    rcases Nat.eq_zero_or_pos m with rfl | hm
    · rw [Nat.cast_zero, zero_mul] at habs
      exact absurd habs hpos.ne'
    · exact hm
  calc (2 : ℚ) ^ (-1074 : Int) ≤ 2 ^ e := zpow_le_zpow_right₀ one_le_two hfits.exponent_ge
    _ ≤ m * 2 ^ e := le_mul_of_one_le_left (by positivity) (by exact_mod_cast hm)
    _ = v := habs.symm

/-- Below half of the least float, the nearest is zero. -/
theorem Nearest.eq_zero {q r : ℚ} (h : Nearest q r) (hr : Representable r) (hq : 0 ≤ q)
    (hlt : 2 * q < 2 ^ (-1074 : Int)) : r = 0 := by
  have hnonneg : 0 ≤ r := (h.adjoins 0 representable_zero).1 hq
  have hzero := h 0 representable_zero
  rw [sub_zero, abs_of_nonneg hq] at hzero
  have hle : r ≤ 2 * q := by linarith [neg_abs_le (q - r)]
  by_contra hne
  exact absurd (least_le hr (lt_of_le_of_ne hnonneg (Ne.symm hne))) (by linarith)

/-- Above half of it, it is not. -/
theorem Nearest.least_le {q r : ℚ} (h : Nearest q r) (hr : Representable r)
    (hlt : 2 ^ (-1074 : Int) < 2 * q) : 2 ^ (-1074 : Int) ≤ r := by
  have hunit : (0 : ℚ) < 2 ^ (-1074 : Int) := by positivity
  have hnonneg : 0 ≤ r := (h.adjoins 0 representable_zero).1 (by linarith)
  refine Binary64.least_le hr (lt_of_le_of_ne hnonneg fun hzero => ?_)
  -- Were it zero, the least float would be nearer.
  have hleast := h _ representable_least
  rw [← hzero, sub_zero, abs_of_nonneg (by linarith)] at hleast
  rcases le_total (2 ^ (-1074 : Int)) q with hle | hge
  · rw [abs_of_nonneg (by linarith)] at hleast
    linarith
  · rw [abs_of_nonpos (by linarith)] at hleast
    linarith

/-! ## Powers -/

/-- The power of the fractional part of an exponent, in units of `2 ^ -160`. -/
def fractionPower (x : Dyadic) : Nat :=
  expSeries (match x.exponent with
    | .ofNat _ => 0
    | .negSucc e => (x.mantissa % Nat.pow 2 (e + 1)).toNat * logTwo / Nat.pow 2 (e + 1))

theorem fractionPower_lt (x : Dyadic) : fractionPower x < 2 ^ 161 := by
  obtain ⟨m, e⟩ := x
  refine expSeries_lt ?_
  cases e with
  | ofNat e => exact Nat.zero_le _
  | negSucc e =>
    have hrem : (m % (Nat.pow 2 (e + 1) : Nat)).toNat ≤ Nat.pow 2 (e + 1) := by
      have hpos : (0 : Int) < (Nat.pow 2 (e + 1) : Nat) := by exact_mod_cast Nat.two_pow_pos (e + 1)
      have := Int.emod_lt_of_pos m hpos
      omega
    refine Nat.div_le_of_le_mul ?_
    exact Nat.mul_le_mul_right _ hrem

theorem le_fractionPower (x : Dyadic) : 2 ^ 160 ≤ fractionPower x :=
  (Nat.le_add_right _ _).trans (le_expSeries _)

theorem fractionPower_of_whole {x : Dyadic} (h : x.value = x.floor) :
    fractionPower x = 2 ^ 160 := by
  have hzero : expSeries 0 = 2 ^ 160 := by decide +kernel
  obtain ⟨m, e⟩ := x
  cases e with
  | ofNat e => exact hzero
  | negSucc e =>
    rw [Dyadic.value_eq_floor_add, add_eq_left, div_eq_zero_iff] at h
    have hrem : m % 2 ^ (e + 1) = 0 := by
      exact_mod_cast h.resolve_right (by positivity)
    have hcast : ((Nat.pow 2 (e + 1) : Nat) : Int) = 2 ^ (e + 1) := by simp
    unfold fractionPower
    simp only
    rw [hcast, hrem, Int.toNat_zero, zero_mul, Nat.zero_div]
    exact hzero

/-- What is a sixteenth past a whole number has a power above one. -/
theorem lt_fractionPower {x : Dyadic} (h : x.floor + 1 / 16 ≤ x.value) :
    2 ^ 160 < fractionPower x := by
  obtain ⟨m, e⟩ := x
  refine lt_of_lt_of_le ?_ (le_expSeries _)
  cases e with
  | ofNat e =>
    rw [Dyadic.value_ofNat] at h
    linarith
  | negSucc e =>
    rw [Dyadic.value_eq_floor_add] at h
    have hpos : (0 : ℚ) < 2 ^ (e + 1) := by positivity
    have hrem : (1 : ℚ) / 16 ≤ (m % 2 ^ (e + 1) : Int) / (2 ^ (e + 1) : ℚ) := by linarith
    rw [div_le_div_iff₀ (by norm_num) hpos] at hrem
    have hremInt : (2 ^ (e + 1) : Int) ≤ m % 2 ^ (e + 1) * 16 := by
      have : ((1 * 2 ^ (e + 1) : Int) : ℚ) ≤ ((m % 2 ^ (e + 1) * 16 : Int) : ℚ) := by
        push_cast at hrem ⊢
        exact hrem
      have := Int.cast_le.mp this
      omega
    have hremNat : 2 ^ (e + 1) ≤ (m % (Nat.pow 2 (e + 1) : Nat)).toNat * 16 := by
      have hcast : ((Nat.pow 2 (e + 1) : Nat) : Int) = 2 ^ (e + 1) := by simp
      rw [hcast]
      zify
      omega
    have hargument : 1 ≤ (m % (Nat.pow 2 (e + 1) : Nat)).toNat * logTwo / Nat.pow 2 (e + 1) := by
      refine (Nat.le_div_iff_mul_le (Nat.two_pow_pos _)).mpr ?_
      have hlog : 16 ≤ logTwo := by decide
      calc 1 * Nat.pow 2 (e + 1) ≤ (m % (Nat.pow 2 (e + 1) : Nat)).toNat * 16 := by
            rw [one_mul]
            exact hremNat
        _ ≤ (m % (Nat.pow 2 (e + 1) : Nat)).toNat * logTwo := Nat.mul_le_mul_left _ hlog
    exact Nat.lt_add_of_pos_right hargument

theorem powDyadic?_eq {x : Dyadic} (hlow : -1100 ≤ x.floor) (hhigh : x.floor < 1024) :
    powDyadic? x = match x.floor - seriesBits with
      | .ofNat e => nearest? (fractionPower x * Nat.pow 2 e : Nat) 1
      | .negSucc e => nearest? (fractionPower x) (Nat.pow 2 (e + 1)) := by
  unfold powDyadic?
  simp only
  rw [if_neg (by omega), if_neg (by omega)]
  rfl

theorem ofQuotient_eq_ok_iff {n : Int} {den : Nat} {x : Float} :
    ofQuotient n den = .ok x ↔ nearest? n den = some x := by
  unfold ofQuotient
  cases nearest? n den <;> simp

/-- A power is the nearest float to what the series gives. -/
theorem exists_view_powDyadic {x : Dyadic} {y : Float} (hlow : -1100 ≤ x.floor)
    (h : powDyadic? x = some y) :
    ∃ d, view y = .finite d ∧ Nearest (fractionPower x * 2 ^ (x.floor - 160)) d.value := by
  have hhigh : x.floor < 1024 := by
    by_contra hlarge
    unfold powDyadic? at h
    simp only at h
    rw [if_pos (by omega)] at h
    cases h
  rw [powDyadic?_eq hlow hhigh] at h
  have hbits : ((seriesBits : Nat) : Int) = 160 := rfl
  rw [hbits] at h
  generalize x.floor - 160 = shift at h ⊢
  generalize fractionPower x = power at h ⊢
  cases shift with
  | ofNat e =>
    obtain ⟨d, hd, hnearest⟩ := exists_view_ofQuotient one_pos (ofQuotient_eq_ok_iff.mpr h)
    refine ⟨d, hd, ?_⟩
    rwa [Nat.pow_eq, Nat.cast_one, div_one, Int.cast_natCast, Nat.cast_mul, Nat.cast_pow,
      Nat.cast_ofNat, ← zpow_natCast] at hnearest
  | negSucc e =>
    obtain ⟨d, hd, hnearest⟩ := exists_view_ofQuotient (Nat.two_pow_pos (e + 1))
      (ofQuotient_eq_ok_iff.mpr h)
    refine ⟨d, hd, ?_⟩
    rwa [Int.cast_natCast, Nat.cast_pow, Nat.cast_ofNat, div_eq_mul_inv, ← zpow_negSucc] at hnearest

/-- **A power that is zero.** -/
theorem view_powDyadic_of_le {x : Dyadic} {y : Float} (hx : x.value ≤ -1075)
    (h : powDyadic? x = some y) : ∃ d, view y = .finite d ∧ d.value = 0 := by
  have hfloor : x.floor ≤ -1075 := by exact_mod_cast x.floor_le.trans hx
  rcases Int.lt_or_le x.floor (-1100) with hfar | hnear
  · unfold powDyadic? at h
    simp only at h
    rw [if_neg (by omega), if_pos hfar] at h
    cases h
    exact ⟨⟨0, -1074⟩, view_zero, by simp [Dyadic.value]⟩
  obtain ⟨d, hd, hnearest⟩ := exists_view_powDyadic hnear h
  refine ⟨d, hd, ?_⟩
  rcases hfloor.lt_or_eq with hless | hequal
  · refine hnearest.eq_zero (representable_value hd) (by positivity) ?_
    have hpower : (fractionPower x : ℚ) < 2 ^ 161 := by exact_mod_cast fractionPower_lt x
    calc 2 * ((fractionPower x : ℚ) * 2 ^ (x.floor - 160))
        < 2 * (2 ^ (161 : Int) * 2 ^ (x.floor - 160)) := by
          gcongr
          exact_mod_cast hpower
      _ = 2 ^ (1 + (161 + (x.floor - 160))) := by
          rw [zpow_add₀ two_ne_zero, zpow_add₀ two_ne_zero, zpow_one]
      _ ≤ 2 ^ (-1074 : Int) := zpow_le_zpow_right₀ one_le_two (by omega)
  · -- Half way to the least float there is no fraction, and the power is a single float.
    have hwhole : fractionPower x = 2 ^ 160 := by
      refine fractionPower_of_whole (le_antisymm (hx.trans ?_) x.floor_le)
      rw [hequal]
      norm_num
    have hwhole' : fractionPower ⟨-1075, 0⟩ = 2 ^ 160 := fractionPower_of_whole (by
      simp [Dyadic.value, Dyadic.floor])
    have hfloor' : Dyadic.floor ⟨-1075, 0⟩ = -1075 := rfl
    have hsame : powDyadic? x = powDyadic? ⟨-1075, 0⟩ := by
      rw [powDyadic?_eq (by omega) (by omega), powDyadic?_eq (by omega) (by omega), hequal, hfloor',
        hwhole, hwhole']
    have htie : (powDyadic? ⟨-1075, 0⟩).map view = some (.finite ⟨0, -1074⟩) := by decide +kernel
    rw [← hsame, h] at htie
    have hzero : View.finite d = .finite ⟨0, -1074⟩ := hd.symm.trans (Option.some.inj htie)
    cases hzero
    simp [Dyadic.value]

/-- **A power that is not zero.** -/
theorem view_powDyadic_of_ge {x : Dyadic} {y : Float} (hx : -1075 + 1 / 16 ≤ x.value)
    (h : powDyadic? x = some y) :
    ∃ d, view y = .finite d ∧ 2 ^ (-1074 : Int) ≤ d.value := by
  have hfloor : -1075 ≤ x.floor := by
    have hlt : (-1076 : ℚ) < x.floor := by linarith [x.lt_floor_add_one]
    have hlt' : (-1076 : Int) < x.floor := by exact_mod_cast hlt
    omega
  obtain ⟨d, hd, hnearest⟩ := exists_view_powDyadic (by omega) h
  refine ⟨d, hd, hnearest.least_le (representable_value hd) ?_⟩
  have hunit : (0 : ℚ) < 2 ^ (x.floor - 160) := by positivity
  have hscale : (2 : ℚ) * (2 ^ (160 : Int) * 2 ^ (x.floor - 160)) = 2 ^ (1 + x.floor) := by
    rw [← zpow_add₀ two_ne_zero, ← zpow_one_add₀ two_ne_zero]
    congr 1
    omega
  rcases hfloor.lt_or_eq with hmore | hequal
  · have hpower : (2 : ℚ) ^ (160 : Int) ≤ fractionPower x := by exact_mod_cast le_fractionPower x
    calc (2 : ℚ) ^ (-1074 : Int) < 2 ^ (1 + x.floor) := zpow_lt_zpow_right₀ one_lt_two (by omega)
      _ = 2 * (2 ^ (160 : Int) * 2 ^ (x.floor - 160)) := hscale.symm
      _ ≤ 2 * (fractionPower x * 2 ^ (x.floor - 160)) := by gcongr
  · have hpower : (2 : ℚ) ^ (160 : Int) < fractionPower x := by
      exact_mod_cast lt_fractionPower (by rw [← hequal]; push_cast; linarith)
    calc (2 : ℚ) ^ (-1074 : Int) = 2 ^ (1 + x.floor) := by rw [← hequal]; norm_num
      _ = 2 * (2 ^ (160 : Int) * 2 ^ (x.floor - 160)) := hscale.symm
      _ < 2 * (fractionPower x * 2 ^ (x.floor - 160)) := by gcongr

/-! ## Powers that are not too large -/

theorem exists_nearest?_of_lt {n den : Nat} (hden : 0 < den)
    (h : n < den * floatLimit) : ∃ y, nearest? n den = some y := by
  have hquotient := @exists_ofQuotient_iff n den hden
  rw [Int.natAbs_natCast] at hquotient
  obtain ⟨y, hy⟩ := hquotient.mpr h
  exact ⟨y, ofQuotient_eq_ok_iff.mp hy⟩

theorem exists_powDyadic {x : Dyadic} {k : Nat} (hlow : -1100 ≤ x.floor)
    (hfloor : x.floor < k) (hk : k ≤ 1023) : ∃ y, powDyadic? x = some y := by
  have hpower := fractionPower_lt x
  have hbits : ((seriesBits : Nat) : Int) = 160 := rfl
  rw [powDyadic?_eq hlow (by omega), hbits]
  generalize hshift : x.floor - 160 = shift
  generalize fractionPower x = power at hpower
  cases shift with
  | ofNat e =>
    refine exists_nearest?_of_lt one_pos ?_
    have hshift : x.floor - 160 = e := hshift
    have hexponent : 161 + e ≤ k := by omega
    calc power * 2 ^ e < 2 ^ 161 * 2 ^ e := Nat.mul_lt_mul_of_pos_right hpower (Nat.two_pow_pos e)
      _ = 2 ^ (161 + e) := (pow_add 2 161 e).symm
      _ ≤ 2 ^ k := Nat.pow_le_pow_right two_pos hexponent
      _ ≤ floatLimit := two_pow_le_floatLimit hk
      _ = 1 * floatLimit := (Nat.one_mul floatLimit).symm
  | negSucc e =>
    refine exists_nearest?_of_lt (Nat.two_pow_pos (e + 1)) ?_
    calc power < 2 ^ 161 := hpower
      _ ≤ floatLimit := two_pow_le_floatLimit (by decide)
      _ ≤ 2 ^ (e + 1) * floatLimit := Nat.le_mul_of_pos_left _ (Nat.two_pow_pos (e + 1))

/-- A power whose exponent is not too large is a float, and not above the next whole power. -/
theorem exists_powDyadic_le {x : Dyadic} {k : Nat} (hfloor : x.floor < k) (hk : k ≤ 1023) :
    ∃ y d, powDyadic? x = some y ∧ view y = .finite d ∧ 0 ≤ d.value ∧ d.value ≤ 2 ^ k := by
  rcases Int.lt_or_le x.floor (-1100) with hfar | hnear
  · refine ⟨0, ⟨0, -1074⟩, ?_, view_zero, by simp [Dyadic.value], by simp [Dyadic.value]⟩
    unfold powDyadic?
    simp only
    rw [if_neg (by omega), if_pos hfar]
  obtain ⟨y, hy⟩ := exists_powDyadic hnear hfloor hk
  obtain ⟨d, hd, hnearest⟩ := exists_view_powDyadic hnear hy
  have hnonneg : (0 : ℚ) ≤ fractionPower x * 2 ^ (x.floor - 160) :=
    mul_nonneg (Nat.cast_nonneg _) (zpow_nonneg two_pos.le _)
  refine ⟨y, d, hy, hd, (hnearest.adjoins 0 representable_zero).1 hnonneg,
    (hnearest.adjoins _ representable_two_pow).2 ?_⟩
  have hpower : (fractionPower x : ℚ) ≤ 2 ^ (161 : Int) := by exact_mod_cast (fractionPower_lt x).le
  calc (fractionPower x : ℚ) * 2 ^ (x.floor - 160)
      ≤ 2 ^ (161 : Int) * 2 ^ (x.floor - 160) := by gcongr
    _ = 2 ^ (161 + (x.floor - 160)) := (zpow_add₀ two_ne_zero _ _).symm
    _ ≤ 2 ^ (k : Int) := zpow_le_zpow_right₀ one_le_two (by omega)
    _ = 2 ^ k := zpow_natCast _ _

theorem powDyadic?_of_large {x : Dyadic} (h : 1024 ≤ x.value) : powDyadic? x = none := by
  have hlt : (1024 : ℚ) < x.floor + 1 := h.trans_lt x.lt_floor_add_one
  have hfloor : 1024 < x.floor + 1 := by exact_mod_cast hlt
  unfold powDyadic?
  simp only
  rw [if_pos (by omega)]

end Binary64
end Chiptune
