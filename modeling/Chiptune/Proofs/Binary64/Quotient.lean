import Chiptune.Proofs.Binary64.Rounding

/-!
# Products and quotients of floats

A product is the float nearest to the exact product, and a quotient is the one nearest to the exact
quotient (`exists_view_mul`, `exists_view_div`). Only what is past the greatest float is none.

A division cannot keep the bits of a quotient that go on for ever. It divides with a mantissa that is
long enough, and says of the remainder how it compares with a half (`Trace.of_fraction`).
-/

namespace Chiptune
namespace Binary64

open Float.Model Float.Model.UnpackedFloat

theorem signed_mul (s s' : Sign) (q q' : ℚ) :
    signed (s * s') (q * q') = signed s q * signed s' q' := by
  cases s <;> cases s'
  · show q * q' = -q * -q'
    ring
  · show -(q * q') = -q * q'
    ring
  · show -(q * q') = q * -q'
    ring
  · rfl

theorem signed_div (s s' : Sign) (q q' : ℚ) :
    signed (s / s') (q / q') = signed s q / signed s' q' := by
  cases s <;> cases s'
  · show q / q' = -q / -q'
    rw [neg_div_neg_eq]
  · show -(q / q') = -q / q'
    rw [neg_div]
  · show -(q / q') = q / -q'
    rw [div_neg]
  · rfl

/-! ## Products -/

theorem le_lastExponent_mul {m m' : Nat} {e e' : Int} (h : Fits m e) (h' : Fits m' e')
    (hm : 0 < m) (hm' : 0 < m') : e + e' ≤ lastExponent (m * m') (e + e') := by
  unfold lastExponent
  -- A product of two that are not full has the least exponent twice.
  rcases h.full_or_least with hfull | hleast
  · have hlog : 52 ≤ (m * m').log2 :=
      (Nat.le_log2 (by positivity)).mpr (hfull.trans (Nat.le_mul_of_pos_right m hm'))
    omega
  · rcases h'.full_or_least with hfull' | hleast'
    · have hlog : 52 ≤ (m * m').log2 :=
        (Nat.le_log2 (by positivity)).mpr (hfull'.trans (Nat.le_mul_of_pos_left m' hm))
      omega
    · omega

theorem rounded_mul {u v : UnpackedFloat} {a b : Dyadic} (hu : Canonical u) (hv : Canonical v)
    (ha : viewOf u = .finite a) (hb : viewOf v = .finite b) :
    Rounded (number u * number v) (UnpackedFloat.mul Format.binary64 u v) := by
  have hzero : ∀ {q : ℚ} (sign : Sign), q = 0 → Rounded q (.zero sign) := by
    rintro q sign rfl
    exact ⟨trivial, ⟨_, rfl⟩, Nearest.refl 0⟩
  cases u with
  | infinity s => cases ha
  | notANumber => cases ha
  | zero s =>
    cases v with
    | infinity s' => cases hb
    | notANumber => cases hb
    | zero s' => exact hzero _ (zero_mul _)
    | finite s' m' e' hm' => exact hzero _ (zero_mul _)
  | finite s m e hm =>
    cases v with
    | infinity s' => cases hb
    | notANumber => cases hb
    | zero s' => exact hzero _ (mul_zero _)
    | finite s' m' e' hm' =>
      have hproduct : number (.finite s m e hm) * number (.finite s' m' e' hm') =
          signed (s * s') ((m * m' : Nat) * 2 ^ (e + e')) := by
        rw [number_finite, number_finite, ← signed_mul, zpow_add₀ two_ne_zero]
        push_cast
        congr 1
        ring
      rw [hproduct]
      refine rounded_roundWithAccuracy _ (Trace.natCast _) (le_lastExponent_mul hu hv hm hm') ?_
      intro hnone
      exact absurd hnone (by positivity)

/-- **A product of numbers** is a number, if it is not too large. -/
theorem exists_view_mul {x y : Float} {a b : Dyadic} (ha : view x = .finite a)
    (hb : view y = .finite b) (hle : |a.value * b.value| ≤ 2 ^ 1023) :
    ∃ c, view (x * y) = .finite c ∧ Nearest (a.value * b.value) c.value := by
  rw [view_eq] at ha hb
  rw [value_eq_number ha, value_eq_number hb] at hle ⊢
  exact (rounded_mul (canonical_unpack _) (canonical_unpack _) ha hb).exists_view hle

theorem nearest_mul {x y : Float} {a b c : Dyadic} (ha : view x = .finite a)
    (hb : view y = .finite b) (hc : view (x * y) = .finite c) :
    Nearest (a.value * b.value) c.value := by
  rw [view_eq] at ha hb
  have hrounded := rounded_mul (canonical_unpack _) (canonical_unpack _) ha hb
  have hproduct := viewOf_of_view_pack hrounded.canonical hc
  rw [value_eq_number ha, value_eq_number hb, value_eq_number hproduct]
  exact hrounded.nearest

theorem exists_view_mul_le {x y : Float} {a b : Dyadic} {most most' : Nat}
    (ha : view x = .finite a) (hb : view y = .finite b) (ha0 : 0 ≤ a.value) (hb0 : 0 ≤ b.value)
    (hale : a.value ≤ most) (hble : b.value ≤ most') (hmost : most * most' < 2 ^ 53) :
    ∃ c, view (x * y) = .finite c ∧ 0 ≤ c.value ∧ c.value ≤ (most * most' : Nat) := by
  have hnonneg := mul_nonneg ha0 hb0
  have hle : a.value * b.value ≤ (most * most' : Nat) := by
    push_cast
    exact mul_le_mul hale hble hb0 (ha0.trans hale)
  obtain ⟨c, hc, hnearest⟩ := exists_view_mul ha hb
    (by rw [abs_of_nonneg hnonneg]; exact hle.trans (natCast_le_two_pow hmost))
  exact ⟨c, hc, hnearest.bounds hmost hnonneg hle⟩

/-! ## Quotients -/

/-- The whole part of a fraction, and what is known of the rest. -/
theorem Trace.of_fraction (num : Nat) {den : Nat} (hden : 0 < den) :
    Trace (.ofMantissaAndAccuracy (num / den) (accuracyOfFraction (num % den) den))
      (num / den : ℚ) := by
  have hpos : (0 : ℚ) < den := by exact_mod_cast hden
  have hlt : num % den < den := Nat.mod_lt num hden
  have hsplit : (num / den : ℚ) = (num / den : Nat) + (num % den : Nat) / den := by
    rw [add_div' _ _ _ hpos.ne']
    congr 1
    exact_mod_cast (Nat.div_add_mod' num den).symm
  rw [hsplit]
  generalize num % den = rest at *
  generalize num / den = low at *
  have hltq : (rest : ℚ) / den < 1 := (div_lt_one hpos).mpr (by exact_mod_cast hlt)
  unfold accuracyOfFraction
  split
  · rename_i hexact
    rw [hexact, Nat.cast_zero, zero_div, add_zero]
    exact .natCast low
  · rename_i hrest
    have hrestq : (0 : ℚ) < rest / den := div_pos (by exact_mod_cast Nat.pos_of_ne_zero hrest) hpos
    cases horder : compare (2 * rest) den with
    | lt =>
      have hless : (rest : ℚ) / den < 1 / 2 := by
        rw [div_lt_div_iff₀ hpos two_pos]
        exact_mod_cast (show rest * 2 < 1 * den by have := Nat.compare_eq_lt.mp horder; omega)
      refine ⟨?_, ?_, ?_, ?_⟩ <;> simp only [ExtendedMantissa.ofMantissaAndAccuracy]
      · linarith
      · linarith
      · simp only [Bool.false_eq_true, false_iff, not_le]
        linarith
      · simp only [Bool.true_eq_false, false_iff, not_or]
        exact ⟨by linarith, by linarith⟩
    | eq =>
      have hequal : (rest : ℚ) / den = 1 / 2 := by
        rw [div_eq_div_iff hpos.ne' two_ne_zero]
        exact_mod_cast (show rest * 2 = 1 * den by have := Nat.compare_eq_eq.mp horder; omega)
      rw [hequal]
      refine ⟨?_, ?_, ?_, ?_⟩ <;> simp only [ExtendedMantissa.ofMantissaAndAccuracy]
      · linarith
      · linarith
      · simp
      · simp
    | gt =>
      have hmore : (1 : ℚ) / 2 < rest / den := by
        rw [div_lt_div_iff₀ two_pos hpos]
        exact_mod_cast (show 1 * den < rest * 2 by have := Nat.compare_eq_gt.mp horder; omega)
      refine ⟨?_, ?_, ?_, ?_⟩ <;> simp only [ExtendedMantissa.ofMantissaAndAccuracy]
      · linarith
      · linarith
      · simp only [true_iff]
        linarith
      · simp only [Bool.true_eq_false, false_iff, not_or]
        exact ⟨by linarith, by linarith⟩

/-- The exponent that a quotient is computed with. -/
def quotientExponent (m : Nat) (e : Int) (m' : Nat) (e' : Int) : Int :=
  min (e - e') (max (m.log2 + e - (m'.log2 + e') - 53) (-1074))

theorem divCore_eq (m : Nat) (e : Int) (m' : Nat) (e' : Int) :
    divCore Format.binary64 m e m' e' =
      let units := m * 2 ^ (e - e' - quotientExponent m e m' e').toNat
      (units / m', quotientExponent m e m' e', accuracyOfFraction (units % m') m') := by
  have htarget : min (e - e') (Format.binary64.targetExponent
      (totalExponent m e - totalExponent m' e')) = quotientExponent m e m' e' := by
    show min (e - e') (max ((m.log2 + 1 + e : Int) - (m'.log2 + 1 + e') - (53 : Nat))
      (3 - 2 ^ 10 - (53 : Nat))) = _
    unfold quotientExponent
    congr 2
    omega
  unfold divCore
  simp only [htarget, Nat.shiftLeft_eq]

/-- A quotient has bits enough. -/
theorem two_pow_le_quotient {m m' j : Nat} (hm : 0 < m) (hm' : 0 < m')
    (h : m'.log2 + 53 ≤ m.log2 + j) : 2 ^ 52 ≤ m * 2 ^ j / m' := by
  refine (Nat.le_div_iff_mul_le hm').mpr ?_
  calc 2 ^ 52 * m' ≤ 2 ^ 52 * 2 ^ (m'.log2 + 1) :=
        Nat.mul_le_mul_left _ ((Nat.log2_eq_iff hm'.ne').mp rfl).2.le
    _ = 2 ^ (m'.log2 + 53) := by rw [← pow_add]; congr 1; omega
    _ ≤ 2 ^ (m.log2 + j) := Nat.pow_le_pow_right two_pos h
    _ = 2 ^ m.log2 * 2 ^ j := pow_add 2 _ _
    _ ≤ m * 2 ^ j := Nat.mul_le_mul_right _ ((Nat.log2_eq_iff hm.ne').mp rfl).1

theorem rounded_div_finite (s s' : Sign) {m m' : Nat} {e e' : Int} (hm : 0 < m) (hm' : 0 < m') :
    Rounded (number (.finite s m e hm) / number (.finite s' m' e' hm'))
      (UnpackedFloat.div Format.binary64 (.finite s m e hm) (.finite s' m' e' hm')) := by
  have hdiv : UnpackedFloat.div Format.binary64 (.finite s m e hm) (.finite s' m' e' hm') =
      let found := divCore Format.binary64 m e m' e'
      roundWithAccuracy Format.binary64 (s / s') found.1 found.2.1 found.2.2 := rfl
  rw [hdiv, divCore_eq]
  simp only
  set f := quotientExponent m e m' e' with hf
  obtain ⟨j, hj⟩ := Int.eq_ofNat_of_zero_le (show 0 ≤ e - e' - f by
    unfold quotientExponent at hf
    omega)
  rw [hj, Int.toNat_natCast]
  have hquotient : number (.finite s m e hm) / number (.finite s' m' e' hm') =
      signed (s / s') (((m * 2 ^ j : Nat) : ℚ) / m' * 2 ^ f) := by
    have hne : (m' : ℚ) ≠ 0 := by exact_mod_cast hm'.ne'
    rw [number_finite, number_finite, ← signed_div, show e = f + j + e' by omega,
      zpow_add₀ two_ne_zero, zpow_add₀ two_ne_zero, zpow_natCast]
    push_cast
    congr 1
    field_simp
  have hlong : 2 ^ 52 ≤ m * 2 ^ j / m' ∨ f ≤ -1074 := by
    by_cases hleast : f ≤ -1074
    · exact Or.inr hleast
    · refine Or.inl (two_pow_le_quotient hm hm' ?_)
      unfold quotientExponent at hf
      omega
  rw [hquotient]
  refine rounded_roundWithAccuracy _ (Trace.of_fraction _ hm') ?_ ?_
  · unfold lastExponent
    rcases hlong with hfull | hleast
    · have hlog := (Nat.le_log2 (by omega)).mpr hfull
      omega
    · omega
  · intro hnone
    rcases hlong with hfull | hleast <;> omega

theorem rounded_div {u v : UnpackedFloat} {a b : Dyadic} (ha : viewOf u = .finite a)
    (hb : viewOf v = .finite b) (hv : number v ≠ 0) :
    Rounded (number u / number v) (UnpackedFloat.div Format.binary64 u v) := by
  cases v with
  | infinity s' => cases hb
  | notANumber => cases hb
  | zero s' => exact absurd rfl hv
  | finite s' m' e' hm' =>
    cases u with
    | infinity s => cases ha
    | notANumber => cases ha
    | zero s =>
      refine ⟨trivial, ⟨_, rfl⟩, ?_⟩
      show Nearest (0 / number (.finite s' m' e' hm')) 0
      rw [zero_div]
      exact Nearest.refl 0
    | finite s m e hm => exact rounded_div_finite s s' hm hm'

/-- **A quotient of numbers** is a number, if it is not too large. -/
theorem exists_view_div {x y : Float} {a b : Dyadic} (ha : view x = .finite a)
    (hb : view y = .finite b) (hne : b.value ≠ 0) (hle : |a.value / b.value| ≤ 2 ^ 1023) :
    ∃ c, view (x / y) = .finite c ∧ Nearest (a.value / b.value) c.value := by
  rw [view_eq] at ha hb
  rw [value_eq_number hb] at hne
  rw [value_eq_number ha, value_eq_number hb] at hle ⊢
  exact (rounded_div ha hb hne).exists_view hle

theorem exists_view_div_bounds {x y : Float} {a b : Dyadic} {most : Nat}
    (ha : view x = .finite a) (hb : view y = .finite b) (hne : b.value ≠ 0)
    (hnonneg : 0 ≤ a.value / b.value) (hle : a.value / b.value ≤ most) (hmost : most < 2 ^ 53) :
    ∃ c, view (x / y) = .finite c ∧ 0 ≤ c.value ∧ c.value ≤ most := by
  obtain ⟨c, hc, hnearest⟩ := exists_view_div ha hb hne
    (by rw [abs_of_nonneg hnonneg]; exact hle.trans (natCast_le_two_pow hmost))
  exact ⟨c, hc, hnearest.bounds hmost hnonneg hle⟩

theorem exists_view_div_le {x y : Float} {a b : Dyadic} {most : Nat}
    (ha : view x = .finite a) (hb : view y = .finite b) (ha0 : 0 ≤ a.value)
    (hale : a.value ≤ most) (hb1 : 1 ≤ b.value) (hmost : most < 2 ^ 53) :
    ∃ c, view (x / y) = .finite c ∧ 0 ≤ c.value ∧ c.value ≤ most :=
  exists_view_div_bounds ha hb (by linarith) (div_nonneg ha0 (by linarith))
    ((div_le_self ha0 hb1).trans hale) hmost

end Binary64
end Chiptune
