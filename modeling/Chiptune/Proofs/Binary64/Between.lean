import Chiptune.Proofs.Binary64.Quotient
import Chiptune.Proofs.Binary64.RelativeError

/-!
# Floats between bounds

A computation in floats keeps bounds that floats can stand for, since nothing is rounded past such a
bound (`Rounded.between`). So a float that is computed in several steps is followed by the bounds it
stays between (`Between`), one lemma for each operation; how far each result is rounded does not
matter.
-/

namespace Chiptune
namespace Binary64

open Float.Model Float.Model.UnpackedFloat

/-- A float that is a number between two bounds. -/
def Between (x : Float) (low high : ℚ) : Prop :=
  ∃ d, view x = .finite d ∧ low ≤ d.value ∧ d.value ≤ high

theorem Between.mono {x : Float} {low low' high high' : ℚ} (h : Between x low high)
    (hlow : low' ≤ low) (hhigh : high ≤ high') : Between x low' high' := by
  obtain ⟨d, hd, hd0, hd1⟩ := h
  exact ⟨d, hd, hlow.trans hd0, hd1.trans hhigh⟩

/-- A whole number of units, if it has at most 53 bits. -/
theorem representable_natCast_mul {n : Nat} {e : Int} (hn : n < 2 ^ 53) (he : -1022 ≤ e) :
    Representable (n * 2 ^ e) := by
  by_cases hzero : n = 0
  · simpa [hzero] using representable_zero
  -- The mantissa is filled up with zeros.
  have hlog : n.log2 ≤ 52 := Nat.lt_succ_iff.mp ((Nat.log2_lt hzero).mpr hn)
  obtain ⟨hle, hlt⟩ := (Nat.log2_eq_iff hzero).mp rfl
  obtain ⟨j, hj⟩ := Nat.exists_eq_add_of_le hlog
  have hfits : Fits (n * 2 ^ j) (e - j) := by
    refine ⟨?_, by omega, Or.inl ?_⟩
    · calc n * 2 ^ j < 2 ^ (n.log2 + 1) * 2 ^ j := Nat.mul_lt_mul_of_pos_right hlt (by positivity)
        _ = 2 ^ 53 := by rw [← pow_add]; congr 1; omega
    · calc 2 ^ 52 = 2 ^ n.log2 * 2 ^ j := by rw [← pow_add, hj]
        _ ≤ n * 2 ^ j := Nat.mul_le_mul_right _ hle
  rw [mul_two_pow_eq n (show e = e - j + j by omega)]
  exact representable_of_fits hfits

/-! ## Bounds that are kept -/

/-- A bound that a float stands for. -/
def IsBound (q : ℚ) : Prop := Representable q ∧ |q| < 2 ^ 1024

theorem IsBound.neg {q : ℚ} (h : IsBound q) : IsBound (-q) := ⟨h.1.neg, by rw [abs_neg]; exact h.2⟩

theorem isBound_zero : IsBound 0 := ⟨representable_zero, by rw [abs_zero]; positivity⟩

/-- A fraction with few bits. -/
theorem isBound_div_two_pow {n j : Nat} (hn : n < 2 ^ 53) (hj : j ≤ 1022) :
    IsBound (n / 2 ^ j) := by
  have hunits : (n : ℚ) / 2 ^ j = n * 2 ^ (-j : Int) := by
    rw [zpow_neg, zpow_natCast, div_eq_mul_inv]
  refine ⟨hunits ▸ representable_natCast_mul hn (by omega), ?_⟩
  rw [abs_of_nonneg (by positivity)]
  calc (n : ℚ) / 2 ^ j ≤ n := div_le_self (by positivity) (one_le_pow₀ one_le_two)
    _ ≤ 2 ^ 1023 := natCast_le_two_pow hn
    _ < 2 ^ 1024 := pow_lt_pow_right₀ one_lt_two (by decide)

theorem isBound_one : IsBound 1 := by
  simpa using @isBound_div_two_pow 1 0 (by decide) (by decide)

theorem isBound_value {x : Float} {d : Dyadic} (h : view x = .finite d) : IsBound d.value := by
  refine ⟨representable_value h, ?_⟩
  have hexponent : biasedExponent x ≤ 2047 := by
    rw [biasedExponent_eq]
    exact Nat.le_of_lt_succ (BitVec.isLt _)
  have hfraction : fraction x < 2 ^ 52 := by
    rw [fraction_eq]
    exact BitVec.isLt _
  unfold view at h
  split at h
  · split at h <;> cases h
  · rename_i hfinite
    cases h
    have hsignificand : significand x < 2 ^ 53 := by
      have hunit : Nat.pow 2 52 = 2 ^ 52 := rfl
      unfold significand
      split <;> omega
    have hscale : scale x ≤ 971 := by
      unfold scale
      split <;> omega
    have habs : |((if isNegative x then -(significand x : Int) else significand x : Int) : ℚ)| =
        significand x := by
      split <;> simp
    simp only [Dyadic.value]
    rw [abs_mul, habs, abs_of_pos (by positivity)]
    calc (significand x : ℚ) * 2 ^ scale x < 2 ^ 53 * 2 ^ scale x := by
          gcongr
          exact_mod_cast hsignificand
      _ ≤ 2 ^ 53 * 2 ^ (971 : Int) := by
          gcongr
          exact one_le_two
      _ = 2 ^ 1024 := by
          rw [← zpow_natCast, ← zpow_natCast, ← zpow_add₀ two_ne_zero]
          rfl

/-- **Nothing is rounded past a bound.** -/
theorem Rounded.between {q low high : ℚ} {u : UnpackedFloat} (h : Rounded q u)
    (hlow : IsBound low) (hhigh : IsBound high) (hq : low ≤ q) (hq' : q ≤ high) :
    Between (Float.ofModel (Float.Model.pack u)) low high := by
  have hadjoins := h.nearest.adjoins
  have hbelow := (hadjoins low hlow.1).1 hq
  have habove := (hadjoins high hhigh.1).2 hq'
  obtain ⟨d, hd, hvalue⟩ := exists_view_pack h.canonical h.finite
    (abs_lt.mpr ⟨(abs_lt.mp hlow.2).1.trans_le hbelow, habove.trans_lt (abs_lt.mp hhigh.2).2⟩)
  exact ⟨d, hd, hvalue ▸ hbelow, hvalue ▸ habove⟩

/-! ## Operations -/

/-! A difference is a sum with the sign of the second number changed. -/

theorem apply_neg (sign : Sign) (n : Int) : (-sign).apply n = -sign.apply n := by
  cases sign with
  | positive => rfl
  | negative => exact (Int.neg_neg n).symm

theorem canonical_neg {u : UnpackedFloat} (h : Canonical u) : Canonical u.neg := by
  cases u <;> exact h

theorem exists_viewOf_neg {u : UnpackedFloat} {d : Dyadic} (h : viewOf u = .finite d) :
    ∃ d', viewOf u.neg = .finite d' := by
  cases u with
  | infinity sign => cases h
  | notANumber => cases h
  | zero sign => exact ⟨_, rfl⟩
  | finite sign m e hm => exact ⟨_, rfl⟩

theorem number_neg (u : UnpackedFloat) : number u.neg = -number u := by
  cases u with
  | infinity sign => exact neg_zero.symm
  | notANumber => exact neg_zero.symm
  | zero sign => exact neg_zero.symm
  | finite sign m e hm =>
    show ((-sign).apply m : ℚ) * 2 ^ e = -(sign.apply m * 2 ^ e)
    rw [apply_neg]
    push_cast
    ring

theorem sub_eq_add (u v : UnpackedFloat) :
    UnpackedFloat.sub Format.binary64 u v = UnpackedFloat.add Format.binary64 u v.neg := by
  cases u with
  | finite sign m e hm =>
    cases v with
    | finite sign' m' e' hm' =>
      simp only [UnpackedFloat.sub, UnpackedFloat.add, UnpackedFloat.neg, apply_neg,
        Int.sub_eq_add_neg]
    | infinity sign' => rfl
    | notANumber => rfl
    | zero sign' => rfl
  | infinity sign => cases v <;> rfl
  | notANumber => cases v <;> rfl
  | zero sign => cases v <;> rfl

theorem between_sub {x y : Float} {a b : Dyadic} {low high : ℚ} (ha : view x = .finite a)
    (hb : view y = .finite b) (hlow : IsBound low) (hhigh : IsBound high)
    (hle : low ≤ a.value - b.value) (hle' : a.value - b.value ≤ high) :
    Between (x - y) low high := by
  rw [view_eq] at ha hb
  rw [value_eq_number ha, value_eq_number hb, sub_eq_add_neg, ← number_neg] at hle hle'
  obtain ⟨b', hb'⟩ := exists_viewOf_neg hb
  have hrounded := rounded_add (canonical_unpack _) (canonical_neg (canonical_unpack _)) ha hb'
  rw [← sub_eq_add] at hrounded
  exact hrounded.between hlow hhigh hle hle'

theorem between_mul {x y : Float} {a b : Dyadic} {low high : ℚ} (ha : view x = .finite a)
    (hb : view y = .finite b) (hlow : IsBound low) (hhigh : IsBound high)
    (hle : low ≤ a.value * b.value) (hle' : a.value * b.value ≤ high) :
    Between (x * y) low high := by
  rw [view_eq] at ha hb
  rw [value_eq_number ha, value_eq_number hb] at hle hle'
  exact (rounded_mul (canonical_unpack _) (canonical_unpack _) ha hb).between hlow hhigh hle hle'

theorem between_div {x y : Float} {a b : Dyadic} {low high : ℚ} (ha : view x = .finite a)
    (hb : view y = .finite b) (hne : b.value ≠ 0) (hlow : IsBound low) (hhigh : IsBound high)
    (hle : low ≤ a.value / b.value) (hle' : a.value / b.value ≤ high) :
    Between (x / y) low high := by
  rw [view_eq] at ha hb
  rw [value_eq_number hb] at hne
  rw [value_eq_number ha, value_eq_number hb] at hle hle'
  exact (rounded_div ha hb hne).between hlow hhigh hle hle'

/-- A share of a number. -/
theorem Between.mul_share {x y : Float} {most : ℚ} (hx : Between x 0 most) (hy : Between y 0 1)
    (hmost : IsBound most) : Between (x * y) 0 most := by
  obtain ⟨a, ha, ha0, ha1⟩ := hx
  obtain ⟨b, hb, hb0, hb1⟩ := hy
  exact between_mul ha hb isBound_zero hmost (mul_nonneg ha0 hb0)
    ((mul_le_of_le_one_right ha0 hb1).trans ha1)

/-- A number that swings. -/
theorem Between.swing_mul {x y : Float} {most : ℚ} (hx : Between x (-1) 1) (hy : Between y 0 most)
    (hmost : IsBound most) : Between (x * y) (-most) most := by
  obtain ⟨a, ha, ha0, ha1⟩ := hx
  obtain ⟨b, hb, hb0, hb1⟩ := hy
  have habs : |a.value * b.value| ≤ most := by
    rw [abs_mul, abs_of_nonneg hb0]
    exact (mul_le_of_le_one_left hb0 (abs_le.mpr ⟨ha0, ha1⟩)).trans hb1
  exact between_mul ha hb hmost.neg hmost (abs_le.mp habs).1 (abs_le.mp habs).2

/-- The part of a way that is behind. -/
theorem between_div_of_lt {x y : Float} {a b : Dyadic} (ha : view x = .finite a)
    (hb : view y = .finite b) (ha0 : 0 ≤ a.value) (hlt : a.value < b.value) :
    Between (x / y) 0 1 :=
  between_div ha hb (ha0.trans_lt hlt).ne' isBound_zero isBound_one
    (div_nonneg ha0 (ha0.trans hlt.le)) ((div_le_one (ha0.trans_lt hlt)).mpr hlt.le)

/-- A whole number of a machine word, as a float. -/
theorem exists_view_toFloat {n : UInt64} (hn : n.toNat < 2 ^ 53) :
    ∃ d, view n.toFloat = .finite d ∧ d.value = n.toNat := by
  have hrounded := rounded_normalize n.toNat 0 .positive
  rw [zpow_zero, mul_one, Int.cast_natCast] at hrounded
  have hexact := hrounded.nearest.eq_of_representable (representable_natCast hn)
  obtain ⟨d, hd, hvalue⟩ := exists_view_pack hrounded.canonical hrounded.finite (by
    rw [hexact, abs_of_nonneg (Nat.cast_nonneg _)]
    exact (natCast_le_two_pow hn).trans_lt (pow_lt_pow_right₀ one_lt_two (by decide)))
  exact ⟨d, hd, hvalue.trans hexact⟩

end Binary64
end Chiptune
