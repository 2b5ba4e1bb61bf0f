import Chiptune.Proofs.Binary64.Ratio
import Chiptune.Proofs.Binary64.Sum

/-!
# How much rounding loses

The float nearest to a number of some size is within `2 ^ -53` of it, as a share of either of them
(`Nearest.error_le`). Below the least power of two with a full mantissa there is no such bound, but
what floats are added up to there is exact. So a sum loses no more than a share, whatever its size
(`add_error_le`), and a product is no larger than a share more than the exact one, or tiny
(`Nearest.le_or_tiny`).

Floats compare as the numbers that they stand for (`lt_iff_value_lt`).
-/

namespace Chiptune
namespace Binary64

open Float.Model Float.Model.UnpackedFloat

/-- The share of a number that one rounding can lose. -/
def roundoff : ℚ := 1 / 2 ^ 53

theorem roundoff_pos : 0 < roundoff := by
  unfold roundoff
  positivity

/-! ## One rounding -/

theorem Nearest.eq_of_representable {q r : ℚ} (h : Nearest q r) (hq : Representable q) : r = q := by
  have hle := h q hq
  rw [sub_self, abs_zero] at hle
  linarith [abs_nonpos_iff.mp hle]

theorem representable_two_zpow {p : Int} (hp : -1022 ≤ p) : Representable (2 ^ p) := by
  have hfits : Fits (2 ^ 52) (p - 52) := ⟨by decide, by omega, Or.inl le_rfl⟩
  have hvalue : ((2 ^ 52 : Nat) : ℚ) * 2 ^ (p - 52) = 2 ^ p := by
    rw [zpow_sub₀ two_ne_zero]
    norm_num
    ring
  exact hvalue ▸ representable_of_fits hfits

/-- A float stands for the whole number of units next to a number. -/
theorem exists_representable_near {q : ℚ} {p : Int} (hp : -1022 ≤ p) (hle : 2 ^ p ≤ q)
    (hlt : q < 2 ^ (p + 1)) :
    ∃ v, Representable v ∧ |q - v| ≤ roundoff * 2 ^ p := by
  have hunit : (0 : ℚ) < 2 ^ (p - 52) := by positivity
  have hpower : (2 : ℚ) ^ p = 2 ^ 52 * 2 ^ (p - 52) := by
    rw [zpow_sub₀ two_ne_zero]
    norm_num
    ring
  have hpower' : (2 : ℚ) ^ (p + 1) = 2 ^ 53 * 2 ^ (p - 52) := by
    rw [zpow_add_one₀ two_ne_zero, hpower]
    ring
  -- So many units, of which there are from `2 ^ 52` to `2 ^ 53`.
  obtain ⟨units, hunits⟩ : ∃ units, units = q / 2 ^ (p - 52) := ⟨_, rfl⟩
  have hq : q = units * 2 ^ (p - 52) := by rw [hunits, div_mul_cancel₀ _ hunit.ne']
  rw [hpower, hq] at hle
  rw [hpower', hq] at hlt
  have hlow : 2 ^ 52 ≤ units := le_of_mul_le_mul_right hle hunit
  have hhigh : units < 2 ^ 53 := lt_of_mul_lt_mul_right hlt hunit.le
  have hround := abs_sub_round units
  obtain ⟨n, hn⟩ : ∃ n : Nat, round units = n := by
    refine ⟨(round units).toNat, (Int.toNat_of_nonneg ?_).symm⟩
    rw [round_eq]
    exact Int.floor_nonneg.mpr (by linarith)
  rw [hn] at hround
  obtain ⟨hbelow, habove⟩ := abs_le.mp hround
  have hn52 : 2 ^ 52 ≤ n := by
    have : (2 ^ 52 : ℚ) < n + 1 := by push_cast at *; linarith
    have hcast : 2 ^ 52 < n + 1 := by exact_mod_cast this
    omega
  have hn53 : n ≤ 2 ^ 53 := by
    have : (n : ℚ) < 2 ^ 53 + 1 := by push_cast at *; linarith
    have hcast : n < 2 ^ 53 + 1 := by exact_mod_cast this
    omega
  refine ⟨n * 2 ^ (p - 52), ?_, ?_⟩
  · rcases Nat.lt_or_ge n (2 ^ 53) with hless | hfull
    · exact representable_of_fits ⟨hless, by omega, Or.inl hn52⟩
    · obtain rfl : n = 2 ^ 53 := le_antisymm hn53 hfull
      have htop : ((2 ^ 53 : Nat) : ℚ) * 2 ^ (p - 52) = 2 ^ (p + 1) := by
        rw [hpower']
        norm_num
      exact htop ▸ representable_two_zpow (by omega)
  · rw [hq, ← sub_mul, abs_mul, abs_of_pos hunit, hpower]
    push_cast at hround
    calc |units - n| * 2 ^ (p - 52) ≤ 1 / 2 * 2 ^ (p - 52) := by gcongr
      _ = roundoff * (2 ^ 52 * 2 ^ (p - 52)) := by
          rw [roundoff, ← mul_assoc]
          norm_num

/-- **What one rounding loses**, as a share of the number and of the float. -/
theorem Nearest.error_le {q r : ℚ} (h : Nearest q r) (hq : 2 ^ (-1022 : Int) ≤ q) :
    |q - r| ≤ roundoff * q ∧ |q - r| ≤ roundoff * r := by
  have hpos : 0 < q := lt_of_lt_of_le (by positivity) hq
  obtain ⟨p, hle, hlt⟩ := exists_mem_Ico_zpow hpos one_lt_two
  have hp : -1022 ≤ p := by
    have hless : (2 : ℚ) ^ (-1022 : Int) < 2 ^ (p + 1) := hq.trans_lt hlt
    have := (zpow_lt_zpow_iff_right₀ one_lt_two).mp hless
    omega
  obtain ⟨v, hv, hnear⟩ := exists_representable_near hp hle hlt
  have herror : |q - r| ≤ roundoff * 2 ^ p := (h v hv).trans hnear
  have hler : 2 ^ p ≤ r := (h.adjoins _ (representable_two_zpow hp)).1 hle
  exact ⟨herror.trans (mul_le_mul_of_nonneg_left hle roundoff_pos.le),
    herror.trans (mul_le_mul_of_nonneg_left hler roundoff_pos.le)⟩

theorem two_zpow_least_lt_half : (2 : ℚ) ^ (-1022 : Int) < 1 / 2 :=
  calc (2 : ℚ) ^ (-1022 : Int) < 2 ^ (-1 : Int) := zpow_lt_zpow_right₀ one_lt_two (by norm_num)
    _ = 1 / 2 := by norm_num

/-- A product or quotient is at most a share too large, if it is not tiny. -/
theorem Nearest.le_or_tiny {q r : ℚ} (h : Nearest q r) :
    r ≤ (1 + roundoff) * q ∨ r ≤ 2 ^ (-1022 : Int) := by
  rcases le_or_gt (2 ^ (-1022 : Int)) q with hlarge | hsmall
  · have herror := (h.error_le hlarge).1
    rw [abs_sub_comm] at herror
    left
    linarith [le_abs_self (r - q)]
  · exact .inr ((h.adjoins _ (representable_two_zpow le_rfl)).2 hsmall.le)

theorem value_ofInt_le {n : Int} {x : Float} {d : Dyadic} (hn : 1 ≤ n) (h : ofInt n = .ok x)
    (hd : view x = .finite d) : d.value ≤ (1 + roundoff) * n := by
  have hd1 := one_le_value_ofInt hn h hd
  obtain ⟨d', hd', hnearest⟩ := exists_view_ofInt h
  cases hd.symm.trans hd'
  rcases hnearest.le_or_tiny with hle | htiny
  · exact hle
  · linarith [two_zpow_least_lt_half]

/-! ## Sums -/

/-- Every float is a whole number of the least units. -/
theorem Representable.exists_units {q : ℚ} (h : Representable q) (hq : 0 ≤ q) :
    ∃ n : Nat, q = n * 2 ^ (-1074 : Int) := by
  obtain ⟨m, e, hfits, habs⟩ := h
  obtain ⟨k, hk⟩ := Int.eq_ofNat_of_zero_le (show 0 ≤ e + 1074 by have := hfits.exponent_ge; omega)
  rw [abs_of_nonneg hq, mul_two_pow_eq m (show e = -1074 + k by omega)] at habs
  exact ⟨m * 2 ^ k, habs⟩

/-- **What a sum loses**, as a share of the sum. A small sum is exact. -/
theorem Nearest.add_error_le {a b c : ℚ} (h : Nearest (a + b) c) (ha : Representable a)
    (hb : Representable b) (ha0 : 0 ≤ a) (hb0 : 0 ≤ b) : a + b ≤ (1 + roundoff) * c := by
  rcases le_or_gt (2 ^ (-1022 : Int)) (a + b) with hlarge | hsmall
  · linarith [(h.error_le hlarge).2, le_abs_self (a + b - c)]
  · obtain ⟨n, hn⟩ := ha.exists_units ha0
    obtain ⟨n', hn'⟩ := hb.exists_units hb0
    have hsum : a + b = (n + n' : Nat) * 2 ^ (-1074 : Int) := by
      rw [hn, hn', Nat.cast_add, add_mul]
    have hunits : n + n' < 2 ^ 53 := by
      have hscaled : ((n + n' : Nat) : ℚ) * 2 ^ (-1074 : Int) < 2 ^ 53 * 2 ^ (-1074 : Int) := by
        rw [← hsum]
        refine hsmall.trans ?_
        rw [show (2 : ℚ) ^ 53 = 2 ^ (53 : Int) by norm_num, ← zpow_add₀ two_ne_zero]
        exact zpow_lt_zpow_right₀ one_lt_two (by norm_num)
      exact_mod_cast lt_of_mul_lt_mul_right hscaled (by positivity)
    have hexact : c = a + b := by
      refine h.eq_of_representable ?_
      rw [hsum]
      exact representable_of_fits ⟨hunits, le_rfl, Or.inr rfl⟩
    rw [hexact]
    exact le_mul_of_one_le_left (by linarith) (by linarith [roundoff_pos])

/-! ## The order of floats -/

/-- With a greater exponent, a mantissa is full, and the number is greater. -/
theorem lt_of_exponent_lt {m m' : Nat} {e e' : Int} (h : Fits m e) (h' : Fits m' e') (hlt : e < e') :
    (m * 2 ^ e : ℚ) < m' * 2 ^ e' := by
  have hfull : 2 ^ 52 ≤ m' := h'.full_or_least.resolve_right (by have := h.exponent_ge; omega)
  calc (m * 2 ^ e : ℚ) < 2 ^ 53 * 2 ^ e := by
        gcongr
        exact_mod_cast h.mantissa_lt
    _ = 2 ^ 52 * 2 ^ (e + 1) := by rw [zpow_add_one₀ two_ne_zero]; ring
    _ ≤ m' * 2 ^ e' := by
        gcongr
        · exact_mod_cast hfull
        · norm_num
        · omega

theorem compare_then_eq_lt_iff {m m' : Nat} {e e' : Int} (h : Fits m e) (h' : Fits m' e') :
    (compare e e').then (compare m m') = .lt ↔ (m * 2 ^ e : ℚ) < m' * 2 ^ e' := by
  rcases lt_trichotomy e e' with hlt | rfl | hgt
  · rw [Int.compare_eq_lt.mpr hlt]
    exact iff_of_true rfl (lt_of_exponent_lt h h' hlt)
  · have hpos : (0 : ℚ) < 2 ^ e := by positivity
    rw [Int.compare_eq_eq.mpr rfl, mul_lt_mul_iff_left₀ hpos, Nat.cast_lt, ← Nat.compare_eq_lt]
    rfl
  · rw [Int.compare_eq_gt.mpr hgt]
    exact iff_of_false nofun (lt_of_exponent_lt h' h hgt).not_gt

theorem lt_iff_number_lt {u v : UnpackedFloat} {a b : Dyadic} (hu : Canonical u) (hv : Canonical v)
    (ha : viewOf u = .finite a) (hb : viewOf v = .finite b) :
    u.lt v = true ↔ number u < number v := by
  cases u with
  | infinity s => cases ha
  | notANumber => cases ha
  | zero s =>
    cases v with
    | infinity s' => cases hb
    | notANumber => cases hb
    | zero s' => exact iff_of_false (by simp [UnpackedFloat.lt, UnpackedFloat.compare]) (lt_irrefl _)
    | finite s' m' e' hm' =>
      have hpos : (0 : ℚ) < m' * 2 ^ e' := by positivity
      rw [number_finite]
      cases s' with
      | positive => exact iff_of_true rfl hpos
      | negative => exact iff_of_false Bool.false_ne_true (neg_neg_of_pos hpos).not_gt
  | finite s m e hm =>
    have hpos : (0 : ℚ) < m * 2 ^ e := by positivity
    cases v with
    | infinity s' => cases hb
    | notANumber => cases hb
    | zero s' =>
      rw [number_finite]
      cases s with
      | positive => exact iff_of_false Bool.false_ne_true hpos.not_gt
      | negative => exact iff_of_true rfl (neg_neg_of_pos hpos)
    | finite s' m' e' hm' =>
      have hpos' : (0 : ℚ) < m' * 2 ^ e' := by positivity
      rw [number_finite, number_finite]
      cases s with
      | positive =>
        cases s' with
        | positive =>
          rw [show signed .positive (m * 2 ^ e : ℚ) = m * 2 ^ e from rfl,
            show signed .positive (m' * 2 ^ e' : ℚ) = m' * 2 ^ e' from rfl,
            ← compare_then_eq_lt_iff hu hv]
          simp [UnpackedFloat.lt, UnpackedFloat.compare]
        | negative => exact iff_of_false Bool.false_ne_true ((neg_neg_of_pos hpos').trans hpos).not_gt
      | negative =>
        cases s' with
        | positive => exact iff_of_true rfl ((neg_neg_of_pos hpos).trans hpos')
        | negative =>
          rw [show signed .negative (m * 2 ^ e : ℚ) = -(m * 2 ^ e) from rfl,
            show signed .negative (m' * 2 ^ e' : ℚ) = -(m' * 2 ^ e') from rfl, neg_lt_neg_iff,
            ← compare_then_eq_lt_iff hv hu]
          simp [UnpackedFloat.lt, UnpackedFloat.compare, Ordering.swap_then, Int.compare_swap,
            Nat.compare_swap]

/-- **Floats compare as the numbers that they stand for.** -/
theorem lt_iff_value_lt {x y : Float} {a b : Dyadic} (ha : view x = .finite a)
    (hb : view y = .finite b) : x < y ↔ a.value < b.value := by
  have hx : Canonical x.toModel.unpack := canonical_unpack _
  have hy : Canonical y.toModel.unpack := canonical_unpack _
  rw [view_eq] at ha hb
  rw [value_eq_number ha, value_eq_number hb, ← lt_iff_number_lt hx hy ha hb]
  exact decide_eq_true_iff

end Binary64
end Chiptune
