import Chiptune.Proofs.Binary64.Rounding

/-!
# Quotients of whole numbers as floats

A quotient of whole numbers that is turned into a float becomes the nearest one, and is refused from
half a unit past the greatest float on (`exists_ofQuotient_iff`, `exists_view_ofQuotient`). So a
whole number above zero is a float that is not zero, as long as there is one that large: where a
duration or a tempo is turned into a float, the division that follows is not one by zero
(`exists_ofInt`).

The bits of the float are put together by addition. That this gives the right float is one fact about
units of the last bit (`exists_view_ofBits`), in which it does not matter whether rounding has carried
into the exponent.
-/

namespace Chiptune
namespace Binary64

open Float.Model Float.Model.UnpackedFloat

/-! ## The last bit of a quotient -/

theorem two_zpow_le_div_iff (num : Nat) {den : Nat} (hden : 0 < den) (guess : Int) :
    (2 : ℚ) ^ guess ≤ num / den ↔ (match guess with
      | .ofNat k => decide (den * Nat.pow 2 k ≤ num)
      | .negSucc k => decide (den ≤ num * Nat.pow 2 (k + 1))) = true := by
  have hpos : (0 : ℚ) < den := by exact_mod_cast hden
  rw [le_div_iff₀ hpos]
  cases guess with
  | ofNat k =>
    rw [decide_eq_true_iff, Int.ofNat_eq_natCast, zpow_natCast, mul_comm, Nat.pow_eq]
    exact_mod_cast Iff.rfl
  | negSucc k =>
    rw [decide_eq_true_iff, zpow_negSucc, inv_mul_le_iff₀ (by positivity), mul_comm, Nat.pow_eq]
    exact_mod_cast Iff.rfl

theorem floorLog2_spec {num den : Nat} (hnum : 0 < num) (hden : 0 < den) :
    (2 : ℚ) ^ floorLog2 num den ≤ num / den ∧ (num / den : ℚ) < 2 ^ (floorLog2 num den + 1) := by
  have hpos : (0 : ℚ) < den := by exact_mod_cast hden
  obtain ⟨hnumLe, hnumLt⟩ := (Nat.log2_eq_iff hnum.ne').mp rfl
  obtain ⟨hdenLe, hdenLt⟩ := (Nat.log2_eq_iff hden.ne').mp rfl
  have hlow : (2 : ℚ) ^ ((num.log2 : Int) - den.log2 - 1) ≤ num / den := by
    rw [le_div_iff₀ hpos, show (num.log2 : Int) - den.log2 - 1 = num.log2 - (den.log2 + 1 : Nat) by
      omega, zpow_sub₀ two_ne_zero, zpow_natCast, zpow_natCast, div_mul_eq_mul_div,
      div_le_iff₀ (by positivity)]
    exact_mod_cast Nat.mul_le_mul hnumLe hdenLt.le
  have hhigh : (num / den : ℚ) < 2 ^ ((num.log2 : Int) - den.log2 + 1) := by
    rw [div_lt_iff₀ hpos, show (num.log2 : Int) - den.log2 + 1 = (num.log2 + 1 : Nat) - den.log2 by
      omega, zpow_sub₀ two_ne_zero, zpow_natCast, zpow_natCast, div_mul_eq_mul_div,
      lt_div_iff₀ (by positivity)]
    exact_mod_cast Nat.mul_lt_mul_of_lt_of_le hnumLt hdenLe (by positivity)
  by_cases hfits : (2 : ℚ) ^ ((num.log2 : Int) - den.log2) ≤ num / den
  · have hfloor : floorLog2 num den = num.log2 - den.log2 :=
      if_pos ((two_zpow_le_div_iff num hden _).mp hfits)
    rw [hfloor]
    exact ⟨hfits, hhigh⟩
  · have hfloor : floorLog2 num den = num.log2 - den.log2 - 1 :=
      if_neg (mt (two_zpow_le_div_iff num hden _).mpr hfits)
    rw [hfloor, sub_add_cancel]
    exact ⟨hlow, not_le.mp hfits⟩

theorem roundQuotient_spec (num : Nat) {den : Nat} (hden : 0 < den) :
    2 * |(num / den : ℚ) - roundQuotient num den| ≤ 1 ∧
      (2 * |(num / den : ℚ) - roundQuotient num den| = 1 → roundQuotient num den % 2 = 0) := by
  have hpos : (0 : ℚ) < den := by exact_mod_cast hden
  have hlt : num % den < den := Nat.mod_lt num hden
  -- The distance in units of the denominator is a whole number.
  have hdistance : ∀ n : Nat,
      2 * |(num / den : ℚ) - n| * den = (2 * |(num : Int) - n * den| : Int) := by
    intro n
    push_cast
    rw [← abs_of_pos hpos, mul_assoc, ← abs_mul, abs_of_pos hpos, sub_mul,
      div_mul_cancel₀ _ hpos.ne']
  have hle : ∀ n : Nat, 2 * |(num : Int) - n * den| ≤ den →
      2 * |(num / den : ℚ) - n| ≤ 1 := by
    intro n h
    refine le_of_mul_le_mul_right ?_ hpos
    rw [hdistance, one_mul]
    exact_mod_cast h
  have htie : ∀ n : Nat, 2 * |(num / den : ℚ) - n| = 1 → 2 * |(num : Int) - n * den| = den := by
    intro n h
    have hscaled := congrArg (· * (den : ℚ)) h
    simp only [hdistance, one_mul] at hscaled
    exact_mod_cast hscaled
  have hnum : (num : Int) = (num / den : Nat) * den + (num % den : Nat) := by
    exact_mod_cast (Nat.div_add_mod' num den).symm
  unfold roundQuotient
  simp only
  generalize num / den = low at *
  generalize num % den = rest at *
  have hdown : |(num : Int) - (low : Nat) * den| = rest := by
    rw [hnum, add_sub_cancel_left, Nat.abs_cast]
  have hup : |(num : Int) - (low + 1 : Nat) * den| = den - rest := by
    rw [hnum, abs_of_nonpos] <;> push_cast <;> linarith
  split
  · refine ⟨hle _ (by rw [hdown]; omega), fun h => ?_⟩
    have := htie _ h
    rw [hdown] at this
    omega
  · split
    · refine ⟨hle _ (by rw [hup]; omega), fun h => ?_⟩
      have := htie _ h
      rw [hup] at this
      omega
    · split
      · exact ⟨hle _ (by rw [hdown]; omega), fun _ => by assumption⟩
      · exact ⟨hle _ (by rw [hup]; omega), fun _ => by omega⟩

/-- A number and the whole number of units of `2 ^ p` that it is rounded to, where that is the last
bit of the float. -/
structure Units (q : ℚ) (p : Int) (n : Nat) : Prop where
  exponent_ge : -1074 ≤ p
  full : p = -1074 ∨ 2 ^ 52 * 2 ^ p ≤ q
  lt : q < 2 ^ 53 * 2 ^ p
  near : 2 * |q - n * 2 ^ p| ≤ 2 ^ p
  tie : 2 * |q - n * 2 ^ p| = 2 ^ p → n % 2 = 0

theorem roundToUnit_spec (num : Nat) {den : Nat} (hden : 0 < den) (p : Int) :
    2 * |(num / den : ℚ) - roundToUnit num den p * 2 ^ p| ≤ 2 ^ p ∧
      (2 * |(num / den : ℚ) - roundToUnit num den p * 2 ^ p| = 2 ^ p →
        roundToUnit num den p % 2 = 0) := by
  have hunit : (0 : ℚ) < 2 ^ p := by positivity
  -- In units, it is the rounding of a quotient to a whole number.
  obtain ⟨hnear, htie⟩ : 2 * |(num / den : ℚ) / 2 ^ p - roundToUnit num den p| ≤ 1 ∧
      (2 * |(num / den : ℚ) / 2 ^ p - roundToUnit num den p| = 1 →
        roundToUnit num den p % 2 = 0) := by
    cases p with
    | ofNat k =>
      have hspec := roundQuotient_spec num (show 0 < den * 2 ^ k by positivity)
      push_cast at hspec
      rw [Int.ofNat_eq_natCast, zpow_natCast, div_div]
      exact hspec
    | negSucc k =>
      have hspec := roundQuotient_spec (num * 2 ^ (k + 1)) hden
      push_cast at hspec
      rw [zpow_negSucc, div_inv_eq_mul, div_mul_eq_mul_div]
      exact hspec
  have hscale : 2 * |(num / den : ℚ) - roundToUnit num den p * 2 ^ p| =
      2 * |(num / den : ℚ) / 2 ^ p - roundToUnit num den p| * 2 ^ p := by
    rw [mul_assoc, ← abs_of_pos hunit, ← abs_mul, abs_of_pos hunit, sub_mul,
      div_mul_cancel₀ _ hunit.ne']
  rw [hscale]
  refine ⟨mul_le_of_le_one_left hunit.le hnear, fun h => htie ?_⟩
  exact mul_right_cancel₀ hunit.ne' (by rw [h, one_mul])

theorem units_lastBit {num den : Nat} (hnum : 0 < num) (hden : 0 < den) :
    Units (num / den) (lastBit num den) (roundToUnit num den (lastBit num den)) := by
  obtain ⟨hlow, hhigh⟩ := floorLog2_spec hnum hden
  obtain ⟨hnear, htie⟩ := roundToUnit_spec num hden (lastBit num den)
  refine ⟨le_max_right _ _, ?_, ?_, hnear, htie⟩
  · rcases max_choice (floorLog2 num den - 52) (-1074) with h | h
    · refine Or.inr ?_
      unfold lastBit
      rw [h, ← zpow_natCast, ← zpow_add₀ two_ne_zero]
      refine le_trans (le_of_eq ?_) hlow
      congr 1
      push_cast
      ring
    · exact Or.inl h
  · rw [← zpow_natCast, ← zpow_add₀ two_ne_zero]
    refine hhigh.trans_le (zpow_le_zpow_right₀ one_le_two ?_)
    have := le_max_left (floorLog2 num den - 52) (-1074)
    unfold lastBit
    push_cast
    omega

namespace Units

variable {q : ℚ} {p : Int} {n : Nat}

theorem nearest (h : Units q p n) : Nearest q (n * 2 ^ p) := .of_units h.full h.near

theorem le_two_pow (h : Units q p n) : n ≤ 2 ^ 53 := by
  have hunit : (0 : ℚ) < 2 ^ p := by positivity
  have hlt : (n : ℚ) * 2 ^ p < (2 ^ 53 + 1) * 2 ^ p := by
    linarith [h.lt, h.near, neg_abs_le (q - n * 2 ^ p)]
  have hlt' := lt_of_mul_lt_mul_right hlt hunit.le
  exact Nat.lt_succ_iff.mp (by exact_mod_cast hlt')

theorem two_pow_le (h : Units q p n) (hp : p ≠ -1074) : 2 ^ 52 ≤ n := by
  have hunit : (0 : ℚ) < 2 ^ p := by positivity
  have hlt : (2 : ℚ) ^ 52 * 2 ^ p < (n + 1) * 2 ^ p := by
    linarith [h.full.resolve_left hp, h.near, le_abs_self (q - n * 2 ^ p)]
  have hlt' := lt_of_mul_lt_mul_right hlt hunit.le
  exact Nat.lt_succ_iff.mp (by exact_mod_cast hlt')

/-- What is less than half a unit below the next power of two is not rounded up to it. -/
theorem lt_two_pow_iff (h : Units q p n) : n < 2 ^ 53 ↔ 2 * q < (2 ^ 54 - 1) * 2 ^ p := by
  have hunit : (0 : ℚ) < 2 ^ p := by positivity
  have hnear := h.near
  constructor
  · intro hlt
    rcases Nat.lt_or_ge n (2 ^ 53 - 1) with hless | hlast
    · have hn : (n : ℚ) * 2 ^ p ≤ (2 ^ 53 - 2) * 2 ^ p := by
        refine mul_le_mul_of_nonneg_right ?_ hunit.le
        have : ((n + 2 : Nat) : ℚ) ≤ (2 ^ 53 : Nat) := Nat.cast_le.mpr (by omega)
        push_cast at this
        linarith
      linarith [le_abs_self (q - n * 2 ^ p)]
    · -- The last whole number of units is odd, and half a unit from it goes up.
      have hodd : 2 * |q - n * 2 ^ p| < 2 ^ p :=
        hnear.lt_of_ne fun heq => by have := h.tie heq; omega
      have hn : (n : ℚ) = 2 ^ 53 - 1 := by
        have : ((n + 1 : Nat) : ℚ) = (2 ^ 53 : Nat) := congrArg _ (by omega)
        push_cast at this
        linarith
      rw [hn] at hodd
      linarith [le_abs_self (q - (2 ^ 53 - 1) * 2 ^ p)]
  · intro hlt
    have hscaled : (n : ℚ) * 2 ^ p < 2 ^ 53 * 2 ^ p := by
      linarith [neg_abs_le (q - n * 2 ^ p)]
    exact_mod_cast lt_of_mul_lt_mul_right hscaled hunit.le

theorem exponent_le (h : Units q p n) {k : Int} (hk : -1074 ≤ k) (hq : q < 2 ^ 53 * 2 ^ k) :
    p ≤ k := by
  rcases h.full with hleast | hfull
  · omega
  have hpower : (2 : ℚ) ^ (52 + p) < 2 ^ (53 + k) := by
    rw [zpow_add₀ two_ne_zero, zpow_add₀ two_ne_zero]
    exact hfull.trans_lt hq
  have := (zpow_lt_zpow_iff_right₀ one_lt_two).mp hpower
  omega

theorem le_exponent (h : Units q p n) {k : Int} (hq : 2 ^ 52 * 2 ^ k ≤ q) : k ≤ p := by
  have hpower : (2 : ℚ) ^ (52 + k) < 2 ^ (53 + p) := by
    rw [zpow_add₀ two_ne_zero, zpow_add₀ two_ne_zero]
    exact hq.trans_lt h.lt
  have := (zpow_lt_zpow_iff_right₀ one_lt_two).mp hpower
  omega

/-- Where bits read as a number, and not as an infinity. -/
theorem bits_lt_iff (h : Units q p n) {top : Int} (htop : top = 971) :
    (p + 1074).toNat * 2 ^ 52 + n < infinityBits ↔ 2 * q < (2 ^ 54 - 1) * 2 ^ top := by
  have hbits : infinityBits = 2047 * 2 ^ 52 := rfl
  have hunit : (0 : ℚ) < 2 ^ top := by positivity
  have hge := h.exponent_ge
  have hle := h.le_two_pow
  rw [hbits]
  constructor
  · intro hlt
    by_contra hlarge
    have hp : top ≤ p := h.le_exponent (by linarith)
    rcases hp.eq_or_lt with rfl | hnext
    · have := h.lt_two_pow_iff.not.mpr hlarge
      omega
    · have := h.two_pow_le (by omega)
      omega
  · intro hsmall
    have hp : p ≤ top := h.exponent_le (by omega) (by linarith)
    rcases hp.lt_or_eq with hlow | rfl
    · omega
    · have := h.lt_two_pow_iff.mpr hsmall
      omega

end Units

/-- Half a unit of the last bit past the greatest float. -/
def floatLimit : Nat := (2 ^ 54 - 1) * 2 ^ 970

/-- **A quotient that is not too large** is a float. -/
theorem nearestBits_lt_iff (num : Nat) {den : Nat} (hden : 0 < den) :
    nearestBits num den < infinityBits ↔ num < den * floatLimit := by
  have hpos : (0 : ℚ) < den := by exact_mod_cast hden
  rcases Nat.eq_zero_or_pos num with rfl | hnum
  · have hzero : nearestBits 0 den = 0 := if_pos rfl
    rw [hzero]
    refine iff_of_true (by decide) (Nat.mul_pos hden ?_)
    unfold floatLimit
    positivity
  unfold nearestBits
  rw [if_neg hnum.ne']
  refine ((units_lastBit hnum hden).bits_lt_iff rfl).trans ?_
  have hlimit : ((2 : ℚ) ^ 54 - 1) * 2 ^ (971 : Int) = 2 * floatLimit := by
    rw [show (971 : Int) = (970 : Nat) + 1 from rfl, zpow_add_one₀ two_ne_zero, zpow_natCast,
      floatLimit, Nat.cast_mul, Nat.cast_pow, Nat.cast_ofNat, Nat.cast_sub (by decide)]
    generalize (2 : ℚ) ^ 970 = unit
    push_cast
    ring
  rw [hlimit, mul_lt_mul_iff_right₀ two_pos, div_lt_iff₀ hpos, mul_comm]
  exact_mod_cast Iff.rfl

/-! ## Bits -/

theorem unpack_eq_of_exponent {b : BitVec 64} {exponent fraction : Nat}
    (hexponent : (@unpackExponent Format.binary64 b).toNat = exponent)
    (hfraction : (@unpackMantissa Format.binary64 b).toNat = fraction) (hle : exponent ≤ 2046) :
    (∃ d, viewOf (UnpackedFloat.unpack Format.binary64 b) = .finite d) ∧
      number (UnpackedFloat.unpack Format.binary64 b) =
        signed (Sign.ofBitVec (@unpackSign Format.binary64 b))
          ((if exponent = 0 then fraction else 2 ^ 52 + fraction : Nat) *
            2 ^ ((max exponent 1 : Nat) - 1075 : Int)) := by
  unfold UnpackedFloat.unpack
  simp only
  rw [if_neg fun h => by rw [exponent_eq_allOnes_iff] at h; omega]
  by_cases hsubnormal : exponent = 0
  · rw [if_pos (eq_zero_iff_toNat.mpr (hexponent.trans hsubnormal)), if_pos hsubnormal]
    by_cases hzero : fraction = 0
    · rw [dif_pos (eq_zero_iff_toNat.mpr (hfraction.trans hzero))]
      refine ⟨⟨_, rfl⟩, ?_⟩
      rw [hzero, Nat.cast_zero, zero_mul]
      show (0 : ℚ) = signed _ 0
      cases Sign.ofBitVec (@unpackSign Format.binary64 b) <;> simp [signed]
    · rw [dif_neg fun h => hzero (hfraction ▸ eq_zero_iff_toNat.mp h)]
      refine ⟨⟨_, rfl⟩, ?_⟩
      rw [number_finite, hfraction, hexponent, hsubnormal]
      rfl
  · rw [if_neg fun h => hsubnormal (hexponent ▸ eq_zero_iff_toNat.mp h), if_neg hsubnormal]
    refine ⟨⟨_, rfl⟩, ?_⟩
    rw [number_finite, toNat_implicit_append, hfraction, hexponent, max_eq_left (by omega)]
    rfl

/-- The bits of a float, as `ofBits` puts them together. -/
def word (negative : Bool) (magnitude : Nat) : BitVec 64 :=
  ((if negative then Nat.pow 2 63 else 0) + magnitude).toUInt64.toBitVec

theorem toNat_word (negative : Bool) {magnitude : Nat} (h : magnitude < 2 ^ 63) :
    (word negative magnitude).toNat = (if negative then 2 ^ 63 else 0) + magnitude := by
  have hword : (word negative magnitude).toNat =
      ((if negative then Nat.pow 2 63 else 0) + magnitude) % 2 ^ 64 := rfl
  rw [hword, Nat.pow_eq]
  split <;> omega

theorem exponent_word (negative : Bool) {magnitude : Nat} (h : magnitude < 2 ^ 63) :
    (@unpackExponent Format.binary64 (word negative magnitude)).toNat = magnitude / 2 ^ 52 := by
  unfold unpackExponent
  rw [BitVec.toNat_cast, BitVec.extractLsb_toNat, toNat_word negative h, Nat.shiftRight_eq_div_pow]
  show _ / 2 ^ 52 % 2 ^ 11 = _
  split <;> omega

theorem fraction_word (negative : Bool) {magnitude : Nat} (h : magnitude < 2 ^ 63) :
    (@unpackMantissa Format.binary64 (word negative magnitude)).toNat = magnitude % 2 ^ 52 := by
  unfold unpackMantissa
  rw [BitVec.toNat_cast, BitVec.extractLsb_toNat, toNat_word negative h, Nat.shiftRight_zero]
  show _ % 2 ^ 52 = _
  split <;> omega

theorem sign_word (negative : Bool) {magnitude : Nat} (h : magnitude < 2 ^ 63) :
    Sign.ofBitVec (@unpackSign Format.binary64 (word negative magnitude)) =
      if negative then .negative else .positive := by
  have hmsb : (word negative magnitude).msb = negative := by
    rw [BitVec.msb_eq_decide, toNat_word negative h]
    cases negative
    · rw [if_neg Bool.false_ne_true, decide_eq_false_iff_not]
      omega
    · rw [if_pos rfl, decide_eq_true_iff]
      omega
  rw [unpackSign_eq, hmsb]
  cases negative <;> rfl
/-- The units are a fraction, a whole significand, or one that has been carried. -/
theorem significand_mul_scale {p : Int} {n magnitude : Nat} (hp : -1074 ≤ p) (hn : n ≤ 2 ^ 53)
    (hfull : p ≠ -1074 → 2 ^ 52 ≤ n) (hmagnitude : magnitude = (p + 1074).toNat * 2 ^ 52 + n) :
    ((if magnitude / 2 ^ 52 = 0 then magnitude % 2 ^ 52
      else 2 ^ 52 + magnitude % 2 ^ 52 : Nat) : ℚ) *
        2 ^ ((max (magnitude / 2 ^ 52) 1 : Nat) - 1075 : Int) = n * 2 ^ p := by
  rcases Nat.lt_or_ge n (2 ^ 52) with hless | hge
  · obtain rfl : p = -1074 := by
      by_contra hne
      exact absurd (hfull hne) (by omega)
    have hzero : magnitude / 2 ^ 52 = 0 := by omega
    rw [if_pos hzero, hzero, show magnitude % 2 ^ 52 = n by omega]
    rfl
  · rcases hn.lt_or_eq with hless | rfl
    · rw [if_neg (by omega), show 2 ^ 52 + magnitude % 2 ^ 52 = n by omega,
        show ((max (magnitude / 2 ^ 52) 1 : Nat) - 1075 : Int) = p by omega]
    · rw [if_neg (by omega), show 2 ^ 52 + magnitude % 2 ^ 52 = 2 ^ 52 by omega,
        show ((max (magnitude / 2 ^ 52) 1 : Nat) - 1075 : Int) = p + 1 by omega,
        zpow_add_one₀ two_ne_zero]
      push_cast
      ring

/-- **Bits that are put together by addition.** A whole number of units that is carried into the
exponent is the same number. -/
theorem exists_view_ofBits (negative : Bool) {p : Int} {n magnitude : Nat} (hp : -1074 ≤ p)
    (hn : n ≤ 2 ^ 53) (hfull : p ≠ -1074 → 2 ^ 52 ≤ n)
    (hmagnitude : magnitude = (p + 1074).toNat * 2 ^ 52 + n) (hlt : magnitude < infinityBits) :
    ∃ d, view (ofBits negative magnitude) = .finite d ∧
      d.value = signed (if negative then .negative else .positive) (n * 2 ^ p) := by
  have hbits : infinityBits = 2047 * 2 ^ 52 := rfl
  have hroom : magnitude < 2 ^ 63 := by omega
  obtain ⟨hfinite, hnumber⟩ := unpack_eq_of_exponent (exponent_word negative hroom)
    (fraction_word negative hroom) (by omega)
  rw [significand_mul_scale hp hn hfull hmagnitude, sign_word negative hroom] at hnumber
  have hunit : (0 : ℚ) < 2 ^ p := by positivity
  have hlarge : (n : ℚ) * 2 ^ p < 2 ^ (53 : Int) * 2 ^ (971 : Int) := by
    rcases (show p ≤ 971 by omega).lt_or_eq with hlow | hlast
    · calc (n : ℚ) * 2 ^ p ≤ 2 ^ (53 : Int) * 2 ^ p :=
            mul_le_mul_of_nonneg_right (by exact_mod_cast hn) hunit.le
        _ < 2 ^ (53 : Int) * 2 ^ (971 : Int) :=
            mul_lt_mul_of_pos_left (zpow_lt_zpow_right₀ one_lt_two hlow) (by positivity)
    · rw [← hlast]
      exact mul_lt_mul_of_pos_right (by exact_mod_cast (show n < 2 ^ 53 by omega)) hunit
  have htop : (2 : ℚ) ^ (53 : Int) * 2 ^ (971 : Int) = 2 ^ 1024 := by
    rw [← zpow_add₀ two_ne_zero, ← zpow_natCast]
    rfl
  have habs : |number (UnpackedFloat.unpack Format.binary64 (word negative magnitude))| <
      2 ^ 1024 := by
    rw [hnumber, abs_signed, abs_of_nonneg (mul_nonneg n.cast_nonneg hunit.le), ← htop]
    exact hlarge
  obtain ⟨d, hd, hvalue⟩ := exists_view_pack (canonical_unpack _) hfinite habs
  exact ⟨d, hd, hvalue.trans hnumber⟩

/-! ## Floats of quotients -/

/-- **The float nearest to a quotient.** -/
theorem exists_view_ofQuotient {n : Int} {den : Nat} {x : Float} (hden : 0 < den)
    (h : ofQuotient n den = .ok x) : ∃ d, view x = .finite d ∧ Nearest (n / den) d.value := by
  obtain ⟨hlt, rfl⟩ : nearestBits n.natAbs den < infinityBits ∧
      ofBits (n < 0) (nearestBits n.natAbs den) = x := by
    unfold ofQuotient nearest? at h
    by_cases hlt : nearestBits n.natAbs den < infinityBits
    · simpa [hlt] using h
    · simp [hlt] at h
  rcases eq_or_ne n 0 with rfl | hne
  · have hzero : nearestBits (Int.natAbs 0) den = 0 := if_pos rfl
    rw [hzero]
    refine ⟨⟨0, -1074⟩, view_zero, ?_⟩
    simpa [Dyadic.value] using Nearest.refl 0
  have hnum : 0 < n.natAbs := Int.natAbs_pos.mpr hne
  have hunits := units_lastBit hnum hden
  unfold nearestBits at hlt ⊢
  rw [if_neg hnum.ne'] at hlt ⊢
  obtain ⟨d, hd, hvalue⟩ := exists_view_ofBits (n < 0) hunits.exponent_ge hunits.le_two_pow
    hunits.two_pow_le rfl hlt
  refine ⟨d, hd, ?_⟩
  rw [hvalue]
  rcases hne.lt_or_gt with hneg | hpos
  · have habs : (n : ℚ) = -(n.natAbs : ℚ) := by
      rw [Nat.cast_natAbs, abs_of_neg hneg, Int.cast_neg, neg_neg]
    rw [if_pos (decide_eq_true hneg), habs, neg_div]
    exact hunits.nearest.neg
  · have habs : (n : ℚ) = n.natAbs := by
      rw [Nat.cast_natAbs, abs_of_pos hpos]
    rw [if_neg (by simpa using hpos.le), habs]
    exact hunits.nearest

theorem exists_ofQuotient_iff {n : Int} {den : Nat} (hden : 0 < den) :
    (∃ x, ofQuotient n den = .ok x) ↔ n.natAbs < den * floatLimit := by
  rw [← nearestBits_lt_iff _ hden]
  unfold ofQuotient nearest?
  by_cases hlt : nearestBits n.natAbs den < infinityBits <;> simp [hlt]

/-! ## Floats of whole numbers -/

theorem ofQuotient_one_iff {n : Int} {x : Float} : ofQuotient n 1 = .ok x ↔ ofInt n = .ok x := by
  unfold ofQuotient ofInt
  cases nearest? n 1 <;> simp

theorem exists_view_ofInt {n : Int} {x : Float} (h : ofInt n = .ok x) :
    ∃ d, view x = .finite d ∧ Nearest n d.value := by
  simpa using exists_view_ofQuotient one_pos (ofQuotient_one_iff.mpr h)

theorem exists_ofInt_iff {n : Int} : (∃ x, ofInt n = .ok x) ↔ n.natAbs < floatLimit := by
  simpa [ofQuotient_one_iff] using @exists_ofQuotient_iff n 1 one_pos

theorem two_pow_le_floatLimit {k : Nat} (hk : k ≤ 1023) : 2 ^ k ≤ floatLimit := by
  have hle : ∀ unit, k ≤ 53 + unit → 2 ^ k ≤ (2 ^ 54 - 1) * 2 ^ unit := by
    intro unit h
    refine (Nat.pow_le_pow_right two_pos h).trans ?_
    rw [pow_add]
    exact Nat.mul_le_mul_right _ (by decide)
  exact hle 970 hk

/-- A whole number of at most 53 bits is a float. -/
theorem exists_view_ofNat {n : Nat} (hn : n < 2 ^ 53) :
    ∃ x d, ofInt n = .ok x ∧ view x = .finite d ∧ d.value = n := by
  obtain ⟨x, hx⟩ := (@exists_ofInt_iff n).mpr (by
    rw [Int.natAbs_natCast]
    exact hn.trans_le (two_pow_le_floatLimit (by decide)))
  obtain ⟨d, hd, hnearest⟩ := exists_view_ofInt hx
  have hadjoins := hnearest.adjoins _ (representable_natCast hn)
  rw [Int.cast_natCast] at hadjoins
  exact ⟨x, d, hx, hd, le_antisymm (hadjoins.2 le_rfl) (hadjoins.1 le_rfl)⟩

/-- A whole number above zero is at least one as a float. -/
theorem one_le_value_ofInt {n : Int} {x : Float} {d : Dyadic} (hn : 1 ≤ n) (h : ofInt n = .ok x)
    (hd : view x = .finite d) : 1 ≤ d.value := by
  obtain ⟨d', hd', hnearest⟩ := exists_view_ofInt h
  obtain rfl : d' = d := by
    rw [hd] at hd'
    cases hd'
    rfl
  refine (hnearest.adjoins 1 ?_).1 (by exact_mod_cast hn)
  simpa using @representable_natCast 1 (by decide)

theorem ofInt_ne_zero {n : Int} {x : Float} (hn : 1 ≤ n) (h : ofInt n = .ok x) :
    (x == 0) = false := by
  obtain ⟨d, hd, -⟩ := exists_view_ofInt h
  have hone := one_le_value_ofInt hn h hd
  rw [beq_zero_eq_false_iff hd]
  linarith

/-- **A whole number above zero is a float that is not zero.** -/
theorem exists_ofInt {n : Nat} (h : 0 < n) (hlog : n.log2 < 1023) :
    ∃ x, ofInt n = .ok x ∧ (x == 0) = false := by
  obtain ⟨x, hx⟩ := (@exists_ofInt_iff n).mpr (by
    rw [Int.natAbs_natCast]
    exact ((Nat.log2_eq_iff h.ne').mp rfl).2.trans_le (two_pow_le_floatLimit hlog))
  exact ⟨x, hx, ofInt_ne_zero (by omega) hx⟩

end Binary64
end Chiptune
