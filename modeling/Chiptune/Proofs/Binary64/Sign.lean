import Mathlib
import Chiptune.Number

/-!
# The sign of a float

How long a note takes is computed in floats, and the rendering relies on it that no note takes less
than no time. This file follows the sign bit through what is computed there: the float nearest to a
whole number, products, quotients, and rounding to a whole number at the end.

Floats are computed on their parts: unpacked, worked on, and packed again. So a sign is followed in
three steps, one for each (`signOf_unpack`, `signOf_mul` and `signOf_div`, `isNegative_pack`). A
float that is not a number has no sign to lose, since there is one encoding of it and it is
positive; it is refused when it is rounded.
-/

namespace Chiptune
namespace Binary64

open Float.Model Float.Model.UnpackedFloat

/-! ## Packing and unpacking -/

theorem isNegative_eq_msb (x : Float) : isNegative x = x.toBits.toBitVec.msb := by
  unfold isNegative
  rw [BitVec.msb_eq_decide, Bool.eq_iff_iff, beq_iff_eq, decide_eq_true_iff, ← UInt64.toNat_inj,
    UInt64.toNat_shiftRight, UInt64.toNat_toBitVec, Nat.shiftRight_eq_div_pow]
  have := x.toBits.toNat_lt
  show x.toBits.toNat / 2 ^ 63 = 1 ↔ 2 ^ 63 ≤ x.toBits.toNat
  omega

/-- The sign of an unpacked float. A not-a-number counts as positive: its one encoding has no sign
bit. -/
def signOf : UnpackedFloat → Sign
  | .infinity sign => sign
  | .notANumber => .positive
  | .zero sign => sign
  | .finite sign _ _ _ => sign

theorem msb_packComponents (sign : Sign) (exponent : BitVec 11) (mantissa : BitVec 52) :
    (packComponents Format.binary64 sign exponent mantissa).msb = sign.toBitVec.msb := by
  unfold packComponents
  rw [BitVec.msb_append, BitVec.msb_append]
  rfl

theorem msb_pack (u : UnpackedFloat) :
    (UnpackedFloat.pack Format.binary64 u).msb = (signOf u).toBitVec.msb := by
  cases u with
  | infinity sign => exact msb_packComponents _ _ _
  | notANumber => exact msb_packComponents _ _ _
  | zero sign => exact msb_packComponents _ _ _
  | finite sign m e hm =>
    unfold UnpackedFloat.pack
    simp only
    split
    · exact msb_packComponents _ _ _
    · split <;> exact msb_packComponents _ _ _

/-- Packing keeps the sign. -/
theorem isNegative_pack (u : UnpackedFloat) :
    isNegative (Float.ofModel (Float.Model.pack u)) = (signOf u).toBitVec.msb := by
  rw [isNegative_eq_msb]
  exact msb_pack u

theorem unpackSign_eq (b : BitVec 64) :
    (@unpackSign Format.binary64 b) = BitVec.ofBool b.msb := by
  ext i hi
  obtain rfl : i = 0 := by omega
  simp [unpackSign, BitVec.msb_eq_getLsbD_last]
  rfl

/-- Unpacking keeps the sign, except that of a not-a-number. -/
theorem signOf_unpack (b : BitVec 64) :
    (signOf (UnpackedFloat.unpack Format.binary64 b)).toBitVec.msb = b.msb ∨
      signOf (UnpackedFloat.unpack Format.binary64 b) = .positive ∧
        @unpackExponent Format.binary64 b = -1#_ ∧
          @unpackMantissa Format.binary64 b ≠ 0#_ := by
  have hsign : (Sign.ofBitVec (@unpackSign Format.binary64 b)).toBitVec.msb = b.msb := by
    rw [Sign.toBitVec_ofBitVec, unpackSign_eq, BitVec.msb_ofBool]
  -- Every branch hands the sign bit on but the one of a not-a-number.
  unfold UnpackedFloat.unpack
  simp only
  split
  · rename_i hexponent
    split
    · exact Or.inl hsign
    · rename_i hmantissa
      exact Or.inr ⟨rfl, hexponent, hmantissa⟩
  · split
    · split <;> exact Or.inl hsign
    · exact Or.inl hsign

theorem signOf_unpack_of_msb {b : BitVec 64} (h : b.msb = false) :
    signOf (UnpackedFloat.unpack Format.binary64 b) = .positive := by
  rcases signOf_unpack b with hsign | ⟨hsign, -, -⟩
  · rw [h] at hsign
    cases hs : signOf (UnpackedFloat.unpack Format.binary64 b) with
    | positive => rfl
    | negative => rw [hs] at hsign; exact absurd hsign (by decide)
  · exact hsign

/-- Whether a float has a sign bit is seen on its parts: the bits of a not-a-number are those of the
one that is positive. -/
theorem isNegative_eq_false_iff {x : Float} :
    isNegative x = false ↔ signOf x.toModel.unpack = .positive := by
  rw [isNegative_eq_msb]
  constructor
  · exact signOf_unpack_of_msb
  · intro h
    rcases signOf_unpack x.toModel.toBits.toBitVec with hsign | ⟨-, hexponent, hmantissa⟩
    · rw [show signOf (UnpackedFloat.unpack Format.binary64 _) = .positive from h] at hsign
      exact hsign.symm
    · show x.toModel.toBits.toBitVec.msb = false
      rw [x.toModel.valid.eq_packedNaN hexponent hmantissa]
      exact msb_packComponents _ _ _

/-! ## Arithmetic -/

theorem signOf_roundWithAccuracy (sign : Sign) (m : Nat) (e : Int) (accuracy : Accuracy) :
    signOf (roundWithAccuracy Format.binary64 sign m e accuracy) = sign := by
  unfold roundWithAccuracy
  simp only
  split <;> rfl

theorem signOf_mul {u v : UnpackedFloat} (hu : signOf u = .positive) (hv : signOf v = .positive) :
    signOf (UnpackedFloat.mul Format.binary64 u v) = .positive := by
  cases u <;> cases v <;> simp only [signOf] at hu hv <;> subst_vars <;>
    first | rfl | exact signOf_roundWithAccuracy _ _ _ _

theorem signOf_div {u v : UnpackedFloat} (hu : signOf u = .positive) (hv : signOf v = .positive) :
    signOf (UnpackedFloat.div Format.binary64 u v) = .positive := by
  cases u <;> cases v <;> simp only [signOf] at hu hv <;> subst_vars <;>
    first | rfl | exact signOf_roundWithAccuracy _ _ _ _

/-- **A product of floats without a sign has none.** -/
theorem isNegative_mul {x y : Float} (hx : isNegative x = false) (hy : isNegative y = false) :
    isNegative (x * y) = false := by
  show isNegative (Float.ofModel (Float.Model.pack _)) = false
  rw [isNegative_pack, signOf_mul (isNegative_eq_false_iff.mp hx) (isNegative_eq_false_iff.mp hy)]
  rfl

theorem isNegative_div {x y : Float} (hx : isNegative x = false) (hy : isNegative y = false) :
    isNegative (x / y) = false := by
  show isNegative (Float.ofModel (Float.Model.pack _)) = false
  rw [isNegative_pack, signOf_div (isNegative_eq_false_iff.mp hx) (isNegative_eq_false_iff.mp hy)]
  rfl

theorem divide_eq_ok_iff {x y z : Float} : divide x y = .ok z ↔ (y == 0) = false ∧ x / y = z := by
  unfold divide
  cases y == 0 <;> simp

theorem isNegative_divide {x y z : Float} (hx : isNegative x = false) (hy : isNegative y = false)
    (h : divide x y = .ok z) : isNegative z = false := by
  obtain ⟨-, rfl⟩ := divide_eq_ok_iff.mp h
  exact isNegative_div hx hy

/-- Parts with a sign, if they stand for anything. -/
def HasSign (u : UnpackedFloat) : Prop := signOf u = .negative ∨ u = .notANumber

theorem hasSign_mul {u v : UnpackedFloat} (hu : HasSign u) (hv : signOf v = .positive) :
    HasSign (UnpackedFloat.mul Format.binary64 u v) := by
  rcases hu with hu | rfl
  · cases u <;> cases v <;> simp only [signOf] at hu hv <;> subst_vars <;>
      first | cases hu | exact Or.inr rfl | exact Or.inl rfl |
        exact Or.inl (signOf_roundWithAccuracy _ _ _ _)
  · exact Or.inr rfl

theorem hasSign_div {u v : UnpackedFloat} (hu : HasSign u) (hv : signOf v = .positive) :
    HasSign (UnpackedFloat.div Format.binary64 u v) := by
  rcases hu with hu | rfl
  · cases u <;> cases v <;> simp only [signOf] at hu hv <;> subst_vars <;>
      first | cases hu | exact Or.inr rfl | exact Or.inl rfl |
        exact Or.inl (signOf_roundWithAccuracy _ _ _ _)
  · exact Or.inr rfl

theorem hasSign_unpack {b : BitVec 64} (h : b.msb = true) :
    HasSign (UnpackedFloat.unpack Format.binary64 b) := by
  rcases signOf_unpack b with hsign | ⟨-, hexponent, hmantissa⟩
  · rw [h] at hsign
    cases hs : signOf (UnpackedFloat.unpack Format.binary64 b) with
    | positive => rw [hs] at hsign; exact absurd hsign (by decide)
    | negative => exact Or.inl hs
  · refine Or.inr ?_
    unfold UnpackedFloat.unpack
    simp only
    rw [if_pos hexponent, if_neg hmantissa]

theorem hasSign_of_isNegative {x : Float} (h : isNegative x = true) : HasSign x.toModel.unpack :=
  hasSign_unpack ((isNegative_eq_msb x).symm.trans h)

theorem hasSign_pack {u : UnpackedFloat} (h : HasSign u) :
    HasSign (Float.ofModel (Float.Model.pack u)).toModel.unpack := by
  rcases h with h | rfl
  · apply hasSign_of_isNegative
    rw [isNegative_pack, h]
    rfl
  · exact Or.inr rfl

theorem unpack_zero : (0 : Float).toModel.unpack = .zero .positive := by rfl

/-- What is neither below zero nor zero has no sign. A not-a-number is neither. -/
theorem isNegative_of_positive {x : Float} (hlt : ¬ x < 0) (hzero : (x == 0) = false) :
    isNegative x = false := by
  have hlt' : x.toModel.unpack.lt (.zero .positive) = false := by
    rw [← unpack_zero]
    exact Bool.eq_false_iff.mpr fun h => hlt (decide_eq_true h)
  have hzero' : x.toModel.unpack.beq (.zero .positive) = false := by
    rw [← unpack_zero]
    exact hzero
  -- A negative zero is not below zero; it is the second hypothesis that rules it out.
  rw [isNegative_eq_false_iff]
  generalize x.toModel.unpack = u at *
  cases u with
  | notANumber => rfl
  | infinity sign => cases sign <;> first | rfl | exact absurd hlt' (by decide)
  | zero sign => cases sign <;> first | rfl | exact absurd hzero' (by decide)
  | finite sign m e hm => cases sign <;> first | rfl | exact absurd hlt' (by simp [UnpackedFloat.lt,
      UnpackedFloat.compare])

/-- Bits below those of infinity leave the sign bit alone. -/
theorem isNegative_ofBits {magnitude : Nat} (h : magnitude < infinityBits) :
    isNegative (ofBits false magnitude) = false := by
  have hmsb : (0 + magnitude).toUInt64.toBitVec.msb = false := by
    rw [BitVec.msb_eq_decide, decide_eq_false_iff_not, Nat.zero_add]
    have hbound : infinityBits ≤ 2 ^ 63 := by decide
    show ¬ 2 ^ 63 ≤ magnitude % 2 ^ 64
    omega
  show isNegative (Float.ofModel (Float.Model.pack
    (UnpackedFloat.unpack Format.binary64 (0 + magnitude).toUInt64.toBitVec))) = false
  rw [isNegative_pack, signOf_unpack_of_msb hmsb]
  rfl

theorem hasSign_ofBits {magnitude : Nat} (h : magnitude < infinityBits) :
    HasSign (ofBits true magnitude).toModel.unpack := by
  refine hasSign_pack (hasSign_unpack (b := (Nat.pow 2 63 + magnitude).toUInt64.toBitVec) ?_)
  rw [BitVec.msb_eq_decide, decide_eq_true_iff]
  have hbound : infinityBits ≤ 2 ^ 63 := by decide
  show 2 ^ 63 ≤ (2 ^ 63 + magnitude) % 2 ^ 64
  omega

theorem ofInt_eq_ok_iff {n : Int} {x : Float} :
    ofInt n = .ok x ↔
      nearestBits n.natAbs 1 < infinityBits ∧ ofBits (n < 0) (nearestBits n.natAbs 1) = x := by
  unfold ofInt nearest?
  by_cases h : nearestBits n.natAbs 1 < infinityBits <;> simp [h]

theorem isNegative_ofInt {n : Int} {x : Float} (hn : 0 ≤ n) (h : ofInt n = .ok x) :
    isNegative x = false := by
  obtain ⟨hlt, rfl⟩ := ofInt_eq_ok_iff.mp h
  rw [decide_eq_false (not_lt.mpr hn)]
  exact isNegative_ofBits hlt

theorem hasSign_ofInt {n : Int} {x : Float} (hn : n < 0) (h : ofInt n = .ok x) :
    HasSign x.toModel.unpack := by
  obtain ⟨hlt, rfl⟩ := ofInt_eq_ok_iff.mp h
  rw [decide_eq_true hn]
  exact hasSign_ofBits hlt

/-! ## Rounding -/

theorem view_mantissa_nonneg {x : Float} {d : Dyadic} (hx : isNegative x = false)
    (h : view x = .finite d) : 0 ≤ d.mantissa := by
  unfold view at h
  split at h
  · split at h <;> cases h
  · cases h
    simp [hx]

theorem Dyadic.round_nonneg {d : Dyadic} (h : 0 ≤ d.mantissa) : 0 ≤ d.round := by
  unfold round
  split
  · exact Int.mul_nonneg h (Int.natCast_nonneg _)
  · rename_i e _
    have hlow : 0 ≤ d.mantissa / ((Nat.pow 2 (e + 1) : Nat) : Int) :=
      Int.ediv_nonneg h (Int.natCast_nonneg _)
    simp only
    repeat' split
    all_goals omega

theorem toInt_round_nonneg {x : Float} {n : Int} (hx : isNegative x = false)
    (h : toInt Dyadic.round x = .ok n) : 0 ≤ n := by
  unfold toInt at h
  split at h
  · rename_i d hd
    cases h
    exact Dyadic.round_nonneg (view_mantissa_nonneg hx hd)
  · cases h
  · cases h

end Binary64
end Chiptune
