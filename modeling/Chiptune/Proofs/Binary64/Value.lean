import Mathlib
import Chiptune.Proofs.Binary64.Sign

/-!
# The number that a float stands for

`Binary64.view` reads a float off its bits, and arithmetic works on its unpacked parts. Both see the
same number (`view_eq`), and packing parts does not change it as long as they fit
(`viewOf_of_view_pack`). With this a fact about the result of an operation is a fact about whole
numbers and powers of two.

Parts fit where the significand has at most 53 bits, and fewer only at the least exponent
(`Fits`). Unpacking gives nothing else, and rounding makes nothing else.
-/

namespace Chiptune
namespace Binary64

open Float.Model Float.Model.UnpackedFloat

/-- The number that mantissa and exponent stand for. -/
def Dyadic.value (d : Dyadic) : ℚ := d.mantissa * 2 ^ d.exponent

theorem Dyadic.value_nonneg {d : Dyadic} (h : 0 ≤ d.mantissa) : 0 ≤ d.value := by
  unfold value
  have : (0 : ℚ) ≤ d.mantissa := by exact_mod_cast h
  positivity

/-! ## Rounding to whole numbers -/

/-- A number is within a half of the whole number it rounds to, and nearer where that is odd. -/
def RoundsTo (q : ℚ) (n : Int) : Prop :=
  2 * (n : ℚ) - 1 ≤ 2 * q ∧ 2 * q ≤ 2 * (n : ℚ) + 1 ∧
    (n % 2 = 1 → 2 * (n : ℚ) - 1 < 2 * q ∧ 2 * q < 2 * (n : ℚ) + 1)

namespace RoundsTo

variable {q q' : ℚ} {n n' : Int}

/-- Rounding keeps the order. -/
theorem mono (h : RoundsTo q n) (h' : RoundsTo q' n') (hle : q ≤ q') : n ≤ n' := by
  by_contra hlt
  have hstep : (n' : ℚ) + 1 ≤ n := by exact_mod_cast not_le.mp hlt
  obtain ⟨hlow, -, hodd⟩ := h
  obtain ⟨-, hhigh, hodd'⟩ := h'
  -- Both are half way between two neighbours, and one of these is odd.
  have hnext : n = n' + 1 := by
    have : (n : ℚ) = n' + 1 := by linarith
    exact_mod_cast this
  rcases Int.emod_two_eq_zero_or_one n' with heven | hodd''
  · linarith [(hodd (by omega)).1]
  · linarith [(hodd' hodd'').2]

/-- So there is one number at most to round to. -/
theorem unique (h : RoundsTo q n) (h' : RoundsTo q n') : n = n' :=
  le_antisymm (h.mono h' le_rfl) (h'.mono h le_rfl)

theorem abs_sub_le (h : RoundsTo q n) : |(n : ℚ) - q| ≤ 1 / 2 :=
  abs_sub_le_iff.mpr ⟨by linarith [h.1], by linarith [h.2.1]⟩

end RoundsTo

theorem Dyadic.round_negSucc_spec (m : Int) (e : Nat) {unit : Int} (hunit : unit = 2 ^ (e + 1)) :
    (2 * Dyadic.round ⟨m, .negSucc e⟩ - 1) * unit ≤ 2 * m ∧
      2 * m ≤ (2 * Dyadic.round ⟨m, .negSucc e⟩ + 1) * unit ∧
      (Dyadic.round ⟨m, .negSucc e⟩ % 2 = 1 →
        (2 * Dyadic.round ⟨m, .negSucc e⟩ - 1) * unit < 2 * m ∧
          2 * m < (2 * Dyadic.round ⟨m, .negSucc e⟩ + 1) * unit) := by
  have hpos : 0 < unit := by rw [hunit]; positivity
  have hsplit := Int.mul_ediv_add_emod m unit
  have hrem := Int.emod_nonneg m hpos.ne'
  have hlt := Int.emod_lt_of_pos m hpos
  have hround : Dyadic.round ⟨m, .negSucc e⟩ =
      if 2 * (m % unit) < unit then m / unit
      else if 2 * (m % unit) > unit then m / unit + 1
      else if m / unit % 2 = 0 then m / unit
      else m / unit + 1 := by
    rw [hunit]
    simp [round]
  rw [hround]
  generalize m / unit = low at *
  generalize m % unit = rem at *
  split
  · exact ⟨by linarith, by linarith, fun _ => ⟨by linarith, by linarith⟩⟩
  · split
    · exact ⟨by linarith, by linarith, fun _ => ⟨by linarith, by linarith⟩⟩
    · split
      · exact ⟨by linarith, by linarith, fun _ => by omega⟩
      · exact ⟨by linarith, by linarith, fun _ => by omega⟩

theorem Dyadic.round_spec (d : Dyadic) : RoundsTo d.value d.round := by
  obtain ⟨m, e⟩ := d
  cases e with
  | ofNat e =>
    have hround : (Dyadic.round ⟨m, .ofNat e⟩ : ℚ) = Dyadic.value ⟨m, .ofNat e⟩ := by
      simp [round, value]
    rw [RoundsTo, hround]
    exact ⟨by linarith, by linarith, fun _ => ⟨by linarith, by linarith⟩⟩
  | negSucc e =>
    obtain ⟨hlow, hhigh, hodd⟩ := round_negSucc_spec m e rfl
    have hpos : (0 : ℚ) < 2 ^ (e + 1) := by positivity
    have hvalue : 2 * Dyadic.value ⟨m, .negSucc e⟩ = (2 * m : ℚ) / 2 ^ (e + 1) := by
      rw [value, zpow_negSucc]
      ring
    rw [RoundsTo, hvalue, le_div_iff₀ hpos, div_le_iff₀ hpos, lt_div_iff₀ hpos, div_lt_iff₀ hpos]
    exact ⟨by exact_mod_cast hlow, by exact_mod_cast hhigh, fun h => by exact_mod_cast hodd h⟩

theorem Dyadic.round_mono {d d' : Dyadic} (h : d.value ≤ d'.value) : d.round ≤ d'.round :=
  d.round_spec.mono d'.round_spec h

/-- Bounds that are whole numbers are kept. -/
theorem Dyadic.round_bounds {d : Dyadic} {most : Nat} (hnonneg : 0 ≤ d.value)
    (hle : d.value ≤ most) :
    0 ≤ d.round ∧ d.round ≤ most := by
  obtain ⟨hlow, hhigh, -⟩ := d.round_spec
  have habove : ((d.round : Int) : ℚ) < (most + 1 : Int) := by
    push_cast
    linarith
  have hbelow : ((-1 : Int) : ℚ) < d.round := by
    push_cast
    linarith
  have habove' := Int.cast_lt.mp habove
  have hbelow' := Int.cast_lt.mp hbelow
  omega

theorem view_zero : view 0 = .finite ⟨0, -1074⟩ := rfl

theorem toInt_of_view {rule : Dyadic → Int} {x : Float} {d : Dyadic} (h : view x = .finite d) :
    toInt rule x = .ok (rule d) := by
  unfold toInt
  rw [h]

theorem exists_view_of_toInt {rule : Dyadic → Int} {x : Float} {n : Int}
    (h : toInt rule x = .ok n) : ∃ d, view x = .finite d ∧ rule d = n := by
  unfold toInt at h
  split at h
  · rename_i d hd
    cases h
    exact ⟨d, hd, rfl⟩
  · cases h
  · cases h

/-! ## The fields of a float -/

theorem biasedExponent_eq (x : Float) :
    biasedExponent x = (@unpackExponent Format.binary64 x.toBits.toBitVec).toNat := by
  unfold biasedExponent unpackExponent
  rw [UInt64.toNat_and, UInt64.toNat_shiftRight, BitVec.toNat_cast, BitVec.extractLsb_toNat]
  exact Nat.and_two_pow_sub_one_eq_mod _ 11

theorem fraction_eq (x : Float) :
    fraction x = (@unpackMantissa Format.binary64 x.toBits.toBitVec).toNat := by
  unfold fraction unpackMantissa
  rw [UInt64.toNat_and, BitVec.toNat_cast, BitVec.extractLsb_toNat, Nat.shiftRight_zero]
  exact Nat.and_two_pow_sub_one_eq_mod _ 52

theorem exponent_eq_allOnes_iff {b : BitVec 11} : b = -1#11 ↔ b.toNat = 2047 := by
  rw [← BitVec.toNat_inj]
  rfl

theorem eq_zero_iff_toNat {n : Nat} {b : BitVec n} : b = 0#n ↔ b.toNat = 0 := by
  rw [← BitVec.toNat_inj, BitVec.toNat_zero]

theorem toNat_implicit_append (m : BitVec 52) : (1#1 ++ m).toNat = 2 ^ 52 + m.toNat := by
  rw [BitVec.toNat_append, ← Nat.shiftLeft_add_eq_or_of_lt m.isLt]
  rfl

/-! ## Parts and numbers -/

/-- What unpacked parts stand for. -/
def viewOf : UnpackedFloat → View
  | .infinity sign => .infinite sign.toBitVec.msb
  | .notANumber => .nan
  | .zero _ => .finite ⟨0, -1074⟩
  | .finite sign m e _ => .finite ⟨sign.apply m, e⟩

theorem sign_unpack_eq (x : Float) :
    Sign.ofBitVec (@unpackSign Format.binary64 x.toBits.toBitVec) =
      if isNegative x then .negative else .positive := by
  rw [unpackSign_eq, isNegative_eq_msb]
  cases x.toBits.toBitVec.msb <;> rfl

/-- **A float is what its parts are.** -/
theorem view_eq (x : Float) : view x = viewOf x.toModel.unpack := by
  have hE := biasedExponent_eq x
  have hM := fraction_eq x
  have hsign := sign_unpack_eq x
  show view x = viewOf (UnpackedFloat.unpack Format.binary64 x.toBits.toBitVec)
  unfold view significand scale UnpackedFloat.unpack
  simp only [hsign]
  by_cases hones : biasedExponent x = 2047
  · rw [if_pos hones, if_pos (exponent_eq_allOnes_iff.mpr (hE ▸ hones))]
    by_cases hzero : fraction x = 0
    · rw [if_pos hzero, if_pos (eq_zero_iff_toNat.mpr (hM ▸ hzero)), viewOf]
      cases isNegative x <;> rfl
    · rw [if_neg hzero, if_neg fun h => hzero (hM ▸ eq_zero_iff_toNat.mp h), viewOf]
  rw [if_neg hones, if_neg fun h => hones (hE ▸ exponent_eq_allOnes_iff.mp h)]
  by_cases hsubnormal : biasedExponent x = 0
  · rw [if_pos hsubnormal, if_pos (eq_zero_iff_toNat.mpr (hE ▸ hsubnormal))]
    by_cases hzero : fraction x = 0
    · rw [dif_pos (eq_zero_iff_toNat.mpr (hM ▸ hzero)), viewOf, hzero, if_pos hsubnormal]
      simp
    · rw [dif_neg fun h => hzero (hM ▸ eq_zero_iff_toNat.mp h), viewOf, if_pos hsubnormal, ← hE,
        ← hM, hsubnormal]
      cases isNegative x <;> rfl
  · have happend := toNat_implicit_append (@unpackMantissa Format.binary64 x.toBits.toBitVec)
    rw [← hM] at happend
    rw [if_neg hsubnormal, if_neg fun h => hsubnormal (hE ▸ eq_zero_iff_toNat.mp h), viewOf,
      if_neg hsubnormal, happend, ← hE]
    cases isNegative x <;> rfl

/-- A number that has a sign is not above zero. -/
theorem value_nonpos {x : Float} {d : Dyadic} (hx : HasSign x.toModel.unpack)
    (h : view x = .finite d) : d.value ≤ 0 := by
  rw [view_eq] at h
  rcases hx with hx | hx
  · cases hu : x.toModel.unpack with
    | finite sign m e hm =>
      rw [hu] at hx h
      cases hx
      cases h
      rw [Dyadic.value, Sign.apply, Int.cast_neg, neg_mul, neg_nonpos]
      exact Dyadic.value_nonneg (d := ⟨m, e⟩) (Int.natCast_nonneg m)
    | infinity sign => rw [hu] at h; cases h
    | notANumber => rw [hu] at h; cases h
    | zero sign => rw [hu] at h; cases h; simp [Dyadic.value]
  · rw [hx] at h
    cases h

/-! ## Parts that fit -/

/-- A mantissa and an exponent that a float has room for, but for an exponent that is too large. -/
structure Fits (m : Nat) (e : Int) : Prop where
  mantissa_lt : m < 2 ^ 53
  exponent_ge : -1074 ≤ e
  full_or_least : 2 ^ 52 ≤ m ∨ e = -1074

/-- Unpacked parts that fit. -/
def Canonical : UnpackedFloat → Prop
  | .finite _ m e _ => Fits m e
  | _ => True

theorem canonical_unpack (b : BitVec 64) : Canonical (UnpackedFloat.unpack Format.binary64 b) := by
  have hmantissa : (@unpackMantissa Format.binary64 b).toNat < 2 ^ 52 := BitVec.isLt _
  unfold UnpackedFloat.unpack
  simp only
  split
  · split <;> trivial
  · split
    · rename_i hexponent
      split
      · trivial
      · refine ⟨by omega, ?_, Or.inr ?_⟩ <;> rw [hexponent] <;> decide
    · rename_i hexponent
      rw [eq_zero_iff_toNat] at hexponent
      refine ⟨?_, ?_, Or.inl ?_⟩
      · rw [toNat_implicit_append]; omega
      · show -1074 ≤ _ - (1023 + 52 : Int); omega
      · rw [toNat_implicit_append]; omega

theorem ofBitVec_unpackSign_packComponents (sign : Sign) (exponent : BitVec 11)
    (mantissa : BitVec 52) :
    Sign.ofBitVec (@unpackSign Format.binary64 (packComponents _ sign exponent mantissa)) =
      sign := by
  rw [unpackSign_eq, msb_packComponents]
  cases sign <;> rfl

theorem unpack_packedInfinity (sign : Sign) :
    UnpackedFloat.unpack Format.binary64 (packedInfinity Format.binary64 sign) =
      .infinity sign := by
  simp only [UnpackedFloat.unpack, packedInfinity, unpackExponent_packComponents,
    unpackMantissa_packComponents, ofBitVec_unpackSign_packComponents]
  rfl

theorem unpack_normal (sign : Sign) {m : Nat} {e : Int} (hm : 0 < m) (hfull : 2 ^ 52 ≤ m)
    (hlt : m < 2 ^ 53) (hge : -1074 ≤ e) (hle : e ≤ 971) :
    UnpackedFloat.unpack Format.binary64 (packComponents Format.binary64 sign
      (BitVec.ofNat 11 (e + 1075).toNat) (BitVec.ofNat 52 m)) = .finite sign m e hm := by
  have hexponent : (BitVec.ofNat 11 (e + 1075).toNat).toNat = (e + 1075).toNat :=
    Nat.mod_eq_of_lt (by omega)
  have hfraction : (BitVec.ofNat 52 m).toNat = m - 2 ^ 52 := by
    show m % 2 ^ 52 = _
    omega
  simp only [UnpackedFloat.unpack, unpackExponent_packComponents, unpackMantissa_packComponents,
    ofBitVec_unpackSign_packComponents]
  rw [if_neg fun h => by rw [exponent_eq_allOnes_iff] at h; omega,
    if_neg fun h => by rw [eq_zero_iff_toNat] at h; omega]
  congr 1
  · rw [toNat_implicit_append, hfraction]
    omega
  · rw [hexponent]
    show _ - (1023 + 52 : Int) = e
    omega

theorem unpack_subnormal (sign : Sign) {m : Nat} (hm : 0 < m) (hlt : m < 2 ^ 52) :
    UnpackedFloat.unpack Format.binary64 (packComponents Format.binary64 sign 0#11
      (BitVec.ofNat 52 m)) = .finite sign m (-1074) hm := by
  have hfraction : (BitVec.ofNat 52 m).toNat = m := Nat.mod_eq_of_lt hlt
  simp only [UnpackedFloat.unpack, unpackExponent_packComponents, unpackMantissa_packComponents,
    ofBitVec_unpackSign_packComponents]
  rw [if_neg (by decide), if_pos trivial,
    dif_neg fun h => by rw [eq_zero_iff_toNat] at h; omega]
  congr 1

/-- Packing takes nothing away from parts that fit, and an exponent that is too large is an
infinity. -/
theorem unpack_pack_finite {sign : Sign} {m : Nat} {e : Int} (hm : 0 < m) (h : Fits m e) :
    UnpackedFloat.unpack Format.binary64
        (UnpackedFloat.pack Format.binary64 (.finite sign m e hm)) =
      if e ≤ 971 then .finite sign m e hm else .infinity sign := by
  have hge := h.exponent_ge
  have hlt := h.mantissa_lt
  have hbiased : (e + Format.binary64.exponentBias + (52 : Nat)).toNat = (e + 1075).toNat := by
    show (e + (1023 : Nat) + (52 : Nat)).toNat = _
    omega
  have hbits : Format.binary64.mantissaBits = 53 := rfl
  unfold UnpackedFloat.pack
  simp only [hbiased, hbits]
  by_cases hle : e ≤ 971
  · rw [if_pos hle, if_neg (show ¬ 2048 ≤ (e + 1075).toNat + 1 by omega)]
    by_cases hfull : 2 ^ 52 ≤ m
    · have hlog : m.log2 = 52 := (Nat.log2_eq_iff (by omega)).mpr ⟨hfull, hlt⟩
      rw [if_pos (by rw [hlog]), unpack_normal sign hm hfull hlt hge hle]
    · have hleast : e = -1074 := h.full_or_least.resolve_left hfull
      have hlog : m.log2 < 52 := (Nat.log2_lt (by omega)).mpr (by omega)
      subst hleast
      rw [if_neg (by omega), unpack_subnormal sign hm (by omega)]
  · rw [if_neg hle, if_pos (show 2048 ≤ (e + 1075).toNat + 1 by omega), unpack_packedInfinity]

/-- **Packing takes nothing away.** What is seen of parts that were packed is what they stood for,
if it is a number at all. -/
theorem viewOf_of_view_pack {u : UnpackedFloat} (h : Canonical u) {d : Dyadic}
    (hd : view (Float.ofModel (Float.Model.pack u)) = .finite d) : viewOf u = .finite d := by
  rw [view_eq] at hd
  cases u with
  | infinity sign => cases sign <;> exact hd
  | notANumber => exact hd
  | zero sign => cases sign <;> exact hd
  | finite sign m e hm =>
    have hd : viewOf (UnpackedFloat.unpack Format.binary64 (UnpackedFloat.pack Format.binary64
      (.finite sign m e hm))) = .finite d := hd
    rw [unpack_pack_finite hm h] at hd
    split at hd
    · exact hd
    · cases hd

end Binary64
end Chiptune
