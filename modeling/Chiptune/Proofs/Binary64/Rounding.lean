import Chiptune.Proofs.Binary64.Value

/-!
# Rounding to a float

What is computed in floats is the float nearest to the exact result: no number that a float can
stand for is nearer (`Nearest`), and so none is between the two (`Nearest.adjoins`). That holds of
whatever is rounded in units of the last bit that a float has room for (`Nearest.of_units`).

The arithmetic of floats does it by taking bits off a mantissa. Two bits remember what was taken off:
whether it was half a unit, and whether it was anything else (`Trace`). They are kept up to date bit
by bit, and say at the end which way to round.
-/

namespace Chiptune
namespace Binary64

open Float.Model Float.Model.UnpackedFloat

/-! ## Numbers that floats stand for -/

/-- A number that a float can stand for, if its exponent is not too large. -/
def Representable (q : ℚ) : Prop := ∃ m e, Fits m e ∧ |q| = m * 2 ^ e

/-- No number that a float can stand for is nearer. -/
def Nearest (q r : ℚ) : Prop := ∀ v, Representable v → |q - r| ≤ |q - v|

/-- No number that a float can stand for is between the two. -/
def Adjoins (q r : ℚ) : Prop := ∀ v, Representable v → (v ≤ q → v ≤ r) ∧ (q ≤ v → r ≤ v)

theorem Representable.neg {q : ℚ} (h : Representable q) : Representable (-q) := by
  obtain ⟨m, e, hfits, habs⟩ := h
  exact ⟨m, e, hfits, by rw [abs_neg, habs]⟩

theorem representable_of_fits {m : Nat} {e : Int} (h : Fits m e) :
    Representable (m * 2 ^ e : ℚ) :=
  ⟨m, e, h, abs_of_nonneg (by positivity)⟩

theorem fits_zero : Fits 0 (-1074) := ⟨by decide, le_rfl, Or.inr rfl⟩

theorem representable_zero : Representable 0 := by
  simpa using representable_of_fits fits_zero

/-- A whole number of at most 53 bits. -/
theorem representable_natCast {n : Nat} (h : n < 2 ^ 53) : Representable n := by
  by_cases hzero : n = 0
  · simpa [hzero] using representable_zero
  -- The mantissa is filled up with zeros.
  have hlog : n.log2 ≤ 52 := Nat.lt_succ_iff.mp ((Nat.log2_lt hzero).mpr h)
  obtain ⟨hle, hlt⟩ := (Nat.log2_eq_iff hzero).mp rfl
  obtain ⟨j, hj⟩ := Nat.exists_eq_add_of_le hlog
  have hfits : Fits (n * 2 ^ j) (-j) := by
    refine ⟨?_, by omega, Or.inl ?_⟩
    · calc n * 2 ^ j < 2 ^ (n.log2 + 1) * 2 ^ j := Nat.mul_lt_mul_of_pos_right hlt (by positivity)
        _ = 2 ^ 53 := by rw [← pow_add]; congr 1; omega
    · calc 2 ^ 52 = 2 ^ n.log2 * 2 ^ j := by rw [← pow_add, hj]
        _ ≤ n * 2 ^ j := Nat.mul_le_mul_right _ hle
  have hvalue : ((n * 2 ^ j : Nat) : ℚ) * 2 ^ (-(j : Int)) = n := by
    rw [zpow_neg, zpow_natCast]
    push_cast
    field_simp
  exact hvalue ▸ representable_of_fits hfits

theorem representable_two_pow {e : Nat} : Representable (2 ^ e) := by
  have hfits : Fits (2 ^ 52) ((e : Int) - 52) := ⟨by decide, by omega, Or.inl le_rfl⟩
  have hvalue : ((2 ^ 52 : Nat) : ℚ) * 2 ^ ((e : Int) - 52) = 2 ^ e := by
    rw [zpow_sub₀ two_ne_zero, zpow_natCast]
    norm_num
    ring
  exact hvalue ▸ representable_of_fits hfits

theorem Nearest.refl (q : ℚ) : Nearest q q := fun v _ => by
  rw [sub_self, abs_zero]
  exact abs_nonneg _

theorem Nearest.neg {q r : ℚ} (h : Nearest q r) : Nearest (-q) (-r) := by
  intro v hv
  have hle := h (-v) hv.neg
  rwa [← neg_sub', abs_neg, ← abs_neg (-q - v), neg_sub', neg_neg]

theorem Nearest.adjoins {q r : ℚ} (h : Nearest q r) : Adjoins q r := by
  intro v hv
  have hle := h v hv
  refine ⟨fun hvq => ?_, fun hqv => ?_⟩
  · rw [abs_of_nonneg (sub_nonneg.mpr hvq)] at hle
    linarith [le_abs_self (q - r)]
  · rw [abs_of_nonpos (sub_nonpos.mpr hqv)] at hle
    linarith [neg_abs_le (q - r)]

/-- Bounds that are whole numbers of at most 53 bits are kept. -/
theorem Nearest.bounds {q r : ℚ} {most : Nat} (h : Nearest q r) (hmost : most < 2 ^ 53)
    (hnonneg : 0 ≤ q) (hle : q ≤ most) : 0 ≤ r ∧ r ≤ most :=
  ⟨(h.adjoins 0 representable_zero).1 hnonneg, (h.adjoins _ (representable_natCast hmost)).2 hle⟩

theorem natCast_le_two_pow {n : Nat} (h : n < 2 ^ 53) : (n : ℚ) ≤ 2 ^ 1023 :=
  calc (n : ℚ) ≤ 2 ^ 53 := by exact_mod_cast h.le
    _ ≤ 2 ^ 1023 := pow_le_pow_right₀ one_le_two (by decide)

/-- The same number in a smaller unit. -/
theorem mul_two_pow_eq (m : Nat) {e f : Int} {k : Nat} (h : f = e + k) :
    (m : ℚ) * 2 ^ f = (m * 2 ^ k : Nat) * 2 ^ e := by
  rw [h, zpow_add₀ two_ne_zero, zpow_natCast]
  push_cast
  ring

/-- A whole number next to another is nearest, among the whole numbers. -/
theorem abs_sub_le_of_half {q unit : ℚ} {n : Nat} (hunit : 0 < unit)
    (h : 2 * |q - n * unit| ≤ unit) (j : Int) : |q - n * unit| ≤ |q - j * unit| := by
  rcases eq_or_ne j n with rfl | hne
  · exact le_of_eq (by push_cast; rfl)
  have hone : (1 : ℚ) ≤ |(j - n : ℚ)| := by
    exact_mod_cast Int.one_le_abs (sub_ne_zero.mpr hne)
  have hstep : unit ≤ |j * unit - n * unit| := by
    rw [← sub_mul, abs_mul, abs_of_pos hunit]
    exact le_mul_of_one_le_left hunit.le hone
  have htriangle := abs_sub_le (j * unit) q (n * unit)
  rw [abs_sub_comm (j * unit) q] at htriangle
  linarith

/-- **Rounding in units.** A whole number of units of the last bit, at most half a unit away, is the
nearest float. -/
theorem Nearest.of_units {q : ℚ} {p : Int} {n : Nat}
    (hfull : p = -1074 ∨ 2 ^ 52 * 2 ^ p ≤ q) (h : 2 * |q - n * 2 ^ p| ≤ 2 ^ p) :
    Nearest q (n * 2 ^ p) := by
  have hunit : (0 : ℚ) < 2 ^ p := by positivity
  have hunits : ∀ j : Int, |q - n * 2 ^ p| ≤ |q - j * 2 ^ p| :=
    abs_sub_le_of_half hunit h
  rintro v ⟨m, e, hfits, habs⟩
  rcases le_or_gt p e with hle | hlt
  · -- The other number is a whole number of units as well.
    obtain ⟨k, hk⟩ := Int.eq_ofNat_of_zero_le (show 0 ≤ e - p by omega)
    rw [mul_two_pow_eq m (show e = p + k by omega)] at habs
    rcases abs_choice v with hv | hv
    · rw [← hv, habs]
      exact_mod_cast hunits (m * 2 ^ k : Nat)
    · rw [← neg_neg v, ← hv, habs]
      have := hunits (-(m * 2 ^ k : Nat))
      push_cast at this ⊢
      rwa [neg_mul] at this
  · -- The other number has a smaller unit and is therefore smaller than what has all 53 bits.
    have hq := hfull.resolve_left (by have := hfits.exponent_ge; omega)
    have hsmall : v ≤ 2 ^ 52 * 2 ^ p :=
      calc v ≤ |v| := le_abs_self v
        _ = m * 2 ^ e := habs
        _ ≤ 2 ^ 53 * 2 ^ e := by
            gcongr
            exact_mod_cast hfits.mantissa_lt.le
        _ = 2 ^ 52 * 2 ^ (e + 1) := by
            rw [zpow_add_one₀ two_ne_zero]
            ring
        _ ≤ 2 ^ 52 * 2 ^ p := by
            gcongr
            · norm_num
            · omega
    have hleast := hunits (2 ^ 52 : Nat)
    rw [Int.cast_natCast, Nat.cast_pow, Nat.cast_ofNat,
      abs_of_nonneg (a := q - 2 ^ 52 * 2 ^ p) (by linarith)] at hleast
    calc |q - n * 2 ^ p| ≤ q - 2 ^ 52 * 2 ^ p := hleast
      _ ≤ q - v := by linarith
      _ ≤ |q - v| := le_abs_self _

/-! ## Numbers of parts -/

/-- The number that unpacked parts stand for, if they stand for one. -/
def number : UnpackedFloat → ℚ
  | .finite sign m e _ => sign.apply m * 2 ^ e
  | _ => 0

theorem value_eq_number {u : UnpackedFloat} {d : Dyadic} (h : viewOf u = .finite d) :
    d.value = number u := by
  cases u with
  | infinity sign => cases h
  | notANumber => cases h
  | zero sign => cases h; simp [Dyadic.value, number]
  | finite sign m e hm => cases h; rfl

theorem beq_zero_iff {u : UnpackedFloat} {d : Dyadic} (hd : viewOf u = .finite d) :
    u.beq (.zero .positive) = true ↔ d.value = 0 := by
  rw [value_eq_number hd]
  cases u with
  | infinity sign => cases hd
  | notANumber => cases hd
  | zero sign => exact iff_of_true rfl rfl
  | finite sign m e hm =>
    have hne : (sign.apply m : ℚ) * 2 ^ e ≠ 0 := by
      have hpos : (0 : ℚ) < m * 2 ^ e := by positivity
      cases sign with
      | positive => exact hpos.ne'
      | negative => simpa [Sign.apply] using hpos.ne'
    refine iff_of_false ?_ hne
    cases sign <;> simp [UnpackedFloat.beq, UnpackedFloat.compare]

/-- A float compares as zero where it stands for zero. -/
theorem beq_zero_eq_false_iff {x : Float} {d : Dyadic} (h : view x = .finite d) :
    (x == 0) = false ↔ d.value ≠ 0 := by
  rw [view_eq] at h
  have hzero := beq_zero_iff h
  rw [← unpack_zero] at hzero
  rw [ne_eq, ← hzero, Bool.not_eq_true]
  rfl

/-- What compares as zero is a number, and not past the greatest float. -/
theorem exists_view_of_beq_zero {x : Float} (h : (x == 0) = true) :
    ∃ d, view x = .finite d ∧ d.value = 0 := by
  have hunpack : x.toModel.unpack.beq (.zero .positive) = true := by
    rw [← unpack_zero]
    exact h
  obtain ⟨d, hd⟩ : ∃ d, viewOf x.toModel.unpack = .finite d := by
    cases hu : x.toModel.unpack with
    | infinity sign =>
      rw [hu] at hunpack
      cases sign <;> cases hunpack
    | notANumber =>
      rw [hu] at hunpack
      cases hunpack
    | zero sign => exact ⟨_, rfl⟩
    | finite sign m e hm => exact ⟨_, rfl⟩
  exact ⟨d, (view_eq x).trans hd, (beq_zero_iff hd).mp hunpack⟩

theorem representable_number {u : UnpackedFloat} (h : Canonical u) : Representable (number u) := by
  cases u with
  | finite sign m e hm =>
    have hpos := representable_of_fits h
    cases sign with
    | positive => simpa [number, Sign.apply] using hpos
    | negative => simpa [number, Sign.apply] using hpos.neg
  | infinity => exact representable_zero
  | notANumber => exact representable_zero
  | zero => exact representable_zero

theorem representable_value {x : Float} {d : Dyadic} (h : view x = .finite d) :
    Representable d.value := by
  rw [view_eq] at h
  rw [value_eq_number h]
  exact representable_number (canonical_unpack _)

/-- Parts with a mantissa that may be zero. -/
def parts (sign : Sign) (m : Nat) (e : Int) : UnpackedFloat :=
  if h : m = 0 then .zero sign else .finite sign m e (Nat.pos_of_ne_zero h)

theorem number_parts (sign : Sign) (m : Nat) (e : Int) :
    number (parts sign m e) = sign.apply m * 2 ^ e := by
  unfold parts
  split
  · rename_i h
    subst h
    cases sign <;> simp [number, Sign.apply]
  · rfl

theorem canonical_parts (sign : Sign) {m : Nat} {e : Int} (h : Fits m e) :
    Canonical (parts sign m e) := by
  unfold parts
  split
  · trivial
  · exact h

theorem exists_viewOf_parts (sign : Sign) (m : Nat) (e : Int) :
    ∃ d, viewOf (parts sign m e) = .finite d := by
  unfold parts
  split <;> exact ⟨_, rfl⟩

/-- Below the exponents that are too large, packed parts are seen as what they stood for. -/
theorem exists_view_pack {u : UnpackedFloat} (h : Canonical u) (hfinite : ∃ d, viewOf u = .finite d)
    (hlt : |number u| < 2 ^ 1024) :
    ∃ d, view (Float.ofModel (Float.Model.pack u)) = .finite d ∧ d.value = number u := by
  obtain ⟨d, hd⟩ := hfinite
  refine ⟨d, ?_, value_eq_number hd⟩
  rw [view_eq]
  cases u with
  | infinity sign => cases hd
  | notANumber => cases hd
  | zero sign => cases sign <;> exact hd
  | finite sign m e hm =>
    have hle : e ≤ 971 := by
      by_contra hgt
      have hfull := h.full_or_least.resolve_right (by omega)
      have hlarge : (2 : ℚ) ^ 1024 ≤ m * 2 ^ e := by
        rw [show 1024 = 52 + 972 from rfl, pow_add, ← zpow_natCast 2 972]
        gcongr
        · exact_mod_cast hfull
        · norm_num
        · omega
      have habs : |number (.finite sign m e hm)| = m * 2 ^ e := by
        have hpos : (0 : ℚ) ≤ m * 2 ^ e := by positivity
        cases sign <;> simp [number, Sign.apply, abs_of_nonneg hpos]
      exact absurd hlt (habs ▸ hlarge).not_gt
    show viewOf (UnpackedFloat.unpack Format.binary64 (UnpackedFloat.pack Format.binary64
      (.finite sign m e hm))) = .finite d
    rw [unpack_pack_finite hm h, if_pos hle]
    exact hd

/-! ## Taking bits off -/

/-- A mantissa and two bits stand for a number: the mantissa is the whole part, and the bits say
whether the rest is at least a half, and whether it is anything but nothing or a half. -/
structure Trace (em : ExtendedMantissa) (r : ℚ) : Prop where
  le : em.mantissa ≤ r
  lt : r < em.mantissa + 1
  half : em.roundBit = true ↔ em.mantissa + 1 / 2 ≤ r
  rest : em.stickyBit = false ↔ r = em.mantissa ∨ r = em.mantissa + 1 / 2

theorem Trace.natCast (n : Nat) : Trace ⟨n, false, false⟩ n := by
  refine ⟨le_rfl, by simp, ?_, by simp⟩
  simp only [Bool.false_eq_true, false_iff, not_le]
  linarith

theorem Trace.shiftRightOne {em : ExtendedMantissa} {r : ℚ} (h : Trace em r) :
    Trace em.shiftRightOne (r / 2) := by
  obtain ⟨m, roundBit, stickyBit⟩ := em
  obtain ⟨hle, hlt, hhalf, hrest⟩ := h
  simp only at hle hlt hhalf hrest
  have hanything : (roundBit || stickyBit) = false ↔ r = m := by
    rw [Bool.or_eq_false_iff, hrest, ← Bool.not_eq_true, hhalf, not_le]
    constructor
    · rintro ⟨hlow, heq | heq⟩
      · exact heq
      · linarith
    · intro heq
      exact ⟨by linarith, Or.inl heq⟩
  -- An even mantissa has no half in it, and an odd one has.
  rcases Nat.even_or_odd' m with ⟨low, rfl | rfl⟩
  · push_cast at hle hlt hanything
    have hdiv : 2 * low / 2 = low := by omega
    have hbit : (2 * low % 2 != 0) = false := by simp
    refine ⟨?_, ?_, ?_, ?_⟩ <;> simp only [ExtendedMantissa.shiftRightOne, hdiv, hbit, hanything]
    · linarith
    · linarith
    · simp only [Bool.false_eq_true, false_iff, not_le]
      linarith
    · constructor
      · intro heq
        exact Or.inl (by linarith)
      · rintro (heq | heq) <;> linarith
  · push_cast at hle hlt hanything
    have hdiv : (2 * low + 1) / 2 = low := by omega
    have hbit : ((2 * low + 1) % 2 != 0) = true := by
      rw [bne_iff_ne]
      omega
    refine ⟨?_, ?_, ?_, ?_⟩ <;> simp only [ExtendedMantissa.shiftRightOne, hdiv, hbit, hanything]
    · linarith
    · linarith
    · simp only [true_iff]
      linarith
    · constructor
      · intro heq
        exact Or.inr (by linarith)
      · rintro (heq | heq) <;> linarith

theorem Trace.shiftRight {em : ExtendedMantissa} {r : ℚ} (h : Trace em r) (k : Nat) :
    Trace (em >>> k) (r / 2 ^ k) := by
  induction k with
  | zero =>
    rw [pow_zero, div_one]
    exact h
  | succ k ih =>
    rw [pow_succ, ← div_div]
    exact ih.shiftRightOne

/-- **Rounding to the nearest whole number.** -/
theorem Trace.roundedMantissa {em : ExtendedMantissa} {r : ℚ} (h : Trace em r) :
    2 * |r - em.roundedMantissa| ≤ 1 := by
  obtain ⟨m, roundBit, stickyBit⟩ := em
  obtain ⟨hle, hlt, hhalf, hrest⟩ := h
  simp only at hle hlt hhalf hrest
  have hwithin : ∀ {n : Nat}, (n : ℚ) - 1 / 2 ≤ r → r ≤ n + 1 / 2 → 2 * |r - n| ≤ 1 := by
    intro n hlow hhigh
    have : |r - n| ≤ 1 / 2 := abs_le.mpr ⟨by linarith, by linarith⟩
    linarith
  cases roundBit with
  | false =>
    have hlow : r < m + 1 / 2 := by simpa using hhalf
    have hdown : ExtendedMantissa.roundedMantissa ⟨m, false, stickyBit⟩ = m := by
      cases stickyBit <;> rfl
    rw [hdown]
    exact hwithin (by linarith) hlow.le
  | true =>
    have hhigh : (m : ℚ) + 1 / 2 ≤ r := by simpa using hhalf
    cases stickyBit with
    | false =>
      have hequal : r = m + 1 / 2 := by
        rcases hrest.mp rfl with heq | heq
        · linarith
        · exact heq
      have heven : ExtendedMantissa.roundedMantissa ⟨m, true, false⟩ = m + m % 2 := rfl
      rw [heven]
      rcases Nat.mod_two_eq_zero_or_one m with hm | hm <;> rw [hm] <;>
        exact hwithin (by push_cast; linarith) (by push_cast; linarith)
    | true =>
      have hup : ExtendedMantissa.roundedMantissa ⟨m, true, true⟩ = m + 1 := rfl
      rw [hup]
      exact hwithin (by push_cast; linarith) (by push_cast; linarith)

theorem Trace.roundedMantissa_le {em : ExtendedMantissa} {r : ℚ} {k : Nat} (h : Trace em r)
    (hlt : em.mantissa < 2 ^ (53 + k)) : (em >>> k).roundedMantissa ≤ 2 ^ 53 := by
  have hround := (h.shiftRight k).roundedMantissa
  have hnext : em.mantissa + 1 ≤ 2 ^ 53 * 2 ^ k := by
    rw [← pow_add]
    exact hlt
  have hless : r < 2 ^ 53 * 2 ^ k := h.lt.trans_le (by exact_mod_cast hnext)
  have hquotient : r / 2 ^ k < 2 ^ 53 := (div_lt_iff₀ (by positivity)).mpr hless
  generalize (em >>> k).roundedMantissa = n at hround ⊢
  have hhalf : (n : ℚ) < 2 ^ 53 + 1 := by linarith [neg_abs_le (r / 2 ^ k - n)]
  exact Nat.lt_succ_iff.mp (by exact_mod_cast hhalf)

theorem Trace.le_div {em : ExtendedMantissa} {r : ℚ} {k : Nat} (h : Trace em r)
    (hle : 2 ^ 52 * 2 ^ k ≤ em.mantissa) : 2 ^ 52 ≤ r / 2 ^ k := by
  refine (le_div_iff₀ (by positivity)).mpr (le_trans ?_ h.le)
  exact_mod_cast hle

theorem Trace.le_roundedMantissa {em : ExtendedMantissa} {r : ℚ} {k : Nat} (h : Trace em r)
    (hle : 2 ^ 52 * 2 ^ k ≤ em.mantissa) : 2 ^ 52 ≤ (em >>> k).roundedMantissa := by
  have hround := (h.shiftRight k).roundedMantissa
  have hquotient := h.le_div hle
  generalize (em >>> k).roundedMantissa = n at hround ⊢
  have hhalf : (2 : ℚ) ^ 52 < n + 1 := by linarith [le_abs_self (r / 2 ^ k - n)]
  exact Nat.lt_succ_iff.mp (by exact_mod_cast hhalf)

/-! ## Rounding parts -/

/-- The exponent of the last bit that a float has room for, next to `m · 2 ^ e`. -/
def lastExponent (m : Nat) (e : Int) : Int := max (m.log2 + e - 52) (-1074)

theorem targetExponent_eq (m : Nat) (e : Int) :
    Format.binary64.targetExponent (totalExponent m e) = lastExponent m e := by
  show max ((m.log2 + 1 + e : Int) - (53 : Nat)) (3 - 2 ^ 10 - (53 : Nat)) = _
  unfold lastExponent
  congr 1
  omega

/-- A mantissa that was rounded up to the next power of two loses one more bit. -/
theorem shiftToTargetExponent_of_le {m : Nat} {e : Int} (hm : m ≤ 2 ^ 53) (he : -1074 ≤ e) :
    shiftToTargetExponent Format.binary64 m e .exact =
      if m = 2 ^ 53 then (⟨2 ^ 52, false, false⟩, e + 1) else (⟨m, false, false⟩, e) := by
  unfold shiftToTargetExponent shiftToExponent
  simp only [targetExponent_eq, ExtendedMantissa.ofMantissaAndAccuracy]
  split
  · rename_i hcarry
    have hlog : (2 ^ 53 : Nat).log2 = 53 := by decide
    have hshift : (lastExponent m e - e).toNat = 1 := by
      rw [hcarry, lastExponent, hlog]
      omega
    rw [hshift, hcarry]
    rfl
  · have hlog : m.log2 ≤ 52 := by
      by_cases hzero : m = 0
      · simp [hzero]
      · have := (Nat.log2_lt hzero).mpr (show m < 2 ^ 53 by omega)
        omega
    have hshift : (lastExponent m e - e).toNat = 0 := by
      unfold lastExponent
      omega
    rw [hshift]
    exact congrArg _ (by omega)

theorem mantissa_ofMantissaAndAccuracy (m : Nat) (accuracy : Accuracy) :
    (ExtendedMantissa.ofMantissaAndAccuracy m accuracy).mantissa = m := by
  cases accuracy with
  | exact => rfl
  | inexact order => cases order <;> rfl

theorem lt_two_pow_of_lastExponent {m : Nat} {e : Int} {k : Nat}
    (hk : lastExponent m e = e + k) : m < 2 ^ (53 + k) := by
  by_cases hm : m = 0
  · rw [hm]
    positivity
  have hlog : m.log2 + 1 ≤ 53 + k := by
    unfold lastExponent at hk
    omega
  exact ((Nat.log2_eq_iff hm).mp rfl).2.trans_le (Nat.pow_le_pow_right two_pos hlog)

theorem two_pow_le_of_lastExponent {m : Nat} {e : Int} (hm : m ≠ 0) {k : Nat}
    (hk : lastExponent m e = e + k) (hnormal : -1074 < lastExponent m e) :
    2 ^ 52 * 2 ^ k ≤ m := by
  have hlog : m.log2 = 52 + k := by
    unfold lastExponent at hk hnormal
    omega
  rw [← pow_add, ← hlog]
  exact ((Nat.log2_eq_iff hm).mp rfl).1

/-- **Rounding parts.** Whatever number the mantissa and its accuracy stand for, a float has room for
what it is rounded to, and none is nearer. -/
theorem roundWithAccuracy_eq (sign : Sign) {m : Nat} {e : Int} {accuracy : Accuracy} {r : ℚ}
    {k : Nat}
    (htrace : Trace (.ofMantissaAndAccuracy m accuracy) r) (hk : lastExponent m e = e + k)
    (hzero : m = 0 → e ≤ -1022) :
    ∃ m' e', roundWithAccuracy Format.binary64 sign m e accuracy = parts sign m' e' ∧
      Fits m' e' ∧ Nearest (r * 2 ^ e) (m' * 2 ^ e') := by
  have hge : -1074 ≤ lastExponent m e := le_max_right _ _
  set em := ExtendedMantissa.ofMantissaAndAccuracy m accuracy with hem
  have hmantissa : em.mantissa = m := mantissa_ofMantissaAndAccuracy m accuracy
  have hround := (htrace.shiftRight k).roundedMantissa
  set n := (em >>> k).roundedMantissa with hn
  have hfirst : shiftToTargetExponent Format.binary64 m e accuracy =
      (em >>> k, lastExponent m e) := by
    unfold shiftToTargetExponent shiftToExponent
    simp only [targetExponent_eq, hk, add_sub_cancel_left, Int.toNat_natCast, hem]
  have hfull : lastExponent m e = -1074 ∨ 2 ^ 52 * 2 ^ k ≤ m := by
    rcases hge.eq_or_lt with hleast | hnormal
    · exact Or.inl hleast.symm
    · refine Or.inr (two_pow_le_of_lastExponent (fun hm => ?_) hk hnormal)
      have hle := hzero hm
      rw [hm, lastExponent, show Nat.log2 0 = 0 from rfl] at hnormal
      omega
  have hroundedLe : n ≤ 2 ^ 53 :=
    htrace.roundedMantissa_le (by rw [hmantissa]; exact lt_two_pow_of_lastExponent hk)
  have hquotient : lastExponent m e = -1074 ∨ 2 ^ 52 ≤ r / 2 ^ k :=
    hfull.imp_right fun hle => htrace.le_div (by rw [hmantissa]; exact hle)
  have hroundedGe : lastExponent m e = -1074 ∨ 2 ^ 52 ≤ n :=
    hfull.imp_right fun hle => htrace.le_roundedMantissa (by rw [hmantissa]; exact hle)
  have hnearest : Nearest (r * 2 ^ e) (n * 2 ^ lastExponent m e) := by
    have hscale : r * 2 ^ e = r / 2 ^ k * 2 ^ lastExponent m e := by
      rw [hk, zpow_add₀ two_ne_zero, zpow_natCast]
      field_simp
    have hunit : (0 : ℚ) < 2 ^ lastExponent m e := by positivity
    rw [hscale]
    refine Nearest.of_units (hquotient.imp_right fun hle => ?_) ?_
    · exact mul_le_mul_of_nonneg_right hle hunit.le
    · rw [← sub_mul, abs_mul, abs_of_pos hunit, ← mul_assoc]
      exact mul_le_of_le_one_left hunit.le hround
  unfold roundWithAccuracy
  rw [hfirst]
  simp only
  rw [← hn, shiftToTargetExponent_of_le hroundedLe hge]
  split
  · rename_i hcarry
    refine ⟨2 ^ 52, lastExponent m e + 1, rfl, ⟨by decide, by omega, Or.inl le_rfl⟩, ?_⟩
    rw [hcarry] at hnearest
    have hsame : ((2 ^ 52 : Nat) : ℚ) * 2 ^ (lastExponent m e + 1) =
        (2 ^ 53 : Nat) * 2 ^ lastExponent m e := by
      rw [zpow_add_one₀ two_ne_zero]
      norm_num
      ring
    rwa [hsame]
  · rename_i hcarry
    exact ⟨n, lastExponent m e, rfl, ⟨by omega, hge, hroundedGe.symm⟩, hnearest⟩

theorem lastExponent_mul_two_pow {m : Nat} (hm : m ≠ 0) (e : Int) (j : Nat) :
    lastExponent (m * 2 ^ j) (e - j) = lastExponent m e := by
  have hlog : (m * 2 ^ j).log2 = m.log2 + j := by
    obtain ⟨hle, hlt⟩ := (Nat.log2_eq_iff hm).mp rfl
    refine (Nat.log2_eq_iff (by positivity)).mpr ⟨?_, ?_⟩
    · rw [pow_add]
      exact Nat.mul_le_mul_right _ hle
    · rw [add_right_comm, pow_add]
      exact Nat.mul_lt_mul_of_pos_right hlt (by positivity)
  unfold lastExponent
  rw [hlog]
  push_cast
  congr 1
  ring

/-- A number with a sign. -/
def signed : Sign → ℚ → ℚ
  | .positive, q => q
  | .negative, q => -q

theorem abs_signed (sign : Sign) (q : ℚ) : |signed sign q| = |q| := by
  cases sign with
  | positive => rfl
  | negative => exact abs_neg q

theorem number_finite (sign : Sign) (m : Nat) (e : Int) (hm : 0 < m) :
    number (.finite sign m e hm) = signed sign (m * 2 ^ e) := by
  cases sign <;> simp [number, signed, Sign.apply]

/-- Parts that a number is rounded to: a float has room for them, and none is nearer. -/
structure Rounded (q : ℚ) (u : UnpackedFloat) : Prop where
  canonical : Canonical u
  finite : ∃ d, viewOf u = .finite d
  nearest : Nearest q (number u)

theorem Rounded.of_parts (sign : Sign) {q : ℚ} {m : Nat} {e : Int} (h : Fits m e)
    (hnearest : Nearest q (m * 2 ^ e)) : Rounded (signed sign q) (parts sign m e) := by
  refine ⟨canonical_parts sign h, exists_viewOf_parts sign m e, ?_⟩
  rw [number_parts]
  cases sign with
  | positive => simpa [signed, Sign.apply] using hnearest
  | negative => simpa [signed, Sign.apply] using hnearest.neg

theorem rounded_roundWithAccuracy (sign : Sign) {m : Nat} {e : Int} {accuracy : Accuracy} {r : ℚ}
    (htrace : Trace (.ofMantissaAndAccuracy m accuracy) r) (hle : e ≤ lastExponent m e)
    (hzero : m = 0 → e ≤ -1022) :
    Rounded (signed sign (r * 2 ^ e)) (roundWithAccuracy Format.binary64 sign m e accuracy) := by
  obtain ⟨k, hk⟩ := Int.eq_ofNat_of_zero_le (show 0 ≤ lastExponent m e - e by omega)
  obtain ⟨m', e', hparts, hfits, hnearest⟩ :=
    roundWithAccuracy_eq sign htrace (show lastExponent m e = e + k by omega) hzero
  rw [hparts]
  exact .of_parts sign hfits hnearest

theorem rounded_round (sign : Sign) {m : Nat} (e : Int) (hm : m ≠ 0) :
    Rounded (signed sign (m * 2 ^ e)) (UnpackedFloat.round Format.binary64 sign m e) := by
  -- First the mantissa is filled up with zeros, so that there is no bit too few.
  set j := (e - lastExponent m e).toNat with hj
  have hround : UnpackedFloat.round Format.binary64 sign m e =
      roundWithAccuracy Format.binary64 sign (m * 2 ^ j) (e - j) .exact := by
    simp only [UnpackedFloat.round, decreaseExponent, targetExponent_eq, Nat.shiftLeft_eq, hj]
  have hfilled : m * 2 ^ j ≠ 0 := by positivity
  have hlast := lastExponent_mul_two_pow hm e j
  rw [hround, mul_two_pow_eq m (show e = e - j + j by omega)]
  exact rounded_roundWithAccuracy sign (Trace.natCast _) (by omega) fun hzero => absurd hzero hfilled

/-- Parts with a signed mantissa, rounded. -/
theorem rounded_normalize (m e : Int) (zeroSign : Sign) :
    Rounded (m * 2 ^ e) (UnpackedFloat.normalize Format.binary64 m e zeroSign) := by
  unfold UnpackedFloat.normalize
  rcases lt_trichotomy m 0 with hneg | rfl | hpos
  · obtain ⟨n, rfl⟩ : ∃ n : Nat, m = -n := ⟨m.natAbs, by omega⟩
    rw [Int.compare_eq_lt.mpr hneg]
    simpa [signed] using rounded_round .negative (m := n) e (by omega)
  · refine ⟨trivial, ⟨_, rfl⟩, ?_⟩
    simpa [number] using Nearest.refl 0
  · obtain ⟨n, rfl⟩ : ∃ n : Nat, m = n := ⟨m.natAbs, by omega⟩
    rw [Int.compare_eq_gt.mpr hpos]
    simpa [signed] using rounded_round .positive (m := n) e (by omega)

/-- What is rounded is seen as a number, if it is not too large. -/
theorem Rounded.exists_view {q : ℚ} {u : UnpackedFloat} (h : Rounded q u) (hle : |q| ≤ 2 ^ 1023) :
    ∃ d, view (Float.ofModel (Float.Model.pack u)) = .finite d ∧ Nearest q d.value := by
  obtain ⟨hlow, hhigh⟩ := abs_le.mp hle
  have habove := (h.nearest.adjoins _ representable_two_pow).2 hhigh
  have hbelow := (h.nearest.adjoins _ representable_two_pow.neg).1 hlow
  have hlarge : (2 : ℚ) ^ 1023 < 2 ^ 1024 := pow_lt_pow_right₀ one_lt_two (by decide)
  obtain ⟨d, hd, hvalue⟩ := exists_view_pack h.canonical h.finite
    ((abs_le.mpr ⟨hbelow, habove⟩).trans_lt hlarge)
  exact ⟨d, hd, hvalue ▸ h.nearest⟩

end Binary64
end Chiptune
