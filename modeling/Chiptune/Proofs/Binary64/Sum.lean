import Chiptune.Proofs.Binary64.Rounding

/-!
# Sums of floats

A sum of floats is the float nearest to the exact sum (`exists_view_add`). So adding a length to a
position never moves the position back, however the sum is rounded (`value_le_value_add`), and a
position that is large enough is not moved by it at all (`value_add_le_two_pow`).
-/

namespace Chiptune
namespace Binary64

open Float.Model Float.Model.UnpackedFloat

theorem apply_decreaseExponent (sign : Sign) (m : Nat) {e f : Int} (h : f ≤ e) :
    ((sign.apply (decreaseExponent m e f).1 : Int) : ℚ) * 2 ^ f = sign.apply m * 2 ^ e := by
  obtain ⟨j, hj⟩ := Int.eq_ofNat_of_zero_le (show 0 ≤ e - f by omega)
  have hshift : (decreaseExponent m e f).1 = m * 2 ^ j := by
    simp [decreaseExponent, Nat.shiftLeft_eq, hj]
  have hnumber := mul_two_pow_eq m (show e = f + j by omega)
  rw [hshift]
  cases sign with
  | positive => exact_mod_cast hnumber.symm
  | negative => simp [Sign.apply, hnumber]

theorem canonical_add {u v : UnpackedFloat} (hu : Canonical u) (hv : Canonical v) :
    Canonical (UnpackedFloat.add Format.binary64 u v) := by
  unfold UnpackedFloat.add
  split
  all_goals first | trivial | exact hu | exact hv | skip
  · split <;> trivial
  · split <;> trivial
  · exact (rounded_normalize _ _ _).canonical

/-- Only numbers have a number for their sum. -/
theorem viewOf_of_viewOf_add {u v : UnpackedFloat} {c : Dyadic}
    (h : viewOf (UnpackedFloat.add Format.binary64 u v) = .finite c) :
    (∃ a, viewOf u = .finite a) ∧ ∃ b, viewOf v = .finite b := by
  cases u with
  | notANumber => cases h
  | infinity sign =>
    cases v with
    | infinity sign' => cases sign <;> cases sign' <;> cases h
    | notANumber => cases h
    | zero sign' => cases h
    | finite sign' m e hm => cases h
  | zero sign =>
    cases v with
    | infinity sign' => cases h
    | notANumber => cases h
    | zero sign' => exact ⟨⟨_, rfl⟩, _, rfl⟩
    | finite sign' m e hm => exact ⟨⟨_, rfl⟩, _, rfl⟩
  | finite sign m e hm =>
    cases v with
    | infinity sign' => cases h
    | notANumber => cases h
    | zero sign' => exact ⟨⟨_, rfl⟩, _, rfl⟩
    | finite sign' m' e' hm' => exact ⟨⟨_, rfl⟩, _, rfl⟩

/-- A sum of parts is the sum of what they stand for, rounded, if both stand for a number. -/
theorem rounded_add {u v : UnpackedFloat} {a b : Dyadic} (hu : Canonical u) (hv : Canonical v)
    (ha : viewOf u = .finite a) (hb : viewOf v = .finite b) :
    Rounded (number u + number v) (UnpackedFloat.add Format.binary64 u v) := by
  cases u with
  | infinity sign => cases ha
  | notANumber => cases ha
  | zero sign =>
    cases v with
    | infinity sign' => cases hb
    | notANumber => cases hb
    | zero sign' =>
      have hzero : ∃ sign'', UnpackedFloat.add Format.binary64 (.zero sign) (.zero sign') =
          .zero sign'' := by
        cases sign <;> cases sign' <;> exact ⟨_, rfl⟩
      obtain ⟨sign'', hsum⟩ := hzero
      rw [hsum]
      refine ⟨trivial, ⟨_, rfl⟩, ?_⟩
      show Nearest (0 + 0) 0
      rw [add_zero]
      exact Nearest.refl 0
    | finite sign' m e hm =>
      refine ⟨hv, ⟨_, rfl⟩, ?_⟩
      show Nearest (0 + number (.finite sign' m e hm)) (number (.finite sign' m e hm))
      rw [zero_add]
      exact Nearest.refl _
  | finite sign m e hm =>
    cases v with
    | infinity sign' => cases hb
    | notANumber => cases hb
    | zero sign' =>
      refine ⟨hu, ⟨_, rfl⟩, ?_⟩
      show Nearest (number (.finite sign m e hm) + 0) (number (.finite sign m e hm))
      rw [add_zero]
      exact Nearest.refl _
    | finite sign' m' e' hm' =>
      have hsum : number (.finite sign m e hm) + number (.finite sign' m' e' hm') =
          ((sign.apply (decreaseExponent m e (min e e')).1 +
            sign'.apply (decreaseExponent m' e' (min e e')).1 : Int) : ℚ) * 2 ^ min e e' := by
        push_cast
        rw [add_mul, apply_decreaseExponent _ _ (min_le_left _ _),
          apply_decreaseExponent _ _ (min_le_right _ _)]
        rfl
      rw [hsum]
      exact rounded_normalize _ _ _

/-- **A sum of floats.** If it is a number, so are both of them, and it is next to their exact
sum. -/
theorem adjoins_add {x y : Float} {c : Dyadic} (h : view (x + y) = .finite c) :
    ∃ a b, view x = .finite a ∧ view y = .finite b ∧ Representable a.value ∧
      Adjoins (a.value + b.value) c.value := by
  have hx : Canonical x.toModel.unpack := canonical_unpack _
  have hy : Canonical y.toModel.unpack := canonical_unpack _
  have hsum : viewOf (UnpackedFloat.add Format.binary64 x.toModel.unpack y.toModel.unpack) =
      .finite c := viewOf_of_view_pack (canonical_add hx hy) h
  obtain ⟨⟨a, ha⟩, b, hb⟩ := viewOf_of_viewOf_add hsum
  refine ⟨a, b, (view_eq x).trans ha, (view_eq y).trans hb, ?_, ?_⟩
  · rw [value_eq_number ha]
    exact representable_number hx
  · rw [value_eq_number ha, value_eq_number hb, value_eq_number hsum]
    exact (rounded_add hx hy ha hb).nearest.adjoins

/-- **A sum of numbers** is a number, if it is not too large. -/
theorem exists_view_add {x y : Float} {a b : Dyadic} (ha : view x = .finite a)
    (hb : view y = .finite b) (hle : |a.value + b.value| ≤ 2 ^ 1023) :
    ∃ c, view (x + y) = .finite c ∧ Nearest (a.value + b.value) c.value := by
  rw [view_eq] at ha hb
  rw [value_eq_number ha, value_eq_number hb] at hle ⊢
  exact (rounded_add (canonical_unpack _) (canonical_unpack _) ha hb).exists_view hle

theorem nearest_add {x y : Float} {a b c : Dyadic} (ha : view x = .finite a)
    (hb : view y = .finite b) (hc : view (x + y) = .finite c) :
    Nearest (a.value + b.value) c.value := by
  have hx : Canonical x.toModel.unpack := canonical_unpack _
  have hy : Canonical y.toModel.unpack := canonical_unpack _
  have hsum := viewOf_of_view_pack (canonical_add hx hy) hc
  rw [view_eq] at ha hb
  rw [value_eq_number ha, value_eq_number hb, value_eq_number hsum]
  exact (rounded_add hx hy ha hb).nearest

/-- What is added to a float without a sign does not make it smaller. -/
theorem value_le_value_add {x y : Float} {a c : Dyadic} (ha : view x = .finite a)
    (hc : view (x + y) = .finite c) (hy : isNegative y = false) : a.value ≤ c.value := by
  obtain ⟨a', b, ha', hb, hrep, hadjoins⟩ := adjoins_add hc
  obtain rfl : a' = a := by rw [ha] at ha'; cases ha'; rfl
  have hb0 := Dyadic.value_nonneg (view_mantissa_nonneg hy hb)
  exact (hadjoins _ hrep).1 (by linarith)

theorem value_add_le_value {x y : Float} {a c : Dyadic} (ha : view x = .finite a)
    (hc : view (x + y) = .finite c) (hy : HasSign y.toModel.unpack) : c.value ≤ a.value := by
  obtain ⟨a', b, ha', hb, hrep, hadjoins⟩ := adjoins_add hc
  obtain rfl : a' = a := by rw [ha] at ha'; cases ha'; rfl
  have hb0 := value_nonpos hy hb
  exact (hadjoins _ hrep).2 (by linarith)

/-! ## Sums that stand still -/

/-- Next to a power of two, the next number that a float can stand for is a unit away. -/
theorem two_pow_add_le {v : ℚ} {k : Int} (hv : Representable v) (hlt : 2 ^ k < v) :
    2 ^ k + 2 ^ (k - 52) ≤ v := by
  obtain ⟨m, e, hfits, habs⟩ := hv
  have hpos : (0 : ℚ) < 2 ^ k := by positivity
  rw [abs_of_pos (hpos.trans hlt)] at habs
  have hunit : (0 : ℚ) < 2 ^ (k - 52) := by positivity
  have hpower : (2 : ℚ) ^ k = 2 ^ 52 * 2 ^ (k - 52) := by
    rw [← zpow_natCast, ← zpow_add₀ two_ne_zero]
    congr 1
    push_cast
    ring
  rcases le_or_gt (k - 52) e with hle | hsmall
  · obtain ⟨j, hj⟩ := Int.eq_ofNat_of_zero_le (show 0 ≤ e - (k - 52) by omega)
    rw [mul_two_pow_eq m (show e = k - 52 + j by omega)] at habs
    generalize m * 2 ^ j = units at habs
    have hunits : 2 ^ 52 < units := by
      have hscaled : (2 : ℚ) ^ 52 * 2 ^ (k - 52) < units * 2 ^ (k - 52) := by
        rwa [← hpower, ← habs]
      exact_mod_cast lt_of_mul_lt_mul_right hscaled hunit.le
    have hnext : (2 : ℚ) ^ 52 + 1 ≤ units := by exact_mod_cast hunits
    calc (2 : ℚ) ^ k + 2 ^ (k - 52) = (2 ^ 52 + 1) * 2 ^ (k - 52) := by rw [hpower]; ring
      _ ≤ units * 2 ^ (k - 52) := mul_le_mul_of_nonneg_right hnext hunit.le
      _ = v := habs.symm
  · have hless : v ≤ 2 ^ k :=
      calc v = m * 2 ^ e := habs
        _ ≤ 2 ^ 53 * 2 ^ e := by
            gcongr
            exact_mod_cast hfits.mantissa_lt.le
        _ = 2 ^ (53 + e) := by rw [zpow_add₀ two_ne_zero]; rfl
        _ ≤ 2 ^ k := zpow_le_zpow_right₀ one_le_two (by omega)
    exact absurd hlt hless.not_gt

/-- **A sum that stands still.** What is less than half a unit does not lead past a power of two. -/
theorem value_add_le_two_pow {x y : Float} {a b : Dyadic} {k : Nat} (hk : k ≤ 1000)
    (ha : view x = .finite a) (hb : view y = .finite b) (ha0 : 0 ≤ a.value) (hb0 : 0 ≤ b.value)
    (hle : a.value ≤ 2 ^ k) (hsmall : 2 * b.value < 2 ^ (k - 52 : Int)) :
    ∃ c, view (x + y) = .finite c ∧ 0 ≤ c.value ∧ c.value ≤ 2 ^ k := by
  have hlast : (2 : ℚ) ^ (k - 52 : Int) ≤ 2 ^ k := by
    rw [← zpow_natCast]
    exact zpow_le_zpow_right₀ one_le_two (by omega)
  have hroom : |a.value + b.value| ≤ 2 ^ 1023 := by
    rw [abs_of_nonneg (by linarith)]
    calc a.value + b.value ≤ 2 ^ k + 2 ^ k := by linarith
      _ = 2 ^ (k + 1) := by ring
      _ ≤ 2 ^ 1023 := pow_le_pow_right₀ one_le_two (by omega)
  obtain ⟨c, hc, hnearest⟩ := exists_view_add ha hb hroom
  have hadjoins := hnearest.adjoins
  refine ⟨c, hc, (hadjoins 0 representable_zero).1 (by linarith), ?_⟩
  by_contra hgt
  rw [not_le] at hgt
  have hnext : (2 : ℚ) ^ k + 2 ^ (k - 52 : Int) ≤ c.value := by
    rw [← zpow_natCast] at hgt ⊢
    exact two_pow_add_le (representable_value hc) hgt
  have hpast : (2 : ℚ) ^ k < a.value + b.value := by
    by_contra hnot
    exact absurd ((hadjoins _ representable_two_pow).2 (not_lt.mp hnot)) hgt.not_ge
  -- The power of two would have been nearer.
  have hnear := hnearest _ (@representable_two_pow k)
  rw [abs_of_nonpos (by linarith), abs_of_pos (by linarith)] at hnear
  linarith

end Binary64
end Chiptune
