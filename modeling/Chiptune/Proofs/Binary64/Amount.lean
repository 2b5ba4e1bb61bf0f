import Chiptune.Proofs.Binary64.Quotient
import Chiptune.Proofs.Binary64.RelativeError

/-!
# Amounts

A float that stands for how much there is of something is a number that is not below zero, or an
infinity: past the greatest float it is infinite, and it stays so (`IsAmount`). What goes wrong with
an amount is seen at the end, where an infinity is no whole number. A not-a-number is worse, since it
is passed over wherever the greater of two is looked for: it compares with nothing.

So this file says which operations lead from amounts to amounts, and how amounts compare. The one way
out is to multiply an infinity by zero, or to divide by it; the other factors here are positive numbers.
-/

namespace Chiptune
namespace Binary64

open Float.Model Float.Model.UnpackedFloat

/-- A number that is not below zero, or an infinity. -/
def IsAmount (x : Float) : Prop := view x = .infinite false ∨ ∃ d, view x = .finite d ∧ 0 ≤ d.value

theorem IsAmount.nonneg {x : Float} {d : Dyadic} (h : IsAmount x) (hd : view x = .finite d) :
    0 ≤ d.value := by
  rcases h with hinfinite | ⟨d', hd', hnonneg⟩
  · cases hinfinite.symm.trans hd
  · cases hd'.symm.trans hd
    exact hnonneg

theorem isAmount_zero : IsAmount 0 := .inr ⟨_, view_zero, by simp [Dyadic.value]⟩

theorem isAmount_of_isNegative {x : Float} (hx : isNegative x = false) (hnan : view x ≠ .nan) :
    IsAmount x := by
  cases hview : view x with
  | finite d => exact .inr ⟨d, hview, Dyadic.value_nonneg (view_mantissa_nonneg hx hview)⟩
  | nan => exact absurd hview hnan
  | infinite negative =>
    have hsign : negative = isNegative x := by
      unfold view at hview
      split at hview
      · split at hview
        · cases hview
          rfl
        · cases hview
      · cases hview
    exact .inl (by rw [hview, hsign, hx])

/-! ## Parts -/

theorem view_eq_infinite_iff {x : Float} :
    view x = .infinite false ↔ x.toModel.unpack = .infinity .positive := by
  rw [view_eq]
  cases x.toModel.unpack with
  | infinity sign => cases sign <;> simp [viewOf] <;> decide
  | notANumber => simp [viewOf]
  | zero sign => simp [viewOf]
  | finite sign m e hm => simp [viewOf]

theorem view_eq_nan_iff {x : Float} : view x = .nan ↔ x.toModel.unpack = .notANumber := by
  rw [view_eq]
  cases x.toModel.unpack <;> simp [viewOf]

/-- What is rounded and not below zero is an amount, however large it is. -/
theorem Rounded.isAmount {q : ℚ} {u : UnpackedFloat} (h : Rounded q u) (hq : 0 ≤ q) :
    IsAmount (Float.ofModel (Float.Model.pack u)) := by
  have hnumber : 0 ≤ number u := (h.nearest.adjoins 0 representable_zero).1 hq
  obtain ⟨d, hd⟩ := h.finite
  have hcanonical := h.canonical
  unfold IsAmount
  rw [view_eq]
  cases u with
  | infinity sign => cases hd
  | notANumber => cases hd
  | zero sign => exact .inr ⟨⟨0, -1074⟩, by cases sign <;> rfl, by simp [Dyadic.value]⟩
  | finite sign m e hm =>
    have hpacked : (Float.ofModel (Float.Model.pack (.finite sign m e hm))).toModel.unpack = _ :=
      unpack_pack_finite hm hcanonical
    rw [hpacked]
    split
    · exact .inr ⟨d, hd, by rwa [value_eq_number hd]⟩
    · cases sign with
      | positive => exact .inl rfl
      | negative =>
        have hpos : (0 : ℚ) < m * 2 ^ e := by positivity
        rw [number_finite] at hnumber
        exact absurd hnumber (neg_neg_of_pos hpos).not_ge

/-! ## Operations -/

section

variable {x y : Float} {a b c : Dyadic}

theorem isAmount_pack_infinity :
    IsAmount (Float.ofModel (Float.Model.pack (.infinity .positive))) := .inl rfl

theorem add_infinity {v : UnpackedFloat} (h : v = .infinity .positive ∨ ∃ b, viewOf v = .finite b) :
    UnpackedFloat.add Format.binary64 (.infinity .positive) v = .infinity .positive ∧
      UnpackedFloat.add Format.binary64 v (.infinity .positive) = .infinity .positive := by
  rcases h with rfl | ⟨b, hb⟩
  · exact ⟨rfl, rfl⟩
  · cases v with
    | infinity sign => cases hb
    | notANumber => cases hb
    | zero sign => exact ⟨rfl, rfl⟩
    | finite sign m e hm => exact ⟨rfl, rfl⟩

theorem IsAmount.parts (h : IsAmount x) :
    x.toModel.unpack = .infinity .positive ∨ ∃ a, viewOf x.toModel.unpack = .finite a := by
  rcases h with hinfinite | ⟨a, ha, -⟩
  · exact .inl (view_eq_infinite_iff.mp hinfinite)
  · exact .inr ⟨a, (view_eq x).symm.trans ha⟩

theorem IsAmount.add (hx : IsAmount x) (hy : IsAmount y) : IsAmount (x + y) := by
  show IsAmount (Float.ofModel (Float.Model.pack (UnpackedFloat.add Format.binary64
    x.toModel.unpack y.toModel.unpack)))
  rcases hx with hx | ⟨a, ha, ha0⟩
  · rw [view_eq_infinite_iff.mp hx, (add_infinity hy.parts).1]
    exact isAmount_pack_infinity
  · rcases hy with hy | ⟨b, hb, hb0⟩
    · rw [view_eq] at ha
      rw [view_eq_infinite_iff.mp hy, (add_infinity (.inr ⟨a, ha⟩)).2]
      exact isAmount_pack_infinity
    · rw [view_eq] at ha hb
      rw [value_eq_number ha] at ha0
      rw [value_eq_number hb] at hb0
      exact (rounded_add (canonical_unpack _) (canonical_unpack _) ha hb).isAmount
        (add_nonneg ha0 hb0)

theorem exists_parts_of_pos {u : UnpackedFloat} (ha : viewOf u = .finite a) (hpos : 0 < number u) :
    ∃ m e hm, u = .finite .positive m e hm := by
  cases u with
  | infinity sign => cases ha
  | notANumber => cases ha
  | zero sign => exact absurd hpos (lt_irrefl _)
  | finite sign m e hm =>
    cases sign with
    | positive => exact ⟨m, e, hm, rfl⟩
    | negative =>
      have hmagnitude : (0 : ℚ) < m * 2 ^ e := by positivity
      rw [number_finite] at hpos
      exact absurd hpos (neg_neg_of_pos hmagnitude).not_gt

/-- A positive number keeps amounts. -/
theorem isAmount_mul (ha : view x = .finite a) (ha0 : 0 < a.value) (hy : IsAmount y) :
    IsAmount (x * y) := by
  show IsAmount (Float.ofModel (Float.Model.pack (UnpackedFloat.mul Format.binary64
    x.toModel.unpack y.toModel.unpack)))
  rw [view_eq] at ha
  rw [value_eq_number ha] at ha0
  rcases hy with hy | ⟨b, hb, hb0⟩
  · obtain ⟨m, e, hm, hparts⟩ := exists_parts_of_pos ha ha0
    rw [view_eq_infinite_iff.mp hy, hparts]
    exact isAmount_pack_infinity
  · rw [view_eq] at hb
    rw [value_eq_number hb] at hb0
    exact (rounded_mul (canonical_unpack _) (canonical_unpack _) ha hb).isAmount
      (mul_nonneg ha0.le hb0)

theorem isAmount_div (ha : view x = .finite a) (ha0 : 0 < a.value) (hy : IsAmount y)
    (hne : (y == 0) = false) : IsAmount (x / y) := by
  show IsAmount (Float.ofModel (Float.Model.pack (UnpackedFloat.div Format.binary64
    x.toModel.unpack y.toModel.unpack)))
  rw [view_eq] at ha
  rw [value_eq_number ha] at ha0
  rcases hy with hy | ⟨b, hb, hb0⟩
  · obtain ⟨m, e, hm, hparts⟩ := exists_parts_of_pos ha ha0
    rw [view_eq_infinite_iff.mp hy, hparts]
    exact isAmount_zero
  · have hb' := (beq_zero_eq_false_iff hb).mp hne
    rw [view_eq] at hb
    rw [value_eq_number hb] at hb0 hb'
    exact (rounded_div ha hb hb').isAmount (div_nonneg ha0.le hb0)

/-! ## Order -/

theorem lt_of_infinite (ha : view x = .finite a) (hy : view y = .infinite false) : x < y := by
  rw [view_eq] at ha
  have hlt : x.toModel.unpack.lt (.infinity .positive) = true := by
    generalize x.toModel.unpack = u at ha
    cases u with
    | infinity sign => cases ha
    | notANumber => cases ha
    | zero sign => rfl
    | finite sign m e hm => cases sign <;> rfl
  rw [← view_eq_infinite_iff.mp hy] at hlt
  exact decide_eq_true hlt

theorem not_lt_of_infinite (hx : view x = .infinite false) : ¬ x < y := by
  have hnot : UnpackedFloat.lt (.infinity .positive) y.toModel.unpack = false := by
    cases y.toModel.unpack with
    | infinity sign => cases sign <;> rfl
    | notANumber => rfl
    | zero sign => rfl
    | finite sign m e hm => rfl
  rw [← view_eq_infinite_iff.mp hx] at hnot
  exact fun hlt => Bool.eq_false_iff.mp hnot (of_decide_eq_true hlt)

/-! ## What is not a number -/

theorem view_div_nan (hy : view y = .nan) : view (x / y) = .nan := by
  have hnan : UnpackedFloat.div Format.binary64 x.toModel.unpack y.toModel.unpack =
      .notANumber := by
    rw [view_eq_nan_iff.mp hy]
    cases x.toModel.unpack <;> rfl
  exact congrArg (fun u => view (Float.ofModel (Float.Model.pack u))) hnan

theorem canonical_mul {u v : UnpackedFloat} (hu : Canonical u) (hv : Canonical v) :
    Canonical (UnpackedFloat.mul Format.binary64 u v) := by
  cases u with
  | infinity sign => cases v <;> trivial
  | notANumber => trivial
  | zero sign => cases v <;> trivial
  | finite sign m e hm =>
    cases v with
    | infinity sign' => trivial
    | notANumber => trivial
    | zero sign' => trivial
    | finite sign' m' e' hm' => exact (rounded_mul hu hv rfl rfl).canonical

/-- Only numbers have a number for their product. -/
theorem exists_view_of_mul (h : view (x * y) = .finite c) :
    (∃ a, view x = .finite a) ∧ ∃ b, view y = .finite b := by
  have hproduct : viewOf (UnpackedFloat.mul Format.binary64 x.toModel.unpack y.toModel.unpack) =
      .finite c :=
    viewOf_of_view_pack (canonical_mul (canonical_unpack _) (canonical_unpack _)) h
  rw [view_eq, view_eq]
  generalize x.toModel.unpack = u, y.toModel.unpack = v at hproduct
  cases u with
  | infinity sign => cases v <;> cases hproduct
  | notANumber => cases hproduct
  | zero sign =>
    cases v with
    | infinity sign' => cases hproduct
    | notANumber => cases hproduct
    | zero sign' => exact ⟨⟨_, rfl⟩, _, rfl⟩
    | finite sign' m e hm => exact ⟨⟨_, rfl⟩, _, rfl⟩
  | finite sign m e hm =>
    cases v with
    | infinity sign' => cases hproduct
    | notANumber => cases hproduct
    | zero sign' => exact ⟨⟨_, rfl⟩, _, rfl⟩
    | finite sign' m' e' hm' => exact ⟨⟨_, rfl⟩, _, rfl⟩

end

end Binary64
end Chiptune
