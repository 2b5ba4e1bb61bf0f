import Mathlib.Analysis.Convex.Jensen
import Mathlib.Analysis.Convex.Mul
import Mathlib.LinearAlgebra.AffineSpace.AffineEquiv
import Chiptune.Proofs.NumberSystem
import Chiptune.Rendering.Sound

/-!
# The shape of an envelope

An envelope is an amplitude times two shares, one for each fade (`Envelope.value_eq_mul`). A share
is the distance from the silent end of its fade, over the length of the fade, and never more than
the whole (`fade`). In fractions it is a concave function of the distance, whether the fade is
longer than the note or not.

One share grows with the time and the other falls, so their product is concave again
(`Envelope.concaveOn_value`), also where the fades overlap. A concave sequence has a peak: before it
nothing falls, and behind it nothing rises (`hasPeak_of_min_le`). Nothing else has to be known about
an overlap; which of the two fades wins there, and where, does not matter.

The values of an envelope are computed by one program for any kind of number
(`RowSystem.envelopeValues`). In floats it is the one of the library
(`RowSystem.binary64_envelopeValues`), which loses a little at every step; what is said here about
the shape is said of the same program in fractions (`RowSystem.exact_envelopeValues_arched`).
-/

namespace Chiptune

/-! ## Fades -/

/-- The share of the amplitude at a distance from the silent end of a fade: a slope that is cut off
at the whole. -/
def fade (length distance : ℚ) : ℚ := if 0 < length then min (distance / length) 1 else 1

section

variable {length distance : ℚ}

theorem fade_of_pos (h : 0 < length) (distance : ℚ) :
    fade length distance = min (distance / length) 1 := if_pos h

theorem fade_of_nonpos (h : length ≤ 0) (distance : ℚ) : fade length distance = 1 := if_neg h.not_gt

/-- The slope reaches the whole at the end of a fade, so it does not matter on which side of the end
it is cut off. -/
theorem ite_eq_mul_fade (length distance amplitude : ℚ) :
    (if 0 < length ∧ distance < length then amplitude * (distance / length) else amplitude) =
      amplitude * fade length distance := by
  rcases le_or_gt length 0 with hle | hlt
  · rw [if_neg fun h => h.1.not_ge hle, fade_of_nonpos hle, mul_one]
  · rw [fade_of_pos hlt]
    split
    · rename_i h
      rw [min_eq_left ((div_le_one hlt).mpr h.2.le)]
    · rename_i h
      rw [min_eq_right ((one_le_div hlt).mpr (not_lt.mp fun hshort => h ⟨hlt, hshort⟩)), mul_one]

theorem fade_max_zero (length distance : ℚ) :
    fade (max length 0) distance = fade length distance := by
  rcases le_or_gt length 0 with hle | hlt
  · rw [max_eq_right hle, fade_of_nonpos le_rfl, fade_of_nonpos hle]
  · rw [max_eq_left hlt.le]

theorem fade_le_one (length distance : ℚ) : fade length distance ≤ 1 := by
  rcases le_or_gt length 0 with hle | hlt
  · exact (fade_of_nonpos hle distance).le
  · rw [fade_of_pos hlt]
    exact min_le_right _ _

theorem fade_nonneg (length : ℚ) (h : 0 ≤ distance) : 0 ≤ fade length distance := by
  rcases le_or_gt length 0 with hle | hlt
  · rw [fade_of_nonpos hle]
    exact zero_le_one
  · rw [fade_of_pos hlt]
    exact le_min (div_nonneg h hlt.le) zero_le_one

theorem fade_zero (h : 0 < length) : fade length 0 = 0 := by
  rw [fade_of_pos h, zero_div]
  exact min_eq_left zero_le_one

/-- Nothing is taken away from the end of a fade on. -/
theorem fade_eq_one_iff (h : 0 ≤ distance) : fade length distance = 1 ↔ length ≤ distance := by
  rcases le_or_gt length 0 with hle | hlt
  · exact iff_of_true (fade_of_nonpos hle distance) (hle.trans h)
  · rw [fade_of_pos hlt, min_eq_right_iff, one_le_div hlt]

theorem monotone_fade (length : ℚ) : Monotone (fade length) := by
  intro distance distance' h
  rcases le_or_gt length 0 with hle | hlt
  · rw [fade_of_nonpos hle, fade_of_nonpos hle]
  · rw [fade_of_pos hlt, fade_of_pos hlt]
    exact min_le_min_right 1 (div_le_div_of_nonneg_right h hlt.le)

theorem concaveOn_fade (length : ℚ) : ConcaveOn ℚ Set.univ (fade length) := by
  have hall : Convex ℚ (Set.univ : Set ℚ) := convex_univ
  have hwhole : ConcaveOn ℚ Set.univ fun _ : ℚ => (1 : ℚ) := concaveOn_const 1 hall
  rcases le_or_gt length 0 with hle | hlt
  · exact hwhole.congr fun distance _ => (fade_of_nonpos hle distance).symm
  · have hslope := (concaveOn_id hall).smul (inv_nonneg.mpr hlt.le)
    refine (hslope.inf hwhole).congr fun distance _ => ?_
    rw [fade_of_pos hlt, div_eq_inv_mul]
    rfl

/-- A fade that is measured from its other side. -/
theorem concaveOn_fade_sub (length stop : ℚ) :
    ConcaveOn ℚ Set.univ fun distance => fade length (stop - distance) :=
  (concaveOn_fade length).comp_affineMap (AffineEquiv.constVSub ℚ stop).toAffineMap

end

/-! ## Values of an envelope -/

namespace Envelope

variable {e : Envelope ℚ} {phase : ℚ}

theorem value_eq_mul (e : Envelope ℚ) (phase : ℚ) :
    e.value phase = e.amplitude * (fade e.attack phase * fade e.decay (e.count - phase)) := by
  rw [← mul_assoc]
  simp only [value, rising, ite_eq_mul_fade]

theorem value_nonneg (hamplitude : 0 ≤ e.amplitude) (hstart : 0 ≤ phase) (hstop : phase ≤ e.count) :
    0 ≤ e.value phase := by
  rw [value_eq_mul]
  exact mul_nonneg hamplitude
    (mul_nonneg (fade_nonneg _ hstart) (fade_nonneg _ (sub_nonneg.mpr hstop)))

theorem value_le_amplitude (hamplitude : 0 ≤ e.amplitude) (hstop : phase ≤ e.count) :
    e.value phase ≤ e.amplitude := by
  rw [value_eq_mul]
  exact mul_le_of_le_one_right hamplitude
    (mul_le_one₀ (fade_le_one _ _) (fade_nonneg _ (sub_nonneg.mpr hstop)) (fade_le_one _ _))

theorem value_zero (hattack : 0 < e.attack) : e.value 0 = 0 := by
  rw [value_eq_mul, fade_zero hattack, zero_mul, mul_zero]

/-- The full amplitude is reached between the fades and nowhere else. -/
theorem value_eq_amplitude_iff (hamplitude : 0 < e.amplitude) (hstart : 0 ≤ phase)
    (hstop : phase ≤ e.count) :
    e.value phase = e.amplitude ↔ e.attack ≤ phase ∧ e.decay ≤ e.count - phase := by
  have hrest := sub_nonneg.mpr hstop
  rw [value_eq_mul, mul_eq_left₀ hamplitude.ne', ← fade_eq_one_iff hstart, ← fade_eq_one_iff hrest]
  constructor
  · intro h
    -- The product is no more than either share, so what one of them lacks the other cannot make up.
    have hattack := fade_le_one e.attack phase
    have hdecay := fade_le_one e.decay (e.count - phase)
    have hle := mul_le_of_le_one_right (fade_nonneg e.attack hstart) hdecay
    have hle' := mul_le_of_le_one_left (fade_nonneg e.decay hrest) hattack
    rw [h] at hle hle'
    exact ⟨hattack.antisymm hle, hdecay.antisymm hle'⟩
  · rintro ⟨hattack, hdecay⟩
    rw [hattack, hdecay, one_mul]

/-- **An envelope is concave**, as a product of a share that grows and one that falls. -/
theorem concaveOn_value (hamplitude : 0 ≤ e.amplitude) :
    ConcaveOn ℚ (Set.Icc 0 e.count) e.value := by
  have hconvex : Convex ℚ (Set.Icc 0 e.count) := convex_Icc 0 e.count
  have hattack := (concaveOn_fade e.attack).subset (Set.subset_univ _) hconvex
  have hdecay := (concaveOn_fade_sub e.decay e.count).subset (Set.subset_univ _) hconvex
  have hgrows : MonotoneOn (fade e.attack) (Set.Icc 0 e.count) := (monotone_fade _).monotoneOn _
  have hfalls : AntitoneOn (fun phase => fade e.decay (e.count - phase)) (Set.Icc 0 e.count) :=
    fun _ _ _ _ h => monotone_fade _ (sub_le_sub_left h _)
  have hproduct := hattack.mul hdecay (fun _ h => fade_nonneg _ h.1)
    (fun _ h => fade_nonneg _ (sub_nonneg.mpr h.2)) (hgrows.antivaryOn hfalls)
  exact (hproduct.smul hamplitude).congr fun phase _ => (value_eq_mul e phase).symm

end Envelope

/-! ## First values of an envelope -/

/-- Values of which none falls up to one of them, and none rises from that one on. -/
def HasPeak (values : List ℚ) : Prop :=
  ∃ peak, (values ≠ [] → peak < values.length) ∧
    (values.take (peak + 1)).Pairwise (· ≤ ·) ∧ (values.drop peak).Pairwise (· ≥ ·)

/-- A row has a peak where no value is below both of two others around it. -/
theorem hasPeak_of_min_le {f : Nat → ℚ} {n : Nat}
    (h : ∀ i j k, i ≤ j → j ≤ k → k < n → min (f i) (f k) ≤ f j) :
    HasPeak ((List.range n).map f) := by
  rcases Nat.eq_zero_or_pos n with rfl | hn
  · exact ⟨0, fun hne => absurd rfl hne, List.Pairwise.nil, List.Pairwise.nil⟩
  · obtain ⟨peak, hpeak, hmost⟩ :=
      (Finset.range n).exists_max_image f ⟨0, Finset.mem_range.mpr hn⟩
    simp only [Finset.mem_range] at hpeak hmost
    -- Nothing between the greatest value and another one is below that other one.
    refine ⟨peak, fun _ => by simpa using hpeak, ?_, ?_⟩
    · rw [List.pairwise_iff_getElem]
      intro i j hi hj hij
      simp only [List.length_take, List.length_map, List.length_range] at hi hj
      simp only [List.getElem_take, List.getElem_map, List.getElem_range]
      have hmin := h i j peak hij.le (by omega) hpeak
      rwa [min_eq_left (hmost i (by omega))] at hmin
    · rw [List.pairwise_iff_getElem]
      intro i j hi hj hij
      simp only [List.length_drop, List.length_map, List.length_range] at hi hj
      simp only [List.getElem_drop, List.getElem_map, List.getElem_range]
      have hmin := h peak (peak + i) (peak + j) (by omega) (by omega) (by omega)
      rwa [min_eq_right (hmost (peak + j) (by omega))] at hmin

namespace Envelope

/-- What the first values of an envelope are like. -/
structure Arched (e : Envelope ℚ) (span : Int) (values : List ℚ) : Prop where
  length_eq : (values.length : Int) = span
  getElem?_eq : ∀ i : Nat, i < span →
    values[i]? = some (e.amplitude * (fade e.attack i * fade e.decay (e.count - i)))
  bounds : ∀ value ∈ values, 0 ≤ value ∧ value ≤ e.amplitude
  starts_silent : 0 < e.attack → 0 < span → values[0]? = some 0
  hasPeak : HasPeak values
  eq_amplitude_iff : 0 < e.amplitude → ∀ i : Nat, i < span →
    (values[i]? = some e.amplitude ↔ e.attack ≤ i ∧ e.decay ≤ e.count - i)

theorem arched_values {e : Envelope ℚ} {n : Nat} (hn : n ≤ e.count) (hamplitude : 0 ≤ e.amplitude) :
    Arched e n ((List.range n).map fun i : Nat => e.value i) := by
  have hstart : ∀ i : Nat, (0 : ℚ) ≤ i := fun i => i.cast_nonneg
  have hstop : ∀ i < n, (i : ℚ) ≤ e.count := fun i hi => (Nat.cast_le.mpr hi.le).trans hn
  have hget : ∀ i : Nat, (i : Int) < n →
      ((List.range n).map fun i : Nat => e.value i)[i]? = some (e.value i) := fun i hi => by
    rw [List.getElem?_map, List.getElem?_range (by omega), Option.map_some]
  refine ⟨by simp, fun i hi => ?_, fun value hvalue => ?_, fun hattack hspan => ?_, ?_,
    fun hpos i hi => ?_⟩
  · rw [hget i hi, value_eq_mul]
  · obtain ⟨i, hi, rfl⟩ := List.mem_map.mp hvalue
    have hi := hstop i (List.mem_range.mp hi)
    exact ⟨value_nonneg hamplitude (hstart i) hi, value_le_amplitude hamplitude hi⟩
  · rw [hget 0 hspan, Nat.cast_zero, value_zero hattack]
  · refine hasPeak_of_min_le fun i j k hij hjk hk => ?_
    exact (concaveOn_value hamplitude).min_le_of_mem_Icc ⟨hstart i, hstop i (by omega)⟩
      ⟨hstart k, hstop k hk⟩ ⟨Nat.cast_le.mpr hij, Nat.cast_le.mpr hjk⟩
  · rw [hget i hi, Option.some_inj]
    exact value_eq_amplitude_iff hpos (hstart i) (hstop i (by omega))

end Envelope

/-! ## Envelopes in any numbers -/

/-- A system of numbers that can be laid out in rows: what is asked for a length before the places
are numbered and when they are laid out, and the number of a place. -/
structure RowSystem (α : Type) extends NumberSystem α where
  requireRange : Int → Except Error Unit
  placesOf : Int → Except Error Nat
  position : Nat → α

namespace RowSystem

/-- Rows of floats, as the library has them. -/
def binary64 [Room] : RowSystem Float :=
  { NumberSystem.binary64 with
    requireRange := Rendering.requireRange
    placesOf := Rendering.placesOf .float
    position := Rendering.position }

/-- Rows of fractions, which can be of any length. -/
def exact : RowSystem ℚ :=
  { NumberSystem.exact with
    requireRange := fun _ => .ok ()
    placesOf := fun count => if count < 0 then .error (.buffer .negative) else .ok count.toNat
    position := fun index => index }

variable {α : Type} [OfNat α 0] [Sub α] [Mul α] [Div α] [LT α] [DecidableLT α]
  (system : RowSystem α)

/-- The length of a fade. -/
def fadeLength (samples : Int) : Except Error α :=
  if 0 < samples then system.ofInt samples else .ok 0

/-- The first values of an envelope, at an amplitude that may be too large for the system. -/
def envelopeValues (count span : Int) (amplitude : Except Error α) (attack decay : Int) :
    Except Error (List α) := do
  system.requireRange span
  let count ← system.ofInt count
  let amplitude ← amplitude
  let places ← system.placesOf span
  let attack ← system.fadeLength attack
  let decay ← system.fadeLength decay
  let shape : Envelope α := ⟨count, amplitude, attack, decay⟩
  return (List.range places).map fun i => shape.value (system.position i)

theorem binary64_envelopeValues [Room] (count span : Int) (amplitude : Number) (attack decay : Int) :
    binary64.envelopeValues count span amplitude.toFloat attack decay =
      Rendering.envelopeValues count span amplitude attack decay := rfl

/-! ## Envelopes in fractions -/

theorem exact_fadeLength (samples : Int) :
    exact.fadeLength samples = .ok ((max samples 0 : Int) : ℚ) := by
  unfold fadeLength
  split
  · rename_i h
    rw [max_eq_left h.le]
    rfl
  · rename_i h
    rw [max_eq_right (not_lt.mp h), Int.cast_zero]

/-- A fade that is not positive has no effect, however far below zero it is. -/
theorem exact_envelopeValues {count span : Int} (amplitude : ℚ) (attack decay : Int)
    (h : 0 ≤ span) :
    exact.envelopeValues count span (.ok amplitude) attack decay =
      .ok ((List.range span.toNat).map fun i : Nat =>
        Envelope.value ⟨(count : ℚ), amplitude, attack, decay⟩ (i : ℚ)) := by
  have hplaces : exact.placesOf span = .ok span.toNat := if_neg h.not_gt
  have hshape : ∀ i : Nat,
      Envelope.value ⟨(count : ℚ), amplitude, (max attack 0 : Int), (max decay 0 : Int)⟩ (i : ℚ) =
        Envelope.value ⟨(count : ℚ), amplitude, attack, decay⟩ (i : ℚ) := fun i => by
    simp only [Envelope.value_eq_mul, Int.cast_max, Int.cast_zero, fade_max_zero]
  simp only [← hshape]
  unfold envelopeValues
  rw [hplaces, exact_fadeLength, exact_fadeLength]
  rfl

theorem exists_exact_envelopeValues_iff {count span : Int} (amplitude : ℚ) (attack decay : Int) :
    (∃ values, exact.envelopeValues count span (.ok amplitude) attack decay = .ok values) ↔
      0 ≤ span := by
  constructor
  · rintro ⟨values, h⟩
    by_contra hspan
    have hplaces : exact.placesOf span = .error (.buffer .negative) := if_pos (not_le.mp hspan)
    unfold envelopeValues at h
    rw [hplaces] at h
    cases h
  · exact fun hspan => ⟨_, exact_envelopeValues amplitude attack decay hspan⟩

/-- **The shape of an envelope.** The values of an envelope are computed in floats as in fractions.
In fractions there are as many as are asked for, and each is the amplitude times its shares of both
fades. They stay between zero and the amplitude, begin with silence where there is an attack, go up
to a peak and then down, and are the full amplitude between the fades and nowhere else. -/
theorem exact_envelopeValues_arched [Room] {count span : Int} {amplitude : ℚ} (attack decay : Int)
    (hspan : span ≤ count) (hamplitude : 0 ≤ amplitude) :
    (∀ level : Number, Rendering.envelopeValues count span level attack decay =
        binary64.envelopeValues count span level.toFloat attack decay) ∧
      ((∃ values, exact.envelopeValues count span (.ok amplitude) attack decay = .ok values) ↔
        0 ≤ span) ∧
      ∀ values, exact.envelopeValues count span (.ok amplitude) attack decay = .ok values →
        Envelope.Arched ⟨count, amplitude, attack, decay⟩ span values := by
  refine ⟨fun level => (binary64_envelopeValues count span level attack decay).symm,
    exists_exact_envelopeValues_iff amplitude attack decay, fun values hvalues => ?_⟩
  have hspan0 := (exists_exact_envelopeValues_iff amplitude attack decay).mp ⟨values, hvalues⟩
  rw [exact_envelopeValues amplitude attack decay hspan0] at hvalues
  cases hvalues
  obtain ⟨n, rfl⟩ := Int.eq_ofNat_of_zero_le hspan0
  have hcount : (n : ℚ) ≤ count := by exact_mod_cast hspan
  exact Envelope.arched_values hcount hamplitude

/-- A note of six samples with fades of eight and seven, of which the last sample is left out. -/
theorem exact_envelopeValues_arched_overlap :
    (5 : Int) ≤ 6 ∧ (0 : ℚ) ≤ 56 ∧
      exact.envelopeValues 6 5 (.ok 56) 8 7 = .ok [0, 5, 8, 9, 8] ∧
        Envelope.Arched ⟨(6 : Int), 56, (8 : Int), (7 : Int)⟩ 5 [0, 5, 8, 9, 8] := by
  have hspan : (5 : Int) ≤ 6 := by decide
  have hamplitude : (0 : ℚ) ≤ 56 := by decide
  have hvalues : (exact.envelopeValues 6 5 (.ok 56) 8 7).toOption = some [0, 5, 8, 9, 8] := by
    decide +kernel
  obtain ⟨-, -, harched⟩ := exact_envelopeValues_arched 8 7 hspan hamplitude
  have hok := toOption_eq_some_iff.mp hvalues
  exact ⟨hspan, hamplitude, hok, harched _ hok⟩

end RowSystem
end Chiptune
