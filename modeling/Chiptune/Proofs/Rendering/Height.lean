import Chiptune.Proofs.Rendering.Voice

/-!
# How high a note can be

A frequency is refused where the power of two for it is too large: from 12288 semitones above the `A`
of octave 4 on, which is the `A` of octave 1028 (`Note.isRefused_iff`). It can also become an infinity,
in the product behind the power, and that is the case for the 105 semitones below, down to the `C` of
octave 1020 (`Note.isInfinite_frequency_iff`).
-/

namespace Chiptune

open Binary64

/-- Whether a float is an infinity. -/
def Binary64.isInfinite (x : Float) : Bool :=
  match view x with
  | .infinite _ => true
  | _ => false

namespace Note

/-- Whether a note has no frequency. -/
def isRefused (note : Note) : Bool :=
  match note.frequency with
  | .ok _ => false
  | .error _ => true

/-- Whether the frequency of a note is past the greatest float: it is refused, or an infinity. -/
def overflows (note : Note) : Bool :=
  match note.frequency with
  | .ok frequency => isInfinite frequency
  | .error _ => true

/-- The frequency that is so many semitones above the `A` of octave 4. -/
def frequencyAt (semitones : Int) : Except Error Float := do
  let octaves ← ofQuotient semitones 12
  match powTwo? octaves with
  | some factor => return 440.0 * factor
  | none => throw (.arithmetic .powerTooLarge)

theorem frequency_eq (note : Note) : note.frequency = frequencyAt note.semitones := rfl

/-- The last octaves in front of the power that is too large, semitone by semitone. Below them the
product cannot be too large, since 440 is below `2 ^ 9`. -/
theorem isInfinite_frequencyAt_last (n : Fin 132) :
    (frequencyAt (12156 + n.val)).toOption.map isInfinite = some (decide (27 ≤ n.val)) := by
  revert n
  decide +kernel

theorem exists_frequencyAt_last {semitones : Int} (hlow : 12156 ≤ semitones)
    (hhigh : semitones < 12288) :
    ∃ frequency, frequencyAt semitones = .ok frequency ∧
      (isInfinite frequency = true ↔ 12183 ≤ semitones) := by
  obtain ⟨n, rfl⟩ := Int.le.dest hlow
  obtain ⟨frequency, hfrequency, hinfinite⟩ :=
    Option.map_eq_some_iff.mp (isInfinite_frequencyAt_last ⟨n, by omega⟩)
  refine ⟨frequency, toOption_eq_some_iff.mp hfrequency, ?_⟩
  rw [hinfinite, decide_eq_true_iff]
  show 27 ≤ n ↔ _
  omega

theorem exists_frequencyAt_low {semitones : Int} (hlow : semitones.natAbs < 12 * floatLimit)
    (h : semitones ≤ 12156) :
    ∃ frequency, frequencyAt semitones = .ok frequency ∧ isInfinite frequency = false := by
  obtain ⟨octaves, hoctaves⟩ := (exists_ofQuotient_iff (by decide)).mpr hlow
  obtain ⟨x, hx, hnearest⟩ := exists_view_ofQuotient (by decide) hoctaves
  have hbelow : x.value ≤ (1013 : Nat) := by
    refine (hnearest.adjoins _ (representable_natCast (by decide))).2 ?_
    have hcast : (semitones : ℚ) ≤ (12156 : Int) := Int.cast_le.mpr h
    push_cast at hcast ⊢
    linarith
  have hfloor : x.floor < (1014 : Nat) := by
    have hle : x.floor ≤ (1013 : Nat) := by exact_mod_cast x.floor_le.trans hbelow
    omega
  obtain ⟨factor, d, hfactor, hd, hnonneg, hle⟩ := exists_powDyadic_le hfloor (by decide)
  obtain ⟨a, ha, ha440⟩ := view_concert_pitch
  have hproduct : |a.value * d.value| ≤ 2 ^ 1023 := by
    rw [ha440, abs_of_nonneg (by positivity)]
    calc 440 * d.value ≤ 2 ^ 9 * 2 ^ 1014 := by gcongr; norm_num
      _ = 2 ^ 1023 := by rw [← pow_add]
  obtain ⟨c, hc, -⟩ := exists_view_mul ha hd hproduct
  refine ⟨440.0 * factor, ?_, ?_⟩
  · refine bind_eq_ok_iff.mpr ⟨octaves, hoctaves, ?_⟩
    rw [powTwo?, hx]
    simp only
    rw [hfactor]
    rfl
  · unfold isInfinite
    rw [hc]

theorem frequencyAt_high {semitones : Int} (h : 12288 ≤ semitones) :
    ¬ ∃ frequency, frequencyAt semitones = .ok frequency := by
  rintro ⟨frequency, hfrequency⟩
  obtain ⟨octaves, hoctaves, hfrequency⟩ := bind_eq_ok_iff.mp hfrequency
  obtain ⟨x, hx, hnearest⟩ := exists_view_ofQuotient (by decide) hoctaves
  have habove : (1024 : Nat) ≤ x.value := by
    refine (hnearest.adjoins _ (representable_natCast (by decide))).1 ?_
    have hcast : ((12288 : Int) : ℚ) ≤ semitones := Int.cast_le.mpr h
    push_cast at hcast ⊢
    linarith
  rw [powTwo?, hx] at hfrequency
  simp only at hfrequency
  rw [powDyadic?_of_large (by exact_mod_cast habove)] at hfrequency
  cases hfrequency

theorem isRefused_eq_true_iff {note : Note} :
    note.isRefused = true ↔ ¬ ∃ frequency, frequencyAt note.semitones = .ok frequency := by
  rw [← frequency_eq, isRefused]
  cases note.frequency <;> simp

theorem natAbs_lt_of_frequencyAt {semitones : Int} {frequency : Float}
    (h : frequencyAt semitones = .ok frequency) : semitones.natAbs < 12 * floatLimit := by
  obtain ⟨octaves, hoctaves, -⟩ := bind_eq_ok_iff.mp h
  exact (exists_ofQuotient_iff (by decide)).mp ⟨octaves, hoctaves⟩

/-- **How high a note can be** before its frequency is refused. One that is as low as no float is
refused as well. -/
theorem isRefused_iff {note : Note} :
    note.isRefused = true ↔
      12288 ≤ note.semitones ∨ note.semitones ≤ -(12 * floatLimit : Nat) := by
  have hlimit : 2 ^ 11 ≤ floatLimit := two_pow_le_floatLimit (by decide)
  have hlimit' : 12288 ≤ 12 * floatLimit := by omega
  rw [isRefused_eq_true_iff]
  constructor
  · intro hnone
    by_contra hbetween
    obtain ⟨hhigh, hlow⟩ := not_or.mp hbetween
    rcases Int.le_total note.semitones 12156 with hless | hmore
    · obtain ⟨frequency, hfrequency, -⟩ := exists_frequencyAt_low (by omega) hless
      exact hnone ⟨frequency, hfrequency⟩
    · obtain ⟨frequency, hfrequency, -⟩ := exists_frequencyAt_last hmore (by omega)
      exact hnone ⟨frequency, hfrequency⟩
  · rintro (hhigh | hlow)
    · exact frequencyAt_high hhigh
    · rintro ⟨frequency, hfrequency⟩
      have := natAbs_lt_of_frequencyAt hfrequency
      omega

/-- **How high a note can be** before its frequency is an infinity. -/
theorem isInfinite_frequency_iff {note : Note} {frequency : Float}
    (h : note.frequency = .ok frequency) :
    isInfinite frequency = true ↔ 12183 ≤ note.semitones := by
  rw [frequency_eq] at h
  have hhigh : note.semitones < 12288 := by
    by_contra hle
    exact frequencyAt_high (by omega) ⟨frequency, h⟩
  rcases Int.le_total note.semitones 12156 with hless | hmore
  · obtain ⟨frequency', hfrequency', hfinite⟩ :=
      exists_frequencyAt_low (natAbs_lt_of_frequencyAt h) hless
    obtain rfl : frequency = frequency' := Except.ok.inj (h.symm.trans hfrequency')
    exact iff_of_false (by rw [hfinite]; exact Bool.false_ne_true) (by omega)
  · obtain ⟨frequency', hfrequency', hinfinite⟩ := exists_frequencyAt_last hmore hhigh
    obtain rfl : frequency = frequency' := Except.ok.inj (h.symm.trans hfrequency')
    exact hinfinite

/-- Where a frequency is past the greatest float. -/
theorem overflows_iff {note : Note} :
    note.overflows = true ↔
      12183 ≤ note.semitones ∨ note.semitones ≤ -(12 * floatLimit : Nat) := by
  have hrefused := @isRefused_iff note
  unfold isRefused at hrefused
  unfold overflows
  cases h : note.frequency with
  | ok frequency =>
    rw [h] at hrefused
    have hlow : ¬ note.semitones ≤ -(12 * floatLimit : Nat) := fun hlow =>
      absurd (hrefused.mpr (.inr hlow)) Bool.false_ne_true
    rw [or_iff_left hlow]
    exact isInfinite_frequency_iff h
  | error reason =>
    rw [h] at hrefused
    have hpast := hrefused.mp rfl
    exact iff_of_true rfl (by omega)

/-- **Where it is not refused:** over 105 semitones. -/
theorem isRefused_eq_overflows_iff {note : Note} :
    note.isRefused = note.overflows ↔ note.semitones < 12183 ∨ 12288 ≤ note.semitones := by
  have hlimit : 2 ^ 11 ≤ floatLimit := two_pow_le_floatLimit (by decide)
  rw [Bool.eq_iff_iff, isRefused_iff, overflows_iff]
  omega

end Note
end Chiptune
