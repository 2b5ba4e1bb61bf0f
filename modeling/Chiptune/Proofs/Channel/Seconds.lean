import Chiptune.Channel
import Chiptune.Proofs.Binary64.Quotient
import Chiptune.Proofs.Binary64.Ratio
import Chiptune.Proofs.Binary64.Sum

/-!
# Playing times

The length of a note is found in two divisions, by its duration and by the tempo. So whether the
playing time of a channel can be found is a question to each of its notes (`exists_seconds_iff`), and
another tempo changes nothing about it, as long as one can divide by it
(`exists_seconds_of_pulse`).

At a tempo of at least one beat a minute no note lasts longer than four minutes. The playing time of a
channel is then a number, however many notes there are: it stands still long before the greatest float
(`exists_view_seconds`).
-/

namespace Chiptune

theorem Note.seconds_eq_ok_iff {note : Note} {tempo : Number} {length : Float} :
    note.seconds tempo = .ok length ↔
      ∃ duration pulse, Binary64.ofInt note.duration = .ok duration ∧ (duration == 0) = false ∧
        tempo.toFloat = .ok pulse ∧ (pulse == 0) = false ∧
          4.0 / duration * (60.0 / pulse) = length := by
  unfold Note.seconds
  constructor
  · intro h
    obtain ⟨duration, hduration, h⟩ := bind_eq_ok_iff.mp h
    obtain ⟨beats, hbeats, h⟩ := bind_eq_ok_iff.mp h
    obtain ⟨pulse, hpulse, h⟩ := bind_eq_ok_iff.mp h
    obtain ⟨beat, hbeat, h⟩ := bind_eq_ok_iff.mp h
    obtain ⟨hduration0, rfl⟩ := Binary64.divide_eq_ok_iff.mp hbeats
    obtain ⟨hpulse0, rfl⟩ := Binary64.divide_eq_ok_iff.mp hbeat
    exact ⟨duration, pulse, hduration, hduration0, hpulse, hpulse0, Except.ok.inj h⟩
  · rintro ⟨duration, pulse, hduration, hduration0, hpulse, hpulse0, rfl⟩
    rw [hduration, hpulse]
    simp only [bind, Except.bind]
    rw [Binary64.divide_eq_ok_iff.mpr ⟨hduration0, rfl⟩,
      Binary64.divide_eq_ok_iff.mpr ⟨hpulse0, rfl⟩]
    rfl

theorem view_four : ∃ d, Binary64.view 4.0 = .finite d ∧ d.value = 4 :=
  ⟨⟨4503599627370496, -50⟩, rfl, by norm_num [Binary64.Dyadic.value]⟩

theorem view_sixty : ∃ d, Binary64.view 60.0 = .finite d ∧ d.value = 60 :=
  ⟨⟨8444249301319680, -47⟩, rfl, by norm_num [Binary64.Dyadic.value]⟩

/-- No note lasts longer than four minutes. -/
theorem Note.exists_view_seconds {note : Note} {beats : Int} {length : Float} (hbeats : 1 ≤ beats)
    (h : note.seconds (.whole beats) = .ok length) :
    ∃ d, Binary64.view length = .finite d ∧ 0 ≤ d.value ∧ d.value ≤ 240 := by
  obtain ⟨duration, pulse, hduration, -, hpulse, -, rfl⟩ := seconds_eq_ok_iff.mp h
  obtain ⟨d, hd, -⟩ := Binary64.exists_view_ofInt hduration
  obtain ⟨p, hp, -⟩ := Binary64.exists_view_ofInt hpulse
  have hd1 := Binary64.one_le_value_ofInt (by have := note.duration_pos; omega) hduration hd
  have hp1 := Binary64.one_le_value_ofInt hbeats hpulse hp
  obtain ⟨four, hfour, hfour'⟩ := view_four
  obtain ⟨sixty, hsixty, hsixty'⟩ := view_sixty
  obtain ⟨a, ha, ha0, hale⟩ := @Binary64.exists_view_div_le _ _ _ _ 4 hfour hd (by linarith)
    (by rw [hfour']; norm_num) hd1 (by decide)
  obtain ⟨b, hb, hb0, hble⟩ := @Binary64.exists_view_div_le _ _ _ _ 60 hsixty hp (by linarith)
    (by rw [hsixty']; norm_num) hp1 (by decide)
  obtain ⟨c, hc, hc0, hcle⟩ := Binary64.exists_view_mul_le ha hb ha0 hb0 hale hble (by decide)
  exact ⟨c, hc, hc0, by norm_num at hcle; exact hcle⟩

namespace Channel

theorem exists_secondsFrom_iff {tempo : Number} {total : Float} {notes : List Note} :
    (∃ seconds, secondsFrom tempo total notes = .ok seconds) ↔
      ∀ note ∈ notes, ∃ length, note.seconds tempo = .ok length := by
  induction notes generalizing total with
  | nil => exact iff_of_true ⟨total, rfl⟩ fun note hnote => absurd hnote List.not_mem_nil
  | cons note rest ih =>
    rw [List.forall_mem_cons]
    constructor
    · rintro ⟨seconds, h⟩
      obtain ⟨length, hlength, h⟩ := bind_eq_ok_iff.mp h
      exact ⟨⟨length, hlength⟩, ih.mp ⟨seconds, h⟩⟩
    · rintro ⟨⟨length, hlength⟩, hrest⟩
      obtain ⟨seconds, h⟩ := ih.mpr hrest
      exact ⟨seconds, bind_eq_ok_iff.mpr ⟨length, hlength, h⟩⟩

/-- The playing time of a channel can be found iff the lengths of its notes can. -/
theorem exists_seconds_iff {channel : Channel} {tempo : Number} :
    (∃ seconds, channel.seconds tempo = .ok seconds) ↔
      ∀ note ∈ channel.notes, ∃ length, note.seconds tempo = .ok length := by
  unfold seconds
  rw [exists_secondsFrom_iff]
  simp only [Array.mem_toList_iff]

/-- A playing time at one tempo can be found at another. -/
theorem exists_seconds_of_pulse {channel : Channel} {tempo tempo' : Number} {pulse : Float}
    (h : ∃ seconds, channel.seconds tempo = .ok seconds) (hpulse : tempo'.toFloat = .ok pulse)
    (hpulse0 : (pulse == 0) = false) : ∃ seconds, channel.seconds tempo' = .ok seconds := by
  rw [exists_seconds_iff] at h ⊢
  intro note hnote
  obtain ⟨length, hlength⟩ := h note hnote
  obtain ⟨duration, -, hduration, hduration0, -⟩ := Note.seconds_eq_ok_iff.mp hlength
  exact ⟨_, Note.seconds_eq_ok_iff.mpr
    ⟨duration, pulse, hduration, hduration0, hpulse, hpulse0, rfl⟩⟩

theorem exists_view_secondsFrom {beats : Int} {total seconds : Float} {notes : List Note}
    {d : Binary64.Dyadic} (hbeats : 1 ≤ beats) (hd : Binary64.view total = .finite d)
    (hd0 : 0 ≤ d.value) (hdle : d.value ≤ 2 ^ 70)
    (h : secondsFrom (.whole beats) total notes = .ok seconds) :
    ∃ d', Binary64.view seconds = .finite d' ∧ 0 ≤ d'.value := by
  induction notes generalizing total d with
  | nil =>
    cases h
    exact ⟨d, hd, hd0⟩
  | cons note rest ih =>
    obtain ⟨length, hlength, h⟩ := bind_eq_ok_iff.mp h
    obtain ⟨l, hl, hl0, hlle⟩ := note.exists_view_seconds hbeats hlength
    obtain ⟨c, hc, hc0, hcle⟩ := @Binary64.value_add_le_two_pow _ _ _ _ 70 (by decide) hd hl hd0 hl0
      hdle (by norm_num; linarith)
    exact ih hc hc0 hcle h

/-- **A playing time is a number**, at any tempo of at least one. -/
theorem exists_view_seconds {channel : Channel} {beats : Int} {seconds : Float} (hbeats : 1 ≤ beats)
    (h : channel.seconds (.whole beats) = .ok seconds) :
    ∃ d, Binary64.view seconds = .finite d ∧ 0 ≤ d.value := by
  exact exists_view_secondsFrom hbeats Binary64.view_zero (by simp [Binary64.Dyadic.value])
    (by simp [Binary64.Dyadic.value]) h

end Channel
end Chiptune
