import Chiptune.Proofs.Midi.Timing

/-!
# Exact positions

In fractions the position of a note is the sum of the lengths before it (`exactTicks`), however many
there are, and only the ticks are rounded. So no event is more than half a tick away from where it
should be, no time is negative, and all times add up to the rounded length of the channel
(`exact_track_punctual`).

Floats lose a little at every note. As a track is made of nothing but ticks, it is the exact one as
long as that changes no tick (`track_eq_exact`).
-/

namespace Chiptune
namespace Midi

/-! ## Times from ticks -/

@[simp] theorem Message.time_withTime (message : Message) (t : Int) :
    (message.withTime t).time = t := by
  cases message <;> rfl

theorem lastTick_placed (last : Int) (messages : List Message) :
    lastTick last (placed last messages) = last + (messages.map Message.time).sum := by
  induction messages generalizing last with
  | nil => simp [lastTick, placed]
  | cons message rest ih =>
    rw [placed, lastTick, List.foldl_cons, Message.time_withTime, ← lastTick, ih, List.map_cons,
      List.sum_cons, add_assoc]

/-- Times are not negative where messages are in the order of their ticks. -/
theorem forall_time_nonneg_iff (last : Int) (messages : List Message) :
    (∀ message ∈ messages, 0 ≤ message.time) ↔
      (last :: (placed last messages).map Message.time).IsChain (· ≤ ·) := by
  induction messages generalizing last with
  | nil => simp [placed]
  | cons message rest ih =>
    rw [List.forall_mem_cons, ih (last + message.time), placed, List.map_cons,
      List.isChain_cons_cons, Message.time_withTime, le_add_iff_nonneg_right]

theorem lastTick_le_of_isChain {last stop : Int} {messages : List Message}
    (h : (last :: (messages.map Message.time ++ [stop])).IsChain (· ≤ ·)) :
    lastTick last messages ≤ stop := by
  induction messages generalizing last with
  | nil => exact List.isChain_pair.mp h
  | cons message rest ih => exact ih (List.isChain_cons_cons.mp h).2

variable {channel : Int} {name : String} {ticks : Nat → Int} {notes : List Note}
  {messages : List Message}

/-- The strokes of notes are in the order of their ticks, and none is behind the last of these. -/
theorem isChain_strokes {last : Int} (hlast : last ≤ ticks 0)
    (hmono : MonotoneOn ticks (Set.Iic notes.length)) :
    (last :: ((strokes channel ticks notes).map Message.time ++ [ticks notes.length])).IsChain
      (· ≤ ·) := by
  induction notes generalizing last ticks with
  | nil => exact List.isChain_pair.mpr hlast
  | cons note rest ih =>
    have hstep : ticks 0 ≤ ticks 1 :=
      hmono (Nat.zero_le _) (Nat.succ_le_succ (Nat.zero_le _)) (Nat.zero_le 1)
    have hrest : MonotoneOn (fun k => ticks (k + 1)) (Set.Iic rest.length) :=
      fun _ hj _ hk hle => hmono (Nat.succ_le_succ hj) (Nat.succ_le_succ hk) (Nat.succ_le_succ hle)
    rw [strokes_cons]
    split
    · exact List.isChain_cons_cons.mpr
        ⟨hlast, List.isChain_cons_cons.mpr ⟨hstep, ih le_rfl hrest⟩⟩
    · exact ih (hlast.trans hstep) hrest

/-- Where ticks are in order, the end of a track is at the last of them, no time is negative, and
the times add up to where the end is. -/
theorem times_of_placed (hzero : ticks 0 = 0) (hmono : MonotoneOn ticks (Set.Iic notes.length))
    (h : placed 0 messages = (if name = "" then [] else [.trackName name 0]) ++
      strokes channel ticks notes ++
        [.endOfTrack (max (lastTick 0 (strokes channel ticks notes)) (ticks notes.length))]) :
    lastTick 0 (strokes channel ticks notes) ≤ ticks notes.length ∧
      (∀ message ∈ messages, 0 ≤ message.time) ∧
        (messages.map Message.time).sum = ticks notes.length := by
  have hchain := @isChain_strokes channel ticks notes 0 hzero.ge hmono
  have hlast := lastTick_le_of_isChain hchain
  rw [max_eq_right hlast] at h
  refine ⟨hlast, (forall_time_nonneg_iff 0 messages).mpr ?_, ?_⟩
  · rw [h]
    by_cases hname : name = ""
    · simpa [hname, Message.time] using hchain
    · simpa [hname, Message.time] using hchain
  · have hsum := lastTick_placed 0 messages
    rw [h, lastTick, List.foldl_append] at hsum
    simpa [Message.time] using hsum.symm

theorem Timed.ticks_zero {ticksPerBeat : Int}
    (h : Timed notes channel name ticksPerBeat messages ticks) : ticks 0 = 0 := by
  have hzero : tick 0 = .ok 0 := toOption_eq_some_iff.mp (by decide +kernel)
  exact Except.ok.inj ((h.ticks_eq 0 (Nat.zero_le _)).symm.trans hzero)

/-- No time of a track in floats is negative, and they add up to the last tick. -/
theorem Timed.times {ticksPerBeat : Int}
    (h : Timed notes channel name ticksPerBeat messages ticks) (hbeat : 0 ≤ ticksPerBeat) :
    (∀ message ∈ messages, 0 ≤ message.time) ∧
      (messages.map Message.time).sum = ticks notes.length :=
  (times_of_placed h.ticks_zero (h.ticks_mono hbeat) h.placed_eq).2

/-! ## Lengths in fractions -/

/-- The length of notes in ticks, with four beats for a whole note. -/
def exactTicks (ticksPerBeat : Int) (notes : List Note) : ℚ :=
  (notes.map fun note => 4 * (ticksPerBeat : ℚ) / note.duration).sum

theorem exactTicks_cons (ticksPerBeat : Int) (note : Note) (rest : List Note) :
    exactTicks ticksPerBeat (note :: rest) =
      4 * (ticksPerBeat : ℚ) / note.duration + exactTicks ticksPerBeat rest := by
  rw [exactTicks, List.map_cons, List.sum_cons, exactTicks]

theorem exactTicks_eq_mul (ticksPerBeat : Int) (notes : List Note) :
    exactTicks ticksPerBeat notes = ticksPerBeat * exactTicks 1 notes := by
  induction notes with
  | nil => simp [exactTicks]
  | cons note rest ih =>
    rw [exactTicks_cons, exactTicks_cons, ih]
    push_cast
    ring

theorem exactTicks_nonneg {ticksPerBeat : Int} (h : 0 ≤ ticksPerBeat) (notes : List Note) :
    0 ≤ exactTicks ticksPerBeat notes := by
  have hbeat : (0 : ℚ) ≤ ticksPerBeat := by exact_mod_cast h
  refine List.sum_nonneg fun length hlength => ?_
  obtain ⟨note, -, rfl⟩ := List.mem_map.mp hlength
  positivity

/-- More notes take no less time. -/
theorem exactTicks_take_mono {ticksPerBeat : Int} (h : 0 ≤ ticksPerBeat) (notes : List Note) :
    Monotone fun k => exactTicks ticksPerBeat (notes.take k) := by
  refine monotone_nat_of_le_succ fun k => ?_
  rw [List.take_add_one]
  simp only [exactTicks, List.map_append, List.sum_append, le_add_iff_nonneg_right]
  exact exactTicks_nonneg h _

end Midi

namespace NumberSystem

open Midi

variable {channel ticksPerBeat last : Int} {notes : List Note}

theorem natCast_duration_ne_zero (note : Note) : (note.duration : ℚ) ≠ 0 :=
  Nat.cast_ne_zero.mpr note.duration_pos.ne'

theorem exact_noteTicks (note : Note) (ticksPerBeat : Int) :
    exact.noteTicks note ticksPerBeat = .ok (4 * (ticksPerBeat : ℚ) / note.duration) := by
  show exact.divide ((ticksPerBeat : ℚ) * 4.0) ((note.duration : Int) : ℚ) = _
  have hfour : (4.0 : ℚ) = 4 := by norm_num
  rw [Int.cast_natCast, exact_divide (natCast_duration_ne_zero note), hfour, mul_comm]

theorem exact_positionFrom (position : ℚ) (notes : List Note) :
    exact.positionFrom ticksPerBeat position notes =
      .ok (position + exactTicks ticksPerBeat notes) := by
  induction notes generalizing position with
  | nil => simp [positionFrom, exactTicks]
  | cons note rest ih =>
    rw [positionFrom, exact_noteTicks, exactTicks_cons, ← add_assoc]
    exact ih _

theorem exact_tickFrom (position : ℚ) (notes : List Note) :
    exact.tickFrom ticksPerBeat position notes =
      .ok (nearestEven (position + exactTicks ticksPerBeat notes)) := by
  rw [tickFrom, exact_positionFrom]
  rfl

theorem exact_tickFrom_zero (notes : List Note) :
    exact.tickFrom ticksPerBeat 0 notes = .ok (nearestEven (exactTicks ticksPerBeat notes)) := by
  rw [exact_tickFrom, zero_add]

/-- In fractions nothing but the notes themselves can be in the way of a track. -/
theorem exists_exact_trackFrom_iff (position : ℚ) :
    (∃ messages, (exact.trackFrom channel ticksPerBeat position last notes).outcome =
      .ok messages) ↔ ∀ note ∈ notes, Playable channel note := by
  induction notes generalizing position last with
  | nil => exact iff_of_true ⟨_, rfl⟩ fun note h => absurd h List.not_mem_nil
  | cons note rest ih =>
    rw [List.forall_mem_cons]
    constructor
    · rintro ⟨messages, h⟩
      obtain ⟨hplayable, start, length, stop, -, -, -, hcases⟩ := trackFrom_cons.mp h
      rcases hcases with ⟨-, h⟩ | ⟨-, -, later, h, -⟩
      · exact ⟨hplayable, (ih _).mp ⟨_, h⟩⟩
      · exact ⟨hplayable, (ih _).mp ⟨_, h⟩⟩
    · rintro ⟨hplayable, hrest⟩
      by_cases hsounds : Sounds note
      · obtain ⟨v, hv⟩ := hplayable.exists_velocity hsounds
        obtain ⟨later, hlater⟩ := (ih _).mpr hrest
        exact ⟨_, trackFrom_cons.mpr ⟨hplayable, _, _, _, rfl, exact_noteTicks note ticksPerBeat,
          rfl, .inr ⟨hsounds, by rw [loudness, hv]; rfl, later, hlater, rfl⟩⟩⟩
      · obtain ⟨messages, h⟩ := (ih _).mpr hrest
        exact ⟨messages, trackFrom_cons.mpr ⟨hplayable, _, _, _, rfl,
          exact_noteTicks note ticksPerBeat, rfl, .inl ⟨hsounds, h⟩⟩⟩

/-! ## Playing times -/

theorem exact_noteSeconds (note : Note) {beats : ℚ} (h : beats ≠ 0) :
    exact.noteSeconds note (.ok beats) = .ok (60 / beats * (4 / note.duration)) := by
  show (exact.divide 4.0 ((note.duration : Int) : ℚ) >>= fun whole =>
    exact.divide 60.0 beats >>= fun beat => pure (whole * beat)) = _
  have hfour : (4.0 : ℚ) = 4 := by norm_num
  have hsixty : (60.0 : ℚ) = 60 := by norm_num
  rw [Int.cast_natCast, exact_divide (natCast_duration_ne_zero note), exact_divide h, hfour, hsixty,
    mul_comm (60 / beats)]
  rfl

/-- The playing time is the length in beats, of which there are so many in a minute. -/
theorem exact_secondsFrom {beats : ℚ} (h : beats ≠ 0) (total : ℚ) (notes : List Note) :
    exact.secondsFrom (.ok beats) total notes = .ok (total + 60 / beats * exactTicks 1 notes) := by
  induction notes generalizing total with
  | nil => simp [secondsFrom, exactTicks]
  | cons note rest ih =>
    rw [secondsFrom, exact_noteSeconds note h, exactTicks_cons, Int.cast_one, mul_one, mul_add,
      ← add_assoc]
    exact ih _

theorem exact_seconds (channel : Channel) {beats : ℚ} (h : beats ≠ 0) :
    exact.seconds channel (.ok beats) = .ok (60 / beats * exactTicks 1 channel.notes.toList) := by
  rw [seconds, exact_secondsFrom h, zero_add]

/-! ## Tracks -/

/-- What the messages of a channel are where positions are exact. -/
structure Punctual (channel : Channel) (ticksPerBeat number : Int) (messages : List Message) :
    Prop where
  /-- Every event is at the tick nearest to the lengths before it, whether the notes that have them
  sound or not. -/
  placed_eq : placed 0 messages =
    (if channel.name = "" then [] else [.trackName channel.name 0]) ++
      strokes number (fun k => nearestEven (exactTicks ticksPerBeat (channel.notes.toList.take k)))
        channel.notes.toList ++
      [.endOfTrack (nearestEven (exactTicks ticksPerBeat channel.notes.toList))]
  near : ∀ k, |(nearestEven (exactTicks ticksPerBeat (channel.notes.toList.take k)) : ℚ) -
    exactTicks ticksPerBeat (channel.notes.toList.take k)| ≤ 1 / 2
  time_nonneg : ∀ message ∈ messages, 0 ≤ message.time
  sum_time : (messages.map Message.time).sum =
    nearestEven (exactTicks ticksPerBeat channel.notes.toList)
  exactTicks_eq : ∀ beats : ℚ, 0 < beats → ∃ seconds,
    exact.seconds channel (.ok beats) = .ok seconds ∧
      exactTicks ticksPerBeat channel.notes.toList = seconds * (ticksPerBeat * beats / 60)

/-- A track is placed by the ticks behind its notes, in any numbers. -/
theorem track_placed {α : Type} [Add α] [Mul α] [OfNat α 0] [OfScientific α]
    {system : NumberSystem α} {name : String} {messages : List Message} {ticks : Nat → Int}
    (h : (system.track notes channel name ticksPerBeat).outcome = .ok messages)
    (hticks : ∀ k ≤ notes.length, system.tickFrom ticksPerBeat 0 (notes.take k) = .ok (ticks k)) :
    placed 0 messages = (if name = "" then [] else [.trackName name 0]) ++
      strokes channel ticks notes ++
        [.endOfTrack (max (lastTick 0 (strokes channel ticks notes)) (ticks notes.length))] := by
  obtain ⟨body, hbody, h⟩ := Report.outcome_bind_eq_ok.mp h
  have hplaced := (trackFrom_timed hbody).placed_eq ticks hticks
  by_cases hname : name = ""
  · rw [if_pos hname] at h ⊢
    cases h
    exact hplaced
  · rw [if_neg hname] at h ⊢
    cases h
    exact congrArg (Message.trackName name 0 :: ·) hplaced

theorem exists_exact_track_iff {name : String} :
    (∃ messages, (exact.track notes channel name ticksPerBeat).outcome = .ok messages) ↔
      ∀ note ∈ notes, Playable channel note := by
  rw [← exists_exact_trackFrom_iff 0]
  constructor
  · rintro ⟨messages, h⟩
    obtain ⟨body, hbody, -⟩ := Report.outcome_bind_eq_ok.mp h
    exact ⟨body, hbody⟩
  · rintro ⟨body, hbody⟩
    exact ⟨_, Report.outcome_bind_eq_ok.mpr ⟨body, hbody, rfl⟩⟩

/-- **Exact tracks keep time.** A track and a playing time are the same walks over the notes in
floats and in fractions. In fractions a track comes about unless a note is in the way, no event of
it is more than half a tick from its exact position, no time is negative, and the times add up to
the length of the channel in ticks. -/
theorem exact_track_punctual (channel : Channel) (number : Int) {ticksPerBeat : Int}
    (h : 1 ≤ ticksPerBeat) :
    Midi.track channel.notes.toList number channel.name ticksPerBeat =
        binary64.track channel.notes.toList number channel.name ticksPerBeat ∧
      (∀ tempo : Number, channel.seconds tempo = binary64.seconds channel tempo.toFloat) ∧
      ((∃ messages, (exact.track channel.notes.toList number channel.name ticksPerBeat).outcome =
        .ok messages) ↔ ∀ note ∈ channel.notes, Playable number note) ∧
      ∀ messages, (exact.track channel.notes.toList number channel.name ticksPerBeat).outcome =
        .ok messages → Punctual channel ticksPerBeat number messages := by
  refine ⟨(binary64_track _ _ _ _).symm, fun tempo => (binary64_seconds channel tempo).symm,
    by simp only [exists_exact_track_iff, Array.mem_toList_iff], fun messages hmessages => ?_⟩
  have hbeat : 0 ≤ ticksPerBeat := by omega
  let ticks := fun k => nearestEven (exactTicks ticksPerBeat (channel.notes.toList.take k))
  have hticks : ∀ k ≤ channel.notes.toList.length,
      exact.tickFrom ticksPerBeat 0 (channel.notes.toList.take k) = .ok (ticks k) :=
    fun k _ => exact_tickFrom_zero _
  have hmono : Monotone ticks :=
    nearestEven_mono.comp (exactTicks_take_mono hbeat channel.notes.toList)
  have hplaced := track_placed hmessages hticks
  obtain ⟨hlast, hnonneg, hsum⟩ :=
    times_of_placed (nearestEven_intCast 0) (hmono.monotoneOn _) hplaced
  have htotal : ticks channel.notes.toList.length =
      nearestEven (exactTicks ticksPerBeat channel.notes.toList) := by
    simp only [ticks, List.take_length]
  rw [max_eq_right hlast, htotal] at hplaced
  refine ⟨hplaced, fun k => (roundsTo_nearestEven _).abs_sub_le, hnonneg, hsum.trans htotal,
    fun beats hbeats => ⟨_, exact_seconds channel hbeats.ne', ?_⟩⟩
  rw [exactTicks_eq_mul]
  field_simp

/-- A third, a rest that lasts a seventh, a tone that is too high, and a seventh that starts between
two ticks and so takes one more than its length. -/
theorem exact_track_punctual_odd :
    ∃ (channel : Channel) (messages : List Message),
      messages = [.trackName "lead" 0, .noteOn 3 60 127 0, .noteOff 3 60 0 640,
        .noteOn 3 62 64 754, .noteOff 3 62 0 275, .endOfTrack 0] ∧
        (exact.track channel.notes.toList 3 channel.name 480).outcome = .ok messages ∧
          Punctual channel 480 3 messages := by
  let channel : Channel := ⟨"lead",
    #[⟨0, 3, 4, 255, "sin", false, by decide, by decide⟩,
      ⟨0, 7, 4, 0, "sin", true, by decide, fun _ => rfl⟩,
      ⟨0, 4, 40, 255, "sin", false, by decide, by decide⟩,
      ⟨2, 7, 4, 128, "sin", false, by decide, by decide⟩]⟩
  have hmessages : (exact.track channel.notes.toList 3 channel.name 480).outcome.toOption =
      some [.trackName "lead" 0, .noteOn 3 60 127 0, .noteOff 3 60 0 640, .noteOn 3 62 64 754,
        .noteOff 3 62 0 275, .endOfTrack 0] := by decide +kernel
  obtain ⟨-, -, -, hpunctual⟩ := exact_track_punctual channel 3 (by decide : (1 : Int) ≤ 480)
  have houtcome := toOption_eq_some_iff.mp hmessages
  exact ⟨channel, _, rfl, houtcome, hpunctual _ houtcome⟩

/-! ## From fractions to floats -/

section Comparison

variable {α β : Type} [Add α] [Mul α] [OfScientific α] [Add β] [Mul β] [OfScientific β]
  {system : NumberSystem α} {system' : NumberSystem β}

theorem exists_noteTicks {position : α} {note : Note} {n : Int}
    (h : system.tickFrom ticksPerBeat position [note] = .ok n) :
    ∃ length, system.noteTicks note ticksPerBeat = .ok length ∧
      system.round (position + length) = .ok n := by
  obtain ⟨next, hnext, hn⟩ := bind_eq_ok_iff.mp h
  obtain ⟨length, hlength, hnext⟩ := bind_eq_ok_iff.mp hnext
  cases hnext
  exact ⟨length, hlength, hn⟩

/-- A track is made of ticks alone. -/
theorem trackFrom_congr {position : α} {position' : β} {ticks : Nat → Int}
    (h : ∀ k ≤ notes.length, system.tickFrom ticksPerBeat position (notes.take k) = .ok (ticks k))
    (h' : ∀ k ≤ notes.length,
      system'.tickFrom ticksPerBeat position' (notes.take k) = .ok (ticks k)) :
    system.trackFrom channel ticksPerBeat position last notes =
      system'.trackFrom channel ticksPerBeat position' last notes := by
  induction notes generalizing position position' ticks last with
  | nil =>
    have hstop : system.round position = .ok (ticks 0) := h 0 le_rfl
    have hstop' : system'.round position' = .ok (ticks 0) := h' 0 le_rfl
    rw [trackFrom, trackFrom, hstop, hstop']
  | cons note rest ih =>
    have hstart : system.round position = .ok (ticks 0) := h 0 (Nat.zero_le _)
    have hstart' : system'.round position' = .ok (ticks 0) := h' 0 (Nat.zero_le _)
    obtain ⟨length, hlength, hstop⟩ := exists_noteTicks (h 1 (Nat.succ_le_succ (Nat.zero_le _)))
    obtain ⟨length', hlength', hstop'⟩ := exists_noteTicks (h' 1 (Nat.succ_le_succ (Nat.zero_le _)))
    have hrest : ∀ last, system.trackFrom channel ticksPerBeat (position + length) last rest =
        system'.trackFrom channel ticksPerBeat (position' + length') last rest := fun last =>
      @ih last _ _ (fun k => ticks (k + 1))
        (fun k hk => (tickFrom_cons hlength).symm.trans (h (k + 1) (Nat.succ_le_succ hk)))
        (fun k hk => (tickFrom_cons hlength').symm.trans (h' (k + 1) (Nat.succ_le_succ hk)))
    rw [trackFrom, trackFrom, hstart, hstart', hlength, hlength']
    simp only [Report.liftM_ok_bind]
    rw [hstop, hstop']
    simp only [Report.liftM_ok_bind, hrest]

end Comparison

/-- The track in floats is the exact one where every position in floats rounds as the exact one. -/
theorem track_eq_exact {name : String}
    (h : ∀ k ≤ notes.length, tickBehind ticksPerBeat (notes.take k) =
      .ok (nearestEven (exactTicks ticksPerBeat (notes.take k)))) :
    Midi.track notes channel name ticksPerBeat = exact.track notes channel name ticksPerBeat := by
  have hfloat : ∀ k ≤ notes.length, binary64.tickFrom ticksPerBeat 0 (notes.take k) =
      .ok (nearestEven (exactTicks ticksPerBeat (notes.take k))) := fun k hk => by
    rw [binary64_tickFrom]
    exact h k hk
  have hexact : ∀ k ≤ notes.length, exact.tickFrom ticksPerBeat 0 (notes.take k) =
      .ok (nearestEven (exactTicks ticksPerBeat (notes.take k))) := fun k _ =>
    exact_tickFrom_zero _
  rw [← binary64_track, track, track, trackFrom_congr hfloat hexact]

end NumberSystem
end Chiptune
