import Chiptune.Proofs.Binary64.Sum
import Chiptune.Proofs.NumberSystem

/-!
# The times of a track

A message of a track has the time since the message before it, and notes without sound leave no
message. Nevertheless every note is where the lengths of all notes before it put it: the times add
up to ticks that are found on the notes alone (`tickBehind`), and the notes that make no sound count
in them like the others (`track_timed`).

The ticks are positions in floats, rounded twice over: when a length is added to a position, and
when the position becomes a tick. Neither puts two of them out of order. What a track makes of its
ticks does not depend on the numbers that positions are, and is proved for any of them
(`NumberSystem.trackFrom_timed`).
-/

namespace Chiptune

namespace Midi

/-! ## Positions and ticks -/

/-- The position behind notes, from a position on: their lengths are added up from the left. -/
def positionFrom (ticksPerBeat : Int) : Float → List Note → Except Error Float
  | position, [] => .ok position
  | position, note :: rest => do
    positionFrom ticksPerBeat (position + (← noteTicks note ticksPerBeat)) rest

/-- The tick behind notes, whether they sound or not. -/
def tickBehind (ticksPerBeat : Int) (notes : List Note) : Except Error Int := do
  tick (← positionFrom ticksPerBeat 0 notes)

/-- A track plays the note. -/
def Sounds (note : Note) : Prop :=
  note.isRest = false ∧ 0 < note.volume ∧ 0 ≤ note.midiPitch ∧ note.midiPitch ≤ 127

instance : DecidablePred Sounds := fun _ => inferInstanceAs (Decidable (_ ∧ _ ∧ _ ∧ _))

theorem not_sounds_iff {note : Note} :
    ¬ Sounds note ↔ (note.isRest = true ∨ note.volume ≤ 0) ∨
      (note.midiPitch < 0 ∨ 127 < note.midiPitch) := by
  unfold Sounds
  cases note.isRest
  · simp
    omega
  · simp

variable {ticksPerBeat : Int}

theorem positionFrom_append (position : Float) (before later : List Note) :
    positionFrom ticksPerBeat position (before ++ later) =
      positionFrom ticksPerBeat position before >>= fun p => positionFrom ticksPerBeat p later := by
  induction before generalizing position with
  | nil => rfl
  | cons note rest ih =>
    simp only [List.cons_append, positionFrom]
    cases noteTicks note ticksPerBeat with
    | ok length => exact ih _
    | error error => rfl

theorem noteTicks_congr {note note' : Note} (h : note.duration = note'.duration) :
    noteTicks note ticksPerBeat = noteTicks note' ticksPerBeat := by
  unfold noteTicks
  rw [h]

theorem positionFrom_congr {notes notes' : List Note} (position : Float)
    (h : notes.map (·.duration) = notes'.map (·.duration)) :
    positionFrom ticksPerBeat position notes = positionFrom ticksPerBeat position notes' := by
  induction notes generalizing notes' position with
  | nil =>
    obtain rfl : notes' = [] := by simpa using h.symm
    rfl
  | cons note rest ih =>
    obtain ⟨note', rest', rfl, hnote, hrest⟩ := List.map_eq_cons_iff.mp h.symm
    simp only [positionFrom, noteTicks_congr hnote.symm]
    exact congrArg _ (funext fun length => ih _ hrest.symm)

/-- Only the durations count, so it does not matter which of the notes sound. -/
theorem tickBehind_congr {notes notes' : List Note}
    (h : notes.map (·.duration) = notes'.map (·.duration)) :
    tickBehind ticksPerBeat notes = tickBehind ticksPerBeat notes' := by
  unfold tickBehind
  rw [positionFrom_congr 0 h]

theorem isNegative_noteTicks {note : Note} {length : Float} (h : 0 ≤ ticksPerBeat)
    (hlength : noteTicks note ticksPerBeat = .ok length) : Binary64.isNegative length = false := by
  obtain ⟨beat, hbeat, hlength⟩ := bind_eq_ok_iff.mp hlength
  obtain ⟨duration, hduration, hlength⟩ := bind_eq_ok_iff.mp hlength
  exact Binary64.isNegative_divide
    (Binary64.isNegative_mul (Binary64.isNegative_ofInt h hbeat) rfl)
    (Binary64.isNegative_ofInt (Int.natCast_nonneg _) hduration) hlength

theorem hasSign_noteTicks {note : Note} {length : Float} (h : ticksPerBeat < 0)
    (hlength : noteTicks note ticksPerBeat = .ok length) :
    Binary64.HasSign length.toModel.unpack := by
  obtain ⟨beat, hbeat, hlength⟩ := bind_eq_ok_iff.mp hlength
  obtain ⟨duration, hduration, hlength⟩ := bind_eq_ok_iff.mp hlength
  obtain ⟨-, rfl⟩ := Binary64.divide_eq_ok_iff.mp hlength
  have hwhole : Binary64.HasSign (beat * 4.0).toModel.unpack :=
    Binary64.hasSign_pack (Binary64.hasSign_mul (Binary64.hasSign_ofInt h hbeat)
      (Binary64.isNegative_eq_false_iff.mp rfl))
  exact Binary64.hasSign_pack (Binary64.hasSign_div hwhole (Binary64.isNegative_eq_false_iff.mp
    (Binary64.isNegative_ofInt (Int.natCast_nonneg _) hduration)))

theorem tick_eq_ok_iff {position : Float} {n : Int} :
    tick position = .ok n ↔ ∃ d, Binary64.view position = .finite d ∧ d.round = n := by
  unfold tick Binary64.toInt
  cases Binary64.view position <;> simp

/-- A length that has no sign does not take a tick back. -/
theorem tick_le_tick_add {position length : Float} {n n' : Int}
    (hlength : Binary64.isNegative length = false) (hn : tick position = .ok n)
    (hn' : tick (position + length) = .ok n') : n ≤ n' := by
  obtain ⟨d, hd, rfl⟩ := tick_eq_ok_iff.mp hn
  obtain ⟨d', hd', rfl⟩ := tick_eq_ok_iff.mp hn'
  exact Binary64.Dyadic.round_mono (Binary64.value_le_value_add hd hd' hlength)

theorem tick_add_le_tick {position length : Float} {n n' : Int}
    (hlength : Binary64.HasSign length.toModel.unpack) (hn : tick position = .ok n)
    (hn' : tick (position + length) = .ok n') : n' ≤ n := by
  obtain ⟨d, hd, rfl⟩ := tick_eq_ok_iff.mp hn
  obtain ⟨d', hd', rfl⟩ := tick_eq_ok_iff.mp hn'
  exact Binary64.Dyadic.round_mono (Binary64.value_add_le_value hd hd' hlength)

/-! ## Messages with times from the start -/

/-- A message with another time. -/
def Message.withTime : Message → Int → Message
  | trackName name _, t => trackName name t
  | setTempo tempo _, t => setTempo tempo t
  | noteOn channel note velocity _, t => noteOn channel note velocity t
  | noteOff channel note velocity _, t => noteOff channel note velocity t
  | endOfTrack _, t => endOfTrack t

/-- Messages with the ticks since the start of a track. The first of them follows on one at a
tick. -/
def placed : Int → List Message → List Message
  | _, [] => []
  | last, message :: rest =>
    message.withTime (last + message.time) :: placed (last + message.time) rest

/-- The tick of the last message, whose times are those since the start. -/
def lastTick (last : Int) (messages : List Message) : Int :=
  messages.foldl (fun _ message => message.time) last

/-- The velocity of a note, if it has one. -/
def loudness (note : Note) : Int := (velocity note).toOption.getD 0

/-- The on and the off of every note that sounds: the `k`-th note lasts from the `k`-th tick to the
next. -/
def strokes (channel : Int) (ticks : Nat → Int) (notes : List Note) : List Message :=
  notes.zipIdx.flatMap fun (note, k) =>
    if Sounds note then
      [.noteOn channel note.midiPitch (loudness note) (ticks k),
        .noteOff channel note.midiPitch 0 (ticks (k + 1))]
    else []

theorem strokes_cons (channel : Int) (ticks : Nat → Int) (note : Note) (rest : List Note) :
    strokes channel ticks (note :: rest) =
      (if Sounds note then
        [.noteOn channel note.midiPitch (loudness note) (ticks 0),
          .noteOff channel note.midiPitch 0 (ticks 1)]
      else []) ++ strokes channel (fun k => ticks (k + 1)) rest := by
  unfold strokes
  rw [List.zipIdx_cons, List.flatMap_cons, List.zipIdx_succ, List.flatMap_map]

/-- The messages of a track are those of its notes at their ticks. -/
structure Timed (notes : List Note) (channel : Int) (name : String) (ticksPerBeat : Int)
    (messages : List Message) (ticks : Nat → Int) : Prop where
  ticks_eq : ∀ k ≤ notes.length, tickBehind ticksPerBeat (notes.take k) = .ok (ticks k)
  loudness_eq : ∀ note ∈ notes, Sounds note → velocity note = .ok (loudness note)
  placed_eq : placed 0 messages =
    (if name = "" then [] else [.trackName name 0]) ++ strokes channel ticks notes ++
      [.endOfTrack (max (lastTick 0 (strokes channel ticks notes)) (ticks notes.length))]
  /-- No note starts before the one before it has ended. -/
  ticks_mono : 0 ≤ ticksPerBeat → MonotoneOn ticks (Set.Iic notes.length)
  /-- Time runs backwards where a beat has a negative length. -/
  ticks_anti : ticksPerBeat < 0 → AntitoneOn ticks (Set.Iic notes.length)
  /-- Other pitches, volumes and rests do not move anything. -/
  unmoved : ∀ notes' : List Note, notes'.map (·.duration) = notes.map (·.duration) →
    ∀ k ≤ notes.length, tickBehind ticksPerBeat (notes'.take k) = .ok (ticks k)

/-! ## Tracks -/

variable {channel : Int}

/-- What a track asks of a note, whatever its positions are: one that sounds has a velocity and a
channel, and one that MIDI has no pitch for can be put into words. -/
structure Playable (channel : Int) (note : Note) : Prop where
  exists_velocity : Sounds note → ∃ v, velocity note = .ok v
  channel_bounds : Sounds note → 0 ≤ channel ∧ channel ≤ 15
  isWritable : note.isRest = false → 0 < note.volume → ¬ Sounds note →
    (Event.noteSkipped note).isWritable = true

theorem Playable.of_silent {note : Note} (h : ¬ Sounds note)
    (hwritable : note.isRest = false → 0 < note.volume →
      (Event.noteSkipped note).isWritable = true) : Playable channel note :=
  ⟨fun hsounds => absurd hsounds h, fun hsounds => absurd hsounds h,
    fun hrest hvolume _ => hwritable hrest hvolume⟩

/-- What `trackFrom` makes of notes. The ticks are those behind the notes at the front. -/
structure TimedFrom (channel : Int) (behind : List Note → Except Error Int) (last : Int)
    (notes : List Note) (messages : List Message) : Prop where
  exists_tick : ∀ k ≤ notes.length, ∃ n, behind (notes.take k) = .ok n
  loudness_eq : ∀ note ∈ notes, Sounds note → velocity note = .ok (loudness note)
  placed_eq : ∀ ticks : Nat → Int, (∀ k ≤ notes.length, behind (notes.take k) = .ok (ticks k)) →
    placed last messages = strokes channel ticks notes ++
      [.endOfTrack (max (lastTick last (strokes channel ticks notes)) (ticks notes.length))]

namespace TimedFrom

variable {behind : List Note → Except Error Int} {last start stop : Int} {note : Note}
  {rest : List Note} {messages : List Message}

theorem nil (hstop : behind [] = .ok stop) :
    TimedFrom channel behind last [] [.endOfTrack (max 0 (stop - last))] := by
  refine ⟨fun k _ => ⟨stop, ?_⟩, fun note hnote => absurd hnote List.not_mem_nil, ?_⟩
  · rw [List.take_nil]
    exact hstop
  · intro ticks hticks
    obtain rfl : stop = ticks 0 := Except.ok.inj (hstop.symm.trans (hticks 0 le_rfl))
    show [Message.endOfTrack (last + max 0 (ticks 0 - last))] = [.endOfTrack (max last (ticks 0))]
    congr 2
    omega

theorem exists_tick_cons (hstart : behind [] = .ok start)
    (hrest : TimedFrom channel (fun before => behind (note :: before)) last rest messages) :
    ∀ k ≤ (note :: rest).length, ∃ n, behind ((note :: rest).take k) = .ok n := by
  intro k hk
  cases k with
  | zero => exact ⟨start, hstart⟩
  | succ k => exact hrest.exists_tick k (Nat.le_of_succ_le_succ hk)

/-- A note without sound leaves no message, but the others are behind it. -/
theorem silent (hstart : behind [] = .ok start) (hsilent : ¬ Sounds note)
    (hrest : TimedFrom channel (fun before => behind (note :: before)) last rest messages) :
    TimedFrom channel behind last (note :: rest) messages := by
  refine ⟨exists_tick_cons hstart hrest, ?_, fun ticks hticks => ?_⟩
  · exact List.forall_mem_cons.mpr ⟨fun hsounds => absurd hsounds hsilent, hrest.loudness_eq⟩
  · rw [strokes_cons, if_neg hsilent, List.nil_append]
    exact hrest.placed_eq _ fun k hk => hticks (k + 1) (Nat.succ_le_succ hk)

theorem sounding (hstart : behind [] = .ok start) (hstop : behind [note] = .ok stop)
    (hsounds : Sounds note) (hvelocity : velocity note = .ok (loudness note))
    (hrest : TimedFrom channel (fun before => behind (note :: before)) stop rest messages) :
    TimedFrom channel behind last (note :: rest)
      (.noteOn channel note.midiPitch (loudness note) (start - last) ::
        .noteOff channel note.midiPitch 0 (stop - start) :: messages) := by
  refine ⟨exists_tick_cons hstart hrest, ?_, fun ticks hticks => ?_⟩
  · exact List.forall_mem_cons.mpr ⟨fun _ => hvelocity, hrest.loudness_eq⟩
  · obtain rfl : start = ticks 0 := Except.ok.inj (hstart.symm.trans (hticks 0 (Nat.zero_le _)))
    obtain rfl : stop = ticks 1 :=
      Except.ok.inj (hstop.symm.trans (hticks 1 (Nat.succ_le_succ (Nat.zero_le _))))
    have hlater := hrest.placed_eq _ fun k hk => hticks (k + 1) (Nat.succ_le_succ hk)
    rw [strokes_cons, if_pos hsounds]
    simp only [placed, Message.withTime, Message.time, add_sub_cancel, List.cons_append,
      List.nil_append, List.cons.injEq, true_and]
    exact hlater

end TimedFrom

end Midi

namespace NumberSystem

open Midi

variable {α : Type} [Add α] [Mul α] [OfScientific α] {system : NumberSystem α}
  {channel ticksPerBeat last : Int} {position : α} {note : Note} {rest notes : List Note}
  {messages : List Message}

section Step

variable {start stop : Int} {length : α} (hstart : system.round position = .ok start)
  (hlength : system.noteTicks note ticksPerBeat = .ok length)
  (hstop : system.round (position + length) = .ok stop)

include hstart hlength hstop

theorem trackFrom_of_not_sounds (hsilent : ¬ Sounds note) :
    (system.trackFrom channel ticksPerBeat position last (note :: rest)).outcome = .ok messages ↔
      Playable channel note ∧ (system.trackFrom channel ticksPerBeat (position + length) last
        rest).outcome = .ok messages := by
  rw [trackFrom, Report.outcome_liftM_bind hstart, Report.outcome_liftM_bind hlength,
    Report.outcome_liftM_bind hstop]
  by_cases hmute : note.isRest = true ∨ note.volume ≤ 0
  · have hplayable : Playable channel note := .of_silent hsilent fun hrest hvolume => by
      rw [hrest] at hmute
      exact absurd hvolume (not_lt.mpr (hmute.resolve_left Bool.false_ne_true))
    rw [if_pos hmute]
    exact (and_iff_right hplayable).symm
  · obtain ⟨hrest, hvolume⟩ := not_or.mp hmute
    have hplayable : Playable channel note ↔ (Event.noteSkipped note).isWritable = true :=
      ⟨fun h => h.isWritable (Bool.eq_false_iff.mpr hrest) (not_le.mp hvolume) hsilent,
        fun h => .of_silent hsilent fun _ _ => h⟩
    rw [if_neg hmute, if_pos ((not_sounds_iff.mp hsilent).resolve_left hmute), hplayable,
      Report.outcome_bind_eq_ok]
    simp only [Report.outcome_tell_eq_ok, exists_const]

theorem trackFrom_of_sounds (hsounds : Sounds note) :
    (system.trackFrom channel ticksPerBeat position last (note :: rest)).outcome = .ok messages ↔
      Playable channel note ∧ velocity note = .ok (loudness note) ∧
        ∃ later, (system.trackFrom channel ticksPerBeat (position + length) stop rest).outcome =
            .ok later ∧
          .noteOn channel note.midiPitch (loudness note) (start - last) ::
            .noteOff channel note.midiPitch 0 (stop - start) :: later = messages := by
  obtain ⟨hmute, hpitch⟩ := not_or.mp (not_not.mpr hsounds ∘ not_sounds_iff.mpr)
  rw [trackFrom, Report.outcome_liftM_bind hstart, Report.outcome_liftM_bind hlength,
    Report.outcome_liftM_bind hstop, if_neg hmute, if_neg hpitch]
  constructor
  · intro h
    obtain ⟨v, hv, h⟩ := Report.outcome_bind_eq_ok.mp h
    have hv : velocity note = .ok v := hv
    obtain rfl : loudness note = v := by rw [loudness, hv]; rfl
    split at h
    · cases h
    · obtain ⟨later, hlater, h⟩ := Report.outcome_bind_eq_ok.mp h
      cases h
      exact ⟨⟨fun _ => ⟨_, hv⟩, fun _ => by omega, fun _ _ hsilent => absurd hsounds hsilent⟩, hv,
        later, hlater, rfl⟩
  · rintro ⟨hplayable, hvelocity, later, hlater, rfl⟩
    obtain ⟨hlow, hhigh⟩ := hplayable.channel_bounds hsounds
    rw [Report.outcome_liftM_bind hvelocity, if_neg (by omega), Report.outcome_bind, hlater]
    rfl

end Step

/-- All that a track does with a note: it goes on behind it, with or without the two messages. -/
theorem trackFrom_cons :
    (system.trackFrom channel ticksPerBeat position last (note :: rest)).outcome = .ok messages ↔
      Playable channel note ∧ ∃ start length stop, system.round position = .ok start ∧
        system.noteTicks note ticksPerBeat = .ok length ∧
        system.round (position + length) = .ok stop ∧
        (¬ Sounds note ∧ (system.trackFrom channel ticksPerBeat (position + length) last
              rest).outcome = .ok messages ∨
          Sounds note ∧ velocity note = .ok (loudness note) ∧
            ∃ later, (system.trackFrom channel ticksPerBeat (position + length) stop rest).outcome =
                .ok later ∧
              .noteOn channel note.midiPitch (loudness note) (start - last) ::
                .noteOff channel note.midiPitch 0 (stop - start) :: later = messages) := by
  constructor
  · intro h
    obtain ⟨start, hstart, hbehind⟩ := Report.outcome_bind_eq_ok.mp h
    obtain ⟨length, hlength, hbehind⟩ := Report.outcome_bind_eq_ok.mp hbehind
    obtain ⟨stop, hstop, -⟩ := Report.outcome_bind_eq_ok.mp hbehind
    by_cases hsounds : Sounds note
    · obtain ⟨hplayable, h⟩ := (trackFrom_of_sounds hstart hlength hstop hsounds).mp h
      exact ⟨hplayable, start, length, stop, hstart, hlength, hstop, .inr ⟨hsounds, h⟩⟩
    · obtain ⟨hplayable, h⟩ := (trackFrom_of_not_sounds hstart hlength hstop hsounds).mp h
      exact ⟨hplayable, start, length, stop, hstart, hlength, hstop, .inl ⟨hsounds, h⟩⟩
  · rintro ⟨hplayable, start, length, stop, hstart, hlength, hstop, ⟨hsilent, h⟩ | ⟨hsounds, h⟩⟩
    · exact (trackFrom_of_not_sounds hstart hlength hstop hsilent).mpr ⟨hplayable, h⟩
    · exact (trackFrom_of_sounds hstart hlength hstop hsounds).mpr ⟨hplayable, h⟩

/-- The tick behind notes, from a position on. -/
def tickFrom (system : NumberSystem α) (ticksPerBeat : Int) (position : α) (notes : List Note) :
    Except Error Int := do
  system.round (← system.positionFrom ticksPerBeat position notes)

theorem tickFrom_cons {length : α} (h : system.noteTicks note ticksPerBeat = .ok length) :
    system.tickFrom ticksPerBeat position (note :: rest) =
      system.tickFrom ticksPerBeat (position + length) rest := by
  rw [tickFrom, positionFrom, h]
  rfl

theorem trackFrom_timed
    (h : (system.trackFrom channel ticksPerBeat position last notes).outcome = .ok messages) :
    TimedFrom channel (system.tickFrom ticksPerBeat position) last notes messages := by
  induction notes generalizing position last messages with
  | nil =>
    obtain ⟨stop, hstop, h⟩ := Report.outcome_bind_eq_ok.mp h
    cases h
    exact .nil hstop
  | cons note rest ih =>
    obtain ⟨-, start, length, stop, hstart, hlength, hstop, hcases⟩ := trackFrom_cons.mp h
    -- The ticks behind the first note are those of the others, from its end on.
    have hbehind : (fun before => system.tickFrom ticksPerBeat position (note :: before)) =
        system.tickFrom ticksPerBeat (position + length) := funext fun _ => tickFrom_cons hlength
    rcases hcases with ⟨hsilent, hrest⟩ | ⟨hsounds, hvelocity, later, hlater, rfl⟩
    · exact .silent hstart hsilent (hbehind ▸ ih hrest)
    · exact .sounding hstart ((tickFrom_cons hlength).trans hstop) hsounds hvelocity
        (hbehind ▸ ih hlater)

end NumberSystem

namespace Midi

variable {channel ticksPerBeat : Int}

/-- All that a track in floats does with a note. -/
theorem trackFrom_cons {position : Float} {last : Int} {note : Note} {rest : List Note}
    {messages : List Message}
    (h : (trackFrom channel ticksPerBeat position last (note :: rest)).outcome = .ok messages) :
    ∃ start length stop, tick position = .ok start ∧ noteTicks note ticksPerBeat = .ok length ∧
      tick (position + length) = .ok stop ∧
      (¬ Sounds note ∧
          (trackFrom channel ticksPerBeat (position + length) last rest).outcome = .ok messages ∨
        Sounds note ∧ velocity note = .ok (loudness note) ∧
          ∃ later, (trackFrom channel ticksPerBeat (position + length) stop rest).outcome =
              .ok later ∧
            .noteOn channel note.midiPitch (loudness note) (start - last) ::
              .noteOff channel note.midiPitch 0 (stop - start) :: later = messages) := by
  rw [← NumberSystem.binary64_trackFrom] at h
  obtain ⟨-, hcases⟩ := NumberSystem.trackFrom_cons.mp h
  simp only [NumberSystem.binary64_trackFrom] at hcases
  exact hcases

theorem binary64_tickFrom (position : Float) (notes : List Note) :
    NumberSystem.binary64.tickFrom ticksPerBeat position notes =
      positionFrom ticksPerBeat position notes >>= tick := by
  induction notes generalizing position with
  | nil => rfl
  | cons note rest ih =>
    simp only [NumberSystem.tickFrom, NumberSystem.positionFrom, positionFrom, bind_assoc]
    exact congrArg _ (funext fun length => ih _)

theorem trackFrom_timed {position : Float} {last : Int} {notes : List Note}
    {messages : List Message}
    (h : (trackFrom channel ticksPerBeat position last notes).outcome = .ok messages) :
    TimedFrom channel (fun before => positionFrom ticksPerBeat position before >>= tick) last notes
      messages := by
  rw [← NumberSystem.binary64_trackFrom] at h
  simpa only [funext (binary64_tickFrom position)] using NumberSystem.trackFrom_timed h

/-- Two ticks that follow on one another are those before and behind the length of a note. -/
theorem exists_length_between {notes : List Note} {n n' : Int} {k : Nat} (hk : k < notes.length)
    (hn : tickBehind ticksPerBeat (notes.take k) = .ok n)
    (hn' : tickBehind ticksPerBeat (notes.take (k + 1)) = .ok n') :
    ∃ position note length, noteTicks note ticksPerBeat = .ok length ∧ tick position = .ok n ∧
      tick (position + length) = .ok n' := by
  obtain ⟨position, hposition, hn⟩ := bind_eq_ok_iff.mp hn
  obtain ⟨next, hnext, hn'⟩ := bind_eq_ok_iff.mp hn'
  rw [← List.take_concat_get' notes k hk, positionFrom_append, hposition] at hnext
  have hnext : positionFrom ticksPerBeat position [notes[k]] = .ok next := hnext
  obtain ⟨length, hlength, hnext⟩ := bind_eq_ok_iff.mp hnext
  cases hnext
  exact ⟨position, notes[k], length, hlength, hn, hn'⟩

/-- **The times of a track.** It has exactly the messages of the notes that sound, in the order of
the notes, and every note is at the tick behind all notes before it. -/
theorem track_timed {notes : List Note} {channel : Int} {name : String} {ticksPerBeat : Int}
    {messages : List Message}
    (h : (track notes channel name ticksPerBeat).outcome = .ok messages) :
    ∃ ticks, Timed notes channel name ticksPerBeat messages ticks := by
  obtain ⟨body, hbody, h⟩ := Report.outcome_bind_eq_ok.mp h
  have htimed := trackFrom_timed hbody
  choose! ticks hticks using htimed.exists_tick
  have hbetween := fun k (hk : k + 1 ≤ notes.length) =>
    exists_length_between hk (hticks k (Nat.le_of_succ_le hk)) (hticks (k + 1) hk)
  refine ⟨ticks, hticks, htimed.loudness_eq, ?_, fun hbeat => ?_, fun hbeat => ?_, ?_⟩
  · have hplaced := htimed.placed_eq ticks hticks
    by_cases hname : name = ""
    · rw [if_pos hname] at h ⊢
      cases h
      exact hplaced
    · rw [if_neg hname] at h ⊢
      cases h
      exact congrArg (Message.trackName name 0 :: ·) hplaced
  · refine monotoneOn_of_le_add_one Set.ordConnected_Iic fun k _ _ hk => ?_
    obtain ⟨position, note, length, hlength, hn, hn'⟩ := hbetween k hk
    exact tick_le_tick_add (isNegative_noteTicks hbeat hlength) hn hn'
  · refine antitoneOn_of_add_one_le Set.ordConnected_Iic fun k _ _ hk => ?_
    obtain ⟨position, note, length, hlength, hn, hn'⟩ := hbetween k hk
    exact tick_add_le_tick (hasSign_noteTicks hbeat hlength) hn hn'
  · intro notes' hnotes k hk
    have hdurations : (notes'.take k).map (·.duration) = (notes.take k).map (·.duration) := by
      rw [List.map_take, hnotes, ← List.map_take]
    exact (tickBehind_congr hdurations).trans (hticks k hk)

/-- A tone, a rest, a tone that is too high, and a tone that starts where the three put it. -/
theorem track_timed_gap :
    ∃ (notes : List Note) (messages : List Message) (ticks : Nat → Int),
      messages = [.trackName "lead" 0, .noteOn 3 60 127 0, .noteOff 3 60 0 480,
        .noteOn 3 62 64 800, .noteOff 3 62 0 274, .endOfTrack 0] ∧
        (track notes 3 "lead" 480).outcome = .ok messages ∧
          Timed notes 3 "lead" 480 messages ticks := by
  let notes : List Note :=
    [⟨0, 4, 4, 255, "sin", false, by decide, by decide⟩,
      ⟨0, 12, 4, 0, "sin", true, by decide, fun _ => rfl⟩,
      ⟨0, 3, 40, 255, "sin", false, by decide, by decide⟩,
      ⟨2, 7, 4, 128, "sin", false, by decide, by decide⟩]
  have hmessages : (track notes 3 "lead" 480).outcome.toOption =
      some [.trackName "lead" 0, .noteOn 3 60 127 0, .noteOff 3 60 0 480, .noteOn 3 62 64 800,
        .noteOff 3 62 0 274, .endOfTrack 0] := by decide +kernel
  cases h : (track notes 3 "lead" 480).outcome with
  | ok messages =>
    rw [h] at hmessages
    obtain ⟨ticks, hticks⟩ := track_timed h
    exact ⟨notes, messages, ticks, Option.some.inj hmessages, h, hticks⟩
  | error error =>
    rw [h] at hmessages
    cases hmessages

end Midi
end Chiptune
