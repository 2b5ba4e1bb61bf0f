import Chiptune.Midi.Track
import Chiptune.Proofs.Binary64.Value

/-!
# Number systems

Positions in ticks and playing times in seconds are added up in floats. The same sums can be made in
other numbers, as long as whole numbers become such numbers and they can be added, multiplied,
divided and rounded: a `NumberSystem` has what this takes besides `+` and `*`.

The sums of the library are those in `binary64` (`binary64_track`, `binary64_seconds`). In `exact`
nothing is lost and nothing is too large, and rounding is that of the floats
(`Binary64.Dyadic.round_eq_nearestEven`).
-/

namespace Chiptune

/-! ## Rounding to the even number -/

/-- The whole number nearest to a number; the even one of two that are equally near. -/
def nearestEven (q : ℚ) : Int :=
  let low := ⌊q⌋
  let twice := 2 * (q - low)
  if twice < 1 then low
  else if twice > 1 then low + 1
  else if low % 2 = 0 then low
  else low + 1

theorem roundsTo_nearestEven (q : ℚ) : Binary64.RoundsTo q (nearestEven q) := by
  have hlow := Int.floor_le q
  have hhigh := Int.lt_floor_add_one q
  unfold nearestEven
  generalize ⌊q⌋ = low at *
  dsimp only
  split
  · exact ⟨by linarith, by linarith, fun _ => ⟨by linarith, by linarith⟩⟩
  · split
    · exact ⟨by push_cast; linarith, by push_cast; linarith,
        fun _ => ⟨by push_cast; linarith, by push_cast; linarith⟩⟩
    · split
      · exact ⟨by linarith, by linarith, fun _ => by omega⟩
      · exact ⟨by push_cast; linarith, by push_cast; linarith, fun _ => by omega⟩

theorem nearestEven_mono : Monotone nearestEven := fun q q' h =>
  (roundsTo_nearestEven q).mono (roundsTo_nearestEven q') h

theorem nearestEven_intCast (n : Int) : nearestEven n = n := by
  simp [nearestEven]

/-- A float is rounded as the number that it stands for. -/
theorem Binary64.Dyadic.round_eq_nearestEven (d : Binary64.Dyadic) :
    d.round = nearestEven d.value :=
  d.round_spec.unique (roundsTo_nearestEven d.value)

/-! ## Systems -/

/-- What numbers are asked for besides sums and products. -/
structure NumberSystem (α : Type) where
  ofInt : Int → Except Error α
  divide : α → α → Except Error α
  round : α → Except Error Int

namespace NumberSystem

/-- Floats, in which the library reckons. -/
def binary64 : NumberSystem Float where
  ofInt := Binary64.ofInt
  divide := Binary64.divide
  round := Midi.tick

/-- Fractions. -/
def exact : NumberSystem ℚ where
  ofInt n := .ok n
  divide x y := if y = 0 then .error (.arithmetic .divisionByZero) else .ok (x / y)
  round q := .ok (nearestEven q)

theorem exact_divide {x y : ℚ} (h : y ≠ 0) : exact.divide x y = .ok (x / y) := if_neg h

variable {α : Type} [Add α] [Mul α] [OfNat α 0] [OfScientific α] (system : NumberSystem α)

/-! ## Tracks -/

/-- The length of a note in ticks. -/
def noteTicks (note : Note) (ticksPerBeat : Int) : Except Error α := do
  let whole := (← system.ofInt ticksPerBeat) * 4.0
  system.divide whole (← system.ofInt note.duration)

/-- The position behind notes, from a position on. -/
def positionFrom (ticksPerBeat : Int) : α → List Note → Except Error α
  | position, [] => .ok position
  | position, note :: rest => do
    positionFrom ticksPerBeat (position + (← system.noteTicks note ticksPerBeat)) rest

open Midi in
/-- The messages of the notes from a position on, and the end of the track. -/
def trackFrom (channel ticksPerBeat : Int) (position : α) (last : Int) :
    List Note → Report (List Message)
  | [] => do return [.endOfTrack (max 0 ((← system.round position) - last))]
  | note :: rest => do
    let start ← system.round position
    let next := position + (← system.noteTicks note ticksPerBeat)
    let stop ← system.round next
    if note.isRest ∨ note.volume ≤ 0 then
      trackFrom channel ticksPerBeat next last rest
    else if note.midiPitch < 0 ∨ 127 < note.midiPitch then
      Report.tell (.noteSkipped note)
      trackFrom channel ticksPerBeat next last rest
    else
      let velocity ← velocity note
      if channel < 0 ∨ 15 < channel then
        throw .midiChannel
      let later ← trackFrom channel ticksPerBeat next stop rest
      return .noteOn channel note.midiPitch velocity (start - last) ::
        .noteOff channel note.midiPitch 0 (stop - start) :: later

/-- The track of a channel. -/
def track (notes : List Note) (channel : Int) (name : String) (ticksPerBeat : Int) :
    Report (List Midi.Message) := do
  let messages ← system.trackFrom channel ticksPerBeat 0 0 notes
  return if name = "" then messages else .trackName name 0 :: messages

theorem binary64_trackFrom (channel ticksPerBeat : Int) (position : Float) (last : Int)
    (notes : List Note) :
    binary64.trackFrom channel ticksPerBeat position last notes =
      Midi.trackFrom channel ticksPerBeat position last notes := by
  induction notes generalizing position last with
  | nil => rfl
  | cons note rest ih =>
    simp only [trackFrom, Midi.trackFrom, ih]
    rfl

theorem binary64_track (notes : List Note) (channel : Int) (name : String) (ticksPerBeat : Int) :
    binary64.track notes channel name ticksPerBeat =
      Midi.track notes channel name ticksPerBeat := by
  rw [track, binary64_trackFrom]
  rfl

/-! ## Playing times -/

/-- The length of a note in seconds, at a tempo that may be too large for the system. -/
def noteSeconds (note : Note) (tempo : Except Error α) : Except Error α := do
  let beats ← system.divide 4.0 (← system.ofInt note.duration)
  let beat ← system.divide 60.0 (← tempo)
  return beats * beat

/-- Adds lengths in playing order. -/
def secondsFrom (tempo : Except Error α) : α → List Note → Except Error α
  | total, [] => .ok total
  | total, note :: rest => do
    let length ← system.noteSeconds note tempo
    secondsFrom tempo (total + length) rest

/-- The playing time of a channel. -/
def seconds (channel : Channel) (tempo : Except Error α) : Except Error α :=
  system.secondsFrom tempo 0 channel.notes.toList

theorem binary64_secondsFrom (tempo : Number) (total : Float) (notes : List Note) :
    binary64.secondsFrom tempo.toFloat total notes = Channel.secondsFrom tempo total notes := by
  induction notes generalizing total with
  | nil => rfl
  | cons note rest ih =>
    simp only [secondsFrom, Channel.secondsFrom, ih]
    rfl

theorem binary64_seconds (channel : Channel) (tempo : Number) :
    binary64.seconds channel tempo.toFloat = channel.seconds tempo :=
  binary64_secondsFrom tempo 0 channel.notes.toList

end NumberSystem
end Chiptune
