/-!
# Envelopes

A note fades in over its first samples and fades out over its last ones, along a straight line
each. Both are measured in samples and not as a share of the note, so a note shorter than its
decay never reaches the full amplitude; where both apply, they multiply. The shape is stated for
any kind of number: the synthesis computes it in floats.
-/

namespace Chiptune

/-- The shape of a note of `count` samples. -/
structure Envelope (α : Type) where
  count : α
  amplitude : α
  attack : α
  decay : α
  deriving Repr

namespace Envelope

variable {α : Type} [OfNat α 0] [Sub α] [Mul α] [Div α] [LT α] [DecidableLT α]

/-- The amplitude at a distance from the start of the note, faded in. -/
@[specialize]
def rising (e : Envelope α) (phase : α) : α :=
  if 0 < e.attack ∧ phase < e.attack then e.amplitude * (phase / e.attack) else e.amplitude

/-- The amplitude at a distance from the start of the note. -/
@[specialize]
def value (e : Envelope α) (phase : α) : α :=
  let remaining := e.count - phase
  if 0 < e.decay ∧ remaining < e.decay then e.rising phase * (remaining / e.decay)
  else e.rising phase

end Envelope

end Chiptune
