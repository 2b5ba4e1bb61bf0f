import Chiptune.Binary64.Remainder
import Chiptune.Number

/-!
# Waveforms

A generator takes a frequency in Hz and gives a signal: a value between -1 and 1 for every time in
seconds. The frequency is any number, and a generator that looks at it needs the float nearest to
it. Square and sawtooth divide by the frequency, which they refuse where it is zero.
-/

namespace Chiptune

/-- A signal for every frequency. -/
abbrev Generator := Number → Except Error (Float → Float)

/-- Generators by the timbre that asks for them. Of two under one timbre the later counts. -/
structure Registry (α : Type) where
  entries : List (String × α)

namespace Registry

variable {α : Type}

/-- The generator of a timbre, if it has one. -/
def find? (registry : Registry α) (timbre : String) : Option α :=
  (registry.entries.reverse.find? fun entry => entry.1 == timbre).map (·.2)

/-- The timbres that have a generator, each once, in order. -/
def timbres (registry : Registry α) : List String :=
  (registry.entries.map (·.1)).eraseDups.mergeSort fun a b => a ≤ b

/-- The generator of a timbre. -/
def get (registry : Registry α) (timbre : String) : Except Error α :=
  match registry.find? timbre with
  | some generator => .ok generator
  | none => .error (.unknownTimbre timbre registry.timbres)

end Registry

namespace Waveform

/-- The circle constant. -/
def pi : Float := Float.ofBits 0x400921fb54442d18

/-- The sine of `2πft`. -/
def sine : Generator := fun frequency => do
  let f ← frequency.toFloat
  return fun t => Float.sin (2.0 * pi * f * t)

/-- Whether the greatest whole number not above a float is even. -/
def hasEvenFloor (x : Float) : Bool :=
  match Binary64.view x with
  | .finite d => d.floor % 2 == 0
  | _ => false

/-- One for the first half of every period, and minus one for the second. -/
def square : Generator := fun frequency => do
  let period ← Binary64.divide 1.0 (← frequency.toFloat)
  return fun t =>
    if hasEvenFloor (Binary64.remainder t period / (period / 2.0)) then 1.0 else -1.0

/-- Rises from minus one to one over every period. -/
def sawtooth : Generator := fun frequency => do
  let period ← Binary64.divide 1.0 (← frequency.toFloat)
  return fun t => Binary64.remainder t period / period * 2.0 - 1.0

/-- Mixes the bits of a word until none depends on one bit alone. -/
def scramble (word : UInt64) : UInt64 :=
  let a := word + 0x9e3779b97f4a7c15
  let b := (a ^^^ (a >>> 30)) * 0xbf58476d1ce4e5b9
  let c := (b ^^^ (b >>> 27)) * 0x94d049bb133111eb
  c ^^^ (c >>> 31)

/-- Noise: a value for every time that says nothing about the values at other times. The frequency
does not matter. -/
def noise : Generator := fun _ =>
  .ok fun t => (scramble t.toBits >>> 11).toFloat / 4503599627370496.0 - 1.0

/-- The generators that every score can name. -/
def all : Registry Generator :=
  ⟨[("sin", sine), ("square", square), ("sawtooth", sawtooth), ("noise", noise)]⟩

end Waveform

end Chiptune
