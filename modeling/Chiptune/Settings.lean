import Chiptune.Value

/-!
# Settings of the synthesis

How fast samples follow each other, how long notes fade in and out, and how much silence follows
the last note. A sample rate that is zero or negative and a negative time are refused; the type
keeps what passed.
-/

namespace Chiptune

/-- Fixed parameters of the synthesis. -/
structure Settings where
  sampleRate : Number
  attackSeconds : Number
  decaySeconds : Number
  paddingSeconds : Number
  rate_positive : sampleRate.isNotPositive = false
  attack_nonneg : attackSeconds.isNegative = false
  decay_nonneg : decaySeconds.isNegative = false
  padding_nonneg : paddingSeconds.isNegative = false

namespace Settings

/-- The sample rate where none is given. -/
def defaultRate : Number := .whole 44100

/-- The attack where none is given. -/
def defaultAttack : Number := .real 0.01

/-- The decay where none is given. -/
def defaultDecay : Number := .real 0.1

/-- The padding where none is given. -/
def defaultPadding : Number := .real 2.0

/-- Settings from their four numbers. -/
def make (rate attack decay padding : Number) : Except Error Settings :=
  if hr : rate.isNotPositive = true then .error .rateNotPositive
  else if ha : attack.isNegative = true then .error .negativeTime
  else if hd : decay.isNegative = true then .error .negativeTime
  else if hp : padding.isNegative = true then .error .negativeTime
  else
    .ok {
      sampleRate := rate
      attackSeconds := attack
      decaySeconds := decay
      paddingSeconds := padding
      rate_positive := Number.isNotPositive_eq_false hr
      attack_nonneg := Number.isNegative_eq_false ha
      decay_nonneg := Number.isNegative_eq_false hd
      padding_nonneg := Number.isNegative_eq_false hp
    }

/-- The names of the four parameters. -/
def names : List String := ["sample_rate", "attack_seconds", "decay_seconds", "padding_seconds"]

/-- The value given under a name, or the default. -/
def given (fields : List (String × Value)) (name : String) (fallback : Number) : Value :=
  ((fields.find? fun field => field.1 == name).map (·.2)).getD (.number fallback)

/-- Settings from named values. What is not named keeps its default; a name of no parameter is
refused. The values are looked at in the order of the parameters, each when its turn comes, so a
number that is refused hides what stands behind it. -/
def ofFields (fields : List (String × Value)) : Except Error Settings := do
  if fields.all (fun field => names.contains field.1) then
    let rate ← (given fields "sample_rate" defaultRate).toNumber
    if rate.isNotPositive then throw .rateNotPositive
    let attack ← (given fields "attack_seconds" defaultAttack).toNumber
    if attack.isNegative then throw .negativeTime
    let decay ← (given fields "decay_seconds" defaultDecay).toNumber
    if decay.isNegative then throw .negativeTime
    let padding ← (given fields "padding_seconds" defaultPadding).toNumber
    make rate attack decay padding
  else
    throw .wrongKind

/-- The entries of a mapping that name a parameter. -/
def known (entries : List (Value × Value)) : List (String × Value) :=
  entries.filterMap fun entry =>
    match entry with
    | (.text name, value) => if names.contains name then some (name, value) else none
    | _ => none

/-- Settings from the `synth` section of a configuration. Names of no parameter are ignored. -/
def ofConfig (config : Value) : Except Error Settings := do
  let chosen := (← config.lookUp "synth").getD .null
  if chosen.isTruthy then
    match chosen with
    | .mapping entries => ofFields (known entries)
    | _ => throw .settingsNotMapping
  else
    ofFields []

/-- How many samples a time takes, cut to a whole number. -/
def samples (settings : Settings) (time : Number) : Except Error Int := do
  (← settings.sampleRate.mul time).truncate

/-- The samples over which a note fades in. -/
def attackSamples (settings : Settings) : Except Error Int := settings.samples settings.attackSeconds

/-- The samples over which a note fades out. -/
def decaySamples (settings : Settings) : Except Error Int := settings.samples settings.decaySeconds

/-- The samples of silence behind the last note. -/
def paddingSamples (settings : Settings) : Except Error Int := settings.samples settings.paddingSeconds

end Settings

end Chiptune
