import Chiptune.Command.Output
import Chiptune.Proofs.Binary64.Quotient
import Chiptune.Proofs.Midi.Timing
import Chiptune.Proofs.Source.Compiled

/-!
# Exporting what was compiled

The fields of a MIDI file have bounds, and the numbers of a source have none. Pitches and velocities
are kept inside their fields, and ticks never run backwards, so every message of a track fits
(`inRange_tracks`). What is left is what can stop an export. The tempo has to fit its field and the
volumes have to be floats, else there are no tracks (`Convertible`); and for the file, names have to be
in Latin-1, and tracks not too many or too long (`Storable`).

Nothing else stops it (`export_compiled_iff`).
-/

namespace Chiptune
namespace Midi

open Binary64

/-! ## Fields -/

/-- All fields of a message are inside their bounds. -/
def Message.InRange : Message → Prop
  | .trackName _ time => 0 ≤ time
  | .setTempo tempo time => 0 ≤ tempo ∧ tempo ≤ 0xffffff ∧ 0 ≤ time
  | .noteOn channel note velocity time | .noteOff channel note velocity time =>
    0 ≤ channel ∧ channel ≤ 15 ∧ 0 ≤ note ∧ note ≤ 127 ∧ 0 ≤ velocity ∧ velocity ≤ 127 ∧ 0 ≤ time
  | .endOfTrack time => 0 ≤ time

theorem exists_velocity_iff {note : Note} :
    (∃ v, velocity note = .ok v) ↔ (note.volume * 127).natAbs < 255 * floatLimit := by
  rw [← exists_ofQuotient_iff (by decide : 0 < 255)]
  unfold velocity
  constructor
  · rintro ⟨v, h⟩
    obtain ⟨share, hshare, -⟩ := bind_eq_ok_iff.mp h
    exact ⟨share, hshare⟩
  · rintro ⟨share, hshare⟩
    obtain ⟨d, hd, -⟩ := exists_view_ofQuotient (by decide : 0 < 255) hshare
    exact ⟨_, bind_eq_ok_iff.mpr ⟨share, hshare, bind_eq_ok_iff.mpr ⟨d.round,
      toInt_of_view hd, rfl⟩⟩⟩

theorem velocity_bounds {note : Note} {v : Int} (h : velocity note = .ok v) : 1 ≤ v ∧ v ≤ 127 := by
  obtain ⟨share, -, h⟩ := bind_eq_ok_iff.mp h
  obtain ⟨n, -, h⟩ := bind_eq_ok_iff.mp h
  cases h
  omega

/-! ## Tempos -/

theorem view_minute : ∃ d, view 60000000.0 = .finite d ∧ d.value = 60000000 :=
  ⟨⟨8053063680000000, -27⟩, rfl, by norm_num [Dyadic.value]⟩

/-- Four quarters of a number stay below a bound that the number stays below. -/
theorem exists_view_four_quarters {x : Float} {a : Binary64.Dyadic} {most : Nat}
    (ha : view x = .finite a) (ha0 : 0 ≤ a.value) (hale : a.value ≤ most)
    (hmost : most * 4 < 2 ^ 53) :
    ∃ c, view (x * 4.0 / 4.0) = .finite c ∧ 0 ≤ c.value ∧ c.value ≤ most := by
  obtain ⟨four, hfour, hvalue⟩ := view_four
  obtain ⟨b, hb, hb0, hble⟩ := @exists_view_mul_le _ _ _ _ most 4 ha hfour ha0
    (by rw [hvalue]; norm_num) hale (by rw [hvalue]; norm_num) hmost
  refine exists_view_div_bounds hb hfour (by rw [hvalue]; norm_num) (by rw [hvalue]; positivity) ?_
    (by omega)
  rw [hvalue]
  push_cast at hble
  linarith

/-- **The slowest tempo of a file** has four beats a minute. -/
theorem exists_tempo_iff {beats : Int} (hbeats : 1 ≤ beats) :
    (∃ value, tempo (.whole beats) = .ok value) ↔ 4 ≤ beats ∧ beats.natAbs < floatLimit := by
  constructor
  · rintro ⟨value, h⟩
    obtain ⟨pulse, hpulse, -⟩ := bind_eq_ok_iff.mp h
    refine ⟨?_, exists_ofInt_iff.mp ⟨pulse, hpulse⟩⟩
    by_contra hslow
    have hnone : ∀ beats ∈ [1, 2, 3], (tempo (.whole beats)).toOption.isSome = false := by
      decide +kernel
    have hthis := hnone beats (by simp only [List.mem_cons, List.not_mem_nil]; omega)
    rw [isSome_toOption_iff.mpr ⟨value, h⟩] at hthis
    cases hthis
  · rintro ⟨hfour, hlimit⟩
    obtain ⟨pulse, hpulse⟩ := exists_ofInt_iff.mpr hlimit
    obtain ⟨p, hp, hnearest⟩ := exists_view_ofInt hpulse
    have hp4 : 4 ≤ p.value := by
      refine (hnearest.adjoins 4 ?_).1 (by exact_mod_cast hfour)
      exact_mod_cast @representable_natCast 4 (by decide)
    obtain ⟨minute, hminute, hvalue⟩ := view_minute
    -- The numbers on the way are no larger than they are for four beats.
    have hquotient : minute.value / p.value ≤ (15000000 : Nat) := by
      rw [hvalue, div_le_iff₀ (by linarith)]
      push_cast
      linarith
    obtain ⟨a, ha, ha0, hale⟩ := exists_view_div_bounds hminute hp (by linarith)
      (by rw [hvalue]; positivity) hquotient (by decide)
    obtain ⟨c, hc, hc0, hcle⟩ := exists_view_four_quarters ha ha0 hale (by decide)
    obtain ⟨hround0, hround⟩ := Dyadic.round_bounds hc0 hcle
    refine ⟨c.round, bind_eq_ok_iff.mpr ⟨pulse, hpulse, bind_eq_ok_iff.mpr
      ⟨60000000.0 / pulse, divide_eq_ok_iff.mpr ⟨ofInt_ne_zero hbeats hpulse, rfl⟩,
        bind_eq_ok_iff.mpr ⟨c.round, toInt_of_view hc, ?_⟩⟩⟩⟩
    rw [if_pos (by omega)]
    rfl

theorem tempo_bounds {beats : Number} {value : Int} (h : tempo beats = .ok value) :
    0 ≤ value ∧ value ≤ 0xffffff := by
  obtain ⟨pulse, -, h⟩ := bind_eq_ok_iff.mp h
  obtain ⟨microseconds, -, h⟩ := bind_eq_ok_iff.mp h
  obtain ⟨n, -, h⟩ := bind_eq_ok_iff.mp h
  split at h
  · cases h
    assumption
  · cases h

/-! ## Tracks -/

theorem exists_view_noteTicks {note : Note} (h : ∃ x, ofInt note.duration = .ok x) :
    ∃ length d, noteTicks note ticksPerBeat = .ok length ∧ view length = .finite d ∧ 0 ≤ d.value ∧
      d.value ≤ 1920 := by
  obtain ⟨duration, hduration⟩ := h
  have hpos : 1 ≤ (note.duration : Int) := by have := note.duration_pos; omega
  obtain ⟨p, hp, -⟩ := exists_view_ofInt hduration
  obtain ⟨beat, b, hbeat, hb, hvalue⟩ := exists_view_ofNat (show 480 < 2 ^ 53 by decide)
  obtain ⟨four, hfour, hvalue4⟩ := view_four
  obtain ⟨whole, hwhole, hwhole0, hwholeLe⟩ := @exists_view_mul_le _ _ _ _ 480 4 hb hfour
    (by rw [hvalue]; positivity) (by rw [hvalue4]; norm_num) hvalue.le (by rw [hvalue4]; norm_num)
    (by decide)
  obtain ⟨d, hd, hd0, hdle⟩ := exists_view_div_le hwhole hp hwhole0 hwholeLe
    (one_le_value_ofInt hpos hduration hp) (by decide)
  refine ⟨_, d, bind_eq_ok_iff.mpr ⟨beat, hbeat, bind_eq_ok_iff.mpr ⟨duration, hduration,
    divide_eq_ok_iff.mpr ⟨ofInt_ne_zero hpos hduration, rfl⟩⟩⟩, hd, hd0, ?_⟩
  norm_num at hdle
  exact hdle

variable {channel : Int} {position : Float} {last : Int}

/-- **The step.** What becomes of a note whose place is known. -/
theorem outcome_trackFrom_cons {note : Note} {rest : List Note} {ticksPerBeat start stop : Int}
    {length : Float} (hchannel : 0 ≤ channel ∧ channel ≤ 15) (hwritable : note.isWritable = true)
    (hstart : tick position = .ok start) (hlength : noteTicks note ticksPerBeat = .ok length)
    (hstop : tick (position + length) = .ok stop) :
    (trackFrom channel ticksPerBeat position last (note :: rest)).outcome =
      if Sounds note then velocity note >>= fun v =>
        (trackFrom channel ticksPerBeat (position + length) stop rest).outcome.map fun later =>
          .noteOn channel note.midiPitch v (start - last) ::
            .noteOff channel note.midiPitch 0 (stop - start) :: later
      else (trackFrom channel ticksPerBeat (position + length) last rest).outcome := by
  rw [trackFrom, Report.outcome_liftM_bind hstart, Report.outcome_liftM_bind hlength,
    Report.outcome_liftM_bind hstop]
  by_cases hsilent : note.isRest = true ∨ note.volume ≤ 0
  · rw [if_pos hsilent, if_neg (not_sounds_iff.mpr (.inl hsilent))]
  rw [if_neg hsilent]
  obtain ⟨hrest, hvolume⟩ := not_or.mp hsilent
  by_cases hpitch : note.midiPitch < 0 ∨ 127 < note.midiPitch
  · have htold : (Event.noteSkipped note).isWritable = true := by
      simpa [Event.isWritable, Event.numbers, Note.isWritable, and_assoc] using hwritable
    rw [if_pos hpitch, if_neg (not_sounds_iff.mpr (.inr hpitch)),
      Report.outcome_tell_bind htold]
  · have hsounds : Sounds note := ⟨Bool.eq_false_iff.mpr hrest, by omega, by omega, by omega⟩
    rw [if_neg hpitch, if_pos hsounds, Report.outcome_bind, Report.outcome_liftM]
    refine congrArg _ (funext fun v => ?_)
    rw [if_neg (by omega), Report.outcome_bind]
    cases (trackFrom channel ticksPerBeat (position + length) stop rest).outcome <;> rfl

/-- What is asked of the notes of a score before they become messages. -/
def Readable (note : Note) : Prop :=
  (∃ x, ofInt note.duration = .ok x) ∧ note.isWritable = true

/-- What a track asks of a note: the volume of one that sounds becomes a float. -/
def HasVelocity (note : Note) : Prop :=
  Sounds note → (note.volume * 127).natAbs < 255 * floatLimit

/-- **A track comes about exactly where its notes have velocities.** Positions stay below `2 ^ 70`, so
there is a tick at each of them. -/
theorem exists_trackFrom_iff {notes : List Note} {d : Binary64.Dyadic}
    (hchannel : 0 ≤ channel ∧ channel ≤ 15)
    (hd : view position = .finite d) (hd0 : 0 ≤ d.value) (hdle : d.value ≤ 2 ^ 70)
    (hnotes : ∀ note ∈ notes, Readable note) :
    (∃ messages, (trackFrom channel ticksPerBeat position last notes).outcome = .ok messages) ↔
      ∀ note ∈ notes, HasVelocity note := by
  have htick : ∀ {x : Float} {d : Binary64.Dyadic}, view x = .finite d → tick x = .ok d.round :=
    fun hd => tick_eq_ok_iff.mpr ⟨_, hd, rfl⟩
  induction notes generalizing position last d with
  | nil =>
    refine iff_of_true ⟨[.endOfTrack (max 0 (d.round - last))], ?_⟩
      fun note h => absurd h List.not_mem_nil
    rw [trackFrom, Report.outcome_bind, Report.outcome_liftM, htick hd]
    rfl
  | cons note rest ih =>
    obtain ⟨⟨hduration, hwritable⟩, hrest⟩ := List.forall_mem_cons.mp hnotes
    obtain ⟨length, l, hlength, hl, hl0, hlle⟩ := exists_view_noteTicks hduration
    obtain ⟨c, hc, hc0, hcle⟩ := @value_add_le_two_pow _ _ _ _ 70 (by decide) hd hl hd0 hl0 hdle
      (by norm_num; linarith)
    have hlater := fun last => @ih _ last c hc hc0 hcle hrest
    rw [outcome_trackFrom_cons hchannel hwritable (htick hd) hlength (htick hc),
      List.forall_mem_cons, HasVelocity]
    split
    · rename_i hsounds
      rw [imp_iff_right hsounds, ← exists_velocity_iff]
      refine Iff.trans ?_ (and_congr_right fun _ => hlater c.round)
      simp only [bind_eq_ok_iff]
      constructor
      · rintro ⟨messages, v, hv, hlater⟩
        cases hout : (trackFrom channel ticksPerBeat (position + length) c.round rest).outcome with
        | ok later => exact ⟨⟨v, hv⟩, later, rfl⟩
        | error error =>
          rw [hout] at hlater
          cases hlater
      · rintro ⟨⟨v, hv⟩, later, hlater⟩
        exact ⟨_, v, hv, by rw [hlater]; rfl⟩
    · rename_i hsilent
      exact (hlater last).trans (and_iff_right fun hsounds => absurd hsounds hsilent).symm

/-- Every message of a track fits, and can be turned into bytes. -/
theorem fits_trackFrom {notes : List Note} {messages : List Message}
    (hchannel : 0 ≤ channel ∧ channel ≤ 15)
    (h : (trackFrom channel ticksPerBeat position last notes).outcome = .ok messages)
    (hlast : ∀ start, tick position = .ok start → last ≤ start) :
    ∀ message ∈ messages, message.InRange ∧ ∃ body, message.body = .ok body := by
  induction notes generalizing position last messages with
  | nil =>
    obtain ⟨stop, hstop, h⟩ := Report.outcome_bind_eq_ok.mp h
    cases h
    rw [List.forall_mem_singleton]
    exact ⟨le_max_left _ _, _, rfl⟩
  | cons note rest ih =>
    obtain ⟨start, length, stop, hstart, hlength, hstop, hcases⟩ := trackFrom_cons h
    have hforward : start ≤ stop :=
      tick_le_tick_add (isNegative_noteTicks (by decide) hlength) hstart hstop
    have hbefore := hlast start hstart
    rcases hcases with ⟨-, hlater⟩ | ⟨hsounds, hvelocity, later, hlater, rfl⟩
    · refine ih hlater fun stop' hstop' => ?_
      obtain rfl : stop = stop' := Except.ok.inj (hstop.symm.trans hstop')
      omega
    · obtain ⟨hlow, hhigh⟩ := velocity_bounds hvelocity
      obtain ⟨-, -, hpitch, hpitch'⟩ := hsounds
      rw [List.forall_mem_cons, List.forall_mem_cons]
      refine ⟨⟨⟨hchannel.1, hchannel.2, hpitch, hpitch', by omega, hhigh, by omega⟩, _, rfl⟩,
        ⟨⟨hchannel.1, hchannel.2, hpitch, hpitch', le_rfl, by decide, by omega⟩, _, rfl⟩,
        ih hlater fun stop' hstop' => ?_⟩
      exact le_of_eq (Except.ok.inj (hstop.symm.trans hstop'))

/-! ## Tracks of channels -/

theorem exists_track_iff {notes : List Note} {name : String} (hchannel : 0 ≤ channel ∧ channel ≤ 15)
    (hnotes : ∀ note ∈ notes, Readable note) :
    (∃ messages, (track notes channel name ticksPerBeat).outcome = .ok messages) ↔
      ∀ note ∈ notes, HasVelocity note := by
  rw [← @exists_trackFrom_iff channel 0 0 notes _ hchannel view_zero (by simp [Dyadic.value])
    (by simp [Dyadic.value]) hnotes]
  constructor
  · rintro ⟨messages, h⟩
    obtain ⟨body, hbody, -⟩ := Report.outcome_bind_eq_ok.mp h
    exact ⟨body, hbody⟩
  · rintro ⟨body, hbody⟩
    exact ⟨_, Report.outcome_bind_eq_ok.mpr ⟨body, hbody, rfl⟩⟩

/-- A track is what a channel becomes. -/
def TrackOf (channel : Channel) (messages : List Message) : Prop :=
  ∃ number : Nat, number < 16 ∧
    (track channel.notes.toList number channel.name ticksPerBeat).outcome = .ok messages

theorem channelTracks_eq_ok {index : Nat} {channels : List Channel} {result : List (List Message)}
    (h : (channelTracks ticksPerBeat index channels).outcome = .ok result) :
    List.Forall₂ TrackOf channels result := by
  induction channels generalizing index result with
  | nil =>
    cases h
    exact .nil
  | cons channel rest ih =>
    obtain ⟨messages, hmessages, h⟩ := Report.outcome_bind_eq_ok.mp h
    obtain ⟨later, hlater, h⟩ := Report.outcome_bind_eq_ok.mp h
    cases h
    exact .cons ⟨index % 16, Nat.mod_lt _ (by decide), hmessages⟩ (ih hlater)

theorem exists_channelTracks_iff {index : Nat} {channels : List Channel}
    (hnotes : ∀ channel ∈ channels, ∀ note ∈ channel.notes, Readable note) :
    (∃ result, (channelTracks ticksPerBeat index channels).outcome = .ok result) ↔
      ∀ channel ∈ channels, ∀ note ∈ channel.notes, HasVelocity note := by
  induction channels generalizing index with
  | nil => exact iff_of_true ⟨[], rfl⟩ fun channel h => absurd h List.not_mem_nil
  | cons channel rest ih =>
    obtain ⟨hchannel, hrest⟩ := List.forall_mem_cons.mp hnotes
    have htrack := @exists_track_iff (index % 16 : Nat) channel.notes.toList channel.name
      (by omega) (by simpa only [Array.mem_toList_iff] using hchannel)
    simp only [Array.mem_toList_iff] at htrack
    rw [List.forall_mem_cons, ← htrack, ← @ih (index + 1) hrest]
    constructor
    · rintro ⟨result, h⟩
      obtain ⟨messages, hmessages, h⟩ := Report.outcome_bind_eq_ok.mp h
      obtain ⟨later, hlater, -⟩ := Report.outcome_bind_eq_ok.mp h
      exact ⟨⟨messages, hmessages⟩, later, hlater⟩
    · rintro ⟨⟨messages, hmessages⟩, later, hlater⟩
      exact ⟨messages :: later, Report.outcome_bind_eq_ok.mpr ⟨messages, hmessages,
        Report.outcome_bind_eq_ok.mpr ⟨later, hlater, rfl⟩⟩⟩

theorem exists_body_trackName_iff {name : String} {time : Int} :
    (∃ body, (Message.trackName name time).body = .ok body) ↔
      ∃ content, Text.Latin.encode name = .ok content := by
  simp only [Message.body]
  cases Text.Latin.encode name <;> simp

/-- The messages of a track fit, and all but its name can be turned into bytes in any case. -/
theorem TrackOf.fits {channel : Channel} {messages : List Message} (h : TrackOf channel messages) :
    (∀ message ∈ messages, message.InRange) ∧
      ((∀ message ∈ messages, ∃ body, message.body = .ok body) ↔
        ∃ content, Text.Latin.encode channel.name = .ok content) := by
  obtain ⟨number, hnumber, h⟩ := h
  obtain ⟨body, hbody, h⟩ := Report.outcome_bind_eq_ok.mp h
  have hzero : tick 0 = .ok 0 := toOption_eq_some_iff.mp (by decide +kernel)
  have hfits := fits_trackFrom (by omega) hbody fun start hstart =>
    le_of_eq (Except.ok.inj (hzero.symm.trans hstart))
  by_cases hname : channel.name = ""
  · rw [if_pos hname] at h
    cases h
    refine ⟨fun message hmessage => (hfits message hmessage).1, ?_⟩
    rw [hname]
    exact iff_of_true (fun message hmessage => (hfits message hmessage).2) ⟨[], rfl⟩
  · rw [if_neg hname] at h
    cases h
    rw [List.forall_mem_cons, List.forall_mem_cons]
    refine ⟨⟨le_rfl, fun message hmessage => (hfits message hmessage).1⟩, ?_⟩
    rw [and_iff_left fun message hmessage => (hfits message hmessage).2]
    exact exists_body_trackName_iff

theorem exists_encode_iff {text : String} :
    (∃ content, Text.Latin.encode text = .ok content) ↔ ∀ c ∈ text.toList, c.toNat < 0x100 := by
  have hall : text.toList.dropWhile Text.Latin.isEncodable = [] ↔
      ∀ c ∈ text.toList, c.toNat < 0x100 := by
    simp only [List.dropWhile_eq_nil_iff, Text.Latin.isEncodable, decide_eq_true_eq]
  rw [← hall]
  unfold Text.Latin.encode
  simp only
  split
  · rename_i hnone
    exact iff_of_true ⟨_, rfl⟩ hnone
  · rename_i hsome
    refine iff_of_false ?_ hsome
    rintro ⟨content, h⟩
    cases h

/-! ## Bytes -/

theorem exists_trackBytes_iff {messages : List Message} :
    (∃ content, trackBytes messages = .ok content) ↔
      ∀ message ∈ messages, ∃ body, message.body = .ok body := by
  induction messages with
  | nil => exact iff_of_true ⟨[], rfl⟩ fun message h => absurd h List.not_mem_nil
  | cons message rest ih =>
    rw [List.forall_mem_cons, ← ih]
    simp only [trackBytes, bind_eq_ok_iff]
    constructor
    · rintro ⟨content, body, hbody, later, hlater, -⟩
      exact ⟨⟨body, hbody⟩, later, hlater⟩
    · rintro ⟨⟨body, hbody⟩, later, hlater⟩
      exact ⟨_, body, hbody, later, hlater, rfl⟩

theorem exists_trackBytes_withEnd_iff {messages : List Message} :
    (∃ content, trackBytes (withEnd messages) = .ok content) ↔
      ∀ message ∈ messages, ∃ body, message.body = .ok body := by
  rw [exists_trackBytes_iff]
  unfold withEnd
  split
  · rfl
  · rw [List.forall_mem_append, List.forall_mem_singleton]
    exact and_iff_left ⟨_, rfl⟩

theorem exists_chunk_iff {name : String} {content : List UInt8} :
    (∃ bytes, chunk name content = .ok bytes) ↔ content.length < 0x100000000 := by
  unfold chunk Bytes.long
  split
  · rename_i hsmall
    exact iff_of_true ⟨_, rfl⟩ hsmall
  · rename_i hlarge
    refine iff_of_false ?_ hlarge
    rintro ⟨bytes, h⟩
    split at h <;> cases h

theorem failure_trackChunks_iff {tracks : List (List Message)} :
    (trackChunks tracks).failure? = none ↔ ∀ messages ∈ tracks, ∃ content,
      trackBytes (withEnd messages) = .ok content ∧ content.length < 0x100000000 := by
  induction tracks with
  | nil => exact iff_of_true rfl fun messages h => absurd h List.not_mem_nil
  | cons messages rest ih =>
    have hchunk : (∃ bytes, (trackBytes (withEnd messages) >>= chunk "MTrk") = .ok bytes) ↔
        ∃ content, trackBytes (withEnd messages) = .ok content ∧
          content.length < 0x100000000 := by
      simp only [bind_eq_ok_iff]
      constructor
      · rintro ⟨bytes, content, hcontent, hbytes⟩
        exact ⟨content, hcontent, exists_chunk_iff.mp ⟨bytes, hbytes⟩⟩
      · rintro ⟨content, hcontent, hsmall⟩
        obtain ⟨bytes, hbytes⟩ := exists_chunk_iff.mpr hsmall
        exact ⟨bytes, content, hcontent, hbytes⟩
    rw [List.forall_mem_cons, ← ih, ← hchunk, trackChunks]
    cases trackBytes (withEnd messages) >>= chunk "MTrk" <;> simp

theorem failure_encode_iff {tracks : List (List Message)} :
    (encode tracks).failure? = none ↔ tracks.length < 0x8000 ∧ ∀ messages ∈ tracks, ∃ content,
      trackBytes (withEnd messages) = .ok content ∧ content.length < 0x100000000 := by
  rw [← failure_trackChunks_iff]
  have hheader : (∃ head, header tracks.length = .ok head) ↔ tracks.length < 0x8000 := by
    unfold header Bytes.signedShort
    split
    · rename_i hfew
      have hsize : (Bytes.bigEndian 2 1 ++ Bytes.bigEndian 2 tracks.length ++
          Bytes.bigEndian 2 ticksPerBeat.toNat).length < 0x100000000 := by
        simp [Bytes.bigEndian, Bytes.littleEndian]
      obtain ⟨head, hhead⟩ := exists_chunk_iff.mpr hsize
      exact iff_of_true ⟨head, hhead⟩ hfew
    · rename_i hmany
      refine iff_of_false ?_ hmany
      rintro ⟨head, h⟩
      split at h <;> cases h
  rw [← hheader]
  unfold encode
  cases header tracks.length <;> simp

/-! ## Files -/

/-- What the tracks of a score ask of it. -/
structure Convertible (score : Score) : Prop where
  tempo : ∃ beats : Int, score.tempo.beats = .whole beats ∧ 4 ≤ beats ∧ beats.natAbs < floatLimit
  velocities : ∀ channel ∈ score.channels, ∀ note ∈ channel.notes, HasVelocity note

/-- What a file asks of a score and its tracks. -/
structure Storable (score : Score) (tracks : List (List Message)) : Prop where
  count : score.channels.length + 1 < 0x8000
  names : ∀ channel ∈ score.channels, ∀ c ∈ channel.name.toList, c.toNat < 0x100
  sizes : ∀ messages ∈ tracks, ∀ content, trackBytes (withEnd messages) = .ok content →
    content.length < 0x100000000

variable {score : Score} {result : List (List Message)}

theorem tracks_eq_ok (h : (tracks score ticksPerBeat).outcome = .ok result) :
    ∃ value later, tempo score.tempo.beats = .ok value ∧ result = [.setTempo value 0] :: later ∧
      List.Forall₂ TrackOf score.channels later := by
  obtain ⟨value, hvalue, h⟩ := Report.outcome_bind_eq_ok.mp h
  obtain ⟨later, hlater, h⟩ := Report.outcome_bind_eq_ok.mp h
  cases h
  exact ⟨value, later, hvalue, rfl, channelTracks_eq_ok hlater⟩

theorem exists_tracks_iff {settings : Settings} (h : Source.Timed settings score) :
    (∃ result, (tracks score ticksPerBeat).outcome = .ok result) ↔ Convertible score := by
  obtain ⟨beats, hbeats, htempo⟩ := h.tempo
  have hreadable : ∀ channel ∈ score.channels, ∀ note ∈ channel.notes, Readable note := by
    intro channel hchannel note hnote
    obtain ⟨length, hlength⟩ :=
      Channel.exists_seconds_iff.mp (h.seconds channel hchannel) note hnote
    obtain ⟨duration, -, hduration, -⟩ := Note.seconds_eq_ok_iff.mp hlength
    exact ⟨⟨duration, hduration⟩, h.writable channel hchannel note hnote⟩
  constructor
  · rintro ⟨result, h⟩
    obtain ⟨value, hvalue, h⟩ := Report.outcome_bind_eq_ok.mp h
    obtain ⟨later, hlater, -⟩ := Report.outcome_bind_eq_ok.mp h
    have hvalue : tempo score.tempo.beats = .ok value := hvalue
    rw [htempo] at hvalue
    exact ⟨⟨beats, htempo, (exists_tempo_iff hbeats).mp ⟨value, hvalue⟩⟩,
      (exists_channelTracks_iff hreadable).mp ⟨later, hlater⟩⟩
  · rintro ⟨⟨beats', htempo', hfour, hlimit⟩, hvelocities⟩
    obtain ⟨value, hvalue⟩ := (exists_tempo_iff (by omega)).mpr ⟨hfour, hlimit⟩
    obtain ⟨later, hlater⟩ := (@exists_channelTracks_iff 0 _ hreadable).mpr hvelocities
    rw [← htempo'] at hvalue
    exact ⟨_, Report.outcome_bind_eq_ok.mpr ⟨value, hvalue,
      Report.outcome_bind_eq_ok.mpr ⟨later, hlater, rfl⟩⟩⟩

theorem inRange_tracks (h : (tracks score ticksPerBeat).outcome = .ok result) :
    ∀ messages ∈ result, ∀ message ∈ messages, message.InRange := by
  obtain ⟨value, later, hvalue, rfl, hlater⟩ := tracks_eq_ok h
  rw [List.forall_mem_cons, List.forall_mem_singleton]
  obtain ⟨hlow, hhigh⟩ := tempo_bounds hvalue
  refine ⟨⟨hlow, hhigh, le_rfl⟩, fun messages hmessages => ?_⟩
  obtain ⟨place, hplace, rfl⟩ := List.mem_iff_getElem.mp hmessages
  obtain ⟨hlength, hget⟩ := List.forall₂_iff_get.mp hlater
  exact (hget place (by omega) hplace).fits.1

theorem failure_encode_tracks_iff (h : (tracks score ticksPerBeat).outcome = .ok result) :
    (encode result).failure? = none ↔ Storable score result := by
  obtain ⟨value, later, hvalue, rfl, hlater⟩ := tracks_eq_ok h
  obtain ⟨hlength, hget⟩ := List.forall₂_iff_get.mp hlater
  have hnames : (∀ messages ∈ later, ∃ content, trackBytes (withEnd messages) = .ok content) ↔
      ∀ channel ∈ score.channels, ∀ c ∈ channel.name.toList, c.toNat < 0x100 := by
    have htrack : ∀ place (hchannel : place < score.channels.length)
        (hplace : place < later.length),
        (∃ content, trackBytes (withEnd later[place]) = .ok content) ↔
          ∀ c ∈ score.channels[place].name.toList, c.toNat < 0x100 := by
      intro place hchannel hplace
      rw [exists_trackBytes_withEnd_iff, ← exists_encode_iff]
      exact (hget place hchannel hplace).fits.2
    rw [List.forall_mem_iff_getElem, List.forall_mem_iff_getElem]
    exact ⟨fun hall place hplace => (htrack place hplace (by omega)).mp (hall place (by omega)),
      fun hall place hplace => (htrack place (by omega) hplace).mpr (hall place (by omega))⟩
  have htempo : ∃ content, trackBytes (withEnd [.setTempo value 0]) = .ok content :=
    exists_trackBytes_withEnd_iff.mpr (List.forall_mem_singleton.mpr ⟨_, rfl⟩)
  rw [failure_encode_iff, List.length_cons, ← hlength]
  constructor
  · rintro ⟨hcount, hcontents⟩
    refine ⟨hcount, hnames.mp fun messages hmessages => ?_,
      fun messages hmessages content hcontent => ?_⟩
    · obtain ⟨content, hcontent, -⟩ := hcontents messages (List.mem_cons_of_mem _ hmessages)
      exact ⟨content, hcontent⟩
    · obtain ⟨content', hcontent', hsmall⟩ := hcontents messages hmessages
      obtain rfl : content = content' := Except.ok.inj (hcontent.symm.trans hcontent')
      exact hsmall
  · rintro ⟨hcount, hlatin, hsizes⟩
    refine ⟨hcount, fun messages hmessages => ?_⟩
    obtain ⟨content, hcontent⟩ : ∃ content, trackBytes (withEnd messages) = .ok content := by
      rcases List.mem_cons.mp hmessages with rfl | hmem
      · exact htempo
      · exact hnames.mpr hlatin messages hmem
    exact ⟨content, hcontent, hsizes messages hmessages content hcontent⟩

end Midi

/-! ## Saving -/

open Midi

/-- What is saved of the tracks of a score, where the place can be written to. -/
theorem Saved.midi_eq {storage next : Storage} {path : String} {score : Score}
    {result : List (List Message)} (h : (tracks score ticksPerBeat).outcome = .ok result)
    (hwrite : storage.write path (encode result).bytes = .ok next) :
    (Saved.midi storage path score).storage = next ∧
      ((Saved.midi storage path score).report.outcome = .ok () ↔
        (encode result).failure? = none) := by
  unfold Saved.midi
  simp only
  rw [h]
  simp only
  unfold Saved.file
  rw [hwrite]
  simp only
  cases (encode result).failure? with
  | none => exact ⟨rfl, iff_of_true rfl rfl⟩
  | some error =>
    refine ⟨rfl, iff_of_false ?_ (by simp)⟩
    intro h
    cases h

/-- **Exporting a compiled score.** There are tracks exactly where tempo and volumes can be converted,
and their messages fit; a file is written exactly where in addition names, number and size of the
tracks fit. -/
theorem export_compiled_iff {settings : Settings} {text : List Char} {score : Score}
    {storage next : Storage} {path : String}
    (h : (Source.compile settings text).outcome = .ok score)
    (hpath : storage.write path [] = .ok next) :
    ((∃ result, (tracks score ticksPerBeat).outcome = .ok result) ↔ Convertible score) ∧
      ((Saved.midi storage path score).report.outcome = .ok () ↔
        ∃ result, (tracks score ticksPerBeat).outcome = .ok result ∧ Storable score result) ∧
      ∀ result, (tracks score ticksPerBeat).outcome = .ok result →
        (∀ messages ∈ result, ∀ message ∈ messages, message.InRange) ∧
          storage.write path (encode result).bytes =
            .ok (Saved.midi storage path score).storage := by
  refine ⟨exists_tracks_iff (Source.timed_of_compile h), ?_, fun result hresult => ?_⟩
  · cases hresult : (tracks score ticksPerBeat).outcome with
    | ok result =>
      obtain ⟨next, hwrite⟩ := Storage.exists_write hpath (encode result).bytes
      rw [(Saved.midi_eq hresult hwrite).2, failure_encode_tracks_iff hresult]
      simp
    | error error =>
      have hfailed : (Saved.midi storage path score).report.outcome = .error error := by
        unfold Saved.midi
        simp only
        rw [hresult]
      rw [hfailed]
      simp
  · obtain ⟨next, hwrite⟩ := Storage.exists_write hpath (encode result).bytes
    rw [(Saved.midi_eq hresult hwrite).1]
    exact ⟨inRange_tracks hresult, hwrite⟩

/-- A slow piece whose name has an accent, with a note that is too high for a file and one that is too
loud. -/
theorem export_compiled_slow :
    let settings : Settings := ⟨.whole 8, .whole 0, .whole 0, .whole 0, rfl, rfl, rfl, rfl⟩
    ∃ score, (Source.compile settings ":é\nT4V999O99CO4D".toList).outcome = .ok score ∧
      (tracks score ticksPerBeat).outcome = .ok [[.setTempo 15000000 0], [.trackName "é" 0,
        .noteOn 0 62 127 480, .noteOff 0 62 0 480, .endOfTrack 0]] ∧
      (Saved.midi (.empty []) "a" score).report.outcome = .ok () := by
  intro settings
  have hstart := @Source.start_of_tempo settings (Source.stripComments ":é\nT4V999O99CO4D".toList)
    "4" 4 (by decide +kernel) (by decide +kernel) rfl
  have hcompile := Source.compile_of_played hstart (by decide +kernel)
  obtain ⟨next, hpath⟩ := isSome_toOption_iff.mp
    (show ((Storage.empty []).write "a" []).toOption.isSome = true by cbv)
  obtain ⟨-, hstores, -⟩ := export_compiled_iff hcompile hpath
  generalize hchannels : (Source.sections _).map _ = channels at *
  have hone : channels.length = 1 := by
    rw [← hchannels]
    decide +kernel
  have hname : ∀ channel ∈ channels, channel.name = "é" := by
    rw [← hchannels]
    decide +kernel
  have htracks := toOption_eq_some_iff.mp (show (tracks { Score.empty settings with
      tempo := ⟨.whole 4, rfl⟩, channels := channels } ticksPerBeat).outcome.toOption =
    some [[.setTempo 15000000 0], [.trackName "é" 0, .noteOn 0 62 127 480, .noteOff 0 62 0 480,
      .endOfTrack 0]] by
    rw [← hchannels]
    decide +kernel)
  have hsizes : ∀ messages ∈ [[.setTempo 15000000 0], [.trackName "é" 0, .noteOn 0 62 127 480,
      .noteOff 0 62 0 480, .endOfTrack 0]],
      ((trackBytes (withEnd messages)).toOption.all fun content => content.length < 100) = true := by
    intro messages hmessages
    rcases List.mem_pair.mp hmessages with rfl | rfl <;> cbv
  refine ⟨_, hcompile, htracks, hstores.mpr ⟨_, htracks, ?_, fun channel hchannel => ?_,
    fun messages hmessages content hcontent => ?_⟩⟩
  · show channels.length + 1 < 0x8000
    omega
  · rw [hname channel hchannel]
    simp
  · have hsize := hsizes messages hmessages
    rw [hcontent] at hsize
    have hsmall : content.length < 100 := of_decide_eq_true hsize
    omega

/-- Three beats a minute are too slow. -/
theorem export_compiled_too_slow :
    let settings : Settings := ⟨.whole 8, .whole 0, .whole 0, .whole 0, rfl, rfl, rfl, rfl⟩
    ∃ score, (Source.compile settings "T3:a C".toList).outcome = .ok score ∧
      ¬ ∃ result, (tracks score ticksPerBeat).outcome = .ok result := by
  intro settings
  have hstart := @Source.start_of_tempo settings (Source.stripComments "T3:a C".toList)
    "3" 3 (by decide +kernel) (by decide +kernel) rfl
  have hcompile := Source.compile_of_played hstart (by decide +kernel)
  refine ⟨_, hcompile, fun hresult => ?_⟩
  obtain ⟨⟨beats, hbeats, hfour, -⟩, -⟩ :=
    (exists_tracks_iff (Source.timed_of_compile hcompile)).mp hresult
  have hthree : (3 : Int) = beats := Number.whole.inj hbeats
  omega

end Chiptune
