import Chiptune.Proofs.Channel.Meaning

/-!
# What can go wrong with a channel

A channel is refused for one thing only: a note without a duration (`Instruction.Stalls`). All that
could be wrong otherwise is ruled out by the patterns. What they capture is digits where a number is
read, and a letter with at most one accidental where a name is read, and the carries of a note leave
no index outside the octave.

That leaves the numbers. They are read if they have few enough digits, and they can be reported if
octave and volume, which are added up over the whole channel, do not outgrow what can be written.
Both are bounded by a number that bounds every single one (`Context.Within`).
-/

namespace Chiptune

/-- Work that fails where something is wrong, for one cause, and makes something good where it is
not. -/
structure FailsExactly {α : Type} (wrong : Prop) (cause : Error) (good : α → Prop)
    (outcome : Except Error α) : Prop where
  of_wrong : wrong → outcome = .error cause
  of_not : ¬ wrong → ∃ a, outcome = .ok a ∧ good a

/-! ## Notes without a duration -/

namespace Instruction

/-- The digits in front. -/
def digits (i : Instruction) : List Char := Pattern.digits i.argument.toList

/-- The duration of the note that an instruction plays: its own, or else that of the context. -/
def durationIn (context : Context) (i : Instruction) : Int :=
  if i.kind = .timedNote then (Text.digitsValue i.digits : Nat) else context.duration

/-- Some instruction plays a note of duration zero. -/
def Stalls (instructions : List Instruction) : Prop :=
  ∃ before i after, instructions = before ++ i :: after ∧ i.plays = true ∧
    i.durationIn (Context.behind before) = 0

theorem stalls_concat {before : List Instruction} {i : Instruction} :
    Stalls (before ++ [i]) ↔
      Stalls before ∨ i.plays = true ∧ i.durationIn (Context.behind before) = 0 := by
  constructor
  · rintro ⟨front, j, after, hsplit, hplays, hzero⟩
    rcases List.eq_nil_or_concat after with rfl | ⟨later, k, rfl⟩
    · obtain ⟨rfl, hij⟩ := List.append_inj' hsplit rfl
      cases hij
      exact Or.inr ⟨hplays, hzero⟩
    · rw [List.concat_eq_append, ← List.cons_append, ← List.append_assoc] at hsplit
      obtain ⟨rfl, -⟩ := List.append_inj' hsplit rfl
      exact Or.inl ⟨front, j, later, rfl, hplays, hzero⟩
  · rintro (⟨front, j, after, rfl, hplays, hzero⟩ | ⟨hplays, hzero⟩)
    · exact ⟨front, j, after ++ [i], by simp, hplays, hzero⟩
    · exact ⟨before, i, [], rfl, hplays, hzero⟩

/-- An instruction as patterns make it, whose number can be read and is below a bound. -/
structure Modest (bound : Nat) (i : Instruction) : Prop where
  shape : ∃ token, i.kind.Shape token i.argument.toList
  readable : i.digits.length ≤ Decimal.maxDigits
  value_lt : Text.digitsValue i.digits < bound

theorem Modest.digits_eq {bound : Nat} {i : Instruction} (h : i.Modest bound)
    (hmarks : i.kind.numberMarks ≠ []) : i.digits = i.argument.toList := by
  obtain ⟨token, hshape⟩ := h.shape
  exact List.takeWhile_eq_self_iff.mpr (hshape.digits_of_numberMarks hmarks).2

theorem Modest.amount_bounds {bound : Nat} {i : Instruction} (h : i.Modest bound)
    (hmarks : i.kind.numberMarks ≠ []) : 0 ≤ i.amount ∧ i.amount < bound := by
  have hlt := h.value_lt
  rw [h.digits_eq hmarks] at hlt
  unfold amount
  omega

theorem Modest.readNumber {bound : Nat} {i : Instruction} (h : i.Modest bound)
    (hmarks : i.kind.numberMarks ≠ []) :
    Builder.readNumber i.argument.toList = .ok i.amount := by
  obtain ⟨token, hshape⟩ := h.shape
  obtain ⟨hne, hdigits⟩ := hshape.digits_of_numberMarks hmarks
  have hlength := h.readable
  rw [h.digits_eq hmarks] at hlength
  rw [Builder.readNumber_of_digits hne hdigits, if_neg (Nat.not_lt.mpr hlength)]
  rfl

end Instruction

/-! ## Notes -/

namespace Note

/-- All that can be wrong with a note is that its duration is zero. -/
def LacksOnly (duration : Int) (made : Except Error Note) : Prop :=
  FailsExactly (duration = 0) (.duration 0) (fun _ => True) made

/-- A note of the octave is made unless it has no duration. -/
theorem make_lasts {scaleIndex duration octave volume : Int} {timbre : String} {isRest : Bool}
    (hindex : 0 ≤ scaleIndex ∧ scaleIndex < 12) :
    FailsExactly (duration < 1) (.stating duration (.duration duration)) (fun _ => True)
      (make scaleIndex duration octave volume timbre isRest) := by
  have hplace : Pitch.ofIndex scaleIndex = .ok ⟨scaleIndex.toNat, by omega⟩ := dif_pos hindex
  unfold make
  rw [hplace]
  exact ⟨fun hshort => dif_pos hshort, fun hlong => ⟨_, dif_neg hlong, trivial⟩⟩

theorem scaleIndex_bounds (spelling : Spelling) :
    -12 ≤ spelling.scaleIndex ∧ spelling.scaleIndex < 24 := by
  cases spelling with
  | rest accidental => simp [Spelling.scaleIndex]
  | tone letter accidental => cases letter <;> cases accidental <;> decide

/-- The carries lead back into an octave, whatever is spelled. -/
theorem ofSpelling_lasts (spelling : Spelling) {duration octave volume : Int} {timbre : String} :
    FailsExactly (duration < 1) (.stating duration (.duration duration)) (fun _ => True)
      (ofSpelling spelling duration octave volume timbre) := by
  have hbounds := scaleIndex_bounds spelling
  unfold ofSpelling
  simp only
  split
  · exact make_lasts (by omega)
  · split
    · exact make_lasts (by omega)
    · exact make_lasts (by omega)

theorem ofName_lacksOnly {name : List Char} (hname : NoteShape name) {duration octave volume : Int}
    {timbre : String} (hduration : 0 ≤ duration) :
    LacksOnly duration (ofName (String.ofList name) duration octave volume timbre) := by
  obtain ⟨head, marks, spelling, -, hspelling, -⟩ := hname.read
  obtain ⟨hshort, hlong⟩ := @ofSpelling_lasts spelling duration octave volume timbre
  unfold ofName Pitch.spelling
  rw [String.toList_ofList, hspelling]
  refine ⟨?_, fun hne => hlong (by omega)⟩
  rintro rfl
  have hwritable : Decimal.isWritable 0 = true :=
    Decimal.isWritable_iff.mpr (Nat.pow_pos (by decide))
  rw [Error.stating, if_pos hwritable] at hshort
  exact hshort (by decide)

end Note

/-- A note is at most one octave away from its context. -/
theorem Note.Renders.octave_le {context : Context} {i : Instruction} {note : Note}
    (h : note.Renders context i) : note.octave.natAbs ≤ context.octave.natAbs + 1 := by
  obtain ⟨head, marks, -, ⟨-, -, -, -, hoctave⟩ | ⟨semitones, hnatural, -, -, hplace⟩⟩ :=
    h.pitch
  · omega
  · have hindex := naturals_le hnatural
    have hmarks := accidentalOf_bounds marks
    have hscale := h.scaleIndex_le
    omega

theorem Note.Renders.volume_le {context : Context} {i : Instruction} {note : Note}
    (h : note.Renders context i) : note.volume.natAbs ≤ context.volume.natAbs := by
  obtain ⟨head, marks, -, ⟨-, -, hvolume, -, -⟩ | ⟨letter, -, -, hvolume, -⟩⟩ := h.pitch <;> omega

theorem Note.Renders.duration_eq_durationIn {context : Context} {i : Instruction} {note : Note}
    (h : note.Renders context i) : (note.duration : Int) = i.durationIn context := h.duration_eq

/-! ## Contexts -/

/-- A context that so many instructions can lead to, with numbers below a bound. -/
structure Context.Within (bound count : Nat) (context : Context) : Prop where
  octave_le : context.octave.natAbs ≤ (count + 1) * bound
  volume_le : context.volume.natAbs ≤ (count + 1) * bound
  duration_nonneg : 0 ≤ context.duration
  duration_lt : context.duration < bound

namespace Context

variable {bound : Nat}

theorem within_start (h : 200 ≤ bound) : Within bound 0 {} := by
  refine ⟨?_, ?_, ?_, ?_⟩
  · show 4 ≤ (0 + 1) * bound
    omega
  · show 200 ≤ (0 + 1) * bound
    omega
  · show (0 : Int) ≤ 4
    omega
  · show (4 : Int) < bound
    omega

/-- One more instruction, one more bound. -/
theorem Within.step {count : Nat} {context : Context} {i : Instruction} (hbound : 200 ≤ bound)
    (h : context.Within bound count) (hi : i.Modest bound) :
    (context.step i).Within bound (count + 1) := by
  obtain ⟨hoctave, hvolume, hnonneg, hlt⟩ := h
  have hsucc : (count + 1 + 1) * bound = (count + 1) * bound + bound := Nat.succ_mul _ _
  have hle : bound ≤ (count + 1) * bound := Nat.le_mul_of_pos_left bound (Nat.succ_pos count)
  unfold Context.step
  cases hkind : i.kind with
  | timbre | octaveUp | octaveDown | tempo | timedNote | note =>
    refine ⟨?_, ?_, hnonneg, hlt⟩ <;> simp only [hsucc] <;> omega
  | volume | volumeUp | volumeDown | octave | length =>
    obtain ⟨hpos, hamount⟩ := hi.amount_bounds (by rw [hkind]; decide)
    refine ⟨?_, ?_, ?_, ?_⟩ <;> simp only [hsucc] <;> omega

theorem within_behind {instructions : List Instruction} (hbound : 200 ≤ bound)
    (h : ∀ i ∈ instructions, i.Modest bound) :
    (behind instructions).Within bound instructions.length := by
  induction instructions using List.reverseRecOn with
  | nil => exact within_start hbound
  | append_singleton before i ih =>
    rw [behind_concat, List.length_append]
    exact (ih fun j hj => h j (by simp [hj])).step hbound (h i (by simp))

end Context

/-! ## One instruction -/

namespace Builder

variable {builder : Builder} {i : Instruction} {bound count : Nat}

theorem failure?_tell {event : Event}
    (h : ∀ n ∈ event.numbers, n.natAbs < 10 ^ Decimal.maxDigits) :
    (builder.tell event).failure? = none := by
  have hwritable : event.isWritable = true :=
    List.all_eq_true.mpr fun n hn => Decimal.isWritable_iff.mpr (h n hn)
  rw [tell, if_pos hwritable]

theorem durationIn_bounds (hcontext : builder.context.Within bound count) (hi : i.Modest bound) :
    0 ≤ i.durationIn builder.context ∧ i.durationIn builder.context < bound := by
  have hvalue := hi.value_lt
  unfold Instruction.durationIn
  split
  · omega
  · exact ⟨hcontext.duration_nonneg, hcontext.duration_lt⟩

theorem withNumber_of_modest (hi : i.Modest bound) (hmarks : i.kind.numberMarks ≠ [])
    (next : Int → Progress) : builder.withNumber i.argument next = next i.amount := by
  unfold withNumber
  rw [hi.readNumber hmarks]

/-- An instruction that does not play goes through. -/
theorem failure?_apply_of_not_plays (hcontext : builder.context.Within bound count)
    (hi : i.Modest bound) (hroom : (count + 2) * bound ≤ 10 ^ Decimal.maxDigits)
    (hbound : 200 ≤ bound) (hplays : i.plays = false) :
    (builder.apply i.kind i.argument).failure? = none := by
  obtain ⟨hoctave, hvolume, -, -⟩ := hcontext
  have hsucc : (count + 2) * bound = (count + 1) * bound + bound := Nat.succ_mul _ _
  have hread := fun hmarks next => @withNumber_of_modest builder i bound hi hmarks next
  have hamount := hi.amount_bounds
  cases hkind : i.kind with
  | timbre =>
    rw [apply, setTimbre, setContext]
    exact failure?_tell fun n hn => absurd hn List.not_mem_nil
  | tempo =>
    rw [apply, skipTempo]
    exact failure?_tell fun n hn => absurd hn List.not_mem_nil
  | volume | octave | length =>
    obtain ⟨hpos, hlt⟩ := hamount (by rw [hkind]; decide)
    rw [apply, hread (by rw [hkind]; decide)]
    simp only [setVolume, setOctave, setDuration, setContext]
    refine failure?_tell fun n hn => ?_
    simp only [Event.numbers, List.mem_singleton] at hn
    omega
  | volumeUp | volumeDown =>
    obtain ⟨hpos, hlt⟩ := hamount (by rw [hkind]; decide)
    rw [apply, hread (by rw [hkind]; decide)]
    simp only [addVolume, setContext]
    refine failure?_tell fun n hn => ?_
    simp only [Event.numbers, List.mem_cons, List.not_mem_nil, or_false] at hn
    omega
  | octaveUp | octaveDown =>
    rw [apply, addOctave]
    simp only [setContext]
    refine failure?_tell fun n hn => ?_
    simp only [Event.numbers, List.mem_cons, List.not_mem_nil, or_false] at hn
    omega
  | timedNote => simp [Instruction.plays, hkind] at hplays
  | note => simp [Instruction.plays, hkind] at hplays

/-- An instruction that plays asks for nothing but a duration. -/
theorem readNote_lacksOnly {context : Context} (hi : i.Modest bound) (hplays : i.plays = true)
    (hcontext : 0 ≤ context.duration) :
    Note.LacksOnly (i.durationIn context) (readNote context i.argument) := by
  obtain ⟨token, hshape⟩ := hi.shape
  have hreadable := hi.readable
  obtain ⟨offset, kind, argument⟩ := i
  simp only [Instruction.durationIn, Instruction.digits] at hshape hreadable ⊢
  generalize hargument : argument.toList = text at hshape hreadable
  cases hshape with
  | @timedNote digits name hne hdigits hname =>
    have hstops : StopsAt Text.isDigit name := by simpa using hname.stopsAt_digit []
    unfold Pattern.digits at hreadable ⊢
    rw [takeWhile_append_of_stopsAt hdigits hstops] at hreadable ⊢
    rw [if_pos rfl]
    unfold readNote
    rw [hargument, splitToken_of_timedNote hne hdigits hname]
    simp only
    rw [readNumber_of_digits hne hdigits, if_neg (Nat.not_lt.mpr hreadable)]
    exact Note.ofName_lacksOnly hname (Int.natCast_nonneg _)
  | note hname =>
    unfold readNote
    rw [hargument, splitToken_of_note hname]
    exact Note.ofName_lacksOnly hname hcontext
  | number hmark _ _ => cases kind <;> simp [Instruction.plays, Kind.numberMarks] at hplays hmark
  | timbre _ _ => simp [Instruction.plays] at hplays
  | octaveUp => simp [Instruction.plays] at hplays
  | octaveDown => simp [Instruction.plays] at hplays

/-- An instruction that plays goes through unless its note has no duration. -/
theorem failure?_apply_of_plays (hcontext : builder.context.Within bound count)
    (hi : i.Modest bound) (hroom : (count + 2) * bound ≤ 10 ^ Decimal.maxDigits)
    (hbound : 200 ≤ bound) (hplays : i.plays = true) :
    (i.durationIn builder.context = 0 →
        (builder.apply i.kind i.argument).failure? = some (.duration 0)) ∧
      (i.durationIn builder.context ≠ 0 →
        (builder.apply i.kind i.argument).failure? = none) := by
  have happly : builder.apply i.kind i.argument = builder.addNote i.argument := by
    rcases Instruction.plays_iff.mp hplays with hkind | hkind <;> rw [hkind] <;> rfl
  obtain ⟨hempty, hlasts⟩ := readNote_lacksOnly hi hplays hcontext.duration_nonneg
  rw [happly, addNote]
  constructor
  · intro hzero
    rw [hempty hzero]
    rfl
  · intro hne
    obtain ⟨note, hnote, -⟩ := hlasts hne
    obtain ⟨token, hshape⟩ := hi.shape
    have hrenders := renders_of_readNote hshape hplays hnote
    have hvolume := hrenders.volume_le.trans hcontext.volume_le
    have hoctave := hrenders.octave_le.trans (Nat.succ_le_succ hcontext.octave_le)
    have hduration := (durationIn_bounds hcontext hi).2
    rw [← hrenders.duration_eq_durationIn] at hduration
    have hsucc : (count + 2) * bound = (count + 1) * bound + bound := Nat.succ_mul _ _
    rw [hnote]
    refine failure?_tell fun n hn => ?_
    simp only [Event.numbers, List.mem_cons, List.not_mem_nil, or_false] at hn
    omega

/-- **A run is refused exactly for a note without a duration.** -/
theorem applyAll_outcome {instructions : List Instruction}
    (hstart : builder.context = {} ∧ builder.channel.notes = #[])
    (hmodest : ∀ i ∈ instructions, i.Modest bound) (hbound : 200 ≤ bound)
    (hroom : (instructions.length + 1) * bound ≤ 10 ^ Decimal.maxDigits) :
    (Instruction.Stalls instructions →
        (builder.applyAll instructions).failure? = some (.duration 0)) ∧
      (¬ Instruction.Stalls instructions →
        (builder.applyAll instructions).failure? = none ∧
          ∀ note ∈ (builder.applyAll instructions).builder.channel.notes,
            note.duration < bound) := by
  induction instructions using List.reverseRecOn with
  | nil =>
    refine ⟨fun ⟨before, i, after, h, _⟩ => by simp at h, fun _ => ⟨rfl, fun note hnote => ?_⟩⟩
    have hnote : note ∈ builder.channel.notes := hnote
    rw [hstart.2] at hnote
    exact absurd hnote (Array.not_mem_empty note)
  | append_singleton before i ih =>
    have hbefore : ∀ j ∈ before, j.Modest bound := fun j hj => hmodest j (by simp [hj])
    have hi : i.Modest bound := hmodest i (by simp)
    rw [List.length_append, List.length_singleton] at hroom
    obtain ⟨hrefused, hgone⟩ :=
      ih hbefore (le_trans (Nat.mul_le_mul_right _ (Nat.le_succ _)) hroom)
    obtain ⟨hbuilder, hfailure⟩ := applyAll_concat builder before i
    rw [Instruction.stalls_concat, hbuilder, hfailure]
    by_cases hstalls : Instruction.Stalls before
    · rw [Progress.andThen_of_some (hrefused hstalls)]
      exact ⟨fun _ => hrefused hstalls, fun hnot => absurd (Or.inl hstalls) hnot⟩
    · -- The instructions in front have gone through, and what they leave is known.
      obtain ⟨hnone, hnotes⟩ := hgone hstalls
      obtain ⟨-, hcontext, -⟩ :=
        applyAll_holds hstart (fun j hj => (hbefore j hj).shape) hnone
      have hwithin := Context.within_behind hbound hbefore
      obtain ⟨hnext, hlast⟩ :=
        Progress.andThen_of_none hnone fun next => next.apply i.kind i.argument
      rw [hnext, hlast, ← hcontext]
      rw [← hcontext] at hwithin
      obtain ⟨token, hshape⟩ := hi.shape
      cases hplays : i.plays with
      | false =>
        have hgoes := failure?_apply_of_not_plays hwithin hi hroom hbound hplays
        rw [apply_of_not_plays hshape hplays hgoes]
        exact ⟨fun h => by simp [hstalls] at h, fun _ => ⟨hgoes, hnotes⟩⟩
      | true =>
        obtain ⟨hempty, hlasts⟩ := failure?_apply_of_plays hwithin hi hroom hbound hplays
        refine ⟨fun h => hempty (h.resolve_left hstalls).2, fun h => ?_⟩
        have hgoes := hlasts fun hzero => h (Or.inr ⟨rfl, hzero⟩)
        obtain ⟨note, hrenders, hpushed⟩ := apply_of_plays hshape hplays hgoes
        refine ⟨hgoes, fun other hother => ?_⟩
        rw [hpushed] at hother
        rcases Array.mem_push.mp hother with hother | rfl
        · exact hnotes other hother
        · have hbounds := (durationIn_bounds hwithin hi).2
          rw [← hrenders.duration_eq_durationIn] at hbounds
          exact_mod_cast hbounds

end Builder

/-- **A text builds a channel unless it has a note without a duration.** -/
theorem Channel.build_outcome {table : List Kind} {name : String} {text : List Char} {bound : Nat}
    (hmodest : ∀ i ∈ Schedule.ofText table text, i.Modest bound) (hbound : 200 ≤ bound)
    (hroom : ((Schedule.ofText table text).length + 1) * bound ≤ 10 ^ Decimal.maxDigits) :
    FailsExactly (Instruction.Stalls (Schedule.ofText table text)) (.duration 0)
      (fun channel : Channel => ∀ note ∈ channel.notes, note.duration < bound)
      (Channel.build table name text).outcome := by
  have hstart : (Builder.start name table).context = {} ∧
      (Builder.start name table).channel.notes = #[] := ⟨rfl, rfl⟩
  obtain ⟨hrefused, hgone⟩ := Builder.applyAll_outcome hstart hmodest hbound hroom
  refine ⟨fun h => ?_, fun h => ?_⟩
  · have hfails : ((Builder.start name table).feed text).failure? = some (.duration 0) :=
      (Builder.feed_reaches (Builder.start name table) text).2.trans (hrefused h)
    unfold Channel.build
    simp only [hfails]
  · obtain ⟨hgoes, hnotes⟩ := hgone h
    exact ⟨_, Channel.build_eq_ok_iff.mpr ⟨hgoes, rfl⟩, hnotes⟩

end Chiptune
