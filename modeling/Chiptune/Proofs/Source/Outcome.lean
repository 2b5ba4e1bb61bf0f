import Chiptune.Source.Compile
import Chiptune.Proofs.Binary64.Ratio
import Chiptune.Proofs.Channel.OneLine
import Chiptune.Proofs.Channel.Refusal
import Chiptune.Proofs.Instruction.Extent
import Chiptune.Proofs.Source.TempoReaders

/-!
# What becomes of a source

A source compiles unless it asks for what there is not: a tempo of zero, which is found first
whatever the channels hold, or a note of duration zero (`compile_outcome`). Nothing that is no
music is ever refused, since it is not read.

Numbers could still be too long to be read or written, or too large to be a float. A source
without long runs of digits has none of these. Every number in it is a run of digits of the source
(`modest_of_mem_ofText`), and what a channel adds up stays below the number of its characters times
the largest of them.
-/

namespace Chiptune

/-! ## The instructions of a text -/

theorem Schedule.length_ofText_le (table : List Kind) (text : List Char) :
    (ofText table text).length ≤ text.length := by
  have hwording := congrArg List.length (wording_ofText table text)
  unfold wording at hwording
  rw [List.length_map, List.length_map] at hwording
  rw [hwording]
  exact length_ofLine_le table text

theorem Schedule.argument_isInfix_of_mem_ofText {table : List Kind} {text : List Char}
    {i : Instruction} (h : i ∈ ofText table text) : i.argument.toList <:+: text := by
  have hwords : (i.kind, i.argument) ∈ wording (ofText table text) :=
    List.mem_map_of_mem h
  rw [wording_ofText] at hwords
  obtain ⟨j, hj, hsame⟩ := List.mem_map.mp hwords
  rw [← (Prod.mk.inj hsame).2]
  exact argument_isInfix_of_mem_ofLine hj

namespace Source

/-! ## Runs of digits -/

/-- No run of digits is longer than so many characters. -/
def ShortRuns (most : Nat) (text : List Char) : Prop :=
  ∀ run, run <:+: text → (∀ c ∈ run, Text.isDigit c = true) → run.length ≤ most

theorem ShortRuns.of_isInfix {most : Nat} {text piece : List Char} (h : ShortRuns most text)
    (hpiece : piece <:+: text) : ShortRuns most piece :=
  fun run hrun hdigits => h run (hrun.trans hpiece) hdigits

theorem stripComments_sublist (text : List Char) : (stripComments text).Sublist text := by
  refine outsideComment.induct (fun text => (outsideComment text).Sublist text)
    (fun text => (insideComment text).Sublist text) ?_ ?_ ?_ ?_ ?_ ?_ text
  · intro rest ih
    rw [outsideComment]
    exact (ih.cons '*').cons '/'
  · intro c rest hopens ih
    rw [outsideComment]
    · exact ih.cons_cons c
    · exact hopens
  · exact .slnil
  · intro rest ih
    rw [insideComment]
    exact (ih.cons '/').cons '*'
  · intro c rest hcloses ih
    rw [insideComment]
    · exact ih.cons c
    · exact hcloses
  · exact .slnil

theorem piece_isInfix {text piece : List Char} (h : piece ∈ (cutAtColons text).2) :
    piece <:+: text := by
  obtain ⟨before, after, hsplit⟩ := List.append_of_mem h
  rw [← cutAtColons_join text, hsplit]
  exact ⟨(cutAtColons text).1 ++ before.flatMap (':' :: ·) ++ [':'], after.flatMap (':' :: ·),
    by simp⟩

theorem body_isInfix {text : List Char} {s : Section} (h : s ∈ sections text) :
    s.body <:+: text := by
  obtain ⟨piece, hpiece, rfl⟩ := List.mem_map.mp h
  exact (List.dropWhile_suffix _).isInfix.trans (piece_isInfix hpiece)

theorem header_isInfix (text : List Char) : header text <:+: text :=
  ⟨[], (cutAtColons text).2.flatMap (':' :: ·), cutAtColons_join text⟩

/-- The number of a tempo is a piece of the source: no run of digits goes on behind a name. -/
theorem argument_isInfix_of_mem_tempos {text : List Char} {t : Occurrence} (h : t ∈ tempos text) :
    t.argument.toList <:+: text := by
  have hfound : ∀ {line : List Char}, t.argument ∈ Kind.tempo.arguments line →
      t.argument.toList <:+: line := by
    intro line hline
    obtain ⟨o, ho, hargument⟩ := List.mem_map.mp hline
    rw [← hargument]
    exact Schedule.argument_isInfix_of_mem_occurrences ho
  have hargument : t.argument ∈ (tempos text).map (·.argument) := List.mem_map_of_mem h
  rw [map_argument_tempos] at hargument
  rcases List.mem_append.mp hargument with hheader | hbody
  · exact (hfound hheader).trans (header_isInfix text)
  · obtain ⟨s, hs, hbody⟩ := List.mem_flatMap.mp hbody
    exact (hfound hbody).trans (body_isInfix hs)

/-- Every instruction of a text without long runs of digits has a number that can be read. -/
theorem modest_of_mem_ofText {table : List Kind} {text : List Char} {i : Instruction} {most : Nat}
    (hruns : ShortRuns most text) (hmost : most ≤ Decimal.maxDigits)
    (h : i ∈ Schedule.ofText table text) : i.Modest (10 ^ most) := by
  have hlength : i.digits.length ≤ most := by
    refine hruns i.digits ?_ fun c hc => ?_
    · exact (List.takeWhile_prefix _).isInfix.trans (Schedule.argument_isInfix_of_mem_ofText h)
    · exact List.mem_takeWhile_imp hc
  refine ⟨?_, hlength.trans hmost, ?_⟩
  · obtain ⟨line, -, hi⟩ := List.mem_flatMap.mp h
    exact Schedule.shape_of_mem_ofLine hi
  · exact (Decimal.digitsValue_lt _).trans_le (Nat.pow_le_pow_right (by decide) hlength)

/-! ## Playing times -/

theorem log2_lt_of_lt_ten_pow {n most : Nat} (hpos : 0 < n) (hlt : n < 10 ^ most) :
    n.log2 < 10 * (most / 3 + 1) := by
  refine (Nat.log2_lt hpos.ne').mpr ?_
  calc n < 10 ^ most := hlt
    _ ≤ 10 ^ (3 * (most / 3 + 1)) := Nat.pow_le_pow_right (by decide) (by omega)
    _ = (10 ^ 3) ^ (most / 3 + 1) := pow_mul 10 3 _
    _ ≤ (2 ^ 10) ^ (most / 3 + 1) := Nat.pow_le_pow_left (by decide) _
    _ = 2 ^ (10 * (most / 3 + 1)) := (pow_mul 2 10 _).symm

theorem exists_ofInt_of_lt {n most : Nat} (hpos : 0 < n) (hlt : n < 10 ^ most)
    (hmost : most ≤ 300) : ∃ x, Binary64.ofInt n = .ok x ∧ (x == 0) = false := by
  have hlog := log2_lt_of_lt_ten_pow hpos hlt
  exact Binary64.exists_ofInt hpos (by omega)

/-- The playing time of a channel can be found, if those of its notes and the tempo can. -/
theorem exists_seconds {channel : Channel} {tempo : Number} {pulse : Float} {most : Nat}
    (htempo : tempo.toFloat = .ok pulse) (hpulse : (pulse == 0) = false) (hmost : most ≤ 300)
    (hnotes : ∀ note ∈ channel.notes, note.duration < 10 ^ most) :
    ∃ seconds, channel.seconds tempo = .ok seconds := by
  have hlength : ∀ note ∈ channel.notes, ∃ length, note.seconds tempo = .ok length := by
    intro note hnote
    obtain ⟨x, hx, hne⟩ := exists_ofInt_of_lt note.duration_pos (hnotes note hnote) hmost
    refine ⟨4.0 / x * (60.0 / pulse), ?_⟩
    unfold Note.seconds
    rw [hx, htempo]
    simp only [bind, Except.bind]
    rw [Binary64.divide_eq_ok_iff.mpr ⟨hne, rfl⟩, Binary64.divide_eq_ok_iff.mpr ⟨hpulse, rfl⟩]
    rfl
  have hsum : ∀ (notes : List Note) (total : Float), (∀ note ∈ notes, note ∈ channel.notes) →
      ∃ seconds, Channel.secondsFrom tempo total notes = .ok seconds := by
    intro notes
    induction notes with
    | nil => exact fun total _ => ⟨total, rfl⟩
    | cons note rest ih =>
      intro total hmem
      obtain ⟨length, hlength⟩ := hlength note (hmem note (by simp))
      rw [Channel.secondsFrom, hlength]
      exact ih _ fun other hother => hmem other (by simp [hother])
  exact hsum _ 0 fun note hnote => Array.mem_toList_iff.mp hnote

/-! ## Sections -/

/-- Some channel has a note of duration zero. -/
def Stalls (text : List Char) : Prop :=
  ∃ s ∈ sections text, Instruction.Stalls (Schedule.ofText Kind.table s.body)

theorem addSections_outcome {tempo : Tempo} {pulse : Float} {most : Nat} {found : List Section}
    (htempo : tempo.beats.toFloat = .ok pulse) (hpulse : (pulse == 0) = false) (hmost : most ≤ 300)
    (hbuild : ∀ s ∈ found, ∀ name,
      FailsExactly (Instruction.Stalls (Schedule.ofText Kind.table s.body)) (.duration 0)
        (fun channel : Channel => ∀ note ∈ channel.notes, note.duration < 10 ^ most)
        (Channel.build Kind.table name s.body).outcome) (channels : Array Channel) :
    FailsExactly (∃ s ∈ found, Instruction.Stalls (Schedule.ofText Kind.table s.body))
      (.duration 0) (fun _ => True) (addSections tempo channels found).outcome := by
  induction found generalizing channels with
  | nil => exact ⟨fun ⟨s, hs, _⟩ => absurd hs List.not_mem_nil, fun _ => ⟨channels, rfl, trivial⟩⟩
  | cons s rest ih =>
    have ih := ih fun other hother => hbuild other (by simp [hother])
    obtain ⟨hrefused, hbuilt⟩ := hbuild s (by simp) (String.ofList s.name)
    rw [addSections]
    by_cases hstalls : Instruction.Stalls (Schedule.ofText Kind.table s.body)
    · have hfails := hrefused hstalls
      refine ⟨fun _ => ?_, fun h => absurd ⟨s, by simp, hstalls⟩ h⟩
      rw [Report.bind_of_error hfails]
    · obtain ⟨channel, hchannel, hnotes⟩ := hbuilt hstalls
      obtain ⟨seconds, hseconds⟩ := exists_seconds htempo hpulse hmost hnotes
      have hgoes : (Channel.build Kind.table (String.ofList s.name) s.body >>= fun channel => do
          let seconds ← channel.seconds tempo.beats
          Report.tell (.channelCompiled (String.ofList s.name) channel.notes.size seconds)
          addSections tempo (channels.push channel) rest).outcome =
            (addSections tempo (channels.push channel) rest).outcome := by
        rw [Report.bind_of_ok hchannel]
        show (Report.ofExcept (channel.seconds tempo.beats) >>= _).outcome = _
        rw [Report.bind_of_ok hseconds]
        rfl
      rw [hgoes]
      have hothers : (∃ t ∈ s :: rest, Instruction.Stalls (Schedule.ofText Kind.table t.body)) ↔
          ∃ t ∈ rest, Instruction.Stalls (Schedule.ofText Kind.table t.body) := by
        simp [hstalls]
      rw [hothers]
      exact ih (channels.push channel)

/-! ## The tempo -/

/-- The last tempo of a source is zero. -/
def ZeroTempo (text : List Char) : Prop :=
  ∃ t, (tempos text).getLast? = some t ∧ t.amount = 0

/-- The tempo of a source can always be read, and is what its digits spell. -/
theorem findTempo_of_shortRuns {text : List Char} {most : Nat} (hruns : ShortRuns most text)
    (hmost : most ≤ Decimal.maxDigits) :
    findTempo text = .ok ((tempos text).getLast?.map fun t => t.amount) ∧
      ∀ t ∈ tempos text, 0 ≤ t.amount ∧ t.amount < 10 ^ most := by
  have hdigits : ∀ t ∈ tempos text, t.argument.toList ≠ [] ∧
      (∀ c ∈ t.argument.toList, Text.isDigit c = true) ∧ t.argument.toList.length ≤ most := by
    intro t ht
    obtain ⟨hkind, hmatch, -⟩ := Schedule.mem_occurrences_iff.mp ht
    obtain ⟨token, -, -, hshape, -, -⟩ := hmatch.shape
    obtain ⟨hne, hdigits⟩ := hshape.digits_of_numberMarks (by rw [hkind]; decide)
    exact ⟨hne, hdigits, hruns _ (argument_isInfix_of_mem_tempos ht) hdigits⟩
  refine ⟨?_, fun t ht => ?_⟩
  · unfold findTempo
    cases hlast : (tempos text).getLast? with
    | none => rfl
    | some t =>
      obtain ⟨hne, ht, hlength⟩ := hdigits t (List.mem_of_getLast? hlast)
      simp only
      rw [Builder.readNumber_of_digits hne ht, if_neg (Nat.not_lt.mpr (hlength.trans hmost))]
      rfl
  · obtain ⟨-, -, hlength⟩ := hdigits t ht
    have hlt := (Decimal.digitsValue_lt t.argument.toList).trans_le
      (Nat.pow_le_pow_right (by decide) hlength)
    unfold Instruction.amount
    exact ⟨Int.natCast_nonneg _, by exact_mod_cast hlt⟩

/-! ## Sources -/

/-- The last steps of compiling, once the tempo is there. -/
def compileSections (start : Score) (text : List Char) : Report Score := do
  let channels ← addSections start.tempo #[] (sections text)
  let score := { start with channels := channels.toList }
  if score.channels.isEmpty then
    Report.tell .noChannels
  return score

theorem outcome_compileSections (start : Score) (text : List Char) :
    (compileSections start text).outcome =
      (addSections start.tempo #[] (sections text)).outcome.map fun channels =>
        { start with channels := channels.toList } := by
  unfold compileSections
  cases h : (addSections start.tempo #[] (sections text)).outcome with
  | error error =>
    rw [Report.bind_of_error h]
    rfl
  | ok channels =>
    rw [Report.bind_of_ok h]
    simp only
    split <;> rfl

/-- The score with nothing in it but the tempo of a source. -/
def start (settings : Settings) (text : List Char) : Except Error Score := do
  match ← findTempo text with
  | none => return Score.empty settings
  | some beats => (Score.empty settings).setTempo (.whole beats)

theorem compileStripped_eq_bind (settings : Settings) (text : List Char) :
    compileStripped settings text =
      (liftM (start settings text) : Report Score) >>= fun score => compileSections score text := by
  unfold compileStripped start
  cases findTempo text with
  | error error => rfl
  | ok tempo? =>
    cases tempo? with
    | none => rfl
    | some beats =>
      show liftM ((Score.empty settings).setTempo (.whole beats)) >>= _ =
        liftM ((Score.empty settings).setTempo (.whole beats)) >>= _
      cases (Score.empty settings).setTempo (.whole beats) <;> rfl

theorem outcome_compileStripped (settings : Settings) (text : List Char) :
    (compileStripped settings text).outcome =
      start settings text >>= fun score => (compileSections score text).outcome := by
  rw [compileStripped_eq_bind, Report.outcome_bind, Report.outcome_liftM]

theorem setTempo_whole (score : Score) {beats : Int} (h : 0 ≤ beats) :
    FailsExactly (beats = 0) .tempoNotPositive (fun next : Score => next.tempo.beats = .whole beats)
      (score.setTempo (.whole beats)) := by
  constructor
  · rintro rfl
    rfl
  · intro hne
    have hpositive : ¬ (Number.whole beats).isNotPositive = true := by
      simp only [Number.isNotPositive, Number.isNegative, Number.isZero, Number.measure,
        Bool.or_eq_true, decide_eq_true_eq, beq_iff_eq]
      omega
    have hmade : Tempo.make (.whole beats) =
        .ok ⟨.whole beats, Number.isNotPositive_eq_false hpositive⟩ := dif_neg hpositive
    unfold Score.setTempo
    rw [hmade]
    exact ⟨_, rfl, rfl⟩

/-- A tempo that is set and is not zero is one that can be divided by. -/
theorem start_outcome (settings : Settings) {text : List Char} {most : Nat}
    (hruns : ShortRuns most text) (hmost : most ≤ 300) :
    FailsExactly (ZeroTempo text) .tempoNotPositive
      (fun score : Score => ∃ pulse, score.tempo.beats.toFloat = .ok pulse ∧ (pulse == 0) = false)
      (start settings text) := by
  obtain ⟨hfind, hbounds⟩ := findTempo_of_shortRuns hruns (hmost.trans (by decide))
  unfold start ZeroTempo
  rw [hfind]
  cases hlast : (tempos text).getLast? with
  | none =>
    obtain ⟨pulse, hpulse, hne⟩ := @Binary64.exists_ofInt 100 (by decide) (by decide)
    exact ⟨fun ⟨t, ht, _⟩ => by simp at ht,
      fun _ => ⟨Score.empty settings, rfl, pulse, hpulse, hne⟩⟩
  | some t =>
    obtain ⟨hnonneg, hlt⟩ := hbounds t (List.mem_of_getLast? hlast)
    obtain ⟨hzero, hset⟩ := setTempo_whole (Score.empty settings) hnonneg
    refine ⟨?_, fun h => ?_⟩
    · rintro ⟨t', ht', ht0⟩
      cases ht'
      exact hzero ht0
    · have hne : t.amount ≠ 0 := fun h0 => h ⟨t, rfl, h0⟩
      obtain ⟨next, hnext, hbeats⟩ := hset hne
      obtain ⟨n, hn⟩ := Int.eq_ofNat_of_zero_le hnonneg
      rw [hn] at hlt hne hbeats
      have hlt : n < 10 ^ most := by exact_mod_cast hlt
      obtain ⟨pulse, hpulse, hpulse0⟩ := exists_ofInt_of_lt (by omega) hlt hmost
      exact ⟨next, hnext, pulse, by rw [hbeats]; exact hpulse, hpulse0⟩

/-- Both failures of a source, and that there is no other. -/
structure Judged (text : List Char) (outcome : Except Error Score) : Prop where
  of_zeroTempo : ZeroTempo text → outcome = .error .tempoNotPositive
  of_tempo : ¬ ZeroTempo text → FailsExactly (Stalls text) (.duration 0) (fun _ => True) outcome

theorem compileSections_outcome {start : Score} {pulse : Float} {text : List Char} {most : Nat}
    (htempo : start.tempo.beats.toFloat = .ok pulse) (hpulse : (pulse == 0) = false)
    (hruns : ShortRuns most text) (hleast : 3 ≤ most) (hmost : most ≤ 300)
    (hroom : (text.length + 1) * 10 ^ most ≤ 10 ^ Decimal.maxDigits) :
    FailsExactly (Stalls text) (.duration 0) (fun _ => True)
      (compileSections start text).outcome := by
  have hbuild : ∀ s ∈ sections text, ∀ name,
      FailsExactly (Instruction.Stalls (Schedule.ofText Kind.table s.body)) (.duration 0)
        (fun channel : Channel => ∀ note ∈ channel.notes, note.duration < 10 ^ most)
        (Channel.build Kind.table name s.body).outcome := by
    intro s hs name
    have hbody := body_isInfix hs
    refine Channel.build_outcome (fun i hi => ?_) ?_ ?_
    · exact modest_of_mem_ofText (hruns.of_isInfix hbody) (hmost.trans (by decide)) hi
    · exact le_trans (by decide) (Nat.pow_le_pow_right (by decide) hleast)
    · refine le_trans (Nat.mul_le_mul_right _ (Nat.succ_le_succ ?_)) hroom
      exact (Schedule.length_ofText_le _ _).trans hbody.length_le
  obtain ⟨hrefused, hgone⟩ := addSections_outcome htempo hpulse hmost hbuild #[]
  rw [outcome_compileSections]
  refine ⟨fun h => ?_, fun h => ?_⟩
  · rw [hrefused h]
    rfl
  · obtain ⟨compiled, hcompiled, -⟩ := hgone h
    rw [hcompiled]
    exact ⟨_, rfl, trivial⟩

theorem compileStripped_judged (settings : Settings) {text : List Char} {most : Nat}
    (hruns : ShortRuns most text) (hleast : 3 ≤ most) (hmost : most ≤ 300)
    (hroom : (text.length + 1) * 10 ^ most ≤ 10 ^ Decimal.maxDigits) :
    Judged text (compileStripped settings text).outcome := by
  obtain ⟨hzero, hset⟩ := start_outcome settings hruns hmost
  rw [outcome_compileStripped]
  by_cases htempo : ZeroTempo text
  · rw [hzero htempo]
    exact ⟨fun _ => rfl, fun h => absurd htempo h⟩
  · obtain ⟨score, hstart, pulse, hpulse, hne⟩ := hset htempo
    rw [hstart]
    exact ⟨fun h => absurd h htempo,
      fun _ => compileSections_outcome hpulse hne hruns hleast hmost hroom⟩

/-- A source that is not enormous leaves room for what its channels add up. -/
theorem room_of_length_lt {length most long : Nat} (hlength : length < 10 ^ long)
    (hmost : long + most ≤ Decimal.maxDigits) :
    (length + 1) * 10 ^ most ≤ 10 ^ Decimal.maxDigits :=
  calc (length + 1) * 10 ^ most ≤ 10 ^ long * 10 ^ most := Nat.mul_le_mul_right _ hlength
    _ = 10 ^ (long + most) := (pow_add 10 long most).symm
    _ ≤ 10 ^ Decimal.maxDigits := Nat.pow_le_pow_right (by decide) hmost

/-- **Exactly when a source does not compile.** A tempo of zero is found first, whatever the
channels hold; then only a note of duration zero is left to be refused. -/
theorem compile_outcome (settings : Settings) {text : List Char} (hlength : text.length < 10 ^ 1000)
    (hruns : ShortRuns 300 (stripComments text)) :
    ((∃ error, (compile settings text).outcome = .error error) ↔
        ZeroTempo (stripComments text) ∨ Stalls (stripComments text)) ∧
      (ZeroTempo (stripComments text) →
        (compile settings text).outcome = .error .tempoNotPositive ∧
          Error.tempoNotPositive.message = "BPM must be positive") ∧
      (¬ ZeroTempo (stripComments text) → Stalls (stripComments text) →
        (compile settings text).outcome = .error (.duration 0)) ∧
      ∀ error, (compile settings text).outcome = .error error →
        error = .tempoNotPositive ∨ error = .duration 0 := by
  have hshorter : (stripComments text).length < 10 ^ 1000 :=
    (stripComments_sublist text).length_le.trans_lt hlength
  have hjudged : Judged (stripComments text) (compile settings text).outcome :=
    compileStripped_judged settings hruns (by decide) (by decide)
      (room_of_length_lt hshorter (by decide))
  obtain ⟨hzero, hset⟩ := hjudged
  by_cases htempo : ZeroTempo (stripComments text)
  · rw [hzero htempo]
    refine ⟨iff_of_true ⟨_, rfl⟩ (.inl htempo), fun _ => ⟨rfl, rfl⟩, fun h => absurd htempo h, ?_⟩
    rintro error ⟨⟩
    exact .inl rfl
  · obtain ⟨hstalls, hsound⟩ := hset htempo
    by_cases hstall : Stalls (stripComments text)
    · rw [hstalls hstall]
      refine ⟨iff_of_true ⟨_, rfl⟩ (.inr hstall), fun h => absurd h htempo, fun _ _ => rfl, ?_⟩
      rintro error ⟨⟩
      exact .inr rfl
    · obtain ⟨score, hscore, -⟩ := hsound hstall
      rw [hscore]
      have hneither : ¬ (ZeroTempo (stripComments text) ∨ Stalls (stripComments text)) :=
        not_or.mpr ⟨htempo, hstall⟩
      refine ⟨iff_of_false (fun ⟨error, h⟩ => ?_) hneither, fun h => absurd h htempo,
        fun _ h => absurd h hstall, fun error h => ?_⟩
      · cases h
      · cases h

/-- A tempo of zero in a comment is no tempo, and the note with a duration of its own has one: what
is refused is the note behind it, which takes the length of zero from the line before. -/
theorem compile_outcome_length_zero :
    (compile ⟨.whole 8, .whole 0, .whole 0, .whole 0, rfl, rfl, rfl, rfl⟩
      ":a\nC/*T0*/:b\nL0 8C\nD".toList).outcome = .error (.duration 0) := by
  have hstripped : stripComments ":a\nC/*T0*/:b\nL0 8C\nD".toList =
      ":a\nC:b\nL0 8C\nD".toList := by decide +kernel
  have htempo : ¬ ZeroTempo (stripComments ":a\nC/*T0*/:b\nL0 8C\nD".toList) := by
    have hnone : tempos (stripComments ":a\nC/*T0*/:b\nL0 8C\nD".toList) = [] := by
      decide +kernel
    rintro ⟨t, ht, -⟩
    rw [hnone] at ht
    cases ht
  have hstalls : Stalls (stripComments ":a\nC/*T0*/:b\nL0 8C\nD".toList) := by
    have hbody : Schedule.ofText Kind.table "\nL0 8C\nD".toList =
        [⟨0, .length, "0"⟩, ⟨3, .timedNote, "8C"⟩] ++ ⟨0, .note, "D"⟩ :: [] := by
      rw [Schedule.ofText_table]
      decide +kernel
    exact ⟨⟨['b'], "\nL0 8C\nD".toList⟩, by decide +kernel, _, _, _, hbody, rfl, rfl⟩
  have hlength : (":a\nC/*T0*/:b\nL0 8C\nD".toList).length < 10 ^ 1000 := by
    have hpower : ∀ long, 2 ≤ long → 10 ^ 2 ≤ 10 ^ long :=
      fun _ h => Nat.pow_le_pow_right (by decide) h
    exact lt_of_lt_of_le (by decide) (hpower 1000 (by decide))
  have hruns : ShortRuns 300 (stripComments ":a\nC/*T0*/:b\nL0 8C\nD".toList) := by
    rw [hstripped]
    exact fun run hrun _ => hrun.length_le.trans (by decide)
  exact (compile_outcome _ hlength hruns).2.2.1 htempo hstalls

end Source
end Chiptune
