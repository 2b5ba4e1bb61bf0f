import Mathlib.Data.List.TakeWhile
import Chiptune.Instruction.Pattern

/-!
# The shape of an instruction

`Kind.match?` says how an instruction is *found*; this file says what an instruction *is*. A
`Shape` is the text of an instruction with what it captures, spelled out by concatenation, and
`Ends` is the one condition a match puts on the text behind it: the pattern has taken all it could.
`Kind.match?_eq_some_iff` says that the two together are exactly a match:

```
kind.match? text = some m  ↔  text starts with a token of that shape, and the token ends there
```

Everything that follows about where instructions begin, overlap or stop is read off the shapes, so
that the eleven patterns are taken apart here and nowhere else.
-/

namespace Chiptune

open Pattern

/-! ## Classes of characters -/

/-- The letters that a note may start with, one by one. -/
def Pattern.noteLetters : List Char :=
  ['R', 'A', 'a', 'B', 'b', 'C', 'c', 'D', 'd', 'E', 'e', 'F', 'f', 'G', 'g']

/-- The accidentals that may follow it. -/
def Pattern.accidentals : List Char := ['#', '+', '-']

theorem isNoteLetter_iff {c : Char} : isNoteLetter c = true ↔ c ∈ noteLetters := by
  have hascii : ∀ n < 128, isNoteLetter (Char.ofNat n) = true → Char.ofNat n ∈ noteLetters := by
    decide
  have hall : noteLetters.all isNoteLetter = true := by decide
  refine ⟨fun h => ?_, List.all_eq_true.mp hall c⟩
  have hlt : c.toNat < 128 := by
    have hle : ∀ d : Char, c ≤ d → c.toNat ≤ d.toNat := fun d hd => hd
    unfold isNoteLetter at h
    simp only [Bool.or_eq_true, Bool.and_eq_true, decide_eq_true_eq, beq_iff_eq] at h
    rcases h with (⟨-, hupper⟩ | ⟨-, hlower⟩) | rfl
    · exact Nat.lt_of_le_of_lt (hle _ hupper) (by decide)
    · exact Nat.lt_of_le_of_lt (hle _ hlower) (by decide)
    · decide
  have hc := hascii c.toNat hlt
  rw [Char.ofNat_toNat] at hc
  exact hc h

theorem isAccidental_iff {c : Char} : isAccidental c = true ↔ c ∈ accidentals := by
  simp [isAccidental, accidentals, or_assoc]

theorem eq_of_isAccidental {c : Char} (h : isAccidental c = true) : c = '#' ∨ c = '+' ∨ c = '-' := by
  simpa [accidentals] using isAccidental_iff.mp h

theorem not_isDigit_of_isNoteLetter {c : Char} (h : isNoteLetter c = true) :
    Text.isDigit c = false := by
  have hall : (noteLetters.all fun d => !Text.isDigit d) = true := by decide
  simpa using List.all_eq_true.mp hall c (isNoteLetter_iff.mp h)

theorem not_isDigit_of_isAccidental {c : Char} (h : isAccidental c = true) :
    Text.isDigit c = false := by
  rcases eq_of_isAccidental h with rfl | rfl | rfl <;> decide

theorem not_isNoteLetter_of_isDigit {c : Char} (h : Text.isDigit c = true) :
    isNoteLetter c = false := by
  by_contra hc
  rw [not_isDigit_of_isNoteLetter (by simpa using hc)] at h
  exact absurd h (by simp)

theorem not_isAccidental_of_isNoteLetter {c : Char} (h : isNoteLetter c = true) :
    isAccidental c = false := by
  have hall : (noteLetters.all fun d => !isAccidental d) = true := by decide
  simpa using List.all_eq_true.mp hall c (isNoteLetter_iff.mp h)

/-! ## Runs

A pattern takes a run of characters of one class as far as it goes. The two lemmas say so for the
run and for what is left. -/

/-- The text does not go on with a character of the class. -/
def StopsAt (p : Char → Bool) (rest : List Char) : Prop := ∀ d ∈ rest.head?, p d = false

theorem stopsAt_dropWhile (p : Char → Bool) (text : List Char) : StopsAt p (text.dropWhile p) := by
  intro d hd
  have h := List.head?_dropWhile_not p text
  rw [hd] at h
  simpa using h

theorem takeWhile_append_of_stopsAt {p : Char → Bool} {run rest : List Char}
    (hrun : ∀ c ∈ run, p c = true) (hrest : StopsAt p rest) : (run ++ rest).takeWhile p = run := by
  rw [List.takeWhile_append_of_pos hrun]
  cases rest with
  | nil => simp
  | cons d rest => simp [hrest d rfl]

theorem dropWhile_append_of_stopsAt {p : Char → Bool} {run rest : List Char}
    (hrun : ∀ c ∈ run, p c = true) (hrest : StopsAt p rest) : (run ++ rest).dropWhile p = rest := by
  rw [List.dropWhile_append_of_pos hrun]
  cases rest with
  | nil => simp
  | cons d rest => simp [hrest d rfl]

/-! ## Shapes -/

/-- The text of a note: a letter, and an accidental or none. -/
inductive NoteShape : List Char → Prop
  | plain {letter : Char} (hletter : letter ∈ noteLetters) : NoteShape [letter]
  | marked {letter mark : Char} (hletter : letter ∈ noteLetters) (hmark : mark ∈ accidentals) :
      NoteShape [letter, mark]

/-- The marks in front of a number, for the kinds that are a mark and a number. -/
def Kind.numberMarks : Kind → List Char
  | volume => ['V', 'v']
  | volumeUp => ['(']
  | volumeDown => [')']
  | octave => ['O', 'o']
  | length => ['L', 'l']
  | tempo => ['T', 't']
  | timbre | octaveUp | octaveDown | timedNote | note => []

/-- The text of an instruction of a kind, and what it captures. -/
inductive Kind.Shape : Kind → List Char → List Char → Prop
  | timbre {name : List Char} (hne : name ≠ []) (hname : ∀ c ∈ name, Text.isWord c = true) :
      Shape .timbre ('@' :: '(' :: (name ++ [')'])) name
  | number {kind : Kind} {c : Char} {digits : List Char} (hmark : c ∈ kind.numberMarks)
      (hne : digits ≠ []) (hdigits : ∀ d ∈ digits, Text.isDigit d = true) :
      Shape kind (c :: digits) digits
  | octaveUp : Shape .octaveUp ['<'] []
  | octaveDown : Shape .octaveDown ['>'] []
  | timedNote {digits note : List Char} (hne : digits ≠ [])
      (hdigits : ∀ d ∈ digits, Text.isDigit d = true) (hnote : NoteShape note) :
      Shape .timedNote (digits ++ note) (digits ++ note)
  | note {note : List Char} (hnote : NoteShape note) : Shape .note note note

/-- Nothing behind the token could have been taken into it: a number is not cut short, and a letter
keeps the accidental behind it. The other tokens end with a character that takes nothing. -/
def Ends (token rest : List Char) : Prop :=
  ∀ c ∈ token.getLast?,
    (Text.isDigit c = true → StopsAt Text.isDigit rest) ∧
      (isNoteLetter c = true → StopsAt isAccidental rest)

theorem ends_of_getLast? {token rest : List Char} {c : Char} (hc : token.getLast? = some c)
    (hdigit : Text.isDigit c = false) (hletter : isNoteLetter c = false) : Ends token rest := by
  intro d hd
  rw [hc] at hd
  cases hd
  exact ⟨fun h => absurd h (by simp [hdigit]), fun h => absurd h (by simp [hletter])⟩

theorem Ends.stopsAt_digit {token rest : List Char} {c : Char} (h : Ends token rest)
    (hc : token.getLast? = some c) (hdigit : Text.isDigit c = true) : StopsAt Text.isDigit rest :=
  (h c hc).1 hdigit

/-! ## Matches have a shape -/

theorem numberBehind_sound {kind : Kind} {upper lower : Char} {text : List Char} {m : Match}
    (hmarks : kind.numberMarks = [upper, lower] ∨ upper = lower ∧ kind.numberMarks = [upper])
    (h : numberBehind upper lower text = some m) :
    ∃ token rest, text = token ++ rest ∧ kind.Shape token m.argument ∧ Ends token rest ∧
      token.length = m.length := by
  cases text with
  | nil => simp [numberBehind] at h
  | cons c later =>
    simp only [numberBehind] at h
    split at h
    · rename_i hc
      cases h
      have hdigits : ∀ d ∈ digits later, Text.isDigit d = true := fun d hd =>
        List.mem_takeWhile_imp hd
      -- The token is the mark and all the digits there are, so no digit is left behind it.
      refine ⟨c :: digits later, later.dropWhile Text.isDigit, ?_, .number ?_ hc.2 hdigits, ?_, ?_⟩
      · rw [List.cons_append]
        unfold digits
        rw [List.takeWhile_append_dropWhile]
      · rcases hmarks with hm | ⟨rfl, hm⟩
        · rw [hm]
          rcases hc.1 with rfl | rfl <;> simp
        · rw [hm]
          rcases hc.1 with rfl | rfl <;> simp
      · intro d hd
        have hmem : d ∈ digits later := by
          rw [List.getLast?_cons_of_ne_nil hc.2] at hd
          exact List.mem_of_getLast? hd
        refine ⟨fun _ => stopsAt_dropWhile _ _, fun hletter => ?_⟩
        rw [not_isNoteLetter_of_isDigit (hdigits d hmem)] at hletter
        exact absurd hletter (by simp)
      · simp
    · cases h

theorem mark_sound {kind : Kind} {expected : Char} {text : List Char} {m : Match}
    (hshape : kind.Shape [expected] []) (hdigit : Text.isDigit expected = false)
    (hletter : isNoteLetter expected = false) (h : mark expected text = some m) :
    ∃ token rest, text = token ++ rest ∧ kind.Shape token m.argument ∧ Ends token rest ∧
      token.length = m.length := by
  cases text with
  | nil => simp [mark] at h
  | cons c later =>
    simp only [mark] at h
    split at h
    · rename_i hc
      cases h
      exact ⟨[expected], later, by rw [hc]; rfl, hshape, ends_of_getLast? rfl hdigit hletter, rfl⟩
    · cases h

/-- The note at the head of a text: its shape, and that it has taken the accidental behind it. -/
theorem noteLength?_sound {text : List Char} {n : Nat} (h : noteLength? text = some n) :
    ∃ note rest, text = note ++ rest ∧ NoteShape note ∧ Ends note rest ∧ note.length = n := by
  cases text with
  | nil => simp [noteLength?] at h
  | cons c later =>
    simp only [noteLength?] at h
    split at h
    · rename_i hc
      cases h
      have hletter := isNoteLetter_iff.mp hc
      have hdigit : Text.isDigit c = false := not_isDigit_of_isNoteLetter hc
      cases later with
      | nil =>
        refine ⟨[c], [], rfl, .plain hletter, fun d _ => ⟨fun _ => ?_, fun _ => ?_⟩, rfl⟩
        all_goals
          intro e he
          exact absurd he (by simp)
      | cons d later =>
        cases hd : isAccidental d with
        | true =>
          refine ⟨[c, d], later, rfl, .marked hletter (isAccidental_iff.mp hd),
            ends_of_getLast? rfl (not_isDigit_of_isAccidental hd) ?_, by simp [hd]⟩
          by_contra hd'
          rw [not_isAccidental_of_isNoteLetter (by simpa using hd')] at hd
          exact absurd hd (by simp)
        | false =>
          refine ⟨[c], d :: later, rfl, .plain hletter, fun e he => ?_, by simp [hd]⟩
          cases he
          refine ⟨fun h => absurd h (by simp [hdigit]), fun _ f hf => ?_⟩
          cases hf
          exact hd
    · cases h

theorem NoteShape.ne_nil {note : List Char} (h : NoteShape note) : note ≠ [] := by
  cases h <;> simp

theorem Ends.append_left {token rest : List Char} (front : List Char) (hne : token ≠ [])
    (h : Ends token rest) : Ends (front ++ token) rest := by
  intro c hc
  rw [List.getLast?_append, List.getLast?_eq_some_getLast hne] at hc
  exact h c (by rw [List.getLast?_eq_some_getLast hne]; exact hc)

theorem note_sound {text : List Char} {m : Match} (h : Pattern.note text = some m) :
    ∃ token rest, text = token ++ rest ∧ Kind.note.Shape token m.argument ∧ Ends token rest ∧
      token.length = m.length := by
  obtain ⟨n, hn, rfl⟩ := Option.map_eq_some_iff.1 h
  obtain ⟨note, rest, rfl, hnote, hends, rfl⟩ := noteLength?_sound hn
  refine ⟨note, rest, rfl, ?_, hends, rfl⟩
  simpa using Kind.Shape.note hnote

theorem timedNote_sound {text : List Char} {m : Match} (h : Pattern.timedNote text = some m) :
    ∃ token rest, text = token ++ rest ∧ Kind.timedNote.Shape token m.argument ∧
      Ends token rest ∧ token.length = m.length := by
  simp only [Pattern.timedNote] at h
  split at h
  · cases h
  · rename_i hne
    obtain ⟨n, hn, rfl⟩ := Option.map_eq_some_iff.1 h
    obtain ⟨note, rest, hrest, hnote, hends, rfl⟩ := noteLength?_sound hn
    have htext : text = digits text ++ note ++ rest := by
      rw [List.append_assoc, ← hrest]
      unfold digits
      rw [List.takeWhile_append_dropWhile]
    have htake : text.take ((digits text).length + note.length) = digits text ++ note := by
      rw [congrArg (List.take _) htext, ← List.length_append, List.take_left]
    refine ⟨digits text ++ note, rest, htext, ?_, hends.append_left _ hnote.ne_nil, by simp⟩
    show Kind.timedNote.Shape _ (text.take _)
    rw [htake]
    exact .timedNote hne (fun d hd => List.mem_takeWhile_imp hd) hnote

theorem timbre_sound {text : List Char} {m : Match} (h : Pattern.timbre text = some m) :
    ∃ token rest, text = token ++ rest ∧ Kind.timbre.Shape token m.argument ∧ Ends token rest ∧
      token.length = m.length := by
  unfold Pattern.timbre at h
  split at h
  · rename_i later
    simp only at h
    split at h
    · rename_i hname
      cases h
      obtain ⟨hne, hclose⟩ := hname
      obtain ⟨rest, hrest⟩ : ∃ rest, later.dropWhile Text.isWord = ')' :: rest := by
        cases hd : later.dropWhile Text.isWord with
        | nil => rw [hd] at hclose; simp at hclose
        | cons c rest => rw [hd] at hclose; cases hclose; exact ⟨rest, rfl⟩
      refine ⟨_, rest, ?_, .timbre hne fun c hc => List.mem_takeWhile_imp hc,
        ends_of_getLast? (c := ')') ?_ (by decide) (by decide), by simp⟩
      · simp only [List.cons_append, List.append_assoc, List.nil_append]
        rw [← hrest, List.takeWhile_append_dropWhile]
      · simp [List.getLast?_cons, List.getLast?_append]
    · cases h
  · cases h

/-- **A match has a shape**, whatever its kind. -/
theorem Kind.match?_sound {kind : Kind} {text : List Char} {m : Match}
    (h : kind.match? text = some m) :
    ∃ token rest, text = token ++ rest ∧ kind.Shape token m.argument ∧ Ends token rest ∧
      token.length = m.length := by
  cases kind with
  | timbre => exact timbre_sound h
  | volume => exact numberBehind_sound (Or.inl rfl) h
  | volumeUp => exact numberBehind_sound (Or.inr ⟨rfl, rfl⟩) h
  | volumeDown => exact numberBehind_sound (Or.inr ⟨rfl, rfl⟩) h
  | octave => exact numberBehind_sound (Or.inl rfl) h
  | octaveUp => exact mark_sound .octaveUp (by decide) (by decide) h
  | octaveDown => exact mark_sound .octaveDown (by decide) (by decide) h
  | length => exact numberBehind_sound (Or.inl rfl) h
  | tempo => exact numberBehind_sound (Or.inl rfl) h
  | timedNote => exact timedNote_sound h
  | note => exact note_sound h

/-! ## What has a shape is matched -/

theorem numberBehind_complete {upper lower c : Char} {run rest : List Char}
    (hc : c = upper ∨ c = lower) (hne : run ≠ []) (hrun : ∀ d ∈ run, Text.isDigit d = true)
    (hends : Ends (c :: run) rest) :
    numberBehind upper lower (c :: run ++ rest) = some ⟨(c :: run).length, run⟩ := by
  have hstop : StopsAt Text.isDigit rest := by
    have hlast : (c :: run).getLast? = some (run.getLast hne) := by
      rw [List.getLast?_cons_of_ne_nil hne, List.getLast?_eq_some_getLast hne]
    exact hends.stopsAt_digit hlast (hrun _ (List.getLast_mem hne))
  have hdigits : digits (run ++ rest) = run := takeWhile_append_of_stopsAt hrun hstop
  rw [List.cons_append]
  simp [numberBehind, hdigits, hc, hne]

theorem noteLength?_complete {note rest : List Char} (hnote : NoteShape note)
    (hends : Ends note rest) : noteLength? (note ++ rest) = some note.length := by
  cases hnote with
  | @plain letter hletter =>
    have hletter := isNoteLetter_iff.mpr hletter
    have hstop : StopsAt isAccidental rest := (hends letter rfl).2 hletter
    cases rest with
    | nil => simp [noteLength?, hletter]
    | cons d rest =>
      have hd : isAccidental d = false := hstop d rfl
      simp [noteLength?, hletter, hd]
  | marked hletter hmark =>
    simp [noteLength?, isNoteLetter_iff.mpr hletter, isAccidental_iff.mpr hmark]

theorem NoteShape.stopsAt_digit {note : List Char} (h : NoteShape note) (rest : List Char) :
    StopsAt Text.isDigit (note ++ rest) := by
  intro d hd
  cases h with
  | plain hletter => cases hd; exact not_isDigit_of_isNoteLetter (isNoteLetter_iff.mpr hletter)
  | marked hletter _ => cases hd; exact not_isDigit_of_isNoteLetter (isNoteLetter_iff.mpr hletter)

theorem Ends.of_append_left {front token rest : List Char} (h : Ends (front ++ token) rest) :
    Ends token rest := by
  intro c hc
  refine h c ?_
  rw [List.getLast?_append, hc]
  rfl

theorem timedNote_complete {run note rest : List Char} (hne : run ≠ [])
    (hrun : ∀ d ∈ run, Text.isDigit d = true) (hnote : NoteShape note)
    (hends : Ends (run ++ note) rest) :
    Pattern.timedNote (run ++ note ++ rest) = some ⟨(run ++ note).length, run ++ note⟩ := by
  have hstop : StopsAt Text.isDigit (note ++ rest) := hnote.stopsAt_digit rest
  have hdigits : digits (run ++ (note ++ rest)) = run := takeWhile_append_of_stopsAt hrun hstop
  have hlength : noteLength? ((run ++ (note ++ rest)).dropWhile Text.isDigit) = some note.length := by
    rw [dropWhile_append_of_stopsAt hrun hstop]
    exact noteLength?_complete hnote hends.of_append_left
  rw [List.append_assoc]
  simp only [Pattern.timedNote, hdigits, hlength, if_neg hne, Option.map_some]
  rw [← List.length_append, ← List.append_assoc, List.take_left]

theorem note_complete {note rest : List Char} (hnote : NoteShape note) (hends : Ends note rest) :
    Pattern.note (note ++ rest) = some ⟨note.length, note⟩ := by
  simp [Pattern.note, noteLength?_complete hnote hends]

theorem timbre_complete {name rest : List Char} (hne : name ≠ [])
    (hname : ∀ c ∈ name, Text.isWord c = true) :
    Pattern.timbre ('@' :: '(' :: (name ++ [')']) ++ rest) =
      some ⟨('@' :: '(' :: (name ++ [')'])).length, name⟩ := by
  have hstop : StopsAt Text.isWord (')' :: rest) := by
    intro d hd
    cases hd
    decide +kernel
  have htake : (name ++ ')' :: rest).takeWhile Text.isWord = name :=
    takeWhile_append_of_stopsAt hname hstop
  have hdrop : (name ++ ')' :: rest).dropWhile Text.isWord = ')' :: rest :=
    dropWhile_append_of_stopsAt hname hstop
  simp [Pattern.timbre, htake, hdrop, hne]

/-- **What has a shape and ends is matched.** -/
theorem Kind.match?_complete {kind : Kind} {token rest argument : List Char}
    (hshape : kind.Shape token argument) (hends : Ends token rest) :
    kind.match? (token ++ rest) = some ⟨token.length, argument⟩ := by
  cases hshape with
  | timbre hne hname => exact timbre_complete hne hname
  | octaveUp => rfl
  | octaveDown => rfl
  | timedNote hne hdigits hnote => exact timedNote_complete hne hdigits hnote hends
  | note hnote => exact note_complete hnote hends
  | number hmark hne hdigits =>
    cases kind with
    | volume => exact numberBehind_complete (by simpa [Kind.numberMarks] using hmark) hne hdigits hends
    | volumeUp => exact numberBehind_complete (by simpa [Kind.numberMarks] using hmark) hne hdigits hends
    | volumeDown => exact numberBehind_complete (by simpa [Kind.numberMarks] using hmark) hne hdigits hends
    | octave => exact numberBehind_complete (by simpa [Kind.numberMarks] using hmark) hne hdigits hends
    | length => exact numberBehind_complete (by simpa [Kind.numberMarks] using hmark) hne hdigits hends
    | tempo => exact numberBehind_complete (by simpa [Kind.numberMarks] using hmark) hne hdigits hends
    | timbre | octaveUp | octaveDown | timedNote | note => simp [Kind.numberMarks] at hmark

/-- **A match is a shape that ends.** The eleven patterns in one sentence: a kind matches at the
head of a text where the text starts with a token of the kind that nothing behind it belongs to. -/
theorem Kind.match?_eq_some_iff {kind : Kind} {text : List Char} {m : Match} :
    kind.match? text = some m ↔
      ∃ token rest, text = token ++ rest ∧ kind.Shape token m.argument ∧ Ends token rest ∧
        token.length = m.length := by
  constructor
  · exact Kind.match?_sound
  · rintro ⟨token, rest, rfl, hshape, hends, hlength⟩
    rw [Kind.match?_complete hshape hends, hlength]

/-! ## Where instructions begin

The first character of a token names its kind, so at most one kind matches at any place; and the
characters behind the first one begin nothing that claims the text earlier in the table. A timed
note is the one token that another of its own kind may begin inside: `12C` and `2C`. -/

/-- The kind of the instructions that begin with a character. -/
def Kind.ofHead? (c : Char) : Option Kind :=
  if Text.isDigit c then some timedNote
  else if isNoteLetter c then some note
  else
    match c with
    | '@' => some timbre
    | 'V' | 'v' => some volume
    | '(' => some volumeUp
    | ')' => some volumeDown
    | 'O' | 'o' => some octave
    | '<' => some octaveUp
    | '>' => some octaveDown
    | 'L' | 'l' => some length
    | 'T' | 't' => some tempo
    | _ => none

/-- The place of a kind in the table: the smaller, the earlier its claim. -/
def Kind.rank (kind : Kind) : Nat := table.idxOf kind

@[simp] theorem Kind.ofHead?_digit {c : Char} (h : Text.isDigit c = true) :
    Kind.ofHead? c = some .timedNote := by simp [Kind.ofHead?, h]

@[simp] theorem Kind.ofHead?_noteLetter {c : Char} (h : isNoteLetter c = true) :
    Kind.ofHead? c = some .note := by
  simp [Kind.ofHead?, h, not_isDigit_of_isNoteLetter h]

theorem Kind.ofHead?_accidental {c : Char} (h : isAccidental c = true) : Kind.ofHead? c = none := by
  rcases eq_of_isAccidental h with rfl | rfl | rfl <;> decide

theorem Kind.ofHead?_numberMark {kind : Kind} {c : Char} (h : c ∈ kind.numberMarks) :
    Kind.ofHead? c = some kind := by
  have hall : (kind.numberMarks.all fun d => Kind.ofHead? d == some kind) = true := by
    cases kind <;> decide
  simpa using List.all_eq_true.mp hall c h

theorem Kind.rank_lt_of_numberMarks {kind : Kind} (h : kind.numberMarks ≠ []) :
    kind.rank < Kind.timedNote.rank := by
  revert h
  cases kind <;> decide

theorem Kind.eq_at_of_ofHead?_timbre {c : Char} (h : Kind.ofHead? c = some .timbre) : c = '@' := by
  unfold Kind.ofHead? at h
  repeat' split at h
  all_goals first | rfl | simp at h

theorem Kind.isDigit_of_ofHead?_timedNote {c : Char} (h : Kind.ofHead? c = some .timedNote) :
    Text.isDigit c = true := by
  unfold Kind.ofHead? at h
  repeat' split at h
  all_goals first | assumption | simp at h

/-- The first character of a note. -/
theorem NoteShape.head {note : List Char} (h : NoteShape note) :
    ∃ letter marks, note = letter :: marks ∧ isNoteLetter letter = true ∧
      ∀ d ∈ marks, isAccidental d = true := by
  cases h with
  | plain hletter => exact ⟨_, [], rfl, isNoteLetter_iff.mpr hletter, by simp⟩
  | marked hletter hmark =>
    exact ⟨_, _, rfl, isNoteLetter_iff.mpr hletter, by simpa using isAccidental_iff.mpr hmark⟩

theorem NoteShape.not_isDigit {note : List Char} (h : NoteShape note) :
    ∀ c ∈ note, Text.isDigit c = false := by
  obtain ⟨letter, marks, rfl, hletter, hmarks⟩ := h.head
  intro c hc
  rcases List.mem_cons.mp hc with rfl | hc
  · exact not_isDigit_of_isNoteLetter hletter
  · exact not_isDigit_of_isAccidental (hmarks c hc)

/-- **The first character of a token names its kind.** -/
theorem Kind.Shape.head {kind : Kind} {token argument : List Char}
    (h : kind.Shape token argument) :
    ∃ c inner, token = c :: inner ∧ Kind.ofHead? c = some kind := by
  cases h with
  | timbre _ _ => exact ⟨_, _, rfl, by decide⟩
  | number hmark _ _ => exact ⟨_, _, rfl, Kind.ofHead?_numberMark hmark⟩
  | octaveUp => exact ⟨_, _, rfl, by decide⟩
  | octaveDown => exact ⟨_, _, rfl, by decide⟩
  | @timedNote digits note hne hdigits hnote =>
    cases digits with
    | nil => exact absurd rfl hne
    | cons d digits => exact ⟨d, _, rfl, Kind.ofHead?_digit (hdigits d (by simp))⟩
  | note hnote =>
    obtain ⟨letter, marks, rfl, hletter, -⟩ := hnote.head
    exact ⟨letter, marks, rfl, Kind.ofHead?_noteLetter hletter⟩

theorem Kind.Shape.ne_nil {kind : Kind} {token argument : List Char}
    (h : kind.Shape token argument) : token ≠ [] := by
  obtain ⟨c, inner, rfl, -⟩ := h.head
  simp

/-- The kinds that are a mark and a number capture the number. -/
theorem Kind.Shape.digits_of_numberMarks {kind : Kind} {token argument : List Char}
    (h : kind.Shape token argument) (hmarks : kind.numberMarks ≠ []) :
    argument ≠ [] ∧ ∀ d ∈ argument, Text.isDigit d = true := by
  cases h with
  | number _ hne hdigits => exact ⟨hne, hdigits⟩
  | timbre _ _ => exact absurd rfl hmarks
  | octaveUp => exact absurd rfl hmarks
  | octaveDown => exact absurd rfl hmarks
  | timedNote _ _ _ => exact absurd rfl hmarks
  | note _ => exact absurd rfl hmarks

theorem Kind.match?_nil (kind : Kind) : kind.match? [] = none := by
  cases h : kind.match? [] with
  | none => rfl
  | some m =>
    obtain ⟨token, rest, htext, hshape, -, -⟩ := Kind.match?_sound h
    exact absurd (List.append_eq_nil_iff.mp htext.symm).1 hshape.ne_nil

/-- Whether a token of a later kind may begin inside one of a kind: anything but another timbre in
the name of a timbre, a timed note in a number, and in a timed note a shorter one or its note. -/
def Kind.Admits (kind later : Kind) : Prop :=
  kind = .timbre ∧ later ≠ .timbre ∨ kind.numberMarks ≠ [] ∧ later = .timedNote ∨
    kind = .timedNote ∧ (later = .timedNote ∨ later = .note)

theorem Kind.Shape.admits {kind later : Kind} {c d : Char} {inner argument : List Char}
    (h : kind.Shape (c :: inner) argument) (hd : d ∈ inner) (hlater : Kind.ofHead? d = some later) :
    kind.Admits later := by
  generalize htoken : c :: inner = token at h
  cases h with
  | timbre hne hname =>
    cases htoken
    refine Or.inl ⟨rfl, ?_⟩
    rintro rfl
    cases Kind.eq_at_of_ofHead?_timbre hlater
    -- Another timbre would begin with an at sign, which no name has in it.
    rcases List.mem_cons.mp hd with h | h
    · exact absurd h (by decide)
    · rcases List.mem_append.mp h with h | h
      · exact absurd (hname _ h) (by decide +kernel)
      · simp at h
  | number hmark hne hdigits =>
    cases htoken
    rw [Kind.ofHead?_digit (hdigits d hd)] at hlater
    exact Or.inr (Or.inl ⟨List.ne_nil_of_mem hmark, (Option.some.inj hlater).symm⟩)
  | octaveUp => cases htoken; simp at hd
  | octaveDown => cases htoken; simp at hd
  | @timedNote digits note hne hdigits hshape =>
    refine Or.inr (Or.inr ⟨rfl, ?_⟩)
    have hmem : d ∈ digits ++ note := by rw [← htoken]; exact List.mem_cons_of_mem _ hd
    rcases List.mem_append.mp hmem with hmem | hmem
    · rw [Kind.ofHead?_digit (hdigits d hmem)] at hlater
      exact Or.inl (Option.some.inj hlater).symm
    · obtain ⟨letter, marks, rfl, hletter, hmarks⟩ := hshape.head
      rcases List.mem_cons.mp hmem with rfl | hmem
      · rw [Kind.ofHead?_noteLetter hletter] at hlater
        exact Or.inr (Option.some.inj hlater).symm
      · rw [Kind.ofHead?_accidental (hmarks d hmem)] at hlater
        exact absurd hlater (by simp)
  | note hshape =>
    obtain ⟨letter, marks, hcons, -, hmarks⟩ := hshape.head
    rw [← htoken] at hcons
    cases hcons
    rw [Kind.ofHead?_accidental (hmarks d hd)] at hlater
    exact absurd hlater (by simp)

/-- **Inside a token nothing begins that claims the text earlier**, and only a timed note begins
inside one of its own kind. -/
theorem Kind.Admits.rank_lt {kind later : Kind} (h : kind.Admits later) :
    kind.rank < later.rank ∨ kind = .timedNote ∧ later = .timedNote := by
  rcases h with ⟨rfl, hne⟩ | ⟨hmarks, rfl⟩ | ⟨rfl, rfl | rfl⟩
  · left
    revert hne
    cases later <;> decide
  · exact Or.inl (Kind.rank_lt_of_numberMarks hmarks)
  · exact Or.inr ⟨rfl, rfl⟩
  · exact Or.inl (by decide)

end Chiptune
