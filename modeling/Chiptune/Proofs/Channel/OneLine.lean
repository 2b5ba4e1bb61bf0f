import Chiptune.Proofs.Channel.Run
import Chiptune.Proofs.Instruction.Piecewise

/-!
# Line by line or all at once

`Builder.feed` cuts a text into lines and has each of them scheduled when its turn comes. Had it
taken the whole text for one line, nothing would be different (`feed_eq_feedLine`): the same
instructions are carried out, so the same notes are added, the context ends up the same, and if one
of them fails it is the same one with the same failure.

What a builder does with an instruction depends on what the instruction says and not on where it
stands (`applyAll_congr`). The rest is about schedules, and is in `Piecewise.lean`.
-/

namespace Chiptune

/-- The instructions of the lines of a text say what those of the text as one line say. -/
theorem Schedule.wording_ofText (table : List Kind) (text : List Char) :
    wording (ofText table text) = wording (ofLine table text) := by
  rw [← wording_flatMap_lines]
  unfold ofText wording
  rw [List.map_flatMap]

namespace Builder

/-- Instructions that say the same do the same. -/
theorem applyAll_congr (builder : Builder) {one other : List Instruction}
    (h : Schedule.wording one = Schedule.wording other) :
    builder.applyAll one = builder.applyAll other := by
  induction one generalizing builder other with
  | nil => rw [List.map_eq_nil_iff.mp h.symm]
  | cons i rest ih =>
    cases other with
    | nil => cases h
    | cons j later =>
      obtain ⟨hwords, hrest⟩ := List.cons.inj h
      obtain ⟨hkind, hargument⟩ := Prod.mk.inj hwords
      rw [applyAll, applyAll, hkind, hargument]
      exact congrArg _ (funext fun next => ih next hrest)

/-- **The line structure of a text is irrelevant**: for any builder, with any table, reading a text
line by line leaves what reading it as one line leaves, and fails where and as that fails. -/
theorem feed_eq_feedLine (builder : Builder) (text : List Char) :
    (builder.feed text).builder = (builder.feedLine text).builder ∧
      (builder.feed text).failure? = (builder.feedLine text).failure? := by
  have hsame := applyAll_congr builder (Schedule.wording_ofText builder.table text)
  have hfeed := feed_reaches builder text
  rw [hsame] at hfeed
  exact hfeed.trans (feedLine_reaches builder text).symm

end Builder
end Chiptune
