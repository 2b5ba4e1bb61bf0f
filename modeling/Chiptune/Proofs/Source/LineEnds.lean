import Chiptune.Proofs.Source.Concatenation
import Chiptune.Proofs.Storage
import Chiptune.Proofs.Text.Utf8

/-!
# Line ends

A text that is read from a file has a line feed where the file has a carriage return, or one and a
line feed behind it. A string is compiled with its carriage returns. The two compile alike
(`compile_outcome_lineEnds`), whichever of the carriage returns are replaced.

The texts on the way do not stay equal: they stay equal up to carriage returns that were replaced
(`ReturnsReplaced`). A carriage return is no `/`, `*` or colon and no part of a name, so removing
comments and cutting at colons keep to that; and what is read in the end, the tempos and the wording
of a schedule, falls apart at line breaks, so it does not see the difference
(`ReturnsReplaced.congr`).
-/

namespace Chiptune

/-! ## Carriage returns that are replaced -/

namespace Text

/-- The second text is the first with a line feed in place of some of the carriage returns, and of
some of the carriage returns with a line feed behind them. -/
inductive ReturnsReplaced : List Char → List Char → Prop
  | nil : ReturnsReplaced [] []
  | keep (c : Char) {rest rest' : List Char} (h : ReturnsReplaced rest rest') :
      ReturnsReplaced (c :: rest) (c :: rest')
  | alone {rest rest' : List Char} (h : ReturnsReplaced rest rest') :
      ReturnsReplaced ('\r' :: rest) ('\n' :: rest')
  | pair {rest rest' : List Char} (h : ReturnsReplaced rest rest') :
      ReturnsReplaced ('\r' :: '\n' :: rest) ('\n' :: rest')

namespace ReturnsReplaced

variable {c : Char} {text text' rest : List Char}

/-- What is no carriage return stays. -/
theorem exists_of_cons_left (h : ReturnsReplaced (c :: rest) text') (hc : c ≠ '\r') :
    ∃ rest', text' = c :: rest' ∧ ReturnsReplaced rest rest' := by
  cases h with
  | keep _ h => exact ⟨_, rfl, h⟩
  | alone => exact absurd rfl hc
  | pair => exact absurd rfl hc

/-- What is no line feed has been there before. -/
theorem exists_of_cons_right (h : ReturnsReplaced text (c :: rest)) (hc : c ≠ '\n') :
    ∃ before, text = c :: before ∧ ReturnsReplaced before rest := by
  cases h with
  | keep _ h => exact ⟨_, rfl, h⟩
  | alone => exact absurd rfl hc
  | pair => exact absurd rfl hc

theorem refl (text : List Char) : ReturnsReplaced text text := by
  induction text with
  | nil => exact .nil
  | cons c rest ih => exact .keep c ih

theorem append_left (run : List Char) (h : ReturnsReplaced text text') :
    ReturnsReplaced (run ++ text) (run ++ text') := by
  induction run with
  | nil => exact h
  | cons c run ih => exact .keep c ih

theorem normalizeNewlines (text : List Char) : ReturnsReplaced text (normalizeNewlines text) := by
  refine Text.normalizeNewlines.induct (fun text => ReturnsReplaced text (Text.normalizeNewlines text))
    .nil (fun rest ih => .pair ih) (fun c rest hpair ih => ?_) text
  rw [Text.normalizeNewlines]
  · split
    · rename_i hc
      subst hc
      exact .alone ih
    · exact .keep c ih
  · exact hpair

/-- **What falls apart at line breaks does not change.** -/
theorem congr {α : Type} {f : List Char → List α} (hnil : f [] = [])
    (hbreak : ∀ run c rest, isLineBreak c = true → f (run ++ c :: rest) = f run ++ f rest)
    (h : ReturnsReplaced text text') : f text = f text' := by
  have hbehind : ∀ run, f (run ++ text) = f (run ++ text') := by
    induction h with
    | nil => exact fun run => rfl
    | @keep c rest rest' h ih =>
      intro run
      rw [List.append_cons, List.append_cons run c rest']
      exact ih (run ++ [c])
    | alone h ih =>
      intro run
      rw [hbreak _ _ _ (by decide), hbreak _ _ _ (by decide)]
      exact congrArg _ (ih [])
    | @pair rest rest' h ih =>
      intro run
      have hempty : f ('\n' :: rest) = f rest := by
        have := hbreak [] '\n' rest (by decide)
        rwa [List.nil_append, hnil, List.nil_append] at this
      rw [hbreak _ _ _ (by decide), hbreak _ _ _ (by decide), hempty]
      exact congrArg _ (ih [])
  exact hbehind []

end ReturnsReplaced
end Text

open Text

/-- The schedule of a text says the same. -/
theorem Schedule.wording_ofText_congr (table : List Kind) {text text' : List Char}
    (h : ReturnsReplaced text text') :
    wording (ofText table text) = wording (ofText table text') := by
  rw [wording_ofText, wording_ofText]
  exact h.congr (f := fun line => wording (ofLine table line)) (wording_ofLine_nil table)
    fun run _ rest => wording_ofLine_append_break table run rest

theorem Kind.arguments_congr (kind : Kind) {text text' : List Char}
    (h : ReturnsReplaced text text') : kind.arguments text = kind.arguments text' :=
  h.congr (by cases kind <;> rfl)
    fun run _ rest hc => arguments_append_separator (isSeparator_of_isLineBreak hc) run rest

/-- Texts that say the same build the same, or fail alike. -/
theorem Channel.build_congr {table : List Kind} {name : String} {text text' : List Char}
    (h : Schedule.wording (Schedule.ofText table text) =
      Schedule.wording (Schedule.ofText table text')) :
    (Channel.build table name text).outcome = (Channel.build table name text').outcome := by
  have hsame := Builder.applyAll_congr (Builder.start name table) h
  obtain ⟨hbuilder, hfailure⟩ := (Builder.feed_reaches (Builder.start name table) text).trans
    (hsame ▸ (Builder.feed_reaches (Builder.start name table) text').symm)
  unfold Channel.build
  simp only [hbuilder, hfailure]
  split <;> rfl

namespace Source

/-! ## Comments -/

/-- **Removing comments leaves no other difference.** -/
theorem stripComments_replaced {text text' : List Char} (h : ReturnsReplaced text text') :
    ReturnsReplaced (stripComments text) (stripComments text') := by
  -- By the steps of the reader of the first text; the second reader takes the same steps, but for
  -- the carriage return that went with a line feed, whose line feed is left to the next step.
  refine outsideComment.induct
    (fun text => ∀ text', ReturnsReplaced text text' →
      ReturnsReplaced (outsideComment text) (outsideComment text'))
    (fun text => ∀ text', ReturnsReplaced text text' →
      ReturnsReplaced (insideComment text) (insideComment text')) ?_ ?_ ?_ ?_ ?_ ?_ text text' h
  · intro rest ih text' h
    obtain ⟨behind, rfl, hbehind⟩ := h.exists_of_cons_left (by decide)
    obtain ⟨rest', rfl, hrest⟩ := hbehind.exists_of_cons_left (by decide)
    rw [outsideComment, outsideComment]
    exact ih rest' hrest
  · intro c rest hopens ih text' h
    rw [outsideComment.eq_2 _ _ hopens]
    cases h with
    | @keep _ _ rest' h =>
      rw [outsideComment_cons]
      · exact .keep c (ih rest' h)
      · rintro ⟨later, heq⟩
        cases heq
        obtain ⟨later, rfl, -⟩ := h.exists_of_cons_right (by decide)
        exact hopens later rfl rfl
    | @alone _ rest' h =>
      rw [outsideComment_cons (by rintro ⟨_, ⟨⟩⟩)]
      exact .alone (ih rest' h)
    | @pair rest rest' h =>
      have h := ih ('\n' :: rest') (.keep '\n' h)
      rw [outsideComment_cons (by rintro ⟨_, ⟨⟩⟩), outsideComment_cons (by rintro ⟨_, ⟨⟩⟩)] at h ⊢
      obtain ⟨_, heq, h⟩ := h.exists_of_cons_left (by decide)
      cases heq
      exact .pair h
  · intro text' h
    cases h
    exact .nil
  · intro rest ih text' h
    obtain ⟨behind, rfl, hbehind⟩ := h.exists_of_cons_left (by decide)
    obtain ⟨rest', rfl, hrest⟩ := hbehind.exists_of_cons_left (by decide)
    rw [insideComment, insideComment]
    exact ih rest' hrest
  · intro c rest hcloses ih text' h
    rw [insideComment.eq_2 _ _ hcloses]
    cases h with
    | @keep _ _ rest' h =>
      rw [insideComment_cons]
      · exact ih rest' h
      · rintro ⟨later, heq⟩
        cases heq
        obtain ⟨later, rfl, -⟩ := h.exists_of_cons_right (by decide)
        exact hcloses later rfl rfl
    | @alone _ rest' h =>
      rw [insideComment_cons (by rintro ⟨_, ⟨⟩⟩)]
      exact ih rest' h
    | @pair rest rest' h => exact ih ('\n' :: rest') (.keep '\n' h)
  · intro text' h
    cases h
    exact .nil

/-! ## Sections -/

/-- Two sections of one name whose bodies are equal up to carriage returns that were replaced. -/
structure Section.Replaced (s t : Section) : Prop where
  name_eq : s.name = t.name
  body : ReturnsReplaced s.body t.body

theorem cutAtColons_cons {c : Char} (hc : c ≠ ':') (rest : List Char) :
    cutAtColons (c :: rest) = (c :: (cutAtColons rest).1, (cutAtColons rest).2) := by
  simp [cutAtColons, hc]

/-- The cuts are made in the same places. -/
theorem cutAtColons_replaced {text text' : List Char} (h : ReturnsReplaced text text') :
    ReturnsReplaced (cutAtColons text).1 (cutAtColons text').1 ∧
      List.Forall₂ ReturnsReplaced (cutAtColons text).2 (cutAtColons text').2 := by
  induction h with
  | nil => exact ⟨.nil, .nil⟩
  | @keep c rest rest' h ih =>
    by_cases hc : c = ':'
    · simp only [cutAtColons, if_pos hc]
      exact ⟨.nil, .cons ih.1 ih.2⟩
    · rw [cutAtColons_cons hc, cutAtColons_cons hc]
      exact ⟨.keep c ih.1, ih.2⟩
  | alone h ih =>
    rw [cutAtColons_cons (by decide), cutAtColons_cons (by decide)]
    exact ⟨.alone ih.1, ih.2⟩
  | pair h ih =>
    rw [cutAtColons_cons (by decide), cutAtColons_cons (by decide), cutAtColons_cons (by decide)]
    exact ⟨.pair ih.1, ih.2⟩

/-- The name ends where it did: neither character is part of one. -/
theorem Section.ofPiece_replaced {piece piece' : List Char} (h : ReturnsReplaced piece piece') :
    (Section.ofPiece piece).Replaced (Section.ofPiece piece') := by
  have hreturn : Text.isWord '\r' = false := by decide +kernel
  have hfeed : Text.isWord '\n' = false := by decide +kernel
  have hbreak : ∀ {c : Char} (rest : List Char), Text.isWord c = false →
      Section.ofPiece (c :: rest) = ⟨[], c :: rest⟩ := by
    intro c rest hc
    simp [Section.ofPiece, hc]
  induction h with
  | nil => exact ⟨rfl, .nil⟩
  | @keep c rest rest' h ih =>
    cases hc : Text.isWord c with
    | false =>
      rw [hbreak rest hc, hbreak rest' hc]
      exact ⟨rfl, .keep c h⟩
    | true =>
      simp only [Section.ofPiece, List.takeWhile_cons_of_pos hc, List.dropWhile_cons_of_pos hc]
      exact ⟨congrArg (c :: ·) ih.name_eq, ih.body⟩
  | @alone rest rest' h =>
    rw [hbreak rest hreturn, hbreak rest' hfeed]
    exact ⟨rfl, .alone h⟩
  | @pair rest rest' h =>
    rw [hbreak _ hreturn, hbreak rest' hfeed]
    exact ⟨rfl, .pair h⟩

theorem sections_replaced {text text' : List Char} (h : ReturnsReplaced text text') :
    List.Forall₂ Section.Replaced (sections text) (sections text') := by
  unfold sections
  rw [List.forall₂_map_left_iff, List.forall₂_map_right_iff]
  exact (cutAtColons_replaced h).2.imp fun _ _ => Section.ofPiece_replaced

theorem addSections_congr {tempo : Tempo} {found found' : List Section}
    (h : List.Forall₂ Section.Replaced found found') (channels : Array Channel) :
    (addSections tempo channels found).outcome = (addSections tempo channels found').outcome := by
  induction h generalizing channels with
  | nil => rfl
  | @cons s t rest rest' hst _ ih =>
    have hbuilt := @Channel.build_congr Kind.table (String.ofList s.name) _ _
      (Schedule.wording_ofText_congr Kind.table hst.body)
    simp only [addSections, Report.outcome_bind, ← hst.name_eq, hbuilt, ih]

/-! ## Sources -/

/-- The same numbers stand behind a `T`. -/
theorem findTempo_replaced {text text' : List Char} (h : ReturnsReplaced text text') :
    findTempo text = findTempo text' := by
  have hbodies : ∀ {found found' : List Section}, List.Forall₂ Section.Replaced found found' →
      (found.flatMap fun s => Kind.tempo.arguments s.body) =
        found'.flatMap fun s => Kind.tempo.arguments s.body := by
    intro found found' h
    induction h with
    | nil => rfl
    | cons hst _ ih => rw [List.flatMap_cons, List.flatMap_cons, Kind.arguments_congr _ hst.body, ih]
  refine findTempo_congr (congrArg _ ?_)
  rw [map_argument_tempos, map_argument_tempos, hbodies (sections_replaced h),
    Kind.arguments_congr _ (show ReturnsReplaced (header text) (header text') from
      (cutAtColons_replaced h).1)]

theorem compile_replaced (settings : Settings) {text text' : List Char}
    (h : ReturnsReplaced text text') :
    (compile settings text).outcome = (compile settings text').outcome := by
  have hstripped := stripComments_replaced h
  unfold compile
  rw [outcome_compileStripped, outcome_compileStripped]
  unfold start
  simp only [findTempo_replaced hstripped, outcome_compileSections,
    addSections_congr (sections_replaced hstripped)]

/-- **Files and strings compile alike**: a file that holds a text compiles to what the text compiles
to, or fails as the text fails; and so does a text with any of its carriage returns replaced. -/
theorem compile_outcome_lineEnds (settings : Settings) (text : List Char) :
    (∀ (storage : Storage) (path : String), storage.read path = .ok (Utf8.encode text) →
        (compileFile settings storage path).outcome = (compile settings text).outcome) ∧
      ∀ text', ReturnsReplaced text text' →
        (compile settings text').outcome = (compile settings text).outcome := by
  refine ⟨fun storage path hread => ?_, fun text' h => (compile_replaced settings h).symm⟩
  have hbytes : ofBytes (Utf8.encode text) = .ok (normalizeNewlines text) := by
    unfold ofBytes
    rw [Utf8.decode_encode]
  unfold compileFile
  rw [hread, Report.liftM_ok_bind, hbytes, Report.liftM_ok_bind]
  exact (compile_replaced settings (ReturnsReplaced.normalizeNewlines text)).symm

theorem read_song (bytes : List UInt8) :
    Storage.read ⟨[], [(["song"], .file bytes)]⟩ "song" = .ok bytes := by cbv

/-- A comment with a line end in it, and one that keeps a carriage return from a line feed: without
comments the two are one line end in the string, and two in the file. -/
theorem compile_outcome_lineEnds_between :
    let settings : Settings := ⟨.whole 8, .whole 0, .whole 0, .whole 0, rfl, rfl, rfl, rfl⟩
    let text := ":a\r\nT90L/*\r*/8C\r/**/\nD".toList
    let text' := ":a\nT90L/*\r*/8C\n/**/\nD".toList
    let storage : Storage := ⟨[], [(["song"], .file (Utf8.encode text))]⟩
    storage.read "song" = .ok (Utf8.encode text) ∧
      (compileFile settings storage "song").outcome = (compile settings text).outcome ∧
      ReturnsReplaced text text' ∧
      (compile settings text').outcome = (compile settings text).outcome := by
  intro settings text text' storage
  have hreplaced : ReturnsReplaced text text' :=
    .append_left [':', 'a'] (.pair (.append_left "T90L/*\r*/8C".toList (.alone (.refl _))))
  obtain ⟨hfile, hstring⟩ := compile_outcome_lineEnds settings text
  exact ⟨read_song _, hfile storage "song" (read_song _), hreplaced, hstring _ hreplaced⟩

end Source
end Chiptune
