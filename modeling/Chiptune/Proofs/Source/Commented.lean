import Chiptune.Proofs.Source.Comments

/-!
# A source and its comments

Every source is pieces with comments between them, and it is so in one way only (`Commented`,
`text_injective`, `exists_text_eq`): no piece has an opening in it, and a comment ends at the first
closing behind its opening, or runs to the end of the source if there is none. What is left of the
source without its comments is the pieces (`stripComments_text`). They are joined up and not looked
at again, so two of them may well make a new opening.

An opening is two different characters, and so is a closing. Therefore neither overlaps with itself,
and the first of them splits a text in one way (`eq_of_split_eq`).
-/

namespace Chiptune
namespace Source

/-! ## The first of two marks -/

/-- The two marks stand nowhere in the text, the one right behind the other. -/
def Lacks (a b : Char) (text : List Char) : Prop := ¬ [a, b] <:+: text

variable {a b : Char}

theorem lacks_nil : Lacks a b [] := fun hin => by simpa using hin.length_le

theorem Lacks.tail {c : Char} {text : List Char} (h : Lacks a b (c :: text)) : Lacks a b text :=
  fun hin => h (hin.trans (List.suffix_cons c text).isInfix)

theorem Lacks.append_of_not_mem {front text : List Char} (ha : a ∉ front) (h : Lacks a b text) :
    Lacks a b (front ++ text) := by
  induction front with
  | nil => exact h
  | cons c front ih =>
    obtain ⟨hc, hfront⟩ := not_or.mp (mt List.mem_cons.mpr ha)
    intro hin
    rcases List.infix_cons_iff.mp hin with ⟨rest, hrest⟩ | hin
    · exact hc (List.cons.inj hrest).1
    · exact ih hfront hin

/-- Two marks that stand in a text stand somewhere first. -/
theorem exists_split {text : List Char} (h : ¬ Lacks a b text) :
    ∃ front rest, Lacks a b front ∧ text = front ++ a :: b :: rest := by
  induction text with
  | nil => exact absurd lacks_nil h
  | cons c text ih =>
    by_cases hhead : [a, b] <+: c :: text
    · obtain ⟨rest, hrest⟩ := hhead
      exact ⟨[], rest, lacks_nil, hrest.symm⟩
    · obtain ⟨front, rest, hfront, rfl⟩ := ih fun hlacks => h fun hin =>
        (List.infix_cons_iff.mp hin).elim hhead hlacks
      refine ⟨c :: front, rest, fun hin => ?_, rfl⟩
      rcases List.infix_cons_iff.mp hin with hin | hin
      · exact hhead (hin.trans (List.prefix_append (c :: front) _))
      · exact hfront hin

/-- No more text fits in front of the first two marks. -/
theorem eq_nil_of_split_eq (hne : a ≠ b) {front more rest rest' : List Char}
    (h : Lacks a b (front ++ more)) (heq : a :: b :: rest = more ++ a :: b :: rest') :
    more = [] := by
  cases more with
  | nil => rfl
  | cons c more =>
    obtain ⟨rfl, hrest⟩ := List.cons.inj heq
    cases more with
    | nil => exact absurd (List.cons.inj hrest).1.symm hne
    | cons d more =>
      obtain ⟨rfl, -⟩ := List.cons.inj hrest
      exact absurd ⟨front, more, by simp⟩ h

/-- **The first of two marks splits a text in one way**, if the marks differ. -/
theorem eq_of_split_eq (hne : a ≠ b) {front front' rest rest' : List Char} (h : Lacks a b front)
    (h' : Lacks a b front') (heq : front ++ a :: b :: rest = front' ++ a :: b :: rest') :
    front = front' ∧ rest = rest' := by
  have hfront : front = front' := by
    rcases List.append_eq_append_iff.mp heq with ⟨more, rfl, hmore⟩ | ⟨more, rfl, hmore⟩
    · rw [eq_nil_of_split_eq hne h' hmore, List.append_nil]
    · rw [eq_nil_of_split_eq hne h hmore, List.append_nil]
  subst hfront
  exact ⟨rfl, by simpa using heq⟩

theorem not_lacks_append (front rest : List Char) : ¬ Lacks a b (front ++ a :: b :: rest) :=
  fun h => h ⟨front, rest, by simp⟩

/-! ## Pieces and comments -/

/-- A source taken apart at its comments. -/
inductive Commented where
  /-- The last piece, up to the end of the source. -/
  | plain (piece : List Char) (hpiece : Lacks '/' '*' piece)
  /-- The last piece, and a comment that is never closed. -/
  | unclosed (piece inside : List Char) (hpiece : Lacks '/' '*' piece)
      (hinside : Lacks '*' '/' inside)
  /-- A piece and a comment, and what follows the closing of the comment. -/
  | closed (piece inside : List Char) (hpiece : Lacks '/' '*' piece)
      (hinside : Lacks '*' '/' inside) (rest : Commented)

namespace Commented

/-- The source as it is written. -/
def text : Commented → List Char
  | plain piece _ => piece
  | unclosed piece inside _ _ => piece ++ '/' :: '*' :: inside
  | closed piece inside _ _ rest => piece ++ '/' :: '*' :: (inside ++ '*' :: '/' :: rest.text)

/-- What stands outside the comments. -/
def pieces : Commented → List (List Char)
  | plain piece _ => [piece]
  | unclosed piece _ _ _ => [piece]
  | closed piece _ _ _ rest => piece :: rest.pieces

/-- Every text can be taken apart. By induction on how much text is left behind a comment. -/
theorem exists_text_eq (source : List Char) : ∃ c : Commented, c.text = source := by
  induction hlength : source.length using Nat.strong_induction_on generalizing source with
  | _ n ih =>
    by_cases hopens : Lacks '/' '*' source
    · exact ⟨plain source hopens, rfl⟩
    · obtain ⟨piece, behind, hpiece, rfl⟩ := exists_split hopens
      by_cases hcloses : Lacks '*' '/' behind
      · exact ⟨unclosed piece behind hpiece hcloses, rfl⟩
      · obtain ⟨inside, later, hinside, rfl⟩ := exists_split hcloses
        obtain ⟨rest, rfl⟩ := ih later.length (by simp at hlength; omega) later rfl
        exact ⟨closed piece inside hpiece hinside rest, rfl⟩

/-- **A text is taken apart in one way.** -/
theorem text_injective : Function.Injective text := by
  intro c
  induction c with
  | plain piece hpiece =>
    intro c' h
    cases c' with
    | plain => subst h; rfl
    | unclosed => subst h; exact absurd hpiece (not_lacks_append _ _)
    | closed => subst h; exact absurd hpiece (not_lacks_append _ _)
  | unclosed piece inside hpiece hinside =>
    intro c' h
    cases c' with
    | plain _ hpiece' => subst h; exact absurd hpiece' (not_lacks_append _ _)
    | unclosed _ _ hpiece' =>
      obtain ⟨rfl, rfl⟩ := eq_of_split_eq (by decide) hpiece hpiece' h
      rfl
    | closed _ _ hpiece' =>
      obtain ⟨rfl, rfl⟩ := eq_of_split_eq (by decide) hpiece hpiece' h
      exact absurd hinside (not_lacks_append _ _)
  | closed piece inside hpiece hinside rest ih =>
    intro c' h
    cases c' with
    | plain _ hpiece' => subst h; exact absurd hpiece' (not_lacks_append _ _)
    | unclosed _ _ hpiece' hinside' =>
      obtain ⟨rfl, rfl⟩ := eq_of_split_eq (by decide) hpiece hpiece' h
      exact absurd hinside' (not_lacks_append _ _)
    | closed _ _ hpiece' hinside' rest' =>
      obtain ⟨rfl, hbehind⟩ := eq_of_split_eq (by decide) hpiece hpiece' h
      obtain ⟨rfl, hrest⟩ := eq_of_split_eq (by decide) hinside hinside' hbehind
      rw [ih hrest]

end Commented

/-! ## What is left -/

theorem CommentsClosed.of_lacks {piece : List Char} (h : Lacks '/' '*' piece) :
    CommentsClosed piece := by
  induction piece with
  | nil => exact .nil
  | cons c rest ih => exact .keep (fun hopens => h hopens.isInfix) (ih h.tail)

theorem stripComments_of_lacks {piece : List Char} (h : Lacks '/' '*' piece) :
    stripComments piece = piece := by
  induction piece with
  | nil => rfl
  | cons c rest ih =>
    exact (outsideComment_cons fun hopens => h hopens.isInfix).trans (congrArg _ (ih h.tail))

/-- A comment that is never closed takes all that is behind its opening. -/
theorem insideComment_of_lacks {inside : List Char} (h : Lacks '*' '/' inside) :
    insideComment inside = [] := by
  induction inside with
  | nil => rfl
  | cons c rest ih =>
    rw [insideComment_cons fun hcloses => h hcloses.isInfix]
    exact ih h.tail

theorem stripComments_opened {piece : List Char} (h : Lacks '/' '*' piece) (behind : List Char) :
    stripComments (piece ++ '/' :: '*' :: behind) = piece ++ insideComment behind := by
  rw [stripComments_append (.of_lacks h) (by simp), stripComments_of_lacks h]
  rfl

theorem Commented.stripComments_text (c : Commented) :
    stripComments c.text = c.pieces.flatten := by
  induction c with
  | plain piece hpiece =>
    rw [text, stripComments_of_lacks hpiece, pieces, List.flatten_singleton]
  | unclosed piece inside hpiece hinside =>
    rw [text, stripComments_opened hpiece, insideComment_of_lacks hinside, pieces,
      List.flatten_singleton, List.append_nil]
  | closed piece inside hpiece hinside rest ih =>
    rw [text, stripComments_opened hpiece, insideComment_append hinside, pieces, List.flatten_cons]
    exact congrArg (piece ++ ·) ih

/-- **Removing comments removes exactly the comments.** Every source is taken apart at its comments
in one way, and of every source that pieces and comments make the pieces are left. -/
theorem stripComments_eq_pieces :
    (∀ source : List Char, ∃! c : Commented, c.text = source) ∧
      ∀ c : Commented, stripComments c.text = c.pieces.flatten := by
  refine ⟨fun source => ?_, Commented.stripComments_text⟩
  obtain ⟨c, hc⟩ := Commented.exists_text_eq source
  exact ⟨c, hc, fun c' hc' => Commented.text_injective (hc'.trans hc.symm)⟩

/-- A comment that does not close itself, one that is closed at once and makes a new opening, and
one that is never closed. -/
example : stripComments "a/*/b*/c//**/*d/*e".toList = "ac/*d".toList := by decide

end Source
end Chiptune
