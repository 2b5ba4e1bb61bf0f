import Mathlib.Data.List.Infix
import Chiptune.Source.Comment

/-!
# Closed comments

Removing comments is work for a whole text: what stands behind a text may close a comment that it
has opened, and its last `/` may open one with the `*` behind it. Where neither happens, comments can
be removed piece by piece (`stripComments_append`).
-/

namespace Chiptune
namespace Source

/-- A text in which every comment that is opened is closed, each at the first `*/` behind its
opening. -/
inductive CommentsClosed : List Char → Prop
  | nil : CommentsClosed []
  | keep {c : Char} {rest : List Char} (opens : ¬ ['/', '*'] <+: c :: rest)
      (closed : CommentsClosed rest) : CommentsClosed (c :: rest)
  | comment {inside rest : List Char} (first : ¬ ['*', '/'] <:+: inside)
      (closed : CommentsClosed rest) :
      CommentsClosed ('/' :: '*' :: (inside ++ '*' :: '/' :: rest))

theorem CommentsClosed.of_not_mem {text : List Char} (h : '/' ∉ text) : CommentsClosed text := by
  induction text with
  | nil => exact .nil
  | cons c rest ih =>
    obtain ⟨hc, hrest⟩ := not_or.mp (mt List.mem_cons.mpr h)
    refine .keep ?_ (ih hrest)
    rintro ⟨behind, hopens⟩
    exact hc (List.cons.inj hopens).1

theorem outsideComment_cons {c : Char} {rest : List Char} (h : ¬ ['/', '*'] <+: c :: rest) :
    outsideComment (c :: rest) = c :: outsideComment rest := by
  rw [outsideComment]
  rintro later rfl rfl
  exact h ⟨later, rfl⟩

theorem insideComment_cons {c : Char} {rest : List Char} (h : ¬ ['*', '/'] <+: c :: rest) :
    insideComment (c :: rest) = insideComment rest := by
  rw [insideComment]
  rintro later rfl rfl
  exact h ⟨later, rfl⟩

/-- A comment ends at the first `*/`. -/
theorem insideComment_append {inside : List Char} (h : ¬ ['*', '/'] <:+: inside)
    (later : List Char) :
    insideComment (inside ++ '*' :: '/' :: later) = outsideComment later := by
  induction inside with
  | nil => rw [List.nil_append, insideComment]
  | cons c rest ih =>
    have hrest : ¬ ['*', '/'] <:+: rest := fun hin => h (hin.trans (List.suffix_cons c rest).isInfix)
    rw [List.cons_append, insideComment_cons, ih hrest]
    -- The closing `*` cannot be taken for the `/` behind a `*` at the end of the comment.
    rintro ⟨behind, hcloses⟩
    obtain ⟨rfl, hslash⟩ := List.cons.inj hcloses
    cases rest with
    | nil => cases hslash
    | cons d rest' =>
      obtain ⟨rfl, -⟩ := List.cons.inj hslash
      exact h (List.prefix_append ['*', '/'] rest').isInfix

/-- **Comments are removed piece by piece**, if those of the first piece are closed and the second
piece does not begin with the `*` that could open one. -/
theorem stripComments_append {text later : List Char} (h : CommentsClosed text)
    (hlater : later.head? ≠ some '*') :
    stripComments (text ++ later) = stripComments text ++ stripComments later := by
  unfold stripComments
  induction h with
  | nil => rfl
  | @keep c rest opens closed ih =>
    rw [List.cons_append, outsideComment_cons opens, outsideComment_cons, ih, List.cons_append]
    rintro ⟨behind, hopens⟩
    obtain ⟨rfl, hstar⟩ := List.cons.inj hopens
    cases rest with
    | nil =>
      rw [List.nil_append] at hstar
      exact hlater (by rw [← hstar]; rfl)
    | cons d rest' =>
      obtain ⟨rfl, -⟩ := List.cons.inj hstar
      exact opens (List.prefix_append ['/', '*'] rest')
  | @comment inside rest first closed ih =>
    rw [List.cons_append, List.cons_append, outsideComment, outsideComment, List.append_assoc,
      List.cons_append, List.cons_append, insideComment_append first, insideComment_append first, ih]

theorem stripComments_colon (rest : List Char) :
    stripComments (':' :: rest) = ':' :: stripComments rest := by
  refine outsideComment_cons ?_
  rintro ⟨later, h⟩
  cases h

end Source
end Chiptune
