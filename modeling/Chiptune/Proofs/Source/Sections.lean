import Chiptune.Proofs.Instruction.Shape
import Chiptune.Source.Section

/-!
# Sections and the text they are cut from

Cutting a source into sections loses nothing and leaves no choice: a header and sections are what a
source is cut into iff they are well formed and the source is what they are written as
(`sections_eq_iff`). So a source can be read off its sections, and sections off a source.

There are two cuts, and one law for each. A text has one cut at its colons (`cutAtColons_eq_iff`),
and a piece behind a colon has one cut at the end of its first word (`Section.ofPiece_eq_iff`).
-/

namespace Chiptune
namespace Source

/-! ## Pieces between colons -/

/-- Pieces with a colon between each and the next. -/
def joinPieces (front : List Char) (pieces : List (List Char)) : List Char :=
  front ++ pieces.flatMap (':' :: ·)

theorem joinPieces_cons (front piece : List Char) (pieces : List (List Char)) :
    joinPieces front (piece :: pieces) = front ++ ':' :: joinPieces piece pieces := by
  simp [joinPieces]

theorem colon_not_mem_cutAtColons (text : List Char) :
    ':' ∉ (cutAtColons text).1 ∧ ∀ piece ∈ (cutAtColons text).2, ':' ∉ piece := by
  induction text with
  | nil => simp [cutAtColons]
  | cons c rest ih =>
    obtain ⟨hfront, hpieces⟩ := ih
    by_cases h : c = ':'
    · simp only [cutAtColons, h, if_true]
      exact ⟨List.not_mem_nil, List.forall_mem_cons.mpr ⟨hfront, hpieces⟩⟩
    · simp only [cutAtColons, h, if_false, List.mem_cons, not_or]
      exact ⟨⟨Ne.symm h, hfront⟩, hpieces⟩

/-- No cut is made in a text without colons, whatever stands behind it. -/
theorem cutAtColons_append_of_not_mem {front : List Char} (h : ':' ∉ front) (text : List Char) :
    cutAtColons (front ++ text) = (front ++ (cutAtColons text).1, (cutAtColons text).2) := by
  induction front with
  | nil => rfl
  | cons c rest ih =>
    obtain ⟨hc, hrest⟩ := not_or.mp (mt List.mem_cons.mpr h)
    rw [List.cons_append, cutAtColons, ih hrest]
    simp [Ne.symm hc]

theorem cutAtColons_joinPieces {front : List Char} {pieces : List (List Char)} (h : ':' ∉ front)
    (hpieces : ∀ piece ∈ pieces, ':' ∉ piece) :
    cutAtColons (joinPieces front pieces) = (front, pieces) := by
  induction pieces generalizing front with
  | nil =>
    rw [joinPieces, cutAtColons_append_of_not_mem h]
    simp [cutAtColons]
  | cons piece rest ih =>
    obtain ⟨hpiece, hrest⟩ := List.forall_mem_cons.mp hpieces
    rw [joinPieces_cons, cutAtColons_append_of_not_mem h, cutAtColons, ih hpiece hrest]
    simp

/-- **A text has one cut at its colons.** -/
theorem cutAtColons_eq_iff {text front : List Char} {pieces : List (List Char)} :
    cutAtColons text = (front, pieces) ↔
      ':' ∉ front ∧ (∀ piece ∈ pieces, ':' ∉ piece) ∧ joinPieces front pieces = text := by
  constructor
  · intro h
    have hcolon := colon_not_mem_cutAtColons text
    have hjoin := cutAtColons_join text
    rw [h] at hcolon hjoin
    exact ⟨hcolon.1, hcolon.2, hjoin⟩
  · rintro ⟨hfront, hpieces, rfl⟩
    exact cutAtColons_joinPieces hfront hpieces

/-- The header is what stands before the first colon, or all there is. -/
theorem header_eq_takeWhile (text : List Char) : header text = text.takeWhile (· ≠ ':') := by
  induction text with
  | nil => rfl
  | cons c rest ih =>
    unfold header at ih ⊢
    by_cases h : c = ':'
    · simp [cutAtColons, h]
    · simp [cutAtColons, h, ih]

/-! ## Names and bodies -/

/-- A section that can stand in a source: the name is a word, and nothing in the body could be taken
for a part of the name or for the start of another section. -/
structure Section.WellFormed (s : Section) : Prop where
  isWord_of_mem_name : ∀ c ∈ s.name, Text.isWord c = true
  colon_not_mem_body : ':' ∉ s.body
  head_body : ∀ c ∈ s.body.head?, Text.isWord c = false

theorem colon_not_mem_name {name : List Char} (h : ∀ c ∈ name, Text.isWord c = true) :
    ':' ∉ name := fun hmem => absurd (h ':' hmem) (by decide +kernel)

/-- What a section is written as, behind its colon. -/
def Section.text (s : Section) : List Char := s.name ++ s.body

/-- **A piece has one cut at the end of its first word.** -/
theorem Section.ofPiece_eq_iff {piece : List Char} {s : Section} :
    Section.ofPiece piece = s ↔
      (∀ c ∈ s.name, Text.isWord c = true) ∧ StopsAt Text.isWord s.body ∧ s.text = piece := by
  constructor
  · rintro rfl
    exact ⟨fun c hc => List.mem_takeWhile_imp hc, stopsAt_dropWhile _ _,
      List.takeWhile_append_dropWhile⟩
  · rintro ⟨hname, hbody, rfl⟩
    unfold Section.ofPiece Section.text
    rw [takeWhile_append_of_stopsAt hname hbody, dropWhile_append_of_stopsAt hname hbody]

theorem Section.text_ofPiece (piece : List Char) : (Section.ofPiece piece).text = piece :=
  (Section.ofPiece_eq_iff.mp rfl).2.2

/-- A section is well formed iff no colon cuts its text and it is what its text is cut into. -/
theorem Section.wellFormed_iff {s : Section} :
    s.WellFormed ↔ ':' ∉ s.text ∧ Section.ofPiece s.text = s := by
  rw [Section.ofPiece_eq_iff]
  constructor
  · rintro ⟨hname, hcolon, hbody⟩
    exact ⟨List.not_mem_append (colon_not_mem_name hname) hcolon, hname, hbody, rfl⟩
  · rintro ⟨hcolon, hname, hbody, -⟩
    exact ⟨hname, fun hmem => hcolon (List.mem_append_right _ hmem), hbody⟩

/-! ## Sources -/

/-- **Sections are a lossless reading of a source.** What a source is cut into is well formed, and
put together again it is the source; and header and sections that are well formed are what the text
that they make is cut into. -/
theorem sections_eq_iff {text front : List Char} {parts : List Section} :
    (text.takeWhile (· ≠ ':') = front ∧ sections text = parts) ↔
      ':' ∉ front ∧ (∀ s ∈ parts, s.WellFormed) ∧
        front ++ parts.flatMap (fun s => ':' :: (s.name ++ s.body)) = text := by
  rw [← header_eq_takeWhile]
  constructor
  · rintro ⟨rfl, rfl⟩
    obtain ⟨hcolon, hpieces, hjoin⟩ := cutAtColons_eq_iff.mp (rfl : cutAtColons text = _)
    refine ⟨hcolon, fun s hs => ?_, ?_⟩
    · obtain ⟨piece, hpiece, rfl⟩ := List.mem_map.mp hs
      rw [Section.wellFormed_iff, Section.text_ofPiece]
      exact ⟨hpieces piece hpiece, rfl⟩
    · have htext : (sections text).flatMap (fun s => ':' :: s.text) =
          (cutAtColons text).2.flatMap (':' :: ·) := by
        simp only [sections, List.flatMap_map, Section.text_ofPiece]
      exact (congrArg (header text ++ ·) htext).trans hjoin
  · rintro ⟨hcolon, hparts, htext⟩
    have hpieces : ∀ piece ∈ parts.map Section.text, ':' ∉ piece :=
      List.forall_mem_map.mpr fun s hs => (Section.wellFormed_iff.mp (hparts s hs)).1
    have hcut : cutAtColons text = (front, parts.map Section.text) := by
      refine cutAtColons_eq_iff.mpr ⟨hcolon, hpieces, ?_⟩
      rw [← htext, joinPieces, List.flatMap_map]
      rfl
    unfold header sections
    rw [hcut, List.map_map]
    have hkept : parts.map (Section.ofPiece ∘ Section.text) = parts.map id :=
      List.map_congr_left fun s hs => (Section.wellFormed_iff.mp (hparts s hs)).2
    exact ⟨rfl, hkept.trans (List.map_id parts)⟩

example : sections "T90::1٣a-b:".toList =
    [⟨[], []⟩, ⟨"1٣a".toList, "-b".toList⟩, ⟨[], []⟩] := by decide +kernel

end Source
end Chiptune
