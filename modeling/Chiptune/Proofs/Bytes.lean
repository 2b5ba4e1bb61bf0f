import Mathlib.Algebra.Group.Nat.Defs
import Chiptune.Bytes

/-!
# Bytes read back

The way back from the bytes of a file. A field of some bytes is a number (`Order.number`), and both
file formats of the library are rows of chunks: a name of four bytes, the size of what follows in
four more, and so many bytes of content. They differ in the order of the bytes of a number, and in
whether a content is filled up to an even size.

Chunks are read back from their bytes (`readChunks_flatMap`), one after the other by their sizes
alone (`readChunks_append`).
-/

namespace Chiptune
namespace Bytes

/-! ## Fields -/

/-- Which byte of a number comes first. -/
inductive Order where
  | least
  | greatest
  deriving DecidableEq, Repr

/-- The bytes of a field. -/
def Order.field : Order → Nat → Nat → List UInt8
  | least => littleEndian
  | greatest => bigEndian

/-- The number that bytes hold, the least one first. -/
def number : List UInt8 → Nat
  | [] => 0
  | byte :: rest => byte.toNat + 256 * number rest

/-- The number of a field. -/
def Order.number : Order → List UInt8 → Nat
  | least, bytes => Bytes.number bytes
  | greatest, bytes => Bytes.number bytes.reverse

theorem length_littleEndian (width n : Nat) : (littleEndian width n).length = width := by
  induction width generalizing n with
  | zero => rfl
  | succ width ih => rw [littleEndian, List.length_cons, ih]

@[simp] theorem Order.length_field (order : Order) (width n : Nat) :
    (order.field width n).length = width := by
  cases order with
  | least => exact length_littleEndian width n
  | greatest => exact List.length_reverse.trans (length_littleEndian width n)

theorem toNat_toUInt8 {n : Nat} (h : n < 256) : n.toUInt8.toNat = n :=
  UInt8.toNat_ofNat'.trans (Nat.mod_eq_of_lt h)

theorem number_littleEndian {width n : Nat} (h : n < 256 ^ width) :
    number (littleEndian width n) = n := by
  induction width generalizing n with
  | zero =>
    obtain rfl : n = 0 := by simpa using h
    rfl
  | succ width ih =>
    have hrest : n / 256 < 256 ^ width := by
      rw [Nat.div_lt_iff_lt_mul (by decide), ← Nat.pow_succ]
      exact h
    have hbyte : n.toUInt8.toNat = n % 256 := UInt8.toNat_ofNat'
    rw [littleEndian, number, ih hrest, hbyte]
    omega

/-- A field holds the number that was put into it. -/
theorem Order.number_field (order : Order) {width n : Nat} (h : n < 256 ^ width) :
    order.number (order.field width n) = n := by
  cases order with
  | least => exact number_littleEndian h
  | greatest =>
    show Bytes.number (littleEndian width n).reverse.reverse = n
    rw [List.reverse_reverse, number_littleEndian h]

/-! ## Chunks -/

/-- A piece of a file, by its name and what it holds. -/
structure Chunk where
  name : List UInt8
  content : List UInt8
  deriving DecidableEq, Repr

/-- The bytes of a chunk: the size is that of its content. -/
def Chunk.bytes (order : Order) (chunk : Chunk) : List UInt8 :=
  chunk.name ++ order.field 4 chunk.content.length ++ chunk.content

theorem Chunk.length_bytes (order : Order) (chunk : Chunk) :
    (chunk.bytes order).length = chunk.name.length + 4 + chunk.content.length := by
  rw [bytes, List.length_append, List.length_append, order.length_field]

/-- A chunk that its fields can hold. -/
structure Chunk.Fits (chunk : Chunk) : Prop where
  name : chunk.name.length = 4
  content : chunk.content.length < 0x100000000

/-- The chunks of a file, if it consists of chunks. Behind a content that does not fill up whole
units there are bytes that do not count; at the end of the file they may be missing. -/
def readChunks (order : Order) (unit : Nat) (bytes : List UInt8) : Option (List Chunk) :=
  let size := order.number ((bytes.drop 4).take 4)
  if bytes = [] then some []
  else if 8 + size ≤ bytes.length then
    (readChunks order unit (bytes.drop (8 + size + size % unit))).map
      (⟨bytes.take 4, (bytes.drop 8).take size⟩ :: ·)
  else none
termination_by bytes.length
decreasing_by
  rw [List.length_drop]
  omega

variable {order : Order} {unit : Nat}

theorem readChunks_nil : readChunks order unit [] = some [] := by
  rw [readChunks, if_pos rfl]

/-- **The step.** A chunk is read as it is, whatever its content looks like. -/
theorem readChunks_append {chunk : Chunk} (h : chunk.Fits) (rest : List UInt8) :
    readChunks order unit (chunk.bytes order ++ rest) =
      (readChunks order unit (rest.drop (chunk.content.length % unit))).map (chunk :: ·) := by
  obtain ⟨name, content⟩ := chunk
  obtain ⟨hname, hcontent⟩ := h
  generalize hfield : order.field 4 content.length = field
  have hsize : order.number field = content.length := by
    rw [← hfield, order.number_field hcontent]
  have hfour : field.length = 4 := by rw [← hfield, order.length_field]
  have height : (name ++ field).length = 8 := by rw [List.length_append, hname, hfour]
  generalize hbytes : Chunk.bytes order ⟨name, content⟩ ++ rest = bytes
  have hparts : bytes = name ++ (field ++ (content ++ rest)) := by
    rw [← hbytes, Chunk.bytes, hfield, List.append_assoc, List.append_assoc]
  have hheaded : bytes = name ++ field ++ (content ++ rest) := by
    rw [hparts, ← List.append_assoc]
  have hlength : bytes.length = 8 + content.length + rest.length := by
    rw [hheaded, List.length_append, height, List.length_append, Nat.add_assoc]
  have hbehind : bytes.drop (8 + content.length) = rest := by
    rw [← List.drop_drop, hheaded, List.drop_left' height, List.drop_left]
  have hne : bytes ≠ [] := List.ne_nil_of_length_pos (by omega)
  have hnamed : bytes.take 4 = name := by rw [hparts, List.take_left' hname]
  have hsized : (bytes.drop 4).take 4 = field := by
    rw [hparts, List.drop_left' hname, List.take_left' hfour]
  have hheld : (bytes.drop 8).take content.length = content := by
    rw [hheaded, List.drop_left' height, List.take_left]
  rw [readChunks, if_neg hne, hsized, hsize, if_pos (by omega), hnamed, hheld, ← List.drop_drop,
    hbehind]

/-- Behind the last chunk nothing has to be filled up. -/
theorem readChunks_bytes {chunk : Chunk} (h : chunk.Fits) :
    readChunks order unit (chunk.bytes order) = some [chunk] := by
  rw [← List.append_nil (chunk.bytes order), readChunks_append h, List.drop_nil, readChunks_nil]
  rfl

/-- Chunks that fill up whole units are read back. -/
theorem readChunks_flatMap {chunks : List Chunk}
    (h : ∀ chunk ∈ chunks, chunk.Fits ∧ chunk.content.length % unit = 0) (rest : List UInt8) :
    readChunks order unit (chunks.flatMap (Chunk.bytes order) ++ rest) =
      (readChunks order unit rest).map (chunks ++ ·) := by
  induction chunks with
  | nil => simp
  | cons chunk later ih =>
    obtain ⟨⟨hfits, hfilled⟩, hlater⟩ := List.forall_mem_cons.mp h
    rw [List.flatMap_cons, List.append_assoc, readChunks_append hfits, hfilled, List.drop_zero,
      ih hlater, Option.map_map]
    rfl

end Bytes
end Chiptune
