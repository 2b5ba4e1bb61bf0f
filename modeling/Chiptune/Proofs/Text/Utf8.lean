import Mathlib.Tactic.Common
import Chiptune.Text.Utf8

/-!
# Reading what UTF-8 wrote

The bytes of a text are those of its characters, one character after the other; the standard library
has them for one character. Reading them gives the text back (`decode_encode`).

The reader goes byte by byte with a character under construction. So there is a lemma for a first
byte, of each length, and one for a byte that goes on; a character of four bytes is the first and
three of the second.
-/

namespace Chiptune
namespace Text
namespace Utf8

/-- The bytes of a text. -/
def encode (text : List Char) : List UInt8 := text.flatMap String.utf8EncodeChar

theorem toNat_ofNat_of_lt {n : Nat} (h : n < 256) : (UInt8.ofNat n).toNat = n := by
  rw [UInt8.toNat_ofNat']
  exact Nat.mod_eq_of_lt h

/-- What a first byte asks for, by its number. -/
theorem continuations?_ofNat {n : Nat} (h : n < 256) :
    continuations? (.ofNat n) =
      if n ≤ 0x7f then some (0, 0x80, 0xbf)
      else if 0xc2 ≤ n ∧ n ≤ 0xdf then some (1, 0x80, 0xbf)
      else if n = 0xe0 then some (2, 0xa0, 0xbf)
      else if n = 0xed then some (2, 0x80, 0x9f)
      else if 0xe1 ≤ n ∧ n ≤ 0xef then some (2, 0x80, 0xbf)
      else if n = 0xf0 then some (3, 0x90, 0xbf)
      else if 0xf1 ≤ n ∧ n ≤ 0xf3 then some (3, 0x80, 0xbf)
      else if n = 0xf4 then some (3, 0x80, 0x8f)
      else none := by
  simp only [continuations?, UInt8.le_iff_toNat_le, toNat_ofNat_of_lt h, Bool.and_eq_true,
    decide_eq_true_eq, beq_iff_eq, ← UInt8.toNat_inj]
  rfl

section

variable {position n missing value : Nat} {seen : List UInt8} {low high : UInt8}

theorem within_bounds (h : n < 256) (hlow : low.toNat ≤ n) (hhigh : n ≤ high.toNat) :
    (decide (low ≤ .ofNat n) && decide (UInt8.ofNat n ≤ high)) = true := by
  simp only [Bool.and_eq_true, decide_eq_true_eq, UInt8.le_iff_toNat_le, toNat_ofNat_of_lt h]
  exact ⟨hlow, hhigh⟩

/-- The last byte of a character. -/
theorem decodeFrom_last (hlast : missing ≤ 1) (h : n < 256) (hlow : low.toNat ≤ n)
    (hhigh : n ≤ high.toNat) (rest : List UInt8) :
    decodeFrom position (some ⟨seen, missing, low, high, value⟩) (.ofNat n :: rest) =
      decodeFrom (position + 1) none rest >>= fun later =>
        .ok (Char.ofNat (0x40 * value + n % 0x40) :: later) := by
  rw [decodeFrom, if_pos (within_bounds h hlow hhigh)]
  simp only [toNat_ofNat_of_lt h, if_pos hlast]
  rfl

/-- A byte behind which the character goes on. -/
theorem decodeFrom_more (hmore : 1 < missing) (h : n < 256) (hlow : low.toNat ≤ n)
    (hhigh : n ≤ high.toNat) (rest : List UInt8) :
    decodeFrom position (some ⟨seen, missing, low, high, value⟩) (.ofNat n :: rest) =
      decodeFrom (position + 1)
        (some ⟨seen ++ [.ofNat n], missing - 1, 0x80, 0xbf, 0x40 * value + n % 0x40⟩) rest := by
  rw [decodeFrom, if_pos (within_bounds h hlow hhigh)]
  simp only [toNat_ofNat_of_lt h, if_neg (Nat.not_le.mpr hmore)]

/-- The first byte of a character that is longer. -/
theorem decodeFrom_none {k : Nat}
    (hfirst : continuations? (.ofNat n) = some (k + 1, low, high)) (rest : List UInt8) :
    decodeFrom position none (.ofNat n :: rest) =
      decodeFrom (position + 1)
        (some ⟨[.ofNat n], k + 1, low, high, payload (.ofNat n) (k + 1)⟩) rest := by
  rw [decodeFrom, hfirst]

end

/-- The second of three bytes is within the bounds that the first one sets: no character is written
longer than it has to be, and none is half of a surrogate pair. -/
theorem exists_bounds_of_three {v : Nat} (hlong : 0x7ff < v) (hlast : v ≤ 0xffff)
    (hvalid : v < 0xd800 ∨ 0xdfff < v) :
    ∃ low high, continuations? (.ofNat (v / 4096 % 16 + 224)) = some (2, low, high) ∧
      low.toNat ≤ v / 64 % 64 + 128 ∧ v / 64 % 64 + 128 ≤ high.toNat := by
  rw [continuations?_ofNat (by omega), if_neg (by omega), if_neg (by omega)]
  split
  · exact ⟨0xa0, 0xbf, rfl, show 0xa0 ≤ _ by omega, show _ ≤ 0xbf by omega⟩
  · split
    · exact ⟨0x80, 0x9f, rfl, show 0x80 ≤ _ by omega, show _ ≤ 0x9f by omega⟩
    · rw [if_pos (by omega)]
      exact ⟨0x80, 0xbf, rfl, show 0x80 ≤ _ by omega, show _ ≤ 0xbf by omega⟩

/-- The second of four bytes likewise: no character is past the last one. -/
theorem exists_bounds_of_four {v : Nat} (hlong : 0xffff < v) (hlast : v < 0x110000) :
    ∃ low high, continuations? (.ofNat (v / 262144 % 8 + 240)) = some (3, low, high) ∧
      low.toNat ≤ v / 4096 % 64 + 128 ∧ v / 4096 % 64 + 128 ≤ high.toNat := by
  rw [continuations?_ofNat (by omega), if_neg (by omega), if_neg (by omega), if_neg (by omega),
    if_neg (by omega), if_neg (by omega)]
  split
  · exact ⟨0x90, 0xbf, rfl, show 0x90 ≤ _ by omega, show _ ≤ 0xbf by omega⟩
  · split
    · exact ⟨0x80, 0xbf, rfl, show 0x80 ≤ _ by omega, show _ ≤ 0xbf by omega⟩
    · rw [if_pos (by omega)]
      exact ⟨0x80, 0x8f, rfl, show 0x80 ≤ _ by omega, show _ ≤ 0x8f by omega⟩

/-- **One character.** -/
theorem decodeFrom_utf8EncodeChar (c : Char) (position : Nat) (rest : List UInt8) :
    ∃ next, decodeFrom position none (String.utf8EncodeChar c ++ rest) =
      decodeFrom next none rest >>= fun later => .ok (c :: later) := by
  have hvalid : c.toNat < 0xd800 ∨ 0xdfff < c.toNat ∧ c.toNat < 0x110000 := c.valid
  have hc : ∀ {n}, n = c.toNat → Char.ofNat n = c := fun h => h ▸ Char.ofNat_toNat c
  have hval : c.val.toNat = c.toNat := rfl
  unfold String.utf8EncodeChar
  rw [hval]
  generalize c.toNat = v at *
  simp only
  -- By the number of bytes: what the reader has put together at the last of them is the character.
  split
  · refine ⟨position + 1, ?_⟩
    rw [List.singleton_append, decodeFrom, continuations?_ofNat (by omega), if_pos (by omega)]
    simp only [toNat_ofNat_of_lt (show v < 256 by omega), hc]
    rfl
  split
  · refine ⟨position + 1 + 1, ?_⟩
    have hfirst : continuations? (.ofNat (v / 64 % 32 + 192)) = some (1, 0x80, 0xbf) := by
      rw [continuations?_ofNat (by omega), if_neg (by omega), if_pos (by omega)]
    simp only [List.cons_append, List.nil_append]
    rw [decodeFrom_none hfirst,
      decodeFrom_last (by decide) (by omega) (show 0x80 ≤ _ by omega) (show _ ≤ 0xbf by omega), hc]
    simp only [payload, toNat_ofNat_of_lt (show v / 64 % 32 + 192 < 256 by omega)]
    omega
  split
  · refine ⟨position + 1 + 1 + 1, ?_⟩
    obtain ⟨low, high, hfirst, hlow, hhigh⟩ :=
      @exists_bounds_of_three v (by omega) (by omega) (by omega)
    simp only [List.cons_append, List.nil_append]
    rw [decodeFrom_none hfirst, decodeFrom_more (by decide) (by omega) hlow hhigh,
      decodeFrom_last (by decide) (by omega) (show 0x80 ≤ _ by omega) (show _ ≤ 0xbf by omega), hc]
    simp only [payload, toNat_ofNat_of_lt (show v / 4096 % 16 + 224 < 256 by omega)]
    omega
  · refine ⟨position + 1 + 1 + 1 + 1, ?_⟩
    obtain ⟨low, high, hfirst, hlow, hhigh⟩ := @exists_bounds_of_four v (by omega) (by omega)
    simp only [List.cons_append, List.nil_append]
    rw [decodeFrom_none hfirst, decodeFrom_more (by decide) (by omega) hlow hhigh,
      decodeFrom_more (by decide) (by omega) (show 0x80 ≤ _ by omega) (show _ ≤ 0xbf by omega),
      decodeFrom_last (by decide) (by omega) (show 0x80 ≤ _ by omega) (show _ ≤ 0xbf by omega), hc]
    simp only [payload, toNat_ofNat_of_lt (show v / 262144 % 8 + 240 < 256 by omega)]
    omega

/-- **Reading a text undoes writing it.** -/
theorem decode_encode (text : List Char) : decode (encode text) = .ok text := by
  have hfrom : ∀ position, decodeFrom position none (encode text) = .ok text := by
    induction text with
    | nil => exact fun position => rfl
    | cons c rest ih =>
      intro position
      obtain ⟨next, hnext⟩ := decodeFrom_utf8EncodeChar c position (encode rest)
      have hbytes : encode (c :: rest) = String.utf8EncodeChar c ++ encode rest :=
        List.flatMap_cons
      rw [hbytes, hnext, ih next]
      rfl
  exact hfrom 0

end Utf8
end Text
end Chiptune
