import Mathlib.Tactic
import Mathlib.Data.BitVec

/-! # Bytes, network byte order and blocks of memory

Bytes are `BitVec 8`. The first half is the big-endian encoding of 16 and 32 bit words and its
inverse. The second half is the C memory primitives on a block that is the list of its bytes:
`readAt` (what a copy out of the block sees), `writeAt` (`memcpy` into it), `moveWithin`
(`memmove` inside it) and `resize` (`realloc`). Reads past the end of a block give the byte 0; the
lemmas that matter assume the range to be inside. -/

namespace Bytes
set_option autoImplicit false

abbrev Byte := BitVec 8

theorem toNat_ofNat_of_lt {w n : ℕ} (h : n < 2 ^ w) : (BitVec.ofNat w n).toNat = n := by
  rw [BitVec.toNat_ofNat, Nat.mod_eq_of_lt h]

/-! ## Network byte order -/

def be16 (a b : Byte) : BitVec 16 := a ++ b

def be32 (a b c d : Byte) : BitVec 32 := a ++ b ++ c ++ d

def be16Bytes (n : BitVec 16) : List Byte := [(n >>> 8).setWidth 8, n.setWidth 8]

def be32Bytes (n : BitVec 32) : List Byte :=
  [(n >>> 24).setWidth 8, (n >>> 16).setWidth 8, (n >>> 8).setWidth 8, n.setWidth 8]

@[simp] theorem be16Bytes_length (n : BitVec 16) : (be16Bytes n).length = 2 := rfl

@[simp] theorem be32Bytes_length (n : BitVec 32) : (be32Bytes n).length = 4 := rfl

theorem be16_toNat (a b : Byte) : (be16 a b).toNat = a.toNat * 256 + b.toNat := by
  rw [be16, BitVec.toNat_append, Nat.shiftLeft_eq, Nat.mul_comm,
    ← Nat.two_pow_add_eq_or_of_lt b.isLt, Nat.mul_comm]

theorem be32_toNat (a b c d : Byte) :
    (be32 a b c d).toNat = ((a.toNat * 256 + b.toNat) * 256 + c.toNat) * 256 + d.toNat := by
  have h : (a ++ b ++ c).toNat = (a.toNat * 256 + b.toNat) * 256 + c.toNat := by
    rw [BitVec.toNat_append, Nat.shiftLeft_eq, Nat.mul_comm, ← Nat.two_pow_add_eq_or_of_lt c.isLt]
    have := be16_toNat a b
    rw [be16] at this
    omega
  rw [be32, BitVec.toNat_append, Nat.shiftLeft_eq, Nat.mul_comm,
    ← Nat.two_pow_add_eq_or_of_lt d.isLt]
  omega

theorem be16_be16Bytes (n : BitVec 16) : be16 ((n >>> 8).setWidth 8) (n.setWidth 8) = n := by
  apply BitVec.eq_of_toNat_eq
  rw [be16_toNat]
  simp only [BitVec.toNat_setWidth, BitVec.toNat_ushiftRight, Nat.shiftRight_eq_div_pow]
  have := n.isLt
  omega

theorem be32_be32Bytes (n : BitVec 32) :
    be32 ((n >>> 24).setWidth 8) ((n >>> 16).setWidth 8) ((n >>> 8).setWidth 8) (n.setWidth 8) =
      n := by
  apply BitVec.eq_of_toNat_eq
  rw [be32_toNat]
  simp only [BitVec.toNat_setWidth, BitVec.toNat_ushiftRight, Nat.shiftRight_eq_div_pow]
  have := n.isLt
  omega

theorem be16Bytes_be16 (a b : Byte) : be16Bytes (be16 a b) = [a, b] := by
  have hb := b.isLt
  have hhigh : (be16 a b >>> 8).setWidth 8 = a := by
    apply BitVec.eq_of_toNat_eq
    rw [BitVec.toNat_setWidth, BitVec.toNat_ushiftRight, be16_toNat, Nat.shiftRight_eq_div_pow]
    omega
  have hlow : (be16 a b).setWidth 8 = b := by
    apply BitVec.eq_of_toNat_eq
    rw [BitVec.toNat_setWidth, be16_toNat]
    omega
  rw [be16Bytes, hhigh, hlow]

theorem be32Bytes_be32 (a b c d : Byte) : be32Bytes (be32 a b c d) = [a, b, c, d] := by
  have hb := b.isLt
  have hc := c.isLt
  have hd := d.isLt
  have byte : ∀ (k : ℕ) (x : Byte), (be32 a b c d).toNat / 2 ^ k % 2 ^ 8 = x.toNat →
      (be32 a b c d >>> k).setWidth 8 = x := by
    intro k x h
    apply BitVec.eq_of_toNat_eq
    rw [BitVec.toNat_setWidth, BitVec.toNat_ushiftRight, Nat.shiftRight_eq_div_pow, h]
  rw [be32_toNat] at byte
  rw [be32Bytes, byte 24 a (by omega), byte 16 b (by omega), byte 8 c (by omega)]
  have hlow : (be32 a b c d).setWidth 8 = d := byte 0 d (by omega)
  rw [hlow]

/-! ## Blocks of memory -/

/-- The `len` bytes of the block from offset `off` on. -/
def readAt (m : List Byte) (off len : ℕ) : List Byte :=
  (m.drop off).take len ++ List.replicate (len - (m.length - off)) 0

/-- The block after `d` was copied to offset `off`. -/
def writeAt (m : List Byte) (off : ℕ) (d : List Byte) : List Byte :=
  m.take off ++ d ++ m.drop (off + d.length)

/-- The block after `len` bytes from `src` on were moved to `dst`; the ranges may overlap. -/
def moveWithin (m : List Byte) (dst src len : ℕ) : List Byte :=
  writeAt m dst (readAt m src len)

/-- The block grown or cut to `len` bytes, its common part kept. -/
def resize (m : List Byte) (len : ℕ) : List Byte :=
  m.take len ++ List.replicate (len - m.length) 0

@[simp] theorem readAt_length (m : List Byte) (off len : ℕ) : (readAt m off len).length = len := by
  simp only [readAt, List.length_append, List.length_take, List.length_drop, List.length_replicate]
  omega

theorem readAt_inside {m : List Byte} {off len : ℕ} (h : off + len ≤ m.length) :
    readAt m off len = (m.drop off).take len := by
  have hz : len - (m.length - off) = 0 := by omega
  rw [readAt, hz, List.replicate_zero, List.append_nil]

theorem writeAt_length {m : List Byte} {off : ℕ} {d : List Byte} (h : off + d.length ≤ m.length) :
    (writeAt m off d).length = m.length := by
  simp only [writeAt, List.length_append, List.length_take, List.length_drop]
  omega

theorem resize_length (m : List Byte) (len : ℕ) : (resize m len).length = len := by
  simp only [resize, List.length_append, List.length_take, List.length_replicate]
  omega

theorem take_resize {m : List Byte} {n len : ℕ} (h : n ≤ m.length) (h' : n ≤ len) :
    (resize m len).take n = m.take n := by
  rw [resize, List.take_append_of_le_length (by rw [List.length_take]; omega), List.take_take]
  congr 1
  omega

/-- Appending by growing the block and copying the new bytes behind the old ones. -/
theorem take_append_writeAt_resize {m d : List Byte} {n : ℕ} (h : n ≤ m.length) :
    (writeAt (resize m (n + d.length)) n d).take (n + d.length) = m.take n ++ d := by
  have hn : (resize m (n + d.length)).take n = m.take n := take_resize h (by omega)
  rw [writeAt, hn, List.take_append_of_le_length (by simp [List.length_take]; omega)]
  apply List.take_of_length_le
  simp [List.length_take]

/-- Removing the first `k` of `k + n` bytes by moving the rest to the front. -/
theorem take_moveWithin_zero {m : List Byte} {k n : ℕ} (h : k + n ≤ m.length) :
    (moveWithin m 0 k n).take n = (m.take (k + n)).drop k := by
  rw [moveWithin, writeAt, List.take_zero, List.nil_append,
    List.take_append_of_le_length (by rw [readAt_length]),
    List.take_of_length_le (by rw [readAt_length]),
    readAt_inside h, List.take_drop, Nat.add_comm]

theorem moveWithin_zero_length {m : List Byte} {k n : ℕ} (h : k + n ≤ m.length) :
    (moveWithin m 0 k n).length = m.length := by
  rw [moveWithin, writeAt_length (by rw [readAt_length]; omega)]

end Bytes
