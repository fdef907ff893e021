import MyIp.Foundations.Bytes

/-! # The bits of a block of bytes

Bit `k` of a block is counted from the front, the highest bit of a byte first. Two blocks have the
same first `n` bits if their first `n / 8` bytes are the same, and so is what a mask of `n % 8` ones
leaves of the byte after them. -/

namespace Bytes
set_option autoImplicit false

def bitAt (bs : List Byte) (k : ℕ) : Bool := (bs.getD (k / 8) 0).getMsbD (k % 8)

/-- The byte whose first `n` bits are set, `0xff << (8 - n)`. -/
def leadingOnes (n : ℕ) : Byte := (0xff : Byte) <<< (8 - n)

theorem bitAt_byte (bs : List Byte) (i : ℕ) {j : ℕ} (h : j < 8) :
    bitAt bs (8 * i + j) = (bs.getD i 0).getMsbD j := by
  have hi : (8 * i + j) / 8 = i := by omega
  have hj : (8 * i + j) % 8 = j := by omega
  rw [bitAt, hi, hj]

theorem leadingOnes_getMsbD (n : ℕ) {j : ℕ} (hn : n ≤ 8) :
    (leadingOnes n).getMsbD j = decide (j < n) := by
  have hones : (0xff : Byte) = BitVec.allOnes 8 := by decide
  rw [leadingOnes, BitVec.getMsbD_shiftLeft, hones, BitVec.getMsbD_allOnes]
  exact decide_eq_decide.mpr (by omega)

theorem and_leadingOnes_eq_iff (x y : Byte) {n : ℕ} (hn : n ≤ 8) :
    x &&& leadingOnes n = y &&& leadingOnes n ↔ ∀ j < n, x.getMsbD j = y.getMsbD j := by
  constructor
  · intro h j hj
    have hbit := congrArg (BitVec.getMsbD · j) h
    simpa only [BitVec.getMsbD_and, leadingOnes_getMsbD n hn, decide_eq_true hj,
      Bool.and_true] using hbit
  · intro h
    apply BitVec.eq_of_getMsbD_eq
    intro j _
    rw [BitVec.getMsbD_and, BitVec.getMsbD_and, leadingOnes_getMsbD n hn]
    by_cases hj : j < n
    · rw [h j hj]
    · rw [decide_eq_false hj, Bool.and_false, Bool.and_false]

theorem take_eq_iff_getD {xs ys : List Byte} {n : ℕ} (hxs : n ≤ xs.length) (hys : n ≤ ys.length) :
    xs.take n = ys.take n ↔ ∀ i < n, xs.getD i 0 = ys.getD i 0 := by
  have hget : ∀ zs : List Byte, n ≤ zs.length → ∀ i < n, zs[i]? = some (zs.getD i 0) := by
    intro zs hzs i hi
    rw [List.getD_eq_getElem?_getD, List.getElem?_eq_getElem (by omega), Option.getD_some]
  constructor
  · intro h i hi
    have hsame := congrArg (·[i]?) h
    simp only [List.getElem?_take_of_lt hi, hget xs hxs i hi, hget ys hys i hi] at hsame
    exact Option.some.inj hsame
  · intro h
    apply List.ext_getElem?
    intro i
    by_cases hi : i < n
    · rw [List.getElem?_take_of_lt hi, List.getElem?_take_of_lt hi, hget xs hxs i hi,
        hget ys hys i hi, h i hi]
    · rw [List.getElem?_take_eq_none (by omega), List.getElem?_take_eq_none (by omega)]

/-- The comparison by bytes and a mask is one by bits. -/
theorem bits_eq_iff {xs ys : List Byte} {n : ℕ} (hxs : n ≤ 8 * xs.length)
    (hys : n ≤ 8 * ys.length) :
    (xs.take (n / 8) = ys.take (n / 8) ∧
      xs.getD (n / 8) 0 &&& leadingOnes (n % 8) = ys.getD (n / 8) 0 &&& leadingOnes (n % 8)) ↔
      ∀ k < n, bitAt xs k = bitAt ys k := by
  rw [take_eq_iff_getD (by omega) (by omega), and_leadingOnes_eq_iff _ _ (by omega)]
  constructor
  · rintro ⟨hbytes, hbits⟩ k hk
    by_cases hlast : k / 8 < n / 8
    · rw [bitAt, bitAt, hbytes _ hlast]
    · have hbyte : k / 8 = n / 8 := by omega
      rw [bitAt, bitAt, hbyte]
      exact hbits _ (by omega)
  · intro h
    constructor
    · intro i hi
      apply BitVec.eq_of_getMsbD_eq
      intro j hj
      have hbit := h (8 * i + j) (by omega)
      rwa [bitAt_byte xs i hj, bitAt_byte ys i hj] at hbit
    · intro j hj
      have hbit := h (8 * (n / 8) + j) (by omega)
      rwa [bitAt_byte xs _ (by omega), bitAt_byte ys _ (by omega)] at hbit

end Bytes
