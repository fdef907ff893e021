import Mathlib.Tactic
import MyIp.Foundations.Bytes

/-! # Reflected cyclic redundancy checks

The register of a reflected CRC takes one bit of the message at a time, the lowest bit of a byte
first (`bitStep`, `crc`). A step is linear in the register and the bit together (`bitStep_xor`), and
a register that is fed its own low bits only moves down (`crcBits_own`); so a byte can be taken at
once, with a table of the registers that each byte leaves from zero (`crc_byte_table`). -/

namespace Crc
set_option autoImplicit false

open Bytes

variable {w : ℕ}

def bitStep (poly c : BitVec w) (bit : Bool) : BitVec w :=
  if (c.getLsbD 0 ^^ bit) = true then (c >>> 1) ^^^ poly else c >>> 1

def crcBits (poly c : BitVec w) (bits : List Bool) : BitVec w := bits.foldl (bitStep poly) c

/-- The bits of a byte, the lowest first. -/
def byteBits (b : Byte) : List Bool := (List.range 8).map b.getLsbD

/-- The register `c` after all bits of a message. -/
def crc (poly c : BitVec w) (message : List Byte) : BitVec w :=
  message.foldl (fun c b => crcBits poly c (byteBits b)) c

theorem bitStep_xor (poly c d : BitVec w) (x y : Bool) :
    bitStep poly (c ^^^ d) (x ^^ y) = bitStep poly c x ^^^ bitStep poly d y := by
  have hbit : ((c ^^^ d).getLsbD 0 ^^ (x ^^ y)) = ((c.getLsbD 0 ^^ x) ^^ (d.getLsbD 0 ^^ y)) := by
    rw [BitVec.getLsbD_xor]
    cases c.getLsbD 0 <;> cases d.getLsbD 0 <;> cases x <;> cases y <;> rfl
  have hcancel : ∀ a b : BitVec w, a ^^^ b = (a ^^^ poly) ^^^ (b ^^^ poly) := by
    intro a b
    rw [BitVec.xor_comm b poly, BitVec.xor_assoc, ← BitVec.xor_assoc poly poly b, BitVec.xor_self,
      BitVec.zero_xor]
  unfold bitStep
  rw [hbit, BitVec.ushiftRight_xor_distrib]
  cases c.getLsbD 0 ^^ x <;> cases d.getLsbD 0 ^^ y
  · rfl
  · exact BitVec.xor_assoc _ _ _
  · change c >>> 1 ^^^ d >>> 1 ^^^ poly = (c >>> 1 ^^^ poly) ^^^ d >>> 1
    rw [BitVec.xor_assoc, BitVec.xor_comm (d >>> 1), ← BitVec.xor_assoc]
  · exact hcancel _ _

theorem crcBits_xor (poly : BitVec w) (f g : ℕ → Bool) (is : List ℕ) (c d : BitVec w) :
    crcBits poly (c ^^^ d) (is.map fun i => f i ^^ g i) =
      crcBits poly c (is.map f) ^^^ crcBits poly d (is.map g) := by
  induction is generalizing c d with
  | nil => rfl
  | cons i is ih =>
    simp only [crcBits, List.map_cons, List.foldl_cons] at ih ⊢
    rw [bitStep_xor, ih]

/-- A register that is fed its own lowest bits moves down. -/
theorem crcBits_own (poly c : BitVec w) (n : ℕ) :
    crcBits poly c ((List.range n).map c.getLsbD) = c >>> n := by
  induction n with
  | zero => simp [crcBits]
  | succ n ih =>
    have hstep : bitStep poly (c >>> n) (c.getLsbD n) = c >>> (n + 1) := by
      rw [bitStep, BitVec.getLsbD_ushiftRight, Nat.add_zero, Bool.xor_self,
        if_neg Bool.false_ne_true, BitVec.shiftRight_add]
    rw [List.range_succ, List.map_append, crcBits, List.foldl_append]
    change (crcBits poly (crcBits poly c ((List.range n).map c.getLsbD)) [c.getLsbD n]) = _
    rw [ih]
    exact hstep

/-- A byte at once: the register moves down by eight, and the table is looked up at its lowest byte
combined with that of the message. -/
theorem crc_byte_table (poly c : BitVec w) (b : Byte) :
    crcBits poly c (byteBits b) =
      c >>> 8 ^^^ crcBits poly 0 (byteBits (c.setWidth 8 ^^^ b)) := by
  have hbits : byteBits b = (List.range 8).map fun i =>
      c.getLsbD i ^^ (c.setWidth 8 ^^^ b).getLsbD i := by
    refine List.map_congr_left fun i hi => ?_
    have hlt : i < 8 := List.mem_range.mp hi
    rw [BitVec.getLsbD_xor, BitVec.getLsbD_setWidth, decide_eq_true hlt, Bool.true_and,
      ← Bool.xor_assoc, Bool.xor_self, Bool.false_xor]
  have h := crcBits_xor poly c.getLsbD (c.setWidth 8 ^^^ b).getLsbD (List.range 8) c 0
  rw [show c ^^^ 0 = c from BitVec.xor_zero, crcBits_own] at h
  rw [hbits]
  exact h

end Crc
