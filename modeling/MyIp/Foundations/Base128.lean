import Mathlib.Tactic
import Mathlib.Data.Nat.Digits.Lemmas
import MyIp.Foundations.Bytes

/-! # Numbers in base 128, most significant group first

Each byte holds seven bits; all but the last byte of a number have the high bit set, and a number
has no leading group that is zero (`encode`). `arcs` reads the numbers of a byte string one after
the other and `WellFormed` says that it consists of such encodings: the last byte has no high bit,
and no number starts with the byte `0x80`.

* `arcs_flatMap_encode`: the numbers are read back,
* `flatMap_encode_arcs`: a well-formed string is the encoding of the numbers read from it,
* `flatMap_encode_injective`: different lists of numbers have different encodings,
* `encode_length_le_iff` and `encode_length`: how long an encoding is,
* `shift_or_low` and `shift_or_high`: what a reader with a 32 bit register does with a byte. -/

namespace Base128
set_option autoImplicit false

open Bytes

/-- The groups of a number that all continue. -/
def continued (n : ℕ) : List Byte :=
  ((Nat.digits 128 n).map fun d => BitVec.ofNat 8 (128 + d)).reverse

def encode (n : ℕ) : List Byte := continued (n / 128) ++ [BitVec.ofNat 8 (n % 128)]

/-- The complete numbers of a byte string, `acc` being the part of the first one already read. -/
def arcs : ℕ → List Byte → List ℕ
  | _, [] => []
  | acc, b :: bs =>
    if b.toNat < 128 then (acc * 128 + b.toNat) :: arcs 0 bs
    else arcs (acc * 128 + (b.toNat - 128)) bs

/-- The groups behind the last complete number, as a number. -/
def unfinished : ℕ → List Byte → ℕ
  | acc, [] => acc
  | acc, b :: bs =>
    if b.toNat < 128 then unfinished 0 bs else unfinished (acc * 128 + (b.toNat - 128)) bs

/-- `WellFormedFrom s bs`: `bs` is well formed where `s` says whether a number starts here. -/
def WellFormedFrom : Bool → List Byte → Prop
  | s, [] => s = true
  | s, b :: bs =>
    if b.toNat < 128 then WellFormedFrom true bs
    else (s = true → b.toNat ≠ 128) ∧ WellFormedFrom false bs

def WellFormed (bs : List Byte) : Prop := WellFormedFrom true bs

instance decidableWellFormedFrom : ∀ (s : Bool) (bs : List Byte), Decidable (WellFormedFrom s bs)
  | s, [] => inferInstanceAs (Decidable (s = true))
  | s, b :: bs =>
    have := decidableWellFormedFrom true bs
    have := decidableWellFormedFrom false bs
    inferInstanceAs (Decidable (if b.toNat < 128 then WellFormedFrom true bs
      else (s = true → b.toNat ≠ 128) ∧ WellFormedFrom false bs))

instance (bs : List Byte) : Decidable (WellFormed bs) := decidableWellFormedFrom true bs

theorem continued_zero : continued 0 = [] := by
  simp [continued]

theorem continued_group {n d : ℕ} (hd : d < 128) (h : d ≠ 0 ∨ n ≠ 0) :
    continued (n * 128 + d) = continued n ++ [BitVec.ofNat 8 (128 + d)] := by
  have hdig := Nat.digits_add 128 (by decide) d n hd h
  rw [show d + 128 * n = n * 128 + d by omega] at hdig
  simp [continued, hdig]

theorem encode_group {n d : ℕ} (hd : d < 128) :
    encode (n * 128 + d) = continued n ++ [BitVec.ofNat 8 d] := by
  rw [encode, show (n * 128 + d) / 128 = n by omega, show (n * 128 + d) % 128 = d by omega]

/-- A well-formed string is the encoding of what is read from it. -/
theorem flatMap_encode_arcs_from {n : ℕ} {bs : List Byte}
    (h : WellFormedFrom (decide (n = 0)) bs) :
    (arcs n bs).flatMap encode = continued n ++ bs := by
  induction bs generalizing n with
  | nil =>
    have hn : n = 0 := of_decide_eq_true h
    simp [arcs, hn, continued_zero]
  | cons b bs ih =>
    rw [WellFormedFrom] at h
    rw [arcs]
    by_cases hb : b.toNat < 128
    · rw [if_pos hb] at h ⊢
      rw [List.flatMap_cons, ih (n := 0) h, encode_group hb, continued_zero]
      simp
    · rw [if_neg hb] at h ⊢
      have hlt := b.isLt
      have hne : b.toNat - 128 ≠ 0 ∨ n ≠ 0 := by
        by_cases hn : n = 0
        · have := h.1 (decide_eq_true hn)
          exact Or.inl (by omega)
        · exact Or.inr hn
      have hfalse : decide (n * 128 + (b.toNat - 128) = 0) = false := decide_eq_false (by omega)
      rw [ih (by rw [hfalse]; exact h.2), continued_group (by omega) hne,
        show 128 + (b.toNat - 128) = b.toNat by omega]
      simp

theorem flatMap_encode_arcs {bs : List Byte} (h : WellFormed bs) :
    (arcs 0 bs).flatMap encode = bs := by
  simpa [continued_zero] using flatMap_encode_arcs_from (n := 0) h

/-! ## Reading encodings -/

theorem arcs_continued (n : ℕ) (bs : List Byte) : arcs 0 (continued n ++ bs) = arcs n bs := by
  induction n using Nat.strongRecOn generalizing bs with
  | ind n ih =>
    by_cases hn : n = 0
    · subst hn
      simp [continued_zero]
    · have hsplit := continued_group (n := n / 128) (d := n % 128) (Nat.mod_lt _ (by decide))
        (by omega)
      rw [show n / 128 * 128 + n % 128 = n by omega] at hsplit
      have hb : (BitVec.ofNat 8 (128 + n % 128)).toNat = 128 + n % 128 :=
        toNat_ofNat_of_lt (by omega)
      rw [hsplit, List.append_assoc, ih (n / 128) (by omega), List.singleton_append, arcs, hb,
        if_neg (by omega), show n / 128 * 128 + (128 + n % 128 - 128) = n by omega]

theorem arcs_encode_append (n : ℕ) (bs : List Byte) : arcs 0 (encode n ++ bs) = n :: arcs 0 bs := by
  have hb : (BitVec.ofNat 8 (n % 128)).toNat = n % 128 := toNat_ofNat_of_lt (by omega)
  rw [encode, List.append_assoc, arcs_continued, List.singleton_append, arcs, hb,
    if_pos (by omega), show n / 128 * 128 + n % 128 = n by omega]

theorem arcs_flatMap_encode (ns : List ℕ) : arcs 0 (ns.flatMap encode) = ns := by
  induction ns with
  | nil => rfl
  | cons n ns ih => rw [List.flatMap_cons, arcs_encode_append, ih]

theorem flatMap_encode_injective {ns ms : List ℕ}
    (h : ns.flatMap encode = ms.flatMap encode) : ns = ms := by
  rw [← arcs_flatMap_encode ns, h, arcs_flatMap_encode]

theorem wellFormedFrom_continued {n : ℕ} (hn : n ≠ 0) (bs : List Byte) :
    WellFormedFrom true (continued n ++ bs) ↔ WellFormedFrom false bs := by
  induction n using Nat.strongRecOn generalizing bs with
  | ind n ih =>
    have hsplit := continued_group (n := n / 128) (d := n % 128) (Nat.mod_lt _ (by decide))
      (by omega)
    rw [show n / 128 * 128 + n % 128 = n by omega] at hsplit
    have hb : (BitVec.ofNat 8 (128 + n % 128)).toNat = 128 + n % 128 := toNat_ofNat_of_lt (by omega)
    rw [hsplit, List.append_assoc, List.singleton_append]
    by_cases h : n / 128 = 0
    · rw [h, continued_zero, List.nil_append, WellFormedFrom, hb, if_neg (by omega)]
      exact and_iff_right fun _ => by omega
    · rw [ih (n / 128) (by omega) h, WellFormedFrom, hb, if_neg (by omega)]
      exact and_iff_right (by simp)

theorem wellFormed_encode_append (n : ℕ) (bs : List Byte) :
    WellFormed (encode n ++ bs) ↔ WellFormed bs := by
  have hb : (BitVec.ofNat 8 (n % 128)).toNat = n % 128 := toNat_ofNat_of_lt (by omega)
  rw [encode, List.append_assoc, List.singleton_append, WellFormed, WellFormed]
  by_cases h : n / 128 = 0
  · rw [h, continued_zero, List.nil_append, WellFormedFrom, hb, if_pos (by omega)]
  · rw [wellFormedFrom_continued h, WellFormedFrom, hb, if_pos (by omega)]

theorem wellFormed_flatMap_encode (ns : List ℕ) : WellFormed (ns.flatMap encode) := by
  induction ns with
  | nil => exact rfl
  | cons n ns ih => rwa [List.flatMap_cons, wellFormed_encode_append]

/-! ## Lengths -/

theorem encode_length_le_iff {n k : ℕ} : (encode n).length ≤ k + 1 ↔ n < 128 ^ (k + 1) := by
  have hdig := Nat.digits_length_le_iff (b := 128) (k := k) (by decide) (n / 128)
  have hdiv : n / 128 < 128 ^ k ↔ n < 128 ^ (k + 1) := by
    rw [pow_succ]
    exact Nat.div_lt_iff_lt_mul (by decide)
  simp only [encode, continued, List.length_append, List.length_reverse, List.length_map,
    List.length_singleton, Nat.add_le_add_iff_right]
  exact hdig.trans hdiv

theorem encode_length (n : ℕ) : (encode n).length = Nat.log 128 n + 1 := by
  have hone : 1 < 128 := by decide
  simp only [encode, continued, List.length_append, List.length_reverse, List.length_map,
    List.length_singleton]
  by_cases hn : n < 128
  · rw [Nat.log_of_lt hn, Nat.div_eq_of_lt hn, Nat.digits_zero]
    rfl
  · rw [Nat.log_of_one_lt_of_le hone (by omega), Nat.length_digits 128 _ hone (by omega)]

/-! ## Groups in a register -/

/-- Groups in any order, all but the last with the high bit set. -/
def marked : List ℕ → List Byte
  | [] => []
  | [d] => [BitVec.ofNat 8 d]
  | d :: ds => BitVec.ofNat 8 (128 + d) :: marked ds

theorem marked_cons {ds : List ℕ} (d : ℕ) (h : ds ≠ []) :
    marked (d :: ds) = BitVec.ofNat 8 (128 + d) :: marked ds := by
  cases ds with
  | nil => exact absurd rfl h
  | cons d' ds => rfl

theorem toNat_ofNat_high {d : ℕ} (hd : d < 128) : (BitVec.ofNat 8 (128 + d)).toNat = 128 + d :=
  toNat_ofNat_of_lt (by omega)

theorem toNat_ofNat_low {d : ℕ} (hd : d < 128) : (BitVec.ofNat 8 d).toNat = d :=
  toNat_ofNat_of_lt (by omega)

theorem and_128_eq_zero_iff (b : Byte) : b &&& 128 = 0 ↔ b.toNat < 128 := by
  revert b
  decide

theorem and_127_of_lt {b : Byte} (hb : b.toNat < 128) : b &&& 127 = b := by
  apply BitVec.eq_of_toNat_eq
  have h127 : (127 : Byte).toNat = 2 ^ 7 - 1 := rfl
  rw [BitVec.toNat_and, h127, Nat.and_two_pow_sub_one_eq_mod]
  omega

theorem shift_or (acc d : ℕ) (hd : d < 128) :
    (BitVec.ofNat 32 acc <<< 7 ||| BitVec.ofNat 32 d) = BitVec.ofNat 32 (acc * 128 + d) := by
  apply BitVec.eq_of_toNat_eq
  have hmul : acc % 2 ^ 32 * 2 ^ 7 % 2 ^ 32 = 2 ^ 7 * (acc % 2 ^ 25) := by omega
  have hd' : d % 2 ^ 32 = d := by omega
  rw [BitVec.toNat_or, BitVec.toNat_shiftLeft, BitVec.toNat_ofNat, BitVec.toNat_ofNat,
    BitVec.toNat_ofNat, Nat.shiftLeft_eq, hmul, hd', ← Nat.two_pow_add_eq_or_of_lt (by omega)]
  omega

theorem shift_or_low {acc : ℕ} {b : Byte} (hb : b.toNat < 128) :
    (BitVec.ofNat 32 acc <<< 7 ||| b.setWidth 32) = BitVec.ofNat 32 (acc * 128 + b.toNat) := by
  rw [← BitVec.ofNat_toNat]
  exact shift_or acc b.toNat hb

theorem shift_or_high {acc : ℕ} {b : Byte} (hb : ¬ b.toNat < 128) :
    (BitVec.ofNat 32 acc <<< 7 ||| (b &&& 127).setWidth 32) =
      BitVec.ofNat 32 (acc * 128 + (b.toNat - 128)) := by
  have hlow : (b &&& 127).toNat = b.toNat - 128 := by
    have h127 : (127 : Byte).toNat = 2 ^ 7 - 1 := rfl
    have hlt := b.isLt
    rw [BitVec.toNat_and, h127, Nat.and_two_pow_sub_one_eq_mod]
    omega
  have hlt := b.isLt
  rw [← BitVec.ofNat_toNat, hlow]
  exact shift_or acc (b.toNat - 128) (by omega)

end Base128
