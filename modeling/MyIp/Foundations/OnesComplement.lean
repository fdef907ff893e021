import Mathlib.Data.BitVec
import Mathlib.Tactic

/-! # One's complement sums

`carryAdd` adds two words and puts the carry back in at the low end; `onesSum` does so along a list.
Numbers that differ by such carries stand for each other (`Folds`): they are the same modulo
`2 ^ w - 1`, and 0 stands for 0 only. Of the numbers up to `2 ^ w - 1` just one stands for a given
sum (`Folds.unique`), so that any way to add the carries up to one word finds the same, and it is the
word of all ones exactly for the positive multiples of `2 ^ w - 1` (`Folds.eq_top_iff`). -/

namespace OnesComplement
set_option autoImplicit false

/-- `m` is what is left of `n` after some carries were put back in, where `M` is all ones. -/
structure Folds (M n m : ℕ) : Prop where
  modEq : m ≡ n [MOD M]
  zero : m = 0 ↔ n = 0

namespace Folds
variable {M n m k : ℕ}

theorem refl (M n : ℕ) : Folds M n n := ⟨Nat.ModEq.refl n, Iff.rfl⟩

theorem trans (h : Folds M n m) (h' : Folds M m k) : Folds M n k :=
  ⟨h'.modEq.trans h.modEq, h'.zero.trans h.zero⟩

theorem add_right (h : Folds M n m) (k : ℕ) : Folds M (n + k) (m + k) where
  modEq := h.modEq.add_right k
  zero := by
    have := h.zero
    omega

/-- The carries of a number with digits below `M + 1` are added to its lowest digit. -/
theorem carry (M n : ℕ) : Folds M n (n / (M + 1) + n % (M + 1)) where
  modEq := by
    have hdigits := Nat.div_add_mod n (M + 1)
    have hmod : n / (M + 1) + n % (M + 1) + M * (n / (M + 1)) = n := by
      rw [Nat.add_mul, Nat.one_mul] at hdigits
      omega
    calc n / (M + 1) + n % (M + 1)
        ≡ n / (M + 1) + n % (M + 1) + M * (n / (M + 1)) [MOD M] := by
          simp [Nat.ModEq]
      _ = n := hmod
  zero := by
    constructor
    · intro h
      have hdigits := Nat.div_add_mod n (M + 1)
      obtain ⟨hhigh, hlow⟩ := Nat.add_eq_zero_iff.mp h
      rw [hhigh, hlow, Nat.mul_zero] at hdigits
      exact hdigits.symm
    · rintro rfl
      simp

theorem unique (h : Folds M n m) (h' : Folds M n k) (hm : m ≤ M) (hk : k ≤ M) : m = k := by
  have hmod : m ≡ k [MOD M] := h.modEq.trans h'.modEq.symm
  have hzero : m = 0 ↔ k = 0 := h.zero.trans h'.zero.symm
  rcases Nat.lt_or_ge m M with hlt | hge
  · rcases Nat.lt_or_ge k M with hlt' | hge'
    · exact hmod.eq_of_lt_of_lt hlt hlt'
    · obtain rfl : k = M := by omega
      have hm0 : m = 0 := Nat.eq_zero_of_dvd_of_lt ((Nat.modEq_zero_iff_dvd.mp
        (hmod.trans (Nat.modEq_zero_iff_dvd.mpr dvd_rfl)))) hlt
      omega
  · obtain rfl : m = M := by omega
    rcases Nat.lt_or_ge k m with hlt' | hge'
    · have hk0 : k = 0 := Nat.eq_zero_of_dvd_of_lt ((Nat.modEq_zero_iff_dvd.mp
        (hmod.symm.trans (Nat.modEq_zero_iff_dvd.mpr dvd_rfl)))) hlt'
      omega
    · omega

/-- A sum folds to all ones exactly if it is a positive multiple of it. -/
theorem eq_top_iff (h : Folds M n m) (hm : m ≤ M) (hM : 0 < M) : m = M ↔ 0 < n ∧ M ∣ n := by
  constructor
  · rintro rfl
    refine ⟨?_, (Nat.modEq_zero_iff_dvd.mp ?_)⟩
    · have := h.zero
      omega
    · exact h.modEq.symm.trans (Nat.modEq_zero_iff_dvd.mpr dvd_rfl)
  · rintro ⟨hpos, hdvd⟩
    have htop : Folds M n M :=
      ⟨(Nat.modEq_zero_iff_dvd.mpr dvd_rfl).trans (Nat.modEq_zero_iff_dvd.mpr hdvd).symm, by omega⟩
    exact h.unique htop hm le_rfl

/-- With its complement a sum is a positive multiple of all ones. -/
theorem add_complement (h : Folds M n m) (hm : m ≤ M) (hM : 0 < M) :
    0 < n + (M - m) ∧ M ∣ n + (M - m) := by
  refine ⟨?_, Nat.modEq_zero_iff_dvd.mp ?_⟩
  · have := h.zero
    omega
  · calc n + (M - m) ≡ m + (M - m) [MOD M] := h.modEq.symm.add_right _
      _ = M := by omega
      _ ≡ 0 [MOD M] := Nat.modEq_zero_iff_dvd.mpr dvd_rfl

end Folds

/-! ## Words -/

section Words
variable {w : ℕ}

def carryAdd (a b : BitVec w) : BitVec w :=
  if a.toNat + b.toNat < 2 ^ w then a + b else a + b + 1

/-- The one's complement sum. -/
def onesSum (ws : List (BitVec w)) : BitVec w := ws.foldl carryAdd 0

/-- The sum in the natural numbers. -/
def wordSum (ws : List (BitVec w)) : ℕ := (ws.map BitVec.toNat).sum

@[simp] theorem wordSum_nil : wordSum ([] : List (BitVec w)) = 0 := rfl

@[simp] theorem wordSum_cons (a : BitVec w) (ws : List (BitVec w)) :
    wordSum (a :: ws) = a.toNat + wordSum ws := rfl

@[simp] theorem wordSum_append (ws ws' : List (BitVec w)) :
    wordSum (ws ++ ws') = wordSum ws + wordSum ws' := by
  rw [wordSum, List.map_append, List.sum_append, wordSum, wordSum]

theorem wordSum_le (ws : List (BitVec w)) : wordSum ws ≤ ws.length * (2 ^ w - 1) := by
  induction ws with
  | nil => simp
  | cons a ws ih =>
    have ha := a.isLt
    rw [wordSum_cons, List.length_cons, Nat.succ_mul]
    omega

theorem carryAdd_folds (a b : BitVec w) :
    Folds (2 ^ w - 1) (a.toNat + b.toNat) (carryAdd a b).toNat := by
  have hpow : 2 ^ w - 1 + 1 = 2 ^ w := Nat.sub_add_cancel (Nat.one_le_two_pow)
  have ha := a.isLt
  have hb := b.isLt
  rw [carryAdd]
  split
  · rename_i hlt
    rw [BitVec.toNat_add_of_lt hlt]
    exact Folds.refl _ _
  · rename_i hge
    have hcarry := Folds.carry (2 ^ w - 1) (a.toNat + b.toNat)
    rw [hpow] at hcarry
    have hhigh : (a.toNat + b.toNat) / 2 ^ w = 1 :=
      Nat.div_eq_of_lt_le (by omega) (by omega)
    have hlow : (a.toNat + b.toNat) % 2 ^ w = a.toNat + b.toNat - 2 ^ w := by
      rw [Nat.mod_eq_sub_mod (by omega), Nat.mod_eq_of_lt (by omega)]
    have hvalue : (a + b + 1).toNat = 1 + (a.toNat + b.toNat - 2 ^ w) := by
      have hw : 0 < w := Nat.pos_of_ne_zero fun hzero => by
        subst hzero
        omega
      have hone : (1 : BitVec w).toNat = 1 := BitVec.toNat_one hw
      rw [BitVec.toNat_add, BitVec.toNat_add, hlow, hone, Nat.mod_eq_of_lt (by omega),
        Nat.add_comm]
    rw [hhigh, hlow] at hcarry
    rw [hvalue]
    exact hcarry

theorem onesSum_folds (ws : List (BitVec w)) :
    Folds (2 ^ w - 1) (wordSum ws) (onesSum ws).toNat := by
  have hfrom : ∀ (a : BitVec w) (n : ℕ), Folds (2 ^ w - 1) n a.toNat →
      Folds (2 ^ w - 1) (n + wordSum ws) (ws.foldl carryAdd a).toNat := by
    induction ws with
    | nil => exact fun _ _ h => h
    | cons b ws ih =>
      intro a n h
      rw [wordSum_cons, ← Nat.add_assoc, List.foldl_cons]
      exact ih _ _ ((h.add_right b.toNat).trans (carryAdd_folds a b))
  have hsum := hfrom 0 0 (by simpa using Folds.refl (2 ^ w - 1) 0)
  rwa [Nat.zero_add] at hsum

/-- The words sum up to all ones exactly if their sum is a positive multiple of it. -/
theorem onesSum_eq_allOnes_iff (hw : 0 < w) (ws : List (BitVec w)) :
    onesSum ws = BitVec.allOnes w ↔ 0 < wordSum ws ∧ 2 ^ w - 1 ∣ wordSum ws := by
  have hlt := (onesSum ws).isLt
  have hone : 1 < 2 ^ w := Nat.one_lt_two_pow hw.ne'
  rw [BitVec.toNat_eq, BitVec.toNat_allOnes]
  exact (onesSum_folds ws).eq_top_iff (by omega) (by omega)

end Words

end OnesComplement
