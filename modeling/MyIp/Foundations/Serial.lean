import Mathlib.Data.Int.CardIntervalMod

/-! # Sequence numbers that wrap

Numbers of `w` bits that are given out one after the other from an initial one. Which number of the
infinite sequence a value stands for is told by how often the value has been seen before. -/

namespace Serial
set_option autoImplicit false

variable {w : ℕ}

/-- The number at distance `i` from the initial one has been seen. -/
def Seen (initial : BitVec w) (seen : List (BitVec w)) (i : ℕ) : Prop :=
  i / 2 ^ w < seen.count (initial + BitVec.ofNat w i)

/-- All numbers from the initial one up to `t` have been seen, and the one after `t` has not; when
none has been seen, `t` is the one before the initial one. -/
def IsHighest (initial : BitVec w) (seen : List (BitVec w)) (t : BitVec w) : Prop :=
  ∃ n, (∀ i < n, Seen initial seen i) ∧ ¬ Seen initial seen n ∧
    t = initial + BitVec.ofNat w n - 1

/-- The first `n` numbers. -/
def consecutive (initial : BitVec w) (n : ℕ) : List (BitVec w) :=
  (List.range n).map fun i => initial + BitVec.ofNat w i

theorem add_ofNat_succ (initial : BitVec w) (n : ℕ) :
    initial + BitVec.ofNat w (n + 1) = initial + BitVec.ofNat w n + 1 := by
  rw [BitVec.ofNat_add, BitVec.add_assoc]
  rfl

theorem add_one_add_ofNat (initial : BitVec w) (n : ℕ) :
    initial + 1 + BitVec.ofNat w n = initial + BitVec.ofNat w (n + 1) := by
  rw [add_ofNat_succ, BitVec.add_assoc, BitVec.add_assoc, BitVec.add_comm 1]

theorem consecutive_succ (initial : BitVec w) (n : ℕ) :
    consecutive initial (n + 1) = consecutive initial n ++ [initial + BitVec.ofNat w n] := by
  simp [consecutive, List.range_succ]

theorem consecutive_cons (initial : BitVec w) (n : ℕ) :
    consecutive initial (n + 1) = initial :: consecutive (initial + 1) n := by
  rw [consecutive, List.range_succ_eq_map, List.map_cons, List.map_map, consecutive]
  congr 1
  · exact BitVec.add_zero initial
  · apply List.map_congr_left
    intro i _
    rw [Function.comp_apply, Nat.succ_eq_add_one, add_one_add_ofNat]

theorem add_ofNat_eq_iff (initial : BitVec w) (i j : ℕ) :
    initial + BitVec.ofNat w i = initial + BitVec.ofNat w j ↔ i ≡ j [MOD 2 ^ w] := by
  rw [BitVec.add_right_inj, ← BitVec.toNat_inj, BitVec.toNat_ofNat, BitVec.toNat_ofNat]
  exact Iff.rfl

theorem count_consecutive (initial : BitVec w) (n i : ℕ) :
    (consecutive initial n).count (initial + BitVec.ofNat w i) =
      n.count (fun j => j ≡ i [MOD 2 ^ w]) := by
  induction n with
  | zero => rfl
  | succ n ih =>
    rw [consecutive_succ, List.count_append, ih, Nat.count_succ]
    simp only [List.count_singleton, beq_iff_eq, add_ofNat_eq_iff]

theorem seen_consecutive_iff (initial : BitVec w) (n i : ℕ) :
    Seen initial (consecutive initial n) i ↔ i < n := by
  have hpos : 0 < 2 ^ w := Nat.two_pow_pos w
  rw [Seen, count_consecutive, Nat.count_modEq_card n hpos]
  have hi := Nat.div_add_mod i (2 ^ w)
  have hn := Nat.div_add_mod n (2 ^ w)
  have himod := Nat.mod_lt i hpos
  have hnmod := Nat.mod_lt n hpos
  constructor
  · intro h
    by_contra hle
    have hdiv : n / 2 ^ w ≤ i / 2 ^ w := Nat.div_le_div_right (Nat.le_of_not_lt hle)
    split at h
    · have heq : i / 2 ^ w = n / 2 ^ w := by omega
      rw [heq] at hi
      omega
    · omega
  · intro h
    have hdiv : i / 2 ^ w ≤ n / 2 ^ w := Nat.div_le_div_right (Nat.le_of_lt h)
    split
    · omega
    · by_contra hle
      have heq : i / 2 ^ w = n / 2 ^ w := by omega
      rw [heq] at hi
      omega

/-- After the first `n` numbers the highest one is the last of them, and no other. -/
theorem isHighest_consecutive_iff (initial : BitVec w) (n : ℕ) (t : BitVec w) :
    IsHighest initial (consecutive initial n) t ↔ t = initial + BitVec.ofNat w n - 1 := by
  constructor
  · rintro ⟨m, hbelow, hnot, ht⟩
    simp only [seen_consecutive_iff] at hbelow hnot
    have hle : m ≤ n := by
      by_contra hlt
      exact absurd (hbelow n (by omega)) (by omega)
    obtain rfl : m = n := by omega
    exact ht
  · intro ht
    exact ⟨n, fun i hi => (seen_consecutive_iff initial n i).mpr hi,
      fun h => absurd ((seen_consecutive_iff initial n n).mp h) (by omega), ht⟩

end Serial
