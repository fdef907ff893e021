import MyIp.Fifo

/-! # How full the queues are

`fifo_stats` counts, for each fill level that `put` and `try_put` see, the hundredth of the queue
that it falls into. The width of a hundredth is a quotient of two `int`: it is 0 for a queue of
fewer than 99 elements, and for a longer one the remainder of the quotient makes room for levels
behind the last counter. `level_counted_iff` says for which levels the index is one of the array,
`stats_never_fault_iff` for which queues this is so in all runs. -/

namespace MyIp
set_option autoImplicit false

open EventMachine BoundedBuffer

/-- `up_size` -/
abbrev upSize : ℕ := 100

structure FifoStats where
  counters : Fin upSize → BitVec 64
  divider : ℤ

namespace FifoStats

/-- The constructor; the sum of two `int` is an `int`. -/
def new (rangeMax : ℤ) : FifoStats where
  counters _ := 0
  divider := ((rangeMax + 1).bmod (2 ^ 32)).tdiv upSize

/-- `count`. There is no answer if it divides by 0 or if the index is outside the array. -/
def count (fs : FifoStats) (value : ℤ) : Option FifoStats :=
  if fs.divider = 0 then none
  else
    let idx := value.tdiv fs.divider
    if h : 0 ≤ idx ∧ idx < upSize then
      let i : Fin upSize := ⟨idx.toNat, by omega⟩
      some { fs with counters := Function.update fs.counters i (fs.counters i + 1) }
    else none

/-- The levels that are counted one after the other. -/
def countAll (fs : FifoStats) (values : List ℤ) : Option FifoStats := values.foldlM count fs

theorem count_divider {fs fs' : FifoStats} {value : ℤ} (h : fs.count value = some fs') :
    fs'.divider = fs.divider := by
  unfold count at h
  split at h
  · cases h
  · dsimp only at h
    split at h
    · cases h
      rfl
    · cases h

theorem count_isSome_iff (fs : FifoStats) (value : ℤ) :
    (fs.count value).isSome = true ↔
      fs.divider ≠ 0 ∧ 0 ≤ value.tdiv fs.divider ∧ value.tdiv fs.divider < upSize := by
  unfold count
  by_cases h0 : fs.divider = 0
  · simp [h0]
  · by_cases hin : 0 ≤ value.tdiv fs.divider ∧ value.tdiv fs.divider < upSize
    · rw [if_neg h0, dif_pos hin]
      exact iff_of_true rfl ⟨h0, hin⟩
    · rw [if_neg h0, dif_neg hin]
      exact iff_of_false (by simp) fun h => hin h.2

/-- Whether a level is counted depends on the divider alone, which stays as it is. -/
theorem countAll_isSome_iff (fs : FifoStats) (values : List ℤ) :
    (fs.countAll values).isSome = true ↔ ∀ v ∈ values, (fs.count v).isSome = true := by
  induction values generalizing fs with
  | nil => simp [countAll]
  | cons v values ih =>
    rw [countAll, List.foldlM_cons, List.forall_mem_cons]
    cases hv : fs.count v with
    | none => simp
    | some fs' =>
      have hrest := ih fs'
      rw [countAll] at hrest
      simp only [Option.bind_eq_bind, Option.bind_some, Option.isSome_some, true_and, hrest,
        count_isSome_iff, count_divider hv]

/-! ## The levels of a queue -/

theorem new_divider {n : ℕ} (h : n + 1 < 2 ^ 31) : (new n).divider = ((n + 1) / 100 : ℕ) := by
  have hint : ((n : ℤ) + 1).bmod (2 ^ 32) = ((n + 1 : ℕ) : ℤ) := by
    rw [Int.bmod_def]
    omega
  have hquotient : (((n + 1 : ℕ) : ℤ)).tdiv (100 : ℕ) = ((n + 1) / 100 : ℕ) :=
    (Int.ofNat_tdiv _ _).symm
  rw [new, hint]
  exact hquotient

/-- The sum is negative for the largest `int`. -/
theorem new_divider_max : (new ((2 ^ 31 - 1 : ℕ) : ℤ)).divider = -21474836 := by decide +kernel

theorem level_counted_iff {n v : ℕ} (h : n + 1 < 2 ^ 31) :
    ((new n).count v).isSome = true ↔ v < (n + 1) / 100 * 100 := by
  rw [count_isSome_iff, new_divider h, ← Int.ofNat_tdiv, Int.ofNat_lt]
  generalize (n + 1) / 100 = d
  rcases Nat.eq_zero_or_pos d with rfl | hpos
  · simp
  · have hnonneg : (0 : ℤ) ≤ (v / d : ℕ) := Int.natCast_nonneg _
    rw [Nat.div_lt_iff_lt_mul hpos, show upSize = 100 from rfl]
    omega

/-- Every level is counted if and only if the queue is one element short of full hundreds. -/
theorem levels_counted_iff {n : ℕ} (hpos : 0 < n) (hint : n < 2 ^ 31) :
    (∀ v : ℕ, 1 ≤ v → v ≤ n → ((new n).count v).isSome = true) ↔ n % 100 = 99 := by
  by_cases hmax : n + 1 < 2 ^ 31
  · constructor
    · intro h
      have hfull := (level_counted_iff hmax).mp (h n hpos le_rfl)
      omega
    · intro h v _ hv
      refine (level_counted_iff hmax).mpr ?_
      omega
  -- with the largest `int` a full queue has the index -100
  · obtain rfl : n = 2 ^ 31 - 1 := by omega
    refine iff_of_false (fun h => ?_) (by decide)
    have hfull := h (2 ^ 31 - 1) (by decide) le_rfl
    rw [count_isSome_iff, new_divider_max] at hfull
    exact absurd hfull.2.1 (by decide)

end FifoStats

/-! ## All runs -/

namespace Fifo
variable {T τ : Type} {n : ℕ} [NeZero n]

/-- The level that a move gives to `count`: `n_in` behind an element that was put. -/
def reported (mv : Move (Monitor (Fifo T n) T τ) (Event T τ) (Answer T)) : List ℤ :=
  mv.output.accepted.map fun _ => ((mv.before.queue.nIn + 1 : ℕ) : ℤ)

variable [DecidableEq τ]

theorem run_nIn_le {data : Fin n → T} {m : Monitor (Fifo T n) T τ}
    {tr : List (Move (Monitor (Fifo T n) T τ) (Event T τ) (Answer T))}
    (run : Run (step (ops T n)) (start data) tr m) :
    m.queue.nIn ≤ n ∧ (m.queue.full = true ↔ m.queue.nIn = n) := by
  obtain ⟨-, m', -, hrel, -⟩ := run_represents run
  exact ⟨hrel.1.bound, hrel.1.full⟩

/-- Whoever reports a level has put an element into a queue that was not full. -/
theorem reported_level {data : Fin n → T} {m : Monitor (Fifo T n) T τ}
    {tr : List (Move (Monitor (Fifo T n) T τ) (Event T τ) (Answer T))}
    (run : Run (step (ops T n)) (start data) tr m) {v : ℤ} (hv : v ∈ tr.flatMap reported) :
    ∃ k : ℕ, v = k ∧ 1 ≤ k ∧ k ≤ n := by
  obtain ⟨mv, hmv, hin⟩ := List.mem_flatMap.mp hv
  obtain ⟨x, hx, rfl⟩ := List.mem_map.mp hin
  obtain ⟨_, _, after, -, hbefore, made⟩ := run.move_origin mv hmv
  obtain ⟨hle, hfull⟩ := run_nIn_le hbefore
  have hroom : mv.before.queue.nIn ≠ n := by
    intro he
    have hchange := step_change made
    generalize mv.output = o at hchange hx
    generalize after.queue = q at hchange
    cases hchange with
    | accepts _ room _ _ =>
      have hf : mv.before.queue.full = false := room
      rw [hfull.mpr he] at hf
      cases hf
    | returns _ _ => cases hx
    | quiet hquiet _ _ =>
      rw [hquiet] at hx
      cases hx
    | interrupts => cases hx
  exact ⟨mv.before.queue.nIn + 1, rfl, by omega, by omega⟩

/-- A thread can fill the queue, and reports every level on the way. -/
theorem exists_run_filling (t : τ) (x : T) (data : Fin n → T) {k : ℕ} (hk : k ≤ n) :
    ∃ (tr : List (Move (Monitor (Fifo T n) T τ) (Event T τ) (Answer T)))
      (m : Monitor (Fifo T n) T τ), Run (step (ops T n)) (start data) tr m ∧
      m.queue.nIn = k ∧ (m.waiting t).isNo = true ∧
      ∀ v : ℕ, 1 ≤ v → v ≤ k → (v : ℤ) ∈ tr.flatMap reported := by
  induction k with
  | zero => exact ⟨[], start data, Run.nil, rfl, rfl, fun v h1 h0 => by omega⟩
  | succ k ih =>
    obtain ⟨tr, m, run, hk', hno, hlevels⟩ := ih (by omega)
    have hroom : (ops T n).isFull m.queue = false := by
      have hne : ¬ m.queue.full = true := fun hf => by
        have := (run_nIn_le run).2.mp hf
        omega
      simpa [ops] using hne
    have made : step (ops T n) m (.tryPut t x) =
        some (m.set ((ops T n).enqueue x m.queue) t .no, .tried x true) := by
      rw [step, if_pos hno, hroom, if_neg Bool.false_ne_true]
    refine ⟨_, _, Run.snoc run made, ?_, ?_, ?_⟩
    · change m.queue.nIn + 1 = k + 1
      rw [hk']
    · simp [Monitor.set, Waiting.isNo]
    · intro v h1 hv
      rw [List.flatMap_append, List.mem_append]
      by_cases hlast : v = k + 1
      · refine Or.inr ?_
        simp [reported, Answer.accepted, hk', hlast]
      · exact Or.inl (hlevels v h1 (by omega))

end Fifo

/-- Every level from 1 to the capacity is counted, or every level that is reported in any run, if
and only if the capacity is one less than a multiple of 100. -/
theorem stats_never_fault_iff {T τ : Type} [DecidableEq τ] (n : ℕ) [NeZero n] (hint : n < 2 ^ 31)
    (t : τ) (x : T) (data : Fin n → T) :
    ((∀ v : ℕ, 1 ≤ v → v ≤ n → ((FifoStats.new n).count v).isSome = true) ↔ n % 100 = 99) ∧
    ((∀ tr m, Run (step (Fifo.ops T n)) (Fifo.start data : Monitor (Fifo T n) T τ) tr m →
        ((FifoStats.new n).countAll (tr.flatMap Fifo.reported)).isSome = true) ↔
      n % 100 = 99) := by
  have hlevels := FifoStats.levels_counted_iff (NeZero.pos n) hint
  refine ⟨hlevels, ?_⟩
  rw [← hlevels]
  constructor
  · intro h v h1 hv
    obtain ⟨tr, m, run, -, -, hreported⟩ := Fifo.exists_run_filling t x data (le_refl n)
    exact (FifoStats.countAll_isSome_iff _ _).mp (h tr m run) v (hreported v h1 hv)
  · intro h tr m run
    refine (FifoStats.countAll_isSome_iff _ _).mpr fun v hv => ?_
    obtain ⟨k, rfl, h1, hk⟩ := Fifo.reported_level run hv
    exact h k h1 hk

theorem stats_never_fault_99 : ((FifoStats.new 99).count (99 : ℕ)).isSome = true :=
  (stats_never_fault_iff 99 (by decide) () () fun _ => ()).1.mpr (by decide) 99 (by decide)
    (by decide)

/-- The queue of the MQTT client has 128 elements: its divider is 1, and the hundredth element has
no counter. A queue of 50 elements divides by 0 at the first. -/
theorem stats_fault_128_and_50 :
    (FifoStats.new 128).divider = 1 ∧ (FifoStats.new 128).count 100 = none ∧
      (FifoStats.new 50).divider = 0 ∧ (FifoStats.new 50).count 1 = none := by
  decide +kernel

end MyIp
