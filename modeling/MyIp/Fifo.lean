import MyIp.Foundations.BoundedBuffer

/-! # The queue between threads

`fifo<T>` of `fifo.h`: an array with a read and a write pointer, which are equal both when the queue
is empty and when it is full, and a flag that tells these apart. `put` and `try_put` share the code
that adds an element, the two `get` that which takes one off; which thread does what when is the
`BoundedBuffer.step` of these operations, with `getTimed` for `get(ms)`. What `count` does with the
number of elements is in `FifoStats`.

`Represents` relates the array to the list of the queued elements. Its operations correspond to
those of a list (`fifo_refines`), so the queue behaves as a bounded list under every interleaving
(`fifo_acts_as_bounded_queue`). -/

namespace MyIp
set_option autoImplicit false

open EventMachine BoundedBuffer

structure Fifo (T : Type) (n : ℕ) where
  data : Fin n → T
  readPointer : Fin n
  writePointer : Fin n
  full : Bool
  interrupted : Bool
  nIn : ℕ

namespace Fifo
variable {T τ : Type} {n : ℕ} [NeZero n]

/-- The constructor: `data` is what `new T[n_elements]` holds. -/
def new (data : Fin n → T) : Fifo T n := ⟨data, 0, 0, false, false, 0⟩

/-- The body of `put` and `try_put`. The pointer wraps at `n_elements`. -/
def add (element : T) (f : Fifo T n) : Fifo T n :=
  { f with
    data := Function.update f.data f.writePointer element
    writePointer := f.writePointer + 1
    nIn := f.nIn + 1
    full := f.writePointer + 1 == f.readPointer }

/-- `try_put`, by a thread that has the lock. -/
def tryPut (element : T) (f : Fifo T n) : Fifo T n × Bool :=
  if f.full then (f, false) else (f.add element, true)

/-- The body of `get`. -/
def take (f : Fifo T n) : T × Fifo T n :=
  (f.data f.readPointer,
    { f with readPointer := f.readPointer + 1, nIn := f.nIn - 1, full := false })

def ops (T : Type) (n : ℕ) [NeZero n] : Ops (Fifo T n) T where
  isFull f := f.full
  isEmpty f := f.readPointer == f.writePointer && !f.full
  isInterrupted f := f.interrupted
  enqueue := add
  dequeue f := some f.take
  interrupt f := { f with interrupted := true }

/-- Nobody uses the queue yet. -/
def start (data : Fin n → T) : Monitor (Fifo T n) T τ := ⟨new data, fun _ => .no⟩

/-- The array holds the list, from the read pointer on. -/
structure Represents (f : Fifo T n) (q : ListQueue T) : Prop where
  items : q.items = window f.data f.readPointer f.nIn
  write : f.writePointer = f.readPointer + Fin.ofNat n f.nIn
  bound : f.nIn ≤ n
  full : f.full = true ↔ f.nIn = n
  interrupted : f.interrupted = q.interrupted

variable {f : Fifo T n} {q : ListQueue T}

theorem Represents.length (h : Represents f q) : q.items.length = f.nIn := by
  rw [h.items, window_length]

theorem Represents.isFull (h : Represents f q) : f.full = (q.items.length == n) := by
  rw [h.length, Bool.eq_iff_iff, h.full, beq_iff_eq]

theorem Represents.isEmpty (h : Represents f q) :
    (f.readPointer == f.writePointer && !f.full) = q.items.isEmpty := by
  have hn := NeZero.pos n
  rw [Bool.eq_iff_iff, Bool.and_eq_true, beq_iff_eq, Bool.not_eq_true', ← Bool.not_eq_true, h.full,
    h.write, eq_comm, add_ofNat_eq_self_iff _ h.bound, List.isEmpty_iff, ← List.length_eq_zero_iff,
    h.length]
  omega

theorem Represents.add (x : T) (h : Represents f q) (hroom : f.full = false) :
    Represents (f.add x) { q with items := q.items ++ [x] } := by
  have hlt : f.nIn < n := by
    have hne : f.nIn ≠ n := fun he => Bool.false_ne_true (hroom ▸ h.full.mpr he)
    have := h.bound
    omega
  have hwrite : f.writePointer + 1 = f.readPointer + Fin.ofNat n (f.nIn + 1) := by
    rw [ofNat_succ, ← add_assoc, h.write]
  refine ⟨?_, hwrite, hlt, ?_, h.interrupted⟩
  · change q.items ++ [x] = window (Function.update f.data f.writePointer x) f.readPointer
      (f.nIn + 1)
    rw [h.write, window_snoc _ _ hlt, h.items]
  · change (f.writePointer + 1 == f.readPointer) = true ↔ f.nIn + 1 = n
    rw [beq_iff_eq, hwrite, add_ofNat_eq_self_iff _ hlt]
    omega

theorem Represents.take (h : Represents f q) (hsome : q.items ≠ []) :
    ∃ rest, q.items = f.take.1 :: rest ∧ Represents f.take.2 { q with items := rest } := by
  obtain ⟨k, hk⟩ : ∃ k, f.nIn = k + 1 := by
    refine Nat.exists_eq_succ_of_ne_zero fun h0 => hsome ?_
    rw [← List.length_eq_zero_iff, h.length, h0]
  have hle := h.bound
  refine ⟨window f.data (f.readPointer + 1) k, ?_, ?_⟩
  · rw [h.items, hk, window_cons]
    rfl
  · refine ⟨?_, ?_, ?_, ?_, h.interrupted⟩
    · change window _ _ k = window f.data (f.readPointer + 1) (f.nIn - 1)
      rw [hk, Nat.add_sub_cancel]
    · change f.writePointer = f.readPointer + 1 + Fin.ofNat n (f.nIn - 1)
      rw [h.write, hk, Nat.add_sub_cancel, ofNat_succ, add_assoc, add_comm 1]
    · change f.nIn - 1 ≤ n
      omega
    · change false = true ↔ f.nIn - 1 = n
      refine iff_of_false Bool.false_ne_true ?_
      omega

/-- The operations on the array are those on the list. -/
theorem fifo_refines : Refines (ops T n) (listOps T n) Represents where
  isFull h := h.isFull
  isEmpty h := h.isEmpty
  isInterrupted h := h.interrupted
  enqueue x h hroom := h.add x hroom
  dequeue := by
    intro f q h hsome
    have hne : q.items ≠ [] := by
      intro he
      have hempty : (ops T n).isEmpty f = q.items.isEmpty := h.isEmpty
      rw [hsome, he] at hempty
      cases hempty
    obtain ⟨rest, hitems, hrest⟩ := h.take hne
    refine ⟨f.take.1, f.take.2, _, rfl, ?_, hrest⟩
    simp [listOps, hitems]
  interrupt h := ⟨h.items, h.write, h.bound, h.full, rfl⟩

theorem represents_new (data : Fin n → T) : Represents (new data) ⟨[], false⟩ := by
  refine ⟨rfl, ?_, Nat.zero_le n, ?_, rfl⟩
  · change (0 : Fin n) = 0 + Fin.ofNat n 0
    rw [Fin.ofNat_zero, add_zero]
  · exact iff_of_false Bool.false_ne_true (Ne.symm (NeZero.ne n))

/-! ## All runs -/

/-- What is observed of a run is what a list of at most `n` elements answers, and what is queued are
the elements of that list. -/
structure FollowsList (n : ℕ) [NeZero n] [DecidableEq τ]
    (tr : List (Move (Monitor (Fifo T n) T τ) (Event T τ) (Answer T)))
    (m : Monitor (Fifo T n) T τ) (items : List T) : Prop where
  answers : ∃ tr' m', Run (step (listOps T n)) (ListQueue.start T τ) tr' m' ∧
    observed tr' = observed tr ∧ m'.queue.items = items ∧ m'.waiting = m.waiting
  order : accepted (observed tr) = returned (observed tr) ++ items
  count : m.queue.nIn = items.length
  full_iff : m.queue.full = true ↔ m.queue.nIn = n

/-- `try_put` returns false exactly if the queue is full, and then changes nothing. -/
def TriesExactly (n : ℕ) [NeZero n] [DecidableEq τ]
    (mv : Move (Monitor (Fifo T n) T τ) (Event T τ) (Answer T)) : Prop :=
  ∀ t x, mv.event = .tryPut t x →
    (mv.output = .tried x false ↔ mv.before.queue.full = true) ∧
    (mv.output = .tried x false → step (ops T n) mv.before mv.event = some (mv.before, mv.output))

/-- After `interrupt`, `get` returns nothing and takes nothing off. -/
def GetsNothingAfter (n : ℕ) [NeZero n] [DecidableEq τ]
    (before : List (Move (Monitor (Fifo T n) T τ) (Event T τ) (Answer T)))
    (mv : Move (Monitor (Fifo T n) T τ) (Event T τ) (Answer T)) : Prop :=
  (∃ m₀ ∈ before, m₀.output = .interrupted) → isGetStep mv.before mv.event = true →
    mv.output = .got none ∧ ∀ after, step (ops T n) mv.before mv.event = some (after, mv.output) →
      after.queue = mv.before.queue

variable [DecidableEq τ]

theorem run_represents {data : Fin n → T} {m : Monitor (Fifo T n) T τ}
    {tr : List (Move (Monitor (Fifo T n) T τ) (Event T τ) (Answer T))}
    (run : Run (step (ops T n)) (start data) tr m) :
    ∃ tr' m', Run (step (listOps T n)) (ListQueue.start T τ) tr' m' ∧
      Related Represents m m' ∧ observed tr' = observed tr :=
  fifo_refines.run ⟨represents_new data, rfl⟩ run

theorem run_interrupted {data : Fin n → T} {m : Monitor (Fifo T n) T τ}
    {tr : List (Move (Monitor (Fifo T n) T τ) (Event T τ) (Answer T))}
    (run : Run (step (ops T n)) (start data) tr m)
    (h : ∃ m₀ ∈ tr, m₀.output = .interrupted) : m.queue.interrupted = true := by
  obtain ⟨tr', m', run', hrel, hobs⟩ := run_represents run
  obtain ⟨m₀, hm₀, hint⟩ := h
  rw [hrel.1.interrupted]
  refine (list_run run').interrupted ?_
  rw [hobs]
  exact ⟨(m₀.event, m₀.output), List.mem_map_of_mem (f := fun m => (m.event, m.output)) hm₀, hint⟩

/-- The queue of `n` elements under every interleaving of the threads that use it. -/
theorem fifo_acts_as_bounded_queue {data : Fin n → T} {m : Monitor (Fifo T n) T τ}
    {tr : List (Move (Monitor (Fifo T n) T τ) (Event T τ) (Answer T))}
    (run : Run (step (ops T n)) (start data) tr m) :
    (∃ items, FollowsList n tr m items) ∧ (∀ mv ∈ tr, TriesExactly n mv) ∧
      Throughout (GetsNothingAfter n) tr := by
  refine ⟨?_, ?_, ?_⟩
  · obtain ⟨tr', m', run', hrel, hobs⟩ := run_represents run
    refine ⟨m'.queue.items, ⟨tr', m', run', hobs, rfl, hrel.2.symm⟩, ?_, hrel.1.length.symm,
      hrel.1.full⟩
    rw [← hobs]
    exact (list_run run').order
  · intro mv hmv t x he
    obtain ⟨-, -, after, -, -, made⟩ := run.move_origin mv hmv
    have hspec := tryPut_spec (he ▸ made)
    refine ⟨hspec.1, fun hno => ?_⟩
    rw [made, hspec.2 hno]
  · rintro pre mv post rfl hint hget
    obtain ⟨after, hpre, made, -⟩ := run.split
    obtain ⟨hanswer, hkept⟩ := get_interrupted made hget (run_interrupted hpre hint)
    refine ⟨hanswer, fun after' made' => ?_⟩
    obtain rfl := (Prod.mk.inj (Option.some.inj (made.symm.trans made'))).1
    exact hkept

/-- A queue of two elements: it is filled, a third element is refused, one is taken off by a thread
that waited for the first, and `interrupt` leaves the other one in it. -/
theorem fifo_acts_as_bounded_queue_two :
    ∃ (tr : List (Move (Monitor (Fifo ℕ 2) ℕ ℕ) (Event ℕ ℕ) (Answer ℕ)))
      (m : Monitor (Fifo ℕ 2) ℕ ℕ), Run (step (ops ℕ 2)) (start fun _ => 0) tr m ∧
      tr.map (·.output) = [.blocked, .put 7, .tried 8 true, .tried 9 false, .got (some 7),
        .interrupted, .got none] ∧
      (∃ items, FollowsList 2 tr m items) ∧ (∀ mv ∈ tr, TriesExactly 2 mv) ∧
      Throughout (GetsNothingAfter 2) tr := by
  let events : List (Event ℕ ℕ) := [.get 1, .put 2 7, .tryPut 2 8, .tryPut 3 9, .wake 1,
    .interrupt 2, .getTimed 1]
  have run := exec_get_run (step (ops ℕ 2)) (start fun _ => 0) events (by decide +kernel)
  exact ⟨_, _, run, by decide +kernel, fifo_acts_as_bounded_queue run⟩

end Fifo

end MyIp
