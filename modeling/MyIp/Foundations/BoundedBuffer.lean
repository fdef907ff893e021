import Mathlib.Tactic
import MyIp.Foundations.Run

/-! # Bounded buffers that threads share

A buffer is behind a lock; a thread that puts waits while it is full, a thread that gets waits while
it is empty. `Monitor` is the buffer with what each thread waits for, and a step (`step`) is what a
thread does from when it has the lock until it gives it up, by returning or by waiting. A waiting
thread may wake at any time and looks again. `Ops` are the operations of the buffer itself.

* `listOps` is the buffer that is meant: a list, with its first element the oldest,
* `Refines.run`: a buffer whose operations correspond to those on lists behaves as the list does,
  whatever the threads do,
* `list_run`: in all runs the elements leave the list in the order in which they were accepted,
* `tryPut_spec` and `get_interrupted` are about one step of any buffer,
* `window` is the part of a ring that starts at a place, for buffers in an array. -/

namespace BoundedBuffer
set_option autoImplicit false

open EventMachine

/-- The operations on a buffer of type `Q` with elements of type `T`. -/
structure Ops (Q T : Type) where
  isFull : Q → Bool
  isEmpty : Q → Bool
  isInterrupted : Q → Bool
  enqueue : T → Q → Q
  dequeue : Q → Option (T × Q)
  interrupt : Q → Q

/-- What a thread waits for. -/
inductive Waiting (T : Type)
  | no
  | toPut (x : T)
  | toGet
  | toGetTimed
  deriving DecidableEq

structure Monitor (Q T τ : Type) where
  queue : Q
  waiting : τ → Waiting T

inductive Event (T τ : Type)
  | put (t : τ) (x : T)
  | tryPut (t : τ) (x : T)
  | get (t : τ)
  | getTimed (t : τ)
  | wake (t : τ)
  | timeout (t : τ)
  | interrupt (t : τ)

inductive Answer (T : Type)
  | blocked
  | put (x : T)
  | tried (x : T) (ok : Bool)
  | got (x : Option T)
  | interrupted
  deriving DecidableEq

section Steps
variable {Q T τ : Type} [DecidableEq τ] (ops : Ops Q T)

def Monitor.set (m : Monitor Q T τ) (q : Q) (t : τ) (w : Waiting T) : Monitor Q T τ :=
  ⟨q, Function.update m.waiting t w⟩

/-- A thread that puts has the lock and tests for the buffer to be full. -/
def putTurn (m : Monitor Q T τ) (t : τ) (x : T) : Monitor Q T τ × Answer T :=
  if ops.isFull m.queue then (m.set m.queue t (.toPut x), .blocked)
  else (m.set (ops.enqueue x m.queue) t .no, .put x)

/-- A thread that gets has the lock and tests for the buffer to be empty; it waits as `w`. -/
def getTurn (m : Monitor Q T τ) (t : τ) (w : Waiting T) : Option (Monitor Q T τ × Answer T) :=
  if ops.isEmpty m.queue && !ops.isInterrupted m.queue then some (m.set m.queue t w, .blocked)
  else if ops.isInterrupted m.queue then some (m.set m.queue t .no, .got none)
  else (ops.dequeue m.queue).map fun r => (m.set r.2 t .no, .got (some r.1))

def Waiting.isNo : Waiting T → Bool
  | .no => true
  | _ => false

def step (m : Monitor Q T τ) : Event T τ → Option (Monitor Q T τ × Answer T)
  | .put t x => if (m.waiting t).isNo then some (putTurn ops m t x) else none
  | .tryPut t x =>
    if (m.waiting t).isNo then
      if ops.isFull m.queue then some (m, .tried x false)
      else some (m.set (ops.enqueue x m.queue) t .no, .tried x true)
    else none
  | .get t => if (m.waiting t).isNo then getTurn ops m t .toGet else none
  | .getTimed t => if (m.waiting t).isNo then getTurn ops m t .toGetTimed else none
  | .wake t =>
    match m.waiting t with
    | .no => none
    | .toPut x => some (putTurn ops m t x)
    | .toGet => getTurn ops m t .toGet
    | .toGetTimed => getTurn ops m t .toGetTimed
  | .timeout t =>
    match m.waiting t with
    | .toGetTimed => some (m.set m.queue t .no, .got none)
    | _ => none
  | .interrupt t =>
    if (m.waiting t).isNo then some (m.set (ops.interrupt m.queue) t .no, .interrupted) else none

end Steps

/-! ## What went in and out -/

section History
variable {Q T τ : Type}

def Answer.accepted : Answer T → List T
  | .put x => [x]
  | .tried x true => [x]
  | _ => []

def Answer.returned : Answer T → List T
  | .got (some x) => [x]
  | _ => []

/-- The elements that were accepted in what was observed, oldest first. -/
def accepted (obs : List (Event T τ × Answer T)) : List T := obs.flatMap (·.2.accepted)

def returned (obs : List (Event T τ × Answer T)) : List T := obs.flatMap (·.2.returned)

end History

/-! ## Lists -/

structure ListQueue (T : Type) where
  items : List T
  interrupted : Bool

def listOps (T : Type) (n : ℕ) : Ops (ListQueue T) T where
  isFull q := q.items.length == n
  isEmpty q := q.items.isEmpty
  isInterrupted q := q.interrupted
  enqueue x q := { q with items := q.items ++ [x] }
  dequeue q :=
    match q.items with
    | [] => none
    | x :: rest => some (x, { q with items := rest })
  interrupt q := { q with interrupted := true }

/-- Nobody waits and nothing is queued. -/
def ListQueue.start (T τ : Type) : Monitor (ListQueue T) T τ := ⟨⟨[], false⟩, fun _ => .no⟩

/-! ## What a step can do to the buffer -/

section Changes
variable {Q T τ : Type} [DecidableEq τ] {ops : Ops Q T}

/-- What becomes of a buffer in a step with the answer `o`. -/
inductive Change (ops : Ops Q T) (q : Q) : Answer T → Q → Prop
  | accepts {o : Answer T} (x : T) (room : ops.isFull q = false) (hin : o.accepted = [x])
      (hout : o.returned = []) : Change ops q o (ops.enqueue x q)
  | returns {x : T} {q' : Q} (running : ops.isInterrupted q = false)
      (taken : ops.dequeue q = some (x, q')) : Change ops q (.got (some x)) q'
  | quiet {o : Answer T} (hin : o.accepted = []) (hout : o.returned = [])
      (hint : o ≠ .interrupted) : Change ops q o q
  | interrupts : Change ops q .interrupted (ops.interrupt q)

theorem putTurn_change (m : Monitor Q T τ) (t : τ) (x : T) :
    Change ops m.queue (putTurn ops m t x).2 (putTurn ops m t x).1.queue := by
  unfold putTurn
  split
  · exact .quiet rfl rfl (by simp)
  · rename_i h
    exact .accepts x (by simpa using h) rfl rfl

theorem getTurn_change {m m' : Monitor Q T τ} {t : τ} {w : Waiting T} {o : Answer T}
    (h : getTurn ops m t w = some (m', o)) : Change ops m.queue o m'.queue := by
  unfold getTurn at h
  split at h
  · cases h
    exact .quiet rfl rfl (by simp)
  · split at h
    · cases h
      exact .quiet rfl rfl (by simp)
    · rename_i hrun
      obtain ⟨⟨x, q'⟩, htaken, he⟩ := Option.map_eq_some_iff.mp h
      cases he
      exact .returns (by simpa using hrun) htaken

theorem step_change {m m' : Monitor Q T τ} {e : Event T τ} {o : Answer T}
    (made : step ops m e = some (m', o)) : Change ops m.queue o m'.queue := by
  cases e with
  | put t x =>
    obtain ⟨-, h⟩ := Option.ite_none_right_eq_some.mp made
    have hturn : Change ops m.queue (putTurn ops m t x).2 (putTurn ops m t x).1.queue :=
      putTurn_change m t x
    rw [Option.some.inj h] at hturn
    exact hturn
  | tryPut t x =>
    obtain ⟨-, h⟩ := Option.ite_none_right_eq_some.mp made
    split at h
    · cases h
      exact .quiet rfl rfl (by simp)
    · rename_i hroom
      cases h
      exact .accepts x (by simpa using hroom) rfl rfl
  | get t =>
    obtain ⟨-, h⟩ := Option.ite_none_right_eq_some.mp made
    exact getTurn_change h
  | getTimed t =>
    obtain ⟨-, h⟩ := Option.ite_none_right_eq_some.mp made
    exact getTurn_change h
  | wake t =>
    rw [step] at made
    split at made
    · cases made
    · rename_i x _
      have hturn : Change ops m.queue (putTurn ops m t x).2 (putTurn ops m t x).1.queue :=
        putTurn_change m t x
      rw [Option.some.inj made] at hturn
      exact hturn
    · exact getTurn_change made
    · exact getTurn_change made
  | timeout t =>
    rw [step] at made
    split at made
    · cases made
      exact .quiet rfl rfl (by simp)
    · cases made
  | interrupt t =>
    obtain ⟨-, h⟩ := Option.ite_none_right_eq_some.mp made
    cases h
    exact .interrupts

/-- The step is one of a thread that gets. -/
def isGetStep (m : Monitor Q T τ) : Event T τ → Bool
  | .get _ => true
  | .getTimed _ => true
  | .timeout _ => true
  | .wake t =>
    match m.waiting t with
    | .toGet => true
    | .toGetTimed => true
    | _ => false
  | _ => false

theorem getTurn_interrupted {m m' : Monitor Q T τ} {t : τ} {w : Waiting T} {o : Answer T}
    (hint : ops.isInterrupted m.queue = true) (h : getTurn ops m t w = some (m', o)) :
    o = .got none ∧ m'.queue = m.queue := by
  rw [getTurn, hint, Bool.not_true, Bool.and_false, if_neg Bool.false_ne_true, if_pos rfl] at h
  cases h
  exact ⟨rfl, rfl⟩

/-- Once the buffer is interrupted, whoever gets returns at once, with nothing. -/
theorem get_interrupted {m m' : Monitor Q T τ} {e : Event T τ} {o : Answer T}
    (made : step ops m e = some (m', o)) (hget : isGetStep m e = true)
    (hint : ops.isInterrupted m.queue = true) : o = .got none ∧ m'.queue = m.queue := by
  cases e with
  | get t =>
    obtain ⟨-, h⟩ := Option.ite_none_right_eq_some.mp made
    exact getTurn_interrupted hint h
  | getTimed t =>
    obtain ⟨-, h⟩ := Option.ite_none_right_eq_some.mp made
    exact getTurn_interrupted hint h
  | timeout t =>
    rw [step] at made
    split at made
    · cases made
      exact ⟨rfl, rfl⟩
    · cases made
  | wake t =>
    rw [step] at made
    rw [isGetStep] at hget
    cases hw : m.waiting t with
    | no => simp [hw] at hget
    | toPut x => simp [hw] at hget
    | toGet =>
      simp only [hw] at made
      exact getTurn_interrupted hint made
    | toGetTimed =>
      simp only [hw] at made
      exact getTurn_interrupted hint made
  | put t x => cases hget
  | tryPut t x => cases hget
  | interrupt t => cases hget

/-- `tryPut` answers no exactly if the buffer is full, and then does nothing. -/
theorem tryPut_spec {m m' : Monitor Q T τ} {t : τ} {x : T} {o : Answer T}
    (made : step ops m (.tryPut t x) = some (m', o)) :
    (o = .tried x false ↔ ops.isFull m.queue = true) ∧ (o = .tried x false → m' = m) := by
  obtain ⟨-, h⟩ := Option.ite_none_right_eq_some.mp made
  split at h
  · rename_i hfull
    cases h
    exact ⟨iff_of_true rfl hfull, fun _ => rfl⟩
  · rename_i hfull
    cases h
    refine ⟨iff_of_false ?_ hfull, ?_⟩
    · rintro ⟨⟩
    · rintro ⟨⟩

end Changes

/-! ## Refinement -/

section Refinement
variable {Q Q' T τ : Type} [DecidableEq τ]

/-- The operations on related buffers answer alike and lead to related buffers. -/
structure Refines (ops : Ops Q T) (ops' : Ops Q' T) (R : Q → Q' → Prop) : Prop where
  isFull : ∀ {q q'}, R q q' → ops.isFull q = ops'.isFull q'
  isEmpty : ∀ {q q'}, R q q' → ops.isEmpty q = ops'.isEmpty q'
  isInterrupted : ∀ {q q'}, R q q' → ops.isInterrupted q = ops'.isInterrupted q'
  enqueue : ∀ {q q'} x, R q q' → ops.isFull q = false → R (ops.enqueue x q) (ops'.enqueue x q')
  dequeue : ∀ {q q'}, R q q' → ops.isEmpty q = false →
    ∃ x r r', ops.dequeue q = some (x, r) ∧ ops'.dequeue q' = some (x, r') ∧ R r r'
  interrupt : ∀ {q q'}, R q q' → R (ops.interrupt q) (ops'.interrupt q')

variable {ops : Ops Q T} {ops' : Ops Q' T} {R : Q → Q' → Prop}

/-- The same threads wait, at related buffers. -/
def Related (R : Q → Q' → Prop) (m : Monitor Q T τ) (m' : Monitor Q' T τ) : Prop :=
  R m.queue m'.queue ∧ m.waiting = m'.waiting

theorem Related.set {m : Monitor Q T τ} {m' : Monitor Q' T τ} (h : Related R m m') {q : Q} {q' : Q'}
    (hq : R q q') (t : τ) (w : Waiting T) : Related R (m.set q t w) (m'.set q' t w) := by
  refine ⟨hq, ?_⟩
  rw [Monitor.set, Monitor.set, h.2]

theorem Refines.putTurn (href : Refines ops ops' R) {m : Monitor Q T τ} {m' : Monitor Q' T τ}
    (h : Related R m m') (t : τ) (x : T) :
    (putTurn ops' m' t x).2 = (putTurn ops m t x).2 ∧
      Related R (putTurn ops m t x).1 (putTurn ops' m' t x).1 := by
  unfold BoundedBuffer.putTurn
  rw [← href.isFull h.1]
  split
  · exact ⟨rfl, h.set h.1 t _⟩
  · rename_i hroom
    exact ⟨rfl, h.set (href.enqueue x h.1 (by simpa using hroom)) t _⟩

theorem Refines.getTurn (href : Refines ops ops' R) {m b : Monitor Q T τ} {m' : Monitor Q' T τ}
    (h : Related R m m') {t : τ} {w : Waiting T} {o : Answer T}
    (made : getTurn ops m t w = some (b, o)) :
    ∃ b', getTurn ops' m' t w = some (b', o) ∧ Related R b b' := by
  unfold BoundedBuffer.getTurn at made ⊢
  rw [← href.isEmpty h.1, ← href.isInterrupted h.1]
  split at made
  · rename_i hempty
    cases made
    exact ⟨_, if_pos hempty, h.set h.1 t w⟩
  · rename_i hempty
    rw [if_neg hempty]
    split at made
    · rename_i hint
      cases made
      exact ⟨_, if_pos hint, h.set h.1 t .no⟩
    · rename_i hint
      have hsome : ops.isEmpty m.queue = false := by
        simpa [hint] using hempty
      obtain ⟨x, r, r', htaken, htaken', hr⟩ := href.dequeue h.1 hsome
      rw [htaken] at made
      cases made
      rw [if_neg hint, htaken']
      exact ⟨_, rfl, h.set hr t .no⟩

theorem Refines.step (href : Refines ops ops' R) {m b : Monitor Q T τ} {m' : Monitor Q' T τ}
    {e : Event T τ} {o : Answer T} (h : Related R m m') (made : step ops m e = some (b, o)) :
    ∃ b', BoundedBuffer.step ops' m' e = some (b', o) ∧ Related R b b' := by
  have hput : ∀ t x, some (BoundedBuffer.putTurn ops m t x) = some (b, o) →
      ∃ b', some (BoundedBuffer.putTurn ops' m' t x) = some (b', o) ∧ Related R b b' := by
    intro t x hturn
    obtain ⟨hanswer, hrel⟩ := href.putTurn h t x
    rw [Option.some.inj hturn] at hanswer hrel
    exact ⟨_, congrArg some (Prod.ext rfl hanswer), hrel⟩
  cases e with
  | put t x =>
    obtain ⟨hno, hturn⟩ := Option.ite_none_right_eq_some.mp made
    rw [h.2] at hno
    rw [BoundedBuffer.step, if_pos hno]
    exact hput t x hturn
  | tryPut t x =>
    obtain ⟨hno, hturn⟩ := Option.ite_none_right_eq_some.mp made
    rw [h.2] at hno
    rw [BoundedBuffer.step, if_pos hno, ← href.isFull h.1]
    split at hturn
    · rename_i hfull
      cases hturn
      exact ⟨m', if_pos hfull, h⟩
    · rename_i hroom
      cases hturn
      exact ⟨_, if_neg hroom, h.set (href.enqueue x h.1 (by simpa using hroom)) t .no⟩
  | get t =>
    obtain ⟨hno, hturn⟩ := Option.ite_none_right_eq_some.mp made
    rw [h.2] at hno
    rw [BoundedBuffer.step, if_pos hno]
    exact href.getTurn h hturn
  | getTimed t =>
    obtain ⟨hno, hturn⟩ := Option.ite_none_right_eq_some.mp made
    rw [h.2] at hno
    rw [BoundedBuffer.step, if_pos hno]
    exact href.getTurn h hturn
  | wake t =>
    rw [BoundedBuffer.step, h.2] at made
    rw [BoundedBuffer.step]
    cases hw : m'.waiting t with
    | no => simp [hw] at made
    | toPut x =>
      simp only [hw] at made
      exact hput t x made
    | toGet =>
      simp only [hw] at made
      exact href.getTurn h made
    | toGetTimed =>
      simp only [hw] at made
      exact href.getTurn h made
  | timeout t =>
    rw [BoundedBuffer.step, h.2] at made
    rw [BoundedBuffer.step]
    cases hw : m'.waiting t with
    | toGetTimed =>
      simp only [hw] at made
      cases made
      exact ⟨_, rfl, h.set h.1 t .no⟩
    | no => simp [hw] at made
    | toPut x => simp [hw] at made
    | toGet => simp [hw] at made
  | interrupt t =>
    obtain ⟨hno, hturn⟩ := Option.ite_none_right_eq_some.mp made
    rw [h.2] at hno
    cases hturn
    exact ⟨_, if_pos hno, h.set (href.interrupt h.1) t .no⟩

/-- All runs of a buffer look like runs of the one that it refines. -/
theorem Refines.run (href : Refines ops ops' R) {m m₁ : Monitor Q T τ} {m' : Monitor Q' T τ}
    {tr : List (Move (Monitor Q T τ) (Event T τ) (Answer T))} (h : Related R m m')
    (run : Run (BoundedBuffer.step ops) m tr m₁) :
    ∃ tr' m₁', Run (BoundedBuffer.step ops') m' tr' m₁' ∧ Related R m₁ m₁' ∧
      observed tr' = observed tr :=
  run.simulation (Related R) h fun _ _ _ _ _ hrel made => href.step hrel made

end Refinement

/-! ## Runs of the list -/

section ListRuns
variable {T τ : Type} {n : ℕ}

/-- What holds of a list and of what was observed before: of the elements that were accepted, first
come those that were returned and then those still queued. -/
structure InOrder (n : ℕ) (obs : List (Event T τ × Answer T)) (q : ListQueue T) : Prop where
  order : accepted obs = returned obs ++ q.items
  bound : q.items.length ≤ n
  interrupted : (∃ p ∈ obs, p.2 = .interrupted) → q.interrupted = true

theorem accepted_snoc (obs : List (Event T τ × Answer T)) (e : Event T τ) (o : Answer T) :
    accepted (obs ++ [(e, o)]) = accepted obs ++ o.accepted := by
  simp [accepted]

theorem returned_snoc (obs : List (Event T τ × Answer T)) (e : Event T τ) (o : Answer T) :
    returned (obs ++ [(e, o)]) = returned obs ++ o.returned := by
  simp [returned]

theorem exists_interrupted_snoc {obs : List (Event T τ × Answer T)} {e : Event T τ} {o : Answer T}
    (ho : o ≠ .interrupted) (h : ∃ p ∈ obs ++ [(e, o)], p.2 = .interrupted) :
    ∃ p ∈ obs, p.2 = .interrupted := by
  obtain ⟨p, hp, hint⟩ := h
  rcases List.mem_append.mp hp with hp | hp
  · exact ⟨p, hp, hint⟩
  · obtain rfl := List.mem_singleton.mp hp
    exact absurd hint ho

theorem InOrder.change {obs : List (Event T τ × Answer T)} {q q' : ListQueue T} {e : Event T τ}
    {o : Answer T} (h : InOrder n obs q) (hc : Change (listOps T n) q o q') :
    InOrder n (obs ++ [(e, o)]) q' := by
  cases hc with
  | accepts x room hin hout =>
    have hroom : q.items.length ≠ n := by simpa [listOps] using room
    have hle := h.bound
    have hne : o ≠ .interrupted := by
      rintro rfl
      cases hin
    refine ⟨?_, ?_, fun hint => h.interrupted (exists_interrupted_snoc hne hint)⟩
    · rw [accepted_snoc, returned_snoc, h.order, hin, hout, List.append_nil, List.append_assoc]
      rfl
    · change (q.items ++ [x]).length ≤ n
      rw [List.length_append, List.length_singleton]
      omega
  | @returns x _ running taken =>
    have hcons : q.items = x :: q'.items ∧ q'.interrupted = q.interrupted := by
      simp only [listOps] at taken
      split at taken
      · cases taken
      · rename_i hitems
        cases taken
        exact ⟨hitems, rfl⟩
    have hle := h.bound
    rw [hcons.1, List.length_cons] at hle
    refine ⟨?_, by omega, fun hint => ?_⟩
    · rw [accepted_snoc, returned_snoc, h.order, hcons.1]
      simp [Answer.accepted, Answer.returned]
    · rw [hcons.2]
      exact h.interrupted (exists_interrupted_snoc (by simp) hint)
  | quiet hin hout hint =>
    refine ⟨?_, h.bound, fun hi => h.interrupted (exists_interrupted_snoc hint hi)⟩
    rw [accepted_snoc, returned_snoc, hin, hout, List.append_nil, List.append_nil, h.order]
  | interrupts =>
    refine ⟨?_, h.bound, fun _ => rfl⟩
    rw [accepted_snoc, returned_snoc, h.order]
    simp [Answer.accepted, Answer.returned, listOps]

theorem list_run [DecidableEq τ]
    {tr : List (Move (Monitor (ListQueue T) T τ) (Event T τ) (Answer T))}
    {m : Monitor (ListQueue T) T τ} (run : Run (step (listOps T n)) (ListQueue.start T τ) tr m) :
    InOrder n (observed tr) m.queue := by
  refine Run.history_invariant (fun _ => True)
    (fun tr (m : Monitor (ListQueue T) T τ) => InOrder n (observed tr) m.queue)
    ⟨rfl, Nat.zero_le _, by simp [observed]⟩ ?_ run (fun _ _ => trivial)
  intro tr a e b o h _ made
  rw [observed, List.map_append]
  exact h.change (step_change made)

end ListRuns

/-! ## Rings -/

section Rings
variable {T : Type} {n : ℕ} [NeZero n]

/-- The `k` cells of a ring from `r` on. -/
def window (data : Fin n → T) (r : Fin n) (k : ℕ) : List T :=
  (List.range k).map fun i => data (r + Fin.ofNat n i)

@[simp] theorem window_length (data : Fin n → T) (r : Fin n) (k : ℕ) :
    (window data r k).length = k := by
  simp [window]

theorem ofNat_succ (k : ℕ) : Fin.ofNat n (k + 1) = Fin.ofNat n k + 1 := by
  apply Fin.ext
  simp [Fin.val_add, Fin.ofNat]

theorem window_cons (data : Fin n → T) (r : Fin n) (k : ℕ) :
    window data r (k + 1) = data r :: window data (r + 1) k := by
  have hshift : ∀ i, r + 1 + Fin.ofNat n i = r + Fin.ofNat n (i + 1) := by
    intro i
    rw [ofNat_succ, add_assoc, add_comm 1]
  rw [window, List.range_succ_eq_map, List.map_cons, List.map_map, window]
  congr 1
  · rw [Fin.ofNat_zero, add_zero]
  · exact List.map_congr_left fun i _ => congrArg data (hshift i).symm

/-- Writing behind the last cell of a window that does not fill the ring makes it longer. -/
theorem window_snoc (data : Fin n → T) (r : Fin n) {k : ℕ} (hk : k < n) (x : T) :
    window (Function.update data (r + Fin.ofNat n k) x) r (k + 1) = window data r k ++ [x] := by
  rw [window, List.range_succ, List.map_append, window]
  congr 1
  · refine List.map_congr_left fun i hi => ?_
    have hik : i < k := List.mem_range.mp hi
    refine Function.update_of_ne (fun he => ?_) _ _
    have hval := congrArg Fin.val (add_left_cancel he)
    rw [Fin.val_ofNat, Fin.val_ofNat, Nat.mod_eq_of_lt hk,
      Nat.mod_eq_of_lt (hik.trans hk)] at hval
    omega
  · simp

/-- A window begins where it ends if it is empty or fills the ring. -/
theorem add_ofNat_eq_self_iff (r : Fin n) {k : ℕ} (hk : k ≤ n) :
    r + Fin.ofNat n k = r ↔ k = 0 ∨ k = n := by
  rw [add_eq_left, Fin.ext_iff, Fin.val_ofNat, Fin.val_zero]
  constructor
  · intro h
    by_cases hn : k = n
    · exact Or.inr hn
    · rw [Nat.mod_eq_of_lt (by omega)] at h
      exact Or.inl h
  · rintro (rfl | rfl)
    · exact Nat.zero_mod n
    · exact Nat.mod_self k

end Rings

end BoundedBuffer
