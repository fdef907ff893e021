import MyIp.Foundations.Run

/-! # Threads that take and release locks

A thread is the list of the lock operations it still has to do and the locks it holds. The machine
starts threads and lets them take turns; an acquisition is only possible while no thread, the own
one included, holds the lock in a mode that excludes it.

`Disciplined` is a condition on every acquisition of a program, given the locks held there, and
`Balanced` adds that the program gives back what it took; `step_ordered` carries the discipline
from the programs to the threads of every reachable state.
`no_wait_cycle` is the usual argument against deadlocks: an order on the requests that grows along
every wait. A shared request also waits for a thread that waits for the exclusive lock, since a
lock may prefer writers. -/

namespace Locks
open EventMachine
set_option autoImplicit false

inductive Mode
  | shared | exclusive
  deriving DecidableEq, Repr

instance : Fintype Mode where
  elems := {.shared, .exclusive}
  complete := by
    intro mode
    cases mode <;> simp

def Mode.excludes : Mode → Mode → Bool
  | shared, shared => false
  | _, _ => true

inductive Action (L : Type)
  | acquire (l : L) (mode : Mode)
  | release (l : L)
  deriving DecidableEq

structure Thread (L : Type) where
  held : List (L × Mode) := []
  todo : List (Action L)

section Machine
variable {L Op : Type} [DecidableEq L]

/-- The lock that the thread waits for or takes next. -/
def Thread.request (t : Thread L) : Option (L × Mode) :=
  match t.todo with
  | .acquire l mode :: _ => some (l, mode)
  | _ => none

def free (threads : List (Thread L)) (l : L) (mode : Mode) : Bool :=
  threads.all fun t => t.held.all fun h => h.1 != l || !mode.excludes h.2

/-- The next operation of a thread, once nothing hinders it. -/
def Thread.advance (t : Thread L) : Thread L :=
  match t.todo with
  | [] => t
  | .acquire l mode :: rest => ⟨(l, mode) :: t.held, rest⟩
  | .release l :: rest => ⟨t.held.filter (·.1 != l), rest⟩

inductive Event (Op : Type)
  | start (op : Op)
  | turn (i : ℕ)

/-- The threads after a new one started, or after one of them had its turn. -/
def step (program : Op → List (Action L)) (threads : List (Thread L)) :
    Event Op → Option (List (Thread L) × Unit)
  | .start op => some (threads ++ [⟨[], program op⟩], ())
  | .turn i =>
    match threads[i]? with
    | none => none
    | some t =>
      match t.todo with
      | [] => none
      | .acquire l mode :: _ =>
        if free threads l mode then some (threads.set i t.advance, ()) else none
      | .release _ :: _ => some (threads.set i t.advance, ())

/-- A step starts a thread, or lets one that has something to do go on. -/
theorem step_cases {program : Op → List (Action L)} {threads threads' : List (Thread L)}
    {e : Event Op} {o : Unit} (made : step program threads e = some (threads', o)) :
    (∃ op, e = .start op ∧ threads' = threads ++ [⟨[], program op⟩]) ∨
    ∃ i t, e = .turn i ∧ threads[i]? = some t ∧ t.todo ≠ [] ∧
      (∀ l mode, t.request = some (l, mode) → free threads l mode = true) ∧
      threads' = threads.set i t.advance := by
  cases e with
  | start op =>
    simp only [step, Option.some.injEq, Prod.mk.injEq] at made
    exact .inl ⟨op, rfl, made.1.symm⟩
  | turn i =>
    simp only [step] at made
    split at made
    · cases made
    · next t ht =>
      split at made
      · cases made
      · next l mode rest htodo =>
        split at made
        · next hfree =>
          simp only [Option.some.injEq, Prod.mk.injEq] at made
          refine .inr ⟨i, t, rfl, ht, by simp [htodo], ?_, made.1.symm⟩
          intro l' mode' hreq
          simp only [Thread.request, htodo, Option.some.injEq, Prod.mk.injEq] at hreq
          obtain ⟨rfl, rfl⟩ := hreq
          exact hfree
        · cases made
      · next l rest htodo =>
        simp only [Option.some.injEq, Prod.mk.injEq] at made
        exact .inr ⟨i, t, rfl, ht, by simp [htodo], by simp [Thread.request, htodo],
          made.1.symm⟩

/-! ## A discipline for acquisitions -/

/-- Along the operations `todo`, started with the locks `held`, every acquisition is `ok` for the
locks held at that point. -/
def Disciplined (ok : List (L × Mode) → L → Mode → Prop) :
    List (L × Mode) → List (Action L) → Prop
  | _, [] => True
  | held, .acquire l mode :: rest =>
    ok held l mode ∧ Disciplined ok ((l, mode) :: held) rest
  | held, .release l :: rest => Disciplined ok (held.filter (·.1 != l)) rest

/-- The locks held after some operations. -/
def heldAfter : List (L × Mode) → List (Action L) → List (L × Mode)
  | held, [] => held
  | held, .acquire l mode :: rest => heldAfter ((l, mode) :: held) rest
  | held, .release l :: rest => heldAfter (held.filter (·.1 != l)) rest

theorem heldAfter_append (held : List (L × Mode)) (before after : List (Action L)) :
    heldAfter held (before ++ after) = heldAfter (heldAfter held before) after := by
  induction before generalizing held with
  | nil => rfl
  | cons a rest ih =>
    cases a with
    | acquire l mode => exact ih _
    | release l => exact ih _

variable {ok : List (L × Mode) → L → Mode → Prop}

theorem Disciplined.append {held : List (L × Mode)} {before after : List (Action L)}
    (h : Disciplined ok held before) (h' : Disciplined ok (heldAfter held before) after) :
    Disciplined ok held (before ++ after) := by
  induction before generalizing held with
  | nil => exact h'
  | cons a rest ih =>
    cases a with
    | acquire l mode => exact ⟨h.1, ih h.2 h'⟩
    | release l => exact ih h h'

/-- A disciplined piece of a program that gives back what it took. -/
def Balanced (ok : List (L × Mode) → L → Mode → Prop) (held : List (L × Mode))
    (block : List (Action L)) : Prop :=
  Disciplined ok held block ∧ heldAfter held block = held

theorem Balanced.nil (held : List (L × Mode)) : Balanced ok held [] := ⟨trivial, rfl⟩

theorem Balanced.append {held : List (L × Mode)} {before after : List (Action L)}
    (h : Balanced ok held before) (h' : Balanced ok held after) :
    Balanced ok held (before ++ after) := by
  refine ⟨h.1.append (by rw [h.2]; exact h'.1), ?_⟩
  rw [heldAfter_append, h.2, h'.2]

theorem Balanced.flatMap {α : Type} {held : List (L × Mode)} {block : α → List (Action L)}
    (h : ∀ x, Balanced ok held (block x)) (xs : List α) : Balanced ok held (xs.flatMap block) := by
  induction xs with
  | nil => exact .nil held
  | cons x xs ih =>
    rw [List.flatMap_cons]
    exact (h x).append ih

/-- The scope of a lock. -/
theorem Balanced.scope {held : List (L × Mode)} {l : L} {mode : Mode} {b : List (Action L)}
    (hok : ok held l mode) (fresh : ∀ h ∈ held, h.1 ≠ l)
    (h : Balanced ok ((l, mode) :: held) b) :
    Balanced ok held (.acquire l mode :: b ++ [.release l]) := by
  refine ⟨⟨hok, h.1.append ?_⟩, ?_⟩
  · rw [h.2]
    exact trivial
  · rw [List.cons_append, heldAfter, heldAfter_append, h.2]
    simpa [heldAfter, List.filter_cons, List.filter_eq_self] using fresh

/-- A wait that gives a lock back for a while. -/
theorem Balanced.pause {l : L} {mode : Mode} (hok : ok [] l mode) :
    Balanced ok [(l, mode)] [.release l, .acquire l mode] := by
  have hnone : [(l, mode)].filter (·.1 != l) = [] := by simp
  refine ⟨?_, ?_⟩
  · rw [Disciplined, hnone]
    exact ⟨hok, trivial⟩
  · rw [heldAfter, hnone]
    rfl

theorem Disciplined.advance {t : Thread L} (h : Disciplined ok t.held t.todo) :
    Disciplined ok t.advance.held t.advance.todo := by
  obtain ⟨held, todo⟩ := t
  cases todo with
  | nil => trivial
  | cons a rest =>
    cases a with
    | acquire l mode => exact h.2
    | release l => exact h

theorem Disciplined.request {t : Thread L} {l : L} {mode : Mode}
    (h : Disciplined ok t.held t.todo) (hreq : t.request = some (l, mode)) : ok t.held l mode := by
  obtain ⟨held, todo⟩ := t
  cases todo with
  | nil => cases hreq
  | cons a rest =>
    cases a with
    | acquire l' mode' =>
      simp only [Thread.request, Option.some.injEq, Prod.mk.injEq] at hreq
      obtain ⟨rfl, rfl⟩ := hreq
      exact h.1
    | release l' => cases hreq

/-- The thread keeps to the discipline until it is done. -/
def Thread.Ordered (ok : List (L × Mode) → L → Mode → Prop) (t : Thread L) : Prop :=
  Disciplined ok t.held t.todo

theorem step_ordered {program : Op → List (Action L)} {threads threads' : List (Thread L)}
    {e : Event Op} {o : Unit} (h : ∀ t ∈ threads, t.Ordered ok)
    (hop : ∀ op, e = .start op → Disciplined ok [] (program op))
    (made : step program threads e = some (threads', o)) : ∀ t ∈ threads', t.Ordered ok := by
  rcases step_cases made with ⟨op, he, rfl⟩ | ⟨i, t, -, ht, -, -, rfl⟩
  · intro t ht
    rcases List.mem_append.mp ht with ht | ht
    · exact h t ht
    · obtain rfl := List.mem_singleton.mp ht
      exact hop op he
  · intro t' ht'
    rcases List.mem_or_eq_of_mem_set ht' with ht' | rfl
    · exact h t' ht'
    · exact (h t (List.mem_of_getElem? ht)).advance

/-! ## Waiting -/

/-- Thread `i` cannot go on before thread `j`: `j` holds the lock that `i` requests, or waits for
the exclusive lock that `i` wants to share. -/
def Waits (threads : List (Thread L)) (i j : ℕ) : Prop :=
  ∃ t t' l mode, threads[i]? = some t ∧ threads[j]? = some t' ∧ t.request = some (l, mode) ∧
    ((∃ mode', (l, mode') ∈ t'.held ∧ mode.excludes mode' = true) ∨
      (mode = .shared ∧ t'.request = some (l, .exclusive)))

/-! ## Nested acquisitions -/

/-- A lock with `p` is acquired before `l` is released. -/
def nestsIn (p : L → Bool) (l : L) : List (Action L) → Bool
  | [] => false
  | .acquire l' _ :: rest => p l' || nestsIn p l rest
  | .release l' :: rest => l' != l && nestsIn p l rest

/-- The thread holds `l` and will acquire a lock with `p` before it releases `l`. -/
def Thread.nests (t : Thread L) (l : L) (p : L → Bool) : Prop :=
  (∃ mode, (l, mode) ∈ t.held) ∧ nestsIn p l t.todo = true

instance (t : Thread L) (l : L) (p : L → Bool) : Decidable (t.nests l p) :=
  inferInstanceAs (Decidable ((∃ mode, (l, mode) ∈ t.held) ∧ nestsIn p l t.todo = true))

/-- Such a nesting begins when `l` is taken. -/
theorem Thread.nests_advance {t : Thread L} {l : L} {p : L → Bool} (h : t.advance.nests l p) :
    t.nests l p ∨ ∃ mode, t.request = some (l, mode) ∧ nestsIn p l t.todo.tail = true := by
  obtain ⟨held, todo⟩ := t
  obtain ⟨⟨mode, hmem⟩, hnest⟩ := h
  cases todo with
  | nil => exact .inl ⟨⟨mode, hmem⟩, hnest⟩
  | cons a rest =>
    cases a with
    | acquire l' mode' =>
      rcases List.mem_cons.mp hmem with heq | hmem
      · obtain ⟨rfl, rfl⟩ := Prod.mk.inj heq
        exact .inr ⟨mode, rfl, hnest⟩
      · exact .inl ⟨⟨mode, hmem⟩, by simpa [nestsIn] using .inr hnest⟩
    | release l' =>
      simp only [Thread.advance, List.mem_filter, bne_iff_ne, ne_eq] at hmem
      refine .inl ⟨⟨mode, hmem.1⟩, ?_⟩
      simp only [nestsIn, Bool.and_eq_true, bne_iff_ne]
      exact ⟨fun heq => hmem.2 heq.symm, hnest⟩

theorem Thread.nests_of_request {t : Thread L} {l l' : L} {mode mode' : Mode} {p : L → Bool}
    (hheld : (l, mode) ∈ t.held) (hreq : t.request = some (l', mode')) (hp : p l' = true) :
    t.nests l p := by
  obtain ⟨held, todo⟩ := t
  refine ⟨⟨mode, hheld⟩, ?_⟩
  cases todo with
  | nil => cases hreq
  | cons a rest =>
    cases a with
    | acquire l1 mode1 =>
      simp only [Thread.request, Option.some.injEq, Prod.mk.injEq] at hreq
      obtain ⟨rfl, rfl⟩ := hreq
      simp [nestsIn, hp]
    | release l1 => cases hreq

end Machine

/-- A request by the rank of its lock, and for one lock the exclusive request after the shared. -/
def height {L : Type} (rank : L → ℕ) : L × Mode → ℕ
  | (l, .shared) => 2 * rank l
  | (l, .exclusive) => 2 * rank l + 1

theorem height_lt {L : Type} {rank : L → ℕ} {l l' : L} {mode mode' : Mode} (h : rank l < rank l') :
    height rank (l, mode) < height rank (l', mode') := by
  cases mode <;> cases mode' <;> simp only [height] <;> omega

/-- A relation whose steps, where they have a step before and a step after them, go up. -/
theorem no_cycle_of_rises {α : Type} {R : α → α → Prop} (μ : α → ℕ)
    (rises : ∀ a b c d, R a b → R b c → R c d → μ b < μ c) (a : α) :
    ¬Relation.TransGen R a a := by
  have hup : ∀ {p x y q : α}, R p x → Relation.TransGen R x y → R y q → μ x < μ y := by
    intro p x y q hp hxy
    induction hxy generalizing q with
    | single h => exact fun hq => rises p x _ q hp h hq
    | @tail b c hxb hbc ih =>
      intro hq
      obtain ⟨b', -, hb'⟩ := Relation.TransGen.tail'_iff.mp hxb
      exact (ih hbc).trans (rises b' b c q hb' hbc hq)
  intro h
  obtain ⟨p, -, hp⟩ := Relation.TransGen.tail'_iff.mp h
  obtain ⟨q, hq, -⟩ := Relation.TransGen.head'_iff.mp h
  exact lt_irrefl _ (hup hp h hq)

/-- There is no cycle of waits if every thread that is waited for itself requests higher locks than
the one that the others wait for. The condition is needed only for waits that have others waiting
behind them. -/
theorem no_wait_cycle {L : Type} [DecidableEq L] {threads : List (Thread L)} (rank : L → ℕ)
    (rises : ∀ i j k t t' l l' mode mode' mode'', Waits threads i j → Waits threads j k →
      threads[j]? = some t → threads[k]? = some t' → t.request = some (l, mode) →
      (l, mode') ∈ t'.held → t'.request = some (l', mode'') → rank l < rank l') (i : ℕ) :
    ¬Relation.TransGen (Waits threads) i i := by
  apply no_cycle_of_rises fun i =>
    ((threads[i]?).bind Thread.request).elim 0 (height rank)
  rintro i j k n hij hjk ⟨t', t'', l', mode', hk, hn, hreq', -⟩
  obtain ⟨t, t1, l, mode, hj, hk', hreq, hheld⟩ := id hjk
  obtain rfl := Option.some.inj (hk.symm.trans hk')
  simp only [hj, hk, Option.bind_some, hreq, hreq', Option.elim_some]
  rcases hheld with ⟨mode1, hmem, -⟩ | ⟨rfl, hwriter⟩
  · exact height_lt (rises i j k t t' l l' mode mode1 mode' hij hjk hj hk hreq hmem hreq')
  · rw [hreq'] at hwriter
    simp only [Option.some.injEq, Prod.mk.injEq] at hwriter
    obtain ⟨rfl, rfl⟩ := hwriter
    simp [height]

end Locks
