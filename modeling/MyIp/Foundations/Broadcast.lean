import MyIp.Foundations.Exchange
import Mathlib.Logic.Function.Basic

/-! # Many machines on one network

Any number of machines share a network. What one of them sends may come to any of them, to itself
too, any number of times and in any order, or to none. If each machine keeps its invariant and sends
only messages of a kind as long as it is given only messages of that kind, then all of them do so in
every run (`keeps`). -/

namespace Broadcast
set_option autoImplicit false

open EventMachine Exchange

variable {ι σ ε ω μ : Type}

/-- The machines and all that was sent. -/
structure State (ι σ μ : Type) where
  locals : ι → σ
  sent : List μ

/-- An event of one machine. -/
def step [DecidableEq ι] [DecidableEq μ] (parties : ι → Party σ ε ω μ) (s : State ι σ μ)
    (e : ι × ε) : Option (State ι σ μ × ω) :=
  if (parties e.1).Carried s.sent e.2 then
    ((parties e.1).step (s.locals e.1) e.2).map fun (a, o) =>
      (⟨Function.update s.locals e.1 a, s.sent ++ (parties e.1).sends o⟩, o)
  else none

section Steps
variable [DecidableEq ι] [DecidableEq μ] {parties : ι → Party σ ε ω μ} {s t : State ι σ μ}

theorem step_some {e : ι × ε} {o : ω} (made : step parties s e = some (t, o)) :
    (parties e.1).Carried s.sent e.2 ∧
      ∃ a, (parties e.1).step (s.locals e.1) e.2 = some (a, o) ∧
        t = ⟨Function.update s.locals e.1 a, s.sent ++ (parties e.1).sends o⟩ := by
  rw [step] at made
  split at made
  · next hcarried =>
    obtain ⟨⟨a, o'⟩, hstep, hpair⟩ := Option.map_eq_some_iff.mp made
    obtain ⟨rfl, rfl⟩ := Prod.mk.inj hpair
    exact ⟨hcarried, a, hstep, rfl⟩
  · cases made

/-- Assuming that only messages of the kind `M` arrive, each machine guarantees that it sends no
others. -/
theorem keeps (I : ι → σ → Prop) (M : μ → Prop)
    (party : ∀ i a e b o, I i a → (∀ m, (parties i).receives e = some m → M m) →
      (parties i).step a e = some (b, o) → I i b ∧ ∀ m ∈ (parties i).sends o, M m)
    (init : ∀ i, I i (s.locals i)) (first : ∀ m ∈ s.sent, M m)
    {tr : List (Move (State ι σ μ) (ι × ε) ω)} (run : Run (step parties) s tr t) :
    (∀ i, I i (t.locals i)) ∧ ∀ m ∈ t.sent, M m := by
  refine Run.invariant (fun t => (∀ i, I i (t.locals i)) ∧ ∀ m ∈ t.sent, M m) ⟨init, first⟩ ?_ run
  intro a e b o h made
  obtain ⟨hlocals, hsent⟩ := h
  obtain ⟨hcarried, c, hstep, rfl⟩ := step_some made
  obtain ⟨hi, hnew⟩ := party e.1 _ _ _ _ (hlocals e.1) (fun m hm => hsent m (hcarried m hm)) hstep
  constructor
  · intro i
    by_cases h : i = e.1
    · subst h
      simpa using hi
    · simpa [h] using hlocals i
  · intro m hm
    obtain hm | hm := List.mem_append.mp hm
    · exact hsent m hm
    · exact hnew m hm

end Steps

end Broadcast
