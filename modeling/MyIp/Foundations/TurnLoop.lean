import Mathlib.Computability.StateTransition
import Mathlib.Tactic

/-! # Loops whose turns move on or stand still

A loop is a function from a state to the state after one more turn, `none` when the loop is left.
`Ends` says that it is left after finitely many turns. The loops here have a measure that gets
smaller with every turn that changes the state at all, so the only way not to end is to come to a
state that a turn does not change: `ends_iff_moves`.

A loop with a result is a function to the next state or the result; `run` makes so many turns of it.
Where only a part of the state decides about the turns, as a cursor does, the loop ends if and only
if the loop over that part does (`ends_map`), and so many turns as the cursor has to move on are
enough to find the result (`run_eq_none_iff`). -/

namespace TurnLoop
open StateTransition
set_option autoImplicit false

variable {σ : Type} {turn : σ → Option σ}

def Ends (turn : σ → Option σ) (s : σ) : Prop := ∃ t, Reaches turn s t ∧ turn t = none

theorem ends_of_left {s : σ} (h : turn s = none) : Ends turn s :=
  ⟨s, Relation.ReflTransGen.refl, h⟩

theorem ends_turn_iff {s t : σ} (h : turn s = some t) : Ends turn s ↔ Ends turn t := by
  constructor
  · rintro ⟨u, hu, hleft⟩
    rcases Relation.ReflTransGen.cases_head hu with rfl | ⟨t', ht', hu⟩
    · rw [h] at hleft
      cases hleft
    · obtain rfl := Option.mem_unique ht' h
      exact ⟨u, hu, hleft⟩
  · rintro ⟨u, hu, hleft⟩
    exact ⟨u, Relation.ReflTransGen.head h hu, hleft⟩

theorem reaches_standstill {s t : σ} (still : turn s = some s) (h : Reaches turn s t) : t = s := by
  induction h with
  | refl => rfl
  | tail _ made ih =>
    rw [ih] at made
    exact Option.mem_unique made still

theorem not_ends_of_standstill {s t : σ} (h : Reaches turn s t) (still : turn t = some t) :
    ¬ Ends turn s := by
  rintro ⟨u, hu, hleft⟩
  rcases reaches_total h hu with h' | h'
  · rw [reaches_standstill still h', still] at hleft
    cases hleft
  · rcases Relation.ReflTransGen.cases_head h' with rfl | ⟨v, hv, -⟩
    · rw [still] at hleft
      cases hleft
    · rw [Option.mem_def, hleft] at hv
      cases hv

/-- A loop with a measure that every turn either makes smaller or changes nothing ends if and only
if no state it comes to stands still. -/
theorem ends_iff_moves (m : σ → ℕ) (move : ∀ s t, turn s = some t → m t < m s ∨ t = s) (s : σ) :
    Ends turn s ↔ ∀ t, Reaches turn s t → turn t ≠ some t := by
  constructor
  · intro h t ht still
    exact not_ends_of_standstill ht still h
  · intro h
    induction hm : m s using Nat.strong_induction_on generalizing s with
    | _ n ih =>
      cases hs : turn s with
      | none => exact ends_of_left hs
      | some t =>
        rw [ends_turn_iff hs]
        rcases move s t hs with hlt | rfl
        · exact ih (m t) (by omega) t (fun u hu => h u (hu.head hs)) rfl
        · exact absurd hs (h t Relation.ReflTransGen.refl)

/-! ## A part of the state that decides -/

section Cursor

variable {κ : Type} {cursorTurn : κ → Option κ} {c : σ → κ}

theorem reaches_cursor (follows : ∀ s, (turn s).map c = cursorTurn (c s)) {s t : σ}
    (h : Reaches turn s t) : Reaches cursorTurn (c s) (c t) := by
  induction h with
  | refl => exact Relation.ReflTransGen.refl
  | tail _ made ih =>
    refine ih.tail ?_
    rw [Option.mem_def] at made ⊢
    rw [← follows, made]
    rfl

theorem reaches_of_cursor (follows : ∀ s, (turn s).map c = cursorTurn (c s)) {s : σ} {k : κ}
    (h : Reaches cursorTurn (c s) k) : ∃ t, Reaches turn s t ∧ c t = k := by
  induction h with
  | refl => exact ⟨s, Relation.ReflTransGen.refl, rfl⟩
  | tail _ made ih =>
    obtain ⟨t, ht, rfl⟩ := ih
    rw [Option.mem_def, ← follows, Option.map_eq_some_iff] at made
    obtain ⟨u, hu, rfl⟩ := made
    exact ⟨u, ht.tail hu, rfl⟩

theorem ends_map (follows : ∀ s, (turn s).map c = cursorTurn (c s)) (s : σ) :
    Ends turn s ↔ Ends cursorTurn (c s) := by
  constructor
  · rintro ⟨t, ht, hleft⟩
    refine ⟨c t, reaches_cursor follows ht, ?_⟩
    rw [← follows, hleft]
    rfl
  · rintro ⟨k, hk, hleft⟩
    obtain ⟨t, ht, rfl⟩ := reaches_of_cursor follows hk
    refine ⟨t, ht, ?_⟩
    rw [← follows, Option.map_eq_none_iff] at hleft
    exact hleft

end Cursor

/-! ## Loops with a result -/

variable {ρ : Type} {step : σ → σ ⊕ ρ}

def goesOn (step : σ → σ ⊕ ρ) (s : σ) : Option σ := (step s).getLeft?

def run (step : σ → σ ⊕ ρ) : ℕ → σ → Option ρ
  | 0, _ => none
  | n + 1, s => (step s).elim (run step n) some

theorem run_next {s t : σ} (h : step s = .inl t) (n : ℕ) : run step (n + 1) s = run step n t := by
  rw [run, h]
  rfl

theorem run_left {s : σ} {r : ρ} (h : step s = .inr r) (n : ℕ) : run step (n + 1) s = some r := by
  rw [run, h]
  rfl

theorem goesOn_next {s t : σ} (h : step s = .inl t) : goesOn step s = some t := by
  rw [goesOn, h]
  rfl

theorem goesOn_left {s : σ} {r : ρ} (h : step s = .inr r) : goesOn step s = none := by
  rw [goesOn, h]
  rfl

theorem ends_of_run {n : ℕ} {s : σ} (h : run step n s ≠ none) : Ends (goesOn step) s := by
  induction n generalizing s with
  | zero => exact absurd rfl h
  | succ n ih =>
    cases hs : step s with
    | inl t =>
      rw [run_next hs] at h
      rw [ends_turn_iff (goesOn_next hs)]
      exact ih h
    | inr r => exact ends_of_left (goesOn_left hs)

/-- With more turns than the cursor's measure counts there is no result only if the loop does not
end. -/
theorem run_eq_none_iff {κ : Type} {cursorTurn : κ → Option κ} {c : σ → κ}
    (follows : ∀ s, (goesOn step s).map c = cursorTurn (c s)) (m : κ → ℕ)
    (move : ∀ k l, cursorTurn k = some l → m l < m k ∨ l = k) {n : ℕ} {s : σ}
    (enough : m (c s) < n) : run step n s = none ↔ ¬ Ends (goesOn step) s := by
  constructor
  · intro hrun hends
    induction n generalizing s with
    | zero => omega
    | succ n ih =>
      cases hs : step s with
      | inr r =>
        rw [run_left hs] at hrun
        cases hrun
      | inl t =>
        rw [run_next hs] at hrun
        have made : cursorTurn (c s) = some (c t) := by
          rw [← follows, goesOn_next hs]
          rfl
        rcases move _ _ made with hlt | hsame
        · exact ih (by omega) hrun ((ends_turn_iff (goesOn_next hs)).mp hends)
        · rw [hsame] at made
          exact not_ends_of_standstill Relation.ReflTransGen.refl made
            ((ends_map follows s).mp hends)
  · intro h
    by_contra hrun
    exact h (ends_of_run hrun)

end TurnLoop
