import Mathlib.Tactic

/-! # Runs of a machine that answers events

A machine is a partial step function: in a state, an event either has no answer (the machine does
not come back from it, or the event cannot happen there) or leads to a next state with an output.
`Run` is the finite executions of such a machine together with their history, `exec` computes
them, and the rules below turn one-step facts into facts about whole runs:

* `Run.invariant` for a property of states,
* `Run.history_invariant` for a property of the state and everything that happened before it,
  over the runs whose moves all meet a side condition,
* `Run.move_origin` for the state in which a given move of a run was made,
* `Run.split` for what comes before and after it,
* `Run.simulation` for a second machine that can answer as the first one does.

`Throughout` is a condition on every move of a run that may look at the moves before it. -/

namespace EventMachine
set_option autoImplicit false

structure Move (σ ε ω : Type) where
  before : σ
  event : ε
  output : ω

section Runs
variable {σ ε ω : Type} (step : σ → ε → Option (σ × ω))

/-- `Run step s tr t`: from `s` the machine reaches `t` by the moves `tr`, oldest first. -/
inductive Run (s : σ) : List (Move σ ε ω) → σ → Prop
  | nil : Run s [] s
  | snoc {tr : List (Move σ ε ω)} {t u : σ} {e : ε} {o : ω} (run : Run s tr t)
      (made : step t e = some (u, o)) : Run s (tr ++ [⟨t, e, o⟩]) u

/-- The run on a list of events, if every event has an answer. -/
def exec : σ → List ε → Option (List (Move σ ε ω) × σ)
  | s, [] => some ([], s)
  | s, e :: es =>
    match step s e with
    | none => none
    | some (t, o) =>
      match exec t es with
      | none => none
      | some (tr, u) => some (⟨s, e, o⟩ :: tr, u)

variable {step}

theorem Run.trans {s t u : σ} {tr tr' : List (Move σ ε ω)} (h : Run step s tr t)
    (h' : Run step t tr' u) : Run step s (tr ++ tr') u := by
  induction h' with
  | nil => simpa using h
  | snoc _ made ih =>
    rw [← List.append_assoc]
    exact Run.snoc ih made

theorem Run.single {s t : σ} {e : ε} {o : ω} (made : step s e = some (t, o)) :
    Run step s [⟨s, e, o⟩] t :=
  Run.snoc Run.nil made

theorem exec_run : ∀ {es : List ε} {s u : σ} {tr : List (Move σ ε ω)},
    exec step s es = some (tr, u) → Run step s tr u
  | [], s, u, tr, h => by
      simp only [exec, Option.some.injEq, Prod.mk.injEq] at h
      obtain ⟨rfl, rfl⟩ := h
      exact Run.nil
  | e :: es, s, u, tr, h => by
      rw [exec] at h
      split at h
      · cases h
      · rename_i t o made
        split at h
        · cases h
        · rename_i tr' u' rest
          simp only [Option.some.injEq, Prod.mk.injEq] at h
          obtain ⟨rfl, rfl⟩ := h
          exact (Run.single made).trans (exec_run rest)

theorem exec_get_run (step : σ → ε → Option (σ × ω)) (s : σ) (es : List ε)
    (h : (exec step s es).isSome) :
    Run step s ((exec step s es).get h).1 ((exec step s es).get h).2 :=
  exec_run (Option.some_get h).symm

/-- A run that is computed, with all that is computed of it. -/
theorem exists_run_of_exec (step : σ → ε → Option (σ × ω)) (s : σ) (es : List ε)
    (P : List (Move σ ε ω) → σ → Prop) [∀ tr t, Decidable (P tr t)]
    (h : (exec step s es).any (fun r => decide (P r.1 r.2)) = true) :
    ∃ tr t, Run step s tr t ∧ P tr t := by
  obtain ⟨r, hexec, hp⟩ := (Option.any_eq_true _ _).mp h
  exact ⟨r.1, r.2, exec_run hexec, of_decide_eq_true hp⟩

/-- A property of states that holds initially and is kept by every step holds after every run. -/
theorem Run.invariant {s t : σ} {tr : List (Move σ ε ω)} (I : σ → Prop) (init : I s)
    (keep : ∀ a e b o, I a → step a e = some (b, o) → I b) (run : Run step s tr t) : I t := by
  induction run with
  | nil => exact init
  | snoc _ made ih => exact keep _ _ _ _ ih made

/-- The same for a property of the state and of the history that led to it, over the runs all of
whose moves meet `Ok`. -/
theorem Run.history_invariant {s t : σ} {tr : List (Move σ ε ω)} (Ok : Move σ ε ω → Prop)
    (I : List (Move σ ε ω) → σ → Prop) (init : I [] s)
    (keep : ∀ tr a e b o, I tr a → Ok ⟨a, e, o⟩ → step a e = some (b, o) → I (tr ++ [⟨a, e, o⟩]) b)
    (run : Run step s tr t) (ok : ∀ m ∈ tr, Ok m) : I tr t := by
  induction run with
  | nil => exact init
  | snoc _ made ih =>
    have before := ih (fun m hm => ok m (List.mem_append_left _ hm))
    have last := ok _ (List.mem_append_right _ (List.mem_singleton_self _))
    exact keep _ _ _ _ _ before last made

/-- Every move meets `Ok` together with the moves before it. -/
def Throughout (Ok : List (Move σ ε ω) → Move σ ε ω → Prop) (tr : List (Move σ ε ω)) : Prop :=
  ∀ pre m post, tr = pre ++ m :: post → Ok pre m

theorem Throughout.snoc {Ok : List (Move σ ε ω) → Move σ ε ω → Prop} {tr : List (Move σ ε ω)}
    {m : Move σ ε ω} (h : Throughout Ok (tr ++ [m])) : Throughout Ok tr ∧ Ok tr m := by
  refine ⟨fun pre m' post he => h pre m' (post ++ [m]) ?_, h tr m [] rfl⟩
  rw [he]
  simp

theorem Throughout.concat {Ok : List (Move σ ε ω) → Move σ ε ω → Prop} {tr : List (Move σ ε ω)}
    {m : Move σ ε ω} (h : Throughout Ok tr) (hm : Ok tr m) : Throughout Ok (tr ++ [m]) := by
  intro pre m' post he
  rcases List.eq_nil_or_concat post with rfl | ⟨post, last, rfl⟩
  · obtain ⟨rfl, hlast⟩ := List.append_inj' he rfl
    obtain rfl := List.singleton_inj.mp hlast
    exact hm
  · rw [List.concat_eq_append, ← List.cons_append, ← List.append_assoc] at he
    obtain ⟨rfl, -⟩ := List.append_inj' he rfl
    exact h pre m' post rfl

theorem throughout_iff {Ok : List (Move σ ε ω) → Move σ ε ω → Prop} {tr : List (Move σ ε ω)} :
    Throughout Ok tr ↔ ∀ i : Fin tr.length, Ok (tr.take i) (tr.get i) := by
  constructor
  · intro h i
    exact h (tr.take i) (tr.get i) (tr.drop (i + 1)) (by simp)
  · rintro h pre m post rfl
    have hi := h ⟨pre.length, by simp⟩
    simpa using hi

instance (Ok : List (Move σ ε ω) → Move σ ε ω → Prop) [∀ pre m, Decidable (Ok pre m)]
    (tr : List (Move σ ε ω)) : Decidable (Throughout Ok tr) :=
  decidable_of_iff _ throughout_iff.symm

/-- Every move of a run was made in a state that the run reached before it. -/
theorem Run.move_origin {s t : σ} {tr : List (Move σ ε ω)} (run : Run step s tr t) :
    ∀ m ∈ tr, ∃ pre post u, tr = pre ++ m :: post ∧ Run step s pre m.before ∧
      step m.before m.event = some (u, m.output) := by
  induction run with
  | nil => intro m hm; cases hm
  | @snoc tr t u e o run made ih =>
    intro m hm
    rcases List.mem_append.mp hm with hm | hm
    · obtain ⟨pre, post, v, rfl, hpre, hstep⟩ := ih m hm
      exact ⟨pre, post ++ [⟨t, e, o⟩], v, by simp, hpre, hstep⟩
    · obtain rfl := List.mem_singleton.mp hm
      exact ⟨tr, [], u, rfl, run, made⟩

theorem Run.snoc_inv {s u : σ} {tr : List (Move σ ε ω)} {m : Move σ ε ω}
    (run : Run step s (tr ++ [m]) u) :
    Run step s tr m.before ∧ step m.before m.event = some (u, m.output) := by
  generalize hl : tr ++ [m] = l at run
  cases run with
  | nil => simp at hl
  | snoc run made =>
    obtain ⟨rfl, hm⟩ := List.append_inj' hl rfl
    obtain rfl := List.singleton_inj.mp hm
    exact ⟨run, made⟩

/-- A run falls apart at each of its moves. -/
theorem Run.split {s u : σ} {pre post : List (Move σ ε ω)} {m : Move σ ε ω}
    (run : Run step s (pre ++ m :: post) u) :
    ∃ t, Run step s pre m.before ∧ step m.before m.event = some (t, m.output) ∧
      Run step t post u := by
  induction post using List.reverseRecOn generalizing u with
  | nil =>
    obtain ⟨hpre, made⟩ := run.snoc_inv
    exact ⟨u, hpre, made, Run.nil⟩
  | append_singleton post last ih =>
    rw [← List.cons_append, ← List.append_assoc] at run
    obtain ⟨hrun, made⟩ := run.snoc_inv
    obtain ⟨t, hpre, hm, hpost⟩ := ih hrun
    exact ⟨t, hpre, hm, Run.snoc hpost made⟩

/-- What is seen of a run from outside. -/
def observed (tr : List (Move σ ε ω)) : List (ε × ω) := tr.map fun m => (m.event, m.output)

/-- A machine each of whose steps a second one can follow with the same answer has only runs that
look like runs of the second. -/
theorem Run.simulation {σ' : Type} {step' : σ' → ε → Option (σ' × ω)} (R : σ → σ' → Prop) {s t : σ}
    {s' : σ'} {tr : List (Move σ ε ω)} (init : R s s')
    (sim : ∀ a a' e b o, R a a' → step a e = some (b, o) →
      ∃ b', step' a' e = some (b', o) ∧ R b b')
    (run : Run step s tr t) :
    ∃ tr' t', Run step' s' tr' t' ∧ R t t' ∧ observed tr' = observed tr := by
  induction run with
  | nil => exact ⟨[], s', Run.nil, init, rfl⟩
  | snoc _ made ih =>
    obtain ⟨tr', t', run', hr, hobs⟩ := ih
    obtain ⟨u', made', hr'⟩ := sim _ _ _ _ _ hr made
    refine ⟨_, u', Run.snoc run' made', hr', ?_⟩
    simp only [observed, List.map_append] at hobs ⊢
    rw [hobs]
    rfl

end Runs

end EventMachine
