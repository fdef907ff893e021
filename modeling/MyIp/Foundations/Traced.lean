import Mathlib.Tactic

/-! # Computations that leave a trace

A computation leaves notes of what it does on the way, and comes to a result, throws, or runs out of
the turns that its loops were given (`hangs`).

`Refines` compares such a computation with one in `Except`, which has nothing that could go wrong
without being seen in its result. Going along both at once says three things about the first: all of
its notes are as they should be, it throws exactly where the second does, and it does not hang.

There is one rule for each way to put computations together. `Refines.loop` is the induction on the
turns: the invariant relates the states of both loops, and the measure, which every turn makes
smaller, stays below the number of turns that are left. -/

set_option autoImplicit false

inductive Traced.Result (ε α : Type)
  | done (a : α)
  | thrown (e : ε)
  | hangs

structure Traced (ν ε α : Type) where
  notes : List ν
  result : Traced.Result ε α

namespace Traced

section Computations
variable {ν ε α β σ : Type}

/-- `x`, and then `f` if `x` has a result. -/
def andThen (x : Traced ν ε α) (f : α → Traced ν ε β) : Traced ν ε β :=
  match x.result with
  | .done a => ⟨x.notes ++ (f a).notes, (f a).result⟩
  | .thrown e => ⟨x.notes, .thrown e⟩
  | .hangs => ⟨x.notes, .hangs⟩

instance : Monad (Traced ν ε) where
  pure a := ⟨[], .done a⟩
  bind := andThen

theorem id_map (x : Traced ν ε α) : id <$> x = x := by
  obtain ⟨notes, result⟩ := x
  cases result with
  | done a => exact congrArg (fun l => Traced.mk l (.done a)) (List.append_nil notes)
  | thrown e => rfl
  | hangs => rfl

theorem andThen_assoc {γ : Type} (x : Traced ν ε α) (f : α → Traced ν ε β) (g : β → Traced ν ε γ) :
    (x.andThen f).andThen g = x.andThen fun a => (f a).andThen g := by
  obtain ⟨notes, result⟩ := x
  cases result with
  | done a =>
    unfold andThen
    simp only
    cases (f a).result with
    | done b => simp only [List.append_assoc]
    | thrown e => rfl
    | hangs => rfl
  | thrown e => rfl
  | hangs => rfl

instance : LawfulMonad (Traced ν ε) :=
  LawfulMonad.mk' _ id_map (fun _ _ => rfl) fun x f g => andThen_assoc x f g

def note (n : ν) : Traced ν ε Unit := ⟨[n], .done ()⟩

def throw (e : ε) : Traced ν ε α := ⟨[], .thrown e⟩

/-- At most so many turns; each ends in the state for the next one or in the result. -/
def loop (turn : σ → Traced ν ε (σ ⊕ α)) : ℕ → σ → Traced ν ε α
  | 0, _ => ⟨[], .hangs⟩
  | turns + 1, s => turn s >>= Sum.elim (loop turn turns) pure

end Computations

/-- The results of both. -/
inductive Related {ε δ α β : Type} (Thrown : ε → Prop) (R : α → β → Prop) :
    Result ε α → Except δ β → Prop
  | done {a : α} {b : β} (h : R a b) : Related Thrown R (.done a) (.ok b)
  | thrown {e : ε} {d : δ} (h : Thrown e) : Related Thrown R (.thrown e) (.error d)

namespace Related
variable {ε δ α β γ : Type} {Thrown : ε → Prop} {R : α → β → Prop} {r : Result ε α}
  {y : Except δ β}

theorem imp {R' : α → β → Prop} (h : Related Thrown R r y) (himp : ∀ a b, R a b → R' a b) :
    Related Thrown R' r y := by
  cases h with
  | done hab => exact .done (himp _ _ hab)
  | thrown he => exact .thrown he

theorem map {g : β → γ} {S : α → γ → Prop} (h : Related Thrown R r y)
    (hg : ∀ a b, R a b → S a (g b)) : Related Thrown S r (y >>= fun b => .ok (g b)) := by
  cases h with
  | done hab => exact .done (hg _ _ hab)
  | thrown he => exact .thrown he

end Related

/-- All notes of `x` are `Ok`, and `x` does what `y` does. -/
structure Refines {ν ε δ α β : Type} (Ok : ν → Prop) (Thrown : ε → Prop) (R : α → β → Prop)
    (x : Traced ν ε α) (y : Except δ β) : Prop where
  notes : ∀ n ∈ x.notes, Ok n
  result : Related Thrown R x.result y

namespace Refines
variable {ν ε δ δ' α β γ γ' : Type} {Ok : ν → Prop} {Thrown : ε → Prop} {R : α → β → Prop}
  {S : γ → γ' → Prop}

theorem ends {x : Traced ν ε α} {y : Except δ β} (h : Refines Ok Thrown R x y) :
    x.result ≠ .hangs := by
  intro hhangs
  have hresult := h.result
  rw [hhangs] at hresult
  cases hresult

theorem thrown {x : Traced ν ε α} {y : Except δ β} (h : Refines Ok Thrown R x y) {e : ε}
    (he : x.result = .thrown e) : Thrown e := by
  have hresult := h.result
  rw [he] at hresult
  cases hresult with
  | thrown hthrown => exact hthrown

theorem thrown_iff {x : Traced ν ε α} {y : Except δ β} (h : Refines Ok Thrown R x y) :
    (∃ e, x.result = .thrown e) ↔ ∃ d, y = .error d := by
  obtain ⟨notes, result⟩ := x
  have hresult : Related Thrown R result y := h.result
  cases hresult with
  | done hab => simp
  | thrown he => simp

theorem pure {a : α} {b : β} (h : R a b) :
    Refines (δ := δ) Ok Thrown R (Pure.pure a : Traced ν ε α) (.ok b) :=
  ⟨by simp [Pure.pure], .done h⟩

theorem throw {e : ε} (d : δ) (h : Thrown e) :
    Refines Ok Thrown R (Traced.throw e) (.error d : Except δ β) :=
  ⟨by simp [Traced.throw], .thrown h⟩

theorem imp {R' : α → β → Prop} {x : Traced ν ε α} {y : Except δ β}
    (h : Refines Ok Thrown R x y) (himp : ∀ a b, R a b → R' a b) : Refines Ok Thrown R' x y :=
  ⟨h.notes, h.result.imp himp⟩

/-- What follows is compared for each result of `y`. -/
theorem andThen {x : Traced ν ε α} {y : Except δ β} {z : Except δ' γ'} {f : α → Traced ν ε γ}
    (h : Refines Ok Thrown R x y)
    (hok : ∀ a b, y = .ok b → R a b → Refines Ok Thrown S (f a) z)
    (herror : ∀ d, y = .error d → ∃ d', z = .error d') : Refines Ok Thrown S (x >>= f) z := by
  obtain ⟨notes, result⟩ := x
  have hresult : Related Thrown R result y := h.result
  cases hresult with
  | done hab =>
    obtain ⟨hnotes', hresult'⟩ := hok _ _ rfl hab
    refine ⟨?_, hresult'⟩
    intro n hn
    rcases List.mem_append.mp hn with hn | hn
    · exact h.notes n hn
    · exact hnotes' n hn
  | thrown he =>
    obtain ⟨d', rfl⟩ := herror _ rfl
    exact ⟨h.notes, .thrown he⟩

theorem bind {x : Traced ν ε α} {y : Except δ β} {f : α → Traced ν ε γ} {g : β → Except δ γ'}
    (h : Refines Ok Thrown R x y) (hfg : ∀ a b, R a b → Refines Ok Thrown S (f a) (g b)) :
    Refines Ok Thrown S (x >>= f) (y >>= g) := by
  apply h.andThen
  · rintro a b rfl hab
    exact hfg a b hab
  · rintro d rfl
    exact ⟨d, rfl⟩

/-- `y` alone goes on. -/
theorem bind_right {x : Traced ν ε α} {y : Except δ β} {g : β → γ'} {S : α → γ' → Prop}
    (h : Refines Ok Thrown R x y) (hg : ∀ a b, R a b → S a (g b)) :
    Refines Ok Thrown S x (y >>= fun b => .ok (g b)) :=
  ⟨h.notes, h.result.map hg⟩

/-- `x` alone goes on. -/
theorem bind_left {x : Traced ν ε α} {b : β} {f : α → Traced ν ε γ} {z : Except δ' γ'}
    (h : Refines (δ := δ) Ok Thrown R x (.ok b)) (hf : ∀ a, R a b → Refines Ok Thrown S (f a) z) :
    Refines Ok Thrown S (x >>= f) z := by
  apply h.andThen
  · rintro a _ ⟨⟩ hab
    exact hf a hab
  · rintro d ⟨⟩

theorem note {n : ν} {f : Unit → Traced ν ε γ} {z : Except δ γ'} (h : Ok n)
    (hf : Refines Ok Thrown S (f ()) z) : Refines Ok Thrown S (Traced.note n >>= f) z := by
  refine ⟨?_, hf.result⟩
  intro m hm
  rcases List.mem_cons.mp hm with rfl | hm
  · exact h
  · exact hf.notes m hm

/-- A turn may use that the loop goes on well from every state with a smaller measure. -/
theorem loop {σ τ : Type} {turn : σ → Traced ν ε (σ ⊕ α)} {y : ℕ → τ → Except δ β}
    {I : σ → τ → Prop} (m : τ → ℕ)
    (step : ∀ n s t, I s t →
      (∀ s' t', I s' t' → m t' < m t →
        Refines Ok Thrown R (Traced.loop turn n s') (y n t')) →
      Refines Ok Thrown R (turn s >>= Sum.elim (Traced.loop turn n) Pure.pure) (y (n + 1) t)) :
    ∀ {n : ℕ} {s : σ} {t : τ}, I s t → m t < n →
      Refines Ok Thrown R (Traced.loop turn n s) (y n t) := by
  intro n
  induction n with
  | zero =>
    intro s t _ hm
    exact absurd hm (Nat.not_lt_zero _)
  | succ n ih =>
    intro s t hs hm
    apply step n s t hs
    intro s' t' hs' hm'
    exact ih hs' (by omega)

end Refines

end Traced
