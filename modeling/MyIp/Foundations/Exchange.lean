import MyIp.Foundations.Run

/-! # Two machines with a network between them

Some events hand a message over to a machine, and its outputs send messages. The network between two
machines may lose, repeat, delay and reorder what was sent, but it makes up nothing: a message is
handed over only if the other side has sent it before. Both histories are kept, so that

* what a side did is a run of its own machine (`run_left`),
* a property of the pair holds after every run if each side keeps it when it is given nothing but
  what the other side has sent (`invariant`). -/

namespace Exchange
set_option autoImplicit false

open EventMachine

/-- A machine that has a connection. -/
structure Party (σ ε ω μ : Type) where
  step : σ → ε → Option (σ × ω)
  receives : ε → Option μ
  sends : ω → List μ

section One
variable {σ ε ω μ : Type}

def Party.sent (P : Party σ ε ω μ) (tr : List (Move σ ε ω)) : List μ :=
  tr.flatMap fun m => P.sends m.output

theorem Party.sent_snoc (P : Party σ ε ω μ) (tr : List (Move σ ε ω)) (m : Move σ ε ω) :
    P.sent (tr ++ [m]) = P.sent tr ++ P.sends m.output := by
  simp [sent]

/-- The event hands over nothing but what is in the network. -/
def Party.Carried (P : Party σ ε ω μ) (network : List μ) (e : ε) : Prop :=
  ∀ m, P.receives e = some m → m ∈ network

instance [DecidableEq μ] (P : Party σ ε ω μ) (network : List μ) (e : ε) :
    Decidable (P.Carried network e) :=
  match h : P.receives e with
  | none => isTrue fun _ hm => by rw [h] at hm; cases hm
  | some m =>
    if hm : m ∈ network then
      isTrue fun m' hm' => by
        rw [h] at hm'
        cases hm'
        exact hm
    else isFalse fun hc => hm (hc m h)

end One

variable {σ₁ ε₁ ω₁ σ₂ ε₂ ω₂ μ : Type}

/-- The two machines, with what each of them has done. -/
structure Pair (σ₁ ε₁ ω₁ σ₂ ε₂ ω₂ : Type) where
  left : σ₁
  right : σ₂
  leftMoves : List (Move σ₁ ε₁ ω₁) := []
  rightMoves : List (Move σ₂ ε₂ ω₂) := []

/-- The pair after a move of one side. -/
def Pair.moveLeft (s : Pair σ₁ ε₁ ω₁ σ₂ ε₂ ω₂) (e : ε₁) (a : σ₁) (o : ω₁) :
    Pair σ₁ ε₁ ω₁ σ₂ ε₂ ω₂ :=
  { s with left := a, leftMoves := s.leftMoves ++ [⟨s.left, e, o⟩] }

def Pair.moveRight (s : Pair σ₁ ε₁ ω₁ σ₂ ε₂ ω₂) (e : ε₂) (b : σ₂) (o : ω₂) :
    Pair σ₁ ε₁ ω₁ σ₂ ε₂ ω₂ :=
  { s with right := b, rightMoves := s.rightMoves ++ [⟨s.right, e, o⟩] }

/-- The two parties and what either had sent at the start. -/
structure Link (σ₁ ε₁ ω₁ σ₂ ε₂ ω₂ μ : Type) where
  left : Party σ₁ ε₁ ω₁ μ
  right : Party σ₂ ε₂ ω₂ μ
  leftFirst : List μ := []
  rightFirst : List μ := []

/-- What the network may hand over to the right side, and to the left. -/
def Link.toRight (l : Link σ₁ ε₁ ω₁ σ₂ ε₂ ω₂ μ) (s : Pair σ₁ ε₁ ω₁ σ₂ ε₂ ω₂) : List μ :=
  l.leftFirst ++ l.left.sent s.leftMoves

def Link.toLeft (l : Link σ₁ ε₁ ω₁ σ₂ ε₂ ω₂ μ) (s : Pair σ₁ ε₁ ω₁ σ₂ ε₂ ω₂) : List μ :=
  l.rightFirst ++ l.right.sent s.rightMoves

/-- An event of either side. -/
def Link.step [DecidableEq μ] (l : Link σ₁ ε₁ ω₁ σ₂ ε₂ ω₂ μ) (s : Pair σ₁ ε₁ ω₁ σ₂ ε₂ ω₂) :
    ε₁ ⊕ ε₂ → Option (Pair σ₁ ε₁ ω₁ σ₂ ε₂ ω₂ × Unit)
  | .inl e =>
    if l.left.Carried (l.toLeft s) e then
      (l.left.step s.left e).map fun (a, o) => (s.moveLeft e a o, ())
    else none
  | .inr e =>
    if l.right.Carried (l.toRight s) e then
      (l.right.step s.right e).map fun (b, o) => (s.moveRight e b o, ())
    else none

section Steps
variable [DecidableEq μ] {l : Link σ₁ ε₁ ω₁ σ₂ ε₂ ω₂ μ} {s t : Pair σ₁ ε₁ ω₁ σ₂ ε₂ ω₂}

theorem Link.step_inl {e : ε₁} {u : Unit} (made : l.step s (.inl e) = some (t, u)) :
    l.left.Carried (l.toLeft s) e ∧
      ∃ a o, l.left.step s.left e = some (a, o) ∧ t = s.moveLeft e a o := by
  simp only [step] at made
  split at made
  · next hcarried =>
    obtain ⟨⟨a, o⟩, ho, he⟩ := Option.map_eq_some_iff.mp made
    exact ⟨hcarried, a, o, ho, (Prod.mk.inj he).1.symm⟩
  · cases made

theorem Link.step_inr {e : ε₂} {u : Unit} (made : l.step s (.inr e) = some (t, u)) :
    l.right.Carried (l.toRight s) e ∧
      ∃ b o, l.right.step s.right e = some (b, o) ∧ t = s.moveRight e b o := by
  simp only [step] at made
  split at made
  · next hcarried =>
    obtain ⟨⟨b, o⟩, ho, he⟩ := Option.map_eq_some_iff.mp made
    exact ⟨hcarried, b, o, ho, (Prod.mk.inj he).1.symm⟩
  · cases made

/-- What both sides keep, each of them given nothing but what the other one has sent. -/
theorem Link.invariant {tr : List (Move (Pair σ₁ ε₁ ω₁ σ₂ ε₂ ω₂) (ε₁ ⊕ ε₂) Unit)}
    (I : Pair σ₁ ε₁ ω₁ σ₂ ε₂ ω₂ → Prop) (init : I s)
    (keepLeft : ∀ s e a o, I s → l.left.Carried (l.toLeft s) e →
      l.left.step s.left e = some (a, o) → I (s.moveLeft e a o))
    (keepRight : ∀ s e b o, I s → l.right.Carried (l.toRight s) e →
      l.right.step s.right e = some (b, o) → I (s.moveRight e b o))
    (run : Run l.step s tr t) : I t := by
  refine Run.invariant I init ?_ run
  intro s e t u h made
  cases e with
  | inl e =>
    obtain ⟨hcarried, a, o, hstep, rfl⟩ := Link.step_inl made
    exact keepLeft s e a o h hcarried hstep
  | inr e =>
    obtain ⟨hcarried, b, o, hstep, rfl⟩ := Link.step_inr made
    exact keepRight s e b o h hcarried hstep

theorem Link.run_left {tr : List (Move (Pair σ₁ ε₁ ω₁ σ₂ ε₂ ω₂) (ε₁ ⊕ ε₂) Unit)}
    (start : s.leftMoves = []) (run : Run l.step s tr t) :
    Run l.left.step s.left t.leftMoves t.left := by
  refine Link.invariant (fun t => Run l.left.step s.left t.leftMoves t.left) ?_ ?_ ?_ run
  · rw [start]
    exact Run.nil
  · exact fun _ _ _ _ h _ made => h.snoc made
  · exact fun _ _ _ _ h _ _ => h

end Steps

end Exchange
