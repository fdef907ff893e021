import Mathlib.Tactic

/-! # Readers that take a number of symbols at a time

A reader says in each state how many symbols it wants next, if any, and what it does with them. What
has come and is not read yet waits in a buffer. `Reads` is some reads one after the other, and
`Served` the reads of a reader that gets a stream piece by piece and has a turn after each piece.

* `Reads.feed`: symbols that come later change nothing of what was read before,
* `Served.reads`: what is read of the pieces could have been read of the whole stream,
* `Served.unique`: two readers of one stream that wait in the end have read the same,
* `Served.waits`: a reader that uses its turns waits in the end, given enough of them. -/

namespace Segments
set_option autoImplicit false

variable {π δ ε : Type}

structure Reader (π δ ε : Type) where
  wants : π → Option ℕ
  read : π → List δ → π × ε

/-- The next read, if the symbols for it are there. -/
def Reader.next (r : Reader π δ ε) (s : π × List δ) : Option (ε × π × List δ) :=
  match r.wants s.1 with
  | none => none
  | some n =>
    if n ≤ s.2.length then
      some ((r.read s.1 (s.2.take n)).2, (r.read s.1 (s.2.take n)).1, s.2.drop n)
    else none

def feed (s : π × List δ) (piece : List δ) : π × List δ := (s.1, s.2 ++ piece)

theorem feed_nil (s : π × List δ) : feed s [] = s := by
  simp [feed]

theorem feed_feed (s : π × List δ) (piece more : List δ) :
    feed (feed s piece) more = feed s (piece ++ more) := by
  simp [feed]

variable {r : Reader π δ ε}

theorem next_eq_some {s t : π × List δ} {e : ε} : r.next s = some (e, t) ↔
    ∃ n, r.wants s.1 = some n ∧ n ≤ s.2.length ∧ e = (r.read s.1 (s.2.take n)).2 ∧
      t = ((r.read s.1 (s.2.take n)).1, s.2.drop n) := by
  rw [Reader.next]
  cases r.wants s.1 with
  | none => simp
  | some n =>
    simp only [Option.ite_none_right_eq_some, Option.some.injEq, Prod.mk.injEq, exists_eq_left']
    refine and_congr_right fun _ => ?_
    exact and_congr eq_comm eq_comm

theorem next_feed {s t : π × List δ} {e : ε} (h : r.next s = some (e, t)) (piece : List δ) :
    r.next (feed s piece) = some (e, feed t piece) := by
  obtain ⟨n, hwants, hlength, rfl, rfl⟩ := next_eq_some.mp h
  refine next_eq_some.mpr ⟨n, hwants, ?_, ?_, ?_⟩
  · exact hlength.trans (by simp [feed])
  · simp only [feed, List.take_append_of_le_length hlength]
  · simp only [feed, List.take_append_of_le_length hlength, List.drop_append_of_le_length hlength]

/-- Some reads and what they gave, the first one first. -/
inductive Reads (r : Reader π δ ε) : π × List δ → List ε → π × List δ → Prop
  | nil (s : π × List δ) : Reads r s [] s
  | cons {s t u : π × List δ} {e : ε} {es : List ε} (next : r.next s = some (e, t))
      (rest : Reads r t es u) : Reads r s (e :: es) u

theorem Reads.trans {s t u : π × List δ} {es fs : List ε} (h : Reads r s es t)
    (h' : Reads r t fs u) : Reads r s (es ++ fs) u := by
  induction h with
  | nil => exact h'
  | cons next _ ih => exact .cons next (ih h')

theorem Reads.feed {s t : π × List δ} {es : List ε} (h : Reads r s es t) (piece : List δ) :
    Reads r (feed s piece) es (feed t piece) := by
  induction h with
  | nil => exact .nil _
  | cons next _ ih => exact .cons (next_feed next piece) ih

/-- There is one way to read until nothing more can be read. -/
theorem Reads.unique {s t t' : π × List δ} {es es' : List ε} (h : Reads r s es t)
    (h' : Reads r s es' t') (ht : r.next t = none) (ht' : r.next t' = none) : es = es' := by
  induction h generalizing es' with
  | nil =>
    cases h' with
    | nil => rfl
    | cons next _ => cases next.symm.trans ht
  | cons next _ ih =>
    cases h' with
    | nil => cases next.symm.trans ht'
    | cons next' rest' =>
      obtain ⟨rfl, rfl⟩ := Prod.mk.inj (Option.some.inj (next.symm.trans next'))
      rw [ih rest' ht]

/-- The reader gets the pieces one by one and reads in its turn after each, something if it can. -/
inductive Served (r : Reader π δ ε) (s : π × List δ) :
    List (List δ) → List ε → π × List δ → Prop
  | nil : Served r s [] [] s
  | snoc {pieces : List (List δ)} {es fs : List ε} {t u : π × List δ} (piece : List δ)
      (before : Served r s pieces es t) (turn : Reads r (feed t piece) fs u)
      (busy : fs = [] → r.next (feed t piece) = none) : Served r s (pieces ++ [piece]) (es ++ fs) u

theorem Served.reads {s t : π × List δ} {pieces : List (List δ)} {es : List ε}
    (h : Served r s pieces es t) : Reads r (feed s pieces.flatten) es t := by
  induction h with
  | nil =>
    rw [List.flatten_nil, feed_nil]
    exact .nil s
  | snoc piece _ turn _ ih =>
    rw [List.flatten_append, List.flatten_singleton, ← feed_feed]
    exact (ih.feed piece).trans turn

theorem Served.unique {s t t' : π × List δ} {pieces pieces' : List (List δ)} {es es' : List ε}
    (h : Served r s pieces es t) (h' : Served r s pieces' es' t')
    (hsame : pieces.flatten = pieces'.flatten) (ht : r.next t = none) (ht' : r.next t' = none) :
    es = es' := by
  have hreads := h'.reads
  rw [← hsame] at hreads
  exact h.reads.unique hreads ht ht'

/-! ## Enough turns -/

/-- How many reads there can be at most, if no two of nothing follow each other. -/
def Reader.budget (r : Reader π δ ε) (s : π × List δ) : ℕ :=
  2 * s.2.length + if r.wants s.1 = some 0 then 1 else 0

/-- A read of nothing is not followed by another one. -/
def Reader.Advances (r : Reader π δ ε) : Prop :=
  ∀ p, r.wants p = some 0 → r.wants (r.read p []).1 ≠ some 0

theorem Reader.Advances.budget_lt (h : r.Advances) {s t : π × List δ} {e : ε}
    (hnext : r.next s = some (e, t)) : r.budget t < r.budget s := by
  obtain ⟨n, hwants, hlength, -, rfl⟩ := next_eq_some.mp hnext
  rw [Reader.budget, Reader.budget, List.length_drop, hwants]
  by_cases hn : n = 0
  · subst hn
    have hlater := h _ hwants
    simp [hlater]
  · have hsome : (some n : Option ℕ) ≠ some 0 := by simpa using hn
    rw [if_neg hsome]
    split_ifs <;> omega

theorem Reader.Advances.length_le (h : r.Advances) {s t : π × List δ} {es : List ε}
    (hreads : Reads r s es t) : es.length + r.budget t ≤ r.budget s := by
  induction hreads with
  | nil => simp
  | cons next _ ih =>
    have hlt := h.budget_lt next
    rw [List.length_cons]
    omega

/-- With turns without a new piece at the end the reader waits, or has read that often. -/
theorem Served.waits_or {s t : π × List δ} {pieces : List (List δ)} (h : r.Advances) (n : ℕ)
    {es : List ε} (hserved : Served r s (pieces ++ List.replicate n []) es t) :
    r.next t = none ∨ n + r.budget t ≤ r.budget (feed s pieces.flatten) := by
  induction n generalizing es t with
  | zero =>
    rw [List.replicate_zero, List.append_nil] at hserved
    have hle := h.length_le hserved.reads
    exact .inr (by omega)
  | succ n ih =>
    rw [List.replicate_succ', ← List.append_assoc] at hserved
    generalize hpieces : pieces ++ List.replicate n [] ++ [[]] = all at hserved
    cases hserved with
    | nil => simp at hpieces
    | snoc piece before turn busy =>
      obtain ⟨rfl, hpiece⟩ := List.append_inj' hpieces rfl
      obtain rfl : [] = piece := by simpa using hpiece
      rw [feed_nil] at turn busy
      have hle := h.length_le turn
      obtain hwaits | hbudget := ih before
      · -- a reader that waits does so after a turn, too
        cases turn with
        | nil => exact .inl hwaits
        | cons next _ => cases next.symm.trans hwaits
      · cases turn with
        | nil => exact .inl (busy rfl)
        | cons next _ =>
          rw [List.length_cons] at hle
          exact .inr (by omega)

theorem Served.waits {s t : π × List δ} {pieces : List (List δ)} (h : r.Advances) {n : ℕ}
    {es : List ε} (hserved : Served r s (pieces ++ List.replicate n []) es t)
    (hn : r.budget (feed s pieces.flatten) ≤ n) : r.next t = none := by
  obtain hwaits | hle := hserved.waits_or h n
  · exact hwaits
  · cases hnext : r.next t with
    | none => rfl
    | some p =>
      have hlt := h.budget_lt hnext
      omega

end Segments
