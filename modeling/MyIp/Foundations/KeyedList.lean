import Mathlib.Data.List.Induction
import Mathlib.Logic.Function.Basic

/-! # A list that is searched by a key

`absorb` is the loop that many tables are filled by: an element is merged into the first one with
the same key, and appended if there is none. `filter_foldl_absorb` says what a table filled this way
holds for each key, from the elements that were given to it alone. `assign` is the same for a map,
in which the last value of a key stays. -/

namespace KeyedList
set_option autoImplicit false

section Absorb
variable {α κ : Type} [DecidableEq κ] (key : α → κ) (merge : α → α → α)

def absorb (x : α) : List α → List α
  | [] => [x]
  | e :: es => if key e = key x then merge e x :: es else e :: absorb x es

/-- One element in place of all of `xs`: the first one with the others merged into it. -/
def collapse : List α → List α
  | [] => []
  | x :: xs => [xs.foldl merge x]

variable {key merge}

theorem filter_absorb (hmerge : ∀ e x, key (merge e x) = key e) (x : α) (k : κ) (es : List α) :
    (absorb key merge x es).filter (key · = k) =
      if key x = k then absorb key merge x (es.filter (key · = k))
      else es.filter (key · = k) := by
  induction es with
  | nil => by_cases hx : key x = k <;> simp [absorb, hx]
  | cons e es ih =>
    by_cases he : key e = key x
    · rw [absorb, if_pos he, List.filter_cons, List.filter_cons, hmerge, he]
      by_cases hx : key x = k
      · simp [hx, absorb, he]
      · simp [hx]
    · rw [absorb, if_neg he, List.filter_cons, ih, List.filter_cons]
      by_cases hx : key x = k
      · have hek : ¬key e = k := fun h => he (h.trans hx.symm)
        simp [hx, hek]
      · simp [hx]

theorem collapse_snoc (hmerge : ∀ e x, key (merge e x) = key e) (x : α) (xs : List α)
    (hxs : ∀ y ∈ xs, key y = key x) :
    collapse merge (xs ++ [x]) = absorb key merge x (collapse merge xs) := by
  cases xs with
  | nil => rfl
  | cons y ys =>
    have hkey : ∀ zs : List α, key (zs.foldl merge y) = key y := by
      intro zs
      induction zs using List.reverseRecOn with
      | nil => rfl
      | append_singleton zs z ih =>
        rw [List.foldl_append, List.foldl_cons, List.foldl_nil, hmerge, ih]
    rw [List.cons_append, collapse, List.foldl_append, List.foldl_cons, List.foldl_nil, collapse,
      absorb, if_pos ((hkey ys).trans (hxs y List.mem_cons_self))]

/-- For each key a table holds one element, made of all that were given to it with that key. -/
theorem filter_foldl_absorb (hmerge : ∀ e x, key (merge e x) = key e) (xs : List α) (k : κ) :
    (xs.foldl (fun es x => absorb key merge x es) []).filter (key · = k) =
      collapse merge (xs.filter (key · = k)) := by
  induction xs using List.reverseRecOn with
  | nil => rfl
  | append_singleton xs x ih =>
    rw [List.foldl_append, List.foldl_cons, List.foldl_nil, filter_absorb hmerge, ih,
      List.filter_append, List.filter_cons, List.filter_nil]
    by_cases hx : key x = k
    · rw [if_pos hx, if_pos (decide_eq_true hx)]
      refine (collapse_snoc hmerge x _ fun y hy => ?_).symm
      rw [hx]
      exact of_decide_eq_true (List.mem_filter.mp hy).2
    · rw [if_neg hx, if_neg (by simpa using hx), List.append_nil]

end Absorb

section Assign
variable {κ υ : Type} [DecidableEq κ]

/-- A map with the value of a key set, whether it had one or not. -/
def assign (f : κ → Option υ) (p : κ × υ) : κ → Option υ := Function.update f p.1 (some p.2)

/-- The value that was given last to a key. -/
def lastValue (ps : List (κ × υ)) (k : κ) : Option υ :=
  ((ps.filter (·.1 = k)).getLast?).map Prod.snd

theorem forall_lastValue_eq_none_iff {α : Type} (g : α → Option (κ × υ)) (xs : List α) :
    (∀ k, lastValue (xs.filterMap g) k = none) ↔ ∀ x ∈ xs, g x = none := by
  constructor
  · intro h x hx
    by_contra hne
    obtain ⟨p, hp⟩ := Option.ne_none_iff_exists'.1 hne
    have hmem : p ∈ (xs.filterMap g).filter (·.1 = p.1) :=
      List.mem_filter.2 ⟨List.mem_filterMap.2 ⟨x, hx, hp⟩, decide_eq_true rfl⟩
    have hnone := h p.1
    rw [lastValue, Option.map_eq_none_iff, List.getLast?_eq_none_iff] at hnone
    exact List.ne_nil_of_mem hmem hnone
  · intro h k
    rw [List.filterMap_eq_nil_iff.2 h]
    rfl

theorem foldl_assign (ps : List (κ × υ)) (f : κ → Option υ) (k : κ) :
    ps.foldl assign f k = (lastValue ps k).or (f k) := by
  induction ps using List.reverseRecOn with
  | nil => rfl
  | append_singleton ps p ih =>
    rw [List.foldl_append, List.foldl_cons, List.foldl_nil, assign, lastValue, List.filter_append,
      List.filter_cons, List.filter_nil]
    by_cases hk : p.1 = k
    · rw [if_pos (decide_eq_true hk), List.getLast?_concat, ← hk, Function.update_self]
      rfl
    · rw [if_neg (by simpa using hk), List.append_nil, Function.update_of_ne (Ne.symm hk), ih,
        lastValue]

/-- Elements of which only some set a value. -/
theorem foldl_elim_assign {α : Type} (g : α → Option (κ × υ)) (xs : List α) (f : κ → Option υ) :
    xs.foldl (fun f x => (g x).elim f (assign f)) f = (xs.filterMap g).foldl assign f := by
  induction xs generalizing f with
  | nil => rfl
  | cons x xs ih =>
    rw [List.foldl_cons, ih]
    cases h : g x with
    | none => rw [List.filterMap_cons_none h, Option.elim_none]
    | some p => rw [List.filterMap_cons_some h, Option.elim_some, List.foldl_cons]

end Assign

end KeyedList
