import Mathlib.Data.List.MinMax
import Mathlib.Tactic

/-! # The first of the largest elements

`List.argmax` by the place of its result in the list: what is before it is smaller, what is after it
is not larger. The same for the elements of a list that meet a condition. -/

namespace Argmax
set_option autoImplicit false

variable {α κ : Type} [LinearOrder κ]

/-- `a` meets the condition `p`, and in `l` it is the first of those with the largest key that
do. -/
def FirstLargest (p : α → Prop) (key : α → κ) (l : List α) (a : α) : Prop :=
  ∃ before after, l = before ++ a :: after ∧ p a ∧
    (∀ x ∈ before, p x → key x < key a) ∧ ∀ x ∈ after, p x → key x ≤ key a

theorem argmax_concat_cases {key : α → κ} {l : List α} {x a : α}
    (h : (l ++ [x]).argmax key = some a) :
    (a = x ∧ ∀ y ∈ l, key y < key x) ∨ (l.argmax key = some a ∧ key x ≤ key a) := by
  rw [List.argmax_concat] at h
  cases hl : l.argmax key with
  | none =>
    obtain rfl := List.argmax_eq_none.mp hl
    rw [hl] at h
    exact .inl ⟨(Option.some.inj h).symm, fun y hy => absurd hy List.not_mem_nil⟩
  | some c =>
    rw [hl] at h
    simp only at h
    split at h
    · rename_i hlt
      refine .inl ⟨(Option.some.inj h).symm, fun y hy => ?_⟩
      exact lt_of_le_of_lt (List.le_of_mem_argmax hy hl) hlt
    · rename_i hle
      obtain rfl := Option.some.inj h
      exact .inr ⟨rfl, not_lt.mp hle⟩

theorem split_of_argmax {key : α → κ} {l : List α} {a : α} (h : l.argmax key = some a) :
    ∃ before after, l = before ++ a :: after ∧ (∀ x ∈ before, key x < key a) ∧
      ∀ x ∈ after, key x ≤ key a := by
  induction l using List.reverseRecOn with
  | nil => cases h
  | append_singleton l x ih =>
    obtain ⟨rfl, hbefore⟩ | ⟨hl, hle⟩ := argmax_concat_cases h
    · exact ⟨l, [], rfl, hbefore, fun y hy => absurd hy List.not_mem_nil⟩
    · obtain ⟨before, after, rfl, hbefore, hafter⟩ := ih hl
      refine ⟨before, after ++ [x], by rw [List.append_assoc, List.cons_append], hbefore, ?_⟩
      intro y hy
      rcases List.mem_append.mp hy with hy | hy
      · exact hafter y hy
      · rw [List.mem_singleton.mp hy]
        exact hle

/-- There is one such place only. -/
theorem FirstLargest.unique {p : α → Prop} {key : α → κ} {l : List α} {a b : α}
    (ha : FirstLargest p key l a) (hb : FirstLargest p key l b) : a = b := by
  obtain ⟨before, after, rfl, hpa, hbefore, hafter⟩ := ha
  obtain ⟨before', after', hsplit, hpb, hbefore', hafter'⟩ := hb
  rcases List.append_eq_append_iff.mp hsplit with ⟨mid, rfl, hmid⟩ | ⟨mid, rfl, hmid⟩
  · cases mid with
    | nil => exact (List.cons.inj hmid).1
    | cons m mid =>
      obtain ⟨rfl, rfl⟩ := List.cons.inj hmid
      have hlt := hbefore' a (by simp) hpa
      have hle := hafter b (by simp) hpb
      exact absurd hlt (not_lt.mpr hle)
  · cases mid with
    | nil => exact (List.cons.inj hmid).1.symm
    | cons m mid =>
      obtain ⟨rfl, rfl⟩ := List.cons.inj hmid
      have hlt := hbefore b (by simp) hpb
      have hle := hafter' a (by simp) hpa
      exact absurd hlt (not_lt.mpr hle)

theorem firstLargest_of_argmax {p : α → Prop} [DecidablePred p] {key : α → κ} {l : List α} {a : α}
    (h : (l.filter p).argmax key = some a) : FirstLargest p key l a := by
  obtain ⟨before, after, hsplit, hbefore, hafter⟩ := split_of_argmax h
  obtain ⟨l₁, l₂, rfl, hl₁, hl₂⟩ := List.filter_eq_append_iff.mp hsplit
  obtain ⟨l₃, l₄, rfl, hl₃, hp, hl₄⟩ := List.filter_eq_cons_iff.mp hl₂
  refine ⟨l₁ ++ l₃, l₄, by rw [List.append_assoc], of_decide_eq_true hp, ?_, ?_⟩
  · intro x hx hpx
    rcases List.mem_append.mp hx with hx | hx
    · exact hbefore x (hl₁ ▸ List.mem_filter.mpr ⟨hx, decide_eq_true hpx⟩)
    · exact absurd (decide_eq_true hpx) (hl₃ x hx)
  · intro x hx hpx
    exact hafter x (hl₄ ▸ List.mem_filter.mpr ⟨hx, decide_eq_true hpx⟩)

theorem argmax_filter_eq_some_iff {p : α → Prop} [DecidablePred p] {key : α → κ} {l : List α}
    {a : α} : (l.filter p).argmax key = some a ↔ FirstLargest p key l a := by
  refine ⟨firstLargest_of_argmax, fun h => ?_⟩
  cases hmax : (l.filter p).argmax key with
  | none =>
    obtain ⟨before, after, rfl, hp, -⟩ := h
    have hnil := List.argmax_eq_none.mp hmax
    exact absurd (hnil ▸ List.mem_filter.mpr ⟨by simp, decide_eq_true hp⟩ : a ∈ []) List.not_mem_nil
  | some b => rw [(firstLargest_of_argmax hmax).unique h]

theorem argmax_filter_eq_none_iff {p : α → Prop} [DecidablePred p] {key : α → κ} {l : List α} :
    (l.filter p).argmax key = none ↔ ∀ a ∈ l, ¬p a := by
  rw [List.argmax_eq_none, List.filter_eq_nil_iff]
  simp only [decide_eq_true_eq]

end Argmax
