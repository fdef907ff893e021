import Mathlib.Logic.Function.Basic

/-! # Names and their holders

A table from names to holders, and for each holder the name it goes by. The two are `Consistent` if
they say the same; taking a free name, changing to one and giving one up keep them so. -/

namespace Naming
set_option autoImplicit false

/-- A name is a holder's in the table exactly if the holder goes by it. -/
def Consistent {ν σ : Type} (owner : ν → Option σ) (name : σ → Option ν) : Prop :=
  ∀ n c, owner n = some c ↔ name c = some n

variable {ν σ : Type} [DecidableEq ν] [DecidableEq σ] {owner : ν → Option σ} {name : σ → Option ν}

theorem Consistent.take (h : Consistent owner name) {n : ν} {c : σ} (free : owner n = none)
    (nameless : name c = none) :
    Consistent (Function.update owner n (some c)) (Function.update name c (some n)) := by
  intro n' c'
  rw [Function.update_apply, Function.update_apply]
  have hfree : name c' ≠ some n := fun hname => by
    rw [(h n c').mpr hname] at free
    cases free
  have hnameless : owner n' ≠ some c := fun howner => by
    rw [(h n' c).mp howner] at nameless
    cases nameless
  by_cases hn : n' = n
  · subst hn
    by_cases hc : c' = c
    · simp [hc]
    · simp [hc, Ne.symm hc, hfree]
  · by_cases hc : c' = c
    · subst hc
      simp [hn, Ne.symm hn, hnameless]
    · simp [hn, hc, h n' c']

theorem Consistent.release (h : Consistent owner name) {n : ν} {c : σ} (holds : owner n = some c) :
    Consistent (Function.update owner n none) (Function.update name c none) := by
  intro n' c'
  rw [Function.update_apply, Function.update_apply]
  by_cases hn : n' = n
  · subst hn
    by_cases hc : c' = c
    · simp [hc]
    · have hother : name c' ≠ some n' := fun hname => by
        rw [(h n' c').mpr hname] at holds
        exact hc (Option.some.inj holds)
      simp [hc, hother]
  · by_cases hc : c' = c
    · subst hc
      have hother : owner n' ≠ some c' := fun howner => by
        have hname := (h n c').mp holds
        rw [(h n' c').mp howner] at hname
        exact hn (Option.some.inj hname)
      simp [hn, hother]
    · simp [hn, hc, h n' c']

theorem Consistent.rename (h : Consistent owner name) {old new : ν} {c : σ}
    (holds : owner old = some c) (free : owner new = none) :
    Consistent (Function.update (Function.update owner old none) new (some c))
      (Function.update name c (some new)) := by
  have hne : new ≠ old := by
    rintro rfl
    rw [holds] at free
    cases free
  have hreleased := h.release holds
  have htaken := hreleased.take (n := new) (c := c) (by rw [Function.update_of_ne hne, free])
    (Function.update_self c none name)
  rwa [Function.update_idem] at htaken

end Naming
