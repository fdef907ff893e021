import MyIp.Foundations.Registry
import Mathlib.Data.Set.Card

/-! # Publish and subscribe

Members join and leave the filters of a registry, and publish messages under topics. `owed` says
from the calls alone, made one after the other, what a member is to get: each message once for every
filter that it then has and that covers the topic.

`copies_eq_length` finds this number in an implementation, and `owed_snoc` is what one more call
adds to what a member is to get. -/

namespace PubSub
set_option autoImplicit false

open Registry

variable {φ τ σ μ : Type}

inductive Call (φ τ σ μ : Type)
  | update (e : Registry.Event φ σ)
  | publish (s : σ) (topic : τ) (m : μ)

def Call.caller : Call φ τ σ μ → σ
  | update e => e.member
  | publish s _ _ => s

/-- What happens to the registry. -/
def Call.event : Call φ τ σ μ → Option (Registry.Event φ σ)
  | update e => some e
  | publish _ _ _ => none

def updates (log : List (Call φ τ σ μ)) : List (Registry.Event φ σ) := log.filterMap Call.event

theorem updates_append (log log' : List (Call φ τ σ μ)) :
    updates (log ++ log') = updates log ++ updates log' := by
  rw [updates, List.filterMap_append]
  rfl

/-- The number of filters that `s` has after `h` and that cover the topic. -/
noncomputable def copies (covers : φ → τ → Prop) (h : List (Registry.Event φ σ)) (s : σ)
    (topic : τ) : ℕ :=
  {k | Current h k s ∧ covers k topic}.ncard

/-- What `s` is to get for the calls, made after `h`. -/
noncomputable def owed (covers : φ → τ → Prop) (s : σ) (h : List (Registry.Event φ σ)) :
    List (Call φ τ σ μ) → List μ
  | [] => []
  | .update e :: log => owed covers s (h ++ [e]) log
  | .publish _ topic m :: log => List.replicate (copies covers h s topic) m ++ owed covers s h log

/-- The share of one more call. -/
noncomputable def share (covers : φ → τ → Prop) (s : σ) (h : List (Registry.Event φ σ)) :
    Call φ τ σ μ → List μ
  | .update _ => []
  | .publish _ topic m => List.replicate (copies covers h s topic) m

theorem owed_snoc (covers : φ → τ → Prop) (s : σ) (h : List (Registry.Event φ σ))
    (log : List (Call φ τ σ μ)) (c : Call φ τ σ μ) :
    owed covers s h (log ++ [c]) = owed covers s h log ++ share covers s (h ++ updates log) c := by
  induction log generalizing h with
  | nil =>
    cases c with
    | update e => rfl
    | publish s' topic m => simp [owed, share, updates]
  | cons c' log ih =>
    cases c' with
    | update e =>
      have hrest := ih (h ++ [e])
      rw [List.append_assoc] at hrest
      exact hrest
    | publish s' topic m =>
      rw [List.cons_append, owed, ih, owed, List.append_assoc]
      rfl

/-- In entries that hold the current members, each key once, it is the number of the keys. -/
theorem copies_eq_length [LinearOrder σ] [DecidableEq φ] {covers : φ → τ → Prop} {p : φ → Bool}
    {h : List (Registry.Event φ σ)} {es : List (φ × Finset σ)} {s : σ} {topic : τ}
    (hp : ∀ k, p k = true ↔ covers k topic) (nodup : (es.map Prod.fst).Nodup)
    (held : ∀ k, Held es k s ↔ Current h k s) :
    copies covers h s topic = (memberKeys p es s).length := by
  have hset : {k | Current h k s ∧ covers k topic} = ((memberKeys p es s).toFinset : Set φ) := by
    ext k
    rw [List.coe_toFinset, Set.mem_ofPred_eq, Set.mem_ofPred_eq, mem_memberKeys, held, hp]
  rw [copies, hset, Set.ncard_coe_finset, List.toFinset_card_of_nodup (nodup_memberKeys p nodup s)]

end PubSub
