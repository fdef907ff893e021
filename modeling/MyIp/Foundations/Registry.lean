import Mathlib.Data.Finset.Sort

/-! # Who is subscribed to what

A registry holds, for each of some keys, the set of its members. `Current` says from the history of
a registry alone who is a member of what: a member joined a key and has left neither the key nor
everything since. `holds_iff_current` is the rule for an implementation: if each of its three
operations changes what it holds as the history says, it holds exactly the current members.

Two ingredients of implementations follow: a list of keys with their members in which a key is
looked up from the front, and a message that is pushed to all members of the keys of some kind.
`deliver_apply` says how often it gets to a member. -/

namespace Registry
set_option autoImplicit false

inductive Event (κ σ : Type)
  | join (k : κ) (s : σ)
  | leave (k : κ) (s : σ)
  | leaveAll (s : σ)
  deriving DecidableEq

/-- The member an event is about. -/
def Event.member {κ σ : Type} : Event κ σ → σ
  | join _ s => s
  | leave _ s => s
  | leaveAll s => s

section History
variable {κ σ : Type}

/-- `s` joined `k` and has not left since. -/
def Current (h : List (Event κ σ)) (k : κ) (s : σ) : Prop :=
  ∃ before after, h = before ++ Event.join k s :: after ∧ Event.leave k s ∉ after ∧
    Event.leaveAll s ∉ after

/-- The last event about `s` is that it left everything. -/
def Gone (h : List (Event κ σ)) (s : σ) : Prop :=
  ∃ before after, h = before ++ Event.leaveAll s :: after ∧ ∀ e ∈ after, e.member ≠ s

theorem not_current_nil (k : κ) (s : σ) : ¬Current [] k s := by
  rintro ⟨before, after, he, -⟩
  simp at he

/-- What the last event does to who is a member of what. -/
theorem current_snoc (h : List (Event κ σ)) (e : Event κ σ) (k : κ) (s : σ) :
    Current (h ++ [e]) k s ↔
      e = Event.join k s ∨ (Current h k s ∧ e ≠ Event.leave k s ∧ e ≠ Event.leaveAll s) := by
  constructor
  · rintro ⟨before, after, he, hleave, hall⟩
    induction after using List.reverseRecOn with
    | nil =>
      obtain ⟨-, hlast⟩ := List.append_inj' he rfl
      exact Or.inl (List.singleton_inj.mp hlast)
    | append_singleton after last _ =>
      rw [← List.cons_append, ← List.append_assoc] at he
      obtain ⟨hh, hlast⟩ := List.append_inj' he rfl
      obtain rfl := List.singleton_inj.mp hlast
      rw [List.mem_append, not_or, List.mem_singleton] at hleave hall
      exact Or.inr ⟨⟨before, after, hh, hleave.1, hall.1⟩, Ne.symm hleave.2, Ne.symm hall.2⟩
  · rintro (rfl | ⟨⟨before, after, rfl, hleave, hall⟩, hne, hne'⟩)
    · exact ⟨h, [], rfl, List.not_mem_nil, List.not_mem_nil⟩
    · refine ⟨before, after ++ [e], by simp, ?_, ?_⟩
      · rw [List.mem_append, not_or, List.mem_singleton]
        exact ⟨hleave, Ne.symm hne⟩
      · rw [List.mem_append, not_or, List.mem_singleton]
        exact ⟨hall, Ne.symm hne'⟩

theorem Gone.not_current {h : List (Event κ σ)} {s : σ} (gone : Gone h s) (k : κ) :
    ¬Current h k s := by
  obtain ⟨before, after, rfl, hafter⟩ := gone
  induction after using List.reverseRecOn with
  | nil =>
    rw [current_snoc]
    rintro (hjoin | ⟨-, -, hne⟩)
    · cases hjoin
    · exact hne rfl
  | append_singleton after e ih =>
    have hlast : e.member ≠ s := hafter e (by simp)
    rw [← List.cons_append, ← List.append_assoc, current_snoc]
    rintro (rfl | ⟨hcur, -, -⟩)
    · exact hlast rfl
    · exact ih (fun e' he' => hafter e' (List.mem_append_left _ he')) hcur

/-- An implementation whose operations do to what it holds what the events say holds exactly the
current members. -/
theorem holds_iff_current {S : Type} {holds : S → κ → σ → Prop} {step : S → Event κ σ → S}
    {init : S} (hinit : ∀ k s, ¬holds init k s)
    (hstep : ∀ st e k s, holds (step st e) k s ↔
      e = Event.join k s ∨ (holds st k s ∧ e ≠ Event.leave k s ∧ e ≠ Event.leaveAll s))
    (h : List (Event κ σ)) (k : κ) (s : σ) : holds (h.foldl step init) k s ↔ Current h k s := by
  induction h using List.reverseRecOn with
  | nil => exact iff_of_false (hinit k s) (not_current_nil k s)
  | append_singleton h e ih =>
    rw [List.foldl_append, List.foldl_cons, List.foldl_nil, hstep, current_snoc, ih]

end History

section Entries
variable {κ σ : Type}

/-- `s` is among the members of an entry for `k`. -/
def Held (es : List (κ × Finset σ)) (k : κ) (s : σ) : Prop :=
  ∃ members, (k, members) ∈ es ∧ s ∈ members

theorem held_cons (e : κ × Finset σ) (es : List (κ × Finset σ)) (k : κ) (s : σ) :
    Held (e :: es) k s ↔ (k = e.1 ∧ s ∈ e.2) ∨ Held es k s := by
  constructor
  · rintro ⟨members, hmem, hs⟩
    rcases List.mem_cons.mp hmem with rfl | hmem
    · exact Or.inl ⟨rfl, hs⟩
    · exact Or.inr ⟨members, hmem, hs⟩
  · rintro (⟨rfl, hs⟩ | ⟨members, hmem, hs⟩)
    · exact ⟨e.2, List.mem_cons_self, hs⟩
    · exact ⟨members, List.mem_cons_of_mem _ hmem, hs⟩

theorem held_append (es es' : List (κ × Finset σ)) (k : κ) (s : σ) :
    Held (es ++ es') k s ↔ Held es k s ∨ Held es' k s := by
  simp only [Held, List.mem_append, or_and_right, exists_or]

theorem Held.key_mem {es : List (κ × Finset σ)} {k : κ} {s : σ} (h : Held es k s) :
    k ∈ es.map Prod.fst := by
  obtain ⟨members, hmem, -⟩ := h
  exact List.mem_map_of_mem hmem

variable [DecidableEq κ] [LinearOrder σ]

def addFirst (k : κ) (s : σ) : List (κ × Finset σ) → List (κ × Finset σ)
  | [] => [(k, {s})]
  | (k', members) :: es =>
    if k' = k then (k', insert s members) :: es else (k', members) :: addFirst k s es

def dropFirst (k : κ) (s : σ) : List (κ × Finset σ) → List (κ × Finset σ)
  | [] => []
  | (k', members) :: es =>
    if k' = k then (k', members.erase s) :: es else (k', members) :: dropFirst k s es

def dropAll (s : σ) (es : List (κ × Finset σ)) : List (κ × Finset σ) :=
  es.map fun e => (e.1, e.2.erase s)

/-- An entry is added only for a key that has none yet. -/
theorem keys_addFirst (k : κ) (s : σ) (es : List (κ × Finset σ)) :
    (addFirst k s es).map Prod.fst =
      if k ∈ es.map Prod.fst then es.map Prod.fst else es.map Prod.fst ++ [k] := by
  induction es with
  | nil => rfl
  | cons e es ih =>
    obtain ⟨k', members⟩ := e
    rw [addFirst]
    by_cases hk : k' = k
    · simp [hk]
    · rw [if_neg hk, List.map_cons, ih, List.map_cons]
      by_cases hmem : k ∈ es.map Prod.fst
      · rw [if_pos hmem, if_pos (List.mem_cons_of_mem _ hmem)]
      · rw [if_neg hmem, if_neg (List.not_mem_cons_of_ne_of_not_mem (Ne.symm hk) hmem),
          List.cons_append]

theorem mem_keys_addFirst {k : κ} {s : σ} {es : List (κ × Finset σ)} {k' : κ} :
    k' ∈ (addFirst k s es).map Prod.fst ↔ k' = k ∨ k' ∈ es.map Prod.fst := by
  rw [keys_addFirst]
  by_cases hk : k ∈ es.map Prod.fst
  · rw [if_pos hk]
    constructor
    · exact Or.inr
    · rintro (rfl | h)
      · exact hk
      · exact h
  · rw [if_neg hk, List.mem_append, List.mem_singleton, or_comm]

theorem nodup_keys_addFirst (k : κ) (s : σ) {es : List (κ × Finset σ)}
    (h : (es.map Prod.fst).Nodup) : ((addFirst k s es).map Prod.fst).Nodup := by
  rw [keys_addFirst]
  by_cases hk : k ∈ es.map Prod.fst
  · rwa [if_pos hk]
  · rw [if_neg hk, List.nodup_append]
    refine ⟨h, List.nodup_singleton k, ?_⟩
    rintro a ha b hb rfl
    exact hk (List.mem_singleton.mp hb ▸ ha)

@[simp] theorem keys_dropFirst (k : κ) (s : σ) (es : List (κ × Finset σ)) :
    (dropFirst k s es).map Prod.fst = es.map Prod.fst := by
  induction es with
  | nil => rfl
  | cons e es ih =>
    rw [dropFirst]
    by_cases hk : e.1 = k
    · rw [if_pos hk, List.map_cons, List.map_cons]
    · rw [if_neg hk, List.map_cons, List.map_cons, ih]

omit [DecidableEq κ] in
@[simp] theorem keys_dropAll (s : σ) (es : List (κ × Finset σ)) :
    (dropAll s es).map Prod.fst = es.map Prod.fst := by
  rw [dropAll, List.map_map]
  rfl

theorem held_addFirst (k : κ) (s : σ) (es : List (κ × Finset σ)) (k' : κ) (s' : σ) :
    Held (addFirst k s es) k' s' ↔ (k = k' ∧ s = s') ∨ Held es k' s' := by
  induction es with
  | nil =>
    rw [addFirst, held_cons, Finset.mem_singleton, eq_comm (a := k'), eq_comm (a := s')]
  | cons e es ih =>
    rw [addFirst]
    by_cases hk : e.1 = k
    · rw [if_pos hk, held_cons, held_cons, Finset.mem_insert]
      grind
    · rw [if_neg hk, held_cons, held_cons, ih]
      grind

/-- The lookup stops at the first entry of the key, which has to be the only one. -/
theorem held_dropFirst (k : κ) (s : σ) {es : List (κ × Finset σ)} (h : (es.map Prod.fst).Nodup)
    (k' : κ) (s' : σ) :
    Held (dropFirst k s es) k' s' ↔ Held es k' s' ∧ ¬(k = k' ∧ s = s') := by
  induction es with
  | nil => simp [dropFirst, Held]
  | cons e es ih =>
    rw [List.map_cons, List.nodup_cons] at h
    rw [dropFirst]
    by_cases hk : e.1 = k
    · have hrest : Held es k' s' → k ≠ k' := by
        rintro hheld rfl
        exact h.1 (hk ▸ hheld.key_mem)
      rw [if_pos hk, held_cons, held_cons, Finset.mem_erase]
      grind
    · rw [if_neg hk, held_cons, held_cons, ih h.2]
      grind

omit [DecidableEq κ] in
theorem held_dropAll (s : σ) (es : List (κ × Finset σ)) (k' : κ) (s' : σ) :
    Held (dropAll s es) k' s' ↔ Held es k' s' ∧ s ≠ s' := by
  induction es with
  | nil => simp [dropAll, Held]
  | cons e es ih =>
    rw [dropAll] at ih ⊢
    rw [List.map_cons, held_cons, held_cons, ih, Finset.mem_erase]
    grind

end Entries

section Delivery
variable {κ σ μ : Type} [LinearOrder σ]

/-- The message `m` goes to the end of the queue of each member, in their order. -/
def pushAll (m : μ) (members : Finset σ) (queues : σ → List μ) : σ → List μ :=
  (members.sort (· ≤ ·)).foldl (fun q s => Function.update q s (q s ++ [m])) queues

/-- The members in their order. -/
def inOrder (members : Finset σ) : List σ := members.sort (· ≤ ·)

theorem mem_inOrder {members : Finset σ} {s : σ} : s ∈ inOrder members ↔ s ∈ members :=
  Finset.mem_sort _

theorem inOrder_nodup (members : Finset σ) : (inOrder members).Nodup := Finset.sort_nodup _ _

theorem foldl_push_apply (m : μ) {members : List σ} (hnodup : members.Nodup) (queues : σ → List μ)
    (s : σ) :
    members.foldl (fun q s => Function.update q s (q s ++ [m])) queues s =
      queues s ++ if s ∈ members then [m] else [] := by
  induction members generalizing queues with
  | nil => simp
  | cons a members ih =>
    obtain ⟨hnot, hrest⟩ := List.nodup_cons.mp hnodup
    rw [List.foldl_cons, ih hrest]
    by_cases hs : s = a
    · rw [hs, Function.update_self, if_neg hnot, if_pos List.mem_cons_self, List.append_nil]
    · rw [Function.update_of_ne hs]
      simp only [List.mem_cons, hs, false_or]

theorem pushAll_apply (m : μ) (members : Finset σ) (queues : σ → List μ) (s : σ) :
    pushAll m members queues s = queues s ++ if s ∈ members then [m] else [] := by
  rw [pushAll, foldl_push_apply m (Finset.sort_nodup _ _)]
  simp only [Finset.mem_sort]

/-- The message goes to the members of every entry whose key is of the kind `p`. -/
def deliver (p : κ → Bool) (m : μ) (es : List (κ × Finset σ)) (queues : σ → List μ) : σ → List μ :=
  es.foldl (fun q e => if p e.1 then pushAll m e.2 q else q) queues

theorem deliver_cons (p : κ → Bool) (m : μ) (e : κ × Finset σ) (es : List (κ × Finset σ))
    (queues : σ → List μ) :
    deliver p m (e :: es) queues =
      deliver p m es (if p e.1 then pushAll m e.2 queues else queues) :=
  rfl

theorem deliver_append (p : κ → Bool) (m : μ) (es es' : List (κ × Finset σ))
    (queues : σ → List μ) :
    deliver p m (es ++ es') queues = deliver p m es' (deliver p m es queues) := by
  rw [deliver, List.foldl_append]
  rfl

/-- The keys of the kind `p` that `s` is a member of, one for each entry. -/
def memberKeys (p : κ → Bool) (es : List (κ × Finset σ)) (s : σ) : List κ :=
  (es.filter fun e => p e.1 && decide (s ∈ e.2)).map Prod.fst

theorem deliver_apply (p : κ → Bool) (m : μ) (es : List (κ × Finset σ)) (queues : σ → List μ)
    (s : σ) :
    deliver p m es queues s = queues s ++ List.replicate (memberKeys p es s).length m := by
  rw [memberKeys, List.length_map]
  induction es generalizing queues with
  | nil => simp [deliver]
  | cons e es ih =>
    rw [deliver_cons, ih, List.filter_cons]
    by_cases hp : p e.1 = true
    · rw [if_pos hp, pushAll_apply, hp, Bool.true_and]
      by_cases hs : s ∈ e.2
      · rw [if_pos hs, decide_eq_true hs, if_pos rfl, List.append_assoc, List.length_cons,
          List.replicate_succ, List.singleton_append]
      · rw [if_neg hs, decide_eq_false hs, if_neg Bool.false_ne_true, List.append_nil]
    · rw [if_neg hp, Bool.eq_false_of_not_eq_true hp, Bool.false_and, if_neg Bool.false_ne_true]

theorem mem_memberKeys {p : κ → Bool} {es : List (κ × Finset σ)} {s : σ} {k : κ} :
    k ∈ memberKeys p es s ↔ Held es k s ∧ p k = true := by
  constructor
  · intro h
    obtain ⟨e, he, rfl⟩ := List.mem_map.mp h
    obtain ⟨hmem, hkind⟩ := List.mem_filter.mp he
    rw [Bool.and_eq_true, decide_eq_true_iff] at hkind
    exact ⟨⟨e.2, hmem, hkind.2⟩, hkind.1⟩
  · rintro ⟨⟨members, hmem, hs⟩, hp⟩
    refine List.mem_map.mpr ⟨(k, members), List.mem_filter.mpr ⟨hmem, ?_⟩, rfl⟩
    rw [Bool.and_eq_true, decide_eq_true_iff]
    exact ⟨hp, hs⟩

theorem nodup_memberKeys (p : κ → Bool) {es : List (κ × Finset σ)} (h : (es.map Prod.fst).Nodup)
    (s : σ) : (memberKeys p es s).Nodup :=
  h.sublist (List.filter_sublist.map Prod.fst)

end Delivery

end Registry
