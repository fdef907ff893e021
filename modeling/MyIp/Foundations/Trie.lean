import Mathlib.Tactic
import Mathlib.Data.List.Lex

/-! # Tries with ranked siblings

A forest is the children of one node of a trie, in the order they are kept: each has a key, a value
if it was stored there itself, its own children, and the siblings after it. A node is addressed by
the keys on the way to it. `put` walks down such a path and adds what is missing; a new node goes
before the first sibling of a larger rank, where the rank may depend on the whole path. A node that
is there already keeps its value, or its lack of one.

* `find_put`: what is found after a `put`,
* `put_comm`: two `put`s commute when the paths part at keys of different ranks,
* `put_sorted`: siblings stay distinct and in the order of their ranks,
* `leaves_put`: a path that is new to the leaves becomes one leaf more, the others keep their order,
* `leaves_pairwise`: in a sorted forest the leaves ascend, `subforest_of_mem_leaves`: they are its
  nodes without children,
* `head_least_above_iff`: when the first leaf below a node is the next one of a path that is not
  there. -/

namespace Trie
set_option autoImplicit false

inductive Forest (κ β : Type) where
  | nil
  | cons (key : κ) (value : Option β) (children rest : Forest κ β)
  deriving DecidableEq, Repr

section Siblings
variable {κ β ι : Type} [LinearOrder ι] {rank : List κ → ι} {p : List κ} {k q : κ} {v : Option β}
  {ch f : Forest κ β}

/-- A new node below the path `p`, before the first one of a larger rank. -/
def insert (rank : List κ → ι) (p : List κ) (k : κ) (v : Option β) (ch : Forest κ β) :
    Forest κ β → Forest κ β
  | .nil => .cons k v ch .nil
  | .cons key value children rest =>
    if rank (p ++ [k]) < rank (p ++ [key]) then .cons k v ch (.cons key value children rest)
    else .cons key value children (insert rank p k v ch rest)

def keys : Forest κ β → List κ
  | .nil => []
  | .cons key _ _ rest => key :: keys rest

/-- Siblings are distinct and their ranks do not fall. -/
def Sorted (rank : List κ → ι) : List κ → Forest κ β → Prop
  | _, .nil => True
  | p, .cons key _ children rest =>
    Sorted rank (p ++ [key]) children ∧ Sorted rank p rest ∧
      ∀ k ∈ keys rest, key ≠ k ∧ rank (p ++ [key]) ≤ rank (p ++ [k])

/-- The paths of the nodes without children, in the order of the forest. -/
def leaves : List κ → Forest κ β → List (List κ)
  | _, .nil => []
  | p, .cons key _ .nil rest => (p ++ [key]) :: leaves p rest
  | p, .cons key _ (.cons key' value' children' rest') rest =>
    leaves (p ++ [key]) (.cons key' value' children' rest') ++ leaves p rest

/-- The leaves that a node with the path `p` and the children `ch` stands for. -/
def block (p : List κ) (ch : Forest κ β) : List (List κ) :=
  match ch with
  | .nil => [p]
  | ch => leaves p ch

theorem leaves_cons (p : List κ) (k : κ) (v : Option β) (ch rest : Forest κ β) :
    leaves p (.cons k v ch rest) = block (p ++ [k]) ch ++ leaves p rest := by
  cases ch <;> simp [leaves, block]

/-! ## New siblings -/

/-- Two new nodes of different ranks may come in either order. -/
theorem insert_comm {k' : κ} {v' : Option β} {ch' : Forest κ β}
    (hr : rank (p ++ [k]) ≠ rank (p ++ [k'])) :
    insert rank p k v ch (insert rank p k' v' ch' f) =
      insert rank p k' v' ch' (insert rank p k v ch f) := by
  induction f with
  | nil =>
    rcases lt_or_gt_of_ne hr with hlt | hlt
    · simp [insert, hlt, not_lt_of_gt hlt]
    · simp [insert, hlt, not_lt_of_gt hlt]
  | cons key value children rest _ ih =>
    by_cases h : rank (p ++ [k]) < rank (p ++ [key])
    · by_cases h' : rank (p ++ [k']) < rank (p ++ [key])
      · rcases lt_or_gt_of_ne hr with hlt | hlt
        · simp [insert, hlt, not_lt_of_gt hlt, h, h']
        · simp [insert, hlt, not_lt_of_gt hlt, h, h']
      · have hlt : ¬ rank (p ++ [k']) < rank (p ++ [k]) := fun hl => h' (hl.trans h)
        simp [insert, h, h', hlt]
    · by_cases h' : rank (p ++ [k']) < rank (p ++ [key])
      · have hlt : ¬ rank (p ++ [k]) < rank (p ++ [k']) := fun hl => h (hl.trans h')
        simp [insert, h, h', hlt]
      · simp [insert, h, h', ih]

theorem insert_nil : insert rank p k v ch .nil = .cons k v ch .nil := rfl

theorem insert_cons {key : κ} {value : Option β} {children rest : Forest κ β} :
    insert rank p k v ch (.cons key value children rest) =
      if rank (p ++ [k]) < rank (p ++ [key]) then .cons k v ch (.cons key value children rest)
      else .cons key value children (insert rank p k v ch rest) :=
  rfl

theorem mem_keys_insert : q ∈ keys (insert rank p k v ch f) ↔ q = k ∨ q ∈ keys f := by
  induction f with
  | nil => simp [insert_nil, keys]
  | cons key value children rest _ ih =>
    rw [insert_cons]
    split
    · simp [keys]
    · simp only [keys, List.mem_cons, ih]
      exact or_left_comm

theorem insert_sorted (hf : Sorted rank p f) (hch : Sorted rank (p ++ [k]) ch) (hk : k ∉ keys f) :
    Sorted rank p (insert rank p k v ch f) := by
  induction f with
  | nil => exact ⟨hch, trivial, by simp [keys]⟩
  | cons key value children rest _ ih =>
    obtain ⟨hc, hrest, hle⟩ := hf
    have hk' : k ≠ key ∧ k ∉ keys rest := by simpa [keys] using hk
    rw [insert_cons]
    split
    · rename_i hlt
      refine ⟨hch, ⟨hc, hrest, hle⟩, fun x hx => ?_⟩
      rcases List.mem_cons.mp hx with rfl | hx
      · exact ⟨hk'.1, le_of_lt hlt⟩
      · exact ⟨fun e => hk'.2 (e ▸ hx), (le_of_lt hlt).trans (hle x hx).2⟩
    · rename_i hlt
      refine ⟨hc, ih hrest hk'.2, fun x hx => ?_⟩
      rcases mem_keys_insert.mp hx with rfl | hx
      · exact ⟨Ne.symm hk'.1, not_lt.mp hlt⟩
      · exact hle x hx

theorem insert_ne_nil : insert rank p k v ch f ≠ .nil := by
  cases f with
  | nil => simp [insert_nil]
  | cons key value children rest =>
    rw [insert_cons]
    split <;> simp

/-! ## Leaves -/

theorem leaves_key {x : List κ} (h : x ∈ leaves p f) : ∃ k ∈ keys f, ∃ s, x = p ++ k :: s := by
  induction f generalizing p with
  | nil => simp [leaves] at h
  | cons key value children rest ihc ihr =>
    rw [leaves_cons, List.mem_append] at h
    rcases h with h | h
    · refine ⟨key, List.mem_cons_self, ?_⟩
      cases children with
      | nil => exact ⟨[], by simpa [block] using h⟩
      | cons key' value' children' rest' =>
        obtain ⟨k, -, s, rfl⟩ := ihc h
        exact ⟨k :: s, by simp⟩
    · obtain ⟨k, hk, s, rfl⟩ := ihr h
      exact ⟨k, List.mem_cons_of_mem _ hk, s, rfl⟩

theorem prefix_of_mem_block {x : List κ} (h : x ∈ block p ch) : p <+: x := by
  cases ch with
  | nil =>
    obtain rfl := List.mem_singleton.mp h
    exact List.prefix_rfl
  | cons key value children rest =>
    obtain ⟨k, -, s, rfl⟩ := leaves_key (show x ∈ leaves p (.cons key value children rest) from h)
    exact List.prefix_append _ _

theorem leaves_nodup (hf : Sorted rank p f) : (leaves p f).Nodup := by
  induction f generalizing p with
  | nil => exact List.nodup_nil
  | cons key value children rest ihc ihr =>
    obtain ⟨hc, hrest, hle⟩ := hf
    rw [leaves_cons]
    refine List.nodup_append.mpr ⟨?_, ihr hrest, ?_⟩
    · cases children with
      | nil => exact List.nodup_singleton _
      | cons key' value' children' rest' => exact ihc hc
    · rintro x hx y hy rfl
      obtain ⟨s, hs⟩ := prefix_of_mem_block hx
      obtain ⟨k, hk, t, rfl⟩ := leaves_key hy
      have he : key = k := by
        rw [List.append_assoc] at hs
        simpa using (List.cons.inj (List.append_cancel_left hs)).1
      exact (hle k hk).1 he

theorem block_ne_nil (p : List κ) (ch : Forest κ β) : block p ch ≠ [] := by
  induction ch generalizing p with
  | nil => simp [block]
  | cons key value children rest ih _ =>
    rw [block, leaves_cons]
    · exact fun e => ih _ (List.append_eq_nil_iff.mp e).1
    · simp

theorem block_of_ne_nil (h : ch ≠ .nil) : block p ch = leaves p ch := by
  cases ch with
  | nil => exact absurd rfl h
  | cons key value children rest => rfl

theorem leaves_insert (rank : List κ → ι) (p : List κ) (k : κ) (v : Option β) (ch f : Forest κ β) :
    ∃ l l', leaves p f = l ++ l' ∧
      leaves p (insert rank p k v ch f) = l ++ block (p ++ [k]) ch ++ l' := by
  induction f with
  | nil => exact ⟨[], [], rfl, by simp [insert, leaves_cons, leaves]⟩
  | cons key value children rest _ ih =>
    rw [insert]
    split
    · exact ⟨[], _, rfl, by simp [leaves_cons]⟩
    · obtain ⟨l, l', h, h'⟩ := ih
      exact ⟨block (p ++ [key]) children ++ l, l', by simp [leaves_cons, h],
        by simp [leaves_cons, h']⟩

end Siblings

section Paths
variable {κ β ι : Type} [DecidableEq κ] [LinearOrder ι] {rank : List κ → ι} {p : List κ} {k q : κ}
  {v : Option β} {ch f : Forest κ β}

/-- The node with key `k`: its value and its children. -/
def child (k : κ) : Forest κ β → Option (Option β × Forest κ β)
  | .nil => none
  | .cons key value children rest => if key = k then some (value, children) else child k rest

/-- The value stored at a path, `some none` at a node that has none. -/
def find : List κ → Forest κ β → Option (Option β)
  | [], _ => none
  | k :: ks, f =>
    match child k f with
    | none => none
    | some (v, ch) => if ks = [] then some v else find ks ch

def setChildren (k : κ) (ch : Forest κ β) : Forest κ β → Forest κ β
  | .nil => .nil
  | .cons key value children rest =>
    if key = k then .cons key value ch rest else .cons key value children (setChildren k ch rest)

/-- Stores `b` at the path `ks` of the forest below `p`. -/
def put (rank : List κ → ι) (b : β) : List κ → List κ → Forest κ β → Forest κ β
  | _, [], f => f
  | p, k :: ks, f =>
    match child k f with
    | none =>
      insert rank p k (if ks = [] then some b else none) (put rank b (p ++ [k]) ks .nil) f
    | some (_, ch) => setChildren k (put rank b (p ++ [k]) ks ch) f

/-- The children of the node at a path; those of the root are the forest itself. -/
def subforest : List κ → Forest κ β → Option (Forest κ β)
  | [], f => some f
  | k :: ks, f =>
    match child k f with
    | none => none
    | some (_, ch) => subforest ks ch

/-! ## One level -/

theorem child_insert (h : child k f = none) :
    child q (insert rank p k v ch f) = if q = k then some (v, ch) else child q f := by
  induction f with
  | nil =>
    by_cases hq : k = q
    · simp [insert, child, hq]
    · simp [insert, child, hq, Ne.symm hq]
  | cons key value children rest _ ih =>
    rw [child] at h
    split at h
    · cases h
    · rename_i hk
      rw [insert]
      by_cases hq : q = k
      · subst hq
        split
        · simp [child]
        · simpa [child, hk] using ih h
      · split
        · simp [child, Ne.symm hq]
        · simp only [child, ih h, if_neg hq]

theorem child_setChildren :
    child q (setChildren k ch f) =
      if q = k then (child k f).map (fun n => (n.1, ch)) else child q f := by
  induction f with
  | nil => simp [setChildren, child]
  | cons key value children rest _ ih =>
    rw [setChildren]
    by_cases hk : key = k
    · by_cases hq : q = k
      · simp [child, hk, hq]
      · simp [child, hk, hq, Ne.symm hq]
    · by_cases hq : q = k
      · subst hq
        simpa [child, hk] using ih
      · by_cases hkq : key = q
        · simp [child, hkq, hq]
        · simpa [child, hk, hkq, hq] using ih

theorem child_eq_none : child k f = none ↔ k ∉ keys f := by
  induction f with
  | nil => simp [child, keys]
  | cons key value children rest _ ih =>
    by_cases h : key = k
    · simp [child, keys, h]
    · simp [child, keys, h, ih, Ne.symm h]

theorem setChildren_setChildren (ch' : Forest κ β) :
    setChildren k ch (setChildren k ch' f) = setChildren k ch f := by
  induction f with
  | nil => rfl
  | cons key value children rest _ ih =>
    by_cases hk : key = k
    · simp [setChildren, hk]
    · simp [setChildren, hk, ih]

theorem setChildren_insert (h : child k f = none) (ch' : Forest κ β) :
    setChildren k ch (insert rank p k v ch' f) = insert rank p k v ch f := by
  induction f with
  | nil => simp [insert, setChildren]
  | cons key value children rest _ ih =>
    rw [child] at h
    split at h
    · cases h
    · rename_i hk
      simp only [insert]
      split
      · simp [setChildren]
      · simp [setChildren, hk, ih h]

theorem setChildren_comm {k' : κ} (hk : k ≠ k') (ch' : Forest κ β) :
    setChildren k ch (setChildren k' ch' f) = setChildren k' ch' (setChildren k ch f) := by
  induction f with
  | nil => rfl
  | cons key value children rest _ ih =>
    by_cases h : key = k
    · have h' : key ≠ k' := fun e => hk (h.symm.trans e)
      simp [setChildren, h, hk]
    · by_cases h' : key = k'
      · simp [setChildren, h', Ne.symm hk]
      · simp [setChildren, h, h', ih]

theorem setChildren_insert_comm {k' : κ} (hk : k ≠ k') (ch' : Forest κ β) :
    setChildren k ch (insert rank p k' v ch' f) = insert rank p k' v ch' (setChildren k ch f) := by
  induction f with
  | nil => simp [insert, setChildren, Ne.symm hk]
  | cons key value children rest _ ih =>
    by_cases h : key = k
    · subst h
      simp only [insert, setChildren, if_true]
      split
      · simp [setChildren, Ne.symm hk]
      · simp [setChildren]
    · simp only [insert, setChildren, if_neg h]
      split
      · simp [setChildren, Ne.symm hk, h]
      · simp [setChildren, h, ih]

theorem setChildren_ne_nil (h : f ≠ .nil) : setChildren k ch f ≠ .nil := by
  cases f with
  | nil => exact absurd rfl h
  | cons key value children rest =>
    rw [setChildren]
    split <;> simp

theorem keys_setChildren : keys (setChildren k ch f) = keys f := by
  induction f with
  | nil => rfl
  | cons key value children rest _ ih =>
    by_cases h : key = k
    · simp [setChildren, keys, h]
    · simp [setChildren, keys, h, ih]

/-! ## Finding what was stored -/

theorem find_put {b : β} {o q : List κ} :
    find q (put rank b p o f) = (find q f).or
      (if q = [] then none else if q = o then some (some b) else if q <+: o then some none
        else none) := by
  induction o generalizing q p f with
  | nil =>
    cases q with
    | nil => rfl
    | cons a as => simp [put]
  | cons k ks ih =>
    cases q with
    | nil => rfl
    | cons a as =>
      cases hc : child k f with
      | none =>
        by_cases ha : a = k
        · subst ha
          simp only [put, hc, find, child_insert hc, if_true]
          by_cases has : as = []
          · subst has
            by_cases hks : ks = []
            · simp [hks]
            · simp [hks, Ne.symm hks]
          · rw [if_neg has, ih]
            have hn : find as (Forest.nil : Forest κ β) = none := by
              cases as <;> rfl
            simp [hn, has]
        · simp [put, hc, find, child_insert hc, ha]
      | some n =>
        by_cases ha : a = k
        · subst ha
          simp only [put, hc, find, child_setChildren, if_true, Option.map_some]
          by_cases has : as = []
          · simp [has]
          · rw [if_neg has, if_neg has, ih]
            simp [has]
        · simp [put, hc, find, child_setChildren, ha]

/-! ## The order of two stores -/

/-- Below `p` the two paths part at keys of different ranks. -/
def Parts (rank : List κ → ι) (p o o' : List κ) : Prop :=
  ∃ c a a' s s', o = c ++ a :: s ∧ o' = c ++ a' :: s' ∧ rank (p ++ c ++ [a]) ≠ rank (p ++ c ++ [a'])

/-- Two paths of which neither extends the other part somewhere. -/
theorem exists_parting {o o' : List κ} (h : ¬ o <+: o') (h' : ¬ o' <+: o) :
    ∃ c a a' s s', o = c ++ a :: s ∧ o' = c ++ a' :: s' ∧ a ≠ a' := by
  induction o generalizing o' with
  | nil => exact absurd List.nil_prefix h
  | cons k ks ih =>
    cases o' with
    | nil => exact absurd List.nil_prefix h'
    | cons k' ks' =>
      by_cases hk : k = k'
      · subst hk
        rw [List.cons_prefix_cons] at h h'
        obtain ⟨c, a, a', s, s', rfl, rfl, hne⟩ := ih (fun hp => h ⟨rfl, hp⟩) fun hp => h' ⟨rfl, hp⟩
        exact ⟨k :: c, a, a', s, s', rfl, rfl, hne⟩
      · exact ⟨[], k, k', ks, ks', rfl, rfl, hk⟩

theorem put_comm {b b' : β} {o o' : List κ} (h : Parts rank p o o') :
    put rank b p o (put rank b' p o' f) = put rank b' p o' (put rank b p o f) := by
  induction o generalizing o' p f with
  | nil =>
    obtain ⟨c, a, a', s, s', ho, -, -⟩ := h
    simp at ho
  | cons k ks ih =>
    obtain ⟨c, a, a', s, s', ho, rfl, hr⟩ := h
    cases c with
    | nil =>
      obtain ⟨rfl, rfl⟩ : k = a ∧ ks = s := by simpa using ho
      have hr' : rank (p ++ [k]) ≠ rank (p ++ [a']) := by simpa using hr
      have hk : k ≠ a' := fun e => hr' (by rw [e])
      simp only [List.nil_append]
      cases hc : child k f with
      | none =>
        cases hc' : child a' f with
        | none => simp [put, hc, hc', child_insert, hk, Ne.symm hk, insert_comm hr']
        | some n' =>
          simp [put, hc, hc', child_insert, child_setChildren, hk, Ne.symm hk,
            setChildren_insert_comm (Ne.symm hk)]
      | some n =>
        cases hc' : child a' f with
        | none =>
          simp [put, hc, hc', child_insert, child_setChildren, hk, Ne.symm hk,
            setChildren_insert_comm hk]
        | some n' =>
          simp [put, hc, hc', child_setChildren, hk, Ne.symm hk, setChildren_comm hk]
    | cons k' c =>
      obtain ⟨rfl, rfl⟩ : k = k' ∧ ks = c ++ a :: s := by simpa using ho
      have hp : Parts rank (p ++ [k]) (c ++ a :: s) (c ++ a' :: s') :=
        ⟨c, a, a', s, s', rfl, rfl, by simpa using hr⟩
      simp only [List.cons_append]
      cases hc : child k f with
      | none => simp [put, hc, child_insert, setChildren_insert hc, ih hp]
      | some n => simp [put, hc, child_setChildren, setChildren_setChildren, ih hp]

/-! ## Sorted forests -/

theorem setChildren_sorted (hf : Sorted rank p f) (hch : Sorted rank (p ++ [k]) ch) :
    Sorted rank p (setChildren k ch f) := by
  induction f with
  | nil => trivial
  | cons key value children rest _ ih =>
    obtain ⟨hc, hrest, hle⟩ := hf
    rw [setChildren]
    split
    · rename_i h
      subst h
      exact ⟨hch, hrest, hle⟩
    · exact ⟨hc, ih hrest, by rw [keys_setChildren]; exact hle⟩

theorem child_sorted (hf : Sorted rank p f) (hc : child k f = some (v, ch)) :
    Sorted rank (p ++ [k]) ch := by
  induction f with
  | nil => cases hc
  | cons key value children rest _ ih =>
    rw [child] at hc
    split at hc
    · rename_i h
      subst h
      obtain ⟨-, rfl⟩ := Prod.mk.inj (Option.some.inj hc)
      exact hf.1
    · exact ih hf.2.1 hc

theorem put_sorted {b : β} {o : List κ} (hf : Sorted rank p f) :
    Sorted rank p (put rank b p o f) := by
  induction o generalizing p f with
  | nil => exact hf
  | cons k ks ih =>
    rw [put]
    split
    · rename_i hc
      exact insert_sorted hf (ih trivial) (child_eq_none.mp hc)
    · rename_i hc
      exact setChildren_sorted hf (ih (child_sorted hf hc))

/-! ## Leaves of the trie -/

/-- A leaf is a node without children. -/
theorem subforest_of_mem_leaves {x : List κ} (hf : Sorted rank p f) (h : x ∈ leaves p f) :
    ∃ s, x = p ++ s ∧ s ≠ [] ∧ subforest s f = some .nil := by
  induction f generalizing p with
  | nil => simp [leaves] at h
  | cons key value children rest ihc ihr =>
    obtain ⟨hc, hrest, hle⟩ := hf
    rw [leaves_cons, List.mem_append] at h
    rcases h with h | h
    · cases children with
      | nil => exact ⟨[key], List.mem_singleton.mp h, by simp, by simp [subforest, child]⟩
      | cons key' value' children' rest' =>
        obtain ⟨s, rfl, -, hs⟩ := ihc hc h
        exact ⟨key :: s, by simp, by simp, by simpa [subforest, child] using hs⟩
    · obtain ⟨k, hk, t, ht⟩ := leaves_key h
      obtain ⟨s, hs, hne, hsub⟩ := ihr hrest h
      obtain rfl : s = k :: t := by
        rw [hs] at ht
        exact List.append_cancel_left ht
      refine ⟨k :: t, hs, hne, ?_⟩
      simpa [subforest, child, (hle k hk).1] using hsub

/-- The leaves below a child are those that go on from its path. -/
theorem mem_block_child {x : List κ} (hf : Sorted rank p f) (hc : child k f = some (v, ch)) :
    x ∈ block (p ++ [k]) ch ↔ x ∈ leaves p f ∧ p ++ [k] <+: x := by
  induction f with
  | nil => cases hc
  | cons key value children rest _ ih =>
    obtain ⟨-, hrest, hle⟩ := hf
    have hfirst : ∀ {k' t}, p ++ [k] <+: p ++ k' :: t → k = k' := by
      rintro k' t ⟨s, hs⟩
      rw [List.append_assoc] at hs
      exact (List.cons.inj (List.append_cancel_left hs)).1
    rw [leaves_cons, List.mem_append]
    rw [child] at hc
    split at hc
    · rename_i hk
      subst hk
      obtain ⟨-, rfl⟩ := Prod.mk.inj (Option.some.inj hc)
      constructor
      · exact fun hx => ⟨Or.inl hx, prefix_of_mem_block hx⟩
      · rintro ⟨hx | hx, hp⟩
        · exact hx
        · obtain ⟨k', hk', t, rfl⟩ := leaves_key hx
          exact absurd (hfirst hp) (hle k' hk').1
    · rename_i hk
      rw [ih hrest hc]
      constructor
      · exact fun hx => ⟨Or.inr hx.1, hx.2⟩
      · rintro ⟨hx | hx, hp⟩
        · obtain ⟨t, rfl⟩ := prefix_of_mem_block hx
          rw [List.append_assoc, List.singleton_append] at hp
          exact absurd (hfirst hp).symm hk
        · exact ⟨hx, hp⟩

/-- The leaves below any node. -/
theorem mem_block_subforest {o x : List κ} (hf : Sorted rank p f) (h : subforest o f = some ch) :
    x ∈ block (p ++ o) ch ↔ x ∈ block p f ∧ p ++ o <+: x := by
  induction o generalizing p f with
  | nil =>
    obtain rfl := Option.some.inj h
    rw [List.append_nil]
    exact ⟨fun hx => ⟨hx, prefix_of_mem_block hx⟩, fun hx => hx.1⟩
  | cons k ks ih =>
    rw [subforest] at h
    split at h
    · cases h
    · rename_i v ch' hc
      have hne : f ≠ .nil := by
        rintro rfl
        cases hc
      have hih := ih (child_sorted hf hc) h
      rw [List.append_assoc, List.singleton_append] at hih
      rw [hih, mem_block_child hf hc, block_of_ne_nil hne]
      constructor
      · exact fun hx => ⟨hx.1.1, hx.2⟩
      · intro hx
        have hshort : p ++ [k] <+: p ++ k :: ks :=
          (List.prefix_append_right_inj p).mpr (List.cons_prefix_cons.mpr ⟨rfl, List.nil_prefix⟩)
        exact ⟨⟨hx.1, hshort.trans hx.2⟩, hx.2⟩

/-- Every key is on the way to a leaf. -/
theorem mem_keys_iff (hf : Sorted rank p f) : k ∈ keys f ↔ ∃ t, p ++ k :: t ∈ leaves p f := by
  constructor
  · intro hk
    cases hc : child k f with
    | none => exact absurd hk (child_eq_none.mp hc)
    | some n =>
      obtain ⟨x, hx⟩ := List.exists_mem_of_ne_nil _ (block_ne_nil (p ++ [k]) n.2)
      obtain ⟨hmem, t, rfl⟩ := (mem_block_child hf hc).mp hx
      exact ⟨t, by simpa using hmem⟩
  · rintro ⟨t, ht⟩
    obtain ⟨k', hk', t', he⟩ := leaves_key ht
    rw [(List.cons.inj (List.append_cancel_left he)).1]
    exact hk'

/-- A path that is not there leaves the trie at one of its keys. -/
theorem subforest_stops {o : List κ} (h : subforest o f = none) :
    ∃ c a s g, o = c ++ a :: s ∧ subforest c f = some g ∧ child a g = none := by
  induction o generalizing f with
  | nil => cases h
  | cons k ks ih =>
    rw [subforest] at h
    split at h
    · rename_i hc
      exact ⟨[], k, ks, f, rfl, rfl, hc⟩
    · rename_i v ch' hc
      obtain ⟨c, a, s, g, rfl, hg, ha⟩ := ih h
      exact ⟨k :: c, a, s, g, rfl, by rw [subforest, hc]; exact hg, ha⟩

theorem subforest_append {o o' : List κ} (h : subforest o f = some ch) :
    subforest (o ++ o') f = subforest o' ch := by
  induction o generalizing f with
  | nil =>
    obtain rfl := Option.some.inj h
    rfl
  | cons k ks ih =>
    rw [subforest] at h
    split at h
    · cases h
    · rename_i hc
      rw [List.cons_append, subforest, hc]
      exact ih h

theorem subforest_sorted {o : List κ} (hf : Sorted rank p f) (h : subforest o f = some ch) :
    Sorted rank (p ++ o) ch := by
  induction o generalizing p f with
  | nil =>
    obtain rfl := Option.some.inj h
    rwa [List.append_nil]
  | cons k ks ih =>
    rw [subforest] at h
    split at h
    · cases h
    · rename_i v ch' hc
      have := ih (child_sorted hf hc) h
      rwa [List.append_assoc, List.singleton_append] at this

theorem put_ne_nil {b : β} {o : List κ} (h : f ≠ .nil) : put rank b p o f ≠ .nil := by
  cases o with
  | nil => exact h
  | cons k ks =>
    rw [put]
    split
    · exact insert_ne_nil
    · exact setChildren_ne_nil h

/-- What a path puts into an empty forest is one leaf. -/
theorem block_put_nil (rank : List κ → ι) (b : β) (p ks : List κ) :
    block p (put rank b p ks (.nil : Forest κ β)) = [p ++ ks] := by
  induction ks generalizing p with
  | nil => simp [put, block]
  | cons k ks ih =>
    have hl := leaves_cons p k (if ks = [] then some b else none)
      (put rank b (p ++ [k]) ks (.nil : Forest κ β)) .nil
    rw [ih] at hl
    simpa [put, child, insert, block, leaves] using hl

theorem leaves_setChildren (hc : child k f = some (v, ch)) :
    ∃ l l', leaves p f = l ++ block (p ++ [k]) ch ++ l' ∧
      ∀ ch', leaves p (setChildren k ch' f) = l ++ block (p ++ [k]) ch' ++ l' := by
  induction f with
  | nil => cases hc
  | cons key value children rest _ ih =>
    rw [child] at hc
    split at hc
    · rename_i h
      subst h
      obtain ⟨rfl, rfl⟩ := Prod.mk.inj (Option.some.inj hc)
      exact ⟨[], leaves p rest, by simp [leaves_cons], by simp [setChildren, leaves_cons]⟩
    · rename_i h
      obtain ⟨l, l', hl, hl'⟩ := ih hc
      exact ⟨block (p ++ [key]) children ++ l, l', by simp [leaves_cons, hl],
        fun ch' => by simp [setChildren, h, leaves_cons, hl']⟩

/-- A path that neither extends a leaf nor is extended by one becomes a new leaf. -/
theorem leaves_put (rank : List κ → ι) (b : β) {o : List κ} (ho : o ≠ [])
    (hnew : ∀ x ∈ leaves p f, ¬ p ++ o <+: x ∧ ¬ x <+: p ++ o) :
    ∃ l l', leaves p f = l ++ l' ∧ leaves p (put rank b p o f) = l ++ (p ++ o) :: l' := by
  induction o generalizing p f with
  | nil => exact absurd rfl ho
  | cons k ks ih =>
    rw [put]
    split
    · obtain ⟨l, l', hl, hl'⟩ := leaves_insert rank p k (if ks = [] then some b else none)
        (put rank b (p ++ [k]) ks .nil) f
      refine ⟨l, l', hl, ?_⟩
      rw [hl', block_put_nil]
      simp
    · rename_i v ch hc
      obtain ⟨l, l', hl, hl'⟩ := leaves_setChildren (p := p) hc
      have hin : ∀ x ∈ block (p ++ [k]) ch, x ∈ leaves p f := by
        intro x hx
        rw [hl]
        exact List.mem_append_left _ (List.mem_append_right _ hx)
      obtain ⟨x, hx⟩ := List.exists_mem_of_ne_nil _ (block_ne_nil (p ++ [k]) ch)
      have hks : ks ≠ [] := by
        rintro rfl
        exact (hnew x (hin x hx)).1 (prefix_of_mem_block hx)
      have hch : ch ≠ .nil := by
        rintro rfl
        refine (hnew (p ++ [k]) (hin _ (by simp [block]))).2 ⟨ks, by simp⟩
      rw [block_of_ne_nil hch] at hl hin
      have hnew' : ∀ x ∈ leaves (p ++ [k]) ch,
          ¬ (p ++ [k]) ++ ks <+: x ∧ ¬ x <+: (p ++ [k]) ++ ks := by
        intro x hx
        simpa using hnew x (hin x hx)
      obtain ⟨m, m', hm, hm'⟩ := ih hks hnew'
      refine ⟨l ++ m, m' ++ l', by rw [hl, hm]; simp, ?_⟩
      rw [hl', block_of_ne_nil (put_ne_nil hch), hm']
      simp

/-- Of two paths that part at keys of the same rank, the one stored first comes first. -/
theorem leaves_put_put (b b' : β) {c : List κ} (s s' : List κ) {a a' : κ} (ha : a ≠ a')
    (hr : ¬ rank (p ++ c ++ [a']) < rank (p ++ c ++ [a])) :
    leaves p (put rank b' p (c ++ a' :: s') (put rank b p (c ++ a :: s) .nil)) =
      [p ++ c ++ a :: s, p ++ c ++ a' :: s'] := by
  induction c generalizing p with
  | nil =>
    rw [List.append_nil] at hr
    simp only [List.nil_append, put, child, insert, if_neg ha, if_neg hr, leaves_cons, leaves,
      block_put_nil]
    simp
  | cons k c ih =>
    have hne : put rank b' (p ++ [k]) (c ++ a' :: s')
        (put rank b (p ++ [k]) (c ++ a :: s) (.nil : Forest κ β)) ≠ .nil := by
      apply put_ne_nil
      intro he
      have hl := block_put_nil rank b (p ++ [k]) (c ++ a :: s)
      rw [he, block] at hl
      simpa using congrArg (fun l => l.map List.length) hl
    have hih := ih (p := p ++ [k]) (by simpa using hr)
    simp only [List.cons_append, put, child, insert, setChildren, if_true, leaves_cons, leaves,
      block_of_ne_nil hne, hih]
    simp

end Paths

section Order
variable {κ β ι : Type} [LinearOrder κ] [LinearOrder ι] {rank : List κ → ι}

theorem lt_append_cons (q : List κ) (k : κ) (s : List κ) : q < q ++ k :: s := by
  induction q with
  | nil => exact List.Lex.nil
  | cons a q ih => exact List.Lex.cons ih

/-- What lies between a path and an extension of it is an extension, too. -/
theorem prefix_of_lt_of_lt {q x t : List κ} (h : q < x) (h' : x < q ++ t) : q <+: x := by
  induction q generalizing x with
  | nil => exact List.nil_prefix
  | cons a q ih =>
    cases x with
    | nil => cases h
    | cons b x =>
      rw [List.cons_append, List.cons_lt_cons_iff] at h'
      rw [List.cons_lt_cons_iff] at h
      rcases h with h | ⟨rfl, h⟩
      · rcases h' with h' | ⟨rfl, -⟩
        · exact absurd h' (lt_asymm h)
        · exact absurd h (lt_irrefl _)
      · rcases h' with h' | ⟨-, h'⟩
        · exact absurd h' (lt_irrefl _)
        · exact List.cons_prefix_cons.mpr ⟨rfl, ih h h'⟩

/-- The leaves of a sorted forest ascend, if among them a key of a smaller rank is smaller. -/
theorem leaves_pairwise {p : List κ} {f : Forest κ β} (hf : Sorted rank p f)
    (hr : ∀ q a a' s s', q ++ a :: s ∈ leaves p f → q ++ a' :: s' ∈ leaves p f →
      rank (q ++ [a]) ≤ rank (q ++ [a']) → a ≤ a') :
    (leaves p f).Pairwise (· < ·) := by
  induction f generalizing p with
  | nil => exact List.Pairwise.nil
  | cons key value children rest ihc ihr =>
    obtain ⟨hc, hrest, hle⟩ := hf
    rw [leaves_cons] at hr ⊢
    refine List.pairwise_append.mpr ⟨?_, ?_, ?_⟩
    · cases children with
      | nil => exact List.pairwise_singleton _ _
      | cons key' value' children' rest' =>
        exact ihc hc fun q a a' s s' h h' =>
          hr q a a' s s' (List.mem_append_left _ h) (List.mem_append_left _ h')
    · exact ihr hrest fun q a a' s s' h h' =>
        hr q a a' s s' (List.mem_append_right _ h) (List.mem_append_right _ h')
    · intro x hx y hy
      obtain ⟨s, rfl⟩ := prefix_of_mem_block hx
      obtain ⟨k, hk, t, rfl⟩ := leaves_key hy
      have hkey := hr p key k s t (List.mem_append_left _ (by simpa using hx))
        (List.mem_append_right _ hy) (hle k hk).2
      have hlt : key < k := lt_of_le_of_ne hkey (hle k hk).1
      rw [List.append_assoc]
      exact List.Lex.append_left _ (List.Lex.rel hlt) p

theorem head_le_of_pairwise {l : List (List κ)} {x y : List κ} (h : l.Pairwise (· < ·))
    (hx : l.head? = some x) (hy : y ∈ l) : x ≤ y := by
  obtain ⟨l', rfl⟩ := List.head?_eq_some_iff.mp hx
  rcases List.mem_cons.mp hy with rfl | hy
  · exact le_refl _
  · exact le_of_lt ((List.pairwise_cons.mp h).1 y hy)

/-- Paths that part at different keys are ordered as these are. -/
theorem append_cons_lt_iff {p s t : List κ} {a b : κ} (h : a ≠ b) :
    p ++ a :: s < p ++ b :: t ↔ a < b := by
  induction p with
  | nil =>
    rw [List.nil_append, List.nil_append, List.cons_lt_cons_iff]
    simp [h]
  | cons k p ih =>
    rw [List.cons_append, List.cons_append, List.cons_lt_cons_iff]
    simp [ih]

/-- Beside a path that leaves the forest at the key `k` below `p`: the first leaf below `p` is the
least leaf above the path if and only if its key is the least one above `k`. -/
theorem head_least_above_iff {p s x : List κ} {c k : κ} {v : Option β} {f ch rest : Forest κ β}
    (hf : Sorted rank [] f) (hsub : subforest p f = some (.cons c v ch rest))
    (hk : k ∉ keys (.cons c v ch rest)) (hx : (block (p ++ [c]) ch).head? = some x)
    (hasc : (block (p ++ [c]) ch).Pairwise (· < ·)) :
    (p ++ k :: s < x ∧ ∀ y ∈ block [] f, p ++ k :: s < y → x ≤ y) ↔
      k < c ∧ ∀ c' ∈ keys (.cons c v ch rest), k < c' → c ≤ c' := by
  have hsorted := subforest_sorted hf hsub
  rw [List.nil_append] at hsorted
  have hbelow : ∀ y, y ∈ leaves p (.cons c v ch rest) ↔ y ∈ block [] f ∧ p <+: y :=
    fun y => mem_block_subforest hf hsub
  obtain ⟨t, rfl⟩ : ∃ t, x = p ++ c :: t := by
    obtain ⟨t, rfl⟩ := prefix_of_mem_block (List.mem_of_mem_head? hx)
    exact ⟨t, by simp⟩
  have hne : ∀ c' ∈ keys (.cons c v ch rest), k ≠ c' := fun c' hc' e => hk (e ▸ hc')
  have hkc : k ≠ c := hne c List.mem_cons_self
  rw [append_cons_lt_iff hkc]
  refine and_congr_right fun hlt => ⟨fun hleast c' hc' hkc' => ?_, fun hleast y hy hqy => ?_⟩
  · obtain ⟨t', ht'⟩ := (mem_keys_iff hsorted).mp hc'
    have hle := hleast _ ((hbelow _).mp ht').1 ((append_cons_lt_iff (hne c' hc')).mpr hkc')
    by_contra hc
    have hlt' : c' < c := not_le.mp hc
    exact absurd ((append_cons_lt_iff hlt'.ne).mpr hlt') (not_lt.mpr hle)
  · by_contra hyx
    -- what lies between the path and the leaf goes on from `p`, too
    have hpy : p <+: y :=
      prefix_of_lt_of_lt ((lt_append_cons p k s).trans hqy) (not_le.mp hyx)
    obtain ⟨c', hc', t', rfl⟩ := leaves_key ((hbelow y).mpr ⟨hy, hpy⟩)
    have hle := hleast c' hc' ((append_cons_lt_iff (hne c' hc')).mp hqy)
    by_cases he : c = c'
    · subst he
      have hmem : p ++ c :: t' ∈ block (p ++ [c]) ch :=
        (mem_block_child hsorted (if_pos rfl)).mpr ⟨(hbelow _).mpr ⟨hy, hpy⟩, t', by simp⟩
      exact hyx (head_le_of_pairwise hasc hx hmem)
    · exact hyx (le_of_lt ((append_cons_lt_iff he).mpr (lt_of_le_of_ne hle he)))

end Order

end Trie
