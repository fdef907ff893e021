import MyIp.Snmp.Walk

/-! # GETNEXT from an object identifier that is not in the tree

The search goes down as far as the tree does and then on to the first leaf below the node it has
reached, whatever the arc is that it did not find there. So the answer is the next object identifier
only if that arc would have come before all others: `getnext_missing_iff`. -/

namespace MyIp.Snmp
set_option autoImplicit false

open CText Net
open Trie (Forest leaves block subforest)

/-! ## Where the search stops -/

theorem descend_missing (p₀ : List ℕ) {p : List ℕ} {k : ℕ} {f ch : Forest ℕ DataType}
    (s : List ℕ) (e : Option Node) (branch : List Frame) (hsub : subforest p f = some ch)
    (hk : Trie.child k ch = none) :
    ∃ e' branch',
      descend (render p₀) ((p ++ k :: s).map decimal) ⟨toNodes p₀ f, e, branch⟩ =
        ⟨toNodes (p₀ ++ p) ch, e', branch'⟩ ∧
      (p = [] → e' = e) ∧ (p ≠ [] → ∃ n, e' = some n ∧ n.oid = render (p₀ ++ p)) := by
  induction p generalizing p₀ f e branch with
  | nil =>
    obtain rfl := Option.some.inj hsub
    refine ⟨e, branch, ?_, fun _ => rfl, fun h => absurd rfl h⟩
    rw [List.nil_append, List.map_cons, descend]
    simp only [extendOid_render, findOidInVector_none hk, List.append_nil]
  | cons a p ih =>
    rw [subforest] at hsub
    split at hsub
    · cases hsub
    · rename_i v ch' hc
      obtain ⟨i, hi, hget, -⟩ := findOidInVector_some (p := p₀) hc
      obtain ⟨e', branch', hdesc, hnil, hcons⟩ := ih (p₀ ++ [a])
        (some (.mk (rank (p₀ ++ [a])) (render (p₀ ++ [a])) v (toNodes (p₀ ++ [a]) ch')))
        (⟨e, i⟩ :: branch) hsub
      rw [List.append_assoc, List.singleton_append] at hdesc hcons
      refine ⟨e', branch', ?_, by simp, fun _ => ?_⟩
      · rw [List.cons_append, List.map_cons, descend]
        simp only [extendOid_render, hi, hget]
        exact hdesc
      · by_cases hp : p = []
        · exact ⟨_, hnil hp, by rw [hp]; rfl⟩
        · exact hcons hp

/-- The answer is the first leaf at or below the node where the search stops. -/
theorem findNextOid_missing {p s : List ℕ} {k : ℕ} {f ch : Forest ℕ DataType}
    (hf : f ≠ .nil) (hsub : subforest p f = some ch) (hk : Trie.child k ch = none) :
    ∃ x, (block p ch).head? = some x ∧
      findNextOid (toNodes [] f) (render (p ++ k :: s)) = some (render x) := by
  obtain ⟨e, branch, hdesc, -, hnode⟩ := descend_missing [] s none [] hsub hk
  rw [List.nil_append] at hdesc hnode
  have hstart : descend [] (split (render (p ++ k :: s)) '.') ⟨toNodes [] f, none, []⟩ =
      ⟨toNodes p ch, e, branch⟩ := by
    rw [split_render]
    exact hdesc
  rw [findNextOid, hstart]
  by_cases hnil : ch = .nil
  · subst hnil
    have hp : p ≠ [] := by
      rintro rfl
      exact hf (Option.some.inj hsub)
    obtain ⟨n, rfl, hn⟩ := hnode hp
    refine ⟨p, rfl, ?_⟩
    have hne : render p ≠ render (p ++ k :: s) := by
      intro he
      simpa using congrArg List.length (render_injective he)
    simp only [toNodes, endOfBranch, hn, ne_eq, hne, not_false_eq_true, if_true]
  · obtain ⟨leaf, x, hend, hleaf, hx⟩ := endOfBranch_leaves (p := p) hnil e branch
    refine ⟨x, by rw [Trie.block_of_ne_nil hnil]; exact hx, ?_⟩
    have hne : render x ≠ render (p ++ k :: s) := by
      intro he
      obtain ⟨a, ha, t, hat⟩ := Trie.leaves_key (List.mem_of_mem_head? hx)
      rw [render_injective he] at hat
      rw [← (List.cons.inj (List.append_cancel_left hat)).1] at ha
      exact Trie.child_eq_none.mp hk ha
    generalize endOfBranch e branch (toNodes p ch) = r at hend
    obtain ⟨parent, branch'⟩ := r
    obtain rfl : parent = some leaf := hend
    simp only [hleaf, if_pos hne]

/-! ## The arcs below a node -/

/-- The arcs that registered object identifiers go on with below `p`. -/
def arcsBelow (p : List ℕ) (os : List Oid) : List ℕ :=
  os.filterMap fun o => if p <+: o.arcs then o.arcs[p.length]? else none

theorem mem_arcsBelow {p : List ℕ} {os : List Oid} {c : ℕ} :
    c ∈ arcsBelow p os ↔ ∃ o ∈ os, ∃ t, o.arcs = p ++ c :: t := by
  rw [arcsBelow, List.mem_filterMap]
  refine exists_congr fun o => and_congr_right fun _ => ?_
  constructor
  · intro h
    split at h
    · rename_i hp
      obtain ⟨u, hu⟩ := hp
      rw [← hu, List.getElem?_append_right (le_refl _), Nat.sub_self] at h
      cases u with
      | nil => cases h
      | cons a t =>
        obtain rfl : a = c := Option.some.inj h
        exact ⟨t, hu.symm⟩
    · cases h
  · rintro ⟨t, ht⟩
    rw [ht, if_pos (List.prefix_append p _)]
    simp

/-- Below a node the arc `k` would come before all others. Top nodes are in the order of their
registration: there it would come before the first one, with no other between them. -/
def ComesFirst (os : List Oid) (p : List ℕ) (k : ℕ) : Prop :=
  if p = [] then
    ∃ c, (arcsBelow [] os).head? = some c ∧ k < c ∧ ∀ c' ∈ arcsBelow [] os, k < c' → c ≤ c'
  else arcsBelow p os ≠ [] ∧ ∀ c ∈ arcsBelow p os, k < c

/-- The registered object identifiers know `q` as far as `p`, but not the arc `k` after it. -/
structure LeavesAt (os : List Oid) (q p : List ℕ) (k : ℕ) : Prop where
  onWay : p ++ [k] <+: q
  known : ∃ o ∈ os, p <+: o.arcs
  unknown : ∀ o ∈ os, ¬ p ++ [k] <+: o.arcs

theorem LeavesAt.unique {os : List Oid} {q p p' : List ℕ} {k k' : ℕ} (h : LeavesAt os q p k)
    (h' : LeavesAt os q p' k') : p = p' ∧ k = k' := by
  have hle : ∀ {p p' k k'}, LeavesAt os q p k → LeavesAt os q p' k' →
      (p ++ [k]).length ≤ (p' ++ [k']).length := by
    intro p p' k k' h h'
    by_contra hlt
    obtain ⟨o, ho, hp⟩ := h.known
    have hshort : (p' ++ [k']).length ≤ p.length := by simpa using hlt
    have hq : p <+: q := (List.prefix_append p [k]).trans h.onWay
    exact h'.unknown o ho ((List.prefix_of_prefix_length_le h'.onWay hq hshort).trans hp)
  have heq : p ++ [k] = p' ++ [k'] :=
    (List.prefix_of_prefix_length_le h.onWay h'.onWay (hle h h')).eq_of_length
      (le_antisymm (hle h h') (hle h' h))
  simpa using List.append_inj' heq rfl

/-! ## The tree of the registered object identifiers -/

theorem grow_first {k : ℕ} {v : Option DataType} {f rest : Forest ℕ DataType}
    (regs : List (Oid × DataType)) :
    ∃ f' rest', grow (.cons k v f rest) regs = .cons k v f' rest' := by
  induction regs generalizing f rest with
  | nil => exact ⟨f, rest, rfl⟩
  | cons r regs ih =>
    obtain ⟨a, ks, hr⟩ := List.exists_cons_of_ne_nil r.1.nonempty
    have hput : ∃ f' rest', Trie.put rank r.2 [] r.1.arcs (.cons k v f rest) =
        .cons k v f' rest' := by
      rw [hr, Trie.put]
      split
      · rw [Trie.insert, List.nil_append, List.nil_append, rank_singleton, rank_singleton,
          if_neg (lt_irrefl _)]
        exact ⟨_, _, rfl⟩
      · rw [Trie.setChildren]
        split
        · exact ⟨_, _, rfl⟩
        · exact ⟨_, _, rfl⟩
    obtain ⟨f', rest', hput⟩ := hput
    rw [grow, List.foldl_cons, hput]
    exact ih

/-- The first top node is the one of the first registration. -/
theorem grow_head (regs : List (Oid × DataType)) (hne : regs ≠ []) :
    ∃ c v f rest, grow .nil regs = .cons c v f rest ∧
      (arcsBelow [] (regs.map Prod.fst)).head? = some c := by
  obtain ⟨r, regs, rfl⟩ := List.exists_cons_of_ne_nil hne
  obtain ⟨c, ks, hr⟩ := List.exists_cons_of_ne_nil r.1.nonempty
  have hput : ∃ v f, Trie.put rank r.2 [] r.1.arcs .nil = .cons c v f .nil := by
    simp [hr, Trie.put, Trie.child, Trie.insert]
  obtain ⟨v, f, hput⟩ := hput
  obtain ⟨f', rest', hgrow⟩ := grow_first (k := c) (v := v) (f := f) regs
  refine ⟨c, v, f', rest', ?_, ?_⟩
  · rw [grow, List.foldl_cons, hput]
    exact hgrow
  · simp [arcsBelow, hr]

theorem grow_ne_nil {regs : List (Oid × DataType)} (hne : regs ≠ []) : grow .nil regs ≠ .nil := by
  obtain ⟨c, v, f, rest, hgrow, -⟩ := grow_head regs hne
  rw [hgrow]
  simp

section Registered
variable {regs : List (Oid × DataType)} (hne : regs ≠ []) (hnodup : (regs.map Prod.fst).Nodup)
  (hfree : PrefixFree (regs.map Prod.fst))
include hne hnodup hfree

theorem mem_block_grow (x : List ℕ) :
    x ∈ block [] (grow .nil regs) ↔ ∃ o ∈ regs.map Prod.fst, o.arcs = x := by
  rw [Trie.block_of_ne_nil (grow_ne_nil hne), (grow_leaves_nil hnodup hfree).mem_iff]
  simp

theorem mem_keys_grow {p : List ℕ} {ch : Forest ℕ DataType}
    (hsub : subforest p (grow .nil regs) = some ch) (c : ℕ) :
    c ∈ Trie.keys ch ↔ c ∈ arcsBelow p (regs.map Prod.fst) := by
  have hf := grow_nil_sorted regs
  have hsorted := Trie.subforest_sorted hf hsub
  rw [List.nil_append] at hsorted
  have hleaf : ∀ t, p ++ c :: t ∈ leaves p ch ↔ ∃ o ∈ regs.map Prod.fst, o.arcs = p ++ c :: t := by
    intro t
    rw [← mem_block_grow hne hnodup hfree]
    have hblock : p ++ c :: t ∈ leaves p ch ↔ p ++ c :: t ∈ block p ch := by
      by_cases hnil : ch = .nil
      · subst hnil
        simp [leaves, block]
      · rw [Trie.block_of_ne_nil hnil]
    have hmem := Trie.mem_block_subforest (x := p ++ c :: t) hf hsub
    rw [List.nil_append] at hmem
    rw [hblock, hmem]
    simp
  rw [Trie.mem_keys_iff hsorted, mem_arcsBelow]
  simp only [hleaf]
  constructor
  · rintro ⟨t, o, ho, hot⟩
    exact ⟨o, ho, t, hot⟩
  · rintro ⟨o, ho, t, hot⟩
    exact ⟨t, o, ho, hot⟩

theorem leavesAt_of_subforest {p s : List ℕ} {k : ℕ} {ch : Forest ℕ DataType}
    (hsub : subforest p (grow .nil regs) = some ch)
    (hk : Trie.child k ch = none) : LeavesAt (regs.map Prod.fst) (p ++ k :: s) p k := by
  refine ⟨⟨s, by simp⟩, ?_, ?_⟩
  · obtain ⟨x, hx⟩ := List.exists_mem_of_ne_nil _ (Trie.block_ne_nil p ch)
    obtain ⟨hmem, hp⟩ :=
      (Trie.mem_block_subforest (p := []) (grow_nil_sorted regs) hsub).mp hx
    obtain ⟨o, ho, rfl⟩ := (mem_block_grow hne hnodup hfree x).mp hmem
    exact ⟨o, ho, hp⟩
  · rintro o ho ⟨t, ht⟩
    have hbelow : k ∈ arcsBelow p (regs.map Prod.fst) :=
      mem_arcsBelow.mpr ⟨o, ho, t, by rw [← ht]; simp⟩
    exact Trie.child_eq_none.mp hk ((mem_keys_grow hne hnodup hfree hsub k).mpr hbelow)

variable (harcs : ∀ r ∈ regs, ∀ a ∈ r.1.arcs, a < 2 ^ 31)
include harcs

/-- Below a node the first arc is the least one. -/
theorem first_arc_least {p : List ℕ} (hp : p ≠ []) {c : ℕ} {v : Option DataType}
    {ch rest : Forest ℕ DataType}
    (hsub : subforest p (grow .nil regs) = some (.cons c v ch rest)) :
    ∀ c' ∈ Trie.keys (.cons c v ch rest), c ≤ c' := by
  have hsmall : ∀ c' ∈ Trie.keys (.cons c v ch rest), c' < 2 ^ 31 := by
    intro c' hc'
    obtain ⟨o, ho, t, ht⟩ := mem_arcsBelow.mp ((mem_keys_grow hne hnodup hfree hsub c').mp hc')
    obtain ⟨r, hr, rfl⟩ := List.mem_map.mp ho
    exact harcs r hr c' (by simp [ht])
  have hsorted := Trie.subforest_sorted (grow_nil_sorted regs) hsub
  intro c' hc'
  rcases List.mem_cons.mp hc' with rfl | hrest
  · exact le_refl _
  · have hle := (hsorted.2.2 c' hrest).2
    rw [List.nil_append, rank_snoc hp, rank_snoc hp, atoi_decimal (hsmall c List.mem_cons_self),
      atoi_decimal (hsmall c' hc')] at hle
    exact_mod_cast hle

theorem comesFirst_iff {p : List ℕ} {c : ℕ} {v : Option DataType} {ch rest : Forest ℕ DataType}
    (hsub : subforest p (grow .nil regs) = some (.cons c v ch rest)) (k : ℕ) :
    ComesFirst (regs.map Prod.fst) p k ↔
      k < c ∧ ∀ c' ∈ Trie.keys (.cons c v ch rest), k < c' → c ≤ c' := by
  have hkeys := mem_keys_grow hne hnodup hfree hsub
  rw [ComesFirst]
  split
  · rename_i hp
    subst hp
    obtain ⟨c₁, v₁, f₁, rest₁, hgrow, hhead⟩ := grow_head regs hne
    obtain rfl : c₁ = c := by
      rw [hgrow] at hsub
      exact (Forest.cons.inj (Option.some.inj hsub)).1
    simp only [hkeys]
    constructor
    · rintro ⟨c', hc', hfirst⟩
      obtain rfl : c₁ = c' := Option.some.inj (hhead.symm.trans hc')
      exact hfirst
    · exact fun hfirst => ⟨c₁, hhead, hfirst⟩
  · rename_i hp
    have hleast := first_arc_least hne hnodup hfree harcs hp hsub
    have hc : c ∈ arcsBelow p (regs.map Prod.fst) := (hkeys c).mp List.mem_cons_self
    constructor
    · rintro ⟨-, hall⟩
      exact ⟨hall c hc, fun c' hc' _ => hleast c' hc'⟩
    · rintro ⟨hlt, -⟩
      refine ⟨List.ne_nil_of_mem hc, fun c' hc' => ?_⟩
      exact lt_of_lt_of_le hlt (hleast c' ((hkeys c').mpr hc'))

/-- The leaves below one key ascend, also at the top. -/
theorem block_ascends {p : List ℕ} (hp : p ≠ []) {ch : Forest ℕ DataType}
    (hsub : subforest p (grow .nil regs) = some ch) :
    (block p ch).Pairwise (· < ·) := by
  have hf := grow_nil_sorted regs
  by_cases hnil : ch = .nil
  · subst hnil
    exact List.pairwise_singleton _ _
  · rw [Trie.block_of_ne_nil hnil]
    have hmem : ∀ x ∈ leaves p ch, x ∈ block [] (grow .nil regs) ∧ p <+: x := by
      intro x hx
      rw [← Trie.block_of_ne_nil hnil] at hx
      exact (Trie.mem_block_subforest hf hsub).mp hx
    have hhead : ∀ x ∈ leaves p ch, x.head? = p.head? := by
      intro x hx
      obtain ⟨t, rfl⟩ := (hmem x hx).2
      rw [List.head?_append_of_ne_nil p hp]
    refine leaves_ascend (Trie.subforest_sorted hf hsub) ?_ ?_
    · intro x hx y hy
      rw [hhead x hx, hhead y hy]
    · intro x hx
      obtain ⟨o, ho, rfl⟩ := (mem_block_grow hne hnodup hfree x).mp (hmem x hx).1
      obtain ⟨r, hr, rfl⟩ := List.mem_map.mp ho
      exact harcs r hr

/-- The first leaf at or below the node where a path leaves the tree is the next one after the path
exactly if the missing arc would have come first. -/
theorem first_leaf_least_iff {p s x : List ℕ} {k : ℕ} {ch : Forest ℕ DataType}
    (hsub : subforest p (grow .nil regs) = some ch)
    (hk : Trie.child k ch = none) (hx : (block p ch).head? = some x) :
    (p ++ k :: s < x ∧ ∀ y ∈ block [] (grow .nil regs), p ++ k :: s < y → x ≤ y) ↔
      ComesFirst (regs.map Prod.fst) p k := by
  have hf := grow_nil_sorted regs
  cases ch with
  | nil =>
    -- the search stops at a leaf, and answers with it
    have hnone : arcsBelow p (regs.map Prod.fst) = [] := by
      rw [List.eq_nil_iff_forall_not_mem]
      intro c hc
      cases (mem_keys_grow hne hnodup hfree hsub c).mpr hc
    obtain rfl : p = x := Option.some.inj hx
    have hp : p ≠ [] := by
      rintro rfl
      exact grow_ne_nil hne (Option.some.inj hsub)
    constructor
    · intro h
      exact absurd h.1 (not_lt_of_gt (Trie.lt_append_cons p k s))
    · intro h
      rw [ComesFirst, if_neg hp] at h
      exact absurd hnone h.1
  | cons c v g rest =>
    have hg : subforest (p ++ [c]) (grow .nil regs) = some g := by
      rw [Trie.subforest_append hsub, subforest, Trie.child, if_pos rfl]
      rfl
    have hx' : (block (p ++ [c]) g).head? = some x := by
      rw [Trie.block_of_ne_nil (by simp), Trie.leaves_cons, List.head?_append_of_ne_nil _
        (Trie.block_ne_nil _ _)] at hx
      exact hx
    rw [comesFirst_iff hne hnodup hfree harcs hsub]
    exact Trie.head_least_above_iff hf hsub (Trie.child_eq_none.mp hk) hx'
      (block_ascends hne hnodup hfree harcs (by simp) hg)

end Registered

/-! ## GETNEXT -/

/-- `t` is the least registered object identifier greater than `q`, or empty if there is none. -/
def IsNext (os : List Oid) (q : List ℕ) (t : Text) : Prop :=
  (∃ o ∈ os, t = o.text ∧ q < o.arcs ∧ ∀ o' ∈ os, q < o'.arcs → o.arcs ≤ o'.arcs) ∨
    t = [] ∧ ∀ o ∈ os, ¬ q < o.arcs

instance (os : List Oid) (q : List ℕ) (t : Text) : Decidable (IsNext os q t) :=
  inferInstanceAs (Decidable ((∃ o ∈ os, t = o.text ∧ q < o.arcs ∧
    ∀ o' ∈ os, q < o'.arcs → o.arcs ≤ o'.arcs) ∨ t = [] ∧ ∀ o ∈ os, ¬ q < o.arcs))

theorem isNext_text_iff {os : List Oid} {q : List ℕ} {o : Oid} (ho : o ∈ os) :
    IsNext os q o.text ↔ q < o.arcs ∧ ∀ o' ∈ os, q < o'.arcs → o.arcs ≤ o'.arcs := by
  constructor
  · rintro (⟨o₁, -, htext, hnext⟩ | ⟨hempty, -⟩)
    · rw [render_injective htext]
      exact hnext
    · exact absurd hempty (render_ne_nil o.nonempty)
  · exact fun hnext => Or.inl ⟨o, ho, rfl, hnext⟩

/-- The arc at which `q` leaves the registered object identifiers would have come first. -/
def MissingComesFirst (os : List Oid) (q : List ℕ) : Prop :=
  ∃ p k, LeavesAt os q p k ∧ ComesFirst os p k

/-- From any registered object identifier the walk goes through others and comes to an end. -/
theorem walk_registered {f : Forest ℕ DataType} (hf : Trie.Sorted rank [] f) {x : List ℕ}
    (hx : x ∈ leaves [] f) :
    ∃ l : List (List ℕ), (∀ y ∈ l, y ∈ leaves [] f) ∧
      walk (toNodes [] f) (l.length + 1) (render x) = l.map render ++ [[]] := by
  obtain ⟨k, hk, s, rfl⟩ := Trie.leaves_key hx
  cases hc : Trie.child k f with
  | none => exact absurd hk (Trie.child_eq_none.mp hc)
  | some n =>
    obtain ⟨v, g⟩ := n
    have hblock := fun y => Trie.mem_block_child (x := y) hf hc
    rw [List.nil_append] at hblock hx ⊢
    obtain ⟨pre, post, hl⟩ := List.append_of_mem ((hblock (k :: s)).mpr ⟨hx, s, rfl⟩)
    refine ⟨post, fun y hy => ((hblock y).mp ?_).1, walk_leaf hf hc hl⟩
    rw [hl]
    exact List.mem_append_right _ (List.mem_cons_of_mem _ hy)

/-- An object identifier that is not in the tree leaves it at one of its arcs. -/
theorem subforest_none {f : Forest ℕ DataType} {q : Oid}
    (hq : q.text ∉ nodeOids (toNodes [] f)) :
    ∃ p k s ch, q.arcs = p ++ k :: s ∧ subforest p f = some ch ∧ Trie.child k ch = none := by
  obtain ⟨a, t, hat⟩ := List.exists_cons_of_ne_nil q.nonempty
  cases hsub : subforest q.arcs f with
  | none => exact Trie.subforest_stops hsub
  | some ch =>
    rw [hat] at hsub
    have hmem := mem_nodeOids_of_subforest (p := []) hsub
    rw [Oid.text, hat] at hq
    exact absurd hmem hq

/-- For an object identifier that is not in the tree the answer is the next one exactly if its first
missing arc would have come before those that are there. Repeating GETNEXT on the answers comes to
an end in any case. -/
theorem getnext_missing_iff (regs : List (Oid × DataType)) (hne : regs ≠ [])
    (hnodup : (regs.map Prod.fst).Nodup) (hfree : PrefixFree (regs.map Prod.fst))
    (harcs : ∀ r ∈ regs, ∀ a ∈ r.1.arcs, a < 2 ^ 31) (q : Oid)
    (hq : q.text ∉ nodeOids (registerAll [] regs)) :
    ((∃ t, findNextOid (registerAll [] regs) q.text = some t ∧
        IsNext (regs.map Prod.fst) q.arcs t) ↔ MissingComesFirst (regs.map Prod.fst) q.arcs) ∧
      ∃ l : List (List ℕ), (∀ x ∈ l, x ∈ regs.map (fun r => r.1.arcs)) ∧
        walk (registerAll [] regs) (l.length + 1) q.text = l.map render ++ [[]] := by
  have hf := grow_nil_sorted regs
  have hnil := grow_ne_nil hne
  rw [registerAll_nil] at hq ⊢
  obtain ⟨p, k, s, ch, harcs', hsub, hk⟩ := subforest_none hq
  obtain ⟨x, hx, hnext⟩ := findNextOid_missing (s := s) hnil hsub hk
  have hleft := leavesAt_of_subforest hne hnodup hfree (s := s) hsub hk
  rw [← harcs'] at hnext hleft
  have hregistered := mem_block_grow hne hnodup hfree
  have hxmem : x ∈ block [] (grow .nil regs) :=
    ((Trie.mem_block_subforest (p := []) hf hsub).mp (List.mem_of_mem_head? hx)).1
  constructor
  · have hleast := first_leaf_least_iff hne hnodup hfree harcs (s := s) hsub hk hx
    rw [← harcs'] at hleast
    have hcomes : MissingComesFirst (regs.map Prod.fst) q.arcs ↔
        ComesFirst (regs.map Prod.fst) p k := by
      constructor
      · rintro ⟨p', k', hleft', hfirst⟩
        obtain ⟨rfl, rfl⟩ := hleft.unique hleft'
        exact hfirst
      · exact fun hfirst => ⟨p, k, hleft, hfirst⟩
    obtain ⟨o, ho, rfl⟩ := (hregistered x).mp hxmem
    have hanswer : (∃ t, findNextOid (toNodes [] (grow .nil regs)) q.text = some t ∧
        IsNext (regs.map Prod.fst) q.arcs t) ↔ IsNext (regs.map Prod.fst) q.arcs o.text := by
      rw [Oid.text, hnext]
      simp [Oid.text]
    rw [hanswer, hcomes, ← hleast, isNext_text_iff ho]
    refine and_congr_right fun _ => ⟨fun hall y hy => ?_, fun hall o' ho' => ?_⟩
    · obtain ⟨o', ho', rfl⟩ := (hregistered y).mp hy
      exact hall o' ho'
    · exact hall o'.arcs ((hregistered o'.arcs).mpr ⟨o', ho', rfl⟩)
  · rw [Trie.block_of_ne_nil hnil] at hxmem
    obtain ⟨l, hl, hwalk⟩ := walk_registered hf hxmem
    have hperm := grow_leaves_nil hnodup hfree
    refine ⟨x :: l, ?_, ?_⟩
    · intro y hy
      rcases List.mem_cons.mp hy with rfl | hy
      · exact hperm.mem_iff.mp hxmem
      · exact hperm.mem_iff.mp (hl y hy)
    · rw [List.length_cons, walk, Oid.text, hnext]
      simpa using hwalk

/-- Before all arcs below `1.3`. -/
def smallArc : Oid := ⟨[1, 3, 2, 8], by decide⟩

theorem getnext_missing_smallArc :
    (∃ t, findNextOid (registerAll [] threeCounters) smallArc.text = some t ∧
      IsNext (threeCounters.map Prod.fst) smallArc.arcs t) ∧
    ∃ l : List (List ℕ), (∀ x ∈ l, x ∈ threeCounters.map (fun r => r.1.arcs)) ∧
      walk (registerAll [] threeCounters) (l.length + 1) smallArc.text = l.map render ++ [[]] := by
  have h := getnext_missing_iff threeCounters (by decide) (by decide) (by decide) (by decide)
    smallArc (by decide +kernel)
  refine ⟨h.1.mpr ⟨[1, 3], 2, ⟨by decide, by decide, by decide⟩, ?_⟩, h.2⟩
  rw [ComesFirst, if_neg (by decide)]
  decide

/-- The answer for `1.3.7` is `1.3.6.1`, which comes before it: the next one is `1.3.9.2`. -/
theorem getnext_goes_back :
    threeCounters ≠ [] ∧ (threeCounters.map Prod.fst).Nodup ∧
      PrefixFree (threeCounters.map Prod.fst) ∧
      (∀ r ∈ threeCounters, ∀ a ∈ r.1.arcs, a < 2 ^ 31) ∧
      render [1, 3, 7] ∉ nodeOids (registerAll [] threeCounters) ∧
      findNextOid (registerAll [] threeCounters) (render [1, 3, 7]) = some (render [1, 3, 6, 1]) ∧
      ¬ IsNext (threeCounters.map Prod.fst) [1, 3, 7] (render [1, 3, 6, 1]) ∧
      IsNext (threeCounters.map Prod.fst) [1, 3, 7] (render [1, 3, 9, 2]) := by
  decide +kernel

end MyIp.Snmp
