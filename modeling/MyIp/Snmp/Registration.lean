import MyIp.Snmp.Walk

/-! # The order of registrations

Whether the tree depends on the order in which object identifiers are registered. It does in three
ways: a node made on the way to another one keeps no data element, so an object identifier is lost
when one that extends it came first (`find_grow_of_extension`); the top nodes all sort by 0 and stay
in the order they came (`findNextOid_empty`); and so do siblings whose last parts `atoi` makes the
same number (`leaves_grow_pair`). `registration_order_iff` says that these are the only ways. -/

namespace MyIp.Snmp
set_option autoImplicit false

open CText Net
open Trie (Forest leaves block subforest)

/-- In every order of the registrations each object identifier gets the data of its own element, and
all requests are answered as in the given order. -/
def OrderIrrelevant (regs : List (Oid × DataType)) : Prop :=
  ∀ regs' : List (Oid × DataType), regs'.Perm regs →
    (∀ env, ∀ r ∈ regs,
      findByOid env (registerAll [] regs') r.1.text = some (some (getData env r.2))) ∧
    (∀ env oid,
      findByOid env (registerAll [] regs') oid = findByOid env (registerAll [] regs) oid) ∧
    ∀ oid, findNextOid (registerAll [] regs') oid = findNextOid (registerAll [] regs) oid

/-- Object identifiers that part at a later arc part at arcs that sort differently. -/
def SortedApart (os : List Oid) : Prop :=
  ∀ o ∈ os, ∀ o' ∈ os, ∀ c a a' s s', c ≠ [] → o.arcs = c ++ a :: s → o'.arcs = c ++ a' :: s' →
    a ≠ a' → atoi (decimal a) ≠ atoi (decimal a')

/-! ## Finding in registered trees -/

theorem find_grow_of_some {q : List ℕ} {f : Forest ℕ DataType} {v : Option DataType}
    (regs : List (Oid × DataType)) (h : Trie.find q f = some v) :
    Trie.find q (grow f regs) = some v := by
  induction regs generalizing f with
  | nil => exact h
  | cons r regs ih =>
    refine ih ?_
    rw [Trie.find_put, h]
    rfl

theorem find_grow_of_none {q : List ℕ} {f : Forest ℕ DataType} {regs : List (Oid × DataType)}
    (h : Trie.find q f = none) (hq : ∀ r ∈ regs, ¬ q <+: r.1.arcs) :
    Trie.find q (grow f regs) = none := by
  induction regs generalizing f with
  | nil => exact h
  | cons r regs ih =>
    refine ih ?_ fun s hs => hq s (List.mem_cons_of_mem _ hs)
    have hr := hq r List.mem_cons_self
    have hne : q ≠ r.1.arcs := fun he => hr (he ▸ List.prefix_rfl)
    rw [Trie.find_put, h]
    simp [hne, hr]

/-- An object identifier that no other one extends is found with its own element. -/
theorem find_grow_own {regs : List (Oid × DataType)} (hnodup : (regs.map Prod.fst).Nodup)
    (hfree : PrefixFree (regs.map Prod.fst)) {r : Oid × DataType} (hr : r ∈ regs) :
    Trie.find r.1.arcs (grow .nil regs) = some (some r.2) := by
  obtain ⟨before, later, rfl⟩ := List.append_of_mem hr
  have hnone : Trie.find r.1.arcs (grow .nil before) = none := by
    refine find_grow_of_none (by cases r.1.arcs <;> rfl) fun s hs hp => ?_
    have hmem : s.1 ∈ (before ++ r :: later).map Prod.fst :=
      List.mem_map_of_mem (List.mem_append_left _ hs)
    have he := hfree r.1 (List.mem_map_of_mem hr) s.1 hmem hp
    rw [List.map_append, List.map_cons, List.nodup_middle, List.nodup_cons] at hnodup
    exact hnodup.1 (List.mem_append_left _ (he ▸ List.mem_map_of_mem hs))
  rw [grow, List.foldl_append, List.foldl_cons]
  refine find_grow_of_some later ?_
  rw [Trie.find_put]
  change (Trie.find r.1.arcs (grow .nil before)).or _ = _
  rw [hnone, if_neg r.1.nonempty, if_pos rfl]
  rfl

/-- An object identifier registered after one that extends it has no data element. -/
theorem find_grow_of_extension {r r' : Oid × DataType} (regs : List (Oid × DataType))
    (hp : r.1.arcs <+: r'.1.arcs) (hne : r.1 ≠ r'.1) :
    Trie.find r.1.arcs (grow .nil (r' :: regs)) = some none := by
  have harcs : r.1.arcs ≠ r'.1.arcs := by
    intro he
    apply hne
    cases hr : r.1
    cases hr' : r'.1
    rw [hr, hr'] at he
    simpa using he
  have hnil : Trie.find r.1.arcs (.nil : Forest ℕ DataType) = none := by
    cases r.1.arcs <;> rfl
  rw [grow, List.foldl_cons]
  refine find_grow_of_some regs ?_
  rw [Trie.find_put, hnil, if_neg r.1.nonempty, if_neg harcs, if_pos hp]
  rfl

/-! ## The same tree in every order -/

theorem grow_perm {regs regs' : List (Oid × DataType)} (hperm : regs'.Perm regs)
    (hnodup : (regs.map Prod.fst).Nodup) (hfree : PrefixFree (regs.map Prod.fst))
    (hfirst : SameFirstArc (regs.map Prod.fst)) (hapart : SortedApart (regs.map Prod.fst)) :
    grow .nil regs' = grow .nil regs := by
  refine (hperm.symm.foldl_eq' ?_ _).symm
  intro x hx y hy f
  have hxm : x.1 ∈ regs.map Prod.fst := List.mem_map_of_mem hx
  have hym : y.1 ∈ regs.map Prod.fst := List.mem_map_of_mem hy
  by_cases hxy : x.1 = y.1
  · rw [List.inj_on_of_nodup_map hnodup hx hy hxy]
  · obtain ⟨c, a, a', s, s', hc, hc', ha⟩ := Trie.exists_parting
      (fun hp => hxy (hfree x.1 hxm y.1 hym hp)) fun hp => hxy (hfree y.1 hym x.1 hxm hp).symm
    refine Trie.put_comm ⟨c, a', a, s', s, hc', hc, ?_⟩
    have hcne : c ≠ [] := by
      rintro rfl
      have he := hfirst x.1 hxm y.1 hym
      rw [hc, hc'] at he
      exact ha (Option.some.inj he)
    rw [List.nil_append, rank_snoc hcne, rank_snoc hcne]
    exact (hapart x.1 hxm y.1 hym c a a' s s' hcne hc hc' ha).symm

theorem orderIrrelevant_of_apart {regs : List (Oid × DataType)}
    (hnodup : (regs.map Prod.fst).Nodup) (hfree : PrefixFree (regs.map Prod.fst))
    (hfirst : SameFirstArc (regs.map Prod.fst)) (hapart : SortedApart (regs.map Prod.fst)) :
    OrderIrrelevant regs := by
  intro regs' hperm
  have hsame : registerAll [] regs' = registerAll [] regs := by
    rw [registerAll_nil, registerAll_nil, grow_perm hperm hnodup hfree hfirst hapart]
  rw [hsame]
  refine ⟨fun env r hr => ?_, fun _ _ => rfl, fun _ => rfl⟩
  rw [registerAll_nil, Oid.text, findByOid_toNodes, find_grow_own hnodup hfree hr]
  rfl

/-! ## Different trees in different orders -/

theorem perm_pair_cons {α : Type} [DecidableEq α] {l : List α} {x y : α} (hx : x ∈ l) (hy : y ∈ l)
    (hne : x ≠ y) : ∃ rest, (x :: y :: rest).Perm l := by
  have hy' : y ∈ l.erase x := (List.mem_erase_of_ne (Ne.symm hne)).mpr hy
  exact ⟨(l.erase x).erase y,
    ((List.perm_cons_erase hy').cons x).symm.trans (List.perm_cons_erase hx).symm⟩

/-- The first top node stays the first. -/
theorem grow_first_top (k : ℕ) (v : Option DataType) (f rest : Forest ℕ DataType)
    (regs : List (Oid × DataType)) :
    ∃ f' rest', grow (.cons k v f rest) regs = .cons k v f' rest' := by
  induction regs generalizing f rest with
  | nil => exact ⟨f, rest, rfl⟩
  | cons r regs ih =>
    obtain ⟨a, as, ha⟩ := List.exists_cons_of_ne_nil r.1.nonempty
    obtain ⟨f', rest', hput⟩ : ∃ f' rest',
        Trie.put rank r.2 [] r.1.arcs (.cons k v f rest) = .cons k v f' rest' := by
      rw [ha, Trie.put]
      split
      · rw [Trie.insert, List.nil_append, List.nil_append, rank_singleton, rank_singleton,
          if_neg (lt_irrefl _)]
        exact ⟨f, _, rfl⟩
      · rename_i ch hc
        by_cases hk : k = a
        · simp [Trie.setChildren, hk]
        · simp [Trie.setChildren, hk]
    rw [grow, List.foldl_cons, hput]
    exact ih f' rest'

/-- The answer to an empty request starts with the first arc that was registered. -/
theorem findNextOid_empty {r : Oid × DataType} (regs : List (Oid × DataType)) :
    ∃ k s, r.1.arcs.head? = some k ∧
      findNextOid (registerAll [] (r :: regs)) [] = some (render (k :: s)) := by
  obtain ⟨k, ks, hks⟩ := List.exists_cons_of_ne_nil r.1.nonempty
  obtain ⟨v, f₀, hput⟩ : ∃ v f, Trie.put rank r.2 [] r.1.arcs .nil = .cons k v f .nil := by
    simp [hks, Trie.put, Trie.child, Trie.insert]
  obtain ⟨f, rest, hgrow⟩ := grow_first_top k v f₀ .nil regs
  have htree : registerAll [] (r :: regs) = toNodes [] (.cons k v f rest) := by
    rw [registerAll_nil, grow, List.foldl_cons, hput]
    exact congrArg _ hgrow
  have hend := endOfBranch_cons none [] (toNodes [] (.cons k v f rest)) _ rfl
  have hfirst := nodeLeafOids_head (.mk (rank [k]) (render [k]) v (toNodes [k] f))
  have hblock : nodeLeafOids (.mk (rank [k]) (render [k]) v (toNodes [k] f)) =
      (block [k] f).map render := by
    cases f with
    | nil => rfl
    | cons key value children rest => exact leafOids_toNodes [k] _
  rw [hblock, List.head?_map] at hfirst
  obtain ⟨x, hx, hoid⟩ := Option.map_eq_some_iff.mp hfirst
  obtain ⟨s, rfl⟩ := Trie.prefix_of_mem_block (List.mem_of_mem_head? hx)
  refine ⟨k, s, by rw [hks]; rfl, ?_⟩
  rw [htree, findNextOid]
  simp only [split, splitFrom, List.isEmpty_nil, if_true, descend]
  generalize endOfBranch none [] (toNodes [] (.cons k v f rest)) = res at hend
  obtain ⟨parent, branch⟩ := res
  obtain rfl := hend
  have hne : render ([k] ++ s) ≠ [] := render_ne_nil (by simp)
  simp only [List.nil_append, ← hoid, if_pos hne]
  rfl

theorem walk_congr {data data' : List Node}
    (h : ∀ oid, findNextOid data oid = findNextOid data' oid) (n : ℕ) (oid : Text) :
    walk data n oid = walk data' n oid := by
  induction n generalizing oid with
  | zero => rfl
  | succ n ih =>
    rw [walk, walk, h oid]
    cases findNextOid data' oid with
    | none => rfl
    | some next => exact congrArg (next :: ·) (ih next)

/-- The walk from the top node gives all leaves, if there are several. -/
theorem walk_top {k : ℕ} {v : Option DataType} {f : Forest ℕ DataType}
    (hf : Trie.Sorted rank [] (.cons k v f .nil))
    (hmany : 1 < (leaves [] (.cons k v f .nil)).length) :
    walk (toNodes [] (.cons k v f .nil)) ((leaves [] (.cons k v f .nil)).length + 1) (render [k]) =
      (leaves [] (.cons k v f .nil)).map render ++ [[]] := by
  have hleaves : leaves [] (.cons k v f .nil) = block [k] f := by
    simp [Trie.leaves_cons, leaves]
  have hfne : f ≠ .nil := by
    rintro rfl
    simp [hleaves, block] at hmany
  obtain ⟨pre, post, hl, -, hwalk⟩ := walk_node hf (by simp)
    (show subforest [k] (.cons k v f .nil) = some f by simp [subforest, Trie.child])
  have hlen := congrArg List.length hl
  rw [hleaves] at hlen
  simp only [List.length_append] at hlen
  obtain rfl : pre = [] := List.length_eq_zero_iff.mp (by omega)
  obtain rfl : post = [] := List.length_eq_zero_iff.mp (by omega)
  have hfollow : following [k] f [] = leaves [] (.cons k v f .nil) := by
    rw [hleaves, Trie.block_of_ne_nil hfne]
    cases f with
    | nil => exact absurd rfl hfne
    | cons key value children rest => exact List.append_nil _
  rwa [hfollow] at hwalk

/-- Of two object identifiers that part at arcs that sort alike, the one registered first is the
first leaf. -/
theorem leaves_grow_pair {r r' : Oid × DataType} {regs : List (Oid × DataType)} {c s s' : List ℕ}
    {a a' : ℕ} (hnodup : ((r :: r' :: regs).map Prod.fst).Nodup)
    (hfree : PrefixFree ((r :: r' :: regs).map Prod.fst)) (hc : c ≠ [])
    (hr : r.1.arcs = c ++ a :: s) (hr' : r'.1.arcs = c ++ a' :: s') (ha : a ≠ a')
    (hsame : atoi (decimal a) = atoi (decimal a')) :
    [r.1.arcs, r'.1.arcs].Sublist (leaves [] (grow .nil (r :: r' :: regs))) := by
  have hpair : leaves [] (grow .nil [r, r']) = [r.1.arcs, r'.1.arcs] := by
    have hrank : ¬ rank ([] ++ c ++ [a']) < rank ([] ++ c ++ [a]) := by
      rw [List.nil_append, rank_snoc hc, rank_snoc hc, hsame]
      exact lt_irrefl _
    have h := Trie.leaves_put_put r.2 r'.2 s s' ha hrank
    simpa [grow, hr, hr'] using h
  have hsplit : grow .nil (r :: r' :: regs) = grow (grow .nil [r, r']) regs := rfl
  rw [hsplit, ← hpair]
  have hmem : ∀ o ∈ regs.map Prod.fst, o ∈ (r :: r' :: regs).map Prod.fst := fun o ho =>
    List.mem_cons_of_mem _ (List.mem_cons_of_mem _ ho)
  rw [List.map_cons, List.map_cons, List.nodup_cons, List.nodup_cons] at hnodup
  refine (grow_leaves hnodup.2.2 (fun o ho o' ho' => hfree o (hmem o ho) o' (hmem o' ho')) ?_).1
  intro x hx y hy
  rw [hpair] at hy
  have hxm : x.1 ∈ regs.map Prod.fst := List.mem_map_of_mem hx
  have hclash : ∀ z, (z = r ∨ z = r') → ¬ x.1.arcs <+: z.1.arcs ∧ ¬ z.1.arcs <+: x.1.arcs := by
    intro z hz
    have hzm : z.1 ∈ (r :: r' :: regs).map Prod.fst := by
      rcases hz with rfl | rfl
      · exact List.mem_cons_self
      · exact List.mem_cons_of_mem _ List.mem_cons_self
    have hne : x.1 ≠ z.1 := by
      rcases hz with rfl | rfl
      · exact fun he => hnodup.1 (he ▸ List.mem_cons_of_mem _ hxm)
      · exact fun he => hnodup.2.1 (he ▸ hxm)
    exact ⟨fun hp => hne (hfree x.1 (hmem _ hxm) z.1 hzm hp),
      fun hp => hne (hfree z.1 hzm x.1 (hmem _ hxm) hp).symm⟩
  rcases List.mem_cons.mp hy with rfl | hy
  · exact hclash r (Or.inl rfl)
  · obtain rfl := List.mem_singleton.mp hy
    exact hclash r' (Or.inr rfl)

/-- Different object identifiers with one first arc of which none extends another. -/
structure OneTop (regs : List (Oid × DataType)) : Prop where
  nodup : (regs.map Prod.fst).Nodup
  prefixFree : PrefixFree (regs.map Prod.fst)
  sameFirstArc : SameFirstArc (regs.map Prod.fst)

theorem OneTop.perm {regs regs' : List (Oid × DataType)} (h : OneTop regs)
    (hperm : regs'.Perm regs) : OneTop regs' := by
  have hm := hperm.map Prod.fst
  exact ⟨hm.nodup_iff.mpr h.nodup,
    fun o ho o' ho' => h.prefixFree o (hm.mem_iff.mp ho) o' (hm.mem_iff.mp ho'),
    fun o ho o' ho' => h.sameFirstArc o (hm.mem_iff.mp ho) o' (hm.mem_iff.mp ho')⟩

theorem OneTop.walk_all {regs : List (Oid × DataType)} (h : OneTop regs)
    (hmany : 1 < regs.length) :
    ∃ k, (∀ x ∈ leaves [] (grow .nil regs), x.head? = some k) ∧
      walk (registerAll [] regs) (regs.length + 1) (render [k]) =
        (leaves [] (grow .nil regs)).map render ++ [[]] := by
  have hlen := (grow_leaves_nil h.nodup h.prefixFree).length_eq
  have hsorted := grow_nil_sorted regs
  obtain ⟨k, v, f, hroot⟩ := grow_one_top (List.ne_nil_of_length_pos (by omega)) h.sameFirstArc
  rw [List.length_map] at hlen
  rw [registerAll_nil]
  rw [hroot] at hlen hsorted ⊢
  refine ⟨k, fun x hx => ?_, ?_⟩
  · obtain ⟨j, hj, s, rfl⟩ := Trie.leaves_key hx
    obtain rfl := List.mem_singleton.mp hj
    rfl
  · rw [← hlen]
    exact walk_top hsorted (by omega)

/-- Orders of registration with the same answers to GETNEXT have the same leaves. -/
theorem OneTop.same_leaves {regs regs' : List (Oid × DataType)} (h : OneTop regs)
    (hmany : 1 < regs.length) (hperm : regs'.Perm regs)
    (hnext : ∀ oid,
      findNextOid (registerAll [] regs') oid = findNextOid (registerAll [] regs) oid) :
    leaves [] (grow .nil regs') = leaves [] (grow .nil regs) := by
  have h' := h.perm hperm
  obtain ⟨k, hk, hwalk⟩ := h.walk_all hmany
  obtain ⟨k', hk', hwalk'⟩ := h'.walk_all (by rw [hperm.length_eq]; exact hmany)
  have hsame : (leaves [] (grow .nil regs')).Perm (leaves [] (grow .nil regs)) :=
    (grow_leaves_nil h'.nodup h'.prefixFree).trans
      ((hperm.map _).trans (grow_leaves_nil h.nodup h.prefixFree).symm)
  obtain ⟨x, hx⟩ : ∃ x, x ∈ leaves [] (grow .nil regs) := by
    apply List.exists_mem_of_length_pos
    rw [(grow_leaves_nil h.nodup h.prefixFree).length_eq, List.length_map]
    omega
  obtain rfl : k = k' := by
    have he := hk' x (hsame.mem_iff.mpr hx)
    rw [hk x hx] at he
    exact Option.some.inj he
  rw [walk_congr hnext, hperm.length_eq, hwalk] at hwalk'
  exact List.map_injective_iff.mpr render_injective (List.append_cancel_right hwalk').symm

theorem not_both_orders {α : Type} {l : List α} {x y : α} (hnodup : l.Nodup)
    (h : [x, y].Sublist l) (h' : [y, x].Sublist l) : False := by
  induction l with
  | nil => cases h
  | cons z l ih =>
    rw [List.nodup_cons] at hnodup
    rw [List.cons_sublist_cons'] at h h'
    rcases h with h | ⟨rfl, h⟩
    · rcases h' with h' | ⟨rfl, h'⟩
      · exact ih hnodup.2 h h'
      · exact hnodup.1 (h.subset (by simp))
    · rcases h' with h' | ⟨rfl, h'⟩
      · exact hnodup.1 (h'.subset (by simp))
      · exact hnodup.1 (h.subset (by simp))

/-! ## Exactly when the order is irrelevant -/

theorem OrderIrrelevant.prefixFree {regs : List (Oid × DataType)} (h : OrderIrrelevant regs) :
    PrefixFree (regs.map Prod.fst) := by
  intro o ho o' ho' hp
  by_contra hne
  obtain ⟨r, hr, rfl⟩ := List.mem_map.mp ho
  obtain ⟨r', hr', rfl⟩ := List.mem_map.mp ho'
  obtain ⟨rest, hperm⟩ := perm_pair_cons hr' hr fun he => hne (he ▸ rfl)
  have hown := (h _ hperm).1 ⟨fun _ => 0, 0⟩ r hr
  rw [registerAll_nil, Oid.text, findByOid_toNodes, find_grow_of_extension _ hp hne] at hown
  cases hown

theorem OrderIrrelevant.sameFirstArc {regs : List (Oid × DataType)} (h : OrderIrrelevant regs) :
    SameFirstArc (regs.map Prod.fst) := by
  intro o ho o' ho'
  by_contra hne
  obtain ⟨r, hr, rfl⟩ := List.mem_map.mp ho
  obtain ⟨r', hr', rfl⟩ := List.mem_map.mp ho'
  have hrr : r ≠ r' := fun he => hne (he ▸ rfl)
  obtain ⟨rest, hperm⟩ := perm_pair_cons hr hr' hrr
  obtain ⟨rest', hperm'⟩ := perm_pair_cons hr' hr (Ne.symm hrr)
  obtain ⟨k, s, hk, hnext⟩ := findNextOid_empty (r := r) (r' :: rest)
  obtain ⟨k', s', hk', hnext'⟩ := findNextOid_empty (r := r') (r :: rest')
  rw [(h _ hperm).2.2] at hnext
  rw [(h _ hperm').2.2, hnext] at hnext'
  have he := render_injective (Option.some.inj hnext')
  rw [hk, hk', (List.cons.inj he).1] at hne
  exact hne rfl

theorem OrderIrrelevant.sortedApart {regs : List (Oid × DataType)} (h : OrderIrrelevant regs)
    (hnodup : (regs.map Prod.fst).Nodup) : SortedApart (regs.map Prod.fst) := by
  intro o ho o' ho' c a a' s s' hc hca hca' ha hsame
  have hfree := h.prefixFree
  have hfirst := h.sameFirstArc
  obtain ⟨r, hr, rfl⟩ := List.mem_map.mp ho
  obtain ⟨r', hr', rfl⟩ := List.mem_map.mp ho'
  have hrr : r ≠ r' := by
    rintro rfl
    rw [hca] at hca'
    exact ha (List.cons.inj (List.append_cancel_left hca')).1
  obtain ⟨rest, hperm⟩ := perm_pair_cons hr hr' hrr
  have hswap : (r' :: r :: rest).Perm regs := (List.Perm.swap _ _ _).trans hperm
  have htop : OneTop (r :: r' :: rest) := (OneTop.mk hnodup hfree hfirst).perm hperm
  have htop' : OneTop (r' :: r :: rest) := htop.perm (List.Perm.swap _ _ _)
  have hleaves := htop.same_leaves (by simp) (List.Perm.swap r r' rest)
    fun oid => ((h _ hswap).2.2 oid).trans ((h _ hperm).2.2 oid).symm
  have hpair := leaves_grow_pair htop.nodup htop.prefixFree hc hca hca' ha hsame
  have hpair' := leaves_grow_pair htop'.nodup htop'.prefixFree hc hca' hca (Ne.symm ha) hsame.symm
  rw [hleaves] at hpair'
  exact not_both_orders (Trie.leaves_nodup (grow_nil_sorted _)) hpair hpair'

theorem sortedApart_of_lt {os : List Oid} (h : ∀ o ∈ os, ∀ a ∈ o.arcs, a < 2 ^ 32) :
    SortedApart os := by
  intro o ho o' ho' c a a' s s' _ hca hca' ha hsame
  have hlt : a < 2 ^ 32 := h o ho a (by rw [hca]; simp)
  have hlt' : a' < 2 ^ 32 := h o' ho' a' (by rw [hca']; simp)
  exact ha (atoi_decimal_injective hlt hlt' hsame)

/-- For different object identifiers, the order of registration does not matter and no element is
lost exactly if none extends another, all have the same first arc, and those that part at a later
arc part at arcs that `atoi` tells apart. -/
theorem registration_order_iff (regs : List (Oid × DataType))
    (hnodup : (regs.map Prod.fst).Nodup) :
    OrderIrrelevant regs ↔
      PrefixFree (regs.map Prod.fst) ∧ SameFirstArc (regs.map Prod.fst) ∧
        SortedApart (regs.map Prod.fst) := by
  constructor
  · exact fun h => ⟨h.prefixFree, h.sameFirstArc, h.sortedApart hnodup⟩
  · exact fun ⟨hfree, hfirst, hapart⟩ => orderIrrelevant_of_apart hnodup hfree hfirst hapart

theorem registration_order_threeCounters : OrderIrrelevant threeCounters :=
  (registration_order_iff threeCounters (by decide)).mpr
    ⟨by decide, by decide, sortedApart_of_lt (by decide)⟩

/-- A subtree is registered before the object identifier at its root. -/
def subtreeFirst : List (Oid × DataType) :=
  [(⟨[1, 3, 6], by decide⟩, .stats .counter32 0), (⟨[1, 3], by decide⟩, .stats .counter32 1)]

theorem registration_order_subtreeFirst :
    (subtreeFirst.map Prod.fst).Nodup ∧ ¬ OrderIrrelevant subtreeFirst := by
  refine ⟨by decide, fun h => ?_⟩
  have hown := (h subtreeFirst (List.Perm.refl _)).1 ⟨fun _ => 0, 0⟩
    (⟨[1, 3], by decide⟩, .stats .counter32 1) (by decide)
  have hlost : findByOid ⟨fun _ => 0, 0⟩ (registerAll [] subtreeFirst) (render [1, 3]) =
      some none := by rfl
  rw [Oid.text, hlost] at hown
  cases hown

end MyIp.Snmp
