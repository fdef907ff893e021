import MyIp.Snmp.Data

/-! # Walking the tree with GETNEXT

`find_next_oid` keeps the branch it went down: `after` is the leaves it has still before it there,
and `nextSibling_eq` says that the ascent returns the first of them. Down a path of the trie of arcs
these are the leaves that come after the node of the path (`descend_toNodes`), so each answer is the
next leaf below the same top node (`findNextOid_node`), and in a tree with one top node iterating
`find_next_oid` goes through all of them (`walk_node`). With the leaves in ascending order that is
`getnext_walk`. -/

namespace MyIp.Snmp
set_option autoImplicit false

open CText Net
open Trie (Forest leaves block subforest)

/-! ## Leaves and branches -/

mutual

/-- The texts of the nodes without children, in the order of the tree. -/
def leafOids : List Node → List Text
  | [] => []
  | n :: ns => nodeLeafOids n ++ leafOids ns

def nodeLeafOids : Node → List Text
  | .mk _ oid _ children => if children.isEmpty then [oid] else leafOids children

end

/-- The leaves behind the places that the entries of a branch point to. -/
def after : List Frame → List Text
  | [] => []
  | ⟨none, _⟩ :: _ => []
  | ⟨some element, idx⟩ :: branch => leafOids (element.children.drop (idx + 1)) ++ after branch

/-- Null stands at the root of the branch only. -/
def Rooted : List Frame → Prop
  | [] => True
  | ⟨none, _⟩ :: branch => branch = []
  | ⟨some _, _⟩ :: branch => Rooted branch

theorem nodeLeafOids_head : (n : Node) → (nodeLeafOids n).head? = some (firstLeaf n).oid
  | .mk _ _ _ [] => rfl
  | .mk _ _ _ (child :: rest) => by
    rw [nodeLeafOids, firstLeaf, List.isEmpty_cons, if_neg (by decide), leafOids, List.head?_append,
      nodeLeafOids_head child]
    rfl

theorem nextSibling_eq {branch : List Frame} (h : Rooted branch) :
    nextSibling branch = some ((after branch).head?.getD []) := by
  induction branch with
  | nil => rfl
  | cons frame branch ih =>
    obtain ⟨_ | element, idx⟩ := frame
    · have hnil : branch = [] := h
      simp [nextSibling, after, hnil]
    · rw [nextSibling, after]
      cases hn : element.children[idx + 1]? with
      | none =>
        have hdrop : element.children.drop (idx + 1) = [] :=
          List.drop_eq_nil_of_le (List.getElem?_eq_none_iff.mp hn)
        simp [hdrop, leafOids, ih h]
      | some n =>
        obtain ⟨hlt, hget⟩ := List.getElem?_eq_some_iff.mp hn
        rw [List.drop_eq_getElem_cons hlt, hget, leafOids, List.append_assoc, List.head?_append,
          nodeLeafOids_head]
        rfl

mutual

theorem endOfBranch_cons (parent : Option Node) (branch : List Frame) :
    (lut : List Node) → (n : Node) → lut.head? = some n →
      (endOfBranch parent branch lut).1 = some (firstLeaf n)
  | [], _, h => by cases h
  | m :: _, n, h => by
    obtain rfl : m = n := Option.some.inj h
    exact enterFirst_fst parent branch m

theorem enterFirst_fst (parent : Option Node) (branch : List Frame) :
    (n : Node) → (enterFirst parent branch n).1 = some (firstLeaf n)
  | .mk oidIdx oid data [] => rfl
  | .mk oidIdx oid data (child :: rest) => by
    rw [enterFirst, firstLeaf]
    exact endOfBranch_cons _ _ (child :: rest) child rfl

end

/-! ## In a tree that has a node -/

/-- A node may be entered from any branch that leads to it. -/
theorem Rooted.enter {parent : Option Node} {branch : List Frame}
    (h : Rooted (⟨parent, 0⟩ :: branch)) (n : Node) (idx : ℕ) :
    Rooted (⟨some n, 0⟩ :: ⟨parent, idx⟩ :: branch) := by
  cases parent <;> exact h

theorem descend_parent_ne_none {c : Cursor} (curOid : Text) (parts : List Text)
    (h : c.parent ≠ none) : (descend curOid parts c).parent ≠ none := by
  induction parts generalizing curOid c with
  | nil => exact h
  | cons part parts ih =>
    rw [descend]
    split
    · exact h
    · split
      · exact h
      · exact ih _ (Option.some_ne_none _)

theorem descend_rooted {c : Cursor} (curOid : Text) (parts : List Text)
    (h : Rooted (⟨c.parent, 0⟩ :: c.branch)) :
    Rooted (⟨(descend curOid parts c).parent, 0⟩ :: (descend curOid parts c).branch) ∧
      ((descend curOid parts c).parent = none → (descend curOid parts c).lut = c.lut) := by
  induction parts generalizing curOid c with
  | nil => exact ⟨h, fun _ => rfl⟩
  | cons part parts ih =>
    rw [descend]
    split
    · exact ⟨h, fun _ => rfl⟩
    · next idx hidx =>
      split
      · exact ⟨h, fun _ => rfl⟩
      · next n hn =>
        have hbelow := ih (c := ⟨n.children, some n, ⟨c.parent, idx⟩ :: c.branch⟩)
          (extendOid curOid part) (h.enter n idx)
        refine ⟨hbelow.1, fun hnone => absurd hnone ?_⟩
        exact descend_parent_ne_none _ _ (Option.some_ne_none n)

mutual

theorem endOfBranch_rooted {parent : Option Node} {branch : List Frame}
    (h : Rooted (⟨parent, 0⟩ :: branch)) :
    (lut : List Node) →
      Rooted (⟨(endOfBranch parent branch lut).1, 0⟩ :: (endOfBranch parent branch lut).2)
  | [] => h
  | n :: _ => enterFirst_rooted h n

theorem enterFirst_rooted {parent : Option Node} {branch : List Frame}
    (h : Rooted (⟨parent, 0⟩ :: branch)) :
    (n : Node) → Rooted (⟨(enterFirst parent branch n).1, 0⟩ :: (enterFirst parent branch n).2)
  | .mk oidIdx oid data children => by
    rw [enterFirst]
    exact endOfBranch_rooted (h.enter (.mk oidIdx oid data children) 0) children

end

/-- `find_next_oid` comes back. -/
theorem findNextOid_ne_none {data : List Node} (h : data ≠ []) (oid : Text) :
    findNextOid data oid ≠ none := by
  obtain ⟨hrooted, hlut⟩ := descend_rooted (c := ⟨data, none, []⟩) [] (split oid '.') rfl
  rw [findNextOid]
  generalize descend [] (split oid '.') ⟨data, none, []⟩ = c at hrooted hlut
  have hend := endOfBranch_rooted hrooted c.lut
  have hparent : (endOfBranch c.parent c.branch c.lut).1 ≠ none := by
    cases hc : c.lut with
    | nil =>
      rw [endOfBranch]
      intro hnone
      exact h ((hlut hnone).symm.trans hc)
    | cons n lut =>
      rw [endOfBranch_cons _ _ (n :: lut) n rfl]
      exact Option.some_ne_none _
  generalize endOfBranch c.parent c.branch c.lut = r at hend hparent
  obtain ⟨_ | parent, branch⟩ := r
  · exact absurd rfl hparent
  · dsimp only
    split
    · exact Option.some_ne_none _
    · rw [nextSibling_eq hend]
      exact Option.some_ne_none _

/-! ## Down a path of the trie -/

theorem leafOids_toNodes (p : List ℕ) (f : Forest ℕ DataType) :
    leafOids (toNodes p f) = (leaves p f).map render := by
  induction f generalizing p with
  | nil => rfl
  | cons key value children rest ihc ihr =>
    rw [toNodes, leafOids, nodeLeafOids, Trie.leaves_cons, ihr, List.map_append]
    congr 1
    cases children with
    | nil => rfl
    | cons key' value' children' rest' => exact ihc _

/-- Where a child stands in its level, and the leaves before and after it. -/
theorem findOidInVector_leaves {p : List ℕ} {k : ℕ} {f : Forest ℕ DataType}
    {v : Option DataType} {ch : Forest ℕ DataType} (hf : Trie.Sorted rank p f)
    (h : Trie.child k f = some (v, ch)) :
    ∃ i l l', findOidInVector (toNodes p f) (render (p ++ [k])) = some i ∧
      (toNodes p f)[i]? =
        some (.mk (rank (p ++ [k])) (render (p ++ [k])) v (toNodes (p ++ [k]) ch)) ∧
      leaves p f = l ++ block (p ++ [k]) ch ++ l' ∧ (∀ x ∈ l, ¬ p ++ [k] <+: x) ∧
      leafOids ((toNodes p f).drop (i + 1)) = l'.map render := by
  induction f with
  | nil => cases h
  | cons key value children rest _ ih =>
    obtain ⟨-, hrest, hle⟩ := hf
    rw [Trie.child] at h
    split at h
    · rename_i hk
      subst hk
      obtain ⟨rfl, rfl⟩ := Prod.mk.inj (Option.some.inj h)
      refine ⟨0, [], leaves p rest, by rw [findOidInVector_cons, if_pos rfl], rfl,
        by simp [Trie.leaves_cons], by simp, ?_⟩
      rw [toNodes, List.drop_succ_cons, List.drop_zero, leafOids_toNodes]
    · rename_i hk
      obtain ⟨i, l, l', hi, hget, hl, hpre, hdrop⟩ := ih hrest h
      refine ⟨i + 1, block (p ++ [key]) children ++ l, l',
        by rw [findOidInVector_cons, if_neg hk, hi, Option.map_some], hget,
        by simp [Trie.leaves_cons, hl], fun x hx => ?_, hdrop⟩
      rcases List.mem_append.mp hx with hx | hx
      · rintro ⟨t, rfl⟩
        obtain ⟨s, hs⟩ := Trie.prefix_of_mem_block hx
        rw [List.append_assoc, List.append_assoc] at hs
        have he := List.append_cancel_left hs
        exact hk (List.cons.inj he).1
      · exact hpre x hx

/-- Down the path `q` below a node: the leaves of the node are those before the end of the path,
those of its end, and those that the branch has then before it. -/
theorem descend_toNodes {p q : List ℕ} {f ch : Forest ℕ DataType} {e : Node} {branch : List Frame}
    (hf : Trie.Sorted rank p f) (hsub : subforest q f = some ch)
    (hchildren : e.children = toNodes p f) (hoid : e.oid = render p) (hroot : Rooted branch) :
    ∃ e' branch' pre post,
      descend (render p) (q.map decimal) ⟨toNodes p f, some e, branch⟩ =
        ⟨toNodes (p ++ q) ch, some e', branch'⟩ ∧
      e'.children = toNodes (p ++ q) ch ∧ e'.oid = render (p ++ q) ∧ Rooted branch' ∧
      block p f = pre ++ block (p ++ q) ch ++ post ∧ (∀ x ∈ pre, ¬ p ++ q <+: x) ∧
      after branch' = post.map render ++ after branch := by
  induction q generalizing p f e branch with
  | nil =>
    obtain rfl := Option.some.inj hsub
    exact ⟨e, branch, [], [], by simp [descend], by simpa using hchildren, by simpa using hoid,
      hroot, by simp, by simp, by simp⟩
  | cons k ks ih =>
    rw [subforest] at hsub
    split at hsub
    · cases hsub
    · rename_i v ch₁ hc
      obtain ⟨i, l, l', hi, hget, hl, hpre, hdrop⟩ := findOidInVector_leaves hf hc
      have hblock : block p f = leaves p f := by
        apply Trie.block_of_ne_nil
        rintro rfl
        cases hc
      obtain ⟨e', branch', pre, post, hdesc, hch', hoid', hroot', hsplit, hpre', hafter⟩ :=
        ih (e := .mk (rank (p ++ [k])) (render (p ++ [k])) v (toNodes (p ++ [k]) ch₁))
          (Trie.child_sorted hf hc) hsub rfl rfl (show Rooted (⟨some e, i⟩ :: branch) from hroot)
      simp only [List.append_assoc, List.singleton_append] at hdesc hch' hoid' hsplit hpre'
      refine ⟨e', branch', l ++ pre, post ++ l', ?_, hch', hoid', hroot', ?_, ?_, ?_⟩
      · rw [List.map_cons, descend]
        simp only [extendOid_render, hi, hget]
        exact hdesc
      · rw [hblock, hl, hsplit]
        simp
      · intro x hx hp
        rcases List.mem_append.mp hx with hx | hx
        · exact hpre x hx (List.IsPrefix.trans ⟨ks, by simp⟩ hp)
        · exact hpre' x hx hp
      · rw [hafter, after, hchildren, hdrop]
        simp

/-! ## The answers at the nodes -/

/-- What `find_next_oid` goes through from a node on: its own leaves, unless it is one itself, and
those after it. -/
def following (q : List ℕ) (ch : Forest ℕ DataType) (post : List (List ℕ)) : List (List ℕ) :=
  match ch with
  | .nil => post
  | ch => leaves q ch ++ post

/-- The end of the branch below a node with children is the first of their leaves. -/
theorem endOfBranch_leaves {p : List ℕ} {ch : Forest ℕ DataType} (h : ch ≠ .nil)
    (parent : Option Node) (branch : List Frame) :
    ∃ leaf x, (endOfBranch parent branch (toNodes p ch)).1 = some leaf ∧
      leaf.oid = render x ∧ (leaves p ch).head? = some x := by
  cases ch with
  | nil => exact absurd rfl h
  | cons key value children rest =>
    have hend := endOfBranch_cons parent branch (toNodes p (.cons key value children rest)) _ rfl
    have hfirst := nodeLeafOids_head (.mk (rank (p ++ [key])) (render (p ++ [key])) value
      (toNodes (p ++ [key]) children))
    have hleaves : (leafOids (toNodes p (.cons key value children rest))).head? =
        some (firstLeaf (.mk (rank (p ++ [key])) (render (p ++ [key])) value
          (toNodes (p ++ [key]) children))).oid := by
      rw [toNodes, leafOids, List.head?_append, hfirst]
      rfl
    rw [leafOids_toNodes] at hleaves
    obtain ⟨x, hx, hxoid⟩ : ∃ x, (leaves p (.cons key value children rest)).head? = some x ∧
        render x = (firstLeaf (.mk (rank (p ++ [key])) (render (p ++ [key])) value
          (toNodes (p ++ [key]) children))).oid := by
      simpa [List.head?_map] using hleaves
    exact ⟨_, x, hend, hxoid.symm, hx⟩

/-- At a node the answer is the first of the leaves that follow below the same top node. -/
theorem findNextOid_node {k : ℕ} {v : Option DataType} {f g ch : Forest ℕ DataType} {ks : List ℕ}
    (hf : Trie.Sorted rank [] f) (hc : Trie.child k f = some (v, g))
    (hsub : subforest ks g = some ch) :
    ∃ pre post, block [k] g = pre ++ block (k :: ks) ch ++ post ∧
      (∀ x ∈ pre, ¬ k :: ks <+: x) ∧
      findNextOid (toNodes [] f) (render (k :: ks)) =
        some (((following (k :: ks) ch post).map render).head?.getD []) := by
  obtain ⟨i, hi, hget, -⟩ := findOidInVector_some (p := []) hc
  simp only [List.nil_append] at hi hget
  obtain ⟨e, branch, pre, post, hdesc, hch, hoid, hroot, hsplit, hpre, hafter⟩ :=
    descend_toNodes (p := [k]) (e := .mk (rank [k]) (render [k]) v (toNodes [k] g))
      (Trie.child_sorted hf hc) hsub rfl rfl (show Rooted [⟨none, i⟩] from rfl)
  simp only [List.singleton_append] at hdesc hch hoid hsplit hpre
  have hafter' : after branch = post.map render := by simpa [after] using hafter
  refine ⟨pre, post, hsplit, hpre, ?_⟩
  have hstart : descend [] (split (render (k :: ks)) '.') ⟨toNodes [] f, none, []⟩ =
      ⟨toNodes (k :: ks) ch, some e, branch⟩ := by
    have hcur := extendOid_render [] k
    rw [List.nil_append] at hcur
    rw [split_render, List.map_cons, descend]
    simp only [show ([] : Text) = render [] from rfl, hcur, hi, hget]
    exact hdesc
  rw [findNextOid, hstart]
  by_cases hnil : ch = .nil
  · subst hnil
    have hnone : e.children[0 + 1]? = none := by simp [hch, toNodes]
    simp only [toNodes, endOfBranch, hoid, ne_eq, not_true_eq_false, if_false, following]
    rw [nextSibling, hnone]
    simp only [nextSibling_eq hroot, hafter']
  · obtain ⟨leaf, x, hend, hleaf, hx⟩ := endOfBranch_leaves (p := k :: ks) hnil (some e) branch
    have hne : render x ≠ render (k :: ks) := by
      intro he
      obtain ⟨j, -, s, hs⟩ := Trie.leaves_key (List.mem_of_mem_head? hx)
      rw [render_injective he] at hs
      simpa using congrArg List.length hs
    have hfollow : following (k :: ks) ch post = leaves (k :: ks) ch ++ post := by
      cases ch with
      | nil => exact absurd rfl hnil
      | cons key value children rest => rfl
    generalize endOfBranch (some e) branch (toNodes (k :: ks) ch) = r at hend
    obtain ⟨parent, branch'⟩ := r
    obtain rfl : parent = some leaf := hend
    rw [hfollow, List.map_append, List.head?_append, List.head?_map, hx]
    simp only [hleaf, if_pos hne, Option.map_some, Option.some_or, Option.getD_some]

/-- The leaves below one top node. -/
theorem findNextOid_leaf {k : ℕ} {v : Option DataType} {f g : Forest ℕ DataType} {x : List ℕ}
    {pre post : List (List ℕ)} (hf : Trie.Sorted rank [] f) (hc : Trie.child k f = some (v, g))
    (hl : block [k] g = pre ++ x :: post) :
    findNextOid (toNodes [] f) (render x) = some ((post.map render).head?.getD []) := by
  have hmem : x ∈ block [k] g := by
    rw [hl]
    simp
  obtain ⟨s, rfl, hsub⟩ : ∃ s, x = k :: s ∧ subforest s g = some .nil := by
    by_cases hnil : g = .nil
    · subst hnil
      exact ⟨[], List.mem_singleton.mp hmem, rfl⟩
    · rw [Trie.block_of_ne_nil hnil] at hmem
      obtain ⟨s, hs, -, hsub⟩ := Trie.subforest_of_mem_leaves (Trie.child_sorted hf hc) hmem
      exact ⟨s, hs, hsub⟩
  obtain ⟨pre', post', hl', -, hnext⟩ := findNextOid_node hf hc hsub
  have hnodup : (block [k] g).Nodup := by
    by_cases hnil : g = .nil
    · subst hnil
      exact List.nodup_singleton _
    · rw [Trie.block_of_ne_nil hnil]
      exact Trie.leaves_nodup (Trie.child_sorted hf hc)
  rw [hl] at hnodup hl'
  have hx : k :: s ∉ pre ∧ k :: s ∉ post := by
    rw [List.nodup_middle, List.nodup_cons, List.mem_append] at hnodup
    tauto
  have hpost : post = post' := by
    have he : pre ++ (k :: s) :: post = pre' ++ (k :: s) :: post' := by simpa [block] using hl'
    exact ((List.append_cons_inj_of_notMem hx.1 hx.2).mp he).2.2
  rw [hnext, hpost]
  rfl

/-! ## Iterating `find_next_oid` -/

/-- The answers of `n` requests, each for the answer before it. -/
def walk (data : List Node) : ℕ → Text → List Text
  | 0, _ => []
  | n + 1, oid =>
    match findNextOid data oid with
    | none => []
    | some next => next :: walk data n next

theorem walk_leaf {k : ℕ} {v : Option DataType} {f g : Forest ℕ DataType} {x : List ℕ}
    {pre post : List (List ℕ)} (hf : Trie.Sorted rank [] f) (hc : Trie.child k f = some (v, g))
    (hl : block [k] g = pre ++ x :: post) :
    walk (toNodes [] f) (post.length + 1) (render x) = post.map render ++ [[]] := by
  induction post generalizing pre x with
  | nil =>
    have hnext := findNextOid_leaf hf hc hl
    simp [walk, hnext]
  | cons y post ih =>
    have hnext := findNextOid_leaf hf hc hl
    have hl' : block [k] g = (pre ++ [x]) ++ y :: post := by
      rw [hl]
      simp
    have hrest := ih hl'
    rw [List.length_cons, walk, hnext]
    simpa using hrest

/-- From a node on, the walk goes through the leaves that follow and then gives the empty text. -/
theorem walk_node {k : ℕ} {v : Option DataType} {f ch : Forest ℕ DataType} {q : List ℕ}
    (hf : Trie.Sorted rank [] (.cons k v f .nil)) (hq : q ≠ [])
    (hsub : subforest q (.cons k v f .nil) = some ch) :
    ∃ pre post, leaves [] (.cons k v f .nil) = pre ++ block q ch ++ post ∧
      (∀ x ∈ pre, ¬ q <+: x) ∧
      walk (toNodes [] (.cons k v f .nil)) ((following q ch post).length + 1) (render q) =
        (following q ch post).map render ++ [[]] := by
  have hc : Trie.child k (.cons k v f .nil) = some (v, f) := by simp [Trie.child]
  obtain ⟨a, ks, rfl⟩ := List.exists_cons_of_ne_nil hq
  obtain rfl : a = k := by
    by_contra hak
    simp [subforest, Trie.child, Ne.symm hak] at hsub
  have hsub' : subforest ks f = some ch := by simpa [subforest, Trie.child] using hsub
  have hone : leaves [] (.cons a v f .nil) = block [a] f := by simp [Trie.leaves_cons, leaves]
  obtain ⟨pre, post, hl, hpre, hnext⟩ := findNextOid_node hf hc hsub'
  refine ⟨pre, post, hone.trans hl, hpre, ?_⟩
  obtain ⟨l, hl'⟩ : ∃ l, block [a] f = l ++ following (a :: ks) ch post := by
    cases ch with
    | nil => exact ⟨pre ++ [a :: ks], hl⟩
    | cons key value children rest => exact ⟨pre, hl.trans (List.append_assoc _ _ _)⟩
  generalize following (a :: ks) ch post = rest at hnext hl'
  cases rest with
  | nil => simp [walk, hnext]
  | cons x rest =>
    rw [List.length_cons, walk, hnext]
    simp [walk_leaf hf hc hl']

/-! ## The walk in ascending order -/

mutual

/-- The texts of all nodes. -/
def nodeOids : List Node → List Text
  | [] => []
  | n :: ns => oidsFrom n ++ nodeOids ns

def oidsFrom : Node → List Text
  | .mk _ oid _ children => oid :: nodeOids children

end

theorem subforest_of_mem_nodeOids {p : List ℕ} {f : Forest ℕ DataType} {t : Text}
    (hf : Trie.Sorted rank p f) (h : t ∈ nodeOids (toNodes p f)) :
    ∃ k s, t = render (p ++ k :: s) ∧ k ∈ Trie.keys f ∧ (subforest (k :: s) f).isSome := by
  induction f generalizing p with
  | nil => cases h
  | cons key value children rest ihc ihr =>
    obtain ⟨hc, hrest, hle⟩ := hf
    rw [toNodes, nodeOids, oidsFrom, List.mem_append, List.mem_cons] at h
    rcases h with (rfl | h) | h
    · exact ⟨key, [], rfl, List.mem_cons_self, by simp [subforest, Trie.child]⟩
    · obtain ⟨k, s, rfl, -, hsub⟩ := ihc hc h
      refine ⟨key, k :: s, by simp, List.mem_cons_self, ?_⟩
      rw [subforest, Trie.child, if_pos rfl]
      exact hsub
    · obtain ⟨k, s, rfl, hk, hsub⟩ := ihr hrest h
      refine ⟨k, s, rfl, List.mem_cons_of_mem _ hk, ?_⟩
      rw [subforest, Trie.child, if_neg (hle k hk).1]
      exact hsub

theorem mem_nodeOids_of_subforest {p : List ℕ} {f ch : Forest ℕ DataType} {k : ℕ} {s : List ℕ}
    (h : subforest (k :: s) f = some ch) : render (p ++ k :: s) ∈ nodeOids (toNodes p f) := by
  induction f generalizing p k s with
  | nil => cases h
  | cons key value children rest ihc ihr =>
    rw [toNodes, nodeOids, oidsFrom, List.mem_append, List.mem_cons]
    rw [subforest, Trie.child] at h
    split at h
    · cases h
    · rename_i hc
      split at hc
      · rename_i hk
        subst hk
        obtain ⟨-, rfl⟩ := Prod.mk.inj (Option.some.inj hc)
        cases s with
        | nil => exact Or.inl (Or.inl rfl)
        | cons j s =>
          have hin := ihc (p := p ++ [key]) h
          rw [List.append_assoc] at hin
          exact Or.inl (Or.inr hin)
      · refine Or.inr (ihr ?_)
        rw [subforest, hc]
        exact h

/-- With ascending leaves, those that follow a node are the ones greater than it. -/
theorem mem_following {q : List ℕ} {ch : Forest ℕ DataType} {pre post : List (List ℕ)}
    (hlt : (pre ++ block q ch ++ post).Pairwise (· < ·)) (hpre : ∀ x ∈ pre, ¬ q <+: x)
    (x : List ℕ) : x ∈ following q ch post ↔ x ∈ pre ++ block q ch ++ post ∧ q < x := by
  obtain ⟨y, hy⟩ := List.exists_mem_of_ne_nil _ (Trie.block_ne_nil q ch)
  obtain ⟨t, rfl⟩ := Trie.prefix_of_mem_block hy
  obtain ⟨hleft, -, hcross⟩ := List.pairwise_append.mp hlt
  obtain ⟨-, -, hcross'⟩ := List.pairwise_append.mp hleft
  have hqy : q ≤ q ++ t := by
    cases t with
    | nil => rw [List.append_nil]
    | cons k s => exact le_of_lt (Trie.lt_append_cons q k s)
  have hpost : ∀ z ∈ post, q < z := fun z hz =>
    lt_of_le_of_lt hqy (hcross _ (List.mem_append_right _ hy) z hz)
  have hnotpre : ∀ z ∈ pre, ¬ q < z := fun z hz hqz =>
    hpre z hz (Trie.prefix_of_lt_of_lt hqz (hcross' z hz _ hy))
  simp only [List.mem_append]
  cases ch with
  | nil =>
    constructor
    · exact fun hx => ⟨Or.inr hx, hpost x hx⟩
    · rintro ⟨(hx | hx) | hx, hqx⟩
      · exact absurd hqx (hnotpre x hx)
      · obtain rfl : x = q := List.mem_singleton.mp hx
        exact absurd hqx (lt_irrefl _)
      · exact hx
  | cons key value children rest =>
    constructor
    · intro hx
      rcases List.mem_append.mp hx with hx | hx
      · obtain ⟨k, -, s, rfl⟩ := Trie.leaves_key hx
        exact ⟨Or.inl (Or.inr hx), Trie.lt_append_cons q k s⟩
      · exact ⟨Or.inr hx, hpost x hx⟩
    · rintro ⟨(hx | hx) | hx, hqx⟩
      · exact absurd hqx (hnotpre x hx)
      · exact List.mem_append_left _ hx
      · exact List.mem_append_right _ hx

theorem following_pairwise {q : List ℕ} {ch : Forest ℕ DataType} {pre post : List (List ℕ)}
    (hlt : (pre ++ block q ch ++ post).Pairwise (· < ·)) :
    (following q ch post).Pairwise (· < ·) := by
  cases ch with
  | nil => exact (List.pairwise_append.mp hlt).2.1
  | cons key value children rest =>
    rw [List.append_assoc] at hlt
    exact (List.pairwise_append.mp hlt).2.1

/-- Below any node, and in a tree with one top node, leaves with arcs below `2 ^ 31` ascend. -/
theorem leaves_ascend {p : List ℕ} {f : Forest ℕ DataType} (hf : Trie.Sorted rank p f)
    (hfirst : ∀ x ∈ leaves p f, ∀ y ∈ leaves p f, x.head? = y.head?)
    (harcs : ∀ x ∈ leaves p f, ∀ a ∈ x, a < 2 ^ 31) : (leaves p f).Pairwise (· < ·) := by
  refine Trie.leaves_pairwise hf ?_
  intro q a a' s s' h h' hle
  by_cases hq : q = []
  · subst hq
    exact le_of_eq (Option.some.inj (hfirst _ h _ h'))
  · have ha := harcs _ h a (by simp)
    have ha' := harcs _ h' a' (by simp)
    rw [rank_snoc hq, rank_snoc hq, atoi_decimal ha, atoi_decimal ha'] at hle
    exact_mod_cast hle

theorem grow_leaves_pairwise {regs : List (Oid × DataType)} (hnodup : (regs.map Prod.fst).Nodup)
    (hfree : PrefixFree (regs.map Prod.fst)) (hfirst : SameFirstArc (regs.map Prod.fst))
    (harcs : ∀ r ∈ regs, ∀ a ∈ r.1.arcs, a < 2 ^ 31) :
    (leaves [] (grow .nil regs)).Pairwise (· < ·) := by
  have hmem : ∀ x ∈ leaves [] (grow .nil regs), ∃ r ∈ regs, r.1.arcs = x := fun x hx =>
    List.mem_map.mp ((grow_leaves_nil hnodup hfree).mem_iff.mp hx)
  refine leaves_ascend (grow_nil_sorted regs) ?_ ?_
  · intro x hx y hy
    obtain ⟨r, hr, rfl⟩ := hmem x hx
    obtain ⟨r', hr', rfl⟩ := hmem y hy
    exact hfirst r.1 (List.mem_map_of_mem hr) r'.1 (List.mem_map_of_mem hr')
  · intro x hx
    obtain ⟨r, hr, rfl⟩ := hmem x hx
    exact harcs r hr

/-- From any node of the tree, iterating `find_next_oid` gives the registered object identifiers
that are greater, in ascending order, and then the empty text. -/
theorem getnext_walk (regs : List (Oid × DataType)) (hne : regs ≠ [])
    (hnodup : (regs.map Prod.fst).Nodup) (hfree : PrefixFree (regs.map Prod.fst))
    (hfirst : SameFirstArc (regs.map Prod.fst))
    (harcs : ∀ r ∈ regs, ∀ a ∈ r.1.arcs, a < 2 ^ 31) (start : Text)
    (hstart : start ∈ nodeOids (registerAll [] regs)) :
    ∃ (s : List ℕ) (l : List (List ℕ)), start = render s ∧ l.Pairwise (· < ·) ∧
      (∀ x, x ∈ l ↔ x ∈ regs.map (fun r => r.1.arcs) ∧ s < x) ∧
      walk (registerAll [] regs) (l.length + 1) start = l.map render ++ [[]] := by
  have hsorted := grow_nil_sorted regs
  have hlt := grow_leaves_pairwise hnodup hfree hfirst harcs
  have hperm := grow_leaves_nil hnodup hfree
  rw [registerAll_nil] at hstart ⊢
  obtain ⟨k, s, rfl, -, hsub⟩ := subforest_of_mem_nodeOids hsorted hstart
  obtain ⟨ch, hch⟩ := Option.isSome_iff_exists.mp hsub
  obtain ⟨j, v, f, hroot⟩ := grow_one_top hne hfirst
  rw [hroot] at hsorted hlt hperm hch ⊢
  obtain ⟨pre, post, hl, hpre, hwalk⟩ := walk_node hsorted (by simp) hch
  rw [hl] at hlt hperm
  refine ⟨k :: s, following (k :: s) ch post, rfl, following_pairwise hlt, fun x => ?_, hwalk⟩
  rw [mem_following hlt hpre x, hperm.mem_iff]

/-- Three counters, not registered in ascending order. -/
def threeCounters : List (Oid × DataType) :=
  [(⟨[1, 3, 6, 1], by decide⟩, .stats .counter32 0), (⟨[1, 3, 10], by decide⟩, .stats .counter32 1),
    (⟨[1, 3, 9, 2], by decide⟩, .stats .counter32 2)]

theorem getnext_walk_threeCounters :
    ∃ (s : List ℕ) (l : List (List ℕ)), render [1, 3, 6] = render s ∧ l.Pairwise (· < ·) ∧
      (∀ x, x ∈ l ↔ x ∈ threeCounters.map (fun r => r.1.arcs) ∧ s < x) ∧
      walk (registerAll [] threeCounters) (l.length + 1) (render [1, 3, 6]) =
        l.map render ++ [[]] :=
  getnext_walk threeCounters (by decide) (by decide) (by decide) (by decide) (by decide)
    (render [1, 3, 6]) (by decide)

end MyIp.Snmp
