import MyIp.Foundations.Trie
import MyIp.Net.Str
import MyIp.Snmp.Elem

/-! # The data tree of the SNMP agent

`snmp_data.cpp`: a node has the text of its object identifier, the number it is sorted by, the data
element it was registered with (none for the nodes made on the way to one) and its children. The
three operations walk down such a tree by the parts of an object identifier, looking for the node
whose whole text is the text up to that part.

Below that the tree is related to a trie over the arcs of the object identifiers: `toNodes` draws
the nodes of a forest, `rank` is the number its nodes are sorted by, and `registerOid_toNodes` and
`findByOid_toNodes` say that the operations on texts are those of the trie. -/

namespace MyIp.Snmp
set_option autoImplicit false

open Bytes CText Net

/-! ## Data elements -/

/-- What data elements read when they are asked: the statistics counters and the clock. -/
structure Env where
  counter : ℕ → BitVec 64
  us : BitVec 64

inductive DataType where
  | staticString (data : List Byte)
  | staticInt (type : IntegerType) (dataInt : BitVec 32)
  | stats (type : IntegerType) (counter : ℕ)
  | runningSince (runningSince : BitVec 64)
  | oid (oid : Text)
  deriving DecidableEq, Repr

/-- `get_data`; the type of a static integer is not used. -/
def getData (env : Env) : DataType → Elem
  | .staticString data => .octetString data
  | .staticInt _ dataInt => .integer .integer (dataInt.signExtend 64)
  | .stats type counter => .integer type (env.counter counter)
  | .runningSince since => .integer .ticks (env.us / 10000 - since)
  | .oid oid => snmpOid oid

/-! ## The tree -/

inductive Node where
  | mk (oidIdx : ℤ) (oid : Text) (data : Option DataType) (children : List Node)

def Node.oidIdx : Node → ℤ
  | .mk oidIdx _ _ _ => oidIdx

def Node.oid : Node → Text
  | .mk _ oid _ _ => oid

def Node.data : Node → Option DataType
  | .mk _ _ data _ => data

def Node.children : Node → List Node
  | .mk _ _ _ children => children

def Node.setChildren (children : List Node) : Node → Node
  | .mk oidIdx oid data _ => .mk oidIdx oid data children

/-- The number `set_tree_data` sorts by: the last part of a text with a dot, else 0. -/
def treeIdx (oid : Text) : ℤ :=
  match rfind '.' oid with
  | some dot => atoi (oid.drop (dot + 1))
  | none => 0

def findOidInVector (vec : List Node) (oid : Text) : Option ℕ := vec.findIdx? fun n => n.oid = oid

/-- `cur_oid` with one more part. -/
def extendOid (curOid part : Text) : Text :=
  if curOid.isEmpty then part else curOid ++ '.' :: part

def insertNode (e : Node) : List Node → List Node
  | [] => [e]
  | n :: lut => if e.oidIdx < n.oidIdx then e :: n :: lut else n :: insertNode e lut

/-- The loop of `register_oid` from the level `lut` on. -/
def registerParts (e : DataType) : Text → List Text → List Node → List Node
  | _, [], lut => lut
  | curOid, part :: parts, lut =>
    let curOid := extendOid curOid part
    match findOidInVector lut curOid with
    | none =>
      insertNode (.mk (treeIdx curOid) curOid (if parts.isEmpty then some e else none)
        (registerParts e curOid parts [])) lut
    | some idx =>
      lut.modify idx fun n => n.setChildren (registerParts e curOid parts n.children)

def registerOid (data : List Node) (oid : Text) (e : DataType) : List Node :=
  registerParts e [] (split oid '.') data

/-- The loop of `find_by_oid`; `some none` is a node without a data element. -/
def findParts : Text → List Text → List Node → Option (Option DataType)
  | _, [], _ => none
  | curOid, part :: parts, lut =>
    let curOid := extendOid curOid part
    match (findOidInVector lut curOid).bind fun idx => lut[idx]? with
    | none => none
    | some n => if parts.isEmpty then some n.data else findParts curOid parts n.children

/-- `find_by_oid`: nothing, the null pointer of an anonymous node, or an element. -/
def findByOid (env : Env) (data : List Node) (oid : Text) : Option (Option Elem) :=
  (findParts [] (split oid '.') data).map fun d => d.map (getData env)

/-! ### The next object identifier -/

/-- An entry of `branch`: a node, null above the top level, and the index of one of its children. -/
structure Frame where
  node : Option Node
  idx : ℕ

/-- Where a search stands: the level reached, the node it belongs to and the way there. -/
structure Cursor where
  lut : List Node
  parent : Option Node
  branch : List Frame

/-- The first loop of `find_next_oid`. -/
def descend : Text → List Text → Cursor → Cursor
  | _, [], c => c
  | curOid, part :: parts, c =>
    let curOid := extendOid curOid part
    match findOidInVector c.lut curOid with
    | none => c
    | some idx =>
      match c.lut[idx]? with
      | none => c
      | some n => descend curOid parts ⟨n.children, some n, ⟨c.parent, idx⟩ :: c.branch⟩

mutual

/-- The loop that follows the first children down to the end of a branch. -/
def endOfBranch (parent : Option Node) (branch : List Frame) : List Node → Option Node × List Frame
  | [] => (parent, branch)
  | n :: _ => enterFirst parent branch n

def enterFirst (parent : Option Node) (branch : List Frame) : Node → Option Node × List Frame
  | .mk oidIdx oid data children =>
    endOfBranch (some (.mk oidIdx oid data children)) (⟨parent, 0⟩ :: branch) children

end

/-- The first node without children at or below the given one. -/
def firstLeaf : Node → Node
  | .mk oidIdx oid data [] => .mk oidIdx oid data []
  | .mk _ _ _ (child :: _) => firstLeaf child

/-- The last loop of `find_next_oid`, to the next sibling of the branch. The assertion of the source
is the condition that nothing lies above the top node. -/
def nextSibling : List Frame → Option Text
  | [] => some []
  | ⟨none, _⟩ :: branch => if branch.isEmpty then some [] else none
  | ⟨some element, idx⟩ :: branch =>
    match element.children[idx + 1]? with
    | some n => some (firstLeaf n).oid
    | none => nextSibling branch

/-- `find_next_oid`; no result is a null pointer followed or an assertion that fails. -/
def findNextOid (data : List Node) (oid : Text) : Option Text :=
  let c := descend [] (split oid '.') ⟨data, none, []⟩
  match endOfBranch c.parent c.branch c.lut with
  | (none, _) => none
  | (some parent, branch) =>
    if parent.oid ≠ oid then some parent.oid else nextSibling (⟨some parent, 0⟩ :: branch)

/-! ## Object identifiers and the trie of their arcs -/

/-- The dotted text of a list of arcs. -/
def render (arcs : List ℕ) : Text := dotted (arcs.map decimal)

structure Oid where
  arcs : List ℕ
  nonempty : arcs ≠ []
  deriving DecidableEq

def Oid.text (o : Oid) : Text := render o.arcs

/-- `register_oid` for each pair in turn. -/
def registerAll (data : List Node) (regs : List (Oid × DataType)) : List Node :=
  regs.foldl (fun data r => registerOid data r.1.text r.2) data

theorem render_singleton (k : ℕ) : render [k] = decimal k := rfl

theorem render_snoc {p : List ℕ} (h : p ≠ []) (k : ℕ) :
    render (p ++ [k]) = render p ++ '.' :: decimal k := by
  rw [render, List.map_append]
  exact dotted_snoc (by simpa using h) _

theorem render_ne_nil {p : List ℕ} (h : p ≠ []) : render p ≠ [] := by
  refine dotted_ne_nil (by simpa using h) fun t ht => ?_
  obtain ⟨k, -, rfl⟩ := List.mem_map.mp ht
  exact decimal_ne_nil k

theorem split_render (p : List ℕ) : split (render p) '.' = p.map decimal := by
  refine split_dotted fun t ht => ?_
  obtain ⟨k, -, rfl⟩ := List.mem_map.mp ht
  exact ⟨decimal_ne_nil k, dot_not_mem_decimal k⟩

theorem render_injective : Function.Injective render := by
  intro p q h
  have hs := congrArg (fun t => split t '.') h
  simp only [split_render] at hs
  exact List.map_injective_iff.mpr decimal_injective hs

theorem extendOid_render (p : List ℕ) (k : ℕ) :
    extendOid (render p) (decimal k) = render (p ++ [k]) := by
  by_cases h : p = []
  · subst h
    rfl
  · have hne : (render p).isEmpty = false := by simpa using render_ne_nil h
    rw [extendOid, hne, render_snoc h]
    rfl

/-- The number that the node of an object identifier is sorted by. -/
def rank (p : List ℕ) : ℤ := treeIdx (render p)

theorem rank_singleton (k : ℕ) : rank [k] = 0 := by
  rw [rank, treeIdx, render_singleton, rfind_eq_none (dot_not_mem_decimal k)]

theorem rank_snoc {p : List ℕ} (h : p ≠ []) (k : ℕ) : rank (p ++ [k]) = atoi (decimal k) := by
  rw [rank, treeIdx, render_snoc h, rfind_append_cons (dot_not_mem_decimal k)]
  simp [← List.drop_drop]

/-- The nodes of a forest whose parent has the arcs `p`. -/
def toNodes (p : List ℕ) : Trie.Forest ℕ DataType → List Node
  | .nil => []
  | .cons k v ch rest =>
    .mk (rank (p ++ [k])) (render (p ++ [k])) v (toNodes (p ++ [k]) ch) :: toNodes p rest

theorem insertNode_toNodes {p : List ℕ} {k : ℕ} {v : Option DataType}
    {ch f : Trie.Forest ℕ DataType} :
    insertNode (.mk (rank (p ++ [k])) (render (p ++ [k])) v (toNodes (p ++ [k]) ch)) (toNodes p f) =
      toNodes p (Trie.insert rank p k v ch f) := by
  induction f with
  | nil => rfl
  | cons key value children rest _ ih =>
    by_cases h : rank (p ++ [k]) < rank (p ++ [key])
    · simp [toNodes, insertNode, Trie.insert, Node.oidIdx, h]
    · simp [toNodes, insertNode, Trie.insert, Node.oidIdx, h, ih]

theorem findOidInVector_cons (p : List ℕ) (k key : ℕ) (v : Option DataType)
    (ch rest : Trie.Forest ℕ DataType) :
    findOidInVector (toNodes p (.cons key v ch rest)) (render (p ++ [k])) =
      if key = k then some 0
      else (findOidInVector (toNodes p rest) (render (p ++ [k]))).map (· + 1) := by
  have hoid : render (p ++ [key]) = render (p ++ [k]) ↔ key = k := by
    rw [render_injective.eq_iff]
    simp
  by_cases h : key = k
  · simp [findOidInVector, toNodes, List.findIdx?_cons, Node.oid, h]
  · simp [findOidInVector, toNodes, List.findIdx?_cons, Node.oid, hoid, h]

theorem findOidInVector_none {p : List ℕ} {k : ℕ} {f : Trie.Forest ℕ DataType}
    (h : Trie.child k f = none) : findOidInVector (toNodes p f) (render (p ++ [k])) = none := by
  induction f with
  | nil => rfl
  | cons key value children rest _ ih =>
    rw [Trie.child] at h
    split at h
    · cases h
    · rename_i hk
      rw [findOidInVector_cons, if_neg hk, ih h, Option.map_none]

/-- A child is found at its place; it can be given other children there. -/
theorem findOidInVector_some {p : List ℕ} {k : ℕ} {f : Trie.Forest ℕ DataType}
    {v : Option DataType} {ch : Trie.Forest ℕ DataType} (h : Trie.child k f = some (v, ch)) :
    ∃ i, findOidInVector (toNodes p f) (render (p ++ [k])) = some i ∧
      (toNodes p f)[i]? =
        some (.mk (rank (p ++ [k])) (render (p ++ [k])) v (toNodes (p ++ [k]) ch)) ∧
      ∀ (g : List Node → List Node) (ch' : Trie.Forest ℕ DataType),
        g (toNodes (p ++ [k]) ch) = toNodes (p ++ [k]) ch' →
        (toNodes p f).modify i (fun n => n.setChildren (g n.children)) =
          toNodes p (Trie.setChildren k ch' f) := by
  induction f with
  | nil => cases h
  | cons key value children rest _ ih =>
    rw [Trie.child] at h
    split at h
    · rename_i hk
      subst hk
      obtain ⟨rfl, rfl⟩ := Prod.mk.inj (Option.some.inj h)
      refine ⟨0, by rw [findOidInVector_cons, if_pos rfl], rfl, fun g ch' hg => ?_⟩
      simp [toNodes, Trie.setChildren, Node.setChildren, Node.children, hg]
    · rename_i hk
      obtain ⟨i, hi, hget, hset⟩ := ih h
      refine ⟨i + 1, by rw [findOidInVector_cons, if_neg hk, hi, Option.map_some], hget,
        fun g ch' hg => ?_⟩
      simp [toNodes, Trie.setChildren, hk, hset g ch' hg]

theorem registerParts_toNodes (e : DataType) (ks : List ℕ) (p : List ℕ)
    (f : Trie.Forest ℕ DataType) :
    registerParts e (render p) (ks.map decimal) (toNodes p f) =
      toNodes p (Trie.put rank e p ks f) := by
  induction ks generalizing p f with
  | nil => rfl
  | cons k ks ih =>
    rw [List.map_cons, registerParts, Trie.put]
    simp only [extendOid_render]
    cases hc : Trie.child k f with
    | none =>
      have hnew := ih (p ++ [k]) .nil
      simp only [toNodes] at hnew
      simp only [findOidInVector_none hc, hnew, ← insertNode_toNodes]
      simp [rank]
    | some n =>
      obtain ⟨i, hi, -, hset⟩ := findOidInVector_some (p := p) hc
      simp only [hi]
      exact hset _ _ (ih (p ++ [k]) n.2)

theorem registerOid_toNodes (f : Trie.Forest ℕ DataType) (o : List ℕ) (e : DataType) :
    registerOid (toNodes [] f) (render o) e = toNodes [] (Trie.put rank e [] o f) := by
  rw [registerOid, split_render]
  exact registerParts_toNodes e o [] f

/-- The trie after the registrations. -/
def grow (f : Trie.Forest ℕ DataType) (regs : List (Oid × DataType)) : Trie.Forest ℕ DataType :=
  regs.foldl (fun f r => Trie.put rank r.2 [] r.1.arcs f) f

theorem registerAll_toNodes (f : Trie.Forest ℕ DataType) (regs : List (Oid × DataType)) :
    registerAll (toNodes [] f) regs = toNodes [] (grow f regs) := by
  induction regs generalizing f with
  | nil => rfl
  | cons r regs ih =>
    rw [registerAll, List.foldl_cons, Oid.text, registerOid_toNodes]
    exact ih _

theorem registerAll_nil (regs : List (Oid × DataType)) :
    registerAll [] regs = toNodes [] (grow .nil regs) :=
  registerAll_toNodes .nil regs

theorem grow_sorted {f : Trie.Forest ℕ DataType} (hf : Trie.Sorted rank [] f)
    (regs : List (Oid × DataType)) : Trie.Sorted rank [] (grow f regs) := by
  induction regs generalizing f with
  | nil => exact hf
  | cons r regs ih => exact ih (Trie.put_sorted hf)

theorem grow_nil_sorted (regs : List (Oid × DataType)) :
    Trie.Sorted rank [] (grow .nil regs) :=
  grow_sorted (f := .nil) trivial regs

theorem findParts_toNodes (ks p : List ℕ) (f : Trie.Forest ℕ DataType) :
    findParts (render p) (ks.map decimal) (toNodes p f) = Trie.find ks f := by
  induction ks generalizing p f with
  | nil => rfl
  | cons k ks ih =>
    rw [List.map_cons, findParts, Trie.find]
    simp only [extendOid_render]
    cases hc : Trie.child k f with
    | none => simp [findOidInVector_none hc]
    | some n =>
      obtain ⟨i, hi, hget, -⟩ := findOidInVector_some (p := p) hc
      simp [hi, hget, Node.data, Node.children, ih (p ++ [k]) n.2]

theorem findByOid_toNodes (env : Env) (f : Trie.Forest ℕ DataType) (o : List ℕ) :
    findByOid env (toNodes [] f) (render o) =
      (Trie.find o f).map fun d => d.map (getData env) := by
  rw [findByOid, split_render]
  exact congrArg _ (findParts_toNodes o [] f)

/-! ## Leaves of registered trees -/

/-- No object identifier extends another one. -/
def PrefixFree (os : List Oid) : Prop := ∀ o ∈ os, ∀ o' ∈ os, o.arcs <+: o'.arcs → o = o'

def SameFirstArc (os : List Oid) : Prop := ∀ o ∈ os, ∀ o' ∈ os, o.arcs.head? = o'.arcs.head?

instance (os : List Oid) : Decidable (PrefixFree os) :=
  inferInstanceAs (Decidable (∀ o ∈ os, ∀ o' ∈ os, o.arcs <+: o'.arcs → o = o'))

instance (os : List Oid) : Decidable (SameFirstArc os) :=
  inferInstanceAs (Decidable (∀ o ∈ os, ∀ o' ∈ os, o.arcs.head? = o'.arcs.head?))

/-- Registering object identifiers none of which extends another, or a leaf, adds each as a leaf;
the leaves that were there keep their order. -/
theorem grow_leaves {f : Trie.Forest ℕ DataType} {regs : List (Oid × DataType)}
    (hnodup : (regs.map Prod.fst).Nodup) (hfree : PrefixFree (regs.map Prod.fst))
    (hnew : ∀ r ∈ regs, ∀ x ∈ Trie.leaves [] f, ¬ r.1.arcs <+: x ∧ ¬ x <+: r.1.arcs) :
    (Trie.leaves [] f).Sublist (Trie.leaves [] (grow f regs)) ∧
      (Trie.leaves [] (grow f regs)).Perm (Trie.leaves [] f ++ regs.map fun r => r.1.arcs) := by
  induction regs generalizing f with
  | nil => exact ⟨List.Sublist.refl _, by simp [grow]⟩
  | cons r regs ih =>
    obtain ⟨l, l', hl, hl'⟩ := Trie.leaves_put (p := []) rank r.2 r.1.nonempty
      (hnew r List.mem_cons_self)
    rw [List.nil_append] at hl'
    have hnd := List.nodup_cons.mp hnodup
    have hfree' : PrefixFree (regs.map Prod.fst) := fun o ho o' ho' =>
      hfree o (List.mem_cons_of_mem _ ho) o' (List.mem_cons_of_mem _ ho')
    have hnew' : ∀ s ∈ regs, ∀ x ∈ Trie.leaves [] (Trie.put rank r.2 [] r.1.arcs f),
        ¬ s.1.arcs <+: x ∧ ¬ x <+: s.1.arcs := by
      intro s hs x hx
      have hmem : s.1 ∈ regs.map Prod.fst := List.mem_map_of_mem hs
      rw [hl', List.mem_append, List.mem_cons] at hx
      rcases hx with hx | rfl | hx
      · exact hnew s (List.mem_cons_of_mem _ hs) x (by rw [hl]; exact List.mem_append_left _ hx)
      · refine ⟨fun hp => hnd.1 ?_, fun hp => hnd.1 ?_⟩
        · rw [← hfree s.1 (List.mem_cons_of_mem _ hmem) r.1 List.mem_cons_self hp]
          exact hmem
        · rw [hfree r.1 List.mem_cons_self s.1 (List.mem_cons_of_mem _ hmem) hp]
          exact hmem
      · exact hnew s (List.mem_cons_of_mem _ hs) x (by rw [hl]; exact List.mem_append_right _ hx)
    obtain ⟨hsub, hperm⟩ := ih hnd.2 hfree' hnew'
    refine ⟨List.Sublist.trans ?_ hsub, hperm.trans ?_⟩
    · rw [hl, hl']
      exact List.Sublist.append (List.Sublist.refl _) (List.sublist_cons_self _ _)
    · rw [hl, hl', List.map_cons]
      refine (List.perm_middle.append_right _).trans ?_
      exact List.perm_middle.symm

theorem grow_leaves_nil {regs : List (Oid × DataType)} (hnodup : (regs.map Prod.fst).Nodup)
    (hfree : PrefixFree (regs.map Prod.fst)) :
    (Trie.leaves [] (grow .nil regs)).Perm (regs.map fun r => r.1.arcs) :=
  (grow_leaves (f := .nil) hnodup hfree (by simp [Trie.leaves])).2

/-- Object identifiers with one first arc make a tree with one top node. -/
theorem grow_cons {k : ℕ} {v : Option DataType} {f : Trie.Forest ℕ DataType}
    {regs : List (Oid × DataType)} (h : ∀ r ∈ regs, r.1.arcs.head? = some k) :
    ∃ f', grow (.cons k v f .nil) regs = .cons k v f' .nil := by
  induction regs generalizing f with
  | nil => exact ⟨f, rfl⟩
  | cons r regs ih =>
    obtain ⟨ks, hks⟩ := List.head?_eq_some_iff.mp (h r List.mem_cons_self)
    have hput : Trie.put rank r.2 [] r.1.arcs (.cons k v f .nil) =
        .cons k v (Trie.put rank r.2 [k] ks f) .nil := by
      simp [hks, Trie.put, Trie.child, Trie.setChildren]
    rw [grow, List.foldl_cons, hput]
    exact ih fun s hs => h s (List.mem_cons_of_mem _ hs)

theorem grow_one_top {regs : List (Oid × DataType)} (hne : regs ≠ [])
    (hfirst : SameFirstArc (regs.map Prod.fst)) :
    ∃ k v f, grow .nil regs = .cons k v f .nil := by
  obtain ⟨r, regs, rfl⟩ := List.exists_cons_of_ne_nil hne
  obtain ⟨k, ks, hks⟩ := List.exists_cons_of_ne_nil r.1.nonempty
  have hput : ∃ v f, Trie.put rank r.2 [] r.1.arcs .nil = .cons k v f .nil := by
    simp [hks, Trie.put, Trie.child, Trie.insert]
  obtain ⟨v, f, hput⟩ := hput
  have hhead : ∀ s ∈ regs, s.1.arcs.head? = some k := by
    intro s hs
    rw [hfirst s.1 (List.mem_map_of_mem (List.mem_cons_of_mem _ hs)) r.1
      (List.mem_map_of_mem List.mem_cons_self), hks]
    rfl
  obtain ⟨f', hf'⟩ := grow_cons (v := v) (f := f) hhead
  refine ⟨k, v, f', ?_⟩
  rw [grow, List.foldl_cons, hput]
  exact hf'

end MyIp.Snmp
