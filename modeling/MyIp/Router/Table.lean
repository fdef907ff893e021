import MyIp.Foundations.KeyedList
import MyIp.Router

/-! # The routing table

How `ip_table` of `router.cpp` comes about: `add_router_ipv4` and `add_router_ipv6` search it,
change an entry in part or leave it, and append otherwise. They take different things for the
identity of an entry; `identity` says what, and with it a table is a `KeyedList`. -/

namespace MyIp.Router.Table
set_option autoImplicit false

open Bytes KeyedList

/-- The union `mask`, by the family of the network. -/
inductive NetMask
  | ipv4 (netmask : Vector Byte 4)
  | ipv6 (prefixLength : ℤ)
  deriving DecidableEq

def NetMask.family : NetMask → AddrFamily
  | .ipv4 _ => .ipv4
  | .ipv6 _ => .ipv6

/-- `ip_router_entry` with all its fields; `macLookup` is the ARP or NDP instance, if any. -/
@[ext]
structure IpRouterEntry where
  localIp : AnyAddr
  networkAddress : AnyAddr
  mask : NetMask
  mask_family : networkAddress.af = mask.family
  priority : ℤ
  interface : ℕ
  macLookup : Option ℕ
  defaultGateway : Option AnyAddr
  deriving DecidableEq

/-- The loops of both functions: the first entry that is the `same` is updated, and without one
`re` is pushed. -/
def updateOrPush (same : IpRouterEntry → Bool) (update : IpRouterEntry → IpRouterEntry)
    (re : IpRouterEntry) : List IpRouterEntry → List IpRouterEntry
  | [] => [re]
  | e :: es => if same e then update e :: es else e :: updateOrPush same update re es

/-- A call of one of the functions below, with the assertion that it starts with. -/
inductive Call
  | ipv4 (localIp network : AnyAddr) (family : network.af = .ipv4) (netmask : Vector Byte 4)
      (gateway : Option AnyAddr) (priority : ℤ) (interface : ℕ) (iarp : Option ℕ)
  | ipv6 (localIp network : AnyAddr) (family : network.af = .ipv6) (cidr priority : ℤ)
      (interface : ℕ) (indp : Option ℕ)

/-- `re`, as both functions fill it in. -/
def Call.entry : Call → IpRouterEntry
  | ipv4 localIp network family netmask gateway priority interface iarp =>
    ⟨localIp, network, .ipv4 netmask, family, priority, interface, iarp, gateway⟩
  | ipv6 localIp network family cidr priority interface indp =>
    ⟨localIp, network, .ipv6 cidr, family, priority, interface, indp, none⟩

/-- `add_router_ipv4` -/
def addRouterIpv4 (ipTable : List IpRouterEntry) (re : IpRouterEntry) : List IpRouterEntry :=
  updateOrPush
    (fun e => re.networkAddress = e.networkAddress && re.mask = e.mask && e.interface = re.interface)
    (fun e => { e with macLookup := re.macLookup, defaultGateway := re.defaultGateway }) re ipTable

/-- `add_router_ipv6`: an entry for the same prefix stays as it is, whatever its device. -/
def addRouterIpv6 (ipTable : List IpRouterEntry) (re : IpRouterEntry) : List IpRouterEntry :=
  updateOrPush (fun e => e.networkAddress = re.networkAddress && e.mask = re.mask) id re ipTable

def addRouter (ipTable : List IpRouterEntry) : Call → List IpRouterEntry
  | call@(.ipv4 ..) => addRouterIpv4 ipTable call.entry
  | call@(.ipv6 ..) => addRouterIpv6 ipTable call.entry

/-- `ip_table` after a sequence of calls. -/
def ipTable (calls : List Call) : List IpRouterEntry := calls.foldl addRouter []

/-! ## What a table holds -/

/-- Network, mask or prefix length, and device. -/
def IpRouterEntry.key (e : IpRouterEntry) : AnyAddr × NetMask × ℕ :=
  (e.networkAddress, e.mask, e.interface)

/-- What the functions take for the identity of an entry with a given key. -/
def identityOf : AnyAddr × NetMask × ℕ → AnyAddr × NetMask × Option ℕ
  | (network, .ipv4 netmask, interface) => (network, .ipv4 netmask, some interface)
  | (network, .ipv6 prefixLength, _) => (network, .ipv6 prefixLength, none)

def IpRouterEntry.identity (e : IpRouterEntry) : AnyAddr × NetMask × Option ℕ := identityOf e.key

/-- What becomes of an entry when it is announced again by `re`. -/
def IpRouterEntry.merge (e re : IpRouterEntry) : IpRouterEntry :=
  match e.mask with
  | .ipv4 _ => { e with macLookup := re.macLookup, defaultGateway := re.defaultGateway }
  | .ipv6 _ => e

theorem merge_key (e re : IpRouterEntry) : (e.merge re).key = e.key := by
  unfold IpRouterEntry.merge
  split <;> rfl

theorem merge_identity (e re : IpRouterEntry) : (e.merge re).identity = e.identity :=
  congrArg identityOf (merge_key e re)

theorem updateOrPush_eq_absorb {same : IpRouterEntry → Bool}
    {update : IpRouterEntry → IpRouterEntry} {re : IpRouterEntry}
    (hsame : ∀ e, same e = true ↔ e.identity = re.identity)
    (hupdate : ∀ e, e.identity = re.identity → update e = e.merge re) (es : List IpRouterEntry) :
    updateOrPush same update re es = absorb IpRouterEntry.identity IpRouterEntry.merge re es := by
  induction es with
  | nil => rfl
  | cons e es ih =>
    rw [updateOrPush, absorb, ih]
    by_cases he : e.identity = re.identity
    · rw [if_pos ((hsame e).mpr he), if_pos he, hupdate e he]
    · rw [if_neg (fun h => he ((hsame e).mp h)), if_neg he]

/-- Both functions are the same search, for their own identity. -/
theorem addRouter_eq_absorb (es : List IpRouterEntry) (call : Call) :
    addRouter es call = absorb IpRouterEntry.identity IpRouterEntry.merge call.entry es := by
  cases call with
  | ipv4 localIp network family netmask gateway priority interface iarp =>
    refine updateOrPush_eq_absorb (fun e => ?_) (fun e he => ?_) es
    all_goals obtain ⟨eLocal, eNetwork, eMask, eFamily, ePriority, eInterface, eLookup, eGateway⟩ := e
    · cases eMask with
      | ipv4 eNetmask =>
        simp only [Bool.and_eq_true, decide_eq_true_eq]
        simp only [Call.entry, IpRouterEntry.identity, identityOf, IpRouterEntry.key,
          Prod.mk.injEq, NetMask.ipv4.injEq, Option.some.injEq]
        rw [eq_comm (a := network), eq_comm (a := netmask), and_assoc]
      | ipv6 prefixLength =>
        simp [Call.entry, IpRouterEntry.identity, identityOf, IpRouterEntry.key]
    · cases eMask with
      | ipv4 eNetmask => rfl
      | ipv6 prefixLength =>
        simp [Call.entry, IpRouterEntry.identity, identityOf, IpRouterEntry.key] at he
  | ipv6 localIp network family cidr priority interface indp =>
    refine updateOrPush_eq_absorb (fun e => ?_) (fun e he => ?_) es
    all_goals obtain ⟨eLocal, eNetwork, eMask, eFamily, ePriority, eInterface, eLookup, eGateway⟩ := e
    · cases eMask with
      | ipv4 eNetmask => simp [Call.entry, IpRouterEntry.identity, identityOf, IpRouterEntry.key]
      | ipv6 prefixLength =>
        simp only [Bool.and_eq_true, decide_eq_true_eq]
        simp only [Call.entry, IpRouterEntry.identity, identityOf, IpRouterEntry.key,
          Prod.mk.injEq, NetMask.ipv6.injEq, and_true]
    · cases eMask with
      | ipv4 eNetmask =>
        simp [Call.entry, IpRouterEntry.identity, identityOf, IpRouterEntry.key] at he
      | ipv6 prefixLength => rfl

/-- For each identity there is one entry, made of all that was announced of it. -/
theorem filter_identity_ipTable (calls : List Call) (i : AnyAddr × NetMask × Option ℕ) :
    (ipTable calls).filter (·.identity = i) =
      collapse IpRouterEntry.merge ((calls.map Call.entry).filter (·.identity = i)) := by
  have hfold : ipTable calls = (calls.map Call.entry).foldl
      (fun es re => absorb IpRouterEntry.identity IpRouterEntry.merge re es) [] := by
    rw [List.foldl_map, ipTable]
    congr 1
    funext es call
    exact addRouter_eq_absorb es call
  rw [hfold]
  exact filter_foldl_absorb merge_identity _ i

theorem exists_identity_ipTable_iff (calls : List Call) (i : AnyAddr × NetMask × Option ℕ) :
    (∃ e ∈ ipTable calls, e.identity = i) ↔ ∃ call ∈ calls, call.entry.identity = i := by
  have hfilter := filter_identity_ipTable calls i
  cases hclass : (calls.map Call.entry).filter (·.identity = i) with
  | nil =>
    rw [hclass, collapse, List.filter_eq_nil_iff] at hfilter
    rw [List.filter_eq_nil_iff] at hclass
    refine iff_of_false ?_ ?_
    · rintro ⟨e, he, hi⟩
      exact hfilter e he (decide_eq_true hi)
    · rintro ⟨call, hcall, hi⟩
      exact hclass _ (List.mem_map_of_mem hcall) (decide_eq_true hi)
  | cons a as =>
    rw [hclass, collapse] at hfilter
    have he := List.mem_filter.mp (hfilter ▸ List.mem_singleton_self _)
    have ha := List.mem_filter.mp (hclass ▸ List.mem_cons_self)
    obtain ⟨call, hcall, rfl⟩ := List.mem_map.mp ha.1
    exact iff_of_true ⟨_, he.1, of_decide_eq_true he.2⟩ ⟨call, hcall, of_decide_eq_true ha.2⟩

/-! ## Whether it is current -/

/-- All that was announced, oldest first. -/
def announced (calls : List Call) : List IpRouterEntry := calls.map Call.entry

/-- For each key that was announced there is one entry, and it is as announced last. -/
def Current (calls : List Call) : Prop :=
  ∀ k, (ipTable calls).filter (·.key = k) = ((announced calls).filter (·.key = k)).getLast?.toList

/-- The calls agree in what the functions do not look at or do not update. -/
structure Consistent (calls : List Call) : Prop where
  /-- An IPv6 prefix is announced for one device only. -/
  interface : ∀ a ∈ announced calls, ∀ b ∈ announced calls, a.networkAddress.af = .ipv6 →
    a.networkAddress = b.networkAddress → a.mask = b.mask → a.interface = b.interface
  /-- The last call for a key says what the first one said. -/
  data : ∀ k a b, ((announced calls).filter (·.key = k)).head? = some a →
    ((announced calls).filter (·.key = k)).getLast? = some b →
    a.localIp = b.localIp ∧ a.priority = b.priority ∧
      (a.networkAddress.af = .ipv6 → a.macLookup = b.macLookup)

theorem foldl_merge_ipv4 {a b : IpRouterEntry} {netmask : Vector Byte 4}
    (hmask : a.mask = .ipv4 netmask) {xs : List IpRouterEntry}
    (hlast : (a :: xs).getLast? = some b) :
    xs.foldl IpRouterEntry.merge a =
      { a with macLookup := b.macLookup, defaultGateway := b.defaultGateway } := by
  induction xs using List.reverseRecOn generalizing b with
  | nil =>
    obtain rfl := Option.some.inj hlast
    rfl
  | append_singleton xs x ih =>
    rw [← List.cons_append, List.getLast?_concat] at hlast
    obtain rfl := Option.some.inj hlast
    obtain ⟨c, hc⟩ : ∃ c, (a :: xs).getLast? = some c :=
      ⟨_, List.getLast?_eq_getLast_of_ne_nil (by simp)⟩
    rw [List.foldl_append, ih hc]
    simp [IpRouterEntry.merge, hmask]

theorem foldl_merge_ipv6 {a : IpRouterEntry} {prefixLength : ℤ}
    (hmask : a.mask = .ipv6 prefixLength) (xs : List IpRouterEntry) :
    xs.foldl IpRouterEntry.merge a = a := by
  induction xs using List.reverseRecOn with
  | nil => rfl
  | append_singleton xs x ih =>
    rw [List.foldl_append, ih]
    simp [IpRouterEntry.merge, hmask]

theorem foldl_merge_key (a : IpRouterEntry) (xs : List IpRouterEntry) :
    (xs.foldl IpRouterEntry.merge a).key = a.key := by
  induction xs using List.reverseRecOn with
  | nil => rfl
  | append_singleton xs x ih => rw [List.foldl_append, List.foldl_cons, List.foldl_nil, merge_key, ih]

theorem announced_gateway {calls : List Call} {a : IpRouterEntry} (ha : a ∈ announced calls)
    {prefixLength : ℤ} (hmask : a.mask = .ipv6 prefixLength) : a.defaultGateway = none := by
  obtain ⟨call, -, rfl⟩ := List.mem_map.mp ha
  cases call with
  | ipv4 => cases hmask
  | ipv6 => rfl

/-- When the entry that is made of the announcements for a key is the last of them. -/
theorem foldl_merge_eq_iff {calls : List Call} {a b : IpRouterEntry} {xs : List IpRouterEntry}
    (ha : a ∈ announced calls) (hb : b ∈ announced calls) (hkey : a.key = b.key)
    (hlast : (a :: xs).getLast? = some b) :
    xs.foldl IpRouterEntry.merge a = b ↔ a.localIp = b.localIp ∧ a.priority = b.priority ∧
      (a.networkAddress.af = .ipv6 → a.macLookup = b.macLookup) := by
  simp only [IpRouterEntry.key, Prod.mk.injEq] at hkey
  obtain ⟨hnetwork, hmask, hinterface⟩ := hkey
  cases hm : a.mask with
  | ipv4 netmask =>
    have haf : a.networkAddress.af ≠ .ipv6 := by
      rw [a.mask_family, hm]
      simp [NetMask.family]
    rw [foldl_merge_ipv4 hm hlast, IpRouterEntry.ext_iff]
    constructor
    · rintro ⟨hlocal, -, -, hpriority, -⟩
      exact ⟨hlocal, hpriority, fun h => absurd h haf⟩
    · rintro ⟨hlocal, hpriority, -⟩
      exact ⟨hlocal, hnetwork, hmask, hpriority, hinterface, rfl, rfl⟩
  | ipv6 prefixLength =>
    have haf : a.networkAddress.af = .ipv6 := by rw [a.mask_family, hm]; rfl
    have hgateway : a.defaultGateway = b.defaultGateway := by
      rw [announced_gateway ha hm, announced_gateway hb (hmask ▸ hm)]
    rw [foldl_merge_ipv6 hm xs, IpRouterEntry.ext_iff]
    constructor
    · rintro ⟨hlocal, -, -, hpriority, -, hlookup, -⟩
      exact ⟨hlocal, hpriority, fun _ => hlookup⟩
    · rintro ⟨hlocal, hpriority, hlookup⟩
      exact ⟨hlocal, hnetwork, hmask, hpriority, hinterface, hlookup haf, hgateway⟩

/-- The announcements for one identity are all for one key, unless an IPv6 prefix is announced for
two devices. -/
def OneKey (calls : List Call) : Prop :=
  ∀ a ∈ announced calls, ∀ b ∈ announced calls, a.identity = b.identity → a.key = b.key

theorem oneKey_iff (calls : List Call) :
    OneKey calls ↔ ∀ a ∈ announced calls, ∀ b ∈ announced calls, a.networkAddress.af = .ipv6 →
      a.networkAddress = b.networkAddress → a.mask = b.mask → a.interface = b.interface := by
  constructor
  · intro h a ha b hb haf hnetwork hmask
    have hidentity : a.identity = b.identity := by
      cases hm : b.mask with
      | ipv4 netmask =>
        rw [a.mask_family, hmask, hm] at haf
        cases haf
      | ipv6 prefixLength =>
        simp only [IpRouterEntry.identity, IpRouterEntry.key, hnetwork, hmask, hm, identityOf]
    exact congrArg (·.2.2) (h a ha b hb hidentity)
  · intro h a ha b hb hidentity
    simp only [IpRouterEntry.identity, IpRouterEntry.key] at hidentity
    cases hma : a.mask with
    | ipv4 netmask =>
      cases hmb : b.mask with
      | ipv4 netmask' =>
        rw [hma, hmb] at hidentity
        simp only [identityOf, Prod.mk.injEq, Option.some.injEq] at hidentity
        simp only [IpRouterEntry.key, hma, hmb, hidentity]
      | ipv6 prefixLength =>
        rw [hma, hmb] at hidentity
        simp [identityOf] at hidentity
    | ipv6 prefixLength =>
      cases hmb : b.mask with
      | ipv4 netmask' =>
        rw [hma, hmb] at hidentity
        simp [identityOf] at hidentity
      | ipv6 prefixLength' =>
        rw [hma, hmb] at hidentity
        simp only [identityOf, Prod.mk.injEq, and_true] at hidentity
        have haf : a.networkAddress.af = .ipv6 := by rw [a.mask_family, hma]; rfl
        have hmask : a.mask = b.mask := by rw [hma, hmb, hidentity.2]
        simp only [IpRouterEntry.key, h a ha b hb haf hidentity.1 hmask, hidentity.1, hmask]

theorem filter_key_ipTable (calls : List Call) (k : AnyAddr × NetMask × ℕ) :
    (ipTable calls).filter (·.key = k) = (collapse IpRouterEntry.merge
      ((announced calls).filter (·.identity = identityOf k))).filter (·.key = k) := by
  rw [announced, ← filter_identity_ipTable, List.filter_filter]
  refine List.filter_congr fun e _ => ?_
  by_cases hk : e.key = k
  · have hi : e.identity = identityOf k := congrArg identityOf hk
    simp [hk, hi]
  · simp [hk]

/-- With one key for each identity the table holds, for an announced key, what its announcements
make together. -/
theorem filter_key_of_oneKey {calls : List Call} (hone : OneKey calls)
    {k : AnyAddr × NetMask × ℕ} {a : IpRouterEntry} {xs : List IpRouterEntry}
    (h : (announced calls).filter (·.key = k) = a :: xs) :
    (ipTable calls).filter (·.key = k) = [xs.foldl IpRouterEntry.merge a] := by
  have hmem : a ∈ (announced calls).filter (·.key = k) := by rw [h]; exact List.mem_cons_self
  obtain ⟨ha, hak⟩ := List.mem_filter.mp hmem
  have hak := of_decide_eq_true hak
  have hsame : (announced calls).filter (·.identity = identityOf k) =
      (announced calls).filter (·.key = k) := by
    refine List.filter_congr fun e he => decide_eq_decide.mpr ⟨fun hi => ?_, congrArg identityOf⟩
    rw [← hak]
    refine hone e he a ha (hi.trans ?_)
    rw [← hak]
    rfl
  rw [filter_key_ipTable, hsame, h, collapse, List.filter_cons, List.filter_nil, foldl_merge_key,
    if_pos (decide_eq_true hak)]

/-- In a current table the one entry for an identity has the key of each announcement of it. -/
theorem Current.collapse_key {calls : List Call} (h : Current calls) {a : IpRouterEntry}
    (ha : a ∈ announced calls) :
    ∃ f, collapse IpRouterEntry.merge ((announced calls).filter (·.identity = a.identity)) = [f] ∧
      f.key = a.key := by
  have hmem : a ∈ (announced calls).filter (·.key = a.key) :=
    List.mem_filter.mpr ⟨ha, decide_eq_true rfl⟩
  have hcurrent := h a.key
  rw [List.getLast?_eq_getLast_of_ne_nil (List.ne_nil_of_mem hmem), filter_key_ipTable] at hcurrent
  change (collapse IpRouterEntry.merge ((announced calls).filter
    (·.identity = a.identity))).filter (·.key = a.key) = [_] at hcurrent
  cases hclass : (announced calls).filter (·.identity = a.identity) with
  | nil =>
    rw [hclass] at hcurrent
    cases hcurrent
  | cons y ys =>
    rw [hclass, collapse] at hcurrent
    have hf := List.mem_filter.mp (hcurrent ▸ List.mem_singleton_self _)
    have hlast := List.mem_singleton.mp hf.1
    exact ⟨_, rfl, hlast ▸ of_decide_eq_true hf.2⟩

theorem Current.oneKey {calls : List Call} (h : Current calls) : OneKey calls := by
  intro a ha b hb hidentity
  obtain ⟨f, hf, hfa⟩ := h.collapse_key ha
  obtain ⟨g, hg, hgb⟩ := h.collapse_key hb
  rw [← hidentity, hf] at hg
  obtain rfl := List.singleton_inj.mp hg
  rw [← hfa, hgb]

theorem current_iff_consistent (calls : List Call) : Current calls ↔ Consistent calls := by
  constructor
  · intro h
    refine ⟨(oneKey_iff calls).mp h.oneKey, fun k a b hhead hlast => ?_⟩
    obtain ⟨xs, hclass⟩ := List.head?_eq_some_iff.mp hhead
    have hcurrent := h k
    rw [filter_key_of_oneKey h.oneKey hclass, hlast] at hcurrent
    have ha := List.mem_filter.mp (List.mem_of_head? hhead)
    have hb := List.mem_filter.mp (List.mem_of_getLast? hlast)
    have hkey : a.key = b.key := (of_decide_eq_true ha.2).trans (of_decide_eq_true hb.2).symm
    exact (foldl_merge_eq_iff ha.1 hb.1 hkey (hclass ▸ hlast)).mp (List.singleton_inj.mp hcurrent)
  · intro h k
    have hone := (oneKey_iff calls).mpr h.interface
    cases hclass : (announced calls).filter (·.key = k) with
    | nil =>
      -- a key that was not announced: whatever the table holds was announced for another one
      rw [filter_key_ipTable, List.getLast?_nil, Option.toList_none]
      refine List.filter_eq_nil_iff.mpr fun f hf hfk => ?_
      cases hids : (announced calls).filter (·.identity = identityOf k) with
      | nil =>
        rw [hids] at hf
        cases hf
      | cons y ys =>
        rw [hids, collapse] at hf
        obtain rfl := List.mem_singleton.mp hf
        have hyk : y.key = k := (foldl_merge_key y ys).symm.trans (of_decide_eq_true hfk)
        have hy : y ∈ (announced calls).filter (·.identity = identityOf k) := by
          rw [hids]
          exact List.mem_cons_self
        have : y ∈ (announced calls).filter (·.key = k) :=
          List.mem_filter.mpr ⟨(List.mem_filter.mp hy).1, decide_eq_true hyk⟩
        rw [hclass] at this
        cases this
    | cons a xs =>
      obtain ⟨b, hlast⟩ : ∃ b, (a :: xs).getLast? = some b :=
        ⟨_, List.getLast?_eq_getLast_of_ne_nil (by simp)⟩
      have hhead : ((announced calls).filter (·.key = k)).head? = some a := by rw [hclass]; rfl
      have hlast' : ((announced calls).filter (·.key = k)).getLast? = some b := by rw [hclass, hlast]
      have ha := List.mem_filter.mp (List.mem_of_head? hhead)
      have hb := List.mem_filter.mp (List.mem_of_getLast? hlast')
      have hkey : a.key = b.key := (of_decide_eq_true ha.2).trans (of_decide_eq_true hb.2).symm
      rw [filter_key_of_oneKey hone hclass, hlast]
      exact List.singleton_inj.mpr
        ((foldl_merge_eq_iff ha.1 hb.1 hkey hlast).mpr (h.data k a b hhead hlast'))

namespace Sample

/-- The documentation prefix `2001:db8::`. -/
def prefix6 : AnyAddr where
  af := .ipv6
  addr := [0x20, 0x01, 0x0d, 0xb8, 0, 0, 0, 0, 0, 0, 0, 0, 0, 0, 0, 0]
  addr_size := by decide

/-- A network that is announced again with another priority. -/
def newPriority : List Call :=
  [.ipv4 (.ipv4 10 1 0 9) (.ipv4 10 1 0 0) rfl #v[255, 255, 0, 0] none 0 0 (some 0),
    .ipv4 (.ipv4 10 1 0 9) (.ipv4 10 1 0 0) rfl #v[255, 255, 0, 0] none 5 0 (some 0)]

/-- A prefix that is announced for a second device. -/
def secondDevice : List Call :=
  [.ipv6 prefix6 prefix6 rfl 64 0 0 none, .ipv6 prefix6 prefix6 rfl 64 0 1 none]

end Sample

/-- After these two pairs of calls the table has the old priority, and no entry for the second
device. -/
theorem not_current_reannounced : ¬Current Sample.newPriority ∧ ¬Current Sample.secondDevice := by
  constructor
  · intro h
    have hkey := h (.ipv4 10 1 0 0, .ipv4 #v[255, 255, 0, 0], 0)
    revert hkey
    decide +kernel
  · intro h
    have hkey := h (Sample.prefix6, .ipv6 64, 1)
    revert hkey
    decide +kernel

end MyIp.Router.Table
