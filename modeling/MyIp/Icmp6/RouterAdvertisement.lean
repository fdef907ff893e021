import MyIp.Router.Table

/-! # Router advertisements

`process_router_advertisement` (`icmp6.cpp`) looks for the first Prefix Information option and adds
its prefix to the routing table. It counts the length of an option in octets, where the protocol
counts units of 8, and takes any prefix length; `check_subnet` (`net.cpp`) then indexes the 16 bytes
of an address by it. -/

namespace MyIp.Icmp6
set_option autoImplicit false

open Bytes Router.Table

/-- What an `icmp6` adds a prefix with. -/
structure Node where
  myIp : AnyAddr
  interface : ℕ
  indp : Option ℕ

theorem prefix_size {work : List Byte} (h : 32 ≤ work.length) :
    ((work.drop 16).take 16).length = AddrFamily.ipv6.size := by
  rw [List.length_take, List.length_drop, AddrFamily.size]
  omega

/-- The call for the option that starts here. -/
def prefixCall (node : Node) (work : List Byte) (h : 32 ≤ work.length) : Call :=
  .ipv6 node.myIp ⟨.ipv6, (work.drop 16).take 16, prefix_size h⟩ rfl
    ((work.getD 2 0).toNat : ℤ) 0 node.interface node.indp

inductive Outcome
  | nothing
  | addRouterIpv6 (call : Call)
  /-- Bytes behind the packet are read. -/
  | outOfBounds
  /-- The pointer does not move any more. -/
  | hangs

/-- The loop, at `work_p`. Every turn moves on by one byte at least, so as many turns as there are
bytes are enough. -/
def walk (node : Node) : ℕ → List Byte → Outcome
  | 0, [] => .nothing
  | 0, _ :: _ => .hangs
  | _ + 1, [] => .nothing
  | turns + 1, type :: rest =>
    if type ≠ 3 then
      match rest.head? with
      | none => .outOfBounds
      | some len => if len = 0 then .hangs else walk node turns ((type :: rest).drop len.toNat)
    else if h : 32 ≤ (type :: rest).length then .addRouterIpv6 (prefixCall node (type :: rest) h)
    else .outOfBounds

/-- `process_router_advertisement` -/
def processRouterAdvertisement (node : Node) (payload : List Byte) : Outcome :=
  if payload.length ≤ 18 then .nothing
  else walk node payload.length (payload.drop 16)

/-! ## Well-formed advertisements -/

/-- An option, with its length in units of 8 octets. -/
structure Opt where
  type : Byte
  units : Byte
  units_pos : 0 < units.toNat
  body : List Byte
  body_length : body.length + 2 = 8 * units.toNat
  /-- Prefix Information has four units. -/
  prefix_units : type = 3 → units = 4

def Opt.bytes (o : Opt) : List Byte := o.type :: o.units :: o.body

structure Advertisement where
  header : List Byte
  header_length : header.length = 16
  options : List Opt

def Advertisement.bytes (ra : Advertisement) : List Byte :=
  ra.header ++ ra.options.flatMap Opt.bytes

theorem Opt.bytes_length (o : Opt) : o.bytes.length = 8 * o.units.toNat := by
  rw [← o.body_length]
  rfl

theorem Opt.prefix_length {o : Opt} (h : o.type = 3) : 32 ≤ o.bytes.length := by
  rw [o.bytes_length, o.prefix_units h]
  decide

def Opt.call (node : Node) (o : Opt) : Option Call :=
  if h : o.type = 3 then some (prefixCall node o.bytes (Opt.prefix_length h)) else none

/-- What an advertisement is to add: the prefix of its first Prefix Information option. -/
def Advertisement.call (node : Node) (ra : Advertisement) : Option Call :=
  ra.options.findSome? (Opt.call node)

def Outcome.adding : Option Call → Outcome
  | some call => .addRouterIpv6 call
  | none => .nothing

/-- There are no options, or Prefix Information is the first one. -/
def Advertisement.PrefixFirst (ra : Advertisement) : Prop :=
  ∀ o ∈ ra.options.head?, o.type = 3

theorem prefixCall_append (node : Node) {bs rest : List Byte} (h : 32 ≤ bs.length)
    (h' : 32 ≤ (bs ++ rest).length) :
    prefixCall node (bs ++ rest) h' = prefixCall node bs h := by
  have hpre : ((bs ++ rest).drop 16).take 16 = (bs.drop 16).take 16 := by
    rw [List.drop_append_of_le_length (by omega), List.take_append_of_le_length]
    rw [List.length_drop]
    omega
  have hlength : (bs ++ rest).getD 2 0 = bs.getD 2 0 := by
    rw [List.getD_eq_getElem?_getD, List.getD_eq_getElem?_getD, List.getElem?_append_left (by omega)]
  simp only [prefixCall, hpre, hlength]

/-- With the Prefix Information in front the length of no option is used. -/
theorem processRouterAdvertisement_of_prefixFirst (node : Node) {ra : Advertisement}
    (h : ra.PrefixFirst) :
    processRouterAdvertisement node ra.bytes = Outcome.adding (ra.call node) := by
  cases hoptions : ra.options with
  | nil =>
    have hlen : ra.bytes.length ≤ 18 := by
      simp [Advertisement.bytes, hoptions, ra.header_length]
    rw [processRouterAdvertisement, if_pos hlen, Advertisement.call, hoptions]
    rfl
  | cons o os =>
    have ho : o.type = 3 := h o (by rw [hoptions]; rfl)
    have hbytes : ra.bytes = ra.header ++ (o.bytes ++ os.flatMap Opt.bytes) := by
      rw [Advertisement.bytes, hoptions, List.flatMap_cons]
    have hlong := Opt.prefix_length ho
    have hlen : 18 < ra.bytes.length := by
      rw [hbytes, List.length_append, List.length_append, ra.header_length]
      omega
    have hcall : ra.call node = some (prefixCall node o.bytes hlong) := by
      rw [Advertisement.call, hoptions, List.findSome?_cons, Opt.call, dif_pos ho]
    have hdrop : ra.bytes.drop 16 = o.bytes ++ os.flatMap Opt.bytes := by
      rw [hbytes, ← ra.header_length, List.drop_left]
    rw [processRouterAdvertisement, if_neg (by omega), hcall, hdrop]
    obtain ⟨turns, hturns⟩ : ∃ turns, ra.bytes.length = turns + 1 :=
      ⟨_, (Nat.sub_add_cancel (by omega)).symm⟩
    rw [hturns]
    have hcons : o.bytes ++ os.flatMap Opt.bytes =
        o.type :: (o.units :: o.body ++ os.flatMap Opt.bytes) := rfl
    have hlong' : 32 ≤ (o.bytes ++ os.flatMap Opt.bytes).length := by
      rw [List.length_append]
      omega
    rw [hcons, walk, if_neg (not_not.mpr ho), dif_pos (hcons ▸ hlong')]
    exact congrArg Outcome.addRouterIpv6 (prefixCall_append node hlong hlong')

/-! ## The index of an address byte -/

/-- `std::equal` over `n` bytes; there is no answer if it gets behind an array. -/
def equalBytes : ℕ → List Byte → List Byte → Option Bool
  | 0, _, _ => some true
  | n + 1, x :: xs, y :: ys => if x = y then equalBytes n xs ys else some false
  | _ + 1, _, _ => none

/-- `check_subnet` for IPv6 with its accesses of the two arrays. -/
def checkSubnetIpv6 (addr network : AnyAddr) (cidr : ℕ) : Option Bool := do
  let nBytes := cidr / 8
  let same ← equalBytes nBytes addr.addr network.addr
  if !same then return false
  let nBits := cidr % 8
  if nBits = 0 then return true
  let mask : Byte := 0xff <<< (8 - nBits)
  let a ← addr.addr[nBytes]?
  let b ← network.addr[nBytes]?
  return a &&& mask == b &&& mask

theorem equalBytes_eq {n : ℕ} {xs ys : List Byte} (hxs : n ≤ xs.length) (hys : n ≤ ys.length) :
    equalBytes n xs ys = some (xs.take n == ys.take n) := by
  induction n generalizing xs ys with
  | zero => rfl
  | succ n ih =>
    obtain ⟨x, xs, rfl⟩ := List.exists_cons_of_length_pos (by omega : 0 < xs.length)
    obtain ⟨y, ys, rfl⟩ := List.exists_cons_of_length_pos (by omega : 0 < ys.length)
    rw [List.length_cons] at hxs hys
    rw [equalBytes, ih (by omega) (by omega), List.take_succ_cons, List.take_succ_cons,
      List.cons_beq_cons]
    by_cases hxy : x = y <;> simp [hxy]

/-- Up to 128 bits all accesses are to the 16 bytes, and the answer is that of `checkSubnet`. -/
theorem checkSubnetIpv6_eq {addr network : AnyAddr} (haddr : addr.af = .ipv6)
    (hnetwork : network.af = .ipv6) {cidr : ℕ} (h : cidr ≤ 128) :
    checkSubnetIpv6 addr network cidr = some (Router.checkSubnet addr network (.ipv6 cidr)) := by
  have ha := AnyAddr.length_ipv6 haddr
  have hn := AnyAddr.length_ipv6 hnetwork
  have hbytes : equalBytes (cidr / 8) addr.addr network.addr =
      some (addr.addr.take (cidr / 8) == network.addr.take (cidr / 8)) :=
    equalBytes_eq (by omega) (by omega)
  rw [checkSubnetIpv6, Router.checkSubnet, hbytes]
  by_cases hsame : addr.addr.take (cidr / 8) = network.addr.take (cidr / 8)
  · by_cases hbits : cidr % 8 = 0
    · simp [hsame, hbits]
    · have hi : cidr / 8 < 16 := by omega
      simp [hsame, hbits, List.getElem?_eq_getElem (ha ▸ hi), List.getElem?_eq_getElem (hn ▸ hi)]
  · simp [hsame]

/-! ## Runs -/

/-- What adds to the table while the program runs: a configured route, or an advertisement. -/
inductive Event
  | route (call : Call)
  | advertisement (node : Node) (ra : Advertisement)

/-- The table after an event, if its handling ends. -/
def handle (table : List IpRouterEntry) : Event → Option (List IpRouterEntry)
  | .route call => some (addRouter table call)
  | .advertisement node ra =>
    match processRouterAdvertisement node ra.bytes with
    | .nothing => some table
    | .addRouterIpv6 call => some (addRouter table call)
    | .outOfBounds => none
    | .hangs => none

def tableAfter (events : List Event) : Option (List IpRouterEntry) := events.foldlM handle []

/-- What an event is to add to the table. -/
def Event.call : Event → Option Call
  | .route call => some call
  | .advertisement node ra => ra.call node

/-- The event, if it is an advertisement, has no options or its prefix in front. -/
def Event.PrefixFirst : Event → Prop
  | .route _ => True
  | .advertisement _ ra => ra.PrefixFirst

/-- The event adds no IPv6 prefix that is longer than an address. -/
def Event.InRange (e : Event) : Prop :=
  ∀ call, e.call = some call → ∀ n, call.entry.mask = .ipv6 n → 0 ≤ n ∧ n ≤ 128

/-- Each event has added what it says, and `check_subnet` stays within the address bytes. -/
structure Proper (events : List Event) (table : List IpRouterEntry) : Prop where
  added : table = ipTable (events.filterMap Event.call)
  lengths : ∀ e ∈ table, ∀ n, e.mask = .ipv6 n → 0 ≤ n ∧ n ≤ 128
  inside : ∀ e ∈ table, ∀ n, e.mask = .ipv6 n → ∀ addr : AnyAddr, addr.af = .ipv6 →
    checkSubnetIpv6 addr e.networkAddress n.toNat =
      some (Router.checkSubnet addr e.networkAddress (.ipv6 n.toNat))

theorem handle_of_prefixFirst (table : List IpRouterEntry) {e : Event} (h : e.PrefixFirst) :
    handle table e = some (e.call.toList.foldl addRouter table) := by
  cases e with
  | route call => rfl
  | advertisement node ra =>
    rw [handle, processRouterAdvertisement_of_prefixFirst node h, Event.call]
    cases ra.call node <;> rfl

theorem tableAfter_of_prefixFirst {events : List Event} (h : ∀ e ∈ events, e.PrefixFirst) :
    tableAfter events = some (ipTable (events.filterMap Event.call)) := by
  rw [tableAfter, ipTable]
  generalize ([] : List IpRouterEntry) = table
  induction events generalizing table with
  | nil => rfl
  | cons e events ih =>
    have he := handle_of_prefixFirst table (h e List.mem_cons_self)
    have hrest := ih (fun e' he' => h e' (List.mem_cons_of_mem _ he'))
    rw [List.foldlM_cons, he]
    cases hcall : e.call with
    | none =>
      rw [List.filterMap_cons_none hcall]
      exact hrest table
    | some call =>
      rw [List.filterMap_cons_some hcall]
      exact hrest (addRouter table call)

theorem mask_ipTable_iff (calls : List Call) (mask : NetMask) :
    (∃ e ∈ ipTable calls, e.mask = mask) ↔ ∃ call ∈ calls, call.entry.mask = mask := by
  have hmask : ∀ e : IpRouterEntry, e.identity.2.1 = e.mask := by
    intro e
    rw [IpRouterEntry.identity, IpRouterEntry.key]
    cases e.mask <;> rfl
  constructor
  · rintro ⟨e, he, rfl⟩
    obtain ⟨call, hcall, hi⟩ := (exists_identity_ipTable_iff calls e.identity).mp ⟨e, he, rfl⟩
    exact ⟨call, hcall, by rw [← hmask, hi, hmask]⟩
  · rintro ⟨call, hcall, rfl⟩
    obtain ⟨e, he, hi⟩ :=
      (exists_identity_ipTable_iff calls call.entry.identity).mpr ⟨call, hcall, rfl⟩
    exact ⟨e, he, by rw [← hmask, hi, hmask]⟩

/-- In a run whose advertisements have their prefix in front the table is as it should be exactly
if no prefix that was added is longer than an address. -/
theorem proper_iff_inRange (events : List Event) (h : ∀ e ∈ events, e.PrefixFirst) :
    (∃ table, tableAfter events = some table ∧ Proper events table) ↔
      ∀ e ∈ events, e.InRange := by
  rw [tableAfter_of_prefixFirst h]
  constructor
  · rintro ⟨table, htable, hproper⟩ e he call hcall n hn
    obtain rfl := Option.some.inj htable
    have hmem : call ∈ events.filterMap Event.call := List.mem_filterMap.mpr ⟨e, he, hcall⟩
    obtain ⟨entry, hentry, hmask⟩ := (mask_ipTable_iff _ (.ipv6 n)).mpr ⟨call, hmem, hn⟩
    exact hproper.lengths entry hentry n hmask
  · intro hrange
    have hlengths : ∀ e ∈ ipTable (events.filterMap Event.call), ∀ n, e.mask = .ipv6 n →
        0 ≤ n ∧ n ≤ 128 := by
      intro entry hentry n hn
      obtain ⟨call, hcall, hmask⟩ := (mask_ipTable_iff _ (.ipv6 n)).mp ⟨entry, hentry, hn⟩
      obtain ⟨e, he, hecall⟩ := List.mem_filterMap.mp hcall
      exact hrange e he call hecall n hmask
    refine ⟨_, rfl, rfl, hlengths, fun entry hentry n hn addr haddr => ?_⟩
    have hfamily : entry.networkAddress.af = .ipv6 := by rw [entry.mask_family, hn]; rfl
    obtain ⟨hpos, hle⟩ := hlengths entry hentry n hn
    exact checkSubnetIpv6_eq haddr hfamily (by omega)

namespace Sample

def node : Node := ⟨Router.Table.Sample.prefix6, 0, none⟩

/-- Prefix Information for `2001:db8::` with a prefix length. -/
def prefixInformation (length : Byte) : Opt where
  type := 3
  units := 4
  units_pos := by decide
  body := length :: 0xc0 :: List.replicate 12 0 ++ Router.Table.Sample.prefix6.addr
  body_length := rfl
  prefix_units := fun _ => rfl

/-- The address of the router, `00:16:3e:00:00:01`. -/
def linkLayerAddress : Opt where
  type := 1
  units := 1
  units_pos := by decide
  body := [0x00, 0x16, 0x3e, 0x00, 0x00, 0x01]
  body_length := rfl
  prefix_units := by decide

def advertising (options : List Opt) : Event :=
  .advertisement node ⟨134 :: List.replicate 15 0, rfl, options⟩

end Sample

theorem proper_iff_inRange_prefixFirst :
    (∃ table, tableAfter [Sample.advertising [Sample.prefixInformation 64, Sample.linkLayerAddress]] =
        some table ∧
      Proper [Sample.advertising [Sample.prefixInformation 64, Sample.linkLayerAddress]] table) ↔
      ∀ e ∈ [Sample.advertising [Sample.prefixInformation 64, Sample.linkLayerAddress]],
        e.InRange := by
  refine proper_iff_inRange _ fun e he => ?_
  obtain rfl := List.mem_singleton.mp he
  intro o ho
  obtain rfl := Option.some.inj ho
  rfl

/-- With another option in front the handling does not end, and a prefix length of 200 gets into the
table. -/
theorem not_proper :
    (¬∃ table, tableAfter [Sample.advertising [Sample.linkLayerAddress, Sample.prefixInformation 64]] =
        some table ∧
      Proper [Sample.advertising [Sample.linkLayerAddress, Sample.prefixInformation 64]] table) ∧
    ¬∃ table, tableAfter [Sample.advertising [Sample.prefixInformation 200]] = some table ∧
      Proper [Sample.advertising [Sample.prefixInformation 200]] table := by
  constructor
  · rintro ⟨table, htable, -⟩
    have hhangs : tableAfter [Sample.advertising
        [Sample.linkLayerAddress, Sample.prefixInformation 64]] = none := by decide +kernel
    rw [hhangs] at htable
    cases htable
  · rintro ⟨table, htable, hproper⟩
    have hadded : (tableAfter [Sample.advertising [Sample.prefixInformation 200]]).map
        (List.map IpRouterEntry.mask) = some [.ipv6 200] := by decide +kernel
    rw [htable, Option.map_some, Option.some.injEq] at hadded
    obtain ⟨entry, hentry, hmask⟩ := List.mem_map.mp (hadded ▸ List.mem_singleton_self _)
    exact absurd (hproper.lengths entry hentry 200 hmask).2 (by decide)

end MyIp.Icmp6
