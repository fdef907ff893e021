import MyIp.Foundations.Argmax
import MyIp.Foundations.Bits
import MyIp.Icmp6.RouterAdvertisement

/-! # Looking up a route

What `find_route` (`router.cpp`) finds. The IPv6 form of `check_subnet` (`net.cpp`) compares bytes
and then a part of one more byte, which is a comparison of the first bits (`bits_eq_iff`); the loop
keeps the first of the matching entries with the highest priority, which is `List.argmax`. With
prefix lengths of at most 128 nothing behind the 16 address bytes is accessed. -/

namespace MyIp.Router
set_option autoImplicit false

open Bytes

/-- `ip` is an address of the network: the masked bytes of it, or its first bits, are those of the
network address. -/
def InNetwork (ip network : AnyAddr) : Mask → Prop
  | .ipv4 netmask => ∀ i < 4, ip.addr.getD i 0 &&& netmask.getD i 0 = network.addr.getD i 0
  | .ipv6 prefixLength => ∀ k < prefixLength, bitAt ip.addr k = bitAt network.addr k

/-- The entry is one for `ip`, by a device for addresses such as `mac` if there is one. -/
structure Entry.Matches (net : Net) (mac : Option AnyAddr) (ip : AnyAddr) (entry : Entry) :
    Prop where
  family : entry.networkAddress.af = ip.af
  device : ∀ m, mac = some m → (net.interfaces entry.interface).physType = m.af
  network : InNetwork ip entry.networkAddress entry.mask

/-- No IPv6 prefix of the table is longer than an address. -/
def Net.PrefixLengths (net : Net) : Prop := ∀ e ∈ net.ipTable, ∀ n, e.mask = .ipv6 n → n ≤ 128

/-- The two `check_subnet`; there is no answer if an access gets behind the 16 bytes. -/
def checkSubnetAccess (addr network : AnyAddr) : Mask → Option Bool
  | .ipv4 netmask => some (checkSubnet addr network (.ipv4 netmask))
  | .ipv6 prefixLength => Icmp6.checkSubnetIpv6 addr network prefixLength

/-- One turn of the loop in `find_route`, with its accesses. -/
def findRouteTurn (net : Net) (mac : Option AnyAddr) (ip : AnyAddr) (re : Option Entry)
    (entry : Entry) : Option (Option Entry) :=
  if entry.networkAddress.af ≠ ip.af then some re
  else if mac.any (fun m => (net.interfaces entry.interface).physType ≠ m.af) then some re
  else do
    let inside ← checkSubnetAccess ip entry.networkAddress entry.mask
    return if inside && re.all (fun r => r.priority < entry.priority) then some entry else re

def findRouteAccess (net : Net) (mac : Option AnyAddr) (ip : AnyAddr) : Option (Option Entry) :=
  net.ipTable.foldlM (findRouteTurn net mac ip) none

/-! ## One entry -/

theorem mask_eq_leadingOnes {n : ℕ} (h : n ≤ 8) : (0xff <<< (8 - n) : Byte) = leadingOnes n := by
  interval_cases n <;> rfl

theorem checkSubnet_ipv6_iff {ip network : AnyAddr} {n : ℕ} (hip : ip.af = .ipv6)
    (hnetwork : network.af = .ipv6) (h : n ≤ 128) :
    checkSubnet ip network (.ipv6 n) = true ↔ InNetwork ip network (.ipv6 n) := by
  have hlen := AnyAddr.length_ipv6 hip
  have hlen' := AnyAddr.length_ipv6 hnetwork
  have hfits : n ≤ 8 * ip.addr.length := by omega
  have hfits' : n ≤ 8 * network.addr.length := by omega
  have hbits := bits_eq_iff hfits hfits'
  rw [InNetwork, ← hbits, checkSubnet, mask_eq_leadingOnes (by omega), Bool.and_eq_true,
    Bool.or_eq_true, beq_iff_eq, beq_iff_eq, beq_iff_eq]
  apply and_congr_right
  intro _
  constructor
  · rintro (hzero | hmasked)
    · rw [hzero]
      exact (and_leadingOnes_eq_iff _ _ (by omega)).mpr fun j hj => absurd hj (by omega)
    · exact hmasked
  · exact .inr

theorem checkSubnet_ipv4_iff (ip network : AnyAddr) (netmask : List Byte) :
    checkSubnet ip network (.ipv4 netmask) = true ↔ InNetwork ip network (.ipv4 netmask) := by
  rw [InNetwork, checkSubnet, List.all_eq_true]
  simp only [List.mem_range, beq_iff_eq]

theorem leadsTo_iff {net : Net} (hlengths : net.PrefixLengths) (mac : Option AnyAddr) (ip : AnyAddr)
    {entry : Entry} (hentry : entry ∈ net.ipTable) :
    entry.leadsTo net mac ip = true ↔ entry.Matches net mac ip := by
  have hsubnet : entry.networkAddress.af = ip.af →
      (checkSubnet ip entry.networkAddress entry.mask = true ↔
        InNetwork ip entry.networkAddress entry.mask) := by
    intro hfamily
    cases hmask : entry.mask with
    | ipv4 netmask => exact checkSubnet_ipv4_iff ip _ netmask
    | ipv6 n =>
      have hnetwork : entry.networkAddress.af = .ipv6 := by rw [entry.mask_family, hmask]; rfl
      exact checkSubnet_ipv6_iff (hfamily ▸ hnetwork) hnetwork (hlengths entry hentry n hmask)
  have hdevice : (mac.all fun m => (net.interfaces entry.interface).physType == m.af) = true ↔
      ∀ m, mac = some m → (net.interfaces entry.interface).physType = m.af := by
    cases mac with
    | none => simp
    | some m => simp
  rw [Entry.leadsTo, Bool.and_eq_true, Bool.and_eq_true, beq_iff_eq, hdevice]
  constructor
  · rintro ⟨⟨hfamily, hmac⟩, hinside⟩
    exact ⟨hfamily, hmac, (hsubnet hfamily).mp hinside⟩
  · rintro ⟨hfamily, hmac, hinside⟩
    exact ⟨⟨hfamily, hmac⟩, (hsubnet hfamily).mpr hinside⟩

/-- With the prefix lengths in range a turn accesses only address bytes. -/
theorem findRouteTurn_eq {net : Net} (hlengths : net.PrefixLengths) (mac : Option AnyAddr)
    (ip : AnyAddr) (re : Option Entry) {entry : Entry} (hentry : entry ∈ net.ipTable) :
    findRouteTurn net mac ip re entry =
      some (if entry.leadsTo net mac ip && re.all (fun r => r.priority < entry.priority)
        then some entry else re) := by
  have haccess : entry.networkAddress.af = ip.af →
      checkSubnetAccess ip entry.networkAddress entry.mask =
        some (checkSubnet ip entry.networkAddress entry.mask) := by
    intro hfamily
    cases hmask : entry.mask with
    | ipv4 netmask => rfl
    | ipv6 n =>
      have hnetwork : entry.networkAddress.af = .ipv6 := by rw [entry.mask_family, hmask]; rfl
      exact Icmp6.checkSubnetIpv6_eq (hfamily ▸ hnetwork) hnetwork (hlengths entry hentry n hmask)
  rw [findRouteTurn, Entry.leadsTo]
  by_cases hfamily : entry.networkAddress.af = ip.af
  · rw [if_neg (not_not.mpr hfamily), haccess hfamily]
    cases mac with
    | none => simp [hfamily]
    | some m =>
      by_cases hmac : (net.interfaces entry.interface).physType = m.af <;> simp [hfamily, hmac]
  · simp [hfamily]

/-! ## The table -/

theorem findRouteAccess_eq {net : Net} (hlengths : net.PrefixLengths) (mac : Option AnyAddr)
    (ip : AnyAddr) : findRouteAccess net mac ip = some (findRoute net mac ip) := by
  have hfold : ∀ (entries : List Entry) (re : Option Entry), (∀ e ∈ entries, e ∈ net.ipTable) →
      entries.foldlM (findRouteTurn net mac ip) re =
        some (entries.foldl (fun re entry =>
          if entry.leadsTo net mac ip && re.all (fun r => r.priority < entry.priority)
          then some entry else re) re) := by
    intro entries
    induction entries with
    | nil => exact fun _ _ => rfl
    | cons entry entries ih =>
      intro re hmem
      have hturn := findRouteTurn_eq hlengths mac ip re (hmem entry List.mem_cons_self)
      rw [List.foldlM_cons, hturn, List.foldl_cons]
      exact ih _ fun e he => hmem e (List.mem_cons_of_mem _ he)
  exact hfold net.ipTable none fun _ he => he

theorem findRoute_eq_argmax (net : Net) (mac : Option AnyAddr) (ip : AnyAddr) :
    findRoute net mac ip =
      (net.ipTable.filter fun e => e.leadsTo net mac ip).argmax Entry.priority := by
  rw [findRoute, List.argmax, List.foldl_filter]
  congr 1
  funext re entry
  cases entry.leadsTo net mac ip with
  | false => rfl
  | true =>
    cases re with
    | none => rfl
    | some r => by_cases hlt : r.priority < entry.priority <;> simp [List.argAux, hlt]

/-- A lookup finds nothing exactly if nothing matches, and otherwise the first of the matching
entries with the highest priority; all that it accesses of an address are its bytes. -/
theorem findRoute_spec (net : Net) (mac : Option AnyAddr) (ip : AnyAddr)
    (hlengths : net.PrefixLengths) :
    findRouteAccess net mac ip = some (findRoute net mac ip) ∧
      (findRoute net mac ip = none ↔ ∀ e ∈ net.ipTable, ¬e.Matches net mac ip) ∧
      ∀ e, findRoute net mac ip = some e ↔
        Argmax.FirstLargest (Entry.Matches net mac ip) Entry.priority net.ipTable e := by
  classical
  have hfilter : (net.ipTable.filter fun e => e.leadsTo net mac ip) =
      net.ipTable.filter fun e => e.Matches net mac ip := by
    apply List.filter_congr
    intro e he
    rw [Bool.eq_iff_iff, decide_eq_true_eq]
    exact leadsTo_iff hlengths mac ip he
  refine ⟨findRouteAccess_eq hlengths mac ip, ?_, fun e => ?_⟩
  · rw [findRoute_eq_argmax, hfilter]
    exact Argmax.argmax_filter_eq_none_iff
  · rw [findRoute_eq_argmax, hfilter]
    exact Argmax.argmax_filter_eq_some_iff

namespace Sample

theorem prefix33_family : Table.Sample.prefix6.af = (Mask.ipv6 33).family := rfl

/-- A prefix of 33 bits on the device 1: `2001:db8::`. -/
def prefix33 (priority : ℤ) : Entry where
  networkAddress := Table.Sample.prefix6
  mask := .ipv6 33
  mask_family := prefix33_family
  priority := priority
  interface := 1
  defaultGateway := none

/-- A table of both families, with two entries of the same priority. -/
def mixedNet : Net :=
  { net with ipTable := [prefix33 1, network, prefix33 5, { prefix33 5 with interface := 2 }] }

/-- `2001:db8:7fff::` is in the prefix, `2001:db8:8000::` is not. -/
def inside (high : Byte) : AnyAddr where
  af := .ipv6
  addr := [0x20, 0x01, 0x0d, 0xb8, high, 0xff, 0, 0, 0, 0, 0, 0, 0, 0, 0, 0]
  addr_size := rfl

theorem mixedNet_prefixLengths : mixedNet.PrefixLengths := by
  intro e he n hn
  simp only [mixedNet, List.mem_cons, List.not_mem_nil, or_false] at he
  obtain rfl | rfl | rfl | rfl := he
  · exact (Mask.ipv6.inj hn).symm ▸ by decide
  · cases hn
  · exact (Mask.ipv6.inj hn).symm ▸ by decide
  · exact (Mask.ipv6.inj hn).symm ▸ by decide

end Sample

theorem findRoute_spec_mixedNet :
    findRouteAccess Sample.mixedNet none (Sample.inside 0x7f) =
        some (findRoute Sample.mixedNet none (Sample.inside 0x7f)) ∧
      (findRoute Sample.mixedNet none (Sample.inside 0x7f) = none ↔
        ∀ e ∈ Sample.mixedNet.ipTable,
          ¬e.Matches Sample.mixedNet none (Sample.inside 0x7f)) ∧
      ∀ e, findRoute Sample.mixedNet none (Sample.inside 0x7f) = some e ↔
        Argmax.FirstLargest (Entry.Matches Sample.mixedNet none (Sample.inside 0x7f))
          Entry.priority Sample.mixedNet.ipTable e :=
  findRoute_spec Sample.mixedNet none (Sample.inside 0x7f) Sample.mixedNet_prefixLengths

example : (findRoute Sample.mixedNet none (Sample.inside 0x7f)).map Entry.interface = some 1 ∧
    (findRoute Sample.mixedNet none (Sample.inside 0x7f)).map Entry.priority = some 5 ∧
    (findRoute Sample.mixedNet none (Sample.inside 0x80)).map Entry.priority = none := by
  decide +kernel

end MyIp.Router
