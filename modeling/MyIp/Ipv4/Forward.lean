import MyIp.Net.Checksum
import MyIp.Phys.Device
import MyIp.Router

/-! # Receiving and forwarding IPv4

`ipv4::operator()` (`ipv4.cpp`): a received packet is checked, delivered to a transport layer,
handed to the router or discarded. What is handed to the router is the packet as it came, with the
time to live that it came with. -/

namespace MyIp.Ipv4
set_option autoImplicit false

open Bytes Phys

structure Node where
  myip : AnyAddr
  forward : Bool
  /-- The protocols in `prot_map`. -/
  protMap : Byte → Bool

inductive Discard
  | tooSmall | version | ttlExceeded | size | headerSize | unknownProtocol | notForMe
  deriving DecidableEq

inductive Outcome
  | discarded (reason : Discard)
  /-- Queued by `route_packet`, or nothing if one of its assertions fails. -/
  | forwarded (packet : Option Router.QueuedPacket)
  | delivered (protocol : Byte) (header payload : List Byte)

/-- `payload_header[i]` -/
def field (p : List Byte) (i : ℕ) : Byte := p.getD i 0

def address (p : List Byte) (i : ℕ) : AnyAddr :=
  .ipv4 (field p i) (field p (i + 1)) (field p (i + 2)) (field p (i + 3))

def ttl (p : List Byte) : ℕ := (field p 8).toNat

def headerSize (p : List Byte) : ℕ := (field p 0 &&& 15).toNat * 4

def ipSize (p : List Byte) : ℕ := (be16 (field p 2) (field p 3)).toNat

/-- `ipv4::operator()` for one packet. -/
def receive (node : Node) (pkt : Packet) : Outcome :=
  let p := pkt.data
  if p.length < 20 then .discarded .tooSmall
  else if field p 0 >>> 4 ≠ 4 then .discarded .version
  else
    let pktDst := address p 16
    let pktSrc := address p 12
    if ttl p ≤ 1 then .discarded .ttlExceeded
    else if p.length < ipSize p then .discarded .size
    else if ipSize p < headerSize p then .discarded .headerSize
    else if !node.protMap (field p 9) then .discarded .unknownProtocol
    else if pktDst ≠ node.myip then
      if node.forward && field p 16 &&& 0xf0 ≠ 224 then
        .forwarded (Router.routePacket none 0x0800 (some pktDst) (some pkt.srcAddr) (some pktSrc)
          (p.take (ipSize p)))
      else .discarded .notForMe
    else .delivered (field p 9) (p.take (headerSize p))
      ((p.take (ipSize p)).drop (headerSize p))

def ValidChecksum (p : List Byte) : Prop := ipChecksum (netWords (p.take (headerSize p))) = 0

/-- What forwarding is to do to a packet: a smaller time to live, the checksum still right, and no
other change. -/
structure Forwarded (received sent : List Byte) : Prop where
  ttl : ttl sent < ttl received
  checksum : ValidChecksum received → ValidChecksum sent
  length : sent.length = ipSize received
  rest : ∀ i, i < ipSize received → i ≠ 8 → i ≠ 10 → i ≠ 11 → field sent i = field received i

/-- A packet that is forwarded passes the checks before. -/
theorem passed_of_ite {c : Prop} [Decidable c] {reason : Discard} {o : Outcome}
    {packet : Option Router.QueuedPacket}
    (h : (if c then .discarded reason else o) = .forwarded packet) :
    ¬c ∧ o = .forwarded packet := by
  split at h
  · cases h
  · exact ⟨‹_›, h⟩

/-- What is handed to the router is the received IP packet. -/
theorem receive_forwarded {node : Node} {pkt : Packet} {packet : Router.QueuedPacket}
    (h : receive node pkt = .forwarded (some packet)) :
    packet.data = pkt.data.take (ipSize pkt.data) ∧ ipSize pkt.data ≤ pkt.data.length ∧
      headerSize pkt.data ≤ ipSize pkt.data := by
  rw [receive] at h
  obtain ⟨-, h⟩ := passed_of_ite h
  obtain ⟨-, h⟩ := passed_of_ite h
  obtain ⟨-, h⟩ := passed_of_ite h
  obtain ⟨hsize, h⟩ := passed_of_ite h
  obtain ⟨hheader, h⟩ := passed_of_ite h
  obtain ⟨-, h⟩ := passed_of_ite h
  refine ⟨?_, not_lt.mp hsize, not_lt.mp hheader⟩
  split at h
  · split at h
    · exact Router.routePacket_data (Outcome.forwarded.inj h)
    · cases h
  · cases h

theorem field_take {p : List Byte} {n i : ℕ} (h : i < n) : field (p.take n) i = field p i := by
  rw [field, field, List.getD_eq_getElem?_getD, List.getD_eq_getElem?_getD,
    List.getElem?_take_of_lt h]

/-- No packet is forwarded as it should be: its time to live is the received one. The checksum and
all the rest are right. -/
theorem forwarded_never (node : Node) (pkt : Packet) (packet : Router.QueuedPacket)
    (hheader : 20 ≤ headerSize pkt.data) (h : receive node pkt = .forwarded (some packet)) :
    ¬Forwarded pkt.data packet.data ∧ ttl packet.data = ttl pkt.data ∧
      (ValidChecksum pkt.data → ValidChecksum packet.data) ∧
      packet.data.length = ipSize pkt.data ∧
      ∀ i, i < ipSize pkt.data → field packet.data i = field pkt.data i := by
  obtain ⟨hdata, hsize, hle⟩ := receive_forwarded h
  have hsame : ∀ i, i < ipSize pkt.data → field packet.data i = field pkt.data i := by
    intro i hi
    rw [hdata, field_take hi]
  have httl : ttl packet.data = ttl pkt.data := by rw [ttl, hsame 8 (by omega), ttl]
  have hheaderSize : headerSize packet.data = headerSize pkt.data := by
    rw [headerSize, hsame 0 (by omega), headerSize]
  refine ⟨fun hf => ?_, httl, fun hvalid => ?_, ?_, hsame⟩
  · have hless := hf.ttl
    omega
  · rw [ValidChecksum, hheaderSize, hdata, List.take_take, min_eq_left hle]
    exact hvalid
  · rw [hdata, List.length_take]
    omega

/-! ## A loop -/

/-- The packet after it was received and forwarded by each of `nodes`, as long as they do. -/
def hops : List (Node × AnyAddr × AnyAddr) → List Byte → Option (List Byte)
  | [], p => some p
  | (node, src, dst) :: nodes, p =>
    match receive node ⟨src, dst, p⟩ with
    | .forwarded (some packet) => hops nodes packet.data
    | _ => none

/-- A node that forwards a packet without padding goes on to do so whenever it comes back. -/
theorem hops_forever {node : Node} {src dst : AnyAddr} {p : List Byte}
    {packet : Router.QueuedPacket} (h : receive node ⟨src, dst, p⟩ = .forwarded (some packet))
    (hsize : p.length = ipSize p) (n : ℕ) :
    hops (List.replicate n (node, src, dst)) p = some p := by
  have hdata : packet.data = p := by
    rw [(receive_forwarded h).1, ← hsize, List.take_length]
  induction n with
  | zero => rfl
  | succ n ih =>
    rw [List.replicate_succ, hops, h]
    exact (congrArg (hops (List.replicate n (node, src, dst))) hdata).trans ih

namespace Sample

/-- A router for ICMP, at 10.0.0.1. -/
def node : Node := ⟨.ipv4 10 0 0 1, true, (· == 1)⟩

/-- An ICMP packet from 10.0.0.9 to 10.0.0.3 with a time to live of 64. -/
def packet : Packet where
  srcAddr := ⟨.mac, [2, 0, 0, 0, 7, 1], rfl⟩
  dstAddr := ⟨.mac, [2, 0, 0, 0, 7, 2], rfl⟩
  data := [0x45, 0, 0, 20, 0, 1, 0, 0, 64, 1, 0x66, 0xdd, 10, 0, 0, 9, 10, 0, 0, 3]

def queued : Router.QueuedPacket :=
  ⟨none, some packet.srcAddr, 0x0800, some (.ipv4 10 0 0 3), some (.ipv4 10 0 0 9), packet.data⟩

end Sample

theorem forwarded_never_icmp :
    ¬Forwarded Sample.packet.data Sample.queued.data ∧
      ttl Sample.queued.data = ttl Sample.packet.data ∧
      (ValidChecksum Sample.packet.data → ValidChecksum Sample.queued.data) ∧
      Sample.queued.data.length = ipSize Sample.packet.data ∧
      ∀ i, i < ipSize Sample.packet.data →
        field Sample.queued.data i = field Sample.packet.data i :=
  forwarded_never Sample.node Sample.packet Sample.queued (by decide) rfl

/-- A forwarded packet with a right checksum leaves with the time to live it came with. -/
theorem ttl_not_decremented :
    receive Sample.node Sample.packet = .forwarded (some Sample.queued) ∧
      20 ≤ headerSize Sample.packet.data ∧ ValidChecksum Sample.packet.data ∧
      ¬Forwarded Sample.packet.data Sample.queued.data := by
  refine ⟨rfl, by decide, by unfold ValidChecksum; decide +kernel, fun h => ?_⟩
  exact absurd h.ttl (by decide)

end MyIp.Ipv4
