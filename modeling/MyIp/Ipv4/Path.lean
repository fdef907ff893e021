import MyIp.Ipv4.Transmit
import MyIp.Phys.Tap

/-! # From one host to another

A host sends with `ipv4::transmit_packet`, its router picks the next hop, a TAP device makes a frame
of it; any number of hosts forward it; the last one gives it to a transport layer. Whatever the
routing tables and the MAC caches are on the way, what arrives is what was sent, without the padding
that a device added (`payload_reaches_transport`). -/

namespace MyIp.Ipv4
set_option autoImplicit false

open Bytes Net Phys

/-- A host when a frame comes to one of its devices: `layer` is the number of its IPv4 layer, `net`
are the routes and the MAC addresses known at that time. All devices are TAP devices. -/
structure Station where
  env : Bpq.Env
  layer : ℕ
  attached : env.protMap 0x0800 = some layer
  node : Node
  net : Router.Net

/-- The packet that the IPv4 layer takes from its queue. -/
def Station.arrive (st : Station) (frame : List Byte) : Option Packet :=
  match Tap.receive st.env frame with
  | .ok (_, [.queueIncomingPacket layer p]) => if layer = st.layer then some p else none
  | _ => none

/-- The frame that leaves the host for one that came to it. -/
def Station.forward (st : Station) (frame : List Byte) : Option (List Byte) :=
  match st.arrive frame with
  | some p =>
    match receive st.node p with
    | .forwarded (some q) => Tap.emit st.net q
    | _ => none
  | none => none

/-- What the transport layer of a protocol gets. -/
def Station.deliver (st : Station) (frame : List Byte) : Option (Byte × IpPacket) :=
  match st.arrive frame with
  | some p =>
    match receive st.node p with
    | .delivered protocol header payload =>
      some (protocol, ⟨p.srcAddr, address p.data 12, address p.data 16, payload, header⟩)
    | _ => none
  | none => none

/-- One host after the other. -/
def carry : List Station → List Byte → Option (List Byte)
  | [], frame => some frame
  | st :: stations, frame => (st.forward frame).bind (carry stations)

/-- The frame that comes to the last host, from `ipv4::transmit_packet` on. -/
def transit (sender : Station) (stations : List Station) (call : IpTransmit) :
    Option (List Byte) := do
  let q ← transmitPacket call
  let frame ← Tap.emit sender.net q
  carry stations frame

/-! ## What the frames carry -/

/-- A frame with the packet of `call`, between any two devices. -/
def Carries (call : IpTransmit) (frame : List Byte) : Prop :=
  ∃ dstMac srcMac, Tap.transmitPacket dstMac srcMac 0x0800 (outPacket call) = some frame

/-- A packet that fits into the buffer of a device. -/
structure Fits (call : IpTransmit) : Prop where
  ip : IsIpv4 call
  short : 34 + call.payload.length ≤ 65536

section Path
variable {call : IpTransmit} {st : Station} {frame frame' : List Byte}

theorem emit_carries {q : Router.QueuedPacket} (htype : q.etherType = 0x0800)
    (hdata : q.data = outPacket call) (h : Tap.emit st.net q = some frame) :
    Carries call frame := by
  obtain ⟨dstMac, srcMac, hframe⟩ := Tap.emit_some h
  rw [htype, hdata] at hframe
  exact ⟨dstMac, srcMac, hframe⟩

theorem arrive_carries (fits : Fits call) (h : Carries call frame) :
    ∃ dstMac srcMac, st.arrive frame = some ⟨srcMac, dstMac, outPacket call ++
      List.replicate (50 - (outPacket call).length) 0⟩ := by
  obtain ⟨dstMac, srcMac, h⟩ := h
  have hlen := outPacket_length fits.ip
  have hshort := fits.short
  refine ⟨dstMac, srcMac, ?_⟩
  rw [Station.arrive, Tap.receive_transmitPacket h (by omega) (by decide) st.attached]
  exact if_pos rfl

/-- A host that forwards the packet puts the same packet into a frame of its own. -/
theorem forward_carries (fits : Fits call) (h : Carries call frame)
    (forwarded : st.forward frame = some frame') : Carries call frame' := by
  obtain ⟨dstMac, srcMac, harrive⟩ := @arrive_carries call st frame fits h
  have hreads := outPacket_reads fits.ip (by have := fits.short; omega)
    (List.replicate (50 - (outPacket call).length) 0)
  simp only [Station.forward, harrive] at forwarded
  split at forwarded
  · next q hq =>
    obtain ⟨hdata, -, -⟩ := receive_forwarded hq
    refine emit_carries (receive_forwarded_etherType hq) ?_ forwarded
    rw [hdata, hreads.size]
    exact List.take_left' (outPacket_length fits.ip)
  · cases forwarded

theorem carry_carries (fits : Fits call) (stations : List Station) (h : Carries call frame)
    (carried : carry stations frame = some frame') : Carries call frame' := by
  induction stations generalizing frame with
  | nil =>
    obtain rfl := Option.some.inj carried
    exact h
  | cons st stations ih =>
    obtain ⟨next, hnext, hrest⟩ := Option.bind_eq_some_iff.mp carried
    exact ih (forward_carries fits h hnext) hrest

/-- At the destination the header and the payload come apart again. -/
theorem deliver_carries (fits : Fits call) (h : Carries call frame)
    (mine : st.node.myip = call.dstIp) (known : st.node.protMap call.protocol = true) :
    ∃ mac, st.deliver frame = some (call.protocol, ⟨mac, call.srcIp, call.dstIp, call.payload,
      outHeader call (ipChecksum (netWords (outHeader call 0)))⟩) := by
  obtain ⟨dstMac, srcMac, harrive⟩ := @arrive_carries call st frame fits h
  have hreads := outPacket_reads fits.ip (by have := fits.short; omega)
    (List.replicate (50 - (outPacket call).length) 0)
  have hlong : 20 + call.payload.length ≤ (outPacket call ++
      List.replicate (50 - (outPacket call).length) (0 : Byte)).length := by
    rw [List.length_append, outPacket_length fits.ip]
    exact Nat.le_add_right _ _
  have haccepted := @receive_accepted st.node
    ⟨srcMac, dstMac, outPacket call ++ List.replicate (50 - (outPacket call).length) 0⟩
    (hreads.not_refused hlong known (.inl mine.symm))
  refine ⟨srcMac, ?_⟩
  simp only [Station.deliver, harrive, haccepted, accepted]
  rw [if_neg (by rw [hreads.dst, mine]; exact not_not.mpr rfl)]
  simp only [hreads.src, hreads.dst, hreads.protocol, hreads.headerSize, hreads.size, hreads.header,
    hreads.payload]

theorem transit_carries {sender : Station} {stations : List Station}
    (short : 34 + call.payload.length ≤ 65536) (sent : transit sender stations call = some frame) :
    Fits call ∧ Carries call frame := by
  obtain ⟨q, hsent, sent⟩ := Option.bind_eq_some_iff.mp sent
  obtain ⟨first, hemitted, hcarried⟩ := Option.bind_eq_some_iff.mp sent
  obtain ⟨hip, htype, hdata⟩ := transmitPacket_some hsent
  have fits : Fits call := ⟨hip, short⟩
  exact ⟨fits, carry_carries fits stations (emit_carries htype hdata hemitted) hcarried⟩

/-- Whatever hosts are on the way, the transport layer of the destination gets the payload, the
protocol and the two addresses that were sent, and a header that verifies. -/
theorem payload_reaches_transport {sender receiver : Station} {stations : List Station}
    (short : 34 + call.payload.length ≤ 65536) (sent : transit sender stations call = some frame)
    (mine : receiver.node.myip = call.dstIp)
    (known : receiver.node.protMap call.protocol = true) :
    ∃ mac header, receiver.deliver frame =
        some (call.protocol, ⟨mac, call.srcIp, call.dstIp, call.payload, header⟩) ∧
      header.length = 20 ∧ ipChecksum (netWords header) = 0 := by
  obtain ⟨fits, hcarries⟩ := transit_carries short sent
  obtain ⟨mac, hdeliver⟩ := deliver_carries fits hcarries mine known
  exact ⟨mac, _, hdeliver, outHeader_length fits.ip _, outHeader_checksum fits.ip⟩

end Path

namespace Sample

def mac (a b : Byte) : AnyAddr := ⟨.mac, [2, 0, 0, 0, a, b], rfl⟩

def network (third : Byte) : Router.Entry where
  networkAddress := .ipv4 10 0 third 0
  mask := .ipv4 [255, 255, 255, 0]
  mask_family := rfl
  priority := 0
  interface := third.toNat
  defaultGateway := none

/-- Routes to 10.0.0.0/24 and 10.0.1.0/24, where everyone answers: `host` tells the MACs apart. -/
def routes (host : Byte) : Router.Net where
  ipTable := [network 0, network 1]
  interfaces := fun _ => ⟨.mac, some (mac host 1)⟩
  resolve := fun entry _ => some (some entry.interface, mac host 2)

/-- A host for ICMP, TCP and UDP with this address. -/
def station (host : Byte) (myip : AnyAddr) (forward : Bool) : Station where
  env := ⟨fun etherType => if etherType = 0x0800 then some 4 else none, none, fun _ => true⟩
  layer := 4
  attached := rfl
  node := ⟨myip, forward, fun protocol => protocol == 0x01 || protocol == 0x06 || protocol == 0x11⟩
  net := routes host

def sender : Station := station 1 (.ipv4 10 0 0 9) false

def receiver : Station := station 2 (.ipv4 10 0 1 3) false

/-- Two hosts in between. -/
def between : List Station := [station 3 (.ipv4 10 0 0 1) true, station 4 (.ipv4 10 0 1 1) true]

/-- Three bytes of a protocol with a type of service. -/
def call : IpTransmit := ⟨none, .ipv4 10 0 1 3, .ipv4 10 0 0 9, 0x11, [1, 2, 3], some [0x45, 0x10]⟩

/-- The frame that leaves a host. -/
def frame (host : Byte) (call : IpTransmit) : List Byte :=
  Tap.pad ((mac host 2).addr ++ (mac host 1).addr ++ [8, 0] ++ outPacket call)

end Sample

/-- By way of two hosts; the frames are padded to 64 bytes. -/
theorem payload_reaches_transport_routed :
    transit Sample.sender Sample.between Sample.call = some (Sample.frame 4 Sample.call) ∧
      (Sample.frame 4 Sample.call).length = 64 ∧
      ∃ mac header, Sample.receiver.deliver (Sample.frame 4 Sample.call) =
          some (0x11, ⟨mac, .ipv4 10 0 0 9, .ipv4 10 0 1 3, [1, 2, 3], header⟩) ∧
        header.length = 20 ∧ ipChecksum (netWords header) = 0 := by
  have hsent : transit Sample.sender Sample.between Sample.call =
      some (Sample.frame 4 Sample.call) := by decide +kernel
  exact ⟨hsent, by decide +kernel, payload_reaches_transport (by decide) hsent rfl (by decide)⟩

end MyIp.Ipv4
