import MyIp.Ipv6.Receive
import MyIp.Net.Layers
import MyIp.Phys.Tap

/-! # Sending IPv6

`ipv6::transmit_packet` (`ipv6.cpp`) puts a fixed header with a random flow label before the
payload. A TAP device pads the frame, and a receiver looks for extension headers in as many bytes as the
padding has: a payload of three bytes and more arrives as it was sent
(`payload_reaches_transport6`). -/

namespace MyIp.Ipv6
set_option autoImplicit false

open Bytes Net Phys

/-- The first 40 bytes of `out`. -/
def outHeader (call : IpTransmit) (flowLabel : BitVec 32) : List Byte :=
  [(0x60 : Byte), (flowLabel >>> 16).setWidth 8 &&& (0x0f : Byte), (flowLabel >>> 8).setWidth 8,
    flowLabel.setWidth 8] ++ be16Bytes (BitVec.ofNat 16 call.payload.length) ++
    [call.protocol, 255] ++ call.srcIp.addr ++ call.dstIp.addr

def outPacket (call : IpTransmit) (flowLabel : BitVec 32) : List Byte :=
  outHeader call flowLabel ++ call.payload

/-- Both addresses have 16 bytes, as `any_addr::get` asserts. -/
def IsIpv6 (call : IpTransmit) : Prop := call.srcIp.af = .ipv6 ∧ call.dstIp.af = .ipv6

instance (call : IpTransmit) : Decidable (IsIpv6 call) :=
  inferInstanceAs (Decidable (call.srcIp.af = .ipv6 ∧ call.dstIp.af = .ipv6))

/-- `ipv6::transmit_packet`: what is queued by `route_packet`. -/
def transmitPacket (call : IpTransmit) (flowLabel : BitVec 32) : Option Router.QueuedPacket :=
  if IsIpv6 call then
    Router.routePacket call.dstMac 0x86dd (some call.dstIp) none (some call.srcIp)
      (outPacket call flowLabel)
  else none

/-! ## What a receiver reads -/

section Header
variable {call : IpTransmit} {flowLabel : BitVec 32}

theorem outHeader_length (h : IsIpv6 call) : (outHeader call flowLabel).length = 40 := by
  simp [outHeader, call.dstIp.addr_size, call.srcIp.addr_size, h.1, h.2, AddrFamily.size,
    be16Bytes_length]

theorem outPacket_length (h : IsIpv6 call) :
    (outPacket call flowLabel).length = 40 + call.payload.length := by
  rw [outPacket, List.length_append, outHeader_length h]

/-- What stands at the place of an address. -/
theorem address_eq {a : AnyAddr} (h : a.af = .ipv6) {p before rest : List Byte} {i : ℕ}
    (hp : p = before ++ (a.addr ++ rest)) (hi : before.length = i) : address p i = a := by
  obtain ⟨af, addr, hsize⟩ := a
  obtain rfl : af = .ipv6 := h
  have haddr : addr.length = 16 := hsize
  have hread : readAt p i 16 = addr := by
    have hlen : i + 16 ≤ p.length := by
      rw [hp, List.length_append, List.length_append, hi, haddr]
      omega
    rw [readAt_inside hlen, hp, List.drop_left' hi, List.take_left' haddr]
  simp only [address, hread]

theorem outPacket_src (h : IsIpv6 call) (padding : List Byte) :
    address (outPacket call flowLabel ++ padding) 8 = call.srcIp := by
  have hparts : outPacket call flowLabel ++ padding = (outHeader call flowLabel).take 8 ++
      (call.srcIp.addr ++ (call.dstIp.addr ++ (call.payload ++ padding))) := by
    simp only [outPacket, outHeader, List.append_assoc]
    rfl
  exact address_eq h.1 hparts rfl

theorem outPacket_dst (h : IsIpv6 call) (padding : List Byte) :
    address (outPacket call flowLabel ++ padding) 24 = call.dstIp := by
  have hsrc : call.srcIp.addr.length = 16 := by rw [call.srcIp.addr_size, h.1, AddrFamily.size]
  have hparts : outPacket call flowLabel ++ padding =
      (outHeader call flowLabel).take 8 ++ call.srcIp.addr ++
        (call.dstIp.addr ++ (call.payload ++ padding)) := by
    simp only [outPacket, outHeader, List.append_assoc]
    rfl
  apply address_eq h.2 hparts
  · rw [List.length_append, hsrc]
    rfl

/-- The first bytes of the destination, where `pkt_dst[0]` and `pkt_dst[1]` find them. -/
theorem outPacket_multicast (h : IsIpv6 call) (padding : List Byte)
    (h0 : call.dstIp.addr.getD 0 0 = 0xff) (h1 : call.dstIp.addr.getD 1 0 = 0x02) :
    linkLocalScopeMulticast (outPacket call flowLabel ++ padding) = true := by
  have hlen : (outPacket call flowLabel).length = _ := outPacket_length h
  have haddr : call.dstIp.addr = ((outPacket call flowLabel ++ padding).drop 24).take 16 := by
    rw [← readAt_inside (by rw [List.length_append]; omega), ← outPacket_dst h padding]
    rfl
  have hat : ∀ i < 16, field (outPacket call flowLabel ++ padding) (24 + i) =
      call.dstIp.addr.getD i 0 := by
    intro i hi
    rw [haddr, field, List.getD_eq_getElem?_getD, List.getD_eq_getElem?_getD,
      List.getElem?_take_of_lt hi, List.getElem?_drop]
  rw [linkLocalScopeMulticast, show field _ 24 = _ from hat 0 (by decide),
    show field _ 25 = _ from hat 1 (by decide), h0, h1]
  rfl

theorem outPacket_ipSize (h : IsIpv6 call) (fits : call.payload.length < 65536)
    (padding : List Byte) :
    ipSize (outPacket call flowLabel ++ padding) = call.payload.length := by
  have hsize : be16 (field (outPacket call flowLabel ++ padding) 4)
      (field (outPacket call flowLabel ++ padding) 5) = BitVec.ofNat 16 call.payload.length :=
    be16_be16Bytes _
  rw [ipSize, hsize, BitVec.toNat_ofNat, Nat.mod_eq_of_lt fits, List.length_append,
    outPacket_length h]
  exact if_neg (by omega)

/-- With fewer than eight bytes of padding and payload length together before the next 8 bytes, no
header is looked for. -/
theorem demux_outPacket (h : IsIpv6 call) (fits : call.payload.length < 65536) {node : Node}
    (known : node.protMap call.protocol = true) {padding : List Byte}
    (few : padding.length < 8) :
    demux node (outPacket call flowLabel ++ padding) =
      .delivered call.protocol (outHeader call flowLabel) call.payload := by
  have hlen : (outPacket call flowLabel).length = _ := outPacket_length h
  have hhead : (outHeader call flowLabel).length = 40 := outHeader_length h
  obtain ⟨protocol, size, hheaders, hdemux⟩ := demux_eq node (outPacket call flowLabel ++ padding)
  have hroom : (outPacket call flowLabel ++ padding).length -
      ipSize (outPacket call flowLabel ++ padding) - 40 < 8 := by
    rw [outPacket_ipSize h fits, List.length_append, hlen]
    omega
  have hprotocol : field (outPacket call flowLabel ++ padding) 6 = call.protocol := rfl
  rw [hprotocol] at hheaders
  obtain ⟨rfl, rfl⟩ := hheaders.unique (.done hroom)
  rw [hdemux, deliver_eq_delivered_iff, outPacket_ipSize h fits, List.length_append, hlen]
  refine ⟨known, by omega, rfl, ?_, ?_⟩
  · rw [outPacket, List.append_assoc]
    exact List.take_left' hhead
  · rw [outPacket, List.append_assoc, List.drop_left' hhead]
    exact List.take_left' rfl

end Header

/-! ## From one host to its neighbour -/

/-- A host when a frame comes to one of its TAP devices, `interface`; `layer` is the number of its
IPv6 layer. -/
structure Station where
  env : Bpq.Env
  layer : ℕ
  attached : env.protMap 0x86dd = some layer
  interface : ℕ
  node : Node
  net : Router.Net

/-- The packet that the IPv6 layer takes from its queue. -/
def Station.arrive (st : Station) (frame : List Byte) : Option Arrival :=
  match Tap.receive st.env frame with
  | .ok (_, [.queueIncomingPacket layer p]) =>
    if layer = st.layer then some ⟨p, false, st.interface⟩ else none
  | _ => none

/-- What the transport layer of a protocol gets. -/
def Station.deliver (st : Station) (frame : List Byte) : Option (Byte × IpPacket) :=
  match st.arrive frame with
  | some pkt =>
    match (receive st.node pkt).outcome with
    | .delivered protocol header payload =>
      some (protocol, ⟨pkt.srcAddr, address pkt.data 8, address pkt.data 24, payload, header⟩)
    | _ => none
  | none => none

/-- The frame of a neighbour. -/
def transit (sender : Station) (call : IpTransmit) (flowLabel : BitVec 32) :
    Option (List Byte) := do
  let q ← transmitPacket call flowLabel
  Tap.emit sender.net q

/-- The address of the host, or a multicast address of the link. -/
def TakenBy (st : Station) (ip : AnyAddr) : Prop :=
  ip = st.node.myip ∨ ip.addr.getD 0 0 = 0xff ∧ ip.addr.getD 1 0 = 0x02

theorem transit_some {sender : Station} {call : IpTransmit} {flowLabel : BitVec 32}
    {frame : List Byte} (h : transit sender call flowLabel = some frame) :
    IsIpv6 call ∧ ∃ dstMac srcMac,
      Tap.transmitPacket dstMac srcMac 0x86dd (outPacket call flowLabel) = some frame := by
  obtain ⟨q, hq, hemit⟩ := Option.bind_eq_some_iff.mp h
  obtain ⟨dstMac, srcMac, hframe⟩ := Tap.emit_some hemit
  rw [transmitPacket] at hq
  split at hq
  · next hip =>
    rw [Router.routePacket_etherType hq, Router.routePacket_data hq] at hframe
    exact ⟨hip, dstMac, srcMac, hframe⟩
  · cases hq

/-- Whatever the flow label is: the transport layer gets the payload, the protocol and the two
addresses that were sent. Shorter payloads are taken for extension headers. -/
theorem payload_reaches_transport6 {sender receiver : Station} {call : IpTransmit}
    {flowLabel : BitVec 32} {frame : List Byte} (long : 3 ≤ call.payload.length)
    (short : 54 + call.payload.length ≤ 65536) (sent : transit sender call flowLabel = some frame)
    (mine : TakenBy receiver call.dstIp)
    (known : receiver.node.protMap call.protocol = true) :
    ∃ mac header, receiver.deliver frame =
        some (call.protocol, ⟨mac, call.srcIp, call.dstIp, call.payload, header⟩) ∧
      header.length = 40 := by
  obtain ⟨hip, dstMac, srcMac, hframe⟩ := transit_some sent
  have hlen : (outPacket call flowLabel).length = _ := outPacket_length hip
  have harrive : receiver.arrive frame = some ⟨⟨srcMac, dstMac, outPacket call flowLabel ++
      List.replicate (50 - (outPacket call flowLabel).length) 0⟩, false, receiver.interface⟩ := by
    rw [Station.arrive, Tap.receive_transmitPacket hframe (by omega) (by decide) receiver.attached]
    exact if_pos rfl
  have hpadding :
      (List.replicate (50 - (outPacket call flowLabel).length) (0 : Byte)).length < 8 := by
    rw [List.length_replicate]
    omega
  have hrefused : ¬Refused receiver.node (outPacket call flowLabel ++
      List.replicate (50 - (outPacket call flowLabel).length) 0) := by
    intro hrefused
    cases hrefused with
    | tooSmall hc =>
      rw [List.length_append] at hc
      omega
    | version hc =>
      have hversion : field (outPacket call flowLabel ++
        List.replicate (50 - (outPacket call flowLabel).length) 0) 0 = 0x60 := rfl
      rw [hversion] at hc
      exact hc rfl
    | notForMe hc =>
      obtain ⟨hother, hmulticast⟩ := hc
      rw [outPacket_dst hip] at hother
      obtain hown | ⟨h0, h1⟩ := mine
      · exact hother hown
      · rw [outPacket_multicast hip _ h0 h1] at hmulticast
        cases hmulticast
  have hdemux := @demux_outPacket call flowLabel hip (by omega) receiver.node known _ hpadding
  have haccepted :=
    @receive_accepted receiver.node ⟨⟨srcMac, dstMac, _⟩, false, receiver.interface⟩ hrefused
  refine ⟨srcMac, outHeader call flowLabel, ?_, outHeader_length hip⟩
  simp only [Station.deliver, harrive, haccepted, hdemux, outPacket_src hip, outPacket_dst hip]

namespace Sample

def neighbour : AnyAddr :=
  ⟨.ipv6, [0x20, 1, 0x0d, 0xb8, 0, 0, 0, 0, 0, 0, 0, 0, 0, 0, 0x66, 9], rfl⟩

def network : Router.Entry where
  networkAddress := ⟨.ipv6, [0x20, 1, 0x0d, 0xb8, 0, 0, 0, 0, 0, 0, 0, 0, 0, 0, 0, 0], rfl⟩
  mask := .ipv6 64
  mask_family := rfl
  priority := 0
  interface := 0
  defaultGateway := none

/-- A host in `2001:db8::/64`, where everyone answers. -/
def station (own : Node) : Station where
  env := ⟨fun etherType => if etherType = 0x86dd then some 6 else none, none, fun _ => true⟩
  layer := 6
  attached := rfl
  interface := 0
  node := own
  net :=
    { ipTable := [network]
      interfaces := fun _ => ⟨.mac, some ⟨.mac, [2, 0, 0, 0, 0x66, 1], rfl⟩⟩
      resolve := fun entry _ => some (some entry.interface, ⟨.mac, [2, 0, 0, 0, 0x66, 2], rfl⟩) }

/-- Eight bytes for UDP. -/
def call : IpTransmit := ⟨none, node.myip, neighbour, 0x11, [0, 7, 0, 7, 0, 8, 0, 0], none⟩

/-- The frame, with two bytes of padding. -/
def sent (flowLabel : BitVec 32) : List Byte :=
  [2, 0, 0, 0, 0x66, 2, 2, 0, 0, 0, 0x66, 1, 0x86, 0xdd] ++ outPacket call flowLabel ++ [0, 0]

end Sample

theorem payload_reaches_transport6_padded :
    transit (Sample.station ⟨Sample.neighbour, fun _ => true⟩) Sample.call 0x12345678 =
        some (Sample.sent 0x12345678) ∧
      ∃ mac header, (Sample.station Sample.node).deliver (Sample.sent 0x12345678) =
          some (0x11, ⟨mac, Sample.neighbour, Sample.node.myip, [0, 7, 0, 7, 0, 8, 0, 0], header⟩) ∧
        header.length = 40 := by
  have hsent : transit (Sample.station ⟨Sample.neighbour, fun _ => true⟩) Sample.call 0x12345678 =
      some (Sample.sent 0x12345678) := by decide +kernel
  exact ⟨hsent, payload_reaches_transport6 (by decide) (by decide)
    hsent (.inl rfl) (by decide)⟩

end MyIp.Ipv6
