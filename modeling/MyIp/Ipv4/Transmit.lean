import MyIp.Ipv4.Demux
import MyIp.Net.InternetChecksum
import MyIp.Net.Layers

/-! # Sending IPv4

`ipv4::transmit_packet` (`ipv4.cpp`) puts a header of five words before the payload. A host that
receives the packet, with or without padding behind it, reads from the header what was put in, and a
host that forwards it hands the same bytes to its router. -/

namespace MyIp.Ipv4
set_option autoImplicit false

open Bytes Net Phys

/-- The first 20 bytes of `out`, with a checksum. -/
def outHeader (call : IpTransmit) (checksum : BitVec 16) : List Byte :=
  [0x45, (call.headerTemplate.map fun template => field template 1).getD 0] ++
    be16Bytes (BitVec.ofNat 16 (20 + call.payload.length)) ++
    [0, 0, 0x40, 0, 64, call.protocol] ++ be16Bytes checksum ++ call.srcIp.addr ++ call.dstIp.addr

/-- `out`: the checksum is computed with a zero field. -/
def outPacket (call : IpTransmit) : List Byte :=
  outHeader call (ipChecksum (netWords (outHeader call 0))) ++ call.payload

/-- `ipv4::transmit_packet`: what is queued by `route_packet`, if the assertions hold. An address
that is not set has the family of a MAC address, so that the branch for it (`override_ip`) is never
reached. -/
def transmitPacket (call : IpTransmit) : Option Router.QueuedPacket :=
  if call.dstIp.af = .ipv4 ∧ call.srcIp.af = .ipv4 then
    Router.routePacket call.dstMac 0x0800 (some call.dstIp) none (some call.srcIp) (outPacket call)
  else none

/-! ## What the header says -/

theorem eq_ipv4 {a : AnyAddr} (h : a.af = .ipv4) : ∃ w x y z, a = .ipv4 w x y z := by
  obtain ⟨af, addr, hsize⟩ := a
  obtain rfl : af = .ipv4 := h
  obtain _ | ⟨w, _ | ⟨x, _ | ⟨y, _ | ⟨z, _ | ⟨u, rest⟩⟩⟩⟩⟩ := addr
  · cases hsize
  · cases hsize
  · cases hsize
  · cases hsize
  · exact ⟨w, x, y, z, rfl⟩
  · simp [AddrFamily.size] at hsize

/-- Both addresses are IPv4 addresses. -/
def IsIpv4 (call : IpTransmit) : Prop := call.dstIp.af = .ipv4 ∧ call.srcIp.af = .ipv4

section Header
variable {call : IpTransmit}

theorem outHeader_length (h : IsIpv4 call) (checksum : BitVec 16) :
    (outHeader call checksum).length = 20 := by
  simp [outHeader, call.dstIp.addr_size, call.srcIp.addr_size, h.1, h.2, AddrFamily.size,
    be16Bytes_length]

theorem outPacket_length (h : IsIpv4 call) :
    (outPacket call).length = 20 + call.payload.length := by
  rw [outPacket, List.length_append, outHeader_length h]

/-- The header as a list of its bytes. -/
structure Reads (call : IpTransmit) (p : List Byte) : Prop where
  version : field p 0 = 0x45
  size : ipSize p = 20 + call.payload.length
  ttl : ttl p = 64
  protocol : field p 9 = call.protocol
  src : address p 12 = call.srcIp
  dst : address p 16 = call.dstIp
  header : p.take 20 = outHeader call (ipChecksum (netWords (outHeader call 0)))
  payload : (p.take (20 + call.payload.length)).drop 20 = call.payload

theorem outPacket_reads (h : IsIpv4 call) (fits : 20 + call.payload.length < 65536)
    (padding : List Byte) : Reads call (outPacket call ++ padding) := by
  have hhead := outHeader_length h (ipChecksum (netWords (outHeader call 0)))
  have hwhole : (outPacket call ++ padding).take (20 + call.payload.length) = outPacket call :=
    List.take_left' (outPacket_length h)
  have htake : (outPacket call ++ padding).take 20 =
      outHeader call (ipChecksum (netWords (outHeader call 0))) := by
    rw [outPacket, List.append_assoc]
    exact List.take_left' hhead
  have hdrop : (outPacket call).drop 20 = call.payload := List.drop_left' hhead
  obtain ⟨dstMac, dstIp, srcIp, protocol, payload, template⟩ := call
  obtain ⟨hdst, hsrc⟩ := h
  obtain ⟨d0, d1, d2, d3, rfl⟩ := eq_ipv4 hdst
  obtain ⟨s0, s1, s2, s3, rfl⟩ := eq_ipv4 hsrc
  refine ⟨rfl, ?_, rfl, rfl, rfl, rfl, htake, ?_⟩
  · refine (congrArg BitVec.toNat (be16_be16Bytes (BitVec.ofNat 16 (20 + payload.length)))).trans ?_
    rw [BitVec.toNat_ofNat, Nat.mod_eq_of_lt fits]
  · exact (congrArg (List.drop 20) hwhole).trans hdrop

theorem Reads.headerSize {p : List Byte} (h : Reads call p) : headerSize p = 20 := by
  rw [Ipv4.headerSize, h.version]
  rfl

/-- The words of the header add up to zero in ones' complement. -/
theorem outHeader_checksum (h : IsIpv4 call) :
    ipChecksum (netWords (outHeader call (ipChecksum (netWords (outHeader call 0))))) = 0 := by
  have hstored : ∀ (c : BitVec 16) (q : List Byte),
      netWords (be16Bytes c ++ q) = c :: netWords q := fun c q =>
    congrArg (· :: netWords q) (be16_be16Bytes c)
  have hwords : ∀ checksum, netWords (outHeader call checksum) =
      netWords ((outHeader call 0).take 10) ++
        checksum :: netWords (call.srcIp.addr ++ call.dstIp.addr) := by
    intro checksum
    rw [outHeader, List.append_assoc, List.append_assoc, netWords_append (by
      simp [be16Bytes_length]), hstored]
    rfl
  rw [hwords, hwords]
  apply ipChecksum_store
  rw [List.length_append, List.length_cons, netWords_length, netWords_length, List.length_append,
    call.srcIp.addr_size, call.dstIp.addr_size, h.1, h.2, List.length_take]
  simp only [AddrFamily.size]
  omega

/-- None of the checks refuses the packet, at its destination or at a host that forwards it. -/
theorem Reads.not_refused {p : List Byte} (h : Reads call p) {node : Node}
    (long : 20 + call.payload.length ≤ p.length) (known : node.protMap call.protocol = true)
    (way : call.dstIp = node.myip ∨ node.forward = true ∧ field p 16 &&& 0xf0 ≠ 224) :
    ¬Refused node p := by
  intro hrefused
  cases hrefused with
  | tooSmall hc => omega
  | version hc =>
    rw [h.version] at hc
    exact hc rfl
  | ttlExceeded hc =>
    rw [h.ttl] at hc
    omega
  | size hc =>
    rw [h.size] at hc
    omega
  | headerSize hc =>
    rw [h.size, h.headerSize] at hc
    omega
  | unknownProtocol hc =>
    rw [h.protocol, known] at hc
    cases hc
  | notForMe hc =>
    obtain ⟨hother, hno⟩ := hc
    rw [h.dst] at hother
    exact way.elim hother hno

end Header

theorem transmitPacket_some {call : IpTransmit} {q : Router.QueuedPacket}
    (h : transmitPacket call = some q) :
    IsIpv4 call ∧ q.etherType = 0x0800 ∧ q.data = outPacket call := by
  rw [transmitPacket] at h
  split at h
  · next hip => exact ⟨hip, Router.routePacket_etherType h, Router.routePacket_data h⟩
  · cases h

/-- What is forwarded goes on as IPv4. -/
theorem receive_forwarded_etherType {node : Node} {pkt : Packet} {q : Router.QueuedPacket}
    (h : receive node pkt = .forwarded (some q)) : q.etherType = 0x0800 := by
  by_cases hrefused : Refused node pkt.data
  · obtain ⟨reason, hreason⟩ := receive_refused hrefused
    rw [hreason] at h
    cases h
  · rw [receive_accepted hrefused, accepted] at h
    split at h
    · exact Router.routePacket_etherType (Outcome.forwarded.inj h)
    · cases h

end MyIp.Ipv4
