import MyIp.Icmp4.Echo
import MyIp.Ipv4.Path

/-! # A ping and its reply

An echo request from one host to another, by way of any hosts, and the reply of `icmp4::operator()`
on its way back: the sender gets the data, the identifier and the sequence number that it sent, with
its own type of service (`ping_returns`). -/

namespace MyIp.Icmp4
set_option autoImplicit false

open Bytes Net Ipv4

/-- The request goes back where it came from, with the header as a template. -/
theorem receive_echoRequest_eq {pkt : IpPacket} (h : IsEchoRequest pkt) (replyTs : BitVec 32) :
    receive true replyTs pkt = .ok (some ⟨none, pkt.srcAddr, pkt.dstAddr, 0x01,
      withChecksum (writeAt pkt.data 0 [0]), some (writeAt pkt.header 4
        (be16Bytes (be16 (pkt.header.getD 4 0) (pkt.header.getD 5 0) + 1)))⟩) := by
  have hheader := h.header
  rw [receive, if_neg (not_lt.mpr h.size), replyTo, if_pos h.type, headerCopy,
    if_neg (by omega)]
  rfl

section Ping
variable {dstIp srcIp : AnyAddr} {request frame : List Byte} {template : Option (List Byte)}
  {sender receiver : Station} {stations : List Station}

/-- The type of service in a header. -/
def typeOfService (header : List Byte) : Byte := field header 1

/-- An echo request with an even number of bytes is answered, and the answer is what comes to the
ICMP layer of the sender, whatever hosts are on the two ways. -/
theorem ping_returns (replyTs : BitVec 32) (size : 8 ≤ request.length)
    (even : request.length % 2 = 0) (type : request.getD 0 0 = 8)
    (short : 34 + request.length ≤ 65536)
    (sent : transit sender stations ⟨none, dstIp, srcIp, 0x01, request, template⟩ = some frame)
    (mine : receiver.node.myip = dstIp) (known : receiver.node.protMap 0x01 = true) :
    ∃ pkt reply, receiver.deliver frame = some (0x01, pkt) ∧
      receive true replyTs pkt = .ok (some reply) ∧ IsEchoReply request reply.payload ∧
      ∀ {back : Station} {returning : List Station} {frame' : List Byte},
        back.node.myip = srcIp → back.node.protMap 0x01 = true →
        transit receiver returning reply = some frame' →
        ∃ mac header, back.deliver frame' =
            some (0x01, ⟨mac, dstIp, srcIp, reply.payload, header⟩) ∧
          typeOfService header = (template.map typeOfService).getD 0 := by
  obtain ⟨fits, hcarries⟩ := transit_carries short sent
  obtain ⟨mac, hdeliver⟩ := deliver_carries fits hcarries mine known
  have hheader := outHeader_length fits.ip (ipChecksum (netWords (outHeader
    ⟨none, dstIp, srcIp, 0x01, request, template⟩ 0)))
  have hrequest : IsEchoRequest ⟨mac, srcIp, dstIp, request, outHeader
      ⟨none, dstIp, srcIp, 0x01, request, template⟩ (ipChecksum (netWords (outHeader
        ⟨none, dstIp, srcIp, 0x01, request, template⟩ 0)))⟩ :=
    ⟨size, type, hheader.ge⟩
  have hreceive := receive_echoRequest_eq hrequest replyTs
  have hreply : IsEchoReply request (withChecksum (writeAt request 0 [0])) := by
    apply (isEchoReply_iff size).mpr
    apply (verifies_withChecksum_iff size).mpr
    exact (sumsUp_iff size (by omega)).mpr (.inl even)
  refine ⟨_, _, hdeliver, hreceive, hreply, ?_⟩
  intro back returning frame' own takes hback
  have hlen := hreply.length
  obtain ⟨fits', hcarries'⟩ := transit_carries (by simp only [hlen]; exact short) hback
  obtain ⟨mac', hdeliver'⟩ := deliver_carries fits' hcarries' own takes
  exact ⟨mac', _, hdeliver', rfl⟩

end Ping

namespace Sample

/-- Two bytes of data, and a type of service. -/
def pingRequest : IpTransmit where
  dstMac := none
  dstIp := .ipv4 10 0 1 3
  srcIp := .ipv4 10 0 0 9
  protocol := 0x01
  payload := [8, 0, 0xf6, 0xf5, 0, 1, 0, 7, 1, 2]
  headerTemplate := some [0x45, 0x10]

/-- What comes back. -/
def pingReply : IpTransmit where
  dstMac := none
  dstIp := .ipv4 10 0 0 9
  srcIp := .ipv4 10 0 1 3
  protocol := 0x01
  payload := [0, 0, 0xfe, 0xf5, 0, 1, 0, 7, 1, 2]
  headerTemplate := some (writeAt (outPacket pingRequest) 4 [0, 1] |>.take 20)

end Sample

/-- By way of two hosts, and back the other way. -/
theorem ping_returns_routed :
    transit Ipv4.Sample.sender Ipv4.Sample.between Sample.pingRequest =
        some (Ipv4.Sample.frame 4 Sample.pingRequest) ∧
      transit Ipv4.Sample.receiver Ipv4.Sample.between.reverse Sample.pingReply =
        some (Ipv4.Sample.frame 3 Sample.pingReply) ∧
      IsEchoReply Sample.pingRequest.payload Sample.pingReply.payload ∧
      ∃ mac header, Ipv4.Sample.sender.deliver (Ipv4.Sample.frame 3 Sample.pingReply) =
          some (0x01, ⟨mac, .ipv4 10 0 1 3, .ipv4 10 0 0 9, Sample.pingReply.payload, header⟩) ∧
        typeOfService header = 0x10 := by
  have hsent : transit Ipv4.Sample.sender Ipv4.Sample.between Sample.pingRequest =
      some (Ipv4.Sample.frame 4 Sample.pingRequest) := by decide +kernel
  have hback : transit Ipv4.Sample.receiver Ipv4.Sample.between.reverse Sample.pingReply =
      some (Ipv4.Sample.frame 3 Sample.pingReply) := by decide +kernel
  have hmine : Ipv4.Sample.receiver.node.myip = .ipv4 10 0 1 3 := rfl
  obtain ⟨pkt, reply, hdeliver, hreceive, hreply, hreturn⟩ :=
    ping_returns 0 (by decide) (by decide) rfl (by decide) hsent hmine (by decide)
  have hconcrete : (Ipv4.Sample.receiver.deliver (Ipv4.Sample.frame 4 Sample.pingRequest)).map
      (fun p => receive true 0 p.2) = some (.ok (some Sample.pingReply)) := by decide +kernel
  rw [hdeliver] at hconcrete
  have hsame := hreceive.symm.trans (Option.some.inj hconcrete)
  obtain rfl := Option.some.inj (Except.ok.inj hsame)
  exact ⟨hsent, hback, hreply, hreturn rfl (by decide) hback⟩

end MyIp.Icmp4
