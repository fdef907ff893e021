import MyIp.Icmp6.Input

/-! # Echo requests over IPv6

The reply of `send_ping_reply` (`icmp6.cpp`) is built by `send_packet`, whose messages are multiples
of 8 bytes in size: behind the data of the request there are zeros up to the next one. -/

namespace MyIp.Icmp6
set_option autoImplicit false

open Bytes Net OnesComplement

/-- An ICMPv6 message of type 128 with its header. The length of an IPv6 payload has 16 bits, and
the packet with the message fits the MTU. -/
structure IsEchoRequest (host : Host) (pkt : IpPacket) (mtuSize : ℤ) : Prop where
  idev : host.idev = some mtuSize
  myIp : host.myIp.af = .ipv6
  srcAddr : pkt.srcAddr.af = .ipv6
  type : pkt.data.head? = some 128
  size : 8 ≤ pkt.data.length
  size_lt : pkt.data.length < 65536
  fits : (pkt.data.length : ℤ) ≤ maxPacketSize mtuSize

/-- A reply to the sender of `request` with type 129 and code 0, with what follows the checksum of
the request and then `padding`. The checksum is right, over the pseudo header of its addresses. -/
structure IsEchoReply (host : Host) (request : IpPacket) (padding : List Byte) (call : IpTransmit) :
    Prop where
  srcIp : call.srcIp = host.myIp
  dstIp : call.dstIp = request.srcAddr
  typeCode : call.payload.take 2 = [129, 0]
  rest : call.payload.drop 4 = request.data.drop 4 ++ padding
  verifies : Verifies (pseudoHeader call.srcIp.addr call.dstIp.addr call.payload.length ++ call.payload)

/-- The reply is transmitted, with `padding` zeros behind the data. -/
def Replied (host : Host) (pkt : IpPacket) (padding : ℕ) : Prop :=
  ∃ call, receive host pkt = .ok (.transmit call) ∧
    IsEchoReply host pkt (List.replicate padding 0) call

theorem roundUp_spec (size : ℕ) :
    roundUp size % 8 = 0 ∧ size ≤ roundUp size ∧ roundUp size < size + 8 := by
  rw [roundUp]
  split <;> omega

theorem message_length (type code : Byte) (reserved : BitVec 32) (payload : List Byte)
    (checksum : BitVec 16) :
    (message type code reserved payload checksum).length = roundUp (8 + payload.length) := by
  have hround := roundUp_spec (8 + payload.length)
  simp only [message, List.length_append, List.length_cons, List.length_nil, be16Bytes_length,
    be32Bytes_length, List.length_replicate]
  omega

theorem pseudoHeader_length {src dst : List Byte} (hsrc : src.length = 16) (hdst : dst.length = 16)
    (len : ℕ) : (pseudoHeader src dst len).length = 40 := by
  simp only [pseudoHeader, List.length_append, be32Bytes_length, hsrc, hdst]
  rfl

theorem message_verifies {src dst : List Byte} (hsrc : src.length = 16) (hdst : dst.length = 16)
    (type code : Byte) (reserved : BitVec 32) {payload : List Byte}
    (hlen : payload.length + 8 < 65536) :
    Verifies (pseudoHeader src dst (roundUp (8 + payload.length)) ++ message type code reserved payload
      (ipChecksum (netWords (pseudoHeader src dst (roundUp (8 + payload.length)) ++
        message type code reserved payload 0)))) := by
  obtain ⟨hmod, -, hlt⟩ := roundUp_spec (8 + payload.length)
  have hheader := pseudoHeader_length hsrc hdst (roundUp (8 + payload.length))
  have hbefore : (pseudoHeader src dst (roundUp (8 + payload.length)) ++ [type, code]).length % 2 =
      0 := by
    rw [List.length_append, hheader, List.length_cons, List.length_singleton]
  have hmessage : ∀ checksum : BitVec 16,
      pseudoHeader src dst (roundUp (8 + payload.length)) ++ message type code reserved payload checksum =
        (pseudoHeader src dst (roundUp (8 + payload.length)) ++ [type, code]) ++
          (be16Bytes checksum ++ (be32Bytes reserved ++ payload ++
            List.replicate (roundUp (8 + payload.length) - (8 + payload.length)) 0)) := by
    intro checksum
    rw [message, List.append_assoc, List.append_assoc]
  have hwhole : (pseudoHeader src dst (roundUp (8 + payload.length)) ++
      message type code reserved payload 0).length = 40 + roundUp (8 + payload.length) := by
    rw [List.length_append, hheader, message_length]
  generalize hws : netWords (pseudoHeader src dst (roundUp (8 + payload.length)) ++
    message type code reserved payload 0) = ws
  have hlost : wordSum ws < 2 ^ 32 := by
    apply wordSum_lt
    rw [← hws, netWords_length, hwhole]
    omega
  have hsum : bytesSum (padEven (pseudoHeader src dst (roundUp (8 + payload.length)) ++
      message type code reserved payload (ipChecksum ws))) =
        wordSum ws + (ipChecksum ws).toNat := by
    rw [hmessage, bytesSum_padEven_store hbefore, ← hmessage, padEven_of_even (by omega), bytesSum,
      hws]
  have hdvd := dvd_add_ipChecksum_iff ws 0
  rw [Nat.div_eq_of_lt hlost] at hdvd
  rw [verifies_iff, hsum]
  exact ⟨add_ipChecksum_pos ws, hdvd.mpr (dvd_zero _)⟩

theorem receive_echoRequest {host : Host} {pkt : IpPacket} {mtuSize : ℤ}
    (h : IsEchoRequest host pkt mtuSize)
    (hroom : roundUp pkt.data.length + 8 ≤ maxPacketSize mtuSize) :
    ∃ idSeqNr, be32Bytes idSeqNr = (pkt.data.drop 4).take 4 ∧
      receive host pkt = .ok (.transmit ⟨some pkt.srcMacAddr, pkt.srcAddr, host.myIp, 0x3a,
        message 129 0 idSeqNr (pkt.data.drop 8) (ipChecksum (netWords
          (pseudoHeader host.myIp.addr pkt.srcAddr.addr (roundUp (8 + (pkt.data.drop 8).length)) ++
            message 129 0 idSeqNr (pkt.data.drop 8) 0))), none⟩) := by
  obtain ⟨idSeqNr, heq, hbytes⟩ := sendPingReply_eq host h.size
  refine ⟨idSeqNr, hbytes, ?_⟩
  have hsize := length_header_add h.size
  have hround := roundUp_spec pkt.data.length
  have hsrc : getBytes host.myIp 16 = .ok host.myIp.addr := by rw [getBytes, h.myIp]; rfl
  have hdst : getBytes pkt.srcAddr 16 = .ok pkt.srcAddr.addr := by rw [getBytes, h.srcAddr]; rfl
  rw [receive_echo host h.type, heq, h.idev, sendPacket_fits (by omega), if_neg (by rw [hsize]; omega), hsrc, hdst]
  rfl

theorem exists_replied {host : Host} {pkt : IpPacket} {mtuSize : ℤ}
    (h : IsEchoRequest host pkt mtuSize)
    (hroom : roundUp pkt.data.length + 8 ≤ maxPacketSize mtuSize) :
    Replied host pkt (roundUp pkt.data.length - pkt.data.length) := by
  obtain ⟨idSeqNr, hbytes, hreceive⟩ := receive_echoRequest h hroom
  have hsize := length_header_add h.size
  refine ⟨_, hreceive, rfl, rfl, rfl, ?_, ?_⟩
  · have hdrop : (pkt.data.drop 4).drop 4 = pkt.data.drop 8 := List.drop_drop
    have hmessage : ∀ checksum, (message 129 0 idSeqNr (pkt.data.drop 8) checksum).drop 4 =
        be32Bytes idSeqNr ++ pkt.data.drop 8 ++
          List.replicate (roundUp pkt.data.length - pkt.data.length) 0 := by
      intro checksum
      rw [message, hsize]
      rfl
    rw [hmessage, hbytes, ← hdrop, List.take_append_drop]
  · have hsrc := AnyAddr.length_ipv6 h.myIp
    have hdst := AnyAddr.length_ipv6 h.srcAddr
    have hlt := h.size_lt
    rw [message_length]
    exact message_verifies hsrc hdst 129 0 idSeqNr (by omega)

/-- An echo request that the buffer has room for, rounded up, is replied to with all of its data and
then less than 8 zeros, up to a multiple of 8 bytes. -/
theorem replied_padded (host : Host) (pkt : IpPacket) (mtuSize : ℤ)
    (h : IsEchoRequest host pkt mtuSize)
    (hroom : roundUp pkt.data.length + 8 ≤ maxPacketSize mtuSize) :
    ∃ padding < 8, 8 ∣ pkt.data.length + padding ∧ Replied host pkt padding := by
  obtain ⟨hmod, hle, hlt⟩ := roundUp_spec pkt.data.length
  refine ⟨roundUp pkt.data.length - pkt.data.length, by omega, ?_, exists_replied h hroom⟩
  rw [Nat.add_sub_cancel' hle]
  exact Nat.dvd_of_mod_eq_zero hmod

namespace Sample

def echoHost : Host :=
  { host with myIp := ⟨.ipv6, [0x20, 1, 0x0d, 0xb8, 0, 0, 0, 0, 0, 0, 0, 0, 0, 0, 0x56, 1], rfl⟩ }

/-- A ping with identifier 1 and sequence number 7. -/
def ping (data : List Byte) : IpPacket := incoming ([128, 0, 0, 0, 0, 1, 0, 7] ++ data)

theorem isEchoRequest_ping {data : List Byte} (h : data.length < 1000) :
    IsEchoRequest echoHost (ping data) 1500 where
  idev := rfl
  myIp := rfl
  srcAddr := rfl
  type := rfl
  size := by
    rw [ping, incoming, List.length_append]
    exact Nat.le_add_right 8 _
  size_lt := by
    rw [ping, incoming, List.length_append, List.length_cons]
    simp
    omega
  fits := by
    rw [ping, incoming, List.length_append, maxPacketSize]
    simp
    omega

end Sample

theorem replied_padded_ping :
    ∃ padding < 8, 8 ∣ (Sample.ping [0x61]).data.length + padding ∧
      Replied Sample.echoHost (Sample.ping [0x61]) padding :=
  replied_padded Sample.echoHost (Sample.ping [0x61]) 1500
    (Sample.isEchoRequest_ping (by decide)) (by decide)

/-- The reply to a ping with one byte of data has eight. -/
theorem not_replied :
    IsEchoRequest Sample.echoHost (Sample.ping [0x61]) 1500 ∧
      (∃ call, receive Sample.echoHost (Sample.ping [0x61]) = .ok (.transmit call) ∧
        call.payload.drop 4 = [0, 1, 0, 7, 0x61, 0, 0, 0, 0, 0, 0, 0]) ∧
      ¬Replied Sample.echoHost (Sample.ping [0x61]) 0 := by
  have hping : IsEchoRequest Sample.echoHost (Sample.ping [0x61]) 1500 :=
    Sample.isEchoRequest_ping (by decide)
  obtain ⟨call, hcall, hreply⟩ := exists_replied hping (by decide)
  have hrest : call.payload.drop 4 = [0, 1, 0, 7, 0x61, 0, 0, 0, 0, 0, 0, 0] := hreply.rest
  refine ⟨hping, ⟨call, hcall, hrest⟩, ?_⟩
  rintro ⟨call', hcall', hreply'⟩
  obtain rfl := Effect.transmit.inj (Except.ok.inj (hcall.symm.trans hcall'))
  have hshort : call.payload.drop 4 = [0, 1, 0, 7, 0x61] := hreply'.rest
  rw [hrest] at hshort
  cases hshort

end MyIp.Icmp6
