import MyIp.Icmp4.Echo

/-! # Error messages

`icmp4::send_packet` (`icmp4.cpp`) quotes a packet: its header and the first eight bytes of its
payload, in a buffer of 576 bytes. -/

namespace MyIp.Icmp4
set_option autoImplicit false

open Bytes Net OnesComplement

/-- `out` up to `out_size`, with a checksum: an odd number of bytes is made even. -/
def quote (type code : Byte) (mtu : ℤ) (p : IpPacket) (checksum : BitVec 16) : List Byte :=
  padEven ([type, code] ++ be16Bytes checksum ++ [0, 0] ++ be16Bytes (BitVec.ofInt 16 mtu) ++
    p.header ++ p.data.take 8)

/-- `icmp4::send_packet`; `idev` is the largest packet of the network layer, if there is one. -/
def sendPacket (idev : Option ℤ) (dstIp srcIp : AnyAddr) (type code : Byte) (p : IpPacket) :
    Except Fault (Option IpTransmit) :=
  match idev with
  | none => .ok none
  | some mtu =>
    if 576 < (quote type code mtu p 0).length then .error .outside
    else
      .ok (some ⟨none, dstIp, srcIp, 0x01,
        quote type code mtu p (ipChecksum (netWords (quote type code mtu p 0))), none⟩)

/-- `icmp4::send_destination_port_unreachable` -/
def sendDestinationPortUnreachable (idev : Option ℤ) (dstIp srcIp : AnyAddr) (p : IpPacket) :
    Except Fault (Option IpTransmit) :=
  sendPacket idev dstIp srcIp 3 3 p

/-- An error message that verifies and quotes these bytes. -/
structure Quotes (type code : Byte) (part message : List Byte) : Prop where
  type : message.getD 0 0 = type
  code : message.getD 1 0 = code
  verifies : Verifies message
  quoted : part <+: message.drop 8
  length : message.length ≤ 9 + part.length

theorem quote_eq (type code : Byte) (mtu : ℤ) (p : IpPacket) (checksum : BitVec 16) :
    quote type code mtu p checksum = [type, code] ++ (be16Bytes checksum ++
      padEven ([0, 0] ++ be16Bytes (BitVec.ofInt 16 mtu) ++ p.header ++ p.data.take 8)) := by
  rw [quote, List.append_assoc, List.append_assoc, List.append_assoc, List.append_assoc,
    padEven_append (by simp), padEven_append (by rw [be16Bytes_length])]
  simp only [List.append_assoc]

/-- A header of the usual length fits, and the message is right. -/
theorem sendPacket_quotes {mtu : ℤ} {p : IpPacket} (dstIp srcIp : AnyAddr) (type code : Byte)
    (hheader : p.header.length ≤ 60) :
    ∃ message, sendPacket (some mtu) dstIp srcIp type code p =
        .ok (some ⟨none, dstIp, srcIp, 0x01, message, none⟩) ∧
      Quotes type code (p.header ++ p.data.take 8) message ∧ message.length % 2 = 0 := by
  have hlen : ∀ checksum, (quote type code mtu p checksum).length =
      8 + (p.header ++ p.data.take 8).length + (p.header ++ p.data.take 8).length % 2 := by
    intro checksum
    rw [quote, padEven_length]
    simp only [List.length_append, List.length_cons, List.length_nil, be16Bytes_length]
    omega
  have hquoted : (p.header ++ p.data.take 8).length ≤ 68 := by
    rw [List.length_append, List.length_take]
    omega
  refine ⟨quote type code mtu p (ipChecksum (netWords (quote type code mtu p 0))), ?_, ?_, ?_⟩
  · exact if_neg (by rw [hlen]; omega)
  · constructor
    · rw [quote_eq]
      rfl
    · rw [quote_eq]
      rfl
    · rw [quote_eq type code mtu p (ipChecksum _)]
      refine @verifies_store [] [] [type, code] rfl rfl rfl ?_ _ _ ?_ ?_
      · rw [List.length_cons, List.length_singleton]
      · rw [← quote_eq, List.nil_append, padEven_of_even (by rw [hlen]; omega)]
      · rw [← quote_eq, padEven_of_even (by rw [hlen]; omega), hlen, List.length_nil]
        omega
    · exact ⟨List.replicate _ 0, rfl⟩
    · rw [hlen]
      omega
  · rw [hlen]
    omega

end MyIp.Icmp4
