import MyIp.Net.InternetChecksum
import MyIp.Net.Layers

/-! # Echo requests over IPv4

`icmp4::operator()` (`icmp4.cpp`) makes the reply from a copy of the request. Its checksum is that
of `size / 2` words: the last byte of an odd message is not in it. -/

namespace MyIp.Icmp4
set_option autoImplicit false

open Bytes Net OnesComplement

inductive Fault
  | outside
  deriving DecidableEq

/-- The reply to a timestamp request, where `replyTs` is `ms_since_midnight()`. -/
def timestampReply (replyTs : BitVec 32) (p : List Byte) : List Byte :=
  writeAt (writeAt (writeAt p 0 [14]) 12 (be32Bytes replyTs)) 16 (be32Bytes replyTs)

/-- `reply`, up to its checksum; other types are dropped. -/
def replyTo (replyTs : BitVec 32) (p : List Byte) : Option (List Byte) :=
  if p.getD 0 0 = 8 then some (writeAt p 0 [0])
  else if p.getD 0 0 = 13 then
    if 20 ≤ p.length then some (timestampReply replyTs p) else some p
  else none

/-- `header_copy`, with the next identification. -/
def headerCopy (header : List Byte) : Except Fault (List Byte) :=
  if header.length < 6 then .error .outside
  else .ok (writeAt header 4 (be16Bytes (be16 (header.getD 4 0) (header.getD 5 0) + 1)))

def withChecksum (reply : List Byte) : List Byte :=
  let reply := writeAt reply 2 (be16Bytes 0)
  writeAt reply 2 (be16Bytes (ipChecksum (netWords reply)))

/-- `icmp4::operator()` for one packet; `idev` says that there is a network layer. -/
def receive (idev : Bool) (replyTs : BitVec 32) (pkt : IpPacket) :
    Except Fault (Option IpTransmit) :=
  if pkt.data.length < 8 then .ok none
  else
    match replyTo replyTs pkt.data with
    | none => .ok none
    | some reply =>
      if idev then
        (headerCopy pkt.header).map fun header =>
          some ⟨none, pkt.srcAddr, pkt.dstAddr, 0x01, withChecksum reply, some header⟩
      else .ok none

/-- A message of type 8, in a packet with a header. -/
structure IsEchoRequest (pkt : IpPacket) : Prop where
  size : 8 ≤ pkt.data.length
  type : pkt.data.getD 0 0 = 8
  header : 20 ≤ pkt.header.length

/-- The type is 0 and the checksum is right. Code, identifier, sequence number and data are those of
the request. -/
structure IsEchoReply (request reply : List Byte) : Prop where
  length : reply.length = request.length
  type : reply.getD 0 0 = 0
  rest : ∀ i, i ≠ 0 → i ≠ 2 → i ≠ 3 → reply.getD i 0 = request.getD i 0
  verifies : Verifies reply

/-- The reply to an echo request is transmitted, and right. -/
def Replied (replyTs : BitVec 32) (pkt : IpPacket) : Prop :=
  ∃ call, receive true replyTs pkt = .ok (some call) ∧ IsEchoReply pkt.data call.payload

/-- What the 32 bits of the sum lose and the last byte of an odd message make up for each other. Up
to 131074 bytes nothing is lost: `sumsUp_iff`. -/
def SumsUp (p : List Byte) : Prop :=
  65535 ∣ bytesSum (writeAt (writeAt p 0 [0]) 2 (be16Bytes 0)) / 2 ^ 32 + (unpaired p).toNat * 256

theorem exists_parts {p : List Byte} (h : 8 ≤ p.length) :
    ∃ type code v rest, p = type :: code :: (be16Bytes v ++ rest) := by
  match p, h with
  | type :: code :: x :: y :: rest, _ =>
    exact ⟨type, code, be16 x y, rest, by rw [be16Bytes_be16]; rfl⟩

theorem receive_echoRequest {pkt : IpPacket} (h : IsEchoRequest pkt) (replyTs : BitVec 32) :
    ∃ call, receive true replyTs pkt = .ok (some call) ∧
      call.payload = withChecksum (writeAt pkt.data 0 [0]) := by
  have hsize : ¬pkt.data.length < 8 := not_lt.mpr h.size
  have hheader : ¬pkt.header.length < 6 := by
    have := h.header
    omega
  rw [receive, if_neg hsize, replyTo, if_pos h.type, headerCopy, if_neg hheader]
  exact ⟨_, rfl, rfl⟩

theorem unpaired_parts (type code : Byte) (v : BitVec 16) (rest : List Byte) :
    unpaired (type :: code :: (be16Bytes v ++ rest)) = unpaired rest := by
  have hparts : type :: code :: (be16Bytes v ++ rest) = [type, code] ++ be16Bytes v ++ rest := rfl
  rw [hparts, unpaired_append (by simp)]

theorem isEchoReply_iff {p : List Byte} (h : 8 ≤ p.length) :
    IsEchoReply p (withChecksum (writeAt p 0 [0])) ↔
      Verifies (withChecksum (writeAt p 0 [0])) := by
  refine ⟨IsEchoReply.verifies, fun hverifies => ?_⟩
  obtain ⟨type, code, v, rest, rfl⟩ := exists_parts h
  refine ⟨rfl, rfl, fun i h0 h2 h3 => ?_, hverifies⟩
  match i with
  | 1 => rfl
  | i + 4 => rfl

theorem zeroed_parts (type code : Byte) (v : BitVec 16) (rest : List Byte) :
    writeAt (writeAt (type :: code :: (be16Bytes v ++ rest)) 0 [0]) 2 (be16Bytes 0) =
      [0, code] ++ (be16Bytes 0 ++ rest) :=
  rfl

theorem verifies_withChecksum_iff {p : List Byte} (h : 8 ≤ p.length) :
    Verifies (withChecksum (writeAt p 0 [0])) ↔ SumsUp p := by
  obtain ⟨type, code, v, rest, rfl⟩ := exists_parts h
  have heven : [(0 : Byte), code].length % 2 = 0 := by
    rw [List.length_cons, List.length_singleton]
  have hunpaired : unpaired ([0, code] ++ (be16Bytes 0 ++ rest)) =
      unpaired (type :: code :: (be16Bytes v ++ rest)) := by
    rw [unpaired_parts]
    exact unpaired_parts 0 code 0 rest
  have hreply : withChecksum (writeAt (type :: code :: (be16Bytes v ++ rest)) 0 [0]) = [0, code] ++
      (be16Bytes (ipChecksum (netWords ([0, code] ++ (be16Bytes 0 ++ rest)))) ++ rest) := rfl
  have hpos := add_ipChecksum_pos (netWords ([0, code] ++ (be16Bytes 0 ++ rest)))
  rw [verifies_iff, SumsUp, zeroed_parts, hreply, bytesSum_padEven_store heven, bytesSum_padEven,
    hunpaired]
  have hdvd := dvd_add_ipChecksum_iff (netWords ([0, code] ++ (be16Bytes 0 ++ rest)))
    ((unpaired (type :: code :: (be16Bytes v ++ rest))).toNat * 256)
  rw [bytesSum]
  refine ⟨fun hverifies => hdvd.mp hverifies.2, fun hsum => ⟨?_, hdvd.mpr hsum⟩⟩
  omega

/-- In a message that IPv4 can carry just the last byte of an odd one is missing. -/
theorem sumsUp_iff {p : List Byte} (h : 8 ≤ p.length) (hle : p.length ≤ 131074) :
    SumsUp p ↔ p.length % 2 = 0 ∨ p.getLastD 0 = 0 := by
  obtain ⟨type, code, v, rest, rfl⟩ := exists_parts h
  have hwords : (netWords ([0, code] ++ (be16Bytes 0 ++ rest))).length ≤ 65537 := by
    rw [netWords_length]
    simpa using by
      simp at hle
      omega
  rw [SumsUp, zeroed_parts, bytesSum, Nat.div_eq_of_lt (wordSum_lt hwords), Nat.zero_add]
  have hlt := (unpaired (type :: code :: (be16Bytes v ++ rest))).isLt
  have hzero : 65535 ∣ (unpaired (type :: code :: (be16Bytes v ++ rest))).toNat * 256 ↔
      unpaired (type :: code :: (be16Bytes v ++ rest)) = 0 := by
    have hvalue : (0 : Byte).toNat = 0 := rfl
    rw [BitVec.toNat_eq, hvalue]
    omega
  rw [hzero, unpaired]
  split
  · rename_i hodd
    rw [hodd]
    simp
  · rename_i heven
    exact iff_of_true rfl (.inl (by omega))

/-- An echo request is replied to rightly exactly if the sum over the words of the reply is one over
all of its bytes. -/
theorem replied_iff (replyTs : BitVec 32) (pkt : IpPacket) (h : IsEchoRequest pkt) :
    Replied replyTs pkt ↔ SumsUp pkt.data := by
  obtain ⟨call, hreceive, hpayload⟩ := receive_echoRequest h replyTs
  rw [← verifies_withChecksum_iff h.size, ← isEchoReply_iff h.size, Replied]
  constructor
  · rintro ⟨call', hcall, hreply⟩
    rw [hreceive] at hcall
    obtain rfl := Option.some.inj (Except.ok.inj hcall)
    rwa [hpayload] at hreply
  · exact fun hreply => ⟨call, hreceive, by rwa [hpayload]⟩

namespace Sample

def ping (data : List Byte) : IpPacket where
  srcMacAddr := ⟨.mac, [2, 0, 0, 0, 8, 9], rfl⟩
  srcAddr := .ipv4 10 0 0 9
  dstAddr := .ipv4 10 0 0 1
  data := [8, 0, 0, 0, 0, 1, 0, 7] ++ data
  header := [0x45, 0, 0, 29, 0, 1, 0, 0, 64, 1, 0, 0, 10, 0, 0, 9, 10, 0, 0, 1]

theorem isEchoRequest_ping (data : List Byte) : IsEchoRequest (ping data) where
  size := by
    rw [ping, List.length_append]
    exact Nat.le_add_right 8 _
  type := rfl
  header := le_rfl

end Sample

theorem replied_iff_ping :
    Replied 0 (Sample.ping [0x61, 0x62]) ↔ SumsUp (Sample.ping [0x61, 0x62]).data :=
  replied_iff 0 _ (Sample.isEchoRequest_ping _)

/-- The reply to a ping with one byte of data does not verify. -/
theorem not_replied_odd :
    IsEchoRequest (Sample.ping [0x61]) ∧
      receive true 0 (Sample.ping [0x61]) = .ok (some ⟨none, .ipv4 10 0 0 9, .ipv4 10 0 0 1, 0x01,
        [0, 0, 0xff, 0xf7, 0, 1, 0, 7, 0x61],
        some [0x45, 0, 0, 29, 0, 2, 0, 0, 64, 1, 0, 0, 10, 0, 0, 9, 10, 0, 0, 1]⟩) ∧
      ¬Replied 0 (Sample.ping [0x61]) := by
  refine ⟨Sample.isEchoRequest_ping _, by decide +kernel, ?_⟩
  rintro ⟨call, hcall, hreply⟩
  obtain ⟨call', hcall', hpayload⟩ := receive_echoRequest (Sample.isEchoRequest_ping [0x61]) 0
  obtain rfl := Option.some.inj (Except.ok.inj (hcall.symm.trans hcall'))
  have hverifies := hreply.verifies
  rw [hpayload] at hverifies
  revert hverifies
  decide +kernel

end MyIp.Icmp4
