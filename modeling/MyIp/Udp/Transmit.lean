import MyIp.Net.InternetChecksum
import MyIp.Net.Layers

/-! # UDP datagrams

`udp::transmit_packet` (`udp.cpp`) puts the checksum into the datagram as it was computed. A checksum
of 0, which for UDP says that there is none, is not replaced by 0xffff. -/

namespace MyIp.Udp
set_option autoImplicit false

open Bytes Net OnesComplement

def ports (srcPort dstPort : ℤ) : List Byte :=
  be16Bytes (BitVec.ofInt 16 srcPort) ++ be16Bytes (BitVec.ofInt 16 dstPort)

/-- `out`, with a checksum. -/
def datagram (srcPort dstPort : ℤ) (payload : List Byte) (checksum : BitVec 16) : List Byte :=
  (ports srcPort dstPort ++ be16Bytes (BitVec.ofNat 16 (8 + payload.length))) ++
    (be16Bytes checksum ++ payload)

/-- `udp::transmit_packet`; `idev` says that there is a network layer. -/
def transmitPacket (idev : Bool) (dstIp : AnyAddr) (dstPort : ℤ) (srcIp : AnyAddr) (srcPort : ℤ)
    (payload : List Byte) : Option IpTransmit :=
  if dstIp.af.size ≠ srcIp.af.size then none
  else
    let checksum := tcpUdpChecksum dstIp srcIp false (datagram srcPort dstPort payload 0)
    if idev then
      some ⟨none, dstIp, srcIp, 0x11, datagram srcPort dstPort payload checksum, none⟩
    else none

structure AddressPair (dstIp srcIp : AnyAddr) : Prop where
  same : srcIp.af = dstIp.af
  ip : dstIp.af = .ipv4 ∨ dstIp.af = .ipv6

theorem AddressPair.symm {dstIp srcIp : AnyAddr} (h : AddressPair dstIp srcIp) :
    AddressPair srcIp dstIp :=
  ⟨h.same.symm, by rw [h.same]; exact h.ip⟩

/-- The datagram verifies behind its pseudo header, and has a checksum. -/
def Checked (dstIp : AnyAddr) (dstPort : ℤ) (srcIp : AnyAddr) (srcPort : ℤ) (payload : List Byte) :
    Prop :=
  ∃ call header, transmitPacket true dstIp dstPort srcIp srcPort payload = some call ∧
    pseudoHeader srcIp dstIp false call.payload.length = some header ∧
    Verifies (header ++ call.payload) ∧ (call.payload.drop 6).take 2 ≠ [0, 0]

/-- The sum of all words that count: addresses, protocol, length (in the pseudo header and in the
datagram), ports and payload. -/
def total (dstIp : AnyAddr) (dstPort : ℤ) (srcIp : AnyAddr) (srcPort : ℤ) (payload : List Byte) : ℕ :=
  bytesSum srcIp.addr + bytesSum dstIp.addr + 17 + 2 * (8 + payload.length) +
    bytesSum (ports srcPort dstPort) + bytesSum (padEven payload)

/-! ## Sums -/

@[simp] theorem datagram_length (srcPort dstPort : ℤ) (payload : List Byte) (checksum : BitVec 16) :
    (datagram srcPort dstPort payload checksum).length = 8 + payload.length := by
  simp only [datagram, ports, List.length_append, be16Bytes_length]
  omega

theorem bytesSum_datagram {srcPort dstPort : ℤ} {payload : List Byte} (hlen : 8 + payload.length < 65536)
    (checksum : BitVec 16) :
    bytesSum (padEven (datagram srcPort dstPort payload checksum)) =
      bytesSum (ports srcPort dstPort) + (8 + payload.length) + checksum.toNat +
        bytesSum (padEven payload) := by
  have hports : (ports srcPort dstPort).length % 2 = 0 := by
    rw [ports, List.length_append, be16Bytes_length, be16Bytes_length]
  have hsize : (be16Bytes (BitVec.ofNat 16 (8 + payload.length))).length % 2 = 0 := by
    rw [be16Bytes_length]
  rw [datagram, List.append_assoc, padEven_append hports, padEven_append hsize,
    padEven_append (by rw [be16Bytes_length]), bytesSum_append hports, bytesSum_be16Bytes,
    bytesSum_be16Bytes, toNat_ofNat_of_lt hlen]
  omega

theorem total_pos (dstIp : AnyAddr) (dstPort : ℤ) (srcIp : AnyAddr) (srcPort : ℤ)
    (payload : List Byte) : 0 < total dstIp dstPort srcIp srcPort payload := by
  rw [total]
  omega

theorem exists_transmitPacket {dstIp srcIp : AnyAddr} {payload : List Byte} (dstPort srcPort : ℤ)
    (h : AddressPair dstIp srcIp) (hlen : 8 + payload.length < 65536) :
    ∃ ws, wordSum ws = total dstIp dstPort srcIp srcPort payload ∧ wordSum ws < 2 ^ 32 ∧
      transmitPacket true dstIp dstPort srcIp srcPort payload = some ⟨none, dstIp, srcIp, 0x11,
        datagram srcPort dstPort payload (ipChecksum ws), none⟩ := by
  obtain ⟨header, hheader, heven, hshort, hsum⟩ :=
    exists_pseudoHeader h.same.symm h.symm.ip false hlen
  rw [if_neg Bool.false_ne_true] at hsum
  have hzero : (0 : BitVec 16).toNat = 0 := rfl
  refine ⟨netWords (header ++ padEven (datagram srcPort dstPort payload 0)), ?_, ?_, ?_⟩
  · rw [← bytesSum, bytesSum_append heven, hsum, bytesSum_datagram hlen, total, hzero]
    omega
  · apply wordSum_lt
    rw [netWords_length, List.length_append, padEven_length, datagram_length]
    omega
  · rw [transmitPacket, h.same, if_neg (not_not.mpr rfl), tcpUdpChecksum, datagram_length, hheader]
    rfl

theorem datagram_verifies {dstIp srcIp : AnyAddr} {dstPort srcPort : ℤ} {payload : List Byte}
    {ws : List (BitVec 16)} (hws : wordSum ws = total dstIp dstPort srcIp srcPort payload)
    (hlt : wordSum ws < 2 ^ 32) {header : List Byte} (heven : header.length % 2 = 0)
    (hsum : bytesSum header = bytesSum srcIp.addr + bytesSum dstIp.addr + 17 + (8 + payload.length))
    (hlen : 8 + payload.length < 65536) :
    Verifies (header ++ datagram srcPort dstPort payload (ipChecksum ws)) := by
  have hbytes : bytesSum (header ++ padEven (datagram srcPort dstPort payload (ipChecksum ws))) =
      wordSum ws + (ipChecksum ws).toNat := by
    rw [bytesSum_append heven, hsum, bytesSum_datagram hlen, hws, total]
    omega
  have hdvd := dvd_add_ipChecksum_iff ws 0
  rw [Nat.div_eq_of_lt hlt] at hdvd
  rw [verifies_iff, padEven_append heven, hbytes]
  exact ⟨add_ipChecksum_pos ws, hdvd.mpr (dvd_zero _)⟩

theorem checksum_field_eq_zero_iff (srcPort dstPort : ℤ) (payload : List Byte)
    (checksum : BitVec 16) :
    ((datagram srcPort dstPort payload checksum).drop 6).take 2 = [0, 0] ↔ checksum = 0 := by
  have hfield : ((datagram srcPort dstPort payload checksum).drop 6).take 2 = be16Bytes checksum :=
    rfl
  rw [hfield]
  constructor
  · intro hzero
    have hback := be16_be16Bytes checksum
    obtain ⟨hhigh, hrest⟩ := List.cons.inj hzero
    obtain ⟨hlow, -⟩ := List.cons.inj hrest
    rw [← hback, hhigh, hlow]
    rfl
  · rintro rfl
    rfl

/-- A datagram verifies; it has a checksum exactly if the sum of its words is not a multiple of
65535. -/
theorem checked_iff (dstIp : AnyAddr) (dstPort : ℤ) (srcIp : AnyAddr) (srcPort : ℤ)
    (payload : List Byte) (h : AddressPair dstIp srcIp) (hlen : 8 + payload.length < 65536) :
    Checked dstIp dstPort srcIp srcPort payload ↔
      ¬65535 ∣ total dstIp dstPort srcIp srcPort payload := by
  obtain ⟨ws, hws, hlt, htransmit⟩ := exists_transmitPacket dstPort srcPort h hlen
  have hfield := checksum_field_eq_zero_iff srcPort dstPort payload (ipChecksum ws)
  rw [ipChecksum_eq_zero_iff hlt, hws] at hfield
  constructor
  · rintro ⟨call, header, hcall, -, -, hne⟩ hdvd
    obtain rfl := Option.some.inj (hcall.symm.trans htransmit)
    exact hne (hfield.mpr ⟨total_pos _ _ _ _ _, hdvd⟩)
  · intro hndvd
    obtain ⟨header, hheader, heven, -, hsum⟩ := exists_pseudoHeader h.same h.ip false hlen
    rw [if_neg Bool.false_ne_true] at hsum
    refine ⟨_, header, htransmit, ?_, ?_, ?_⟩
    · rw [datagram_length]
      exact hheader
    · exact datagram_verifies hws hlt heven hsum hlen
    · exact fun hzero => hndvd (hfield.mp hzero).2

namespace Sample

def client : AnyAddr := .ipv4 10 0 8 7

def server : AnyAddr := .ipv4 10 0 8 1

/-- With these two bytes the words of a datagram to port 53 sum up to 65535. -/
def payload : List Byte := [0xc9, 0x36]

theorem addressPair : AddressPair server client := ⟨rfl, .inl rfl⟩

end Sample

theorem checked_iff_echo :
    Checked Sample.server 7 Sample.client 4711 [1, 2, 3] ↔
      ¬65535 ∣ total Sample.server 7 Sample.client 4711 [1, 2, 3] :=
  checked_iff _ _ _ _ _ Sample.addressPair (by decide)

/-- A datagram that is transmitted as one without a checksum. -/
theorem not_checked :
    AddressPair Sample.server Sample.client ∧
      transmitPacket true Sample.server 53 Sample.client 4711 Sample.payload =
        some ⟨none, Sample.server, Sample.client, 0x11,
          [0x12, 0x67, 0, 53, 0, 10, 0, 0, 0xc9, 0x36], none⟩ ∧
      ¬Checked Sample.server 53 Sample.client 4711 Sample.payload := by
  have htransmit : transmitPacket true Sample.server 53 Sample.client 4711 Sample.payload =
      some ⟨none, Sample.server, Sample.client, 0x11,
        [0x12, 0x67, 0, 53, 0, 10, 0, 0, 0xc9, 0x36], none⟩ := by decide +kernel
  refine ⟨Sample.addressPair, htransmit, ?_⟩
  rintro ⟨call, header, hcall, -, -, hne⟩
  obtain rfl := Option.some.inj (hcall.symm.trans htransmit)
  exact hne rfl

end MyIp.Udp
