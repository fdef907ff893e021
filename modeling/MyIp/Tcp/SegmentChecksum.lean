import MyIp.Net.InternetChecksum
import MyIp.Tcp.Segment

/-! # Checksums of segments

`send_segment` (`tcp.cpp`) passes the address of the peer as the source of the pseudo header and its
own as the destination. The sum is the same in both orders. -/

namespace MyIp.Tcp
set_option autoImplicit false

open Bytes OnesComplement

/-- The bytes before the checksum of a segment, and those behind it. -/
theorem segmentWith_eq (us : BitVec 64) (myPort peerPort : BitVec 16) (flags : Byte)
    (ackTo seq tsEcr : BitVec 32) (data : List Byte) :
    ∃ before rest, before.length % 2 = 0 ∧ ∀ checksum, segmentWith checksum us myPort peerPort flags
      ackTo seq tsEcr data = before ++ (be16Bytes checksum ++ rest) := by
  refine ⟨be16Bytes myPort ++ be16Bytes peerPort ++ be32Bytes seq ++ be32Bytes ackTo ++
    [(8 : Byte) <<< (4 : ℕ), flags, 255, 255], _, by simp, fun checksum => rfl⟩

theorem segmentWith_length (checksum : BitVec 16) (us : BitVec 64) (myPort peerPort : BitVec 16)
    (flags : Byte) (ackTo seq tsEcr : BitVec 32) (data : List Byte) :
    (segmentWith checksum us myPort peerPort flags ackTo seq tsEcr data).length = data.length + 32 :=
  rfl

/-- The segment verifies behind the pseudo header from its sender to its receiver. -/
theorem segmentBytes_verifies {myAddr peerAddr : AnyAddr} (same : myAddr.af = peerAddr.af)
    (ip : peerAddr.af = .ipv4 ∨ peerAddr.af = .ipv6) (us : BitVec 64) (myPort peerPort : BitVec 16)
    (flags : Byte) (ackTo seq tsEcr : BitVec 32) {data : List Byte} (hlen : data.length + 32 < 65536) :
    ∃ header, pseudoHeader myAddr peerAddr true
        (segmentBytes us myAddr myPort peerAddr peerPort flags ackTo seq tsEcr data).length =
          some header ∧
      Verifies (header ++ segmentBytes us myAddr myPort peerAddr peerPort flags ackTo seq tsEcr data) := by
  obtain ⟨header, hheader, heven, -, hsum⟩ := exists_pseudoHeader same ip true hlen
  obtain ⟨header', hheader', heven', hshort, hsum'⟩ :=
    exists_pseudoHeader same.symm (same ▸ ip) true hlen
  obtain ⟨before, rest, hbefore, hsegment⟩ :=
    segmentWith_eq us myPort peerPort flags ackTo seq tsEcr data
  have hlength := segmentWith_length 0 us myPort peerPort flags ackTo seq tsEcr data
  refine ⟨header, hheader, ?_⟩
  rw [segmentBytes, hsegment]
  apply verifies_store heven heven' (by omega) hbefore rest
  · rw [tcpUdpChecksum, hlength, hheader', hsegment]
  · rw [← hsegment, padEven_length, hlength]
    omega

/-- `ip_checksum` and the checksums of `send_segment`: the complement of the one's complement sum, 0
over a sequence that the result was stored in, and right over pseudo header and segment. -/
theorem checksums_verify :
    (∀ ws : List (BitVec 16), ws.length ≤ 65537 →
      wordSum ws < 2 ^ 32 ∧ ipChecksum ws = ~~~onesSum ws) ∧
    (∀ before rest : List (BitVec 16), (before ++ 0 :: rest).length ≤ 65537 →
      ipChecksum (before ++ ipChecksum (before ++ 0 :: rest) :: rest) = 0) ∧
    ∀ {κ : Type} (idev : Option Idev) (us : BitVec 64) (ts : TcpSession) (myAddr : AnyAddr)
      (myPort : BitVec 16) (peerAddr : AnyAddr) (peerPort : BitVec 16) (flags : Byte)
      (ackTo : BitVec 32) (mySeqNr : Option (BitVec 32)) (data : List Byte) (tsEcr : BitVec 32)
      (dst src : AnyAddr) (bytes : List Byte),
      .segment dst src bytes ∈ (sendSegment (κ := κ) idev us ts myAddr myPort peerAddr peerPort flags
        ackTo mySeqNr data tsEcr).acts →
      myAddr.af = peerAddr.af → peerAddr.af = .ipv4 ∨ peerAddr.af = .ipv6 → bytes.length ≤ 65535 →
      ∃ header, pseudoHeader src dst true bytes.length = some header ∧ Verifies (header ++ bytes) := by
  refine ⟨fun ws h => ⟨wordSum_lt h, ipChecksum_eq_not_onesSum h⟩,
    fun before rest h => ipChecksum_store h, ?_⟩
  intro κ idev us ts myAddr myPort peerAddr peerPort flags ackTo mySeqNr data tsEcr dst src bytes hmem
    same ip hlen
  cases idev with
  | none => cases hmem
  | some idev =>
    obtain ⟨rfl, rfl, rfl⟩ := Act.segment.inj (List.mem_singleton.mp hmem)
    apply segmentBytes_verifies same ip
    rw [segmentBytes, segmentWith_length] at hlen
    omega

/-- A segment with three bytes of data, an odd number. -/
theorem checksums_verify_odd :
    ∃ header, pseudoHeader (.ipv4 10 0 17 1) (.ipv4 10 0 17 2) true 35 = some header ∧
      Verifies (header ++ segmentBytes 5 (.ipv4 10 0 17 1) 80 (.ipv4 10 0 17 2) 4001 flagAck 7 9 3
        [0x61, 0x62, 0x63]) := by
  have hsegments := checksums_verify.2.2 (κ := Unit) (some ⟨.ipv4 10 0 17 1, 1500⟩) 5
    { myAddr := .ipv4 10 0 17 1, myPort := 80, theirAddr := .ipv4 10 0 17 2, theirPort := 4001 }
    (.ipv4 10 0 17 1) 80 (.ipv4 10 0 17 2) 4001 flagAck 7 (some 9) [0x61, 0x62, 0x63] 3
  exact hsegments _ _ _ (List.mem_singleton.mpr rfl) rfl (.inl rfl) (by decide)

end MyIp.Tcp
