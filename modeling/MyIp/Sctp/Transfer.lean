import MyIp.Foundations.Serial
import MyIp.Sctp.Receive

/-! # Transferring data

The packets of `send_data` and the peer that takes them. Every packet is one DATA chunk of the right
length, padded (`dataPacket_isDataPacket`), and a peer that expects its TSN delivers the data and
expects the next TSN (`receive_dataPacket`). By induction over what is left of the payload the peer
delivers all of it, in pieces. -/

namespace MyIp.Sctp
set_option autoImplicit false

open Bytes Serial

/-- The body of a DATA chunk of `send_data`: stream 0, protocol identifier 0. -/
def dataBody (tsn : BitVec 32) (streamSeqNr : BitVec 16) (segment : List Byte) : List Byte :=
  be32Bytes tsn ++ (be16Bytes 0 ++ (be16Bytes streamSeqNr ++ (be32Bytes 0 ++ segment)))

@[simp] theorem dataBody_length (tsn : BitVec 32) (streamSeqNr : BitVec 16) (segment : List Byte) :
    (dataBody tsn streamSeqNr segment).length = segment.length + 12 := by
  simp only [dataBody, List.length_append, be32Bytes_length, be16Bytes_length]
  omega

/-- A packet of the association with `segment` in a DATA chunk: the length field has the length of
the chunk, and fewer than four bytes fill it up to a multiple of four. -/
def IsDataPacket (s : Session) (tsn : BitVec 32) (streamSeqNr : BitVec 16)
    (segment packet : List Byte) : Prop :=
  segment.length + 16 < 65536 ∧ packet.length % 4 = 0 ∧
    ∃ (crc : BitVec 32) (padding : List Byte), padding.length < 4 ∧
      packet = Header.bytes ⟨s.myPort, s.theirPort, s.theirVerificationTag, crc⟩ ++
        (chunkBytes 0 3 (dataBody tsn streamSeqNr segment) ++ padding)

theorem dataPacket_isDataPacket (s : Session) {segment : List Byte}
    (hlen : segment.length + 16 < 65536) :
    IsDataPacket s s.myTsn s.myStreamSequenceNr segment (dataPacket s segment) := by
  have hout : be16Bytes s.myPort ++ be16Bytes s.theirPort ++ be32Bytes s.theirVerificationTag ++
      be32Bytes 0 ++ [0, 3] ++ be16Bytes (BitVec.ofNat 16 (segment.length + 16)) ++
      be32Bytes s.myTsn ++ be16Bytes 0 ++ be16Bytes s.myStreamSequenceNr ++ be32Bytes 0 ++ segment =
      Header.bytes ⟨s.myPort, s.theirPort, s.theirVerificationTag, 0⟩ ++
        chunkBytes 0 3 (dataBody s.myTsn s.myStreamSequenceNr segment) := by
    rw [chunkBytes, dataBody_length]
    simp [Header.bytes, dataBody]
  have hlength : (chunkBytes 0 3 (dataBody s.myTsn s.myStreamSequenceNr segment)).length =
      segment.length + 16 := by
    simp only [chunkBytes, List.length_append, List.length_cons, be16Bytes_length, dataBody_length]
    omega
  rw [dataPacket, hout, BufferOut.addPadding_eq _ (by omega), List.append_assoc, withCrc_header]
  generalize hpadding : List.replicate _ (0 : Byte) = padding
  have hsize : padding.length = (4 - (segment.length + 28) % 4) % 4 := by
    rw [← hpadding, List.length_replicate, List.length_append, Header.bytes_length, hlength]
    congr 3
    omega
  refine ⟨hlen, ?_, _, padding, by omega, rfl⟩
  rw [List.length_append, List.length_append, Header.bytes_length, hlength]
  omega

theorem IsDataPacket.isPadding {tsn : BitVec 32} {streamSeqNr : BitVec 16}
    {header segment padding : List Byte} (hheader : header.length = 12)
    (haligned :
      (header ++ (chunkBytes 0 3 (dataBody tsn streamSeqNr segment) ++ padding)).length % 4 = 0)
    (hpadding : padding.length < 4) :
    IsPadding (dataBody tsn streamSeqNr segment) padding := by
  simp only [List.length_append, chunkBytes, List.length_cons, be16Bytes_length, dataBody_length,
    hheader] at haligned
  rw [IsPadding, dataBody_length]
  omega

/-! ## The peer -/

/-- A packet of the association as the peer gets it. -/
def Session.arrival (s : Session) (out : List Byte) : Arrival := ⟨s.myAddr, s.theirAddr, out⟩

/-- A DATA packet with the expected TSN is delivered, and the next one is expected. -/
theorem receive_dataPacket {cfg : Config} (oracle : Oracle) {sessions : Sessions} {s peer : Session}
    {tsn : BitVec 32} {streamSeqNr : BitVec 16} {segment packet : List Byte}
    (hlistener : ((cfg.listeners s.theirPort).any fun l => l.newData) = true)
    (hpeer : sessions (getHash s.myAddr s.myPort s.theirPort) = some peer)
    (htsn : peer.theirTsn = tsn) (hpacket : IsDataPacket s tsn streamSeqNr segment packet) :
    (receive cfg oracle sessions (s.arrival packet)).sessions =
        sessions.set (getHash s.myAddr s.myPort s.theirPort)
          (some { peer with theirTsn := tsn + 1 }) ∧
      (receive cfg oracle sessions (s.arrival packet)).actions =
        [.newData { peer with theirTsn := tsn + 1 } segment] := by
  obtain ⟨hlen, haligned, crc, padding, hpadding, hbytes⟩ := hpacket
  have hsingle : IsSingle (s.arrival packet) ⟨s.myPort, s.theirPort, s.theirVerificationTag, crc⟩ 0
      (dataBody tsn streamSeqNr segment) := by
    rw [hbytes] at haligned
    exact ⟨by rw [dataBody_length]; omega, 3, padding,
      IsDataPacket.isPadding (Header.bytes_length _) haligned hpadding, hbytes⟩
  obtain ⟨position, hreceive⟩ := receive_single cfg oracle sessions hsingle
  obtain ⟨rest, hread, hrest⟩ := readData_append (BufferIn.ofBytes_left
    (dataBody tsn streamSeqNr segment))
  generalize hctx : ctxOf cfg oracle (s.arrival packet)
    ⟨s.myPort, s.theirPort, s.theirVerificationTag, crc⟩ = ctx at hreceive
  have hhash : ctx.hash = getHash s.myAddr s.myPort s.theirPort := by rw [← hctx]; rfl
  have hnewData : ctx.hasNewData = true := by rw [← hctx]; exact hlistener
  obtain ⟨out, honData⟩ := onData_expected
    (w := { sessions := sessions, reply := replyHeader ctx }) hnewData (hhash ▸ hpeer) hread
    htsn.symm
  rw [hreceive, onChunk, if_pos rfl, honData, hhash, ← htsn, ← hrest]
  exact ⟨rfl, rfl⟩

/-! ## All of the payload -/

/-- The packets of an association, one for each segment, with consecutive TSNs and stream sequence
numbers. -/
def ArePackets (s : Session) (segments packets : List (List Byte)) : Prop :=
  packets.length = segments.length ∧
    ∀ i segment packet, segments[i]? = some segment → packets[i]? = some packet →
      IsDataPacket s (s.myTsn + BitVec.ofNat 32 i) (s.myStreamSequenceNr + BitVec.ofNat 16 i)
        segment packet

/-- What a peer delivers that expects the TSN `tsn`. -/
def deliveries (peer : Session) (tsn : BitVec 32) (segments : List (List Byte)) : List Action :=
  segments.mapIdx fun i segment =>
    .newData { peer with theirTsn := tsn + BitVec.ofNat 32 (i + 1) } segment

theorem deliveries_cons (peer : Session) (tsn : BitVec 32) (segment : List Byte)
    (segments : List (List Byte)) :
    deliveries peer tsn (segment :: segments) =
      .newData { peer with theirTsn := tsn + 1 } segment ::
        deliveries { peer with theirTsn := tsn + 1 } (tsn + 1) segments := by
  rw [deliveries, List.mapIdx_cons, deliveries]
  congr 1
  apply congrArg (List.mapIdx · segments)
  funext i segment
  rw [add_one_add_ofNat]

theorem ArePackets.cons {s : Session} {segment packet : List Byte}
    {segments packets : List (List Byte)}
    (hpacket : IsDataPacket s s.myTsn s.myStreamSequenceNr segment packet)
    (hpackets : ArePackets s.sent segments packets) :
    ArePackets s (segment :: segments) (packet :: packets) := by
  obtain ⟨hlength, hall⟩ := hpackets
  refine ⟨congrArg (· + 1) hlength, ?_⟩
  intro i seg pack hseg hpack
  cases i with
  | zero =>
    obtain rfl := Option.some.inj hseg
    obtain rfl := Option.some.inj hpack
    rw [BitVec.add_zero, BitVec.add_zero]
    exact hpacket
  | succ i =>
    have h := hall i seg pack hseg hpack
    rw [Session.sent, add_one_add_ofNat, add_one_add_ofNat] at h
    exact h

/-- The loop of `send_data` against the receive loop of the peer. -/
theorem sendLoop_delivered {cfg : Config} {maxPacketSize : ℕ} (hmin : 51 ≤ maxPacketSize)
    (hmax : maxPacketSize ≤ 65535) {transmit : List Byte → Bool}
    (htransmit : ∀ out, transmit out = true) {turns : ℕ} {s peer : Session} {payload : List Byte}
    (hturns : payload.length ≤ turns) {sessions : Sessions}
    (hlistener : ((cfg.listeners s.theirPort).any fun l => l.newData) = true)
    (hpeer : sessions (getHash s.myAddr s.myPort s.theirPort) = some peer)
    (htsn : peer.theirTsn = s.myTsn) {inputs : List (Oracle × Arrival)}
    (hinputs : inputs.map Prod.snd = (sendLoop maxPacketSize transmit turns s payload).1.map
      s.arrival) :
    ∃ segments : List (List Byte), segments.flatten = payload ∧
      ArePackets s segments (sendLoop maxPacketSize transmit turns s payload).1 ∧
      (receiveAll cfg sessions inputs).2 = deliveries peer s.myTsn segments := by
  induction turns generalizing s peer payload sessions inputs with
  | zero =>
    obtain rfl : payload = [] := List.length_eq_zero_iff.mp (Nat.le_zero.mp hturns)
    obtain rfl : inputs = [] := List.map_eq_nil_iff.mp hinputs
    exact ⟨[], rfl, ⟨rfl, by simp⟩, rfl⟩
  | succ turns ih =>
    rw [sendLoop] at hinputs ⊢
    by_cases hpayload : payload = []
    · rw [if_pos hpayload] at hinputs ⊢
      obtain rfl : inputs = [] := List.map_eq_nil_iff.mp hinputs
      exact ⟨[], hpayload.symm, ⟨rfl, by simp⟩, rfl⟩
    · simp only [if_neg hpayload, htransmit, if_true] at hinputs ⊢
      have hpos : 0 < payload.length := List.length_pos_iff.mpr hpayload
      generalize hn : min payload.length (maxPacketSize - 50) = n at hinputs ⊢
      have hsegment : (payload.take n).length = n := by
        rw [List.length_take]
        omega
      have hpacket := dataPacket_isDataPacket s (show (payload.take n).length + 16 < 65536 by omega)
      obtain ⟨oracle, pkt, inputs', rfl⟩ :
          ∃ oracle pkt inputs', inputs = (oracle, pkt) :: inputs' := by
        cases inputs with
        | nil => exact absurd hinputs (by simp)
        | cons x xs => exact ⟨x.1, x.2, xs, rfl⟩
      rw [List.map_cons, List.map_cons, List.cons.injEq] at hinputs
      obtain ⟨rfl, hrest⟩ := hinputs
      obtain ⟨hsessions, hactions⟩ := receive_dataPacket oracle hlistener hpeer htsn hpacket
      have hturns' : (payload.drop n).length ≤ turns := by
        rw [List.length_drop]
        omega
      have hpeer' : sessions.set (getHash s.myAddr s.myPort s.theirPort)
          (some { peer with theirTsn := s.myTsn + 1 }) (getHash s.myAddr s.myPort s.theirPort) =
          some { peer with theirTsn := s.myTsn + 1 } := Function.update_self _ _ _
      obtain ⟨segments, hflatten, hpackets, hdeliver⟩ :=
        ih (s := s.sent) hturns' hlistener hpeer' rfl hrest
      refine ⟨payload.take n :: segments, ?_, hpackets.cons hpacket, ?_⟩
      · rw [List.flatten_cons, hflatten, List.take_append_drop]
      · rw [receiveAll, deliveries_cons]
        simp only [hactions, hsessions, List.singleton_append]
        exact congrArg _ hdeliver

/-- What `send_data` sends is delivered by a peer that expects it, in pieces and in order. -/
theorem sendData_delivered {cfg : Config} {maxPacketSize : ℕ} (hmin : 51 ≤ maxPacketSize)
    (hmax : maxPacketSize ≤ 65535) {transmit : List Byte → Bool}
    (htransmit : ∀ out, transmit out = true) (s peer : Session) (payload : List Byte)
    {sessions : Sessions}
    (hlistener : ((cfg.listeners s.theirPort).any fun l => l.newData) = true)
    (hpeer : sessions (getHash s.myAddr s.myPort s.theirPort) = some peer)
    (htsn : peer.theirTsn = s.myTsn) {inputs : List (Oracle × Arrival)}
    (hinputs : inputs.map Prod.snd =
      (sendData maxPacketSize transmit s payload).1.map s.arrival) :
    ∃ segments : List (List Byte), segments.flatten = payload ∧
      ArePackets s segments (sendData maxPacketSize transmit s payload).1 ∧
      (receiveAll cfg sessions inputs).2 = deliveries peer s.myTsn segments :=
  sendLoop_delivered hmin hmax htransmit (Nat.le_refl _) hlistener hpeer htsn hinputs

/-- The other end of `sampleSession`, with both counters about to wrap. -/
def sampleSender : Session where
  theirAddr := .ipv4 10 0 0 1
  theirPort := 7
  myAddr := .ipv4 10 0 0 2
  myPort := 4000
  theirTsn := 1
  myTsn := 0xffffffff
  myStreamSequenceNr := 0xffff
  theirVerificationTag := 0x55667788

/-- Seven bytes in packets of at most 53 bytes: three DATA chunks. -/
theorem sendData_delivered_wrapping :
    ∃ segments : List (List Byte), segments.flatten = [1, 2, 3, 4, 5, 6, 7] ∧
      ArePackets sampleSender segments
        (sendData 53 (fun _ => true) sampleSender [1, 2, 3, 4, 5, 6, 7]).1 ∧
      (receiveAll sampleConfig
        (Function.const _ (some { sampleSession with theirTsn := 0xffffffff }))
        ((sendData 53 (fun _ => true) sampleSender [1, 2, 3, 4, 5, 6, 7]).1.map fun out =>
          (⟨fun _ => ⟨1, 1, by decide⟩, fun _ _ => true⟩, sampleSender.arrival out))).2 =
        deliveries { sampleSession with theirTsn := 0xffffffff } 0xffffffff segments :=
  sendData_delivered (by decide) (by decide) (fun _ => rfl) sampleSender
    { sampleSession with theirTsn := 0xffffffff } [1, 2, 3, 4, 5, 6, 7] rfl rfl rfl
    (List.map_map ..)

end MyIp.Sctp
