import MyIp.Foundations.Run
import MyIp.Sctp.Transfer

/-! # The counters of a send that fails

`send_data` as a machine whose events are the answers of `transmit_packet`: one step is one turn of
its loop, with the packet as output. `o` is the position in the payload; it does not move forward
where the maximum packet size leaves no room for data (`idev->get_max_packet_size()` is not
checked), and the loop then ends only when a transmission fails.

Both counters are advanced while the packet is built. So long as every packet was transmitted they
are one past those of the last one (`run_counters`); a packet that is not transmitted has used up a
pair of them. -/

namespace MyIp.Sctp
set_option autoImplicit false

open Bytes EventMachine

/-- The variables of `send_data`. -/
structure Sending where
  session : Session
  o : ℤ := 0
  ok : Bool := true

/-- A packet of `send_data` with `nBytesToAdd` in its length field. -/
def sentPacket (s : Session) (nBytesToAdd : ℤ) (segment : List Byte) : List Byte :=
  withCrc (BufferOut.addPadding (be16Bytes s.myPort ++ be16Bytes s.theirPort ++
    be32Bytes s.theirVerificationTag ++ be32Bytes 0 ++ [0, 3] ++
    be16Bytes (BitVec.ofInt 16 (nBytesToAdd + 16)) ++ be32Bytes s.myTsn ++ be16Bytes 0 ++
    be16Bytes s.myStreamSequenceNr ++ be32Bytes 0 ++ segment) 4)

/-- One turn of the loop of `send_data`. -/
def sendStep (maxPacketSize : ℤ) (payload : List Byte) (st : Sending) (transmitted : Bool) :
    Option (Sending × List Byte) :=
  if st.ok = false ∨ st.o = payload.length then none
  else
    let nBytesToAdd := min (payload.length - st.o) (maxPacketSize - 50)
    let segment := (payload.drop st.o.toNat).take nBytesToAdd.toNat
    some (⟨st.session.sent, st.o + nBytesToAdd, transmitted⟩,
      sentPacket st.session nBytesToAdd segment)

abbrev SendMove := Move Sending Bool (List Byte)

/-- `my_tsn` and the stream sequence number. -/
def Session.counters (s : Session) : BitVec 32 × BitVec 16 := (s.myTsn, s.myStreamSequenceNr)

/-- The TSN and the stream sequence number of the chunk in a packet. -/
def countersOf (packet : List Byte) : Option (BitVec 32 × BitVec 16) :=
  match readData (.ofBytes (packet.drop 16)) with
  | .error _ => none
  | .ok data => some (data.tsn, data.streamSeqNr)

/-- One past the counters of the last chunk that was transmitted; with none, those that the
association began with. -/
def afterTransmitted (s : Session) (tr : List SendMove) : BitVec 32 × BitVec 16 :=
  match (tr.filter fun m => m.event).getLast?.bind fun m => countersOf m.output with
  | none => s.counters
  | some (tsn, streamSeqNr) => (tsn + 1, streamSeqNr + 1)

/-- When `send_data` returns `false`, the association goes on after the last chunk that was
transmitted. -/
def InStep (s : Session) (tr : List SendMove) (st : Sending) : Prop :=
  st.ok = false → st.session.counters = afterTransmitted s tr

theorem countersOf_sentPacket (s : Session) (nBytesToAdd : ℤ) (segment : List Byte) :
    countersOf (sentPacket s nBytesToAdd segment) = some s.counters := by
  rw [sentPacket, BufferOut.addPadding_eq _ (by omega)]
  generalize List.replicate _ (0 : Byte) = padding
  have hout : be16Bytes s.myPort ++ be16Bytes s.theirPort ++ be32Bytes s.theirVerificationTag ++
      be32Bytes 0 ++ [0, 3] ++ be16Bytes (BitVec.ofInt 16 (nBytesToAdd + 16)) ++
      be32Bytes s.myTsn ++ be16Bytes 0 ++ be16Bytes s.myStreamSequenceNr ++ be32Bytes 0 ++
      segment ++ padding = Header.bytes ⟨s.myPort, s.theirPort, s.theirVerificationTag, 0⟩ ++
        ([0, 3] ++ be16Bytes (BitVec.ofInt 16 (nBytesToAdd + 16)) ++
          (be32Bytes s.myTsn ++ (be16Bytes 0 ++ (be16Bytes s.myStreamSequenceNr ++
            (be32Bytes 0 ++ (segment ++ padding)))))) := by
    simp [Header.bytes]
  rw [hout, withCrc_header, countersOf]
  obtain ⟨b, hread, -⟩ := readData_append (BufferIn.ofBytes_left (be32Bytes s.myTsn ++
    (be16Bytes 0 ++ (be16Bytes s.myStreamSequenceNr ++ (be32Bytes 0 ++ (segment ++ padding))))))
  generalize generateCrc32c _ = crc
  have hdrop : (Header.bytes ⟨s.myPort, s.theirPort, s.theirVerificationTag, crc⟩ ++
      ([0, 3] ++ be16Bytes (BitVec.ofInt 16 (nBytesToAdd + 16)) ++
        (be32Bytes s.myTsn ++ (be16Bytes 0 ++ (be16Bytes s.myStreamSequenceNr ++
          (be32Bytes 0 ++ (segment ++ padding))))))).drop 16 =
      be32Bytes s.myTsn ++ (be16Bytes 0 ++ (be16Bytes s.myStreamSequenceNr ++
        (be32Bytes 0 ++ (segment ++ padding)))) := rfl
  rw [hdrop, hread]
  rfl

theorem counters_sent_ne (s : Session) : s.sent.counters ≠ s.counters := by
  intro h
  have htsn : s.myTsn + 1 = s.myTsn := congrArg Prod.fst h
  bv_omega

/-! ## Runs -/

theorem afterTransmitted_failed (s : Session) (tr : List SendMove) {m : SendMove}
    (h : m.event = false) : afterTransmitted s (tr ++ [m]) = afterTransmitted s tr := by
  simp only [afterTransmitted, List.filter_append, List.filter_singleton, h, cond_false,
    List.append_nil]

theorem afterTransmitted_sent (s : Session) (tr : List SendMove) {m : SendMove}
    {counters : BitVec 32 × BitVec 16} (h : m.event = true)
    (hcounters : countersOf m.output = some counters) :
    afterTransmitted s (tr ++ [m]) = (counters.1 + 1, counters.2 + 1) := by
  simp only [afterTransmitted, List.filter_append, List.filter_singleton, h, cond_true,
    List.getLast?_append, List.getLast?_singleton, Option.some_or, Option.bind_some, hcounters]

section Runs
variable {maxPacketSize : ℤ} {payload : List Byte}

theorem sendStep_eq {st st' : Sending} {transmitted : Bool} {packet : List Byte}
    (h : sendStep maxPacketSize payload st transmitted = some (st', packet)) :
    st.ok = true ∧ st'.session = st.session.sent ∧ st'.ok = transmitted ∧
      countersOf packet = some st.session.counters := by
  rw [sendStep] at h
  split at h
  · cases h
  · rename_i hgoes
    obtain ⟨rfl, rfl⟩ := Prod.mk.inj (Option.some.inj h)
    refine ⟨?_, rfl, rfl, countersOf_sentPacket _ _ _⟩
    cases hok : st.ok with
    | true => rfl
    | false => exact absurd (Or.inl hok) hgoes

/-- While all packets are transmitted, the counters are those of the next chunk. -/
theorem run_counters {s : Session} {tr : List SendMove} {st : Sending}
    (run : Run (sendStep maxPacketSize payload) { session := s } tr st) :
    (st.ok = true ↔ ∀ m ∈ tr, m.event = true) ∧
      (st.ok = true → afterTransmitted s tr = st.session.counters) := by
  induction run with
  | nil => exact ⟨by simp, fun _ => rfl⟩
  | @snoc tr st st' transmitted packet run made ih =>
    obtain ⟨hall, -⟩ := ih
    obtain ⟨hok, hsession, hok', hpacket⟩ := sendStep_eq made
    constructor
    · rw [List.forall_mem_append, List.forall_mem_singleton, hok']
      exact (and_iff_right (hall.mp hok)).symm
    · intro htransmitted
      rw [afterTransmitted_sent s tr (hok'.symm.trans htransmitted) hpacket, hsession]
      rfl

/-- A send leaves the counters in step exactly when none of its transmissions fails. -/
theorem inStep_iff {s : Session} {tr : List SendMove} {st : Sending}
    (run : Run (sendStep maxPacketSize payload) { session := s } tr st) :
    InStep s tr st ↔ ∀ m ∈ tr, m.event = true := by
  rw [← (run_counters run).1]
  constructor
  · intro hstep
    cases run with
    | nil => rfl
    | @snoc tr before _ transmitted packet run made =>
      obtain ⟨hok, hsession, hok', -⟩ := sendStep_eq made
      cases transmitted with
      | true => exact hok'
      | false =>
        have hcounters := hstep hok'
        rw [hsession, afterTransmitted_failed s tr rfl, (run_counters run).2 hok] at hcounters
        exact absurd hcounters (counters_sent_ne before.session)
  · intro hok hfailed
    rw [hok] at hfailed
    cases hfailed

end Runs

/-! ## `sendLoop` -/

theorem sentPacket_eq (s : Session) (segment : List Byte) :
    sentPacket s segment.length segment = dataPacket s segment := by
  have hlen : ((segment.length : ℤ) + 16) = ((segment.length + 16 : ℕ) : ℤ) := by push_cast; rfl
  rw [sentPacket, hlen, BitVec.ofInt_natCast, dataPacket]

theorem sendStep_room {maxPacketSize : ℕ} (hmin : 51 ≤ maxPacketSize) (s : Session)
    {payload : List Byte} {o : ℕ} (ho : o < payload.length) (transmitted : Bool) :
    sendStep maxPacketSize payload { session := s, o := o } transmitted =
      some (⟨s.sent, (o + min (payload.drop o).length (maxPacketSize - 50) : ℕ), transmitted⟩,
        dataPacket s
          ((payload.drop o).take (min (payload.drop o).length (maxPacketSize - 50)))) := by
  have hn : min ((payload.length : ℤ) - o) (maxPacketSize - 50) =
      (min (payload.drop o).length (maxPacketSize - 50) : ℕ) := by
    rw [List.length_drop]
    omega
  generalize hm : min (payload.drop o).length (maxPacketSize - 50) = n at hn
  have hsegment : ((payload.drop o).take n).length = n := by
    rw [List.length_take]
    omega
  have hpacket := sentPacket_eq s ((payload.drop o).take n)
  rw [hsegment] at hpacket
  rw [sendStep, if_neg (by simp; omega)]
  simp only [hn, Int.toNat_natCast, hpacket, Nat.cast_add]

/-- The loop as it was described with the answers as a function of the packet is a run. -/
theorem sendLoop_run {maxPacketSize : ℕ} (hmin : 51 ≤ maxPacketSize) (transmit : List Byte → Bool)
    (payload : List Byte) (turns : ℕ) (s : Session) {o : ℕ} (ho : o ≤ payload.length)
    (hturns : payload.length ≤ o + turns) :
    ∃ (tr : List SendMove) (st : Sending),
      Run (sendStep maxPacketSize payload) { session := s, o := o } tr st ∧
      tr.map (fun m => m.output) =
        (sendLoop maxPacketSize transmit turns s (payload.drop o)).1 ∧
      (∀ m ∈ tr, m.event = transmit m.output) ∧
      (st.session, st.ok) = (sendLoop maxPacketSize transmit turns s (payload.drop o)).2 ∧
      (st.ok = true → st.o = payload.length) := by
  induction turns generalizing s o with
  | zero =>
    obtain rfl : o = payload.length := by omega
    exact ⟨[], _, Run.nil, rfl, by simp, rfl, fun _ => rfl⟩
  | succ turns ih =>
    rw [sendLoop]
    by_cases hend : o = payload.length
    · subst hend
      rw [if_pos List.drop_length]
      exact ⟨[], _, Run.nil, rfl, by simp, rfl, fun _ => rfl⟩
    · have hne : payload.drop o ≠ [] := by
        rw [Ne, List.drop_eq_nil_iff]
        omega
      have hmade := sendStep_room hmin s (show o < payload.length by omega)
      rw [if_neg hne]
      generalize hn : min (payload.drop o).length (maxPacketSize - 50) = n at hmade ⊢
      rw [List.length_drop] at hn
      cases hanswer : transmit (dataPacket s ((payload.drop o).take n)) with
      | true =>
        obtain ⟨tr, st, run, houtputs, hanswers, hfinal, hdone⟩ :=
          ih s.sent (show o + n ≤ payload.length by omega) (by omega)
        rw [← List.drop_drop] at houtputs hfinal
        refine ⟨_ :: tr, st, (Run.single (hmade true)).trans run, ?_, ?_, ?_, hdone⟩
        · simp only [List.map_cons, houtputs, hanswer, if_true]
        · exact List.forall_mem_cons.mpr ⟨hanswer.symm, hanswers⟩
        · simp only [hanswer, if_true, hfinal]
      | false =>
        refine ⟨_, _, Run.single (hmade false), ?_, ?_, ?_, ?_⟩
        · simp only [List.map_cons, List.map_nil, hanswer, Bool.false_eq_true, if_false]
        · exact List.forall_mem_singleton.mpr hanswer.symm
        · simp only [hanswer, Bool.false_eq_true, if_false]
        · exact fun h => absurd h Bool.false_ne_true

/-! ## Samples -/

/-- Seven bytes in three packets, all of which are transmitted. -/
theorem inStep_iff_three :
    InStep sampleSender
        ((exec (sendStep 53 [1, 2, 3, 4, 5, 6, 7]) { session := sampleSender }
          [true, true, true]).get rfl).1
        ((exec (sendStep 53 [1, 2, 3, 4, 5, 6, 7]) { session := sampleSender }
          [true, true, true]).get rfl).2 ↔
      ∀ m ∈ ((exec (sendStep 53 [1, 2, 3, 4, 5, 6, 7]) { session := sampleSender }
        [true, true, true]).get rfl).1, m.event = true :=
  inStep_iff (exec_get_run _ _ _ rfl)

instance (s : Session) (tr : List SendMove) (st : Sending) : Decidable (InStep s tr st) :=
  inferInstanceAs (Decidable (_ → _))

/-- The second of the three packets is not transmitted: the next send begins one TSN too late. -/
theorem not_inStep :
    ∃ tr st, Run (sendStep 53 [1, 2, 3, 4, 5, 6, 7]) { session := sampleSender } tr st ∧
      ¬ InStep sampleSender tr st :=
  exists_run_of_exec _ _ [true, false] (fun tr st => ¬ InStep sampleSender tr st)
    (by decide +kernel)

end MyIp.Sctp
