import MyIp.Tcp.Stages

/-! # What a visit of the sender thread can do

The loop of `unacked_sender` over one session: which fields it changes, which segments it hands to
`transmit_packet`, and how much it adds to `data_since_last_ack`. -/

namespace MyIp.Tcp
open Bytes
set_option autoImplicit false

variable {κ : Type}

/-- A segment with `n` bytes of the buffer from offset `off` on, under sequence number `seq`. -/
def IsData (ts : TcpSession) (off n : ℕ) (seq : BitVec 32) (a : Act κ) : Prop :=
  ∃ us, a = .segment ts.theirAddr ts.myAddr (segmentBytes us ts.myAddr ts.myPort ts.theirAddr
    ts.theirPort flagAck ts.theirSeqNr seq 0 (readAt ts.unacked off n))

theorem IsData.congr {ts ts' : TcpSession} {off n : ℕ} {seq : BitVec 32} {a : Act κ}
    {us since : BitVec 64} (hts : ts' = { ts with eLastPktTs := us, dataSinceLastAck := since })
    (h : IsData ts' off n seq a) : IsData ts off n seq a := by
  rw [hts] at h
  exact h

section Loop
variable (idev : Idev) (us : BitVec 64) (rc : ℕ → Bool) (packetSize toSend : ℕ)

theorem resendLoop_turn (fuel k i : ℕ) (resendNr : BitVec 32) (ts : TcpSession) (h : i < toSend) :
    ∃ a : Act κ, IsData ts i (min packetSize (toSend - i)) resendNr a ∧
      resendLoop idev us rc packetSize toSend (fuel + 1) k i resendNr ts =
        if rc k then
          let rest := resendLoop idev us rc packetSize toSend fuel (k + 1) (i + packetSize)
            (resendNr + BitVec.ofNat 32 (min packetSize (toSend - i)))
            { ts with
              eLastPktTs := us
              dataSinceLastAck :=
                ts.dataSinceLastAck + BitVec.ofNat 64 (min packetSize (toSend - i)) }
          (rest.1, a :: rest.2)
        else ({ ts with eLastPktTs := us }, [a]) := by
  refine ⟨_, ⟨us, rfl⟩, ?_⟩
  have hadv : ∀ n, seqAdvance flagAck n = BitVec.ofNat 32 n := by
    intro n
    simp [seqAdvance, flagAck, flagFin, flagSyn]
  rw [resendLoop, if_pos h]
  simp only [sendSegment, readAt_length, Option.map_some, Option.getD_some, hadv,
    List.singleton_append]

theorem resendLoop_done (fuel k i : ℕ) (resendNr : BitVec 32) (ts : TcpSession) (h : ¬i < toSend) :
    resendLoop (κ := κ) idev us rc packetSize toSend fuel k i resendNr ts = (ts, []) := by
  cases fuel with
  | zero => rfl
  | succ fuel => rw [resendLoop, if_neg h]

theorem resendLoop_session : ∀ (fuel k i : ℕ) (resendNr : BitVec 32) (ts : TcpSession),
    ∃ last, ∃ t ≤ toSend - i,
      (resendLoop (κ := κ) idev us rc packetSize toSend fuel k i resendNr ts).1 =
        { ts with
          eLastPktTs := last
          dataSinceLastAck := ts.dataSinceLastAck + BitVec.ofNat 64 t }
  | 0, _, _, _, ts => ⟨ts.eLastPktTs, 0, by omega, by simp [resendLoop]⟩
  | fuel + 1, k, i, resendNr, ts => by
      by_cases h : i < toSend
      · obtain ⟨a, -, ht⟩ :=
          resendLoop_turn (κ := κ) idev us rc packetSize toSend fuel k i resendNr ts h
        rw [ht]
        split
        · obtain ⟨last, t, hle, hr⟩ := resendLoop_session fuel (k + 1) (i + packetSize)
            (resendNr + BitVec.ofNat 32 (min packetSize (toSend - i)))
            { ts with
              eLastPktTs := us
              dataSinceLastAck :=
                ts.dataSinceLastAck + BitVec.ofNat 64 (min packetSize (toSend - i)) }
          refine ⟨last, min packetSize (toSend - i) + t, by omega, ?_⟩
          simp only [hr, BitVec.ofNat_add, BitVec.add_assoc]
        · exact ⟨us, 0, by omega, by simp⟩
      · rw [resendLoop_done _ _ _ _ _ _ _ _ _ _ h]
        exact ⟨ts.eLastPktTs, 0, by omega, by simp⟩

/-- Every segment carries the bytes of the buffer that belong to its sequence number. -/
theorem resendLoop_acts (hp : 0 < packetSize) :
    ∀ (fuel k i : ℕ) (resendNr : BitVec 32) (ts : TcpSession),
    ∀ a ∈ (resendLoop (κ := κ) idev us rc packetSize toSend fuel k i resendNr ts).2,
      ∃ off n, i ≤ off ∧ 0 < n ∧ off + n ≤ toSend ∧
        IsData ts off n (resendNr + BitVec.ofNat 32 (off - i)) a
  | 0, _, _, _, _ => by simp [resendLoop]
  | fuel + 1, k, i, resendNr, ts => by
      intro a ha
      by_cases h : i < toSend
      · obtain ⟨a', hd, ht⟩ :=
          resendLoop_turn (κ := κ) idev us rc packetSize toSend fuel k i resendNr ts h
        have hfirst : ∃ off n, i ≤ off ∧ 0 < n ∧ off + n ≤ toSend ∧
            IsData ts off n (resendNr + BitVec.ofNat 32 (off - i)) a' :=
          ⟨i, min packetSize (toSend - i), le_refl i, by omega, by omega, by simpa using hd⟩
        rw [ht] at ha
        split at ha
        · rcases List.mem_cons.mp ha with rfl | ha
          · exact hfirst
          · obtain ⟨off, n, h1, h2, h3, h4⟩ := resendLoop_acts hp fuel (k + 1) (i + packetSize)
              (resendNr + BitVec.ofNat 32 (min packetSize (toSend - i))) _ a ha
            refine ⟨off, n, by omega, h2, h3, ?_⟩
            have hmin : min packetSize (toSend - i) = packetSize := by omega
            have hoff : off - i = packetSize + (off - (i + packetSize)) := by omega
            rw [hmin, BitVec.add_assoc, ← BitVec.ofNat_add, ← hoff] at h4
            exact IsData.congr rfl h4
        · obtain rfl := List.mem_singleton.mp ha
          exact hfirst
      · rw [resendLoop_done _ _ _ _ _ _ _ _ _ _ h] at ha
        simp at ha

end Loop

/-! ## The visit -/

/-- A visit does nothing, or it runs the loop from the first byte of the buffer on. -/
theorem unackedVisit_cases {idev : Idev} {now us : BitVec 64} {rc : ℕ → Bool} {ts ts' : TcpSession}
    {acts : List (Act κ)} (h : unackedVisit idev now us rc ts = some (ts', acts)) :
    (¬(1000000 ≤ (now - ts.rLastPktTs).toNat ∧ 0 < toSend ts) ∧ ts' = ts ∧ acts = []) ∨
    (1000000 ≤ (now - ts.rLastPktTs).toNat ∧ 0 < toSend ts ∧ 32 < idev.maxPacketSize ∧
      (ts', acts) = ({ (resendLoop (κ := κ) idev us rc (idev.maxPacketSize - 32).toNat
          (toSend ts).toNat (toSend ts).toNat 0 0 ts.mySeqNr ts).1 with rLastPktTs := now },
        (resendLoop idev us rc (idev.maxPacketSize - 32).toNat (toSend ts).toNat
          (toSend ts).toNat 0 0 ts.mySeqNr ts).2)) := by
  unfold unackedVisit at h
  split at h
  · next hc =>
    split at h
    · next hp => exact .inr ⟨hc.1, hc.2, by omega, (Option.some.inj h).symm⟩
    · cases h
  · next hc =>
    simp only [Option.some.injEq, Prod.mk.injEq] at h
    exact .inl ⟨hc, h.1.symm, h.2.symm⟩

theorem unackedVisit_session {idev : Idev} {now us : BitVec 64} {rc : ℕ → Bool}
    {ts ts' : TcpSession}
    {acts : List (Act κ)} (h : unackedVisit idev now us rc ts = some (ts', acts)) :
    ∃ last r, ∃ t ≤ (toSend ts).toNat,
      ts' = { ts with
        eLastPktTs := last
        rLastPktTs := r
        dataSinceLastAck := ts.dataSinceLastAck + BitVec.ofNat 64 t } := by
  rcases unackedVisit_cases h with ⟨-, rfl, -⟩ | ⟨-, -, -, he⟩
  · exact ⟨ts'.eLastPktTs, ts'.rLastPktTs, 0, by omega, by simp⟩
  · obtain ⟨last, t, ht, hr⟩ := resendLoop_session (κ := κ) idev us rc
      (idev.maxPacketSize - 32).toNat (toSend ts).toNat (toSend ts).toNat 0 0 ts.mySeqNr ts
    rw [hr] at he
    exact ⟨last, now, t, by omega, (Prod.mk.inj he).1⟩

theorem unackedVisit_acts {idev : Idev} {now us : BitVec 64} {rc : ℕ → Bool} {ts ts' : TcpSession}
    {acts : List (Act κ)} (h : unackedVisit idev now us rc ts = some (ts', acts)) :
    ∀ a ∈ acts, ∃ off n, 0 < n ∧ off + n ≤ (toSend ts).toNat ∧
      IsData ts off n (ts.mySeqNr + BitVec.ofNat 32 off) a := by
  intro a ha
  rcases unackedVisit_cases h with ⟨-, -, rfl⟩ | ⟨-, -, hp, he⟩
  · simp at ha
  · rw [(Prod.mk.inj he).2] at ha
    obtain ⟨off, n, -, h2, h3, h4⟩ := resendLoop_acts (κ := κ) idev us rc
      (idev.maxPacketSize - 32).toNat (toSend ts).toNat (by omega) _ _ _ _ _ a ha
    exact ⟨off, n, h2, h3, by simpa using h4⟩

theorem toSend_le {ts : TcpSession} (h : ts.unackedSize.toNat < 2 ^ 31) :
    toSend ts ≤ ts.unackedSize.toNat := by
  have hmin : (if ts.windowSize.setWidth 64 - ts.dataSinceLastAck < ts.unackedSize then
      ts.windowSize.setWidth 64 - ts.dataSinceLastAck else ts.unackedSize).toNat ≤
      ts.unackedSize.toNat := by
    split
    · next hlt => exact Nat.le_of_lt (BitVec.lt_def.mp hlt)
    · exact le_refl _
  unfold toSend
  dsimp only
  rw [BitVec.toInt_eq_toNat_of_lt]
  · rw [BitVec.toNat_setWidth]
    omega
  · rw [BitVec.toNat_setWidth]
    omega

end MyIp.Tcp
