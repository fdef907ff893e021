import MyIp.Tcp.Handshake
import MyIp.Tcp.Window

/-! # Acknowledgements and the send buffer

The ACK of an established session takes `ack_n` bytes off the buffer. The branch that notices that
there are not so many marks the session as failed and goes on to the subtraction all the same. So
the buffer stays what it was, less the acknowledged bytes, exactly for the acknowledgements that do
not go beyond it: `ack_keeps_buffer_iff`. -/

namespace MyIp.Tcp
open Bytes EventMachine
set_option autoImplicit false

variable {κ : Type}

/-! ## Which stages touch the buffer -/

def bufView (ts : TcpSession) : List Byte × BitVec 64 := (ts.unacked, ts.unackedSize)

theorem send_bufView (w : Work κ) (c : Call κ) (tsEcr : BitVec 32) (flags : Byte)
    (ackTo : BitVec 32) : bufView (w.send c tsEcr flags ackTo).session = bufView w.session := by
  rw [send_session]
  rfl

theorem receiveSyn_bufView (c : Call κ) (tsEcr : BitVec 32) (ts : TcpSession) :
    bufView (receiveSyn c tsEcr (receiveRst c (beginSegment c ts))).session = bufView ts := by
  have hrst : bufView (receiveRst c (beginSegment c ts)).session = bufView ts := by
    rcases receiveRst_cases c (beginSegment c ts) with ⟨-, he⟩ | ⟨-, -, he⟩
    · rw [he]
      rfl
    · rw [he]
      rfl
  rcases receiveSyn_cases c tsEcr (receiveRst c (beginSegment c ts)) with ⟨-, he⟩ | ⟨-, -, -, he⟩
  · rw [he]
    exact hrst
  · rw [he]
    exact (send_bufView ..).trans hrst

theorem finStages_bufView (c : Call κ) (tsEcr : BitVec 32) (w : Work κ) :
    bufView (ackFin c tsEcr (receiveFin c w)).session = bufView w.session := by
  have hfin : bufView (receiveFin c w).session = bufView w.session := by
    rcases receiveFin_cases c w with ⟨-, he⟩ | ⟨-, -, he⟩
    · rw [he]
    · rw [he]
      rfl
  rcases ackFin_cases c tsEcr (receiveFin c w) with ⟨-, he⟩ | ⟨-, -, he⟩
  · rw [he]
    exact hfin
  · rw [he]
    exact (send_bufView ..).trans hfin

theorem ackEstablished_bufView (c : Call κ) (tsEcr : BitVec 32) (w : Work κ) :
    bufView (ackEstablished c tsEcr w).session = bufView
      (if 0 < ackedBytes (Segment.ackNr c.pkt.data) w.session ∧ w.session.unackedSize ≠ 0 then
        dropAcked (ackedBytes (Segment.ackNr c.pkt.data) w.session) w.session
      else w.session) := by
  rcases ackEstablished_cases c tsEcr w with ⟨hno, he⟩ | ⟨hpos, hne, he⟩
  · rw [if_neg hno, he]
  · rw [if_pos ⟨hpos, hne⟩, he]
    obtain ⟨r, hr⟩ := forceSend_session (sendDrainedFin c tsEcr
      (takeAcked (ackedBytes (Segment.ackNr c.pkt.data) w.session) w))
    have hforce : bufView (forceSend (sendDrainedFin c tsEcr
        (takeAcked (ackedBytes (Segment.ackNr c.pkt.data) w.session) w))).session =
        bufView (sendDrainedFin c tsEcr
          (takeAcked (ackedBytes (Segment.ackNr c.pkt.data) w.session) w)).session := by
      rw [hr]
      rfl
    refine hforce.trans ?_
    rcases sendDrainedFin_cases c tsEcr
      (takeAcked (ackedBytes (Segment.ackNr c.pkt.data) w.session) w) with ⟨-, hd⟩ | ⟨-, -, hd⟩
    · rw [hd]
      rfl
    · rw [hd]
      exact send_bufView ..

theorem dropAcked_bufView {s t : TcpSession} (n : ℤ) (h : bufView s = bufView t) :
    bufView (dropAcked n s) = bufView (dropAcked n t) := by
  simp only [bufView, Prod.mk.injEq] at h
  simp [bufView, dropAcked, leftBytes, h.1, h.2]

theorem ackByState_bufView {c : Call κ} {w : Work κ} (tsEcr : BitVec 32)
    (hs : w.session.state ≠ .established) :
    bufView (ackByState c tsEcr w).session = bufView w.session := by
  rcases ackByState_cases c tsEcr w with
    ⟨-, hb⟩ | ⟨-, hb⟩ | ⟨-, hb⟩ | ⟨hest, -⟩ | ⟨-, -, -, -, hb⟩
  · rw [hb, ackSynSent_session]
    rfl
  · rw [hb, ackSynRcvd_session]
    rfl
  · rw [hb]
    rfl
  · exact absurd hest hs
  · rw [hb]

/-- The buffer after the ACK stage of a session that was `ts` before the segment. -/
def bufferAfterAck (b : List Byte) (ts : TcpSession) : List Byte × BitVec 64 :=
  bufView (if ts.state = .established then ackEffect b ts else ts)

theorem bufferAfterAck_of_not_counts {b : List Byte} (h : ackCounts b = false) (ts : TcpSession) :
    bufferAfterAck b ts = bufView ts := by
  unfold bufferAfterAck ackEffect
  simp [h]

theorem receiveAck_bufView {c : Call κ} {ts : TcpSession} (tsEcr : BitVec 32)
    (fits : Segment.headerSize c.pkt.data ≤ c.pkt.data.length) :
    bufView (receiveAck c tsEcr (receiveSyn c tsEcr (receiveRst c (beginSegment c ts)))).session =
      bufferAfterAck c.pkt.data ts := by
  obtain ⟨hdel, -, hstate, hview⟩ := receiveSyn_begin c tsEcr ts
  have hbuf := receiveSyn_bufView c tsEcr ts
  generalize receiveSyn c tsEcr (receiveRst c (beginSegment c ts)) = w at hdel hstate hview hbuf
  have hstart : w.session.unackedStartSeqNr = ts.unackedStartSeqNr := congrArg (·.2.1) hview
  have hsize : w.session.unackedSize = ts.unackedSize := congrArg (·.2.2.1) hview
  by_cases hs : w.session.state = .established
  · -- nothing came before the ACK stage
    obtain ⟨hts, hrst⟩ := stateAtAck_established.mp (hstate.symm.trans hs)
    rw [hts, resets_established, hrst] at hdel
    rcases receiveAck_cases c tsEcr w with ⟨hno, he⟩ | ⟨hack, -, he⟩
    · have hack : Segment.hasAck c.pkt.data = false := by simpa [hdel] using hno
      rw [he, hbuf, bufferAfterAck_of_not_counts (by simp [ackCounts, hack])]
    · have hcounts : ackCounts c.pkt.data = true := by simp [ackCounts, hack, hrst, fits]
      have hb : ackByState c tsEcr w = ackEstablished c tsEcr w := by simp only [ackByState, hs]
      have hest := ackEstablished_bufView c tsEcr w
      rw [he, hb]
      refine hest.trans ?_
      simp only [bufferAfterAck, hts, if_true, ackEffect, hcounts, true_and, ackedBytes, hstart,
        hsize]
      split
      · exact dropAcked_bufView _ hbuf
      · exact hbuf
  · have hkeep : bufView (receiveAck c tsEcr w).session = bufView w.session := by
      rcases receiveAck_cases c tsEcr w with ⟨-, he⟩ | ⟨-, -, he⟩
      · rw [he]
      · rw [he]
        exact ackByState_bufView tsEcr hs
    rw [hkeep, hbuf]
    unfold bufferAfterAck
    split
    · next hts =>
      have hrst : Segment.hasRst c.pkt.data = true := by
        by_contra hr
        exact hs (hstate.trans (stateAtAck_established.mpr ⟨hts, by simpa using hr⟩))
      simp [ackEffect, ackCounts, hrst]
    · rfl

theorem processSegment_bufView (c : Call κ) (tsEcr : BitVec 32) (ts : TcpSession) :
    bufView (processSegment c tsEcr ts).session = bufferAfterAck c.pkt.data ts := by
  obtain ⟨us, term, he⟩ := endSegment_session c tsEcr
    (processPayload c tsEcr (processFlags c tsEcr (beginSegment c ts)))
  obtain ⟨seq, us', hp⟩ := processPayload_session c tsEcr (processFlags c tsEcr (beginSegment c ts))
  have hflags : bufView (processSegment c tsEcr ts).session =
      bufView (processFlags c tsEcr (beginSegment c ts)).session := by
    rw [processSegment, he, hp]
    rfl
  rw [hflags]
  unfold processFlags
  split
  · next hf =>
    have hshort : c.pkt.data.length < Segment.headerSize c.pkt.data := by
      simpa [beginSegment] using hf
    rw [bufferAfterAck_of_not_counts (by simp [ackCounts, Nat.not_le.mpr hshort])]
    rfl
  · next hf =>
    have hfits : Segment.headerSize c.pkt.data ≤ c.pkt.data.length := by
      simpa [beginSegment] using hf
    rw [finStages_bufView, receiveAck_bufView tsEcr hfits]

/-! ## Taking acknowledged bytes off -/

/-- The segment acknowledges more bytes than the buffer of the session holds. -/
def AcksBeyond (b : List Byte) (ts : TcpSession) : Prop :=
  ackCounts b = true ∧ ts.unackedSize ≠ 0 ∧
    (ts.unackedSize.toNat : ℤ) < ackedBytes (Segment.ackNr b) ts

instance (b : List Byte) (ts : TcpSession) : Decidable (AcksBeyond b ts) :=
  inferInstanceAs (Decidable (ackCounts b = true ∧ ts.unackedSize ≠ 0 ∧
    (ts.unackedSize.toNat : ℤ) < ackedBytes (Segment.ackNr b) ts))

/-- The bytes that wait for an acknowledgement. -/
def unackedBytes (v : List Byte × BitVec 64) : List Byte := v.1.take v.2.toNat

/-- The block is large enough for the bytes in use. -/
def BlockFits (v : List Byte × BitVec 64) : Prop := v.2.toNat ≤ v.1.length

/-- Whatever part of the block was moved, only bytes that were waiting before are waiting. -/
theorem dropAcked_subset {ts : TcpSession} {k : ℕ} (hk : k ≤ ts.unackedSize.toNat)
    (fits : BlockFits (bufView ts)) :
    unackedBytes (bufView (dropAcked k ts)) ⊆ unackedBytes (bufView ts) := by
  have hfits : ts.unackedSize.toNat ≤ ts.unacked.length := fits
  have hleft := leftBytes_toNat_le hk
  intro x hx
  show x ∈ ts.unacked.take ts.unackedSize.toNat
  change x ∈ (dropAcked k ts).unacked.take (dropAcked k ts).unackedSize.toNat at hx
  rw [dropAcked_size hk] at hx
  simp only [dropAcked, Int.toNat_natCast] at hx
  split at hx
  · rw [moveWithin, writeAt, List.take_zero, List.nil_append, readAt_length, Nat.zero_add,
      List.take_append, readAt_length, readAt_inside (by omega)] at hx
    rcases List.mem_append.mp hx with hx | hx
    · have hmem := List.mem_of_mem_take hx
      rw [List.take_drop] at hmem
      exact List.take_subset_take_left _ (by omega) (List.mem_of_mem_drop hmem)
    · rw [List.take_drop] at hx
      exact List.take_subset_take_left _ (by omega) (List.mem_of_mem_drop hx)
  · exact List.take_subset_take_left _ (by omega) hx

/-- An acknowledgement that does not go beyond the buffer changes nothing, or it takes off bytes
that are there. -/
theorem ackEffect_cases {b : List Byte} {ts : TcpSession} (inside : ¬ AcksBeyond b ts) :
    ackEffect b ts = ts ∨ ∃ k : ℕ, k ≤ ts.unackedSize.toNat ∧ ackEffect b ts = dropAcked k ts := by
  unfold ackEffect
  split
  · next hc =>
    obtain ⟨hb, hpos, hne⟩ := hc
    obtain ⟨k, hk⟩ := Int.eq_ofNat_of_zero_le (le_of_lt hpos)
    refine .inr ⟨k, ?_, by rw [hk]⟩
    by_contra hlt
    exact inside ⟨hb, hne, by omega⟩
  · exact .inl rfl

/-- One that does makes the size wrap around. -/
theorem ackEffect_beyond {b : List Byte} {ts : TcpSession} (beyond : AcksBeyond b ts) :
    ts.unackedSize.toNat < (ackEffect b ts).unackedSize.toNat := by
  obtain ⟨hb, hne, hlt⟩ := beyond
  have hacked : ackedBytes (Segment.ackNr b) ts < 2 ^ 31 := BitVec.toInt_lt
  obtain ⟨k, hk⟩ := Int.eq_ofNat_of_zero_le (show 0 ≤ ackedBytes (Segment.ackNr b) ts by omega)
  have hsize := ts.unackedSize.isLt
  rw [ackEffect, if_pos ⟨hb, by omega, hne⟩, hk]
  show _ < (ts.unackedSize - BitVec.ofInt 64 (k : ℤ)).toNat
  rw [BitVec.ofInt_natCast, BitVec.toNat_sub, BitVec.toNat_ofNat]
  omega

/-! ## Runs in which no acknowledgement goes beyond the buffer -/

/-- The move acknowledges no more than there is, and appends no more than can be counted. -/
def BufferOk (m : SessionMove κ) : Prop :=
  match m.event with
  | .segment c => m.before.state = .established → ¬ AcksBeyond c.pkt.data m.before
  | .sendData data => appends m.before = true → m.before.unackedSize.toNat + data.length < 2 ^ 64
  | _ => True

instance (m : SessionMove κ) : Decidable (BufferOk m) :=
  match m with
  | ⟨ts, .segment c, _⟩ => inferInstanceAs (Decidable (ts.state = .established →
      ¬ AcksBeyond c.pkt.data ts))
  | ⟨ts, .sendData data, _⟩ => inferInstanceAs (Decidable (appends ts = true →
      ts.unackedSize.toNat + data.length < 2 ^ 64))
  | ⟨_, .endSession _ _, _⟩ => isTrue trivial
  | ⟨_, .unackedVisit _ _ _ _, _⟩ => isTrue trivial
  | ⟨_, .waitTurn _ _ _, _⟩ => isTrue trivial
  | ⟨_, .setIsTerminating, _⟩ => isTrue trivial
  | ⟨_, .setSessionTimeout _, _⟩ => isTrue trivial

/-- The buffer holds nothing but bytes of `all`, and as long as their number fits in an `int` it
holds the last ones of them. -/
structure HeldFrom (all : List Byte) (v : List Byte × BitVec 64) : Prop where
  fits : BlockFits v
  subset : unackedBytes v ⊆ all
  suffix : all.length < 2 ^ 31 → unackedBytes v <:+ all

theorem HeldFrom.refl {v : List Byte × BitVec 64} (fits : BlockFits v) :
    HeldFrom (unackedBytes v) v :=
  ⟨fits, List.Subset.refl _, fun _ => List.suffix_refl _⟩

section Held
variable {all : List Byte} {ts : TcpSession}

theorem HeldFrom.size_le (h : HeldFrom all (bufView ts)) (small : all.length < 2 ^ 31) :
    ts.unackedSize.toNat < 2 ^ 31 := by
  have hfits : ts.unackedSize.toNat ≤ ts.unacked.length := h.fits
  have hlen := (h.suffix small).length_le
  rw [unackedBytes, List.length_take] at hlen
  change min ts.unackedSize.toNat ts.unacked.length ≤ _ at hlen
  omega

theorem HeldFrom.drop {k : ℕ} (h : HeldFrom all (bufView ts)) (hk : k ≤ ts.unackedSize.toNat) :
    HeldFrom all (bufView (dropAcked k ts)) := by
  refine ⟨dropAcked_fits hk h.fits, List.Subset.trans (dropAcked_subset hk h.fits) h.subset, ?_⟩
  intro small
  have hbytes : unackedBytes (bufView (dropAcked k ts)) = (unackedBytes (bufView ts)).drop k :=
    dropAcked_bytes hk h.fits (h.size_le small)
  rw [hbytes]
  exact (List.drop_suffix k _).trans (h.suffix small)

theorem HeldFrom.ack {b : List Byte} (h : HeldFrom all (bufView ts))
    (inside : ts.state = .established → ¬ AcksBeyond b ts) :
    HeldFrom all (bufferAfterAck b ts) := by
  unfold bufferAfterAck
  split
  · next hs =>
    rcases ackEffect_cases (inside hs) with he | ⟨k, hk, he⟩
    · rw [he]
      exact h
    · rw [he]
      exact h.drop hk
  · exact h

theorem HeldFrom.append {data : List Byte} (h : HeldFrom all (bufView ts))
    (room : ts.unackedSize.toNat + data.length < 2 ^ 64) :
    HeldFrom (all ++ data) (bufView (appendUnacked ts data)) := by
  have hbytes : unackedBytes (bufView (appendUnacked ts data)) =
      unackedBytes (bufView ts) ++ data :=
    appendUnacked_bytes room h.fits
  refine ⟨appendUnacked_fits room, ?_, ?_⟩
  · rw [hbytes]
    exact List.append_subset.mpr ⟨List.Subset.trans h.subset (List.subset_append_left ..),
      List.subset_append_right ..⟩
  · intro small
    rw [List.length_append] at small
    obtain ⟨l, hl⟩ := h.suffix (by omega)
    rw [hbytes]
    exact ⟨l, by rw [← hl, List.append_assoc]⟩

theorem HeldFrom.step {ts' : TcpSession} {e : SessionEvent κ} {acts : List (Act κ)}
    (h : HeldFrom all (bufView ts)) (ok : BufferOk ⟨ts, e, acts⟩)
    (made : sessionStep ts e = some (ts', acts)) :
    HeldFrom (all ++ appendedBy (⟨ts, e, acts⟩ : SessionMove κ)) (bufView ts') := by
  cases sessionStep_change made with
  | segment c tsEcr _ =>
    rw [processSegment_bufView, appendedBy, List.append_nil]
    exact h.ack ok
  | append data room =>
    simp only [appendedBy, room, if_true]
    exact h.append (ok room)
  | fin =>
    rw [appendedBy, List.append_nil]
    exact h
  | visit idev now us rc _ _ visited =>
    obtain ⟨last, r, t, -, rfl⟩ := unackedVisit_session visited
    rw [appendedBy, List.append_nil]
    exact h
  | wait =>
    rw [appendedBy, List.append_nil]
    exact h
  | quiet _ term fin timeout hq =>
    have hnone : appendedBy (⟨ts, e, []⟩ : SessionMove κ) = [] := by
      cases e <;> simp_all [appendedBy, IsQuiet]
    rw [hnone, List.append_nil]
    exact h

theorem HeldFrom.run {s : TcpSession} {tr : List (SessionMove κ)}
    (h : HeldFrom all (bufView ts)) (run : Run sessionStep ts tr s) (ok : ∀ m ∈ tr, BufferOk m) :
    HeldFrom (all ++ stream tr) (bufView s) := by
  refine Run.history_invariant BufferOk (fun tr s => HeldFrom (all ++ stream tr) (bufView s)) ?_ ?_
    run ok
  · simpa [stream] using h
  · intro tr a e b o held hok made
    rw [stream_snoc, ← List.append_assoc]
    exact held.step hok made

/-- A segment with nothing but bytes of `all`, and with a part of `all` as long as their number fits
in an `int`. -/
def SentFrom (all : List Byte) : Act κ → Prop
  | .segment _ _ b => Segment.payload b ⊆ all ∧
      (all.length < 2 ^ 31 → Segment.payload b <:+: all)
  | _ => True

theorem HeldFrom.visit {ts' : TcpSession} {idev : Idev} {now us : BitVec 64} {rc : ℕ → Bool}
    {acts : List (Act κ)} (h : HeldFrom all (bufView ts))
    (visited : unackedVisit idev now us rc ts = some (ts', acts)) : ∀ a ∈ acts, SentFrom all a := by
  intro a ha
  have hfits : ts.unackedSize.toNat ≤ ts.unacked.length := h.fits
  have hsend := toSend_toNat_le ts
  obtain ⟨off, n, -, hend, us', rfl⟩ := unackedVisit_acts visited a ha
  have hslice : readAt ts.unacked off n <:+: unackedBytes (bufView ts) := by
    have hcut : readAt ts.unacked off n = ((unackedBytes (bufView ts)).drop off).take n := by
      show _ = ((ts.unacked.take ts.unackedSize.toNat).drop off).take n
      rw [readAt_inside (by omega), List.drop_take, List.take_take]
      congr 1
      omega
    rw [hcut]
    exact (List.take_prefix n _).isInfix.trans (List.drop_suffix off _).isInfix
  rw [SentFrom, segmentBytes_payload]
  refine ⟨List.Subset.trans hslice.subset h.subset, ?_⟩
  intro small
  exact hslice.trans (h.suffix small).isInfix

end Held

/-! ## One segment -/

/-- The segment that made `ts` into `ts'` with the acts `acts` has not damaged the buffer: it did
not grow, the own number moved on by as many bytes as were taken off and by the FINs that were sent,
and every pass of the sender thread after any later run in which the buffer is used properly sends
bytes that were in the buffer or were put there since. -/
structure BufferKept (ts ts' : TcpSession) (acts : List (Act κ)) : Prop where
  size : ts'.unackedSize.toNat ≤ ts.unackedSize.toNat
  number : ts'.mySeqNr = ts.mySeqNr +
    BitVec.ofNat 32 (ts.unackedSize.toNat - ts'.unackedSize.toNat + acts.countP Act.isFin)
  later : ∀ (tr : List (SessionMove κ)) (u : TcpSession), Run sessionStep ts' tr u →
    (∀ m ∈ tr, BufferOk m) →
    ∀ (idev : Idev) (now us : BitVec 64) (rc : ℕ → Bool) (u' : TcpSession) (sent : List (Act κ)),
      unackedVisit idev now us rc u = some (u', sent) →
      ∀ a ∈ sent, SentFrom (unackedBytes (bufView ts) ++ stream tr) a

/-- An established session takes numbers for FINs only. -/
theorem numbers_established {c : Call κ} {tsEcr : BitVec 32} {ts : TcpSession}
    (hs : ts.state = .established) :
    numbers (processSegment c tsEcr ts).acts =
      (processSegment c tsEcr ts).acts.countP Act.isFin := by
  have hnone : syns (processSegment c tsEcr ts).acts = [] := by
    rw [syns_processSegment, if_neg (by simp [answersSyn, hs])]
  refine List.countP_congr ?_
  intro a ha
  have hsyn : a.isSynAck = false := by
    have := List.filter_eq_nil_iff.mp hnone a ha
    cases a <;> simp_all [Act.isSyn, Act.isSynAck]
  simp [Act.takesNumber, hsyn]

/-- The end of the stream moves with FINs only, so the front moves with the bytes taken off. -/
theorem number_of_streamEnd {x y : BitVec 32} {size size' : BitVec 64} {n : ℕ}
    (hle : size'.toNat ≤ size.toNat)
    (h : y + size'.setWidth 32 = x + size.setWidth 32 + BitVec.ofNat 32 n) :
    y = x + BitVec.ofNat 32 (size.toNat - size'.toNat + n) := by
  have hsplit : size.setWidth 32 =
      size'.setWidth 32 + BitVec.ofNat 32 (size.toNat - size'.toNat) := by
    rw [← BitVec.ofNat_toNat, ← BitVec.ofNat_toNat, ← BitVec.ofNat_add]
    congr 1
    omega
  rw [hsplit] at h
  rw [BitVec.ofNat_add]
  apply add_right_cancel (b := size'.setWidth 32)
  rw [h]
  ring

theorem bufferKept_iff {c : Call κ} {tsEcr : BitVec 32} {ts : TcpSession}
    (fits : BlockFits (bufView ts)) (hs : ts.state = .established)
    (made : sessionStep ts (.segment c) =
      some ((processSegment c tsEcr ts).session, (processSegment c tsEcr ts).acts)) :
    BufferKept ts (processSegment c tsEcr ts).session (processSegment c tsEcr ts).acts ↔
      ¬ AcksBeyond c.pkt.data ts := by
  have hbuf := processSegment_bufView c tsEcr ts
  rw [bufferAfterAck, if_pos hs] at hbuf
  have hsize : (processSegment c tsEcr ts).session.unackedSize =
      (ackEffect c.pkt.data ts).unackedSize := congrArg Prod.snd hbuf
  constructor
  · intro h beyond
    have hwrap := ackEffect_beyond beyond
    have hle := h.size
    rw [hsize] at hle
    omega
  · intro inside
    have hle : (processSegment c tsEcr ts).session.unackedSize.toNat ≤ ts.unackedSize.toNat := by
      rw [hsize]
      rcases ackEffect_cases inside with he | ⟨k, hk, he⟩
      · rw [he]
      · rw [he, dropAcked_size hk]
        omega
    refine ⟨hle, ?_, ?_⟩
    · have hpos := (sessionStep_fins made).position
      rw [numbers_established hs, appendedBy, List.length_nil, Nat.add_zero, streamEnd, streamEnd]
        at hpos
      exact number_of_streamEnd hle hpos
    · intro tr u run ok idev now us rc u' sent visited
      have hok : BufferOk ⟨ts, .segment c, (processSegment c tsEcr ts).acts⟩ := fun _ => inside
      have held := (HeldFrom.refl fits).step hok made
      rw [appendedBy, List.append_nil] at held
      exact (held.run run ok).visit visited

theorem Opened.blockFits {ts : TcpSession} {acts : List (Act κ)} (h : Opened ts acts) :
    HeldFrom [] (bufView ts) := by
  have hbuf : bufView ts = ([], 0) := by cases h <;> rfl
  rw [hbuf]
  exact ⟨Nat.zero_le _, List.Subset.refl _, fun _ => List.suffix_refl _⟩

/-- An established session, after any run in which the buffer was used properly. A segment leaves
the buffer undamaged exactly if it does not acknowledge more than there is. -/
theorem ack_keeps_buffer_iff {s₀ ts ts' : TcpSession} {acts₀ acts : List (Act κ)}
    {tr : List (SessionMove κ)} {c : Call κ} (opened : Opened s₀ acts₀)
    (run : Run sessionStep s₀ tr ts) (ok : ∀ m ∈ tr, BufferOk m) (hs : ts.state = .established)
    (made : sessionStep ts (.segment c) = some (ts', acts)) :
    BufferKept ts ts' acts ↔ ¬ AcksBeyond c.pkt.data ts := by
  have fits := (opened.blockFits.run run ok).fits
  cases sessionStep_change made with
  | segment _ tsEcr _ => exact bufferKept_iff fits hs made
  | quiet _ _ _ _ hq => exact hq.elim

/-- One of two bytes is acknowledged. -/
theorem ack_keeps_buffer_half :
    ∃ ts ts' acts, sessionStep (κ := Unit) ts (.segment (Sample.call 3 1001 502 flagAck 6300 [])) =
        some (ts', acts) ∧ ts.unackedSize = 2 ∧ ts'.unackedSize = 1 ∧ BufferKept ts ts' acts := by
  let events : List (SessionEvent Unit) := Sample.handshake 6300 ++ [.sendData [17, 19]]
  have run := exec_get_run sessionStep (Sample.session 6300) events (by decide +kernel)
  have hlast : (sessionStep ((exec sessionStep (Sample.session 6300) events).get
      (by decide +kernel)).2 (.segment (Sample.call 3 1001 502 flagAck 6300 []))).map
        (fun r => r.1.unackedSize) = some 1 := by decide +kernel
  obtain ⟨⟨ts', acts⟩, made, hsize⟩ := Option.map_eq_some_iff.mp hlast
  exact ⟨_, ts', acts, made, by decide +kernel, hsize,
    (ack_keeps_buffer_iff (Opened.server ..) run (by decide +kernel) (by decide +kernel) made).mpr
      (by decide +kernel)⟩

/-- Two bytes wait and three are acknowledged. The session is left with a buffer of `2 ^ 64 - 1`
bytes, and the next pass of the sender thread would send as many of them as the window has room
for. -/
theorem ack_beyond_wraps :
    ∃ (tr : List (SessionMove Unit)) (ts ts' : TcpSession) (acts : List (Act Unit)),
      Run sessionStep (Sample.session 6400) tr ts ∧ ts.state = .established ∧
      ts.unackedSize = 2 ∧
      sessionStep ts (.segment (Sample.call 3 1001 504 flagAck 6400 [])) = some (ts', acts) ∧
      ts'.unackedSize.toNat = 2 ^ 64 - 1 ∧ toSend ts' = 6400 ∧ ¬ BufferKept ts ts' acts := by
  let events : List (SessionEvent Unit) := Sample.handshake 6400 ++ [.sendData [21, 22]]
  have run := exec_get_run sessionStep (Sample.session 6400) events (by decide +kernel)
  have hlast : (sessionStep ((exec sessionStep (Sample.session 6400) events).get
      (by decide +kernel)).2 (.segment (Sample.call 3 1001 504 flagAck 6400 []))).map
        (fun r => (r.1.unackedSize.toNat, toSend r.1)) = some (2 ^ 64 - 1, 6400) := by
    decide +kernel
  have hbefore : ((exec sessionStep (Sample.session 6400) events).get
      (by decide +kernel)).2.unackedSize = 2 := by decide +kernel
  obtain ⟨⟨ts', acts⟩, made, hfacts⟩ := Option.map_eq_some_iff.mp hlast
  obtain ⟨hsize, hsend⟩ := Prod.mk.inj hfacts
  refine ⟨_, _, ts', acts, run, by decide +kernel, hbefore, made, hsize, hsend, ?_⟩
  intro h
  have hle := h.size
  rw [hbefore] at hle
  dsimp only at hsize
  rw [hsize] at hle
  exact absurd hle (by decide)

end MyIp.Tcp
