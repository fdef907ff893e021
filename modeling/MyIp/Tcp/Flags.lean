import MyIp.Tcp.ReceiveStream

/-! # The flags of a segment, seen from the state before it

The flag stages of `packet_handler` run one after the other, each on what the one before it left.
The predicates here say on the session before the segment what they come to: in which state the ACK
stage finds the session and whether it fails (`processFlags_fail`), which sequence number the
payload branch expects (`processFlags_expected`), and when the peer's FIN is answered
(`processFlags_answers`). -/

namespace MyIp.Tcp
open Bytes EventMachine
set_option autoImplicit false

variable {κ : Type}

/-! ## The stages before the ACK -/

/-- The RST of the segment ends the session. -/
def resets (b : List Byte) (s : TcpState) : Bool :=
  Segment.hasRst b && decide (TcpState.synRcvd.rank ≤ s.rank)

/-- The state in which the ACK stage finds a session that was in `s`. -/
def stateAtAck (b : List Byte) (s : TcpState) : TcpState :=
  if resets b s then .closing
  else if Segment.hasSyn b && (s == .listen || s == .synRcvd) then .synRcvd
  else s

/-- What the stages before the ACK leave alone. -/
def ackView (ts : TcpSession) : BitVec 32 × BitVec 32 × BitVec 64 × Bool × Bool × BitVec 32 :=
  (ts.theirSeqNr, ts.unackedStartSeqNr, ts.unackedSize, ts.finAfterUnackedEmpty,
    ts.flagFinWhenAllReceived, ts.seqForFinWhenAllReceived)

section BeforeAck
variable (c : Call κ) (tsEcr : BitVec 32) (ts : TcpSession)

theorem receiveRst_begin :
    (receiveRst c (beginSegment c ts)).deleteEntry = resets c.pkt.data ts.state ∧
    (receiveRst c (beginSegment c ts)).fail = (beginSegment c ts).fail ∧
    (receiveRst c (beginSegment c ts)).session.state =
      (if resets c.pkt.data ts.state then .closing else ts.state) ∧
    ackView (receiveRst c (beginSegment c ts)).session = ackView ts := by
  have hs : (beginSegment c ts).session.state = ts.state := rfl
  rcases receiveRst_cases c (beginSegment c ts) with ⟨hno, he⟩ | ⟨h1, h2, he⟩
  · have hr : resets c.pkt.data ts.state = false := by
      rw [hs] at hno
      simpa [resets] using hno
    rw [he, hr]
    exact ⟨rfl, rfl, rfl, rfl⟩
  · have hr : resets c.pkt.data ts.state = true := by
      rw [hs] at h2
      simp [resets, h1, h2]
    rw [he, hr]
    exact ⟨rfl, rfl, rfl, rfl⟩

theorem receiveSyn_begin :
    (receiveSyn c tsEcr (receiveRst c (beginSegment c ts))).deleteEntry =
      resets c.pkt.data ts.state ∧
    (receiveSyn c tsEcr (receiveRst c (beginSegment c ts))).fail = (beginSegment c ts).fail ∧
    (receiveSyn c tsEcr (receiveRst c (beginSegment c ts))).session.state =
      stateAtAck c.pkt.data ts.state ∧
    ackView (receiveSyn c tsEcr (receiveRst c (beginSegment c ts))).session = ackView ts := by
  obtain ⟨hdel, hfail, hstate, hview⟩ := receiveRst_begin c ts
  rcases receiveSyn_cases c tsEcr (receiveRst c (beginSegment c ts)) with
    ⟨hno, he⟩ | ⟨hsyn, hd, hst, he⟩
  · rw [he]
    refine ⟨hdel, hfail, ?_, hview⟩
    rw [hstate, stateAtAck]
    cases hr : resets c.pkt.data ts.state with
    | true => rfl
    | false =>
      rw [hdel, hstate, hr] at hno
      simp only [Bool.false_eq_true, if_false, true_and] at hno
      rw [if_neg (by simp), if_neg (by simp), if_neg]
      simpa using hno
  · rw [hdel] at hd
    rw [hstate, hd] at hst
    rw [he]
    refine ⟨hdel, hfail, ?_, ?_⟩
    · have hin : (Segment.hasSyn c.pkt.data && (ts.state == .listen || ts.state == .synRcvd)) =
          true := by
        simpa [hsyn] using hst
      simp only [stateAtAck, hd, Bool.false_eq_true, if_false, hin, if_true]
      rfl
    · rw [← hview]
      simp only [ackView, Work.setState, setState, send_session]

end BeforeAck

/-! ## When a segment fails -/

/-- There is no handler to tell about the session, or its `new_session` does not want it. -/
def refuses (c : Call κ) : Bool :=
  match c.listener with
  | none => true
  | some handler => handler.newSession.isSome && !c.newSessionRc

/-- More bytes are acknowledged than are in the buffer. -/
def overAcks (b : List Byte) (ts : TcpSession) : Bool :=
  decide (0 < ackedBytes (Segment.ackNr b) ts) && ts.unackedSize != 0 &&
    decide (leftBytes (ackedBytes (Segment.ackNr b) ts) ts < 0)

/-- The ACK of the segment ends in a failure. -/
def ackFails (c : Call κ) (ts : TcpSession) : Bool :=
  Segment.hasAck c.pkt.data && !resets c.pkt.data ts.state &&
    match stateAtAck c.pkt.data ts.state with
    | .synRcvd => refuses c
    | .established => overAcks c.pkt.data ts
    | _ => false

/-- The header or the ACK of the segment ends in a failure. -/
def flagsFail (c : Call κ) (ts : TcpSession) : Bool :=
  decide (c.pkt.data.length < Segment.headerSize c.pkt.data) || ackFails c ts

theorem ackSynRcvd_fail {c : Call κ} {w : Work κ} (h : w.fail = false) :
    (ackSynRcvd c w).fail = refuses c := by
  unfold ackSynRcvd refuses
  cases c.listener with
  | none => rfl
  | some handler =>
    cases hn : handler.newSession with
    | none => simp [hn, Work.setState, h]
    | some cb => simp [hn, Work.setState, h]

theorem ackEstablished_fail {c : Call κ} {tsEcr : BitVec 32} {w : Work κ} {ts : TcpSession}
    (h : w.fail = false) (hview : ackView w.session = ackView ts) :
    (ackEstablished c tsEcr w).fail = overAcks c.pkt.data ts := by
  have hstart : w.session.unackedStartSeqNr = ts.unackedStartSeqNr := congrArg (·.2.1) hview
  have hsize : w.session.unackedSize = ts.unackedSize := congrArg (·.2.2.1) hview
  have hab : ackedBytes (Segment.ackNr c.pkt.data) w.session =
      ackedBytes (Segment.ackNr c.pkt.data) ts := by
    simp only [ackedBytes, hstart]
  have hleft : leftBytes (ackedBytes (Segment.ackNr c.pkt.data) w.session) w.session =
      leftBytes (ackedBytes (Segment.ackNr c.pkt.data) ts) ts := by
    simp only [leftBytes, hab, hsize]
  have hforce : ∀ w : Work κ, (forceSend w).fail = w.fail := by
    intro w
    unfold forceSend
    split <;> rfl
  have hfin : ∀ w : Work κ, (sendDrainedFin c tsEcr w).fail = w.fail := by
    intro w
    unfold sendDrainedFin
    split <;> rfl
  rcases ackEstablished_cases c tsEcr w with ⟨hno, he⟩ | ⟨hpos, hne, he⟩
  · rw [he, hab, hsize] at *
    simp only [h, overAcks]
    symm
    simp only [Bool.and_eq_false_imp, Bool.and_eq_true, decide_eq_true_eq, bne_iff_ne]
    exact fun hx => absurd hx hno
  · rw [he]
    rw [hab] at hpos
    rw [hsize] at hne
    have hbne : (ts.unackedSize != 0) = true := bne_iff_ne.mpr hne
    simp only [hforce, hfin, takeAcked, h, hleft, Bool.false_or, overAcks, hpos, hbne, decide_true,
      Bool.true_and]

theorem processFlags_fail (c : Call κ) (tsEcr : BitVec 32) (ts : TcpSession) :
    (processFlags c tsEcr (beginSegment c ts)).fail = flagsFail c ts := by
  have hfinal : ∀ w : Work κ, (ackFin c tsEcr (receiveFin c w)).fail = w.fail := by
    intro w
    unfold ackFin receiveFin
    repeat' split
    all_goals rfl
  have hbegin : (beginSegment c ts).fail =
      decide (c.pkt.data.length < Segment.headerSize c.pkt.data) := rfl
  unfold processFlags flagsFail
  rw [hbegin]
  by_cases hshort : c.pkt.data.length < Segment.headerSize c.pkt.data
  · simp [hshort, beginSegment]
  · simp only [hshort, decide_false, Bool.false_eq_true, if_false, Bool.false_or]
    obtain ⟨hdel, hfail, hstate, hview⟩ := receiveSyn_begin c tsEcr ts
    rw [hbegin, decide_eq_false hshort] at hfail
    rw [hfinal]
    rcases receiveAck_cases c tsEcr (receiveSyn c tsEcr (receiveRst c (beginSegment c ts))) with
      ⟨hno, he⟩ | ⟨hack, hd, he⟩
    · rw [he, hfail, ackFails]
      rw [hdel] at hno
      symm
      simp only [Bool.and_eq_false_imp, Bool.and_eq_true, Bool.not_eq_true']
      exact fun hx => absurd hx hno
    · rw [hdel] at hd
      rw [he, ackFails, hack, hd, ← hstate]
      simp only [Bool.not_false, Bool.true_and]
      rcases ackByState_cases c tsEcr (receiveSyn c tsEcr (receiveRst c (beginSegment c ts))) with
        ⟨hs, hb⟩ | ⟨hs, hb⟩ | ⟨hs, hb⟩ | ⟨hs, hb⟩ | ⟨h1, h2, h3, h4, hb⟩
      · rw [hb, hs]
        exact hfail
      · rw [hb, hs]
        exact ackSynRcvd_fail hfail
      · rw [hb, hs]
        exact hfail
      · rw [hb, hs]
        exact ackEstablished_fail hfail hview
      · rw [hb]
        split
        · next hs => exact absurd hs h2
        · next hs => exact absurd hs h4
        · exact hfail

/-! ## Which sequence number is expected -/

/-- The ACK of the segment connects a client session. -/
def connects (b : List Byte) (ts : TcpSession) : Bool :=
  decide (Segment.headerSize b ≤ b.length) && Segment.hasAck b && !Segment.hasRst b &&
    ts.state == .synSent

/-- The sequence number that the payload branch expects. -/
def expectedSeqNr (b : List Byte) (ts : TcpSession) : BitVec 32 :=
  if connects b ts then Segment.seqNr b + 1 else ts.theirSeqNr

theorem processFlags_expected (c : Call κ) (tsEcr : BitVec 32) (ts : TcpSession) :
    (processFlags c tsEcr (beginSegment c ts)).session.theirSeqNr =
      expectedSeqNr c.pkt.data ts := by
  by_cases hsent : ts.state = .synSent
  · unfold processFlags
    split
    · next hf =>
      have hshort : ¬Segment.headerSize c.pkt.data ≤ c.pkt.data.length := by
        simpa [beginSegment] using hf
      simp [expectedSeqNr, connects, hshort, beginSegment]
    · next hf =>
      have hfits : Segment.headerSize c.pkt.data ≤ c.pkt.data.length := by
        simpa [beginSegment] using hf
      have hresets : resets c.pkt.data ts.state = Segment.hasRst c.pkt.data := by
        simp [resets, hsent, TcpState.rank]
      obtain ⟨hdel, -, hstate, -⟩ := receiveSyn_begin c tsEcr ts
      rw [ackFin_theirSeqNr, receiveFin_theirSeqNr]
      rcases receiveAck_cases c tsEcr (receiveSyn c tsEcr (receiveRst c (beginSegment c ts))) with
        ⟨hno, he⟩ | ⟨hack, hd, he⟩
      · have hc : connects c.pkt.data ts = false := by
          rw [hdel, hresets] at hno
          simpa [connects, hfits, hsent] using hno
        rw [he, receiveSyn_theirSeqNr, receiveRst_theirSeqNr, expectedSeqNr, hc]
        rfl
      · rw [hdel, hresets] at hd
        have hs : (receiveSyn c tsEcr (receiveRst c (beginSegment c ts))).session.state =
            .synSent := by
          rw [hstate, stateAtAck, hresets, hd]
          simp [hsent]
        have hc : connects c.pkt.data ts = true := by
          simp [connects, hfits, hack, hd, hsent]
        rcases ackByState_cases c tsEcr (receiveSyn c tsEcr (receiveRst c (beginSegment c ts))) with
          ⟨-, hb⟩ | ⟨hx, -⟩ | ⟨hx, -⟩ | ⟨hx, -⟩ | ⟨hx, -⟩
        · rw [he, hb, ackSynSent_session, expectedSeqNr, hc]
          rfl
        · cases hs.symm.trans hx
        · cases hs.symm.trans hx
        · cases hs.symm.trans hx
        · exact absurd hs hx
  · rw [processFlags_theirSeqNr tsEcr hsent, expectedSeqNr, connects]
    simp [hsent]

/-! ## When the peer's FIN is answered -/

/-- The ACK of the segment takes bytes off the buffer of an established session. -/
def takesAcked (b : List Byte) (ts : TcpSession) : Bool :=
  Segment.hasAck b && !Segment.hasRst b && ts.state == .established &&
    decide (0 < ackedBytes (Segment.ackNr b) ts) && ts.unackedSize != 0

/-- `unacked_size` after the ACK stage. -/
def unackedAfterAck (b : List Byte) (ts : TcpSession) : BitVec 64 :=
  if takesAcked b ts then ts.unackedSize - BitVec.ofInt 64 (ackedBytes (Segment.ackNr b) ts)
  else ts.unackedSize

/-- The ACK empties the buffer of a session that is to be ended then. -/
def drains (b : List Byte) (ts : TcpSession) : Bool :=
  takesAcked b ts && unackedAfterAck b ts == 0 && ts.finAfterUnackedEmpty

/-- The ACK ends the handshake. -/
def establishes (b : List Byte) (s : TcpState) : Bool :=
  Segment.hasAck b && !resets b s && (stateAtAck b s == .synSent || stateAtAck b s == .synRcvd)

/-- The FIN stage finds the session established. -/
def establishedAfterAck (b : List Byte) (ts : TcpSession) : Bool :=
  establishes b ts.state || (stateAtAck b ts.state == .established && !drains b ts)

/-- The segment makes the session answer the peer's FIN. -/
def answersFin (b : List Byte) (ts : TcpSession) : Bool :=
  decide (Segment.headerSize b ≤ b.length) &&
    if Segment.hasFin b && establishedAfterAck b ts then Segment.seqNr b == expectedSeqNr b ts
    else ts.flagFinWhenAllReceived && ts.seqForFinWhenAllReceived == expectedSeqNr b ts

theorem answersFin_fits {b : List Byte} {ts : TcpSession} (h : answersFin b ts = true) :
    Segment.headerSize b ≤ b.length := by
  simp only [answersFin, Bool.and_eq_true, decide_eq_true_eq] at h
  exact h.1

theorem stateAtAck_established {b : List Byte} {s : TcpState} :
    stateAtAck b s = .established ↔ s = .established ∧ Segment.hasRst b = false := by
  cases s <;> cases hr : Segment.hasRst b <;> cases hsyn : Segment.hasSyn b <;>
    simp [stateAtAck, resets, TcpState.rank, hr, hsyn]

theorem resets_established {b : List Byte} : resets b .established = Segment.hasRst b := by
  simp [resets, TcpState.rank]

/-- What the ACK stage leaves, in the words of the session before the segment. -/
structure AfterAckStage (b : List Byte) (ts : TcpSession) (w : Work κ) : Prop where
  established : w.session.state = .established ↔ establishedAfterAck b ts = true
  unacked : w.session.unackedSize = unackedAfterAck b ts
  pending : w.session.flagFinWhenAllReceived = ts.flagFinWhenAllReceived
  pendingSeq : w.session.seqForFinWhenAllReceived = ts.seqForFinWhenAllReceived

theorem takesAcked_stage {b : List Byte} {ts : TcpSession} (h : takesAcked b ts = true) :
    Segment.hasAck b = true ∧ resets b ts.state = false ∧
      stateAtAck b ts.state = .established := by
  simp only [takesAcked, Bool.and_eq_true, Bool.not_eq_true', beq_iff_eq] at h
  obtain ⟨⟨⟨⟨hack, hrst⟩, hs⟩, -⟩, -⟩ := h
  rw [hs, resets_established]
  exact ⟨hack, hrst, stateAtAck_established.mpr ⟨rfl, hrst⟩⟩

theorem AfterAckStage.still {b : List Byte} {ts : TcpSession} {w : Work κ}
    (hview : (ackView w.session).2 = (ackView ts).2) (htakes : takesAcked b ts = false)
    (hest : w.session.state = .established ↔ establishedAfterAck b ts = true) :
    AfterAckStage b ts w := by
  simp only [ackView, Prod.mk.injEq] at hview
  obtain ⟨-, h2, -, h4, h5⟩ := hview
  exact ⟨hest, by rw [unackedAfterAck, htakes, h2]; rfl, h4, h5⟩

theorem ackEstablished_stage {c : Call κ} {tsEcr : BitVec 32} {ts : TcpSession} {w : Work κ}
    (hack : Segment.hasAck c.pkt.data = true) (hrst : Segment.hasRst c.pkt.data = false)
    (hts : ts.state = .established) (hs : w.session.state = .established)
    (hview : ackView w.session = ackView ts) :
    AfterAckStage c.pkt.data ts (ackEstablished c tsEcr w) := by
  have hat : stateAtAck c.pkt.data ts.state = .established := stateAtAck_established.mpr ⟨hts, hrst⟩
  have hest : establishedAfterAck c.pkt.data ts = !drains c.pkt.data ts := by
    simp [establishedAfterAck, establishes, hat]
  have hstart : w.session.unackedStartSeqNr = ts.unackedStartSeqNr := congrArg (·.2.1) hview
  have hsize : w.session.unackedSize = ts.unackedSize := congrArg (·.2.2.1) hview
  have hend : w.session.finAfterUnackedEmpty = ts.finAfterUnackedEmpty :=
    congrArg (·.2.2.2.1) hview
  have hab : ackedBytes (Segment.ackNr c.pkt.data) w.session =
      ackedBytes (Segment.ackNr c.pkt.data) ts := by
    simp only [ackedBytes, hstart]
  rcases ackEstablished_cases c tsEcr w with ⟨hno, he⟩ | ⟨hpos, hne, he⟩
  · rw [hab, hsize] at hno
    have htakes : takesAcked c.pkt.data ts = false := by
      simpa [takesAcked, hack, hrst, hts] using hno
    refine .still (by rw [he, hview]) htakes ?_
    simp [he, hs, hest, drains, htakes]
  · rw [hab] at hpos he
    rw [hsize] at hne
    have hbne : (ts.unackedSize != 0) = true := bne_iff_ne.mpr hne
    have htakes : takesAcked c.pkt.data ts = true := by
      simp only [takesAcked, hack, hrst, hts, hpos, hbne]
      rfl
    have hafter : (takeAcked (ackedBytes (Segment.ackNr c.pkt.data) ts) w).session.unackedSize =
        unackedAfterAck c.pkt.data ts := by
      simp only [takeAcked, dropAcked, hsize, unackedAfterAck, htakes, if_true]
    obtain ⟨r, hr⟩ := forceSend_session (sendDrainedFin c tsEcr
      (takeAcked (ackedBytes (Segment.ackNr c.pkt.data) ts) w))
    have hview' := hview
    simp only [ackView, Prod.mk.injEq] at hview'
    obtain ⟨-, -, -, -, h5, h6⟩ := hview'
    rcases sendDrainedFin_cases c tsEcr
      (takeAcked (ackedBytes (Segment.ackNr c.pkt.data) ts) w) with ⟨hnd, hd⟩ | ⟨hz, hf, hd⟩
    · have hdrains : drains c.pkt.data ts = false := by
        rw [hafter] at hnd
        simp only [drains, htakes, Bool.true_and, ← hend]
        simpa [takeAcked, dropAcked] using hnd
      rw [hd] at he hr
      refine ⟨?_, ?_, ?_, ?_⟩
      · rw [he, hest, hdrains]
        simp only [hr]
        exact iff_of_true hs rfl
      · rw [he]
        simp only [hr]
        exact hafter
      · rw [he]
        simp only [hr]
        exact h5
      · rw [he]
        simp only [hr]
        exact h6
    · have hdrains : drains c.pkt.data ts = true := by
        rw [hafter] at hz
        simp only [drains, htakes, hz, Bool.true_and, ← hend]
        simpa [takeAcked, dropAcked] using hf
      rw [hd] at he hr
      refine ⟨?_, ?_, ?_, ?_⟩
      · rw [he, hest, hdrains]
        simp only [hr]
        have hne : TcpState.finWait1 ≠ .established := by decide
        exact iff_of_false hne (by decide)
      · rw [he]
        simp only [hr]
        simp only [Work.setState, setState, send_session]
        exact hafter
      · rw [he]
        simp only [hr]
        simp only [Work.setState, setState, send_session]
        exact h5
      · rw [he]
        simp only [hr]
        simp only [Work.setState, setState, send_session]
        exact h6

theorem receiveAck_stage (c : Call κ) (tsEcr : BitVec 32) (ts : TcpSession) :
    AfterAckStage c.pkt.data ts
      (receiveAck c tsEcr (receiveSyn c tsEcr (receiveRst c (beginSegment c ts)))) := by
  obtain ⟨hdel, -, hstate, hview⟩ := receiveSyn_begin c tsEcr ts
  have hrest : (ackView (receiveSyn c tsEcr (receiveRst c (beginSegment c ts))).session).2 =
      (ackView ts).2 := by rw [hview]
  rcases receiveAck_cases c tsEcr (receiveSyn c tsEcr (receiveRst c (beginSegment c ts))) with
    ⟨hno, he⟩ | ⟨hack, hd, he⟩
  · rw [hdel] at hno
    have htakes : takesAcked c.pkt.data ts = false := by
      by_contra htakes
      obtain ⟨h1, h2, -⟩ := takesAcked_stage (by simpa using htakes)
      exact hno ⟨h1, h2⟩
    have hestablishes : establishes c.pkt.data ts.state = false := by
      simp only [establishes, Bool.and_eq_false_imp, Bool.and_eq_true, Bool.not_eq_true']
      exact fun h => absurd h hno
    rw [he]
    refine .still hrest htakes ?_
    simp [hstate, establishedAfterAck, hestablishes, drains, htakes]
  · rw [hdel] at hd
    -- the stage clears `data_since_last_ack` after the branch for the state
    have hclear : AfterAckStage c.pkt.data ts
        (ackByState c tsEcr (receiveSyn c tsEcr (receiveRst c (beginSegment c ts)))) →
        AfterAckStage c.pkt.data ts
          (receiveAck c tsEcr (receiveSyn c tsEcr (receiveRst c (beginSegment c ts)))) := by
      intro h
      rw [he]
      exact ⟨h.established, h.unacked, h.pending, h.pendingSeq⟩
    refine hclear ?_
    have hnone : stateAtAck c.pkt.data ts.state ≠ .established →
        takesAcked c.pkt.data ts = false := by
      intro hne
      by_contra htakes
      exact hne (takesAcked_stage (by simpa using htakes)).2.2
    rcases ackByState_cases c tsEcr (receiveSyn c tsEcr (receiveRst c (beginSegment c ts))) with
      ⟨hs, hb⟩ | ⟨hs, hb⟩ | ⟨hs, hb⟩ | ⟨hs, hb⟩ | ⟨h1, h2, h3, h4, hb⟩
    · rw [hstate] at hs
      rw [hb]
      refine .still ?_ (hnone (by simp [hs])) ?_
      · rw [ackSynSent_session]
        exact hrest
      · simp [ackSynSent_session, establishedAfterAck, establishes, hack, hd, hs]
    · rw [hstate] at hs
      rw [hb]
      refine .still ?_ (hnone (by simp [hs])) ?_
      · rw [ackSynRcvd_session]
        exact hrest
      · simp [ackSynRcvd_session, setState, establishedAfterAck, establishes, hack, hd, hs]
    · rw [hstate] at hs
      rw [hb]
      refine .still hrest (hnone (by simp [hs])) ?_
      simp [Work.setState, setState, establishedAfterAck, establishes, hs]
    · rw [hb]
      obtain ⟨hts, hrst⟩ := stateAtAck_established.mp (hstate.symm.trans hs)
      exact ackEstablished_stage hack hrst hts hs hview
    · rw [hstate] at h1 h2 h4
      rw [hb]
      refine .still hrest (hnone h4) ?_
      simp [hstate, establishedAfterAck, establishes, h1, h2, h4]

theorem receiveFin_answers {c : Call κ} {ts : TcpSession} {w : Work κ}
    (h : AfterAckStage c.pkt.data ts w)
    (hexp : w.session.theirSeqNr = expectedSeqNr c.pkt.data ts)
    (fits : Segment.headerSize c.pkt.data ≤ c.pkt.data.length) :
    ((receiveFin c w).session.flagFinWhenAllReceived ∧
      (receiveFin c w).session.seqForFinWhenAllReceived = (receiveFin c w).session.theirSeqNr) ↔
    answersFin c.pkt.data ts = true := by
  rcases receiveFin_cases c w with ⟨hno, he⟩ | ⟨hfin, hs, he⟩
  · have hskip : (Segment.hasFin c.pkt.data && establishedAfterAck c.pkt.data ts) = false := by
      rw [h.established] at hno
      simpa using hno
    simp only [he, answersFin, fits, decide_true, Bool.true_and, hskip, h.pending, h.pendingSeq,
      hexp]
    simp
  · have hskip : (Segment.hasFin c.pkt.data && establishedAfterAck c.pkt.data ts) = true := by
      simp [hfin, h.established.mp hs]
    simp only [he, answersFin, fits, decide_true, Bool.true_and, hskip, hexp]
    simp

/-- The condition of the last flag stage, which answers the peer's FIN. -/
theorem processFlags_answers {c : Call κ} (tsEcr : BitVec 32) {ts : TcpSession} {w : Work κ}
    (fits : Segment.headerSize c.pkt.data ≤ c.pkt.data.length)
    (hw : w = receiveFin c (receiveAck c tsEcr
      (receiveSyn c tsEcr (receiveRst c (beginSegment c ts))))) :
    (w.session.flagFinWhenAllReceived ∧
      w.session.seqForFinWhenAllReceived = w.session.theirSeqNr) ↔
    answersFin c.pkt.data ts = true := by
  have hexp := processFlags_expected c tsEcr ts
  have hrun : processFlags c tsEcr (beginSegment c ts) = ackFin c tsEcr w := by
    rw [processFlags, if_neg (by simpa [beginSegment] using fits), hw]
  rw [hrun, ackFin_theirSeqNr, hw, receiveFin_theirSeqNr] at hexp
  rw [hw]
  exact receiveFin_answers (receiveAck_stage c tsEcr ts) hexp fits

theorem send_mem {c : Call κ} (tsEcr : BitVec 32) {w : Work κ} (hd : c.idev.isSome) (flags : Byte)
    (ackTo : BitVec 32) :
    ∃ dst src b, Act.segment dst src b ∈ (w.send c tsEcr flags ackTo).acts ∧
      Segment.flags b = flags ∧ Segment.ackNr b = ackTo := by
  rw [Work.send, sendFromTo_acts, if_pos hd]
  exact ⟨_, _, _, List.mem_append_right _ (List.mem_singleton_self _), segmentBytes_flags ..,
    segmentBytes_ackNr ..⟩

/-- The answer to the peer's FIN acknowledges it with a FIN. -/
theorem processSegment_answer {c : Call κ} (tsEcr : BitVec 32) {ts : TcpSession}
    (hd : c.idev.isSome) (hans : answersFin c.pkt.data ts = true) :
    ∃ dst src b, Act.segment dst src b ∈ (processSegment c tsEcr ts).acts ∧
      Segment.flags b = flagAck ||| flagFin ∧
      Segment.ackNr b = expectedSeqNr c.pkt.data ts + 1 := by
  have fits := answersFin_fits hans
  obtain ⟨payload, ending, hacts, -⟩ := processSegment_split c tsEcr ts
  have hexp := processFlags_expected c tsEcr ts
  rw [hacts]
  unfold processFlags at hexp ⊢
  rw [if_neg (by simpa [beginSegment] using fits)] at hexp ⊢
  rcases ackFin_cases c tsEcr (receiveFin c (receiveAck c tsEcr
    (receiveSyn c tsEcr (receiveRst c (beginSegment c ts))))) with ⟨hno, -⟩ | ⟨-, -, he⟩
  · exact absurd ((processFlags_answers tsEcr fits rfl).mpr hans) hno
  · rw [ackFin_theirSeqNr] at hexp
    obtain ⟨dst, src, b, hmem, hflags, hto⟩ := send_mem tsEcr (w := receiveFin c (receiveAck c tsEcr
      (receiveSyn c tsEcr (receiveRst c (beginSegment c ts))))) hd
      (flagAck ||| flagFin) (expectedSeqNr c.pkt.data ts + 1)
    refine ⟨dst, src, b, ?_, hflags, hto⟩
    rw [he, hexp]
    exact List.mem_append_left _ (List.mem_append_left _ (List.mem_append_left _ hmem))

theorem receiveFin_unackedSize (c : Call κ) (w : Work κ) :
    (receiveFin c w).session.unackedSize = w.session.unackedSize := by
  rcases receiveFin_cases c w with ⟨-, he⟩ | ⟨-, -, he⟩
  · rw [he]
  · rw [he]

theorem ackFin_unackedSize (c : Call κ) (tsEcr : BitVec 32) (w : Work κ) :
    (ackFin c tsEcr w).session.unackedSize = w.session.unackedSize := by
  rcases ackFin_cases c tsEcr w with ⟨-, he⟩ | ⟨-, -, he⟩
  · rw [he]
  · rw [he]
    simp only [Work.setState, setState, send_session]

theorem processSegment_unackedSize (c : Call κ) (tsEcr : BitVec 32) (ts : TcpSession) :
    (processSegment c tsEcr ts).session.unackedSize =
      if Segment.headerSize c.pkt.data ≤ c.pkt.data.length then unackedAfterAck c.pkt.data ts
      else ts.unackedSize := by
  obtain ⟨us, term, he⟩ := endSegment_session c tsEcr
    (processPayload c tsEcr (processFlags c tsEcr (beginSegment c ts)))
  obtain ⟨seq, us', hp⟩ := processPayload_session c tsEcr (processFlags c tsEcr (beginSegment c ts))
  rw [processSegment, he, hp]
  simp only [processFlags]
  by_cases fits : Segment.headerSize c.pkt.data ≤ c.pkt.data.length
  · rw [if_neg (by simpa [beginSegment] using fits), if_pos fits, ackFin_unackedSize,
      receiveFin_unackedSize]
    exact (receiveAck_stage c tsEcr ts).unacked
  · rw [if_pos (by simpa [beginSegment] using fits), if_neg fits]
    rfl

end MyIp.Tcp
