import MyIp.Tcp.OwnFin

/-! # The SYNs a session sends

`send_segment` moves the sequence number that it is given a pointer to when the segment carries a
SYN. A repeated SYN of the peer is answered from `my_seq_nr` itself, so every further SYN+ACK has
the next number; the client's SYN is repeated from a copy of a number that the first SYN has moved
already. `syn_idempotent_iff` says which runs get by without either. -/

namespace MyIp.Tcp
open Bytes EventMachine
set_option autoImplicit false

variable {κ : Type}

def Act.isSyn : Act κ → Bool
  | .segment _ _ b => Segment.hasSyn b
  | _ => false

def syns (acts : List (Act κ)) : List (Act κ) := acts.filter Act.isSyn

/-! ## The SYNs of one segment's stages -/

theorem syns_append (l l' : List (Act κ)) : syns (l ++ l') = syns l ++ syns l' :=
  List.filter_append ..

theorem syns_append_silent {l new : List (Act κ)} (h : ∀ a ∈ new, a.isSyn = false) :
    syns (l ++ new) = syns l := by
  have hnone : syns new = [] := List.filter_eq_nil_iff.mpr fun a ha => by simp [h a ha]
  rw [syns_append, hnone, List.append_nil]

theorem IsReply.not_syn {ts : TcpSession} {flags : Byte} {a : Act κ} (h : IsReply ts flags a)
    (hf : flags &&& flagSyn = 0) : a.isSyn = false := by
  obtain ⟨us, ackTo, seq, tsEcr, rfl⟩ := h
  simp [Act.isSyn, Segment.hasSyn, hf]

section Stages
variable (c : Call κ) (tsEcr : BitVec 32) (w : Work κ)

theorem syns_setState (us : BitVec 64) (st : TcpState) :
    syns (w.setState us st).acts = syns w.acts :=
  syns_append_silent (by simp [Act.isSyn])

theorem syns_send {flags : Byte} (hf : flags &&& flagSyn = 0) (ackTo : BitVec 32) :
    syns (w.send c tsEcr flags ackTo).acts = syns w.acts := by
  obtain ⟨new, ha, hall⟩ := send_acts w c tsEcr flags ackTo
  rw [ha]
  exact syns_append_silent fun a h => (hall a h).not_syn hf

theorem syns_ackEstablished : syns (ackEstablished c tsEcr w).acts = syns w.acts := by
  rcases ackEstablished_cases c tsEcr w with ⟨-, he⟩ | ⟨-, -, he⟩
  · rw [he]
  · rw [he]
    simp only [forceSend_acts]
    rcases sendDrainedFin_cases c tsEcr
      (takeAcked (ackedBytes (Segment.ackNr c.pkt.data) w.session) w) with ⟨-, hd⟩ | ⟨-, -, hd⟩
    · rw [hd]
      rfl
    · rw [hd, syns_setState, syns_send _ _ _ (by decide)]
      rfl

theorem syns_ackByState : syns (ackByState c tsEcr w).acts = syns w.acts := by
  rcases ackByState_cases c tsEcr w with ⟨-, hb⟩ | ⟨-, hb⟩ | ⟨-, hb⟩ | ⟨-, hb⟩ | ⟨-, -, -, -, hb⟩
  · rw [hb, ackSynSent_acts, List.append_assoc]
    refine syns_append_silent ?_
    intro a ha
    rcases List.mem_append.mp ha with ha | ha
    · split at ha
      · obtain rfl := List.mem_singleton.mp ha
        simp [Act.isSyn, Segment.hasSyn, show flagAck &&& flagSyn = 0 by decide]
      · cases ha
    · obtain rfl := List.mem_singleton.mp ha
      rfl
  · rw [hb]
    rcases ackSynRcvd_acts c w with ⟨ha, -⟩ | ⟨_, cb, -, -, ha, -⟩
    · rw [ha]
      exact syns_append_silent (by simp [Act.isSyn])
    · rw [ha]
      exact syns_append_silent (by simp [Act.isSyn])
  · rw [hb]
    exact syns_setState w c.us .listen
  · rw [hb, syns_ackEstablished]
  · rw [hb]

theorem syns_receiveAck : syns (receiveAck c tsEcr w).acts = syns w.acts := by
  rcases receiveAck_cases c tsEcr w with ⟨-, he⟩ | ⟨-, -, he⟩
  · rw [he]
  · rw [he]
    exact syns_ackByState c tsEcr w

theorem syns_finStages : syns (ackFin c tsEcr (receiveFin c w)).acts = syns w.acts := by
  have hfin : syns (receiveFin c w).acts = syns w.acts := by
    rcases receiveFin_cases c w with ⟨-, he⟩ | ⟨-, -, he⟩
    · rw [he]
    · rw [he]
      exact syns_append_silent (by simp [Act.isSyn])
  rcases ackFin_cases c tsEcr (receiveFin c w) with ⟨-, he⟩ | ⟨-, -, he⟩
  · rw [he, hfin]
  · rw [he]
    refine (syns_setState _ c.us .finWait2).trans ?_
    exact (syns_send _ _ _ (by decide) _).trans hfin

theorem syns_processPayload : syns (processPayload c tsEcr w).acts = syns w.acts := by
  obtain ⟨new, hnew, hall⟩ := processPayload_acts c tsEcr w
  rw [hnew]
  refine syns_append_silent ?_
  intro a ha
  cases hall a ha with
  | newData => rfl
  | badFunctionCall => rfl
  | reply _ h => exact h.not_syn (by decide)

theorem syns_endSegment : syns (endSegment c tsEcr w).acts = syns w.acts := by
  obtain ⟨new, hnew, hall⟩ := endSegment_acts c tsEcr w
  rw [hnew]
  refine syns_append_silent ?_
  intro a ha
  cases hall a ha with
  | sessionClosed1 => rfl
  | badFunctionCall => rfl
  | reply _ _ h => exact h.not_syn (by decide)

end Stages

/-- The segment's SYN is answered with a SYN+ACK. -/
def answersSyn (c : Call κ) (ts : TcpSession) : Bool :=
  decide (Segment.headerSize c.pkt.data ≤ c.pkt.data.length) && Segment.hasSyn c.pkt.data &&
    !resets c.pkt.data ts.state && (ts.state == .listen || ts.state == .synRcvd) && c.idev.isSome

/-- That SYN+ACK. -/
def synAckOf (c : Call κ) (tsEcr : BitVec 32) (ts : TcpSession) : Act κ :=
  .segment ts.theirAddr ts.myAddr (segmentBytes c.us ts.myAddr ts.myPort ts.theirAddr ts.theirPort
    (flagSyn ||| flagAck) ts.theirSeqNr ts.mySeqNr tsEcr [])

theorem syns_receiveSyn (c : Call κ) (tsEcr : BitVec 32) (ts : TcpSession)
    (fits : Segment.headerSize c.pkt.data ≤ c.pkt.data.length) :
    syns (receiveSyn c tsEcr (receiveRst c (beginSegment c ts))).acts =
      if answersSyn c ts then [synAckOf c tsEcr ts] else [] := by
  obtain ⟨hdel, -, hstate, -⟩ := receiveRst_begin c ts
  have hrst : syns (receiveRst c (beginSegment c ts)).acts = [] := by
    rcases receiveRst_cases c (beginSegment c ts) with ⟨-, he⟩ | ⟨-, -, he⟩
    · rw [he]
      rfl
    · rw [he]
      exact syns_setState _ c.us .closing
  rcases receiveSyn_cases c tsEcr (receiveRst c (beginSegment c ts)) with
    ⟨hno, he⟩ | ⟨hsyn, hd, hst, he⟩
  · have hans : answersSyn c ts = false := by
      rw [hdel, hstate] at hno
      cases hr : resets c.pkt.data ts.state with
      | true => simp [answersSyn, hr]
      | false =>
        simp only [hr, Bool.false_eq_true, if_false, true_and, not_and] at hno
        cases hs : Segment.hasSyn c.pkt.data with
        | false => simp [answersSyn, hs]
        | true => simpa [answersSyn, hs, hr, fits] using fun h => absurd h (hno hs)
    rw [he, hrst, hans]
    rfl
  · rw [hdel] at hd
    rw [hstate, hd] at hst
    have hsame : (receiveRst c (beginSegment c ts)) = beginSegment c ts := by
      rcases receiveRst_cases c (beginSegment c ts) with ⟨-, hx⟩ | ⟨h1, h2, -⟩
      · exact hx
      · have hr : resets c.pkt.data ts.state = true := by
          simp only [resets, Bool.and_eq_true, decide_eq_true_eq]
          exact ⟨h1, h2⟩
        rw [hd] at hr
        cases hr
    have hans : answersSyn c ts = c.idev.isSome := by
      have hin : (ts.state == .listen || ts.state == .synRcvd) = true := by simpa using hst
      simp [answersSyn, fits, hsyn, hd, hin]
    rw [he, syns_setState, hsame, Work.send, sendFromTo_acts, hans]
    cases c.idev with
    | none => rfl
    | some _ =>
      have hflag : ¬ (flagSyn ||| flagAck) &&& flagSyn = 0#8 := by decide
      simp [syns, beginSegment, Act.isSyn, Segment.hasSyn, synAckOf, hflag]

theorem syns_processSegment (c : Call κ) (tsEcr : BitVec 32) (ts : TcpSession) :
    syns (processSegment c tsEcr ts).acts =
      if answersSyn c ts then [synAckOf c tsEcr ts] else [] := by
  rw [processSegment, syns_endSegment, syns_processPayload, processFlags]
  by_cases fits : Segment.headerSize c.pkt.data ≤ c.pkt.data.length
  · rw [if_neg (by simpa [beginSegment] using fits), syns_finStages, syns_receiveAck,
      syns_receiveSyn c tsEcr ts fits]
  · have hans : answersSyn c ts = false := by simp [answersSyn, fits]
    rw [if_pos (by simpa [beginSegment] using fits), hans]
    rfl

theorem synAcks_processSegment (c : Call κ) (tsEcr : BitVec 32) (ts : TcpSession) :
    synAcks (processSegment c tsEcr ts).acts = if answersSyn c ts then 1 else 0 := by
  have hsub : ∀ l : List (Act κ), synAcks l = synAcks (syns l) := by
    intro l
    rw [synAcks, synAcks, syns, List.countP_filter]
    refine List.countP_congr ?_
    intro a _
    cases a <;> simp [Act.isSynAck, Act.isSyn]
    exact fun h _ => h
  rw [hsub, syns_processSegment]
  split
  · have h1 : ¬ (flagSyn ||| flagAck) &&& flagSyn = 0#8 := by decide
    have h2 : ¬ (flagSyn ||| flagAck) &&& flagAck = 0#8 := by decide
    simp [synAcks, synAckOf, Act.isSynAck, Segment.hasSyn, Segment.hasAck, h1, h2]
  · rfl

/-! ## When a segment leaves the session established -/

/-- The segment's ACK ends the handshake and no FIN comes with it. -/
def completes (b : List Byte) (s : TcpState) : Bool :=
  decide (Segment.headerSize b ≤ b.length) && establishes b s && !Segment.hasFin b

theorem processSegment_state (c : Call κ) (tsEcr : BitVec 32) (ts : TcpSession) :
    (processSegment c tsEcr ts).session.state =
        (processFlags c tsEcr (beginSegment c ts)).session.state ∧
      (processSegment c tsEcr ts).session.flagFinWhenAllReceived =
        (processFlags c tsEcr (beginSegment c ts)).session.flagFinWhenAllReceived := by
  obtain ⟨us, term, he⟩ := endSegment_session c tsEcr
    (processPayload c tsEcr (processFlags c tsEcr (beginSegment c ts)))
  obtain ⟨seq, us', hp⟩ := processPayload_session c tsEcr (processFlags c tsEcr (beginSegment c ts))
  rw [processSegment, he, hp]
  exact ⟨rfl, rfl⟩

/-- A session in the handshake that has not seen a FIN. After the segment it is established exactly
if the segment completes the handshake, and it has seen a FIN only if it is past that. -/
theorem processSegment_completes {c : Call κ} {ts : TcpSession} (tsEcr : BitVec 32)
    (hs : ts.state = .listen ∨ ts.state = .synRcvd)
    (hfin : ts.flagFinWhenAllReceived = false) :
    ((processSegment c tsEcr ts).session.state = .established ↔
      completes c.pkt.data ts.state = true) ∧
    ((processSegment c tsEcr ts).session.state = .listen ∨
        (processSegment c tsEcr ts).session.state = .synRcvd →
      (processSegment c tsEcr ts).session.flagFinWhenAllReceived = false) := by
  obtain ⟨hstate, hflag⟩ := processSegment_state c tsEcr ts
  rw [hstate, hflag, processFlags]
  by_cases fits : Segment.headerSize c.pkt.data ≤ c.pkt.data.length
  · rw [if_neg (by simpa [beginSegment] using fits)]
    have hstage := receiveAck_stage c tsEcr ts
    generalize receiveAck c tsEcr (receiveSyn c tsEcr (receiveRst c (beginSegment c ts))) = w
      at hstage
    have hest : establishedAfterAck c.pkt.data ts = establishes c.pkt.data ts.state := by
      have hne : stateAtAck c.pkt.data ts.state ≠ .established := by
        intro h
        rcases hs with hs | hs
        · rw [(stateAtAck_established.mp h).1] at hs
          cases hs
        · rw [(stateAtAck_established.mp h).1] at hs
          cases hs
      simp [establishedAfterAck, hne]
    have hpending : w.session.flagFinWhenAllReceived = false := hstage.pending.trans hfin
    have hafter := hstage.established
    rw [hest] at hafter
    rcases receiveFin_cases c w with ⟨hno, he⟩ | ⟨hf, hw, he⟩
    · have hkeep : ackFin c tsEcr (receiveFin c w) = w := by
        rw [he]
        rcases ackFin_cases c tsEcr w with ⟨-, ha⟩ | ⟨hx, -⟩
        · exact ha
        · rw [hpending] at hx
          cases hx
      rw [hkeep, hafter]
      refine ⟨?_, fun _ => hpending⟩
      simp only [completes, fits, decide_true, Bool.true_and, Bool.and_eq_true, Bool.not_eq_true']
      constructor
      · intro h
        exact ⟨h, by simpa [hafter.mpr h] using hno⟩
      · exact fun h => h.1
    · have hlast : (ackFin c tsEcr (receiveFin c w)).session.state = .finWait1 ∨
          (ackFin c tsEcr (receiveFin c w)).session.state = .finWait2 := by
        rcases ackFin_cases c tsEcr (receiveFin c w) with ⟨-, ha⟩ | ⟨-, -, ha⟩
        · rw [ha, he]
          exact .inl rfl
        · rw [ha]
          exact .inr rfl
      have hno : completes c.pkt.data ts.state = false := by simp [completes, hf]
      rcases hlast with hlast | hlast <;> simp [hlast, hno]
  · rw [if_pos (by simpa [beginSegment] using fits)]
    refine ⟨?_, fun _ => hfin⟩
    have hno : completes c.pkt.data ts.state = false := by simp [completes, fits]
    rw [hno]
    rcases hs with hs | hs <;> simp [beginSegment, hs]

/-! ## Runs -/

/-- The move answers a SYN of the peer. -/
def answersSynMove (m : SessionMove κ) : Bool :=
  match m.event with
  | .segment c => answersSyn c m.before
  | _ => false

/-- The move repeats the SYN of a client session. -/
def resendsSyn (m : SessionMove κ) : Bool :=
  match m.event with
  | .waitTurn idev us counter =>
    idev.isSome && counter + 1 == 3 && decide (m.before.state.rank < TcpState.established.rank) &&
      decide (time us < m.before.stateSince + 30)
  | _ => false

/-- The move ends the handshake of a server session. -/
def completesMove (m : SessionMove κ) : Bool :=
  match m.event with
  | .segment c => (m.before.state == .listen || m.before.state == .synRcvd) &&
      completes c.pkt.data m.before.state
  | _ => false

/-- The move is a turn of `wait_for_client_connected_state`. -/
def isWait (m : SessionMove κ) : Bool :=
  match m.event with
  | .waitTurn .. => true
  | _ => false

/-- How many SYNs of the peer were answered. -/
def answered (tr : List (SessionMove κ)) : ℕ := tr.countP answersSynMove

theorem answered_snoc (tr : List (SessionMove κ)) (m : SessionMove κ) :
    answered (tr ++ [m]) = answered tr + if answersSynMove m then 1 else 0 := by
  simp [answered, List.countP_cons]

theorem answered_pos_iff (tr : List (SessionMove κ)) :
    0 < answered tr ↔ ∃ m ∈ tr, answersSynMove m = true :=
  List.countP_pos_iff

structure HandshakeInv (tr : List (SessionMove κ)) (ts : TcpSession) : Prop where
  life : ts.state.group ≠ none
  passive : ts.state = .listen ∨ ts.state = .synRcvd →
    ts.isClient = false ∧ ts.flagFinWhenAllReceived = false ∧
      ts.mySeqNr = ts.initialMySeqNr + BitVec.ofNat 32 (answered tr)
  active : ts.state = .synSent → ts.isClient = true ∧ ts.mySeqNr = ts.initialMySeqNr + 1

theorem HandshakeInv.frame {tr : List (SessionMove κ)} {m : SessionMove κ} {ts ts' : TcpSession}
    (h : HandshakeInv tr ts) (hs : ts'.state = ts.state) (hseq : ts'.mySeqNr = ts.mySeqNr)
    (hi : ts'.identity = ts.identity)
    (hfin : ts'.flagFinWhenAllReceived = ts.flagFinWhenAllReceived)
    (hno : answersSynMove m = false) : HandshakeInv (tr ++ [m]) ts' := by
  have hclient : ts'.isClient = ts.isClient := congrArg (·.2.2.2.2.1) hi
  have hinit : ts'.initialMySeqNr = ts.initialMySeqNr := congrArg (·.2.2.2.2.2.2) hi
  have hcount : answered (tr ++ [m]) = answered tr := by simp [answered_snoc, hno]
  constructor
  · rw [hs]
    exact h.life
  · rw [hs, hclient, hfin, hseq, hinit, hcount]
    exact h.passive
  · rw [hs, hclient, hseq, hinit]
    exact h.active

/-- A state past the handshake. -/
theorem HandshakeInv.over {tr : List (SessionMove κ)} {ts : TcpSession} (h : ts.state.group ≠ none)
    (hs : TcpState.established.rank ≤ ts.state.rank) : HandshakeInv tr ts := by
  refine ⟨h, ?_, ?_⟩
  · rintro (hp | hp)
    · simp [hp, TcpState.rank] at hs
    · simp [hp, TcpState.rank] at hs
  · intro hp
    simp [hp, TcpState.rank] at hs

theorem HandshakeInv.segment {tr : List (SessionMove κ)} {ts : TcpSession} {c : Call κ}
    {tsEcr : BitVec 32} (h : HandshakeInv tr ts)
    (hlife : (processSegment c tsEcr ts).session.state.group ≠ none) :
    HandshakeInv (tr ++ [⟨ts, .segment c, (processSegment c tsEcr ts).acts⟩])
      (processSegment c tsEcr ts).session := by
  have hlast : ts.state ≠ .lastAck := by
    intro hs
    exact h.life (by rw [hs]; rfl)
  obtain ⟨hpassive, hactive, -⟩ := processSegment_after (c := c) tsEcr hlast
  have hid := processSegment_identity c tsEcr ts
  have hclient : (processSegment c tsEcr ts).session.isClient = ts.isClient :=
    congrArg (·.2.2.2.2.1) hid
  have hinit : (processSegment c tsEcr ts).session.initialMySeqNr = ts.initialMySeqNr :=
    congrArg (·.2.2.2.2.2.2) hid
  refine ⟨hlife, ?_, ?_⟩
  · intro hp
    obtain ⟨hts, hv⟩ := hpassive hp
    obtain ⟨h1, h2, h3⟩ := h.passive hts
    have hseq : (processSegment c tsEcr ts).session.mySeqNr = ts.mySeqNr +
        BitVec.ofNat 32 (synAcks (processSegment c tsEcr ts).acts) := congrArg (·.1) hv
    refine ⟨hclient.trans h1, (processSegment_completes tsEcr hts h2).2 hp, ?_⟩
    rw [hseq, h3, hinit, synAcks_processSegment, answered_snoc, BitVec.ofNat_add,
      BitVec.add_assoc]
    rfl
  · intro hp
    obtain ⟨hts, hv, -⟩ := hactive hp
    obtain ⟨h1, h2⟩ := h.active hts
    exact ⟨hclient.trans h1, by rw [hinit, ← h2]; exact congrArg (·.1) hv⟩

theorem HandshakeInv.step {tr : List (SessionMove κ)} {ts ts' : TcpSession} {e : SessionEvent κ}
    {acts : List (Act κ)} (h : HandshakeInv tr ts) (made : sessionStep ts e = some (ts', acts)) :
    HandshakeInv (tr ++ [⟨ts, e, acts⟩]) ts' := by
  have hlife := sessionStep_group made h.life
  cases sessionStep_change made with
  | segment c tsEcr _ => exact h.segment hlife
  | append data room =>
    have hs : ts.state = .established := by
      simp only [appends, Bool.and_eq_true, beq_iff_eq] at room
      exact room.2
    exact .over hlife (by simp [appendUnacked, hs])
  | fin => exact .over hlife (by simp [TcpState.rank])
  | visit idev now us rc _ _ visited =>
    obtain ⟨last, r, t, -, rfl⟩ := unackedVisit_session visited
    exact h.frame rfl rfl rfl rfl rfl
  | wait => exact h.frame rfl rfl rfl rfl rfl
  | quiet _ term fin timeout hq =>
    refine h.frame rfl rfl rfl rfl ?_
    cases e <;> simp_all [answersSynMove, IsQuiet]

theorem Opened.handshakeInv {ts : TcpSession} {acts : List (Act κ)} (h : Opened ts acts) :
    HandshakeInv ([] : List (SessionMove κ)) ts := by
  refine ⟨h.group, ?_, ?_⟩
  · intro hp
    cases h with
    | server => simp [newServerSession, answered]
    | client => simp [openClientSession, newClientSession, sendSegment] at hp
  · intro hp
    cases h with
    | server => simp [newServerSession] at hp
    | client =>
      have hadv : seqAdvance flagSyn 0 = 1 := by decide
      simp [openClientSession, newClientSession, sendSegment, hadv]

/-- A SYN carries the initial number, and a SYN+ACK acknowledges the peer's. -/
def SynOk (ts : TcpSession) : Act κ → Prop
  | .segment _ _ b => Segment.hasSyn b → Segment.seqNr b = ts.initialMySeqNr ∧
      (Segment.hasAck b → Segment.ackNr b = ts.initialTheirSeqNr + 1)
  | _ => True

instance (ts : TcpSession) : (a : Act κ) → Decidable (SynOk ts a)
  | .segment _ _ b => inferInstanceAs (Decidable (Segment.hasSyn b →
      Segment.seqNr b = ts.initialMySeqNr ∧
        (Segment.hasAck b → Segment.ackNr b = ts.initialTheirSeqNr + 1)))
  | .stateChange _ _ => isTrue trivial
  | .newSession _ _ => isTrue trivial
  | .newData _ _ _ => isTrue trivial
  | .sessionClosed1 _ => isTrue trivial
  | .sessionClosed2 _ => isTrue trivial
  | .badFunctionCall _ => isTrue trivial

/-- What is asked of a move: its SYNs, and the own number when it makes the session established. -/
def MoveIdempotent (m : SessionMove κ) : Prop :=
  (∀ a ∈ m.output, SynOk m.before a) ∧
    ∀ u, sessionStep m.before m.event = some (u, m.output) → m.before.state ≠ .established →
      u.state = .established → u.mySeqNr = u.initialMySeqNr + 1

/-- The condition under which a move gets it: it repeats no SYN of its own, it answers no second
SYN and none after data was taken, and it does not end a handshake without an answer. -/
def SynMoveOk (pre : List (SessionMove κ)) (m : SessionMove κ) : Prop :=
  resendsSyn m = false ∧
    (answersSynMove m = true → (∀ m' ∈ pre, answersSynMove m' = false) ∧
      m.before.theirSeqNr = m.before.initialTheirSeqNr + 1) ∧
    (completesMove m = true → ∃ m' ∈ pre ++ [m], answersSynMove m' = true)

instance (pre : List (SessionMove κ)) (m : SessionMove κ) : Decidable (SynMoveOk pre m) :=
  inferInstanceAs (Decidable (resendsSyn m = false ∧
    (answersSynMove m = true → (∀ m' ∈ pre, answersSynMove m' = false) ∧
      m.before.theirSeqNr = m.before.initialTheirSeqNr + 1) ∧
    (completesMove m = true → ∃ m' ∈ pre ++ [m], answersSynMove m' = true)))

theorem SynOk.silent {ts : TcpSession} {a : Act κ} (h : a.isSyn = false) : SynOk ts a := by
  cases a with
  | segment dst src b =>
    intro hsyn
    rw [Act.isSyn, hsyn] at h
    cases h
  | _ => trivial

theorem synOk_iff_syns {ts : TcpSession} {acts : List (Act κ)} :
    (∀ a ∈ acts, SynOk ts a) ↔ ∀ a ∈ syns acts, SynOk ts a := by
  constructor
  · intro h a ha
    exact h a (List.mem_of_mem_filter ha)
  · intro h a ha
    cases hsyn : a.isSyn with
    | false => exact .silent hsyn
    | true => exact h a (List.mem_filter.mpr ⟨ha, hsyn⟩)

theorem synOk_synAckOf (c : Call κ) (tsEcr : BitVec 32) (ts : TcpSession) :
    SynOk ts (synAckOf c tsEcr ts) ↔
      ts.mySeqNr = ts.initialMySeqNr ∧ ts.theirSeqNr = ts.initialTheirSeqNr + 1 := by
  have h1 : ¬ (flagSyn ||| flagAck) &&& flagSyn = 0#8 := by decide
  have h2 : ¬ (flagSyn ||| flagAck) &&& flagAck = 0#8 := by decide
  simp [SynOk, synAckOf, Segment.hasSyn, Segment.hasAck, h1, h2]

/-- The number of a SYN that is the `n`-th but one. -/
theorem number_eq_initial_iff (x : BitVec 32) {n k : ℕ} (hn : n < 2 ^ 32) (hk : k < 2 ^ 32) :
    x + BitVec.ofNat 32 n = x + BitVec.ofNat 32 k ↔ n = k := by
  constructor
  · intro h
    have h' := congrArg BitVec.toNat (add_left_cancel h)
    rw [BitVec.toNat_ofNat, BitVec.toNat_ofNat, Nat.mod_eq_of_lt hn, Nat.mod_eq_of_lt hk] at h'
    exact h'
  · rintro rfl
    rfl

section OneMove
variable {tr : List (SessionMove κ)} {ts ts' : TcpSession}

theorem answered_eq_zero_iff : answered tr = 0 ↔ ∀ m ∈ tr, answersSynMove m = false := by
  rw [answered, List.countP_eq_zero]
  simp

/-- The move that a segment makes. -/
def segmentMove (c : Call κ) (tsEcr : BitVec 32) (ts : TcpSession) : SessionMove κ :=
  ⟨ts, .segment c, (processSegment c tsEcr ts).acts⟩

theorem completesMove_segment {c : Call κ} {tsEcr : BitVec 32} :
    completesMove (segmentMove c tsEcr ts) = true ↔
      (ts.state = .listen ∨ ts.state = .synRcvd) ∧ completes c.pkt.data ts.state = true := by
  simp [completesMove, segmentMove]

theorem HandshakeInv.segment_syns {c : Call κ} {tsEcr : BitVec 32} (h : HandshakeInv tr ts)
    (few : answered tr ≤ 1) :
    (∀ a ∈ (processSegment c tsEcr ts).acts, SynOk ts a) ↔
      (answersSyn c ts = true → answered tr = 0 ∧ ts.theirSeqNr = ts.initialTheirSeqNr + 1) := by
  rw [synOk_iff_syns, syns_processSegment]
  cases hans : answersSyn c ts with
  | false => simp
  | true =>
    have hts : ts.state = .listen ∨ ts.state = .synRcvd := by
      simp only [answersSyn, Bool.and_eq_true, Bool.or_eq_true, beq_iff_eq] at hans
      exact hans.1.2
    have hseq := number_eq_initial_iff ts.initialMySeqNr (n := answered tr) (k := 0) (by omega)
      (by omega)
    rw [← (h.passive hts).2.2, BitVec.add_zero] at hseq
    simp only [if_true, List.mem_singleton, forall_eq, synOk_synAckOf, hseq, forall_const]

theorem HandshakeInv.segment_number {c : Call κ} {tsEcr : BitVec 32} (h : HandshakeInv tr ts)
    (hts : ts.state = .listen ∨ ts.state = .synRcvd)
    (hs : (processSegment c tsEcr ts).session.state = .established) :
    (processSegment c tsEcr ts).session.mySeqNr =
      ts.initialMySeqNr + BitVec.ofNat 32 (answered (tr ++ [segmentMove c tsEcr ts])) := by
  have hlast : ts.state ≠ .lastAck := by
    rcases hts with hs | hs <;> simp [hs]
  have hseq : (processSegment c tsEcr ts).session.mySeqNr = ts.mySeqNr +
      BitVec.ofNat 32 (synAcks (processSegment c tsEcr ts).acts) := by
    rcases (processSegment_after (c := c) tsEcr hlast).established hs with
      ⟨hx, -⟩ | ⟨hx, -⟩ | ⟨-, hv⟩
    · rcases hts with hts | hts <;> rw [hts] at hx <;> cases hx
    · rcases hts with hts | hts <;> rw [hts] at hx <;> cases hx
    · exact congrArg (·.1) hv
  rw [hseq, synAcks_processSegment, (h.passive hts).2.2, answered_snoc, BitVec.ofNat_add,
    BitVec.add_assoc]
  rfl

/-- The number with which a segment makes the session established. -/
theorem HandshakeInv.segment_established {c : Call κ} {tsEcr : BitVec 32} (h : HandshakeInv tr ts)
    (few : answered tr ≤ 1) :
    (ts.state ≠ .established → (processSegment c tsEcr ts).session.state = .established →
        (processSegment c tsEcr ts).session.mySeqNr = ts.initialMySeqNr + 1) ↔
      (completesMove (segmentMove c tsEcr ts) = true →
        answered (tr ++ [segmentMove c tsEcr ts]) = 1) := by
  have hlast : ts.state ≠ .lastAck := by
    intro hs
    exact h.life (by rw [hs]; rfl)
  have hmore : answered (tr ++ [segmentMove c tsEcr ts]) ≤ 2 := by
    rw [answered_snoc]
    split <;> omega
  constructor
  · intro hnum hcomp
    obtain ⟨hts, hdone⟩ := completesMove_segment.mp hcomp
    have hne : ts.state ≠ .established := by
      rcases hts with hs | hs <;> simp [hs]
    have hs := (processSegment_completes tsEcr hts (h.passive hts).2.1).1.mpr hdone
    have hseq := h.segment_number hts hs
    rw [hnum hne hs] at hseq
    exact (number_eq_initial_iff ts.initialMySeqNr (k := 1) (by omega) (by omega)).mp hseq.symm
  · intro hone hne hs
    rcases (processSegment_after (c := c) tsEcr hlast).established hs with
      ⟨hx, -⟩ | ⟨hts, hv, -⟩ | ⟨hts, -⟩
    · exact absurd hx hne
    · rw [show (processSegment c tsEcr ts).session.mySeqNr = ts.mySeqNr from congrArg (·.1) hv]
      exact (h.active hts).2
    · have hdone := (processSegment_completes tsEcr hts (h.passive hts).2.1).1.mp hs
      rw [h.segment_number hts hs, hone (completesMove_segment.mpr ⟨hts, hdone⟩)]
      rfl

theorem HandshakeInv.segment_idempotent_iff {c : Call κ} {tsEcr : BitVec 32}
    (h : HandshakeInv tr ts) (few : answered tr ≤ 1)
    (made : sessionStep ts (.segment c) =
      some ((processSegment c tsEcr ts).session, (processSegment c tsEcr ts).acts)) :
    MoveIdempotent (segmentMove c tsEcr ts) ↔ SynMoveOk tr (segmentMove c tsEcr ts) := by
  have hinit : (processSegment c tsEcr ts).session.initialMySeqNr = ts.initialMySeqNr :=
    congrArg (·.2.2.2.2.2.2) (processSegment_identity c tsEcr ts)
  have hmove : answersSynMove (segmentMove c tsEcr ts) = answersSyn c ts := rfl
  -- the code is deterministic: the step of the move is the one made here
  have hstep : MoveIdempotent (segmentMove c tsEcr ts) ↔
      (∀ a ∈ (processSegment c tsEcr ts).acts, SynOk ts a) ∧
        (ts.state ≠ .established → (processSegment c tsEcr ts).session.state = .established →
          (processSegment c tsEcr ts).session.mySeqNr = ts.initialMySeqNr + 1) := by
    refine and_congr Iff.rfl ?_
    constructor
    · intro hm hne hs
      rw [← hinit]
      exact hm _ made hne hs
    · intro hm u hu hne hs
      obtain rfl : u = (processSegment c tsEcr ts).session := by
        have := made.symm.trans hu
        simp only [Option.some.injEq, Prod.mk.injEq] at this
        exact this.1.symm
      rw [hinit]
      exact hm hne hs
  rw [hstep, h.segment_syns few, h.segment_established few, ← hmove, SynMoveOk, ← answered_pos_iff,
    ← answered_eq_zero_iff]
  have hresend : resendsSyn (segmentMove c tsEcr ts) = false := rfl
  simp only [hresend, true_and]
  refine and_congr_right fun hsyn => forall_congr' fun _ => ?_
  have hcount := answered_snoc tr (segmentMove c tsEcr ts)
  cases hans : answersSynMove (segmentMove c tsEcr ts) with
  | false =>
    simp only [hans, Bool.false_eq_true, if_false] at hcount
    omega
  | true =>
    have hzero := (hsyn hans).1
    simp only [hans, if_true] at hcount
    omega

theorem waitTurn_acts (idev : Option Idev) (us : BitVec 64) (counter : ℕ) (ts : TcpSession) :
    (waitTurn (κ := κ) idev us counter ts).2 =
      if resendsSyn (⟨ts, .waitTurn idev us counter, []⟩ : SessionMove κ) then
        [.segment ts.myAddr ts.theirAddr (segmentBytes us ts.theirAddr ts.theirPort ts.myAddr
          ts.myPort flagSyn ts.theirSeqNr ts.mySeqNr 0 [])]
      else [] := by
  unfold waitTurn
  split
  · next hover =>
    have hno : resendsSyn (⟨ts, .waitTurn idev us counter, []⟩ : SessionMove κ) = false := by
      rcases hover with hover | hover
      · simp [resendsSyn, Nat.not_lt.mpr hover]
      · simp [resendsSyn, hover]
    rw [hno]
    rfl
  · next hover =>
    push Not at hover
    cases idev with
    | none => simp [resendsSyn, sendSegment]
    | some d =>
      split
      · next hc => simp [resendsSyn, sendSegment, hc, hover]
      · next hc =>
        have hthird : (counter + 1 == 3) = false := by simpa using hc
        simp only [resendsSyn, hthird, Bool.and_false, Bool.false_and, Bool.false_eq_true,
          if_false]

/-- A client that is not established yet has sent its SYN. -/
theorem HandshakeInv.synSent_of_client (h : HandshakeInv tr ts) (own : ts.isClient = true)
    (early : ts.state.rank < TcpState.established.rank) : ts.state = .synSent := by
  have hserver : ts.state = .listen ∨ ts.state = .synRcvd → ts.state = .synSent := by
    intro hs
    have := (h.passive hs).1
    rw [own] at this
    cases this
  have hlife := h.life
  cases hs : ts.state with
  | closed =>
    rw [hs] at hlife
    exact absurd rfl hlife
  | listen => exact hs.symm.trans (hserver (.inl hs))
  | synRcvd => exact hs.symm.trans (hserver (.inr hs))
  | synSent => rfl
  | _ =>
    rw [hs] at early
    exact absurd early (by decide)

theorem HandshakeInv.wait_idempotent_iff {idev : Option Idev} {us : BitVec 64} {counter : ℕ}
    {acts : List (Act κ)} (h : HandshakeInv tr ts) (own : ts.isClient = true)
    (made : sessionStep ts (.waitTurn idev us counter) = some (ts', acts)) :
    MoveIdempotent ⟨ts, .waitTurn idev us counter, acts⟩ ↔
      SynMoveOk tr ⟨ts, .waitTurn idev us counter, acts⟩ := by
  have hacts : acts = if resendsSyn ⟨ts, .waitTurn idev us counter, acts⟩ then
      [.segment ts.myAddr ts.theirAddr (segmentBytes us ts.theirAddr ts.theirPort ts.myAddr
        ts.myPort flagSyn ts.theirSeqNr ts.mySeqNr 0 [])] else [] := by
    have hturn := waitTurn_acts (κ := κ) idev us counter ts
    simp only [sessionStep, Option.some.injEq] at made
    rw [made] at hturn
    exact hturn
  have hkeep : ∀ u, sessionStep ts (.waitTurn idev us counter) = some (u, acts) →
      u.state = ts.state := by
    intro u hu
    cases sessionStep_change hu with
    | wait => rfl
    | quiet _ _ _ _ hq => exact hq.elim
  have hok : SynMoveOk tr ⟨ts, .waitTurn idev us counter, acts⟩ ↔
      resendsSyn ⟨ts, .waitTurn idev us counter, acts⟩ = false := by
    simp [SynMoveOk, answersSynMove, completesMove]
  rw [hok]
  constructor
  · intro hm
    by_contra hre
    rw [Bool.not_eq_false] at hre
    rw [if_pos hre] at hacts
    have hmem := hm.1
    simp only [hacts, List.mem_singleton, forall_eq, SynOk] at hmem
    -- a client that waits has sent its SYN and stands one past it
    have hsent : ts.state = .synSent := by
      have hrank : ts.state.rank < TcpState.established.rank := by
        simp only [resendsSyn, Bool.and_eq_true, decide_eq_true_eq] at hre
        exact hre.1.2
      exact h.synSent_of_client own hrank
    have hsyn : Segment.hasSyn (segmentBytes us ts.theirAddr ts.theirPort ts.myAddr
        ts.myPort flagSyn ts.theirSeqNr ts.mySeqNr 0 []) = true := by
      have hf : ¬ flagSyn = 0#8 := by decide
      simp [Segment.hasSyn, hf]
    have hseq := (hmem hsyn).1
    rw [segmentBytes_seqNr, (h.active hsent).2] at hseq
    have hone := (number_eq_initial_iff ts.initialMySeqNr (n := 1) (k := 0) (by omega)
      (by omega)).mp (hseq.trans (BitVec.add_zero _).symm)
    cases hone
  · intro hre
    refine ⟨?_, ?_⟩
    · rw [hre, if_neg Bool.false_ne_true] at hacts
      simp [hacts]
    · intro u hu hne hs
      exact absurd ((hkeep u hu).symm.trans hs) hne

/-- Segments of the peer and the turns of a waiting client apart, nothing sends a SYN or makes a
session established. -/
theorem sessionStep_no_syn {e : SessionEvent κ} {acts : List (Act κ)}
    (made : sessionStep ts e = some (ts', acts)) (hseg : ∀ c, e ≠ .segment c)
    (hwait : ∀ idev us counter, e ≠ .waitTurn idev us counter) :
    (∀ a ∈ acts, a.isSyn = false) ∧ (ts'.state = .established → ts.state = .established) := by
  cases sessionStep_change made with
  | segment c => exact absurd rfl (hseg c)
  | append data room => exact ⟨by simp, fun hs => hs⟩
  | fin idev us last seq new drained replies =>
    refine ⟨?_, by simp⟩
    intro a ha
    rcases List.mem_append.mp ha with ha | ha
    · exact (replies a ha).not_syn (by decide)
    · obtain rfl := List.mem_singleton.mp ha
      rfl
  | visit idev now us rc _ _ visited =>
    refine ⟨?_, ?_⟩
    · intro a ha
      obtain ⟨off, n, -, -, us', rfl⟩ := unackedVisit_acts visited a ha
      have hf : flagAck &&& flagSyn = 0#8 := by decide
      simp [Act.isSyn, Segment.hasSyn, hf]
    · obtain ⟨last, r, t, -, rfl⟩ := unackedVisit_session visited
      exact fun hs => hs
  | wait idev us counter => exact absurd rfl (hwait idev us counter)
  | quiet => exact ⟨by simp, fun hs => hs⟩

theorem MoveIdempotent.silent {e : SessionEvent κ} {acts : List (Act κ)}
    (made : sessionStep ts e = some (ts', acts)) (hseg : ∀ c, e ≠ .segment c)
    (hwait : ∀ idev us counter, e ≠ .waitTurn idev us counter) :
    MoveIdempotent ⟨ts, e, acts⟩ := by
  refine ⟨fun a ha => .silent ((sessionStep_no_syn made hseg hwait).1 a ha), ?_⟩
  intro u hu hne hs
  exact absurd ((sessionStep_no_syn hu hseg hwait).2 hs) hne

theorem HandshakeInv.idempotent_iff {e : SessionEvent κ} {acts : List (Act κ)}
    (h : HandshakeInv tr ts) (few : answered tr ≤ 1)
    (own : isWait (⟨ts, e, acts⟩ : SessionMove κ) = true → ts.isClient = true)
    (made : sessionStep ts e = some (ts', acts)) :
    MoveIdempotent ⟨ts, e, acts⟩ ↔ SynMoveOk tr ⟨ts, e, acts⟩ := by
  cases e with
  | segment c =>
    cases sessionStep_change made with
    | segment _ tsEcr _ => exact h.segment_idempotent_iff few made
    | quiet _ _ _ _ hq => exact hq.elim
  | waitTurn idev us counter => exact h.wait_idempotent_iff (own rfl) made
  | _ =>
    refine iff_of_true (.silent made (by simp) (by simp)) ?_
    simp [SynMoveOk, resendsSyn, answersSynMove, completesMove]

end OneMove

/-- As long as no second SYN is answered, at most one is. -/
theorem answered_le_one {tr : List (SessionMove κ)} (h : Throughout SynMoveOk tr) :
    answered tr ≤ 1 := by
  induction tr using List.reverseRecOn with
  | nil => simp [answered]
  | append_singleton tr m ih =>
    obtain ⟨hpre, -, hsyn, -⟩ := h.snoc
    have := ih hpre
    rw [answered_snoc]
    split
    · next hans =>
      rw [answered_eq_zero_iff.mpr (hsyn hans).1]
    · omega

theorem HandshakeInv.run {s₀ s : TcpSession} {acts₀ : List (Act κ)} {tr : List (SessionMove κ)}
    (opened : Opened s₀ acts₀) (run : Run sessionStep s₀ tr s) : HandshakeInv tr s := by
  induction run with
  | nil => exact opened.handshakeInv
  | snoc _ made ih => exact ih.step made

/-- The SYN with which a client session is opened. -/
theorem Opened.synOk {s₀ : TcpSession} {acts₀ : List (Act κ)} (opened : Opened s₀ acts₀) :
    ∀ a ∈ acts₀, SynOk s₀ a := by
  cases opened with
  | server => simp
  | client =>
    have hf : flagSyn &&& flagAck = 0#8 := by decide
    simp [openClientSession, newClientSession, sendSegment, SynOk, Segment.hasSyn, Segment.hasAck,
      hf]

/-- The runs in which the SYNs of a session are idempotent. `wait_for_client_connected_state` is
only called for client sessions. -/
theorem syn_idempotent_iff {s₀ s : TcpSession} {acts₀ : List (Act κ)} {tr : List (SessionMove κ)}
    (opened : Opened s₀ acts₀) (run : Run sessionStep s₀ tr s)
    (own : ∀ m ∈ tr, isWait m = true → m.before.isClient = true) :
    ((∀ a ∈ acts₀, SynOk s₀ a) ∧ ∀ m ∈ tr, MoveIdempotent m) ↔ Throughout SynMoveOk tr := by
  rw [and_iff_right opened.synOk]
  induction run with
  | nil => simp [Throughout]
  | @snoc tr t u e o run made ih =>
    have hpre := ih fun m hm => own m (List.mem_append_left _ hm)
    have hlast := own ⟨t, e, o⟩ (List.mem_append_right _ (List.mem_singleton_self _))
    have hinv := HandshakeInv.run opened run
    constructor
    · intro h
      have hbefore := hpre.mp fun m hm => h m (List.mem_append_left _ hm)
      refine hbefore.concat ?_
      exact (hinv.idempotent_iff (answered_le_one hbefore) hlast made).mp
        (h _ (List.mem_append_right _ (List.mem_singleton_self _)))
    · intro h m hm
      obtain ⟨hbefore, hok⟩ := h.snoc
      rcases List.mem_append.mp hm with hm | hm
      · exact hpre.mpr hbefore m hm
      · obtain rfl := List.mem_singleton.mp hm
        exact (hinv.idempotent_iff (answered_le_one hbefore) hlast made).mpr hok

/-- A handshake in which nothing is lost. -/
theorem syn_idempotent_handshake :
    ∃ (tr : List (SessionMove Unit)) (s : TcpSession),
      Run sessionStep (Sample.session 6100) tr s ∧ s.state = .established ∧
      ((∀ a ∈ ([] : List (Act Unit)), SynOk (Sample.session 6100) a) ∧
        ∀ m ∈ tr, MoveIdempotent m) := by
  have run := exec_get_run sessionStep (Sample.session 6100) (Sample.handshake 6100)
    (by decide +kernel)
  exact ⟨_, _, run, by decide +kernel,
    (syn_idempotent_iff (Opened.server ..) run (by decide +kernel)).mpr (by decide +kernel)⟩

/-- The peer's SYN arrives twice, say because the answer to the first was lost. The second SYN+ACK
is sent from 501, and the session is established at 502. -/
theorem syn_repeated :
    ∃ (tr : List (SessionMove Unit)) (s : TcpSession),
      Run sessionStep (Sample.session 6200) tr s ∧
      (∃ m ∈ tr, ∃ a ∈ m.output, ¬ SynOk m.before a) ∧
      s.state = .established ∧ s.initialMySeqNr = 500 ∧ s.mySeqNr = 502 := by
  let events : List (SessionEvent Unit) :=
    [.segment (Sample.call 1 1000 0 flagSyn 6200 []),
      .segment (Sample.call 2 1000 0 flagSyn 6200 []),
      .segment (Sample.call 3 1001 501 flagAck 6200 [])]
  have run := exec_get_run sessionStep (Sample.session 6200) events (by decide +kernel)
  exact ⟨_, _, run, by decide +kernel, by decide +kernel, by decide +kernel, by decide +kernel⟩

end MyIp.Tcp
