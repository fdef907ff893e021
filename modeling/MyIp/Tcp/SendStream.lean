import MyIp.Tcp.LifeCycle

/-! # The byte stream a session sends

The history of a session determines two ghosts: `stream`, the concatenation of all payloads that
`send_data` appended, and `acknowledged`, the number of its bytes that incoming ACKs took off. The
invariant `SendInv` ties them to the fields `my_seq_nr`, `unacked_start_seq_nr`, `unacked` and
`unacked_size` in every state up to `tcp_established`. -/

namespace MyIp.Tcp
open Bytes EventMachine
set_option autoImplicit false

variable {κ : Type}

/-! ## Ghosts of the history -/

def appendedBy (m : SessionMove κ) : List Byte :=
  match m.event with
  | .sendData data => if appends m.before then data else []
  | _ => []

/-- The payloads that `send_data` appended, in order. -/
def stream (tr : List (SessionMove κ)) : List Byte := tr.flatMap appendedBy

/-- The segment reaches the ACK branch: its header fits and it does not reset the session. -/
def ackCounts (b : List Byte) : Bool :=
  Segment.hasAck b && !Segment.hasRst b && Segment.headerSize b ≤ b.length

/-- The number of bytes that a move takes off the buffer of an established session. -/
def acknowledgedBy (m : SessionMove κ) : ℕ :=
  match m.event with
  | .segment c =>
    if ackCounts c.pkt.data ∧ m.before.state = .established ∧ m.before.unackedSize ≠ 0 then
      (ackedBytes (Segment.ackNr c.pkt.data) m.before).toNat
    else 0
  | _ => 0

def acknowledged (tr : List (SessionMove κ)) : ℕ := (tr.map acknowledgedBy).sum

def Act.isSynAck : Act κ → Bool
  | .segment _ _ b => Segment.hasSyn b && Segment.hasAck b
  | _ => false

/-- The number of SYN+ACK segments among some acts. -/
def synAcks (acts : List (Act κ)) : ℕ := acts.countP Act.isSynAck

def synAcksOf (tr : List (SessionMove κ)) : ℕ := (tr.map fun m => synAcks m.output).sum

@[simp] theorem synAcks_nil : synAcks ([] : List (Act κ)) = 0 := rfl

theorem synAcks_append (l l' : List (Act κ)) : synAcks (l ++ l') = synAcks l + synAcks l' :=
  List.countP_append

theorem stream_snoc (tr : List (SessionMove κ)) (m : SessionMove κ) :
    stream (tr ++ [m]) = stream tr ++ appendedBy m := by
  simp [stream]

theorem acknowledged_snoc (tr : List (SessionMove κ)) (m : SessionMove κ) :
    acknowledged (tr ++ [m]) = acknowledged tr + acknowledgedBy m := by
  simp [acknowledged]

theorem synAcksOf_snoc (tr : List (SessionMove κ)) (m : SessionMove κ) :
    synAcksOf (tr ++ [m]) = synAcksOf tr + synAcks m.output := by
  simp [synAcksOf]

/-! ## SYN+ACK segments of the stages -/

theorem synAcks_sendFromTo (w : Work κ) (c : Call κ) (tsEcr : BitVec 32) (myAddr peerAddr : AnyAddr)
    (myPort peerPort : BitVec 16) (flags : Byte) (ackTo : BitVec 32) :
    synAcks (w.sendFromTo c tsEcr myAddr myPort peerAddr peerPort flags ackTo).acts =
      synAcks w.acts +
        if c.idev.isSome ∧ flags &&& flagSyn != 0 ∧ flags &&& flagAck != 0 then 1 else 0 := by
  rw [sendFromTo_acts, synAcks_append]
  congr 1
  cases c.idev with
  | none => simp
  | some _ => simp [synAcks, List.countP_cons, Act.isSynAck, Segment.hasSyn, Segment.hasAck]

theorem synAcks_send (w : Work κ) (c : Call κ) (tsEcr : BitVec 32) (flags : Byte)
    (ackTo : BitVec 32) :
    synAcks (w.send c tsEcr flags ackTo).acts =
      synAcks w.acts +
        if c.idev.isSome ∧ flags &&& flagSyn != 0 ∧ flags &&& flagAck != 0 then 1 else 0 :=
  synAcks_sendFromTo ..

theorem synAcks_of_new {l new : List (Act κ)} (h : ∀ a ∈ new, a.isSynAck = false) :
    synAcks (l ++ new) = synAcks l := by
  have hz : synAcks new = 0 := by
    rw [synAcks, List.countP_eq_zero]
    intro a ha
    simp [h a ha]
  rw [synAcks_append, hz, Nat.add_zero]

theorem IsReply.not_synAck {ts : TcpSession} {flags : Byte} {a : Act κ} (h : IsReply ts flags a)
    (hf : flags &&& flagSyn = 0) : a.isSynAck = false := by
  obtain ⟨us, ackTo, seq, tsEcr, rfl⟩ := h
  simp [Act.isSynAck, Segment.hasSyn, hf]

theorem synAcks_processPayload (c : Call κ) (tsEcr : BitVec 32) (w : Work κ) :
    synAcks (processPayload c tsEcr w).acts = synAcks w.acts := by
  obtain ⟨new, hnew, hall⟩ := processPayload_acts c tsEcr w
  rw [hnew]
  apply synAcks_of_new
  intro a ha
  cases hall a ha with
  | newData => rfl
  | badFunctionCall => rfl
  | reply _ h => exact h.not_synAck (by decide)

theorem synAcks_endSegment (c : Call κ) (tsEcr : BitVec 32) (w : Work κ) :
    synAcks (endSegment c tsEcr w).acts = synAcks w.acts := by
  obtain ⟨new, hnew, hall⟩ := endSegment_acts c tsEcr w
  rw [hnew]
  apply synAcks_of_new
  intro a ha
  cases hall a ha with
  | sessionClosed1 => rfl
  | badFunctionCall => rfl
  | reply _ _ h => exact h.not_synAck (by decide)

/-! ## One segment -/

/-- The fields that describe the data waiting for an acknowledgement. -/
def sendView (ts : TcpSession) : BitVec 32 × BitVec 32 × List Byte × BitVec 64 :=
  (ts.mySeqNr, ts.unackedStartSeqNr, ts.unacked, ts.unackedSize)

/-- The same after one more SYN or FIN. -/
def advanced (ts : TcpSession) (n : ℕ) : BitVec 32 × BitVec 32 × List Byte × BitVec 64 :=
  (ts.mySeqNr + BitVec.ofNat 32 n, ts.unackedStartSeqNr, ts.unacked, ts.unackedSize)

/-- What the segment's ACK does to the buffer of an established session. -/
def ackEffect (b : List Byte) (ts : TcpSession) : TcpSession :=
  if ackCounts b ∧ 0 < ackedBytes (Segment.ackNr b) ts ∧ ts.unackedSize ≠ 0 then
    dropAcked (ackedBytes (Segment.ackNr b) ts) ts
  else ts

/-- Where a session that is `w.session` now came from when it was `ts`, before the ACK stage. -/
structure BeforeAck (c : Call κ) (ts : TcpSession) (w : Work κ) : Prop where
  passive : w.session.state = .listen ∨ w.session.state = .synRcvd →
    (ts.state = .listen ∨ ts.state = .synRcvd) ∧ sendView w.session = advanced ts (synAcks w.acts)
  active : w.session.state = .synSent →
    ts.state = .synSent ∧ sendView w.session = sendView ts ∧ synAcks w.acts = 0
  established : w.session.state = .established →
    ts.state = .established ∧ sendView w.session = sendView ts ∧ synAcks w.acts = 0 ∧
      w.deleteEntry = false ∧ Segment.hasRst c.pkt.data = false
  lastAck : w.session.state = .lastAck → ts.state = .lastAck

/-- The same after the ACK stage. -/
structure AfterAck (c : Call κ) (ts : TcpSession) (w : Work κ) : Prop where
  passive : w.session.state = .listen ∨ w.session.state = .synRcvd →
    (ts.state = .listen ∨ ts.state = .synRcvd) ∧ sendView w.session = advanced ts (synAcks w.acts)
  active : w.session.state = .synSent →
    ts.state = .synSent ∧ sendView w.session = sendView ts ∧ synAcks w.acts = 0
  established : w.session.state = .established →
    (ts.state = .established ∧ sendView w.session = sendView (ackEffect c.pkt.data ts) ∧
      synAcks w.acts = 0) ∨
    (ts.state = .synSent ∧ sendView w.session = sendView ts ∧ synAcks w.acts = 0) ∨
    ((ts.state = .listen ∨ ts.state = .synRcvd) ∧
      sendView w.session = advanced ts (synAcks w.acts))

theorem advanced_zero (ts : TcpSession) : advanced ts 0 = sendView ts := by
  simp [advanced, sendView]

theorem beginSegment_before {c : Call κ} (ts : TcpSession) (w : Work κ)
    (hw : w = receiveRst c (beginSegment c ts)) : BeforeAck c ts w := by
  rcases receiveRst_cases c (beginSegment c ts) with ⟨hno, h⟩ | ⟨-, -, h⟩
  · rw [h] at hw
    subst hw
    have hs : (beginSegment c ts).session.state = ts.state := rfl
    have hv : sendView (beginSegment c ts).session = sendView ts := rfl
    have ha : synAcks (beginSegment c ts).acts = 0 := rfl
    refine ⟨fun hp => ⟨hp, by rw [ha, advanced_zero, hv]⟩, fun hp => ⟨hp, hv, ha⟩,
      fun hp => ⟨hp, hv, ha, rfl, ?_⟩, fun hp => hp⟩
    rw [hp] at hno
    simpa [TcpState.rank] using hno
  · have hs : w.session.state = .closing := by rw [hw, h]; rfl
    exact ⟨by simp [hs], by simp [hs], by simp [hs], by simp [hs]⟩

theorem receiveSyn_before {c : Call κ} {ts : TcpSession} {tsEcr : BitVec 32} {w : Work κ}
    (h : BeforeAck c ts w) : BeforeAck c ts (receiveSyn c tsEcr w) := by
  rcases receiveSyn_cases c tsEcr w with ⟨-, he⟩ | ⟨-, -, hstate, he⟩
  · rw [he]
    exact h
  · obtain ⟨hts, hview⟩ := h.passive hstate
    have hnew : (receiveSyn c tsEcr w).session.state = .synRcvd := by rw [he]; rfl
    refine ⟨fun _ => ⟨hts, ?_⟩, by simp [hnew], by simp [hnew], by simp [hnew]⟩
    have hacts : synAcks (receiveSyn c tsEcr w).acts =
        synAcks w.acts + if c.idev.isSome then 1 else 0 := by
      rw [he, setState_acts, synAcks_of_new (by simp [Act.isSynAck]), synAcks_send]
      simp [flagSyn, flagAck]
    rw [hacts, he]
    simp only [sendView, advanced, Prod.mk.injEq] at hview
    simp only [sendView, advanced, Work.setState, setState, send_session, hview, Prod.mk.injEq,
      and_true]
    rw [BitVec.add_assoc]
    congr 1
    cases c.idev with
    | none => simp
    | some _ =>
      have hone : seqAdvance (flagSyn ||| flagAck) 0 = 1 := by decide
      simp [hone, BitVec.ofNat_add]

theorem synAcks_ackSynSent (c : Call κ) (tsEcr : BitVec 32) (w : Work κ) :
    synAcks (ackSynSent c tsEcr w).acts = synAcks w.acts := by
  rw [ackSynSent_acts, synAcks_of_new (by simp [Act.isSynAck])]
  apply synAcks_of_new
  intro a ha
  cases hd : c.idev with
  | none => simp [hd] at ha
  | some _ =>
    simp only [hd, Option.isSome_some, if_true, List.mem_singleton] at ha
    subst ha
    simp [Act.isSynAck, Segment.hasSyn, show flagAck &&& flagSyn = 0 by decide]

theorem synAcks_ackSynRcvd (c : Call κ) (w : Work κ) :
    synAcks (ackSynRcvd c w).acts = synAcks w.acts := by
  rcases ackSynRcvd_acts c w with ⟨h, -⟩ | ⟨_, cb, -, -, h, -⟩
  · rw [h]
    exact synAcks_of_new (by simp [Act.isSynAck])
  · rw [h]
    exact synAcks_of_new (by simp [Act.isSynAck])

theorem synAcks_ackEstablished (c : Call κ) (tsEcr : BitVec 32) (w : Work κ) :
    synAcks (ackEstablished c tsEcr w).acts = synAcks w.acts := by
  rcases ackEstablished_cases c tsEcr w with ⟨-, he⟩ | ⟨-, -, he⟩
  · rw [he]
  · rw [he]
    simp only [forceSend_acts]
    rcases sendDrainedFin_cases c tsEcr
      (takeAcked (ackedBytes (Segment.ackNr c.pkt.data) w.session) w) with ⟨-, hd⟩ | ⟨-, -, hd⟩
    · rw [hd]
      rfl
    · rw [hd, setState_acts, synAcks_of_new (by simp [Act.isSynAck]), synAcks_send]
      simp [takeAcked, show (flagAck ||| flagFin) &&& flagSyn = 0 by decide]

theorem ackEffect_of_not_ack {b : List Byte} {ts : TcpSession} (h : Segment.hasAck b = false) :
    ackEffect b ts = ts := by
  simp [ackEffect, ackCounts, h]

theorem dropAcked_sendView {s t : TcpSession} (n : ℤ) (h : sendView s = sendView t) :
    sendView (dropAcked n s) = sendView (dropAcked n t) := by
  simp only [sendView, Prod.mk.injEq] at h
  obtain ⟨h1, h2, h3, h4⟩ := h
  simp [sendView, dropAcked, leftBytes, h1, h2, h3, h4]

theorem ackEstablished_sendView {c : Call κ} {tsEcr : BitVec 32} {w : Work κ} {ts : TcpSession}
    (hst : (ackEstablished c tsEcr w).session.state = .established)
    (hv : sendView w.session = sendView ts) (hc : ackCounts c.pkt.data) :
    sendView (ackEstablished c tsEcr w).session = sendView (ackEffect c.pkt.data ts) := by
  obtain ⟨r, hr⟩ := ackEstablished_session c tsEcr w hst
  have hstart : w.session.unackedStartSeqNr = ts.unackedStartSeqNr := congrArg (·.2.1) hv
  have hsize : w.session.unackedSize = ts.unackedSize := congrArg (·.2.2.2) hv
  have hab : ackedBytes (Segment.ackNr c.pkt.data) w.session =
      ackedBytes (Segment.ackNr c.pkt.data) ts := by
    simp only [ackedBytes, hstart]
  rw [hab, hsize] at hr
  unfold ackEffect
  by_cases hcond : 0 < ackedBytes (Segment.ackNr c.pkt.data) ts ∧ ts.unackedSize ≠ 0
  · rw [if_pos hcond] at hr
    rw [if_pos ⟨hc, hcond⟩, hr]
    exact dropAcked_sendView _ hv
  · rw [if_neg hcond] at hr
    rw [if_neg (fun h => hcond h.2), hr]
    exact hv

/-- The ACK branch of an established session stays there or starts to close. -/
theorem ackEstablished_state_ne (c : Call κ) (tsEcr : BitVec 32) {w : Work κ} {st : TcpState}
    (hs : w.session.state = .established) (hne : st ≠ .established) (hne' : st ≠ .finWait1) :
    (ackEstablished c tsEcr w).session.state ≠ st := by
  rcases ackEstablished_cases c tsEcr w with ⟨-, hx⟩ | ⟨-, -, hx⟩
  · rw [hx]
    exact hs ▸ hne.symm
  · obtain ⟨r, hr⟩ := forceSend_session (sendDrainedFin c tsEcr
      (takeAcked (ackedBytes (Segment.ackNr c.pkt.data) w.session) w))
    rw [hx]
    simp only [hr]
    rcases sendDrainedFin_cases c tsEcr
      (takeAcked (ackedBytes (Segment.ackNr c.pkt.data) w.session) w) with
      ⟨-, hd⟩ | ⟨-, -, hd⟩
    · rw [hd]
      exact hs ▸ hne.symm
    · rw [hd]
      exact hne'.symm

theorem AfterAck.congr {c : Call κ} {ts : TcpSession} {w w' : Work κ} (h : AfterAck c ts w)
    (hs : w'.session.state = w.session.state) (hv : sendView w'.session = sendView w.session)
    (ha : synAcks w'.acts = synAcks w.acts) : AfterAck c ts w' := by
  refine ⟨fun hp => ?_, fun hp => ?_, fun hp => ?_⟩
  · rw [hv, ha]
    exact h.passive (hs ▸ hp)
  · rw [hv, ha]
    exact h.active (hs ▸ hp)
  · rw [hv, ha]
    exact h.established (hs ▸ hp)

/-- An established session has nothing to show for the states before. -/
theorem AfterAck.reached {c : Call κ} {ts : TcpSession} {w : Work κ}
    (hs : w.session.state = .established)
    (h : (ts.state = .established ∧ sendView w.session = sendView (ackEffect c.pkt.data ts) ∧
        synAcks w.acts = 0) ∨
      (ts.state = .synSent ∧ sendView w.session = sendView ts ∧ synAcks w.acts = 0) ∨
      ((ts.state = .listen ∨ ts.state = .synRcvd) ∧
        sendView w.session = advanced ts (synAcks w.acts))) : AfterAck c ts w := by
  refine ⟨fun hp => ?_, fun hp => ?_, fun _ => h⟩
  · rw [hs] at hp
    rcases hp with hp | hp <;> cases hp
  · rw [hs] at hp
    cases hp

theorem receiveAck_after {c : Call κ} {ts : TcpSession} {tsEcr : BitVec 32} {w : Work κ}
    (h : BeforeAck c ts w) (hl : ts.state ≠ .lastAck)
    (fits : Segment.headerSize c.pkt.data ≤ c.pkt.data.length) :
    AfterAck c ts (receiveAck c tsEcr w) := by
  rcases receiveAck_cases c tsEcr w with ⟨hno, he⟩ | ⟨hack, hdel, he⟩
  · rw [he]
    refine ⟨h.passive, h.active, fun hp => ?_⟩
    obtain ⟨h1, h2, h3, h4, h5⟩ := h.established hp
    have hack : Segment.hasAck c.pkt.data = false := by
      simpa [h4] using hno
    exact .inl ⟨h1, by rw [ackEffect_of_not_ack hack]; exact h2, h3⟩
  · rcases ackByState_cases c tsEcr w with
      ⟨hs, hb⟩ | ⟨hs, hb⟩ | ⟨hs, -⟩ | ⟨hs, hb⟩ | ⟨_, h2, _, h4, hb⟩
    · obtain ⟨h1, h2, h3⟩ := h.active hs
      rw [he, hb]
      have hst : (ackSynSent c tsEcr w).session.state = .established := by rw [ackSynSent_session]
      refine .reached hst (.inr (.inl ⟨h1, ?_, ?_⟩))
      · rw [ackSynSent_session]
        exact h2
      · rw [← h3]
        exact synAcks_ackSynSent ..
    · obtain ⟨h1, h2⟩ := h.passive (.inr hs)
      rw [he, hb]
      have hst : (ackSynRcvd c w).session.state = .established := by rw [ackSynRcvd_session]; rfl
      refine .reached hst (.inr (.inr ⟨h1, ?_⟩))
      rw [synAcks_ackSynRcvd, ← h2, ackSynRcvd_session]
      rfl
    · exact absurd (h.lastAck hs) hl
    · obtain ⟨h1, h2, h3, -, h5⟩ := h.established hs
      have hst : ∀ st, st ≠ .established → st ≠ .finWait1 →
          (ackEstablished c tsEcr w).session.state ≠ st :=
        fun st => ackEstablished_state_ne c tsEcr hs
      have hc : ackCounts c.pkt.data := by simp [ackCounts, hack, h5, fits]
      have hafter : AfterAck c ts (ackEstablished c tsEcr w) := by
        refine ⟨fun hp => ?_, fun hp => absurd hp (hst _ (by simp) (by simp)),
          fun hp => .inl ⟨h1, ackEstablished_sendView hp h2 hc, ?_⟩⟩
        · rcases hp with hp | hp
          · exact absurd hp (hst _ (by simp) (by simp))
          · exact absurd hp (hst _ (by simp) (by simp))
        · rw [← h3]
          exact synAcks_ackEstablished ..
      rw [he, hb]
      exact hafter.congr rfl rfl rfl
    · rw [he, hb]
      refine ⟨h.passive, h.active, fun hp => absurd hp h4⟩

theorem AfterAck.over {c : Call κ} {ts : TcpSession} {w : Work κ}
    (h : TcpState.established.rank < w.session.state.rank) : AfterAck c ts w := by
  refine ⟨fun hp => ?_, fun hp => ?_, fun hp => ?_⟩
  · rcases hp with hp | hp <;> simp [hp, TcpState.rank] at h
  · simp [hp, TcpState.rank] at h
  · simp [hp, TcpState.rank] at h

theorem receiveFin_after {c : Call κ} {ts : TcpSession} {w : Work κ} (h : AfterAck c ts w) :
    AfterAck c ts (receiveFin c w) := by
  rcases receiveFin_cases c w with ⟨-, he⟩ | ⟨-, -, he⟩
  · rw [he]
    exact h
  · rw [he]
    exact AfterAck.over (by simp [TcpState.rank])

theorem ackFin_after {c : Call κ} {ts : TcpSession} {tsEcr : BitVec 32} {w : Work κ}
    (h : AfterAck c ts w) : AfterAck c ts (ackFin c tsEcr w) := by
  rcases ackFin_cases c tsEcr w with ⟨-, he⟩ | ⟨-, -, he⟩
  · rw [he]
    exact h
  · rw [he]
    exact AfterAck.over (by simp [Work.setState, setState, TcpState.rank])

theorem processFlags_after {c : Call κ} {ts : TcpSession} (tsEcr : BitVec 32)
    (hl : ts.state ≠ .lastAck) : AfterAck c ts (processFlags c tsEcr (beginSegment c ts)) := by
  unfold processFlags
  split
  · next hf =>
    have hshort : c.pkt.data.length < Segment.headerSize c.pkt.data := by
      simpa [beginSegment] using hf
    have hno : ackEffect c.pkt.data ts = ts := by
      simp [ackEffect, ackCounts, Nat.not_le.mpr hshort]
    have hv : sendView (beginSegment c ts).session = sendView ts := rfl
    have ha : synAcks (beginSegment c ts).acts = 0 := rfl
    refine ⟨fun hp => ⟨hp, ?_⟩, fun hp => ⟨hp, hv, ha⟩, fun hp => .inl ⟨hp, ?_, ha⟩⟩
    · rw [ha, advanced_zero, hv]
    · rw [hno, hv]
  · next hf =>
    have hfits : Segment.headerSize c.pkt.data ≤ c.pkt.data.length := by
      simpa [beginSegment] using hf
    have hbefore : BeforeAck c ts (receiveSyn c tsEcr (receiveRst c (beginSegment c ts))) :=
      receiveSyn_before (beginSegment_before ts _ rfl)
    exact ackFin_after (receiveFin_after (receiveAck_after hbefore hl hfits))

/-- Where a session that is established, or on its way there, after a segment came from. -/
theorem processSegment_after {c : Call κ} {ts : TcpSession} (tsEcr : BitVec 32)
    (hl : ts.state ≠ .lastAck) : AfterAck c ts (processSegment c tsEcr ts) := by
  have hflags := processFlags_after (c := c) tsEcr hl
  obtain ⟨seq, us, hp⟩ := processPayload_session c tsEcr (processFlags c tsEcr (beginSegment c ts))
  have hpay : AfterAck c ts (processPayload c tsEcr (processFlags c tsEcr (beginSegment c ts))) :=
    hflags.congr (by rw [hp]) (by rw [hp]; rfl) (synAcks_processPayload ..)
  obtain ⟨us', term, he⟩ := endSegment_session c tsEcr
    (processPayload c tsEcr (processFlags c tsEcr (beginSegment c ts)))
  exact hpay.congr (by rw [processSegment, he]) (by rw [processSegment, he]; rfl)
    (synAcks_endSegment ..)

/-! ## The buffer -/

section Drop
variable {ts : TcpSession} {k : ℕ} (hk : k ≤ ts.unackedSize.toNat)
include hk

theorem dropAcked_size : (dropAcked k ts).unackedSize.toNat = ts.unackedSize.toNat - k := by
  have := ts.unackedSize.isLt
  show (ts.unackedSize - BitVec.ofInt 64 (k : ℤ)).toNat = _
  rw [BitVec.ofInt_natCast, BitVec.toNat_sub, BitVec.toNat_ofNat]
  omega

theorem leftBytes_toNat_le : (leftBytes k ts).toNat ≤ ts.unackedSize.toNat - k := by
  have hsize := dropAcked_size hk
  rw [dropAcked] at hsize
  rw [leftBytes, BitVec.toInt_eq_toNat_cond, BitVec.toNat_setWidth, hsize]
  split <;> omega

theorem leftBytes_eq (small : ts.unackedSize.toNat < 2 ^ 31) :
    leftBytes k ts = ((ts.unackedSize.toNat - k : ℕ) : ℤ) := by
  have hsize := dropAcked_size hk
  rw [dropAcked] at hsize
  rw [leftBytes, BitVec.toInt_eq_toNat_of_lt, BitVec.toNat_setWidth, hsize]
  · congr 1
    omega
  · rw [BitVec.toNat_setWidth, hsize]
    omega

variable (fits : ts.unackedSize.toNat ≤ ts.unacked.length)
include fits

theorem dropAcked_fits :
    (dropAcked k ts).unackedSize.toNat ≤ (dropAcked k ts).unacked.length := by
  have hleft := leftBytes_toNat_le hk
  rw [dropAcked_size hk]
  simp only [dropAcked, Int.toNat_natCast]
  split
  · rw [moveWithin_zero_length (by omega)]
    omega
  · omega

/-- Below two gigabytes the acknowledged bytes are cut off at the front. -/
theorem dropAcked_bytes (small : ts.unackedSize.toNat < 2 ^ 31) :
    (dropAcked k ts).unacked.take (dropAcked k ts).unackedSize.toNat =
      (ts.unacked.take ts.unackedSize.toNat).drop k := by
  have hcut : k + (ts.unackedSize.toNat - k) = ts.unackedSize.toNat := by omega
  rw [dropAcked_size hk]
  simp only [dropAcked, leftBytes_eq hk small, Int.toNat_natCast]
  split
  · rw [take_moveWithin_zero (by omega), hcut]
  · have hall : ts.unackedSize.toNat - k = 0 := by omega
    rw [hall, List.take_zero, List.drop_of_length_le (by rw [List.length_take]; omega)]

end Drop

section Append
variable {ts : TcpSession} {data : List Byte}
  (room : ts.unackedSize.toNat + data.length < 2 ^ 64)
include room

theorem appendUnacked_size :
    (appendUnacked ts data).unackedSize.toNat = ts.unackedSize.toNat + data.length := by
  show (ts.unackedSize + BitVec.ofNat 64 data.length).toNat = _
  rw [BitVec.toNat_add, BitVec.toNat_ofNat]
  omega

theorem appendUnacked_fits :
    (appendUnacked ts data).unackedSize.toNat ≤ (appendUnacked ts data).unacked.length := by
  have hsize := appendUnacked_size room
  rw [appendUnacked] at hsize ⊢
  rw [hsize, writeAt_length (by rw [resize_length]), resize_length]

theorem appendUnacked_bytes (fits : ts.unackedSize.toNat ≤ ts.unacked.length) :
    (appendUnacked ts data).unacked.take (appendUnacked ts data).unackedSize.toNat =
      ts.unacked.take ts.unackedSize.toNat ++ data := by
  have hsize := appendUnacked_size room
  rw [appendUnacked] at hsize ⊢
  rw [hsize]
  exact take_append_writeAt_resize fits

end Append

/-! ## The invariant -/

/-- An established session whose stream is `str`, of which `acked` bytes were acknowledged, and
whose own numbers began `base` after the initial one. -/
structure Sending (base : ℕ) (str : List Byte) (acked : ℕ) (ts : TcpSession) : Prop where
  mySeq : ts.mySeqNr = ts.initialMySeqNr + BitVec.ofNat 32 (base + acked)
  start : ts.unackedSize ≠ 0 → ts.unackedStartSeqNr = ts.mySeqNr
  size : acked + ts.unackedSize.toNat = str.length
  small : ts.unackedSize.toNat < 2 ^ 31
  fits : ts.unackedSize.toNat ≤ ts.unacked.length
  bytes : ts.unacked.take ts.unackedSize.toNat = str.drop acked

theorem Sending.congr {base acked : ℕ} {str : List Byte} {ts ts' : TcpSession}
    (h : Sending base str acked ts) (hv : sendView ts' = sendView ts)
    (hi : ts'.identity = ts.identity) : Sending base str acked ts' := by
  simp only [sendView, Prod.mk.injEq] at hv
  obtain ⟨h1, h2, h3, h4⟩ := hv
  have hinit : ts'.initialMySeqNr = ts.initialMySeqNr := congrArg (·.2.2.2.2.2.2) hi
  constructor
  · rw [h1, hinit]
    exact h.mySeq
  · rw [h4, h2, h1]
    exact h.start
  · rw [h4]
    exact h.size
  · rw [h4]
    exact h.small
  · rw [h4, h3]
    exact h.fits
  · rw [h4, h3]
    exact h.bytes

theorem Sending.append {base acked : ℕ} {str : List Byte} {ts : TcpSession} {data : List Byte}
    (h : Sending base str acked ts) (hsmall : ts.unackedSize.toNat + data.length < 2 ^ 31) :
    Sending base (str ++ data) acked (appendUnacked ts data) := by
  have room : ts.unackedSize.toNat + data.length < 2 ^ 64 := by omega
  have hsize := appendUnacked_size room
  have hlen : acked ≤ str.length := by have := h.size; omega
  refine ⟨h.mySeq, fun _ => ?_, ?_, ?_, appendUnacked_fits room, ?_⟩
  · by_cases hz : ts.unackedSize = 0
    · simp [appendUnacked, hz]
    · simp [appendUnacked, h.start hz]
  · have := h.size
    rw [hsize, List.length_append]
    omega
  · rw [hsize]
    exact hsmall
  · rw [appendUnacked_bytes room h.fits, h.bytes, List.drop_append_of_le_length hlen]

theorem Sending.drop {base acked k : ℕ} {str : List Byte} {ts : TcpSession}
    (h : Sending base str acked ts) (hne : ts.unackedSize ≠ 0) (hk : k ≤ ts.unackedSize.toNat) :
    Sending base str (acked + k) (dropAcked k ts) := by
  have hsmall := h.small
  have hsize := dropAcked_size hk
  refine ⟨?_, fun _ => ?_, ?_, ?_, dropAcked_fits hk h.fits, ?_⟩
  · simp only [dropAcked, h.mySeq, BitVec.ofInt_natCast]
    rw [BitVec.add_assoc, ← BitVec.ofNat_add, Nat.add_assoc]
  · simp only [dropAcked, h.start hne]
  · have := h.size
    omega
  · omega
  · rw [dropAcked_bytes hk h.fits hsmall, h.bytes, List.drop_drop]

theorem Sending.ack {base acked : ℕ} {str b : List Byte} {ts : TcpSession} {n : ℕ}
    (h : Sending base str acked ts) (hst : ts.state = .established)
    (hn : n = if ackCounts b ∧ ts.state = .established ∧ ts.unackedSize ≠ 0 then
      (ackedBytes (Segment.ackNr b) ts).toNat else 0)
    (hle : ackCounts b → ts.unackedSize ≠ 0 →
      ackedBytes (Segment.ackNr b) ts ≤ ts.unackedSize.toNat) :
    Sending base str (acked + n) (ackEffect b ts) := by
  unfold ackEffect
  split
  · next hc =>
    obtain ⟨hb, hpos, hne⟩ := hc
    rw [if_pos ⟨hb, hst, hne⟩] at hn
    have hk : ackedBytes (Segment.ackNr b) ts = (n : ℤ) := by omega
    have hkle : n ≤ ts.unackedSize.toNat := by
      have := hle hb hne
      omega
    rw [hk]
    exact h.drop hne hkle
  · next hc =>
    have hz : n = 0 := by
      rw [hn]
      split
      · next hb =>
        have : ¬0 < ackedBytes (Segment.ackNr b) ts := fun hpos => hc ⟨hb.1, hpos, hb.2.2⟩
        omega
      · rfl
    rw [hz, Nat.add_zero]
    exact h

/-- How far the own sequence number was before the first byte of the stream. -/
def streamBase (tr : List (SessionMove κ)) (ts : TcpSession) : ℕ :=
  if ts.isClient then 1 else synAcksOf tr

/-- The fields and the ghosts of the history in every state up to `tcp_established`. -/
structure SendInv (tr : List (SessionMove κ)) (ts : TcpSession) : Prop where
  life : ts.state.group ≠ none
  passive : ts.state = .listen ∨ ts.state = .synRcvd →
    ts.isClient = false ∧ ts.unackedSize = 0 ∧ stream tr = [] ∧ acknowledged tr = 0 ∧
      ts.mySeqNr = ts.initialMySeqNr + BitVec.ofNat 32 (synAcksOf tr)
  active : ts.state = .synSent →
    ts.isClient = true ∧ ts.unackedSize = 0 ∧ stream tr = [] ∧ acknowledged tr = 0 ∧
      ts.mySeqNr = ts.initialMySeqNr + 1
  established : ts.state = .established →
    Sending (streamBase tr ts) (stream tr) (acknowledged tr) ts

theorem SendInv.frame {tr : List (SessionMove κ)} {m : SessionMove κ} {ts ts' : TcpSession}
    (h : SendInv tr ts) (hs : ts'.state = ts.state) (hv : sendView ts' = sendView ts)
    (hi : ts'.identity = ts.identity) (happ : appendedBy m = []) (hack : acknowledgedBy m = 0)
    (hsyn : synAcks m.output = 0) : SendInv (tr ++ [m]) ts' := by
  have h1 : stream (tr ++ [m]) = stream tr := by rw [stream_snoc, happ, List.append_nil]
  have h2 : acknowledged (tr ++ [m]) = acknowledged tr := by rw [acknowledged_snoc, hack]; rfl
  have h3 : synAcksOf (tr ++ [m]) = synAcksOf tr := by rw [synAcksOf_snoc, hsyn]; rfl
  have hclient : ts'.isClient = ts.isClient := congrArg (·.2.2.2.2.1) hi
  have hinit : ts'.initialMySeqNr = ts.initialMySeqNr := congrArg (·.2.2.2.2.2.2) hi
  have hseq : ts'.mySeqNr = ts.mySeqNr := congrArg (·.1) hv
  have hsize : ts'.unackedSize = ts.unackedSize := congrArg (·.2.2.2) hv
  constructor
  · rw [hs]
    exact h.life
  · rw [hs, h1, h2, h3, hclient, hinit, hseq, hsize]
    exact h.passive
  · rw [hs, h1, h2, hclient, hinit, hseq, hsize]
    exact h.active
  · intro hst
    rw [h1, h2, streamBase, h3, hclient]
    exact (h.established (hs ▸ hst)).congr hv hi

/-- The first state in which bytes can be sent: nothing was sent before. -/
theorem Sending.first {base : ℕ} {ts : TcpSession} (hz : ts.unackedSize = 0)
    (hseq : ts.mySeqNr = ts.initialMySeqNr + BitVec.ofNat 32 base) : Sending base [] 0 ts := by
  refine ⟨hseq, fun hne => absurd hz hne, ?_, ?_, ?_, ?_⟩
  · simp [hz]
  · simp [hz]
  · simp [hz]
  · simp [hz]

/-- What the peer and the application are asked for: no ACK beyond the bytes that are buffered, and
fewer than 2^31 bytes in the buffer. -/
def SendOk (m : SessionMove κ) : Prop :=
  match m.event with
  | .segment c => Segment.hasAck c.pkt.data → m.before.state = .established →
      m.before.unackedSize ≠ 0 →
      ackedBytes (Segment.ackNr c.pkt.data) m.before ≤ m.before.unackedSize.toNat
  | .sendData data => appends m.before → m.before.unackedSize.toNat + data.length < 2 ^ 31
  | _ => True

instance (m : SessionMove κ) : Decidable (SendOk m) :=
  match m with
  | ⟨ts, .segment c, _⟩ => inferInstanceAs (Decidable (Segment.hasAck c.pkt.data →
      ts.state = .established → ts.unackedSize ≠ 0 →
      ackedBytes (Segment.ackNr c.pkt.data) ts ≤ ts.unackedSize.toNat))
  | ⟨ts, .sendData data, _⟩ => inferInstanceAs (Decidable (appends ts →
      ts.unackedSize.toNat + data.length < 2 ^ 31))
  | ⟨_, .endSession _ _, _⟩ => isTrue trivial
  | ⟨_, .unackedVisit _ _ _ _, _⟩ => isTrue trivial
  | ⟨_, .waitTurn _ _ _, _⟩ => isTrue trivial
  | ⟨_, .setIsTerminating, _⟩ => isTrue trivial
  | ⟨_, .setSessionTimeout _, _⟩ => isTrue trivial

theorem ackCounts_hasAck {b : List Byte} (h : ackCounts b) : Segment.hasAck b := by
  simp only [ackCounts, Bool.and_eq_true] at h
  exact h.1.1

theorem SendInv.segment {tr : List (SessionMove κ)} {ts : TcpSession} {c : Call κ}
    {tsEcr : BitVec 32} (h : SendInv tr ts)
    (ok : SendOk (⟨ts, .segment c, (processSegment c tsEcr ts).acts⟩ : SessionMove κ)) :
    SendInv (tr ++ [⟨ts, .segment c, (processSegment c tsEcr ts).acts⟩])
      (processSegment c tsEcr ts).session := by
  have hlast : ts.state ≠ .lastAck := by
    intro hs
    exact h.life (by rw [hs]; rfl)
  obtain ⟨hpassive, hactive, hest⟩ := processSegment_after (c := c) tsEcr hlast
  have hid := processSegment_identity c tsEcr ts
  obtain ⟨hwalk, -, -⟩ := processSegment_passage c tsEcr ts h.life
  have hgroup : (processSegment c tsEcr ts).session.state.group ≠ none := by
    obtain ⟨_, _, -, hj, -⟩ := Path.forward hwalk h.life
    simp [hj]
  have hclient : (processSegment c tsEcr ts).session.isClient = ts.isClient :=
    congrArg (·.2.2.2.2.1) hid
  have hinit : (processSegment c tsEcr ts).session.initialMySeqNr = ts.initialMySeqNr :=
    congrArg (·.2.2.2.2.2.2) hid
  -- nothing is acknowledged before the session is established
  have hack : ts.state ≠ .established →
      acknowledgedBy (⟨ts, .segment c, (processSegment c tsEcr ts).acts⟩ : SessionMove κ) = 0 := by
    intro hne
    simp [acknowledgedBy, hne]
  have hadv : ∀ {s : TcpSession} {n : ℕ}, sendView s = advanced ts n →
      s.mySeqNr = ts.mySeqNr + BitVec.ofNat 32 n ∧ s.unackedSize = ts.unackedSize := by
    intro s n hv
    exact ⟨congrArg (·.1) hv, congrArg (·.2.2.2) hv⟩
  constructor
  · exact hgroup
  · intro hp
    obtain ⟨hts, hv⟩ := hpassive hp
    obtain ⟨h1, h2, h3, h4, h5⟩ := h.passive hts
    obtain ⟨hseq, hsize⟩ := hadv hv
    have hne : ts.state ≠ .established := by rcases hts with hts | hts <;> simp [hts]
    rw [stream_snoc, acknowledged_snoc, synAcksOf_snoc, hack hne, hclient, hinit, hseq, hsize, h5,
      BitVec.add_assoc, ← BitVec.ofNat_add, h3, h4]
    exact ⟨h1, h2, rfl, rfl, rfl⟩
  · intro hp
    obtain ⟨hts, hv, -⟩ := hactive hp
    obtain ⟨h1, h2, h3, h4, h5⟩ := h.active hts
    have hseq : (processSegment c tsEcr ts).session.mySeqNr = ts.mySeqNr := congrArg (·.1) hv
    have hsize : (processSegment c tsEcr ts).session.unackedSize = ts.unackedSize :=
      congrArg (·.2.2.2) hv
    rw [stream_snoc, acknowledged_snoc, hack (by simp [hts]), hclient, hinit, hseq, hsize, h3, h4]
    exact ⟨h1, h2, rfl, rfl, h5⟩
  · intro hp
    rw [stream_snoc, acknowledged_snoc, streamBase, synAcksOf_snoc, hclient]
    rcases hest hp with ⟨hts, hv, hsyn⟩ | ⟨hts, hv, hsyn⟩ | ⟨hts, hv⟩
    · have hsend := (h.established hts).ack (b := c.pkt.data) hts rfl
        (fun hb hne => ok (ackCounts_hasAck hb) hts hne)
      rw [show synAcks _ = 0 from hsyn, Nat.add_zero]
      simp only [appendedBy, List.append_nil]
      exact hsend.congr hv (hid.trans (by unfold ackEffect; split <;> rfl))
    · obtain ⟨h1, h2, h3, h4, h5⟩ := h.active hts
      rw [hack (by simp [hts]), h3, h4]
      simp only [h1, if_true]
      refine Sending.first ((congrArg (·.2.2.2) hv).trans h2) ?_
      rw [hinit, show (processSegment c tsEcr ts).session.mySeqNr = ts.mySeqNr from
        congrArg (·.1) hv, h5]
      rfl
    · obtain ⟨h1, h2, h3, h4, h5⟩ := h.passive hts
      obtain ⟨hseq, hsize⟩ := hadv hv
      have hne : ts.state ≠ .established := by rcases hts with hts | hts <;> simp [hts]
      rw [hack hne, h3, h4]
      simp only [h1]
      refine Sending.first (hsize.trans h2) ?_
      rw [hseq, hinit, h5, BitVec.add_assoc, ← BitVec.ofNat_add]
      rfl

theorem SendInv.step {tr : List (SessionMove κ)} {ts ts' : TcpSession} {e : SessionEvent κ}
    {acts : List (Act κ)} (h : SendInv tr ts) (ok : SendOk ⟨ts, e, acts⟩)
    (made : sessionStep ts e = some (ts', acts)) : SendInv (tr ++ [⟨ts, e, acts⟩]) ts' := by
  have hlife := sessionStep_group made h.life
  cases sessionStep_change made with
  | segment c tsEcr _ => exact h.segment ok
  | append data happ =>
    have hst : ts.state = .established := by
      simp only [appends, Bool.and_eq_true, beq_iff_eq] at happ
      exact happ.2
    have hsend := (h.established hst).append (ok happ)
    have hnew : (appendUnacked ts data).state = .established := hst
    refine ⟨hlife, by simp [hnew], by simp [hnew], fun _ => ?_⟩
    rw [stream_snoc, acknowledged_snoc, streamBase, synAcksOf_snoc]
    simpa [appendedBy, acknowledgedBy, happ, streamBase, appendUnacked] using hsend
  | fin => exact ⟨hlife, by simp, by simp, by simp⟩
  | visit idev now us rc _ _ made =>
    have hsyn : synAcks acts = 0 := by
      rw [synAcks, List.countP_eq_zero]
      intro a ha
      obtain ⟨off, n, -, -, us', rfl⟩ := unackedVisit_acts made a ha
      simp [Act.isSynAck, Segment.hasSyn, show flagAck &&& flagSyn = 0 by decide]
    obtain ⟨last, r, t, -, rfl⟩ := unackedVisit_session made
    exact h.frame rfl rfl rfl rfl rfl hsyn
  | wait idev us counter last inInit _ _ hall =>
    have hsyn : synAcks acts = 0 := by
      rw [synAcks, List.countP_eq_zero]
      intro a ha
      obtain ⟨⟨us', ackTo, seq, tsEcr, rfl⟩, -⟩ := hall a ha
      simp [Act.isSynAck, Segment.hasAck, show flagSyn &&& flagAck = 0 by decide]
    exact h.frame rfl rfl rfl rfl rfl hsyn
  | quiet _ term fin timeout hq =>
    refine h.frame rfl rfl rfl ?_ ?_ rfl
    · cases e <;> simp_all [appendedBy, IsQuiet]
    · cases e <;> simp_all [acknowledgedBy, IsQuiet]

/-! ## Whole runs -/

theorem Opened.sendInv {ts : TcpSession} {acts : List (Act κ)} (h : Opened ts acts) :
    SendInv ([] : List (SessionMove κ)) ts := by
  refine ⟨h.group, ?_, ?_, ?_⟩
  · intro hp
    cases h with
    | server => simp [newServerSession, stream, acknowledged, synAcksOf]
    | client => simp [openClientSession, newClientSession, sendSegment] at hp
  · intro hp
    cases h with
    | server => simp [newServerSession] at hp
    | client =>
      have hadv : seqAdvance flagSyn 0 = 1 := by decide
      simp [openClientSession, newClientSession, sendSegment, stream, acknowledged, hadv]
  · intro hp
    cases h with
    | server => simp [newServerSession] at hp
    | client => simp [openClientSession, newClientSession, sendSegment] at hp

theorem session_run_sendInv {s0 s : TcpSession} {acts0 : List (Act κ)}
    {tr : List (SessionMove κ)} (opened : Opened s0 acts0) (run : Run sessionStep s0 tr s)
    (ok : ∀ m ∈ tr, SendOk m) : SendInv tr s :=
  Run.history_invariant SendOk SendInv opened.sendInv
    (fun _ _ _ _ _ h ok made => h.step ok made) run ok

/-- A segment whose payload is the part of `str` that its sequence number stands for, when the
first byte of `str` has the number `first`: the offset is the distance of the two numbers modulo
2^32, and that distance itself as long as the stream is not longer. Bytes before `acked` are not
sent again. -/
def SentFromStream (str : List Byte) (acked : ℕ) (first : BitVec 32) (a : Act κ) : Prop :=
  ∃ dst src b o, a = .segment dst src b ∧
    BitVec.ofNat 32 o = Segment.seqNr b - first ∧
    acked ≤ o ∧ o + (Segment.payload b).length ≤ str.length ∧
    Segment.payload b = (str.drop o).take (Segment.payload b).length ∧
    (str.length ≤ 2 ^ 32 → o = (Segment.seqNr b - first).toNat)

theorem Sending.visit {acked : ℕ} {str : List Byte} {ts ts' : TcpSession} {idev : Idev}
    {now us : BitVec 64} {rc : ℕ → Bool} {acts : List (Act κ)} (h : Sending 1 str acked ts)
    (made : unackedVisit idev now us rc ts = some (ts', acts)) :
    ∀ a ∈ acts, SentFromStream str acked (ts.initialMySeqNr + 1) a := by
  intro a ha
  obtain ⟨off, n, hpos, hle, us', rfl⟩ := unackedVisit_acts made a ha
  have hin : off + n ≤ ts.unackedSize.toNat := by
    have := toSend_le h.small
    omega
  have hsize := h.size
  have hfits := h.fits
  have hseq : ts.mySeqNr + BitVec.ofNat 32 off - (ts.initialMySeqNr + 1) =
      BitVec.ofNat 32 (acked + off) := by
    have hone : BitVec.ofNat 32 1 = 1 := rfl
    rw [h.mySeq, BitVec.ofNat_add, BitVec.ofNat_add acked, hone]
    ring
  have hdata : readAt ts.unacked off n = (str.drop (acked + off)).take n := by
    rw [readAt_inside (by omega), ← List.drop_drop, ← h.bytes, List.drop_take, List.take_take]
    congr 1
    omega
  refine ⟨_, _, _, acked + off, rfl, ?_, by omega, ?_, ?_, fun hlen => ?_⟩
  · rw [segmentBytes_seqNr, hseq]
  · rw [segmentBytes_payload, readAt_length]
    omega
  · rw [segmentBytes_payload, readAt_length]
    exact hdata
  · rw [segmentBytes_seqNr, hseq, BitVec.toNat_ofNat]
    omega

/-- In every run of `send_data` calls, incoming segments, passes of the sender thread and the other
events of a session, as long as it is established: the buffer starts at `my_seq_nr` and is the part
of the stream that was not acknowledged yet, and every data segment of a pass carries the bytes of
the stream that belong to its sequence number. -/
theorem established_stream_integrity {s0 s : TcpSession} {acts0 : List (Act κ)}
    {tr : List (SessionMove κ)} (opened : Opened s0 acts0) (run : Run sessionStep s0 tr s)
    (ok : ∀ m ∈ tr, SendOk m)
    (est : s.state = .established) :
    (s.unackedSize ≠ 0 → s.unackedStartSeqNr = s.mySeqNr) ∧
    acknowledged tr + s.unackedSize.toNat = (stream tr).length ∧
    readAt s.unacked 0 s.unackedSize.toNat = (stream tr).drop (acknowledged tr) ∧
    ((s.isClient = false → synAcksOf tr = 1) →
      ∀ idev now us rc s' acts, unackedVisit (κ := κ) idev now us rc s = some (s', acts) →
        ∀ a ∈ acts,
          SentFromStream (stream tr) (acknowledged tr) (s.initialMySeqNr + 1) a) := by
  have hsend := (session_run_sendInv opened run ok).established est
  refine ⟨hsend.start, hsend.size, ?_, ?_⟩
  · rw [readAt_inside (by simpa using hsend.fits), List.drop_zero]
    exact hsend.bytes
  · intro hone idev now us rc s' acts made
    have hbase : streamBase tr s = 1 := by
      unfold streamBase
      split
      · rfl
      · next hc => exact hone (by simpa using hc)
    rw [hbase] at hsend
    exact hsend.visit made

/-- Five bytes, of which the peer acknowledged two after a pass that sent them all. -/
theorem established_stream_integrity_partial_ack :
    ∃ (tr : List (SessionMove Unit)) (s : TcpSession),
      Run sessionStep (Sample.session 100) tr s ∧ s.state = .established ∧
      stream tr = [1, 2, 3, 4, 5] ∧ acknowledged tr = 2 ∧ s.unackedStartSeqNr = s.mySeqNr ∧
      readAt s.unacked 0 s.unackedSize.toNat = (stream tr).drop 2 ∧
      ∃ s' acts, unackedVisit Sample.device 5000000 5000001 (fun _ => true) s = some (s', acts) ∧
        acts.length = 1 ∧
        ∀ a ∈ acts, SentFromStream (stream tr) 2 (s.initialMySeqNr + 1) (a : Act Unit) := by
  let events : List (SessionEvent Unit) := Sample.handshake 100 ++
    [.sendData [1, 2, 3, 4, 5], .unackedVisit Sample.device 2000000 2000001 (fun _ => true),
      .segment (Sample.call 2000002 1001 503 flagAck 100 [])]
  have run := exec_get_run sessionStep (Sample.session 100) events (by decide +kernel)
  have est : ((exec sessionStep (Sample.session 100) events).get (by decide +kernel)).2.state =
      .established := by decide +kernel
  obtain ⟨h1, -, h3, h4⟩ :=
    established_stream_integrity (Opened.server ..) run (by decide +kernel) est
  have hacked : acknowledged ((exec sessionStep (Sample.session 100) events).get
      (by decide +kernel)).1 = 2 := by decide +kernel
  have hvisit : (unackedVisit (κ := Unit) Sample.device 5000000 5000001 (fun _ => true)
      ((exec sessionStep (Sample.session 100) events).get (by decide +kernel)).2).map
      (·.2.length) = some 1 := by decide +kernel
  obtain ⟨⟨s', acts⟩, hv, hone⟩ := Option.map_eq_some_iff.mp hvisit
  rw [hacked] at h3 h4
  exact ⟨_, _, run, est, by decide +kernel, hacked, h1 (by decide +kernel), h3, s', acts, hv, hone,
    h4 (fun _ => by decide +kernel) _ _ _ _ _ _ hv⟩

end MyIp.Tcp
