import MyIp.Tcp.Sender

/-! # What each stage of `packet_handler` can do

One lemma for each stage that says in which cases it changes something and what it then does. The
results about runs use these and do not look into the definitions again. -/

namespace MyIp.Tcp
open Bytes
set_option autoImplicit false

variable {κ : Type}

/-! ## Sending inside the handler -/

section Send
variable (w : Work κ) (c : Call κ) (tsEcr : BitVec 32) (myAddr peerAddr : AnyAddr)
  (myPort peerPort : BitVec 16) (flags : Byte) (ackTo : BitVec 32)

theorem sendFromTo_session :
    (w.sendFromTo c tsEcr myAddr myPort peerAddr peerPort flags ackTo).session =
      { w.session with
        eLastPktTs := if c.idev.isSome then c.us else w.session.eLastPktTs
        mySeqNr := w.session.mySeqNr + if c.idev.isSome then seqAdvance flags 0 else 0 } := by
  unfold Work.sendFromTo sendSegment
  cases c.idev <;> simp

theorem sendFromTo_acts :
    (w.sendFromTo c tsEcr myAddr myPort peerAddr peerPort flags ackTo).acts =
      w.acts ++ if c.idev.isSome then
        [.segment peerAddr myAddr (segmentBytes c.us myAddr myPort peerAddr peerPort flags ackTo
          w.session.mySeqNr tsEcr [])] else [] := by
  unfold Work.sendFromTo sendSegment
  cases c.idev <;> simp

end Send

@[simp] theorem seqAdvance_ack : seqAdvance flagAck 0 = 0 := by decide

theorem send_session (w : Work κ) (c : Call κ) (tsEcr : BitVec 32) (flags : Byte)
    (ackTo : BitVec 32) :
    (w.send c tsEcr flags ackTo).session =
      { w.session with
        eLastPktTs := if c.idev.isSome then c.us else w.session.eLastPktTs
        mySeqNr := w.session.mySeqNr + if c.idev.isSome then seqAdvance flags 0 else 0 } :=
  sendFromTo_session ..

theorem send_ack_session (w : Work κ) (c : Call κ) (tsEcr : BitVec 32) (ackTo : BitVec 32) :
    (w.send c tsEcr flagAck ackTo).session =
      { w.session with eLastPktTs := if c.idev.isSome then c.us else w.session.eLastPktTs } := by
  rw [send_session]
  simp

/-- `a` is a segment without data from the session's end point to its peer's. -/
def IsReply (ts : TcpSession) (flags : Byte) (a : Act κ) : Prop :=
  ∃ us ackTo seq tsEcr, a = .segment ts.theirAddr ts.myAddr
    (segmentBytes us ts.myAddr ts.myPort ts.theirAddr ts.theirPort flags ackTo seq tsEcr [])

theorem send_acts (w : Work κ) (c : Call κ) (tsEcr : BitVec 32) (flags : Byte) (ackTo : BitVec 32) :
    ∃ new, (w.send c tsEcr flags ackTo).acts = w.acts ++ new ∧
      ∀ a ∈ new, IsReply w.session flags a := by
  refine ⟨_, sendFromTo_acts .., ?_⟩
  intro a ha
  cases hd : c.idev with
  | none => simp [hd] at ha
  | some _ =>
    simp only [hd, Option.isSome_some, if_true, List.mem_singleton] at ha
    exact ⟨_, _, _, _, ha⟩

/-! ## The stages -/

theorem receiveRst_cases (c : Call κ) (w : Work κ) :
    (¬(Segment.hasRst c.pkt.data ∧ TcpState.synRcvd.rank ≤ w.session.state.rank) ∧
        receiveRst c w = w) ∨
      (Segment.hasRst c.pkt.data ∧ TcpState.synRcvd.rank ≤ w.session.state.rank ∧
        receiveRst c w = { w.setState c.us .closing with deleteEntry := true }) := by
  unfold receiveRst
  split
  · next h => exact .inr ⟨h.1, h.2, rfl⟩
  · next h => exact .inl ⟨h, rfl⟩

theorem receiveSyn_cases (c : Call κ) (tsEcr : BitVec 32) (w : Work κ) :
    (¬(Segment.hasSyn c.pkt.data ∧ w.deleteEntry = false ∧
          (w.session.state = .listen ∨ w.session.state = .synRcvd)) ∧ receiveSyn c tsEcr w = w) ∨
      (Segment.hasSyn c.pkt.data ∧ w.deleteEntry = false ∧
        (w.session.state = .listen ∨ w.session.state = .synRcvd) ∧
        receiveSyn c tsEcr w =
          (w.send c tsEcr (flagSyn ||| flagAck) w.session.theirSeqNr).setState c.us .synRcvd) := by
  unfold receiveSyn
  split
  · next h => exact .inr ⟨h.1, h.2.1, h.2.2, rfl⟩
  · next h => exact .inl ⟨h, rfl⟩

theorem receiveAck_cases (c : Call κ) (tsEcr : BitVec 32) (w : Work κ) :
    (¬(Segment.hasAck c.pkt.data ∧ w.deleteEntry = false) ∧ receiveAck c tsEcr w = w) ∨
      (Segment.hasAck c.pkt.data ∧ w.deleteEntry = false ∧
        receiveAck c tsEcr w = { ackByState c tsEcr w with
          session := { (ackByState c tsEcr w).session with dataSinceLastAck := 0 } }) := by
  unfold receiveAck
  split
  · next h => exact .inr ⟨h.1, h.2, rfl⟩
  · next h => exact .inl ⟨h, rfl⟩

theorem ackByState_cases (c : Call κ) (tsEcr : BitVec 32) (w : Work κ) :
    (w.session.state = .synSent ∧ ackByState c tsEcr w = ackSynSent c tsEcr w) ∨
    (w.session.state = .synRcvd ∧ ackByState c tsEcr w = ackSynRcvd c w) ∨
    (w.session.state = .lastAck ∧
      ackByState c tsEcr w = { w.setState c.us .listen with deleteEntry := true }) ∨
    (w.session.state = .established ∧ ackByState c tsEcr w = ackEstablished c tsEcr w) ∨
    (w.session.state ≠ .synSent ∧ w.session.state ≠ .synRcvd ∧ w.session.state ≠ .lastAck ∧
      w.session.state ≠ .established ∧ ackByState c tsEcr w = w) := by
  unfold ackByState
  cases w.session.state <;> simp

@[simp] theorem setState_acts (w : Work κ) (us : BitVec 64) (st : TcpState) :
    (w.setState us st).acts = w.acts ++ [.stateChange w.session.state st] := rfl

theorem ackSynSent_session (c : Call κ) (tsEcr : BitVec 32) (w : Work κ) :
    (ackSynSent c tsEcr w).session =
      { w.session with
        initialTheirSeqNr := Segment.seqNr c.pkt.data
        theirSeqNr := Segment.seqNr c.pkt.data + 1
        eLastPktTs := if c.idev.isSome then c.us else w.session.eLastPktTs
        state := .established
        stateSince := time c.us } := by
  simp [ackSynSent, Work.setState, setState, sendFromTo_session]

/-- The one segment that goes out with the two end points exchanged. -/
theorem ackSynSent_acts (c : Call κ) (tsEcr : BitVec 32) (w : Work κ) :
    (ackSynSent c tsEcr w).acts = w.acts ++ (if c.idev.isSome then
      [.segment w.session.myAddr w.session.theirAddr (segmentBytes c.us w.session.theirAddr
        w.session.theirPort w.session.myAddr w.session.myPort flagAck (Segment.seqNr c.pkt.data + 1)
        w.session.mySeqNr tsEcr [])] else []) ++ [.stateChange w.session.state .established] := by
  simp only [ackSynSent, setState_acts, sendFromTo_acts, sendFromTo_session]

theorem ackSynRcvd_session (c : Call κ) (w : Work κ) :
    (ackSynRcvd c w).session = setState c.us w.session .established := by
  unfold ackSynRcvd
  dsimp only
  repeat' split
  all_goals rfl

theorem ackSynRcvd_acts (c : Call κ) (w : Work κ) :
    ((ackSynRcvd c w).acts = w.acts ++ [.stateChange w.session.state .established] ∧
      ∀ handler, c.listener = some handler → handler.newSession = none) ∨
      ∃ handler cb, c.listener = some handler ∧ handler.newSession = some cb ∧
        (ackSynRcvd c w).acts = w.acts ++
          [.stateChange w.session.state .established, .newSession cb c.newSessionRc] ∧
        (ackSynRcvd c w).fail = (w.fail || !c.newSessionRc) := by
  unfold ackSynRcvd
  dsimp only
  split
  · next handler hl =>
    split
    · next cb hc => exact .inr ⟨handler, cb, hl, hc, by simp, rfl⟩
    · next hc =>
      refine .inl ⟨rfl, ?_⟩
      intro h hh
      rw [hl] at hh
      cases hh
      exact hc
  · next hl => exact .inl ⟨rfl, by simp [hl]⟩

theorem sendDrainedFin_cases (c : Call κ) (tsEcr : BitVec 32) (w : Work κ) :
    (¬(w.session.unackedSize = 0 ∧ w.session.finAfterUnackedEmpty) ∧ sendDrainedFin c tsEcr w = w) ∨
      (w.session.unackedSize = 0 ∧ w.session.finAfterUnackedEmpty ∧
        sendDrainedFin c tsEcr w =
          (w.send c tsEcr (flagAck ||| flagFin) w.session.theirSeqNr).setState c.us .finWait1) := by
  unfold sendDrainedFin
  split
  · next h => exact .inr ⟨h.1, h.2, rfl⟩
  · next h => exact .inl ⟨h, rfl⟩

theorem forceSend_session (w : Work κ) :
    ∃ ts, (forceSend w).session = { w.session with rLastPktTs := ts } := by
  unfold forceSend
  split <;> exact ⟨_, rfl⟩

@[simp] theorem forceSend_acts (w : Work κ) : (forceSend w).acts = w.acts := by
  unfold forceSend
  split <;> rfl

/-- An ACK of an established session finds nothing to take off the buffer, or takes it off and goes
on, or takes off the rest and sends the FIN that waited for that. -/
theorem ackEstablished_cases (c : Call κ) (tsEcr : BitVec 32) (w : Work κ) :
    (¬(0 < ackedBytes (Segment.ackNr c.pkt.data) w.session ∧ w.session.unackedSize ≠ 0) ∧
      ackEstablished c tsEcr w = { w with notifyUnackedCv := true }) ∨
    (0 < ackedBytes (Segment.ackNr c.pkt.data) w.session ∧ w.session.unackedSize ≠ 0 ∧
      ackEstablished c tsEcr w =
        { forceSend (sendDrainedFin c tsEcr
            (takeAcked (ackedBytes (Segment.ackNr c.pkt.data) w.session) w)) with
          notifyUnackedCv := true }) := by
  unfold ackEstablished
  dsimp only
  split
  · next h => exact .inr ⟨h.1, h.2, rfl⟩
  · next h => exact .inl ⟨h, rfl⟩

theorem ackEstablished_session (c : Call κ) (tsEcr : BitVec 32) (w : Work κ)
    (h : (ackEstablished c tsEcr w).session.state = .established) :
    ∃ ts, (ackEstablished c tsEcr w).session = { (
      if 0 < ackedBytes (Segment.ackNr c.pkt.data) w.session ∧ w.session.unackedSize ≠ 0 then
        dropAcked (ackedBytes (Segment.ackNr c.pkt.data) w.session) w.session
      else w.session) with rLastPktTs := ts } := by
  rcases ackEstablished_cases c tsEcr w with ⟨hn, he⟩ | ⟨hpos, hne, he⟩
  · rw [if_neg hn, he]
    exact ⟨_, rfl⟩
  · rw [if_pos ⟨hpos, hne⟩]
    obtain ⟨ts, hts⟩ := forceSend_session (sendDrainedFin c tsEcr
      (takeAcked (ackedBytes (Segment.ackNr c.pkt.data) w.session) w))
    rcases sendDrainedFin_cases c tsEcr
      (takeAcked (ackedBytes (Segment.ackNr c.pkt.data) w.session) w) with ⟨-, hd⟩ | ⟨-, -, hd⟩
    · rw [hd] at hts he
      exact ⟨ts, by rw [he]; exact hts⟩
    · rw [he, hd] at h
      rw [hd] at hts
      have hs := congrArg TcpSession.state hts
      rw [show (forceSend _).session.state = .established from h] at hs
      cases hs

theorem receiveFin_cases (c : Call κ) (w : Work κ) :
    (¬(Segment.hasFin c.pkt.data ∧ w.session.state = .established) ∧ receiveFin c w = w) ∨
      (Segment.hasFin c.pkt.data ∧ w.session.state = .established ∧
        receiveFin c w = { w with
          session := { w.session with
            seqForFinWhenAllReceived := Segment.seqNr c.pkt.data
            flagFinWhenAllReceived := true
            isTerminating := true
            state := .finWait1
            stateSince := time c.us }
          acts := w.acts ++ [.stateChange w.session.state .finWait1] }) := by
  unfold receiveFin
  split
  · next h => exact .inr ⟨h.1, h.2, rfl⟩
  · next h => exact .inl ⟨h, rfl⟩

theorem ackFin_cases (c : Call κ) (tsEcr : BitVec 32) (w : Work κ) :
    (¬(w.session.flagFinWhenAllReceived ∧
          w.session.seqForFinWhenAllReceived = w.session.theirSeqNr) ∧ ackFin c tsEcr w = w) ∨
      (w.session.flagFinWhenAllReceived ∧
        w.session.seqForFinWhenAllReceived = w.session.theirSeqNr ∧
        ackFin c tsEcr w =
          { (w.send c tsEcr (flagAck ||| flagFin) (w.session.theirSeqNr + 1)).setState c.us
              .finWait2 with
            deleteEntry := true }) := by
  unfold ackFin
  split
  · next h => exact .inr ⟨h.1, h.2, rfl⟩
  · next h => exact .inl ⟨h, rfl⟩

theorem processPayload_session (c : Call κ) (tsEcr : BitVec 32) (w : Work κ) :
    ∃ seq us, (processPayload c tsEcr w).session =
      { w.session with theirSeqNr := seq, eLastPktTs := us } := by
  unfold processPayload
  split
  · split
    · have hd : (deliver c w).session = w.session := by
        unfold deliver
        repeat' split
        all_goals rfl
      dsimp only
      split
      · exact ⟨_, _, hd⟩
      · unfold acceptPayload
        dsimp only
        split
        · exact ⟨_, _, by rw [send_ack_session, hd]⟩
        · exact ⟨_, _, by rw [hd]⟩
    · exact ⟨_, _, send_ack_session ..⟩
  · exact ⟨_, _, rfl⟩

inductive PayloadAct (c : Call κ) (w : Work κ) : Act κ → Prop
  | newData (handler : PortHandler κ) (cb : κ) (listens : c.listener = some handler)
      (set : handler.newData = some cb) (expected : Segment.seqNr c.pkt.data = w.session.theirSeqNr)
      (running : w.fail = false) (carries : Segment.headerSize c.pkt.data < c.pkt.data.length) :
      PayloadAct c w (.newData cb (Segment.payload c.pkt.data) c.newDataRc)
  | badFunctionCall : PayloadAct c w (.badFunctionCall .newData)
  | reply (a : Act κ) (h : IsReply w.session flagAck a) : PayloadAct c w a

theorem processPayload_acts (c : Call κ) (tsEcr : BitVec 32) (w : Work κ) :
    ∃ new, (processPayload c tsEcr w).acts = w.acts ++ new ∧ ∀ a ∈ new, PayloadAct c w a := by
  unfold processPayload
  split
  · next hp =>
    split
    · next hs =>
      have hd : ∃ new, (deliver c w).acts = w.acts ++ new ∧ ∀ a ∈ new, PayloadAct c w a := by
        unfold deliver
        split
        · next handler hl =>
          split
          · next cb hc =>
            refine ⟨_, rfl, ?_⟩
            intro a ha
            obtain rfl := List.mem_singleton.mp ha
            exact .newData handler cb hl hc hs hp.2 hp.1
          · refine ⟨_, rfl, ?_⟩
            intro a ha
            obtain rfl := List.mem_singleton.mp ha
            exact .badFunctionCall
        · exact ⟨[], by simp, by simp⟩
      have hds : (deliver c w).session = w.session := by
        unfold deliver
        repeat' split
        all_goals rfl
      obtain ⟨new, hnew, hall⟩ := hd
      dsimp only
      split
      · exact ⟨new, hnew, hall⟩
      · unfold acceptPayload
        dsimp only
        split
        · obtain ⟨new', hnew', hall'⟩ := send_acts
            { deliver c w with session := { (deliver c w).session with
              theirSeqNr := (deliver c w).session.theirSeqNr +
                BitVec.ofNat 32 (Segment.payload c.pkt.data).length } } c tsEcr flagAck
            ((deliver c w).session.theirSeqNr +
              BitVec.ofNat 32 (Segment.payload c.pkt.data).length)
          refine ⟨new ++ new', by rw [hnew', hnew, List.append_assoc], ?_⟩
          intro a ha
          rcases List.mem_append.mp ha with ha | ha
          · exact hall a ha
          · have h := hall' a ha
            simp only [IsReply, hds] at h
            exact .reply a h
        · exact ⟨new, hnew, hall⟩
    · obtain ⟨new, hnew, hall⟩ := send_acts w c tsEcr flagAck
        (unexpectedAckTo (Segment.seqNr c.pkt.data) w.session.theirSeqNr)
      exact ⟨new, hnew, fun a ha => .reply a (hall a ha)⟩
  · exact ⟨[], by simp, by simp⟩

inductive EndAct (c : Call κ) (w : Work κ) : Act κ → Prop
  | sessionClosed1 (cb : κ) (failed : w.fail) : EndAct c w (.sessionClosed1 cb)
  | badFunctionCall (failed : w.fail) : EndAct c w (.badFunctionCall .sessionClosed1)
  | reply (a : Act κ) (failed : w.fail) (h : IsReply w.session (flagRst ||| flagAck) a) :
      EndAct c w a

theorem sendFailRst_acts (c : Call κ) (tsEcr : BitVec 32) (w : Work κ) :
    ∃ new, (sendFailRst c tsEcr w).acts = w.acts ++ new ∧
      ∀ a ∈ new, IsReply w.session (flagRst ||| flagAck) a := by
  unfold sendFailRst sendSegment
  cases c.idev with
  | none => exact ⟨[], rfl, by simp⟩
  | some _ =>
    refine ⟨_, rfl, ?_⟩
    intro a ha
    exact ⟨_, _, _, _, List.mem_singleton.mp ha⟩

theorem failSession_acts (c : Call κ) (tsEcr : BitVec 32) (w : Work κ) :
    ∃ new, (failSession c tsEcr w).acts = w.acts ++ new ∧ ∀ a ∈ new, EndAct c w a := by
  unfold failSession
  split
  · next hf =>
    split
    · split
      · next cb _ =>
        obtain ⟨new, hnew, hall⟩ :=
          sendFailRst_acts c tsEcr { w with acts := w.acts ++ [.sessionClosed1 cb] }
        refine ⟨.sessionClosed1 cb :: new, by rw [hnew]; simp, ?_⟩
        intro a ha
        rcases List.mem_cons.mp ha with rfl | ha
        · exact .sessionClosed1 cb hf
        · exact .reply a hf (hall a ha)
      · refine ⟨_, rfl, ?_⟩
        intro a ha
        obtain rfl := List.mem_singleton.mp ha
        exact .badFunctionCall hf
    · obtain ⟨new, hnew, hall⟩ := sendFailRst_acts c tsEcr w
      exact ⟨new, hnew, fun a ha => .reply a hf (hall a ha)⟩
  · exact ⟨[], by simp, by simp⟩

theorem endSegment_acts (c : Call κ) (tsEcr : BitVec 32) (w : Work κ) :
    ∃ new, (endSegment c tsEcr w).acts = w.acts ++ new ∧ ∀ a ∈ new, EndAct c w a := by
  have hf := failSession_acts c tsEcr w
  unfold endSegment markTerminating
  dsimp only
  split
  · exact ⟨[], by simp, by simp⟩
  · split
    · exact hf
    · split <;> exact hf

theorem sendFailRst_session (c : Call κ) (tsEcr : BitVec 32) (w : Work κ) :
    ∃ us, (sendFailRst c tsEcr w).session = { w.session with eLastPktTs := us } := by
  unfold sendFailRst sendSegment
  cases c.idev <;> exact ⟨_, rfl⟩

theorem failSession_session (c : Call κ) (tsEcr : BitVec 32) (w : Work κ) :
    ∃ us, (failSession c tsEcr w).session = { w.session with eLastPktTs := us } := by
  unfold failSession
  repeat' split
  all_goals first | exact sendFailRst_session .. | exact ⟨_, rfl⟩

theorem endSegment_session (c : Call κ) (tsEcr : BitVec 32) (w : Work κ) :
    ∃ us term, (endSegment c tsEcr w).session =
      { w.session with eLastPktTs := us, isTerminating := term } := by
  obtain ⟨us, hf⟩ := failSession_session c tsEcr w
  unfold endSegment markTerminating
  dsimp only
  split
  · exact ⟨_, _, rfl⟩
  · split
    · exact ⟨us, _, hf⟩
    · split
      · exact ⟨us, true, by rw [hf]⟩
      · exact ⟨us, _, hf⟩

/-! ## The application's side -/

theorem sendData_cases (ts : TcpSession) (data : List Byte) :
    (appends ts = true ∧ sendData ts data = appendUnacked ts data) ∨
      (appends ts = false ∧ sendData ts data = ts) := by
  unfold sendData
  cases h : appends ts
  · exact .inr ⟨rfl, rfl⟩
  · exact .inl ⟨rfl, rfl⟩

/-- Ending a session sends the FIN, or leaves that to the ACK that empties the buffer. -/
theorem endSession_cases (idev : Option Idev) (us : BitVec 64) (ts : TcpSession) :
    (ts.unackedSize = 0 ∧ ∃ last seq new,
      endSession (κ := κ) idev us ts =
        ({ ts with
            eLastPktTs := last
            mySeqNr := seq
            state := .finWait1
            stateSince := time us }, new ++ [.stateChange ts.state .finWait1]) ∧
      ∀ a ∈ new, IsReply ts flagFin a) ∨
    (ts.unackedSize ≠ 0 ∧
      endSession (κ := κ) idev us ts = ({ ts with finAfterUnackedEmpty := true }, [])) := by
  unfold endSession sendSegment
  split
  · next h =>
    refine .inl ⟨h, ?_⟩
    cases idev with
    | none => exact ⟨ts.eLastPktTs, ts.mySeqNr, [], rfl, by simp⟩
    | some d =>
      refine ⟨us, _, _, rfl, ?_⟩
      intro a ha
      exact ⟨_, _, _, _, List.mem_singleton.mp ha⟩
  · next h => exact .inr ⟨h, rfl⟩

def IsExchanged (ts : TcpSession) (flags : Byte) (a : Act κ) : Prop :=
  ∃ us ackTo seq tsEcr, a = .segment ts.myAddr ts.theirAddr
    (segmentBytes us ts.theirAddr ts.theirPort ts.myAddr ts.myPort flags ackTo seq tsEcr [])

theorem waitTurn_cases (idev : Option Idev) (us : BitVec 64) (counter : ℕ) (ts : TcpSession) :
    ∃ last inInit, (inInit = true → ts.inInit = true) ∧
      (waitTurn (κ := κ) idev us counter ts).1 =
        { ts with eLastPktTs := last, inInit := inInit } ∧
      ∀ a ∈ (waitTurn (κ := κ) idev us counter ts).2, IsExchanged ts flagSyn a ∧ counter + 1 = 3 ∧
        idev.isSome ∧ ts.state.rank < TcpState.established.rank ∧ time us < ts.stateSince + 30 := by
  unfold waitTurn sendSegment
  split
  · exact ⟨ts.eLastPktTs, false, by simp, rfl, by simp⟩
  · next hw =>
    push Not at hw
    split
    · next hc =>
      cases idev with
      | none => exact ⟨ts.eLastPktTs, ts.inInit, id, rfl, by simp⟩
      | some d =>
        refine ⟨us, ts.inInit, id, rfl, ?_⟩
        intro a ha
        exact ⟨⟨_, _, _, _, List.mem_singleton.mp ha⟩, hc, rfl, hw.1, hw.2⟩
    · exact ⟨ts.eLastPktTs, ts.inInit, id, rfl, by simp⟩

end MyIp.Tcp
