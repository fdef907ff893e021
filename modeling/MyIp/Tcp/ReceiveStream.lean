import MyIp.Tcp.SendStream

/-! # The byte stream a session receives

`deliveredOf` is the concatenation of all buffers that were passed to `new_data`. The payload stage
is the only place where it grows, together with `their_seq_nr` and only if the segment's sequence
number is `their_seq_nr` (`processSegment_delivered`). Hence a server session delivers a growing
beginning of its peer's stream, whatever the order in which the segments arrive. -/

namespace MyIp.Tcp
open Bytes EventMachine
set_option autoImplicit false

variable {κ : Type}

def Act.data : Act κ → List Byte
  | .newData _ d _ => d
  | _ => []

/-- The buffers passed to `new_data` among some acts, one after the other. -/
def delivered (acts : List (Act κ)) : List Byte := acts.flatMap Act.data

def deliveredOf (tr : List (SessionMove κ)) : List Byte := delivered (actsOf tr)

theorem delivered_append (l l' : List (Act κ)) :
    delivered (l ++ l') = delivered l ++ delivered l' :=
  List.flatMap_append

theorem delivered_eq_nil {l : List (Act κ)} (h : ∀ a ∈ l, a.data = []) : delivered l = [] := by
  rw [delivered, List.flatMap_eq_nil_iff]
  exact h

theorem deliveredOf_snoc (tr : List (SessionMove κ)) (m : SessionMove κ) :
    deliveredOf (tr ++ [m]) = deliveredOf tr ++ delivered m.output := by
  rw [deliveredOf, actsOf_snoc, delivered_append]
  rfl

/-! ## The flags do not touch the received stream -/

theorem IsReply.data {ts : TcpSession} {flags : Byte} {a : Act κ} (h : IsReply ts flags a) :
    a.data = [] := by
  obtain ⟨us, ackTo, seq, tsEcr, rfl⟩ := h
  rfl

theorem FlagAct.data {c : Call κ} {ts : TcpSession} {a : Act κ} (h : FlagAct c ts a) :
    a.data = [] := by
  cases h with
  | stateChange => rfl
  | newSession => rfl
  | reply _ _ h => exact h.data
  | exchanged _ _ _ _ _ _ h =>
    obtain ⟨us, ackTo, seq, tsEcr, rfl⟩ := h
    rfl

theorem EndAct.data {c : Call κ} {w : Work κ} {a : Act κ} (h : EndAct c w a) : a.data = [] := by
  cases h with
  | sessionClosed1 => rfl
  | badFunctionCall => rfl
  | reply _ _ h => exact h.data

theorem ackEstablished_theirSeqNr (c : Call κ) (tsEcr : BitVec 32) (w : Work κ) :
    (ackEstablished c tsEcr w).session.theirSeqNr = w.session.theirSeqNr := by
  rcases ackEstablished_cases c tsEcr w with ⟨-, he⟩ | ⟨-, -, he⟩
  · rw [he]
  · obtain ⟨r, hr⟩ := forceSend_session (sendDrainedFin c tsEcr
      (takeAcked (ackedBytes (Segment.ackNr c.pkt.data) w.session) w))
    rw [he]
    simp only [hr]
    rcases sendDrainedFin_cases c tsEcr
      (takeAcked (ackedBytes (Segment.ackNr c.pkt.data) w.session) w) with ⟨-, hd⟩ | ⟨-, -, hd⟩
    · rw [hd]
      rfl
    · rw [hd]
      simp only [Work.setState, setState, send_session]
      rfl

/-- Only the ACK that connects a client session sets the expected sequence number. -/
theorem receiveAck_theirSeqNr {c : Call κ} {w : Work κ} (tsEcr : BitVec 32)
    (h : w.session.state ≠ .synSent) :
    (receiveAck c tsEcr w).session.theirSeqNr = w.session.theirSeqNr := by
  rcases receiveAck_cases c tsEcr w with ⟨-, he⟩ | ⟨-, -, he⟩
  · rw [he]
  · rw [he]
    rcases ackByState_cases c tsEcr w with ⟨hs, -⟩ | ⟨-, hb⟩ | ⟨-, hb⟩ | ⟨-, hb⟩ | ⟨-, -, -, -, hb⟩
    · exact absurd hs h
    · simp only [hb, ackSynRcvd_session, setState]
    · simp only [hb, Work.setState, setState]
    · simp only [hb, ackEstablished_theirSeqNr]
    · rw [hb]

theorem receiveRst_theirSeqNr (c : Call κ) (w : Work κ) :
    (receiveRst c w).session.theirSeqNr = w.session.theirSeqNr := by
  rcases receiveRst_cases c w with ⟨-, he⟩ | ⟨-, -, he⟩
  · rw [he]
  · rw [he]
    rfl

theorem receiveSyn_theirSeqNr (c : Call κ) (tsEcr : BitVec 32) (w : Work κ) :
    (receiveSyn c tsEcr w).session.theirSeqNr = w.session.theirSeqNr := by
  rcases receiveSyn_cases c tsEcr w with ⟨-, he⟩ | ⟨-, -, -, he⟩
  · rw [he]
  · simp only [he, Work.setState, setState, send_session]

theorem receiveFin_theirSeqNr (c : Call κ) (w : Work κ) :
    (receiveFin c w).session.theirSeqNr = w.session.theirSeqNr := by
  rcases receiveFin_cases c w with ⟨-, he⟩ | ⟨-, -, he⟩
  · rw [he]
  · rw [he]

theorem ackFin_theirSeqNr (c : Call κ) (tsEcr : BitVec 32) (w : Work κ) :
    (ackFin c tsEcr w).session.theirSeqNr = w.session.theirSeqNr := by
  rcases ackFin_cases c tsEcr w with ⟨-, he⟩ | ⟨-, -, he⟩
  · rw [he]
  · simp only [he, Work.setState, setState, send_session]

theorem processFlags_theirSeqNr {c : Call κ} {ts : TcpSession} (tsEcr : BitVec 32)
    (h : ts.state ≠ .synSent) :
    (processFlags c tsEcr (beginSegment c ts)).session.theirSeqNr = ts.theirSeqNr := by
  unfold processFlags
  split
  · rfl
  · rw [ackFin_theirSeqNr, receiveFin_theirSeqNr,
      receiveAck_theirSeqNr tsEcr (fun hs => h (synSent_before_ack hs).1), receiveSyn_theirSeqNr,
      receiveRst_theirSeqNr]
    rfl

/-! ## The payload -/

theorem processFlags_thrown (c : Call κ) (tsEcr : BitVec 32) (ts : TcpSession) :
    (processFlags c tsEcr (beginSegment c ts)).thrown = false := by
  have hrst : ∀ w : Work κ, (receiveRst c w).thrown = w.thrown := by
    intro w
    unfold receiveRst
    split <;> rfl
  have hsyn : ∀ w : Work κ, (receiveSyn c tsEcr w).thrown = w.thrown := by
    intro w
    unfold receiveSyn
    split <;> rfl
  have hest : ∀ w : Work κ, (ackEstablished c tsEcr w).thrown = w.thrown := by
    intro w
    unfold ackEstablished forceSend sendDrainedFin
    dsimp only
    repeat' split
    all_goals rfl
  have hrcvd : ∀ w : Work κ, (ackSynRcvd c w).thrown = w.thrown := by
    intro w
    unfold ackSynRcvd
    dsimp only
    repeat' split
    all_goals rfl
  have hack : ∀ w : Work κ, (receiveAck c tsEcr w).thrown = w.thrown := by
    intro w
    rcases receiveAck_cases c tsEcr w with ⟨-, he⟩ | ⟨-, -, he⟩
    · rw [he]
    · rw [he]
      rcases ackByState_cases c tsEcr w with
        ⟨-, hb⟩ | ⟨-, hb⟩ | ⟨-, hb⟩ | ⟨-, hb⟩ | ⟨-, -, -, -, hb⟩
      · rw [hb]
        rfl
      · rw [hb, hrcvd]
      · rw [hb]
        rfl
      · rw [hb, hest]
      · rw [hb]
  have hfin : ∀ w : Work κ, (receiveFin c w).thrown = w.thrown := by
    intro w
    unfold receiveFin
    split <;> rfl
  have hackFin : ∀ w : Work κ, (ackFin c tsEcr w).thrown = w.thrown := by
    intro w
    unfold ackFin
    split <;> rfl
  unfold processFlags
  split
  · rfl
  · rw [hackFin, hfin, hack, hsyn, hrst]
    rfl

/-! ## The payload -/

/-- `a` is an acknowledgement of `ackTo`. -/
def IsAckOf (ackTo : BitVec 32) (a : Act κ) : Prop :=
  ∃ dst src b, a = .segment dst src b ∧ Segment.hasAck b = true ∧ Segment.hasRst b = false ∧
    Segment.ackNr b = ackTo

theorem IsAckOf.data {ackTo : BitVec 32} {a : Act κ} (h : IsAckOf ackTo a) : a.data = [] := by
  obtain ⟨dst, src, b, rfl, -⟩ := h
  rfl

/-- A call for a payload that is not taken. -/
def IsRefusal (c : Call κ) (a : Act κ) : Prop :=
  a = .badFunctionCall .newData ∨
    c.newDataRc = false ∧ ∃ cb, a = .newData cb (Segment.payload c.pkt.data) false

/-- What the payload branch did. -/
inductive PayloadStep (c : Call κ) (w w' : Work κ) : Prop
  | refused (new : List (Act κ)) (acts : w'.acts = w.acts ++ new)
      (calls : ∀ a ∈ new, IsRefusal c a) (seq : w'.session.theirSeqNr = w.session.theirSeqNr)
      (expected : Segment.seqNr c.pkt.data = w.session.theirSeqNr)
  | accepted (cb : κ) (new : List (Act κ))
      (acts : w'.acts =
        w.acts ++ ([.newData cb (Segment.payload c.pkt.data) true] ++ new))
      (replies : ∀ a ∈ new, IsAckOf w'.session.theirSeqNr a)
      (seq : w'.session.theirSeqNr =
        w.session.theirSeqNr + BitVec.ofNat 32 (Segment.payload c.pkt.data).length)
      (expected : Segment.seqNr c.pkt.data = w.session.theirSeqNr)
  | unexpected (new : List (Act κ)) (acts : w'.acts = w.acts ++ new)
      (replies : ∀ a ∈ new,
        IsAckOf (unexpectedAckTo (Segment.seqNr c.pkt.data) w.session.theirSeqNr) a)
      (sent : c.idev.isSome = true ↔ new ≠ [])
      (seq : w'.session.theirSeqNr = w.session.theirSeqNr)
      (other : Segment.seqNr c.pkt.data ≠ w.session.theirSeqNr)

theorem send_ack (w : Work κ) (c : Call κ) (tsEcr ackTo : BitVec 32) :
    ∃ new, (w.send c tsEcr flagAck ackTo).acts = w.acts ++ new ∧
      (∀ a ∈ new, IsAckOf ackTo a) ∧ (c.idev.isSome = true ↔ new ≠ []) := by
  rw [Work.send, sendFromTo_acts]
  refine ⟨_, rfl, ?_, ?_⟩
  · intro a ha
    split at ha
    · obtain rfl := List.mem_singleton.mp ha
      have h1 : ¬ flagAck = 0#8 := by decide
      have h2 : flagAck &&& flagRst = 0#8 := by decide
      exact ⟨_, _, _, rfl, by simp [Segment.hasAck, h1], by simp [Segment.hasRst, h2], by simp⟩
    · cases ha
  · split <;> simp_all

theorem processPayload_step (c : Call κ) (tsEcr : BitVec 32) {w : Work κ} (ht : w.thrown = false)
    (seen : Segment.headerSize c.pkt.data < c.pkt.data.length ∧ w.fail = false) :
    PayloadStep c w (processPayload c tsEcr w) := by
  rw [processPayload, if_pos seen]
  split
  · next hs =>
    cases hl : c.listener with
    | none => exact .refused [] (by simp [deliver, hl]) (by simp) (by simp [deliver, hl]) hs
    | some handler =>
      cases hc : handler.newData with
      | none =>
        exact .refused [.badFunctionCall .newData] (by simp [deliver, hl, hc])
          (by simp [IsRefusal]) (by simp [deliver, hl, hc]) hs
      | some cb =>
        cases hrc : c.newDataRc with
        | false =>
          exact .refused [.newData cb (Segment.payload c.pkt.data) false]
            (by simp [deliver, hl, hc, hrc]) (by simp [IsRefusal, hrc])
            (by simp [deliver, hl, hc, hrc]) hs
        | true =>
          have hd : deliver c w =
              { w with
                acts := w.acts ++ [.newData cb (Segment.payload c.pkt.data) true]
                fail := false } := by
            simp [deliver, hl, hc, hrc]
          rw [hd]
          simp only [ht, Bool.false_eq_true, or_self, if_false]
          unfold acceptPayload
          dsimp only
          split
          · obtain ⟨new, hnew, hall, -⟩ := send_ack
              { w with
                session := { w.session with
                  theirSeqNr := w.session.theirSeqNr +
                    BitVec.ofNat 32 (Segment.payload c.pkt.data).length }
                acts := w.acts ++ [.newData cb (Segment.payload c.pkt.data) true]
                fail := false, thrown := false } c tsEcr
              (w.session.theirSeqNr + BitVec.ofNat 32 (Segment.payload c.pkt.data).length)
            have hseq : ∀ (w : Work κ) (ackTo : BitVec 32),
                (w.send c tsEcr flagAck ackTo).session.theirSeqNr = w.session.theirSeqNr := by
              intro w ackTo
              rw [send_session]
            refine .accepted cb new ?_ ?_ (hseq _ _) hs
            · exact hnew.trans (List.append_assoc ..)
            · rw [hseq]
              exact hall
          · exact .accepted cb [] (by simp) (by simp) rfl hs
  · next hs =>
    obtain ⟨new, hnew, hall, hsent⟩ := send_ack w c tsEcr
      (unexpectedAckTo (Segment.seqNr c.pkt.data) w.session.theirSeqNr)
    exact .unexpected new hnew hall hsent (by rw [send_session]) hs

/-- The payload is delivered and the expected number moves on by its length, or neither. -/
theorem processPayload_delivered {c : Call κ} {w : Work κ} (tsEcr : BitVec 32)
    (hrc : c.newDataRc = true) (ht : w.thrown = false) :
    (delivered (processPayload c tsEcr w).acts = delivered w.acts ∧
      (processPayload c tsEcr w).session.theirSeqNr = w.session.theirSeqNr) ∨
    (Segment.seqNr c.pkt.data = w.session.theirSeqNr ∧
      delivered (processPayload c tsEcr w).acts =
        delivered w.acts ++ Segment.payload c.pkt.data ∧
      (processPayload c tsEcr w).session.theirSeqNr =
        w.session.theirSeqNr + BitVec.ofNat 32 (Segment.payload c.pkt.data).length) := by
  by_cases seen : Segment.headerSize c.pkt.data < c.pkt.data.length ∧ w.fail = false
  · cases processPayload_step c tsEcr ht seen with
    | refused new acts calls seq expected =>
      have hnone : delivered new = [] := by
        refine delivered_eq_nil fun a ha => ?_
        rcases calls a ha with rfl | ⟨hfalse, -⟩
        · rfl
        · rw [hrc] at hfalse
          cases hfalse
      rw [acts, delivered_append, hnone, List.append_nil]
      exact .inl ⟨rfl, seq⟩
    | accepted cb new acts replies seq expected =>
      have hpayload : delivered [(.newData cb (Segment.payload c.pkt.data) true : Act κ)] =
          Segment.payload c.pkt.data := by
        simp [delivered, Act.data]
      rw [acts, delivered_append, delivered_append, hpayload,
        delivered_eq_nil fun a ha => (replies a ha).data, List.append_nil]
      exact .inr ⟨expected, rfl, seq⟩
    | unexpected new acts replies sent seq other =>
      rw [acts, delivered_append, delivered_eq_nil fun a ha => (replies a ha).data,
        List.append_nil]
      exact .inl ⟨rfl, seq⟩
  · rw [processPayload, if_neg seen]
    exact .inl ⟨rfl, rfl⟩

theorem processSegment_delivered {c : Call κ} {ts : TcpSession} (tsEcr : BitVec 32)
    (hrc : c.newDataRc = true) (hs : ts.state ≠ .synSent) :
    (delivered (processSegment c tsEcr ts).acts = [] ∧
      (processSegment c tsEcr ts).session.theirSeqNr = ts.theirSeqNr) ∨
    (Segment.seqNr c.pkt.data = ts.theirSeqNr ∧
      delivered (processSegment c tsEcr ts).acts = Segment.payload c.pkt.data ∧
      (processSegment c tsEcr ts).session.theirSeqNr =
        ts.theirSeqNr + BitVec.ofNat 32 (Segment.payload c.pkt.data).length) := by
  obtain ⟨new, hnew, hflags⟩ := processFlags_does c ts tsEcr
  have hnone : delivered (processFlags c tsEcr (beginSegment c ts)).acts = [] := by
    rw [hnew, delivered_append, delivered_eq_nil fun a h => (hflags a h).data]
    rfl
  have hseq := processFlags_theirSeqNr (c := c) tsEcr hs
  obtain ⟨new', hnew', hend⟩ :=
    endSegment_acts c tsEcr (processPayload c tsEcr (processFlags c tsEcr (beginSegment c ts)))
  obtain ⟨us, term, he⟩ :=
    endSegment_session c tsEcr (processPayload c tsEcr (processFlags c tsEcr (beginSegment c ts)))
  have hacts : delivered (processSegment c tsEcr ts).acts =
      delivered (processPayload c tsEcr (processFlags c tsEcr (beginSegment c ts))).acts := by
    rw [processSegment, hnew', delivered_append, delivered_eq_nil fun a h => (hend a h).data,
      List.append_nil]
  have hnr : (processSegment c tsEcr ts).session.theirSeqNr =
      (processPayload c tsEcr (processFlags c tsEcr (beginSegment c ts))).session.theirSeqNr := by
    rw [processSegment, he]
  rcases processPayload_delivered tsEcr hrc (processFlags_thrown c tsEcr ts) with
    ⟨h1, h2⟩ | ⟨h1, h2, h3⟩
  · exact .inl ⟨by rw [hacts, h1, hnone], by rw [hnr, h2, hseq]⟩
  · exact .inr ⟨by rw [h1, hseq], by rw [hacts, h2, hnone, List.nil_append], by rw [hnr, h3, hseq]⟩

/-! ## Whole runs -/

theorem sessionStep_synSent {ts ts' : TcpSession} {e : SessionEvent κ} {acts : List (Act κ)}
    (made : sessionStep ts e = some (ts', acts)) (hg : ts.state.group ≠ none)
    (hs : ts'.state = .synSent) : ts.state = .synSent := by
  cases sessionStep_change made with
  | segment c tsEcr _ =>
    have hl : ts.state ≠ .lastAck := fun h => hg (by rw [h]; rfl)
    exact ((processSegment_after (c := c) tsEcr hl).active hs).1
  | append => exact hs
  | fin => cases hs
  | visit idev now us rc _ _ made =>
    obtain ⟨last, r, t, -, rfl⟩ := unackedVisit_session made
    exact hs
  | wait => exact hs
  | quiet => exact hs

/-- What is asked of a segment when the peer's stream is `peerStream` and its first byte has the
number after `isn`: a SYN has the number `isn`, any other segment carries the part of the stream
that its sequence number stands for, and the application takes it. -/
def ReceiveOk (isn : BitVec 32) (peerStream : List Byte) (m : SessionMove κ) : Prop :=
  match m.event with
  | .segment c => c.newDataRc = true ∧
      (Segment.hasSyn c.pkt.data = true → Segment.seqNr c.pkt.data = isn) ∧
      (Segment.hasSyn c.pkt.data = false → Segment.payload c.pkt.data =
        (peerStream.drop (Segment.seqNr c.pkt.data - (isn + 1)).toNat).take
          (Segment.payload c.pkt.data).length)
  | _ => True

instance (isn : BitVec 32) (peerStream : List Byte) (m : SessionMove κ) :
    Decidable (ReceiveOk isn peerStream m) :=
  match m with
  | ⟨_, .segment c, _⟩ => inferInstanceAs (Decidable (c.newDataRc = true ∧
      (Segment.hasSyn c.pkt.data = true → Segment.seqNr c.pkt.data = isn) ∧
      (Segment.hasSyn c.pkt.data = false → Segment.payload c.pkt.data =
        (peerStream.drop (Segment.seqNr c.pkt.data - (isn + 1)).toNat).take
          (Segment.payload c.pkt.data).length)))
  | ⟨_, .sendData _, _⟩ => isTrue trivial
  | ⟨_, .endSession _ _, _⟩ => isTrue trivial
  | ⟨_, .unackedVisit _ _ _ _, _⟩ => isTrue trivial
  | ⟨_, .waitTurn _ _ _, _⟩ => isTrue trivial
  | ⟨_, .setIsTerminating, _⟩ => isTrue trivial
  | ⟨_, .setSessionTimeout _, _⟩ => isTrue trivial

structure ReceiveInv (isn : BitVec 32) (peerStream : List Byte) (tr : List (SessionMove κ))
    (ts : TcpSession) : Prop where
  life : ts.state.group ≠ none
  connected : ts.state ≠ .synSent
  inOrder : deliveredOf tr <+: peerStream
  expected : ts.theirSeqNr = isn + 1 + BitVec.ofNat 32 (deliveredOf tr).length

section Steps
variable {isn : BitVec 32} {peerStream : List Byte} {tr : List (SessionMove κ)} {ts : TcpSession}

theorem ReceiveInv.segment {c : Call κ} {tsEcr : BitVec 32} (h : ReceiveInv isn peerStream tr ts)
    (short : peerStream.length < 2 ^ 31)
    (ok : ReceiveOk isn peerStream ⟨ts, .segment c, (processSegment c tsEcr ts).acts⟩) :
    deliveredOf tr ++ delivered (processSegment c tsEcr ts).acts <+: peerStream ∧
      (processSegment c tsEcr ts).session.theirSeqNr = isn + 1 + BitVec.ofNat 32
        (deliveredOf tr ++ delivered (processSegment c tsEcr ts).acts).length := by
  obtain ⟨hrc, hsyn, hslice⟩ := ok
  rcases processSegment_delivered tsEcr hrc h.connected with ⟨h1, h2⟩ | ⟨h1, h2, h3⟩
  · rw [h1, h2, List.append_nil]
    exact ⟨h.inOrder, h.expected⟩
  · have hlen : (deliveredOf tr).length < 2 ^ 31 := by
      have := h.inOrder.length_le
      omega
    have hseq : Segment.seqNr c.pkt.data = isn + 1 + BitVec.ofNat 32 (deliveredOf tr).length := by
      rw [h1, h.expected]
    have hdist : (Segment.seqNr c.pkt.data - (isn + 1)).toNat = (deliveredOf tr).length := by
      rw [hseq, show ∀ x : BitVec 32, isn + 1 + x - (isn + 1) = x by intro x; ring,
        BitVec.toNat_ofNat]
      omega
    refine ⟨?_, ?_⟩
    · cases hs : Segment.hasSyn c.pkt.data with
      | true =>
        -- the number of the SYN lies behind everything that is expected
        have hz : (Segment.seqNr c.pkt.data - (isn + 1)).toNat = 2 ^ 32 - 1 := by
          rw [hsyn hs, show isn - (isn + 1) = -1 by ring]
          rfl
        omega
      | false =>
        have hpart := hslice hs
        rw [hdist] at hpart
        obtain ⟨rest, hrest⟩ := h.inOrder
        have hdrop : peerStream.drop (deliveredOf tr).length = rest := by
          rw [← hrest, List.drop_left]
        rw [h2, hpart, hdrop, ← hrest]
        exact (List.prefix_append_right_inj _).mpr (List.take_prefix _ _)
    · rw [h3, h2, h.expected, List.length_append, BitVec.ofNat_add, BitVec.add_assoc]

theorem ReceiveInv.step {ts' : TcpSession} {e : SessionEvent κ} {acts : List (Act κ)}
    (h : ReceiveInv isn peerStream tr ts) (short : peerStream.length < 2 ^ 31)
    (ok : ReceiveOk isn peerStream ⟨ts, e, acts⟩) (made : sessionStep ts e = some (ts', acts)) :
    ReceiveInv isn peerStream (tr ++ [⟨ts, e, acts⟩]) ts' := by
  have hlife := sessionStep_group made h.life
  have hconn : ts'.state ≠ .synSent := fun hs => h.connected (sessionStep_synSent made h.life hs)
  -- without a delivery everything stays
  have hquiet : delivered acts = [] → ts'.theirSeqNr = ts.theirSeqNr →
      ReceiveInv isn peerStream (tr ++ [⟨ts, e, acts⟩]) ts' := by
    intro hd hseq
    have hsame : deliveredOf (tr ++ [⟨ts, e, acts⟩]) = deliveredOf tr := by
      rw [deliveredOf_snoc, hd, List.append_nil]
    exact ⟨hlife, hconn, hsame ▸ h.inOrder, by rw [hsame, hseq, h.expected]⟩
  cases sessionStep_change made with
  | segment c tsEcr _ =>
    obtain ⟨h1, h2⟩ := h.segment short ok
    exact ⟨hlife, hconn, by rw [deliveredOf_snoc]; exact h1, by rw [deliveredOf_snoc]; exact h2⟩
  | append => exact hquiet rfl rfl
  | fin idev us last seq new _ hall =>
    refine hquiet ?_ rfl
    rw [delivered_append, delivered_eq_nil fun a ha => (hall a ha).data]
    rfl
  | visit idev now us rc _ _ made =>
    have hd : delivered acts = [] := by
      apply delivered_eq_nil
      intro a ha
      obtain ⟨off, n, -, -, us', rfl⟩ := unackedVisit_acts made a ha
      rfl
    obtain ⟨last, r, t, -, rfl⟩ := unackedVisit_session made
    exact hquiet hd rfl
  | wait idev us counter last inInit _ _ hall =>
    refine hquiet (delivered_eq_nil ?_) rfl
    intro a ha
    obtain ⟨⟨us', ackTo, seq, tsEcr, rfl⟩, -⟩ := hall a ha
    rfl
  | quiet => exact hquiet rfl rfl

end Steps

/-- In every run of a server session, in whatever order, how often and in whatever pieces the
segments of its peer arrive: what `new_data` was given is a beginning of the peer's stream, and
`their_seq_nr` is the number of the byte behind it. -/
theorem server_session_delivers_in_order (pkt : Packet) (id : BitVec 64) (mySeq : BitVec 32)
    (peerStream : List Byte) (short : peerStream.length < 2 ^ 31) {tr : List (SessionMove κ)}
    {s : TcpSession} (run : Run sessionStep (newServerSession pkt id mySeq) tr s)
    (ok : ∀ m ∈ tr, ReceiveOk (Segment.seqNr pkt.data) peerStream m) :
    deliveredOf tr <+: peerStream ∧
      s.theirSeqNr =
        Segment.seqNr pkt.data + 1 + BitVec.ofNat 32 (deliveredOf tr).length := by
  have init : ReceiveInv (Segment.seqNr pkt.data) peerStream ([] : List (SessionMove κ))
      (newServerSession pkt id mySeq) :=
    ⟨by simp [newServerSession, TcpState.group], by simp [newServerSession],
      List.nil_prefix, by simp [newServerSession, deliveredOf, delivered, actsOf]⟩
  have inv := Run.history_invariant _ _ init
    (fun _ _ _ _ _ h ok made => h.step short ok made) run ok
  exact ⟨inv.inOrder, inv.expected⟩

/-- The second half arrives first, then the first half twice, then the second half again. -/
theorem server_session_delivers_in_order_reordered :
    ∃ (tr : List (SessionMove Unit)) (s : TcpSession),
      Run sessionStep (Sample.session 100) tr s ∧ (deliveredOf tr).length = 4 ∧
      deliveredOf tr <+: [97, 98, 99, 100] ∧
      s.theirSeqNr = 1000 + 1 + BitVec.ofNat 32 (deliveredOf tr).length := by
  let events : List (SessionEvent Unit) := Sample.handshake 100 ++
    [.segment (Sample.call 3 1003 501 flagAck 100 [99, 100]),
      .segment (Sample.call 4 1001 501 flagAck 100 [97, 98]),
      .segment (Sample.call 5 1001 501 flagAck 100 [97, 98]),
      .segment (Sample.call 6 1003 501 flagAck 100 [99, 100])]
  have run := exec_get_run sessionStep (Sample.session 100) events (by decide +kernel)
  obtain ⟨h1, h2⟩ := server_session_delivers_in_order (Sample.packet 1000 0 flagSyn 100 []) 0 500
    [97, 98, 99, 100] (by decide) run (by decide +kernel)
  exact ⟨_, _, run, by decide +kernel, h1, h2⟩

end MyIp.Tcp
