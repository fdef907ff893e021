import MyIp.Tcp.Flags

/-! # The peer's FIN

The peer's stream ends in a FIN, whose number is the one behind the last byte. The handler
remembers a FIN by the number its segment starts with, compares that with `their_seq_nr` before it
looks at the payload of the segment, and compares again only when the next segment arrives. So the
FIN is never acknowledged too early, but the acknowledgement is not sent when a FIN comes with
payload, before missing data, or to a session that is not established (`peer_fin_iff`). -/

namespace MyIp.Tcp
open Bytes EventMachine
set_option autoImplicit false

variable {κ : Type}

/-! ## What the application took -/

def Act.taken : Act κ → List Byte
  | .newData _ d true => d
  | _ => []

/-- The buffers that `new_data` got and did not refuse, one after the other. -/
def taken (acts : List (Act κ)) : List Byte := acts.flatMap Act.taken

def takenOf (tr : List (SessionMove κ)) : List Byte := taken (actsOf tr)

theorem taken_append (l l' : List (Act κ)) : taken (l ++ l') = taken l ++ taken l' :=
  List.flatMap_append

theorem taken_eq_nil {l : List (Act κ)} (h : ∀ a ∈ l, a.taken = []) : taken l = [] := by
  rw [taken, List.flatMap_eq_nil_iff]
  exact h

theorem takenOf_snoc (tr : List (SessionMove κ)) (m : SessionMove κ) :
    takenOf (tr ++ [m]) = takenOf tr ++ taken m.output := by
  rw [takenOf, actsOf_snoc, taken_append]
  rfl

theorem taken_of_data {a : Act κ} (h : a.data = []) : a.taken = [] := by
  cases a with
  | newData cb d rc => cases rc <;> simp_all [Act.data, Act.taken]
  | _ => rfl

/-! ## What is acknowledged -/

/-- The ack number of an acknowledgement. A reset tells the peer that there is no session. -/
def Act.acknowledges : Act κ → Option (BitVec 32)
  | .segment _ _ b =>
    if Segment.hasAck b && !Segment.hasRst b then some (Segment.ackNr b) else none
  | _ => none

/-- All acknowledgements among the acts have such an ack number. -/
def AcksOnly (P : BitVec 32 → Prop) (acts : List (Act κ)) : Prop :=
  ∀ a ∈ acts, ∀ n, a.acknowledges = some n → P n

theorem IsAckOf.acknowledges {ackTo : BitVec 32} {a : Act κ} (h : IsAckOf ackTo a) :
    a.acknowledges = some ackTo := by
  obtain ⟨dst, src, b, rfl, hack, hrst, rfl⟩ := h
  simp [Act.acknowledges, hack, hrst]

theorem taken_of_acknowledges {a : Act κ} {n : BitVec 32} (h : a.acknowledges = some n) :
    a.taken = [] := by
  cases a with
  | segment => rfl
  | _ => cases h

/-- A refusal takes nothing and acknowledges nothing. -/
theorem refused_silent {c : Call κ} {a : Act κ} (h : IsRefusal c a) :
    a.acknowledges = none ∧ a.taken = [] := by
  rcases h with rfl | ⟨-, cb, rfl⟩
  · exact ⟨rfl, rfl⟩
  · exact ⟨rfl, rfl⟩

section Acks
variable {P : BitVec 32 → Prop}

theorem AcksOnly.append {l l' : List (Act κ)} (h : AcksOnly P l) (h' : AcksOnly P l') :
    AcksOnly P (l ++ l') := by
  intro a ha
  rcases List.mem_append.mp ha with ha | ha
  · exact h a ha
  · exact h' a ha

theorem AcksOnly.silent {l : List (Act κ)} (h : ∀ a ∈ l, a.acknowledges = none) :
    AcksOnly P l := by
  intro a ha n hn
  rw [h a ha] at hn
  cases hn

theorem AcksOnly.segment {dst src : AnyAddr} {b : List Byte} (h : P (Segment.ackNr b)) :
    AcksOnly P [(.segment dst src b : Act κ)] := by
  intro a ha n hn
  obtain rfl := List.mem_singleton.mp ha
  simp only [Act.acknowledges] at hn
  split at hn
  · obtain rfl := Option.some.inj hn
    exact h
  · cases hn

theorem AcksOnly.stateChange {old new : TcpState} :
    AcksOnly P [(.stateChange old new : Act κ)] :=
  .silent (by simp [Act.acknowledges])

theorem AcksOnly.send {w : Work κ} {c : Call κ} {tsEcr : BitVec 32} {flags : Byte}
    {ackTo : BitVec 32} (h : AcksOnly P w.acts) (hp : c.idev.isSome → P ackTo) :
    AcksOnly P (w.send c tsEcr flags ackTo).acts := by
  rw [Work.send, sendFromTo_acts]
  refine h.append ?_
  split
  · next hd => exact .segment (by simpa using hp hd)
  · exact .silent (by simp)

end Acks

/-! ## One segment -/

section Segment
variable {P : BitVec 32 → Prop} {c : Call κ} {tsEcr : BitVec 32} {ts : TcpSession}

theorem ackEstablished_acks {w : Work κ} (h : AcksOnly P w.acts) (hp : P w.session.theirSeqNr) :
    AcksOnly P (ackEstablished c tsEcr w).acts := by
  rcases ackEstablished_cases c tsEcr w with ⟨-, he⟩ | ⟨-, -, he⟩
  · rw [he]
    exact h
  · rw [he]
    simp only [forceSend_acts]
    rcases sendDrainedFin_cases c tsEcr
      (takeAcked (ackedBytes (Segment.ackNr c.pkt.data) w.session) w) with ⟨-, hd⟩ | ⟨-, -, hd⟩
    · rw [hd]
      exact h
    · rw [hd]
      have hsend : AcksOnly P ((takeAcked (ackedBytes (Segment.ackNr c.pkt.data) w.session)
          w).send c tsEcr (flagAck ||| flagFin) w.session.theirSeqNr).acts :=
        AcksOnly.send h (fun _ => hp)
      exact hsend.append .stateChange

theorem receiveAck_acks {w : Work κ} (h : AcksOnly P w.acts) (hp : P w.session.theirSeqNr)
    (hs : w.session.state ≠ .synSent) : AcksOnly P (receiveAck c tsEcr w).acts := by
  rcases receiveAck_cases c tsEcr w with ⟨-, he⟩ | ⟨-, -, he⟩
  · rw [he]
    exact h
  · rw [he]
    rcases ackByState_cases c tsEcr w with
      ⟨hsent, -⟩ | ⟨-, hb⟩ | ⟨-, hb⟩ | ⟨-, hb⟩ | ⟨-, -, -, -, hb⟩
    · exact absurd hsent hs
    · rcases ackSynRcvd_acts c w with ⟨ha, -⟩ | ⟨handler, cb, -, -, ha, -⟩
      · rw [hb, ha]
        exact h.append .stateChange
      · rw [hb, ha]
        exact h.append (.silent (by simp [Act.acknowledges]))
    · rw [hb]
      exact h.append .stateChange
    · rw [hb]
      exact ackEstablished_acks h hp
    · rw [hb]
      exact h

theorem receiveSyn_acks (hp : P ts.theirSeqNr) :
    AcksOnly P (receiveSyn c tsEcr (receiveRst c (beginSegment c ts))).acts := by
  have hrst : AcksOnly P (receiveRst c (beginSegment c ts)).acts := by
    rcases receiveRst_cases c (beginSegment c ts) with ⟨-, he⟩ | ⟨-, -, he⟩
    · rw [he]
      exact .silent (by simp [beginSegment])
    · rw [he]
      exact .silent (by simp [beginSegment, Act.acknowledges])
  have hseq : (receiveRst c (beginSegment c ts)).session.theirSeqNr = ts.theirSeqNr :=
    receiveRst_theirSeqNr c (beginSegment c ts)
  rcases receiveSyn_cases c tsEcr (receiveRst c (beginSegment c ts)) with
    ⟨-, he⟩ | ⟨-, -, -, he⟩
  · rw [he]
    exact hrst
  · rw [he]
    exact (AcksOnly.send hrst (fun _ => by rw [hseq]; exact hp)).append .stateChange

theorem receiveFin_acks {w : Work κ} (h : AcksOnly P w.acts) :
    AcksOnly P (receiveFin c w).acts := by
  rcases receiveFin_cases c w with ⟨-, he⟩ | ⟨-, -, he⟩
  · rw [he]
    exact h
  · rw [he]
    exact h.append .stateChange

/-- The flag stages acknowledge what was received, and the peer's FIN when they answer it. -/
theorem processFlags_acks (hs : ts.state ≠ .synSent) (hp : P ts.theirSeqNr)
    (hfin : c.idev.isSome → answersFin c.pkt.data ts = true → P (ts.theirSeqNr + 1)) :
    AcksOnly P (processFlags c tsEcr (beginSegment c ts)).acts := by
  unfold processFlags
  split
  · exact .silent (by simp [beginSegment])
  · next hf =>
    have fits : Segment.headerSize c.pkt.data ≤ c.pkt.data.length := by
      simpa [beginSegment] using hf
    have hseq : (receiveSyn c tsEcr (receiveRst c (beginSegment c ts))).session.theirSeqNr =
        ts.theirSeqNr :=
      (receiveSyn_theirSeqNr c tsEcr _).trans (receiveRst_theirSeqNr c (beginSegment c ts))
    have hsent : (receiveSyn c tsEcr (receiveRst c (beginSegment c ts))).session.state ≠ .synSent :=
      fun h => hs (synSent_before_ack h).1
    have hlast : AcksOnly P (receiveFin c (receiveAck c tsEcr
        (receiveSyn c tsEcr (receiveRst c (beginSegment c ts))))).acts :=
      receiveFin_acks (receiveAck_acks (receiveSyn_acks hp) (by rw [hseq]; exact hp) hsent)
    rcases ackFin_cases c tsEcr (receiveFin c (receiveAck c tsEcr
      (receiveSyn c tsEcr (receiveRst c (beginSegment c ts))))) with ⟨-, he⟩ | ⟨h1, h2, he⟩
    · rw [he]
      exact hlast
    · have hans := (processFlags_answers tsEcr fits rfl).mp ⟨h1, h2⟩
      rw [he]
      refine (AcksOnly.send hlast fun hd => ?_).append .stateChange
      rw [receiveFin_theirSeqNr, receiveAck_theirSeqNr tsEcr hsent, hseq]
      exact hfin hd hans

theorem unexpectedAckTo_cases {seq expected : BitVec 32} (h : seq ≠ expected) :
    unexpectedAckTo seq expected = expected ∨ unexpectedAckTo seq expected = seq := by
  unfold unexpectedAckTo
  split
  · exact .inl rfl
  · next h1 =>
    split
    · exact .inr rfl
    · next h2 => exact absurd (BitVec.le_antisymm (BitVec.not_lt.mp h1) (BitVec.not_lt.mp h2)) h

/-- The payload is taken and the expected number moves on by its length, or neither. -/
theorem processPayload_taken (tsEcr : BitVec 32) {w : Work κ} (ht : w.thrown = false)
    (h : AcksOnly P w.acts) (hp : P w.session.theirSeqNr)
    (hother : Segment.headerSize c.pkt.data < c.pkt.data.length → P (Segment.seqNr c.pkt.data))
    (hnext : Segment.headerSize c.pkt.data < c.pkt.data.length →
      Segment.seqNr c.pkt.data = w.session.theirSeqNr →
      P (w.session.theirSeqNr + BitVec.ofNat 32 (Segment.payload c.pkt.data).length)) :
    AcksOnly P (processPayload c tsEcr w).acts ∧
    ((taken (processPayload c tsEcr w).acts = taken w.acts ∧
      (processPayload c tsEcr w).session.theirSeqNr = w.session.theirSeqNr) ∨
    (Segment.seqNr c.pkt.data = w.session.theirSeqNr ∧
      taken (processPayload c tsEcr w).acts = taken w.acts ++ Segment.payload c.pkt.data ∧
      (processPayload c tsEcr w).session.theirSeqNr =
        w.session.theirSeqNr + BitVec.ofNat 32 (Segment.payload c.pkt.data).length)) := by
  by_cases seen : Segment.headerSize c.pkt.data < c.pkt.data.length ∧ w.fail = false
  · cases processPayload_step c tsEcr ht seen with
    | refused new acts calls seq expected =>
      rw [acts, taken_append, taken_eq_nil fun a ha => (refused_silent (calls a ha)).2,
        List.append_nil]
      exact ⟨h.append (.silent fun a ha => (refused_silent (calls a ha)).1), .inl ⟨rfl, seq⟩⟩
    | accepted cb new acts replies seq expected =>
      have hpayload : taken [(.newData cb (Segment.payload c.pkt.data) true : Act κ)] =
          Segment.payload c.pkt.data := by
        simp [taken, Act.taken]
      have hreplies : AcksOnly P new := by
        intro a ha n hn
        obtain rfl := Option.some.inj ((replies a ha).acknowledges.symm.trans hn)
        rw [seq]
        exact hnext seen.1 expected
      rw [acts, taken_append, taken_append, hpayload,
        taken_eq_nil fun a ha => taken_of_data (replies a ha).data, List.append_nil]
      exact ⟨h.append (AcksOnly.append (.silent (by simp [Act.acknowledges])) hreplies),
        .inr ⟨expected, rfl, seq⟩⟩
    | unexpected new acts replies sent seq other =>
      have hreplies : AcksOnly P new := by
        intro a ha n hn
        obtain rfl := Option.some.inj ((replies a ha).acknowledges.symm.trans hn)
        rcases unexpectedAckTo_cases other with he | he
        · rw [he]
          exact hp
        · rw [he]
          exact hother seen.1
      rw [acts, taken_append, taken_eq_nil fun a ha => taken_of_data (replies a ha).data,
        List.append_nil]
      exact ⟨h.append hreplies, .inl ⟨rfl, seq⟩⟩
  · rw [processPayload, if_neg seen]
    exact ⟨h, .inl ⟨rfl, rfl⟩⟩

/-- The end of the block takes nothing and acknowledges nothing: it sends a reset at most. -/
theorem endSegment_silent (c : Call κ) (tsEcr : BitVec 32) (w : Work κ) :
    ∃ new, (endSegment c tsEcr w).acts = w.acts ++ new ∧
      ∀ a ∈ new, a.acknowledges = none ∧ a.taken = [] := by
  obtain ⟨new, hnew, hend⟩ := endSegment_acts c tsEcr w
  refine ⟨new, hnew, ?_⟩
  intro a ha
  refine ⟨?_, taken_of_data (hend a ha).data⟩
  cases hend a ha with
  | sessionClosed1 => rfl
  | badFunctionCall => rfl
  | reply _ _ h =>
    obtain ⟨us, ackTo, seq, tsEcr, rfl⟩ := h
    simp [Act.acknowledges, Segment.hasRst,
      show (flagRst ||| flagAck) &&& flagRst ≠ 0#8 by decide]

/-- What a segment does to the received stream and which acknowledgements it causes. -/
theorem processSegment_taken (hs : ts.state ≠ .synSent) (hp : P ts.theirSeqNr)
    (hfin : c.idev.isSome → answersFin c.pkt.data ts = true → P (ts.theirSeqNr + 1))
    (hother : Segment.headerSize c.pkt.data < c.pkt.data.length → P (Segment.seqNr c.pkt.data))
    (hnext : Segment.headerSize c.pkt.data < c.pkt.data.length →
      Segment.seqNr c.pkt.data = ts.theirSeqNr →
      P (ts.theirSeqNr + BitVec.ofNat 32 (Segment.payload c.pkt.data).length)) :
    AcksOnly P (processSegment c tsEcr ts).acts ∧
    ((taken (processSegment c tsEcr ts).acts = [] ∧
      (processSegment c tsEcr ts).session.theirSeqNr = ts.theirSeqNr) ∨
    (Segment.seqNr c.pkt.data = ts.theirSeqNr ∧
      taken (processSegment c tsEcr ts).acts = Segment.payload c.pkt.data ∧
      (processSegment c tsEcr ts).session.theirSeqNr =
        ts.theirSeqNr + BitVec.ofNat 32 (Segment.payload c.pkt.data).length)) := by
  obtain ⟨new, hnew, hflags⟩ := processFlags_does c ts tsEcr
  have hnone : taken (processFlags c tsEcr (beginSegment c ts)).acts = [] := by
    rw [hnew, taken_append, taken_eq_nil fun a h => taken_of_data (hflags a h).data]
    rfl
  have hseq := processFlags_theirSeqNr (c := c) tsEcr hs
  obtain ⟨new', hnew', hend⟩ :=
    endSegment_silent c tsEcr (processPayload c tsEcr (processFlags c tsEcr (beginSegment c ts)))
  obtain ⟨us, term, he⟩ :=
    endSegment_session c tsEcr (processPayload c tsEcr (processFlags c tsEcr (beginSegment c ts)))
  have hacts : taken (processSegment c tsEcr ts).acts =
      taken (processPayload c tsEcr (processFlags c tsEcr (beginSegment c ts))).acts := by
    rw [processSegment, hnew', taken_append, taken_eq_nil fun a h => (hend a h).2, List.append_nil]
  have hnr : (processSegment c tsEcr ts).session.theirSeqNr =
      (processPayload c tsEcr (processFlags c tsEcr (beginSegment c ts))).session.theirSeqNr := by
    rw [processSegment, he]
  obtain ⟨hacks, heffect⟩ := processPayload_taken tsEcr (processFlags_thrown c tsEcr ts)
    (processFlags_acks hs hp hfin) (by rw [hseq]; exact hp) hother
    (fun hlen hx => by rw [hseq] at hx ⊢; exact hnext hlen hx)
  refine ⟨?_, ?_⟩
  · rw [processSegment, hnew']
    exact hacks.append (.silent fun a ha => (hend a ha).1)
  · rw [hacts, hnr]
    rw [hnone, hseq] at heffect
    simpa using heffect

/-- A FIN is remembered by the number of its segment. -/
theorem processSegment_pending
    (h : (processSegment c tsEcr ts).session.flagFinWhenAllReceived = true) :
    (ts.flagFinWhenAllReceived = true ∧
      (processSegment c tsEcr ts).session.seqForFinWhenAllReceived =
        ts.seqForFinWhenAllReceived) ∨
    (Segment.hasFin c.pkt.data = true ∧
      (processSegment c tsEcr ts).session.seqForFinWhenAllReceived =
        Segment.seqNr c.pkt.data) := by
  obtain ⟨us, term, he⟩ := endSegment_session c tsEcr
    (processPayload c tsEcr (processFlags c tsEcr (beginSegment c ts)))
  obtain ⟨seq, us', hp⟩ := processPayload_session c tsEcr (processFlags c tsEcr (beginSegment c ts))
  rw [processSegment, he, hp] at h ⊢
  simp only [processFlags] at h ⊢
  split at h
  · next hf =>
    rw [if_pos hf]
    exact .inl ⟨h, rfl⟩
  · next hf =>
    rw [if_neg hf]
    have hstage := receiveAck_stage c tsEcr ts
    have hlast : ∀ w : Work κ, (ackFin c tsEcr w).session.flagFinWhenAllReceived =
        w.session.flagFinWhenAllReceived ∧
        (ackFin c tsEcr w).session.seqForFinWhenAllReceived =
          w.session.seqForFinWhenAllReceived := by
      intro w
      rcases ackFin_cases c tsEcr w with ⟨-, he⟩ | ⟨-, -, he⟩
      · rw [he]
        exact ⟨rfl, rfl⟩
      · rw [he]
        simp only [Work.setState, setState, send_session, and_self]
    simp only [hlast] at h ⊢
    rcases receiveFin_cases c (receiveAck c tsEcr
      (receiveSyn c tsEcr (receiveRst c (beginSegment c ts)))) with ⟨-, hr⟩ | ⟨hfin, -, hr⟩
    · rw [hr] at h ⊢
      exact .inl ⟨hstage.pending ▸ h, hstage.pendingSeq⟩
    · rw [hr]
      exact .inr ⟨hfin, rfl⟩

end Segment

/-! ## The peer's stream -/

/-- Where the bytes of a segment stand in a stream whose first byte has the number `base`. -/
def offset (base : BitVec 32) (b : List Byte) : ℕ := (Segment.seqNr b - base).toNat

/-- A segment of a peer that sends `peerStream` and then a FIN: its SYN has the number before
`base`, any other segment carries the part of the stream that its number stands for, and a FIN
comes with the end of it. -/
def PeerSegment (base : BitVec 32) (peerStream : List Byte) (m : SessionMove κ) : Prop :=
  match m.event with
  | .segment c =>
    if Segment.hasSyn c.pkt.data then
      Segment.seqNr c.pkt.data + 1 = base ∧ Segment.hasFin c.pkt.data = false
    else
      Segment.payload c.pkt.data = (peerStream.drop (offset base c.pkt.data)).take
        (Segment.payload c.pkt.data).length ∧
      (Segment.hasFin c.pkt.data = true →
        offset base c.pkt.data + (Segment.payload c.pkt.data).length = peerStream.length)
  | _ => True

/-- The move is the arrival of byte `i` of the stream. -/
def bringsByte (base : BitVec 32) (i : ℕ) (m : SessionMove κ) : Bool :=
  match m.event with
  | .segment c => !Segment.hasSyn c.pkt.data && decide (offset base c.pkt.data ≤ i) &&
      decide (i < offset base c.pkt.data + (Segment.payload c.pkt.data).length)
  | _ => false

def bringsFin (m : SessionMove κ) : Bool :=
  match m.event with
  | .segment c => Segment.hasFin c.pkt.data
  | _ => false

def AllArrived (base : BitVec 32) (peerStream : List Byte) (tr : List (SessionMove κ)) : Prop :=
  (∀ i < peerStream.length, ∃ m ∈ tr, bringsByte base i m = true) ∧ ∃ m ∈ tr, bringsFin m = true

/-- The FIN is acknowledged: the ack number is the one behind it. -/
def FinAcked (base : BitVec 32) (peerStream : List Byte) (acts : List (Act κ)) : Prop :=
  ∃ a ∈ acts, a.acknowledges = some (base + BitVec.ofNat 32 (peerStream.length + 1))

/-- The FIN is acknowledged only after `new_data` took the whole stream, and is acknowledged as soon
as all bytes and the FIN have arrived. -/
def PeerFinHandled (base : BitVec 32) (peerStream : List Byte) (tr : List (SessionMove κ)) : Prop :=
  (∀ pre m post, tr = pre ++ m :: post → FinAcked base peerStream m.output →
    takenOf pre = peerStream) ∧
  ∀ pre post, tr = pre ++ post → AllArrived base peerStream pre →
    FinAcked base peerStream (actsOf pre)

/-- A FIN without payload for a session that is established, or becomes so by its ACK, and has
received everything before the FIN. -/
def AnswersNow (m : SessionMove κ) : Prop :=
  match m.event with
  | .segment c => c.idev.isSome ∧ Segment.hasFin c.pkt.data = true ∧
      Segment.headerSize c.pkt.data = c.pkt.data.length ∧
      establishedAfterAck c.pkt.data m.before = true ∧
      m.before.theirSeqNr = Segment.seqNr c.pkt.data
  | _ => False

/-- The segment with which the last of the bytes and the FIN arrives is such a FIN. -/
def FinInTime (base : BitVec 32) (peerStream : List Byte) (pre : List (SessionMove κ))
    (m : SessionMove κ) : Prop :=
  AllArrived base peerStream (pre ++ [m]) → AllArrived base peerStream pre ∨ AnswersNow m

instance (base : BitVec 32) (peerStream : List Byte) (m : SessionMove κ) :
    Decidable (PeerSegment base peerStream m) :=
  match m with
  | ⟨_, .segment c, _⟩ => inferInstanceAs (Decidable (
    if Segment.hasSyn c.pkt.data then
      Segment.seqNr c.pkt.data + 1 = base ∧ Segment.hasFin c.pkt.data = false
    else
      Segment.payload c.pkt.data = (peerStream.drop (offset base c.pkt.data)).take
        (Segment.payload c.pkt.data).length ∧
      (Segment.hasFin c.pkt.data = true →
        offset base c.pkt.data + (Segment.payload c.pkt.data).length = peerStream.length)))
  | ⟨_, .sendData _, _⟩ => isTrue trivial
  | ⟨_, .endSession _ _, _⟩ => isTrue trivial
  | ⟨_, .unackedVisit _ _ _ _, _⟩ => isTrue trivial
  | ⟨_, .waitTurn _ _ _, _⟩ => isTrue trivial
  | ⟨_, .setIsTerminating, _⟩ => isTrue trivial
  | ⟨_, .setSessionTimeout _, _⟩ => isTrue trivial

instance (base : BitVec 32) (peerStream : List Byte) (tr : List (SessionMove κ)) :
    Decidable (AllArrived base peerStream tr) :=
  inferInstanceAs (Decidable ((∀ i < peerStream.length, ∃ m ∈ tr, bringsByte base i m = true) ∧
    ∃ m ∈ tr, bringsFin m = true))

instance (base : BitVec 32) (peerStream : List Byte) (acts : List (Act κ)) :
    Decidable (FinAcked base peerStream acts) :=
  inferInstanceAs (Decidable (∃ a ∈ acts,
    a.acknowledges = some (base + BitVec.ofNat 32 (peerStream.length + 1))))

instance (m : SessionMove κ) : Decidable (AnswersNow m) :=
  match m with
  | ⟨ts, .segment c, _⟩ => inferInstanceAs (Decidable (c.idev.isSome ∧
      Segment.hasFin c.pkt.data = true ∧ Segment.headerSize c.pkt.data = c.pkt.data.length ∧
      establishedAfterAck c.pkt.data ts = true ∧ ts.theirSeqNr = Segment.seqNr c.pkt.data))
  | ⟨_, .sendData _, _⟩ => isFalse id
  | ⟨_, .endSession _ _, _⟩ => isFalse id
  | ⟨_, .unackedVisit _ _ _ _, _⟩ => isFalse id
  | ⟨_, .waitTurn _ _ _, _⟩ => isFalse id
  | ⟨_, .setIsTerminating, _⟩ => isFalse id
  | ⟨_, .setSessionTimeout _, _⟩ => isFalse id

instance (base : BitVec 32) (peerStream : List Byte) (pre : List (SessionMove κ))
    (m : SessionMove κ) : Decidable (FinInTime base peerStream pre m) :=
  inferInstanceAs (Decidable (AllArrived base peerStream (pre ++ [m]) →
    AllArrived base peerStream pre ∨ AnswersNow m))

theorem AllArrived.mono {base : BitVec 32} {peerStream : List Byte} {tr : List (SessionMove κ)}
    (h : AllArrived base peerStream tr) (m : SessionMove κ) :
    AllArrived base peerStream (tr ++ [m]) := by
  obtain ⟨hbytes, m', hm', hfin⟩ := h
  refine ⟨fun i hi => ?_, m', List.mem_append_left _ hm', hfin⟩
  obtain ⟨m'', hm'', hb⟩ := hbytes i hi
  exact ⟨m'', List.mem_append_left _ hm'', hb⟩

theorem finAcked_append {base : BitVec 32} {peerStream : List Byte} {l l' : List (Act κ)} :
    FinAcked base peerStream (l ++ l') ↔
      FinAcked base peerStream l ∨ FinAcked base peerStream l' := by
  simp only [FinAcked, List.mem_append, or_and_right, exists_or]

/-! ## Numbers of the stream -/

section Numbers
variable {base : BitVec 32} {peerStream : List Byte}

theorem number_inj {i j : ℕ} (hi : i < 2 ^ 32) (hj : j < 2 ^ 32)
    (h : base + BitVec.ofNat 32 i = base + BitVec.ofNat 32 j) : i = j := by
  have := congrArg BitVec.toNat (add_left_cancel h)
  simp only [BitVec.toNat_ofNat] at this
  omega

theorem seqNr_eq_offset (base : BitVec 32) (b : List Byte) :
    Segment.seqNr b = base + BitVec.ofNat 32 (offset base b) := by
  rw [offset, BitVec.ofNat_toNat, BitVec.setWidth_eq]
  ring

theorem offset_lt (base : BitVec 32) (b : List Byte) : offset base b < 2 ^ 32 :=
  (Segment.seqNr b - base).isLt

theorem offset_of_number {b : List Byte} {k : ℕ} (hk : k < 2 ^ 32)
    (h : Segment.seqNr b = base + BitVec.ofNat 32 k) : offset base b = k :=
  number_inj (offset_lt base b) hk (by rw [← seqNr_eq_offset, h])

/-- The SYN of the peer stands outside its stream. -/
theorem offset_of_syn {b : List Byte} (h : Segment.seqNr b + 1 = base) :
    offset base b = 2 ^ 32 - 1 := by
  rw [offset, ← h, show ∀ x : BitVec 32, x - (x + 1) = -1 by intro x; ring]
  rfl

theorem slice_length {b : List Byte} {off : ℕ}
    (h : Segment.payload b = (peerStream.drop off).take (Segment.payload b).length) :
    (Segment.payload b).length ≤ peerStream.length - off := by
  have := congrArg List.length h
  rw [List.length_take, List.length_drop] at this
  omega

end Numbers

/-! ## Whole runs -/

structure PeerInv (base : BitVec 32) (peerStream : List Byte) (tr : List (SessionMove κ))
    (ts : TcpSession) : Prop where
  life : ts.state.group ≠ none
  connected : ts.state ≠ .synSent
  inOrder : takenOf tr <+: peerStream
  expected : ts.theirSeqNr = base + BitVec.ofNat 32 (takenOf tr).length
  pending : ts.flagFinWhenAllReceived = true →
    ∃ m ∈ tr, bringsFin m = true
  arrived : ∀ i < (takenOf tr).length, ∃ m ∈ tr, bringsByte base i m = true
  acked : FinAcked base peerStream (actsOf tr) → AllArrived base peerStream tr

/-- What a step does, seen from the peer: it acknowledges the FIN only if everything before it was
taken, and then it is the FIN itself or everything had arrived before. -/
structure PeerStep (base : BitVec 32) (peerStream : List Byte) (tr : List (SessionMove κ))
    (m : SessionMove κ) : Prop where
  safe : FinAcked base peerStream m.output → takenOf tr = peerStream
  cause : FinAcked base peerStream m.output → AnswersNow m ∨ AllArrived base peerStream tr
  answer : AnswersNow m → FinAcked base peerStream m.output

section Steps
variable {base : BitVec 32} {peerStream : List Byte} {tr : List (SessionMove κ)} {ts : TcpSession}

theorem PeerInv.complete (h : PeerInv base peerStream tr ts) (hall : takenOf tr = peerStream)
    {m : SessionMove κ} (hm : m ∈ tr) (hfin : bringsFin m = true) :
    AllArrived base peerStream tr :=
  ⟨by rw [← hall]; exact h.arrived, m, hm, hfin⟩

theorem PeerInv.length_le (h : PeerInv base peerStream tr ts) :
    (takenOf tr).length ≤ peerStream.length :=
  h.inOrder.length_le

theorem expectedSeqNr_connected {b : List Byte} (hs : ts.state ≠ .synSent) :
    expectedSeqNr b ts = ts.theirSeqNr := by
  simp [expectedSeqNr, connects, hs]

theorem payload_length (b : List Byte) :
    (Segment.payload b).length = b.length - Segment.headerSize b := by
  rw [Segment.payload, List.length_drop]

/-- Where a segment of the peer stands: a SYN outside the stream, any other inside. -/
theorem PeerSegment.place {c : Call κ} {acts : List (Act κ)}
    (ok : PeerSegment base peerStream (⟨ts, .segment c, acts⟩ : SessionMove κ)) :
    (Segment.hasSyn c.pkt.data = true ∧ offset base c.pkt.data = 2 ^ 32 - 1 ∧
      Segment.hasFin c.pkt.data = false) ∨
    (Segment.hasSyn c.pkt.data = false ∧
      Segment.payload c.pkt.data = (peerStream.drop (offset base c.pkt.data)).take
        (Segment.payload c.pkt.data).length ∧
      (Segment.payload c.pkt.data).length ≤ peerStream.length - offset base c.pkt.data ∧
      (Segment.hasFin c.pkt.data = true →
        offset base c.pkt.data + (Segment.payload c.pkt.data).length = peerStream.length)) := by
  simp only [PeerSegment] at ok
  split at ok
  · next hsyn => exact .inl ⟨hsyn, offset_of_syn ok.1, ok.2⟩
  · next hsyn => exact .inr ⟨by simpa using hsyn, ok.1, slice_length ok.1, ok.2⟩

/-- Only the answer to the FIN has the ack number behind it. -/
theorem PeerInv.acks {c : Call κ} (tsEcr : BitVec 32) {acts : List (Act κ)}
    (h : PeerInv base peerStream tr ts) (short : peerStream.length + 2 < 2 ^ 32)
    (ok : PeerSegment base peerStream (⟨ts, .segment c, acts⟩ : SessionMove κ)) :
    AcksOnly (fun n => n = base + BitVec.ofNat 32 (peerStream.length + 1) →
        takenOf tr = peerStream ∧ c.idev.isSome ∧ answersFin c.pkt.data ts = true)
      (processSegment c tsEcr ts).acts ∧
    ((taken (processSegment c tsEcr ts).acts = [] ∧
      (processSegment c tsEcr ts).session.theirSeqNr = ts.theirSeqNr) ∨
    (Segment.seqNr c.pkt.data = ts.theirSeqNr ∧
      taken (processSegment c tsEcr ts).acts = Segment.payload c.pkt.data ∧
      (processSegment c tsEcr ts).session.theirSeqNr =
        ts.theirSeqNr + BitVec.ofNat 32 (Segment.payload c.pkt.data).length)) := by
  have hle := h.length_le
  have hexp := h.expected
  have hlen := payload_length c.pkt.data
  apply processSegment_taken h.connected
  · intro hn
    have := number_inj (by omega) (by omega) (hexp.symm.trans hn)
    omega
  · intro hd hans hn
    rw [hexp, BitVec.add_assoc] at hn
    have := number_inj (i := (takenOf tr).length + 1) (j := peerStream.length + 1) (by omega)
      (by omega) (show base + _ = base + _ by rw [BitVec.ofNat_add]; exact hn)
    exact ⟨h.inOrder.eq_of_length (by omega), hd, hans⟩
  · intro hcarries hn
    have := number_inj (offset_lt base c.pkt.data) (by omega)
      ((seqNr_eq_offset base c.pkt.data).symm.trans hn)
    rcases ok.place with ⟨-, hoff, -⟩ | ⟨-, -, hslice, -⟩ <;> omega
  · intro hcarries hseq hn
    have hoff := offset_of_number (by omega) (hseq.trans hexp)
    rw [hexp, BitVec.add_assoc, ← BitVec.ofNat_add] at hn
    rcases ok.place with ⟨-, hoff', -⟩ | ⟨-, -, hslice, -⟩
    · omega
    · have := number_inj (by omega) (by omega) hn
      omega

theorem PeerInv.peerStep {c : Call κ} {tsEcr : BitVec 32} (h : PeerInv base peerStream tr ts)
    (short : peerStream.length + 2 < 2 ^ 32)
    (ok : PeerSegment base peerStream
      (⟨ts, .segment c, (processSegment c tsEcr ts).acts⟩ : SessionMove κ)) :
    PeerStep base peerStream tr ⟨ts, .segment c, (processSegment c tsEcr ts).acts⟩ := by
  have hle := h.length_le
  have hacked : FinAcked base peerStream (processSegment c tsEcr ts).acts →
      takenOf tr = peerStream ∧ c.idev.isSome ∧ answersFin c.pkt.data ts = true := by
    rintro ⟨a, ha, hn⟩
    exact (h.acks _ short ok).1 a ha _ hn rfl
  refine ⟨fun hack => (hacked hack).1, fun hack => ?_, ?_⟩
  · obtain ⟨hall, hd, hans⟩ := hacked hack
    have fits := answersFin_fits hans
    simp only [answersFin, Bool.and_eq_true] at hans
    obtain ⟨-, hans⟩ := hans
    split at hans
    · next hfin =>
      rw [expectedSeqNr_connected h.connected, beq_iff_eq] at hans
      have hoff := offset_of_number (by omega) (hans.trans h.expected)
      have hlen := payload_length c.pkt.data
      rcases ok.place with ⟨-, -, hno⟩ | ⟨-, -, -, hend⟩
      · rw [hfin.1] at hno
        cases hno
      · have hend := hend hfin.1
        have : (takenOf tr).length = peerStream.length := congrArg List.length hall
        exact .inl ⟨hd, hfin.1, by omega, hfin.2, hans.symm⟩
    · simp only [Bool.and_eq_true] at hans
      obtain ⟨m, hm, hfin⟩ := h.pending hans.1
      exact .inr (h.complete hall hm hfin)
  · rintro ⟨hd, hfin, hsize, hest, hseq⟩
    dsimp only at hest hseq
    have hans : answersFin c.pkt.data ts = true := by
      simp [answersFin, hsize, hfin, hest, expectedSeqNr_connected h.connected, hseq]
    obtain ⟨dst, src, b, hmem, hflags, hto⟩ := processSegment_answer tsEcr hd hans
    refine ⟨_, hmem, ?_⟩
    have hnr : Segment.ackNr b = base + BitVec.ofNat 32 (peerStream.length + 1) := by
      rcases ok.place with ⟨-, -, hno⟩ | ⟨-, -, -, hend⟩
      · rw [hfin] at hno
        cases hno
      · have hend := hend hfin
        rw [payload_length, hsize, Nat.sub_self, Nat.add_zero] at hend
        rw [hto, expectedSeqNr_connected h.connected, hseq, seqNr_eq_offset base, hend,
          BitVec.add_assoc, BitVec.ofNat_add]
        rfl
    have hset : (Segment.hasAck b && !Segment.hasRst b) = true := by
      simp only [Segment.hasAck, Segment.hasRst, hflags]
      decide
    rw [Act.acknowledges, if_pos hset, hnr]

theorem PeerInv.segment {c : Call κ} {tsEcr : BitVec 32} (h : PeerInv base peerStream tr ts)
    (short : peerStream.length + 2 < 2 ^ 32)
    (ok : PeerSegment base peerStream
      (⟨ts, .segment c, (processSegment c tsEcr ts).acts⟩ : SessionMove κ)) :
    takenOf tr ++ taken (processSegment c tsEcr ts).acts <+: peerStream ∧
    (processSegment c tsEcr ts).session.theirSeqNr =
      base + BitVec.ofNat 32 (takenOf tr ++ taken (processSegment c tsEcr ts).acts).length ∧
    ∀ i, (takenOf tr).length ≤ i →
      i < (takenOf tr ++ taken (processSegment c tsEcr ts).acts).length →
      bringsByte base i
        (⟨ts, .segment c, (processSegment c tsEcr ts).acts⟩ : SessionMove κ) = true := by
  have hle := h.length_le
  rcases (h.acks tsEcr short ok).2 with ⟨h1, h2⟩ | ⟨h1, h2, h3⟩
  · rw [h1, h2, List.append_nil]
    exact ⟨h.inOrder, h.expected, fun i _ _ => by omega⟩
  · have hoff := offset_of_number (by omega) (h1.trans h.expected)
    rcases ok.place with ⟨-, hoff', -⟩ | ⟨hsyn, hslice, -, -⟩
    · omega
    · refine ⟨?_, ?_, ?_⟩
      · rw [hoff] at hslice
        obtain ⟨rest, hrest⟩ := h.inOrder
        have hdrop : peerStream.drop (takenOf tr).length = rest := by
          rw [← hrest, List.drop_left]
        rw [h2, hslice, hdrop, ← hrest]
        exact (List.prefix_append_right_inj _).mpr (List.take_prefix _ _)
      · rw [h3, h2, h.expected, List.length_append, BitVec.ofNat_add, BitVec.add_assoc]
      · intro i hi hlt
        rw [h2, List.length_append] at hlt
        simp [bringsByte, hsyn, hoff, hi, hlt]

/-- Events other than segments acknowledge what was received, if anything. -/
theorem sessionStep_other {ts' : TcpSession} {e : SessionEvent κ} {acts : List (Act κ)}
    (made : sessionStep ts e = some (ts', acts)) (hne : ∀ c, e ≠ .segment c) :
    AcksOnly (fun n => n = ts.theirSeqNr) acts ∧ taken acts = [] ∧
    ts'.theirSeqNr = ts.theirSeqNr ∧ ts'.flagFinWhenAllReceived = ts.flagFinWhenAllReceived ∧
    ((∀ idev now us rc, e ≠ .unackedVisit idev now us rc) → ∀ a ∈ acts, a.acknowledges = none) := by
  cases sessionStep_change made with
  | segment c => exact absurd rfl (hne c)
  | append => exact ⟨.silent (by simp), rfl, rfl, rfl, by simp⟩
  | fin idev us last seq new _ hall =>
    have hnone : ∀ a ∈ new ++ [.stateChange ts.state .finWait1], a.acknowledges = none := by
      intro a ha
      rcases List.mem_append.mp ha with ha | ha
      · obtain ⟨us', ackTo, seq', tsEcr, rfl⟩ := hall a ha
        simp [Act.acknowledges, Segment.hasAck, show flagFin &&& flagAck = 0 by decide]
      · obtain rfl := List.mem_singleton.mp ha
        rfl
    refine ⟨.silent hnone, taken_eq_nil fun a ha => ?_, rfl, rfl, fun _ => hnone⟩
    rcases List.mem_append.mp ha with ha | ha
    · exact taken_of_data (hall a ha).data
    · obtain rfl := List.mem_singleton.mp ha
      rfl
  | visit idev now us rc _ _ visited =>
    refine ⟨?_, taken_eq_nil fun a ha => ?_, ?_, ?_, fun h => absurd rfl (h idev now us rc)⟩
    · intro a ha n hn
      obtain ⟨off, k, -, -, us', rfl⟩ := unackedVisit_acts visited a ha
      simp only [Act.acknowledges] at hn
      split at hn
      · simpa using hn.symm
      · cases hn
    · obtain ⟨off, k, -, -, us', rfl⟩ := unackedVisit_acts visited a ha
      rfl
    · obtain ⟨last, r, t, -, rfl⟩ := unackedVisit_session visited
      rfl
    · obtain ⟨last, r, t, -, rfl⟩ := unackedVisit_session visited
      rfl
  | wait idev us counter last inInit _ _ hall =>
    have hnone : ∀ a ∈ acts, a.acknowledges = none := by
      intro a ha
      obtain ⟨⟨us', ackTo, seq, tsEcr, rfl⟩, -⟩ := hall a ha
      simp [Act.acknowledges, Segment.hasAck, show flagSyn &&& flagAck = 0 by decide]
    refine ⟨.silent hnone, taken_eq_nil fun a ha => ?_, rfl, rfl, fun _ => hnone⟩
    obtain ⟨⟨us', ackTo, seq, tsEcr, rfl⟩, -⟩ := hall a ha
    rfl
  | quiet => exact ⟨.silent (by simp), rfl, rfl, rfl, by simp⟩

theorem PeerInv.other_step {ts' : TcpSession} {e : SessionEvent κ} {acts : List (Act κ)}
    (h : PeerInv base peerStream tr ts) (short : peerStream.length + 2 < 2 ^ 32)
    (made : sessionStep ts e = some (ts', acts)) (hne : ∀ c, e ≠ .segment c) :
    ¬FinAcked base peerStream acts ∧ ¬AnswersNow (⟨ts, e, acts⟩ : SessionMove κ) ∧
    taken acts = [] ∧ ts'.theirSeqNr = ts.theirSeqNr ∧
    ts'.flagFinWhenAllReceived = ts.flagFinWhenAllReceived := by
  obtain ⟨hacks, htaken, hseq, hfin, -⟩ := sessionStep_other made hne
  refine ⟨?_, ?_, htaken, hseq, hfin⟩
  · have hle := h.length_le
    rintro ⟨a, ha, hn⟩
    have := number_inj (by omega) (by omega) ((hacks a ha _ hn).trans h.expected)
    omega
  · cases e with
    | segment c => exact absurd rfl (hne c)
    | _ => exact id

/-- The received part of the invariant gives the rest, given what the step acknowledges. -/
theorem PeerInv.next {m : SessionMove κ} {ts' : TcpSession} (h : PeerInv base peerStream tr ts)
    (hstep : PeerStep base peerStream tr m) (hfin : AnswersNow m → bringsFin m = true)
    (life : ts'.state.group ≠ none) (connected : ts'.state ≠ .synSent)
    (inOrder : takenOf (tr ++ [m]) <+: peerStream)
    (expected : ts'.theirSeqNr = base + BitVec.ofNat 32 (takenOf (tr ++ [m])).length)
    (pending : ts'.flagFinWhenAllReceived = true →
      ts.flagFinWhenAllReceived = true ∨ bringsFin m = true)
    (arrived : ∀ i, (takenOf tr).length ≤ i → i < (takenOf (tr ++ [m])).length →
      bringsByte base i m = true) : PeerInv base peerStream (tr ++ [m]) ts' := by
  have hlast : m ∈ tr ++ [m] := by simp
  refine ⟨life, connected, inOrder, expected, fun hp => ?_, fun i hi => ?_, fun hack => ?_⟩
  · rcases pending hp with hp | hp
    · obtain ⟨m', hm', hb⟩ := h.pending hp
      exact ⟨m', List.mem_append_left _ hm', hb⟩
    · exact ⟨m, hlast, hp⟩
  · by_cases hold : i < (takenOf tr).length
    · obtain ⟨m', hm', hb⟩ := h.arrived i hold
      exact ⟨m', List.mem_append_left _ hm', hb⟩
    · exact ⟨m, hlast, arrived i (by omega) hi⟩
  · rw [actsOf_snoc, finAcked_append] at hack
    rcases hack with hack | hack
    · exact (h.acked hack).mono m
    · rcases hstep.cause hack with hnow | hbefore
      · refine ⟨fun i hi => ?_, m, hlast, hfin hnow⟩
        rw [← hstep.safe hack] at hi
        obtain ⟨m', hm', hb⟩ := h.arrived i hi
        exact ⟨m', List.mem_append_left _ hm', hb⟩
      · exact hbefore.mono m

theorem PeerInv.step {ts' : TcpSession} {e : SessionEvent κ} {acts : List (Act κ)}
    (h : PeerInv base peerStream tr ts) (short : peerStream.length + 2 < 2 ^ 32)
    (ok : PeerSegment base peerStream ⟨ts, e, acts⟩)
    (made : sessionStep ts e = some (ts', acts)) :
    PeerStep base peerStream tr ⟨ts, e, acts⟩ ∧
      PeerInv base peerStream (tr ++ [⟨ts, e, acts⟩]) ts' := by
  have hlife := sessionStep_group made h.life
  have hconn : ts'.state ≠ .synSent := fun hs => h.connected (sessionStep_synSent made h.life hs)
  by_cases hseg : ∃ c, e = .segment c
  · obtain ⟨c, rfl⟩ := hseg
    cases sessionStep_change made with
    | segment _ tsEcr _ =>
      have hstep := h.peerStep short ok
      obtain ⟨h1, h2, h3⟩ := h.segment short ok
      refine ⟨hstep, h.next hstep (fun hnow => hnow.2.1) hlife hconn ?_ ?_ ?_ ?_⟩
      · rw [takenOf_snoc]
        exact h1
      · rw [takenOf_snoc]
        exact h2
      · intro hp
        rcases processSegment_pending hp with ⟨hold, -⟩ | ⟨hnew, -⟩
        · exact .inl hold
        · exact .inr hnew
      · rw [takenOf_snoc]
        exact h3
    | quiet _ _ _ _ hq => cases hq
  · obtain ⟨h1, h2, h3, h4, h5⟩ := h.other_step short made (fun c hc => hseg ⟨c, hc⟩)
    have hstep : PeerStep base peerStream tr (⟨ts, e, acts⟩ : SessionMove κ) :=
      ⟨fun hack => absurd hack h1, fun hack => absurd hack h1, fun hnow => absurd hnow h2⟩
    have htaken : takenOf (tr ++ [(⟨ts, e, acts⟩ : SessionMove κ)]) = takenOf tr := by
      rw [takenOf_snoc, h3, List.append_nil]
    refine ⟨hstep, h.next hstep (fun hnow => absurd hnow h2) hlife hconn ?_ ?_ ?_ ?_⟩
    · rw [htaken]
      exact h.inOrder
    · rw [htaken, h4]
      exact h.expected
    · rw [h5]
      exact .inl
    · rw [htaken]
      intro i hi hlt
      omega

end Steps

/-- A session whose peer's stream is still to come, from the byte that `their_seq_nr` expects. -/
structure Awaits (ts : TcpSession) : Prop where
  life : ts.state.group ≠ none
  connected : ts.state ≠ .synSent
  noFin : ts.flagFinWhenAllReceived = false

theorem Awaits.inv {s0 : TcpSession} (h : Awaits s0) (peerStream : List Byte) :
    PeerInv s0.theirSeqNr peerStream ([] : List (SessionMove κ)) s0 := by
  refine ⟨h.life, h.connected, List.nil_prefix, ?_, ?_, ?_, ?_⟩
  · simp [takenOf, taken, actsOf]
  · simp [h.noFin]
  · simp [takenOf, taken, actsOf]
  · rintro ⟨a, ha, -⟩
    simp [actsOf] at ha

theorem awaits_newServerSession (pkt : Packet) (id : BitVec 64) (isn : BitVec 32) :
    Awaits (newServerSession pkt id isn) :=
  ⟨by simp [newServerSession, TcpState.group], by simp [newServerSession], rfl⟩

theorem session_run_peerInv {s0 s : TcpSession} {peerStream : List Byte}
    {tr : List (SessionMove κ)} (start : Awaits s0) (short : peerStream.length + 2 < 2 ^ 32)
    (run : Run sessionStep s0 tr s) (ok : ∀ m ∈ tr, PeerSegment s0.theirSeqNr peerStream m) :
    PeerInv s0.theirSeqNr peerStream tr s :=
  Run.history_invariant (PeerSegment s0.theirSeqNr peerStream) (PeerInv s0.theirSeqNr peerStream)
    (start.inv peerStream) (fun _ _ _ _ _ h ok made => (h.step short ok made).2) run ok

theorem session_run_peerStep {s0 s : TcpSession} {peerStream : List Byte}
    {pre post : List (SessionMove κ)} {m : SessionMove κ} (start : Awaits s0)
    (short : peerStream.length + 2 < 2 ^ 32) (run : Run sessionStep s0 (pre ++ m :: post) s)
    (ok : ∀ m' ∈ pre ++ m :: post, PeerSegment s0.theirSeqNr peerStream m') :
    PeerInv s0.theirSeqNr peerStream pre m.before ∧
      PeerStep s0.theirSeqNr peerStream pre m := by
  obtain ⟨t, hpre, made, -⟩ := run.split
  have inv := session_run_peerInv start short hpre fun m' hm' => ok m' (by simp [hm'])
  exact ⟨inv, (inv.step short (ok m (by simp)) made).1⟩

/-- In every run in which the peer's segments are parts of its stream, in whatever order and number:
the FIN is acknowledged after the whole stream was taken, and as soon as everything arrived, exactly
if the last to arrive is a FIN without payload for an established session that has taken the rest.
The numbers of the SYN, of the stream and of the FIN are different. -/
theorem peer_fin_iff {s0 s : TcpSession} {peerStream : List Byte} {tr : List (SessionMove κ)}
    (start : Awaits s0) (short : peerStream.length + 2 < 2 ^ 32) (run : Run sessionStep s0 tr s)
    (ok : ∀ m ∈ tr, PeerSegment s0.theirSeqNr peerStream m) :
    PeerFinHandled s0.theirSeqNr peerStream tr ↔
      Throughout (FinInTime s0.theirSeqNr peerStream) tr := by
  constructor
  · rintro ⟨-, hprompt⟩ pre m post rfl hall
    obtain ⟨inv, hstep⟩ := session_run_peerStep start short run ok
    have hack := hprompt (pre ++ [m]) post (by simp) hall
    rw [actsOf_snoc, finAcked_append] at hack
    rcases hack with hack | hack
    · exact .inl (inv.acked hack)
    · exact (hstep.cause hack).symm
  · intro hin
    refine ⟨?_, ?_⟩
    · rintro pre m post rfl hack
      exact (session_run_peerStep start short run ok).2.safe hack
    · intro pre
      -- once acknowledged, the FIN stays so: induction on the beginning of the run
      induction pre using List.reverseRecOn with
      | nil =>
        rintro post - ⟨-, m, hm, -⟩
        simp at hm
      | append_singleton pre m ih =>
        rintro post rfl hall
        rw [actsOf_snoc, finAcked_append]
        rcases hin pre m post (by simp) hall with hbefore | hnow
        · exact .inl (ih (m :: post) (by simp) hbefore)
        · rw [List.append_assoc] at run ok
          exact .inr ((session_run_peerStep start short run ok).2.answer hnow)

/-- One byte and then the FIN. -/
theorem peer_fin_after_byte :
    ∃ (tr : List (SessionMove Unit)) (s : TcpSession),
      Run sessionStep (Sample.session 100) tr s ∧ AllArrived 1001 [97] tr ∧
      PeerFinHandled (Sample.session 100).theirSeqNr [97] tr := by
  let events : List (SessionEvent Unit) := Sample.handshake 100 ++
    [.segment (Sample.call 3 1001 501 flagAck 100 [97]),
      .segment (Sample.call 4 1002 501 (flagAck ||| flagFin) 100 [])]
  have run := exec_get_run sessionStep (Sample.session 100) events (by decide +kernel)
  exact ⟨_, _, run, by decide +kernel,
    (peer_fin_iff (awaits_newServerSession ..) (by decide) run (by decide +kernel)).mpr
      (by decide +kernel)⟩

/-- The FIN on the segment with the byte is answered with an ACK of the byte and never acknowledged
itself. -/
theorem peer_fin_with_byte_not_acked :
    ∃ (tr : List (SessionMove Unit)) (s : TcpSession),
      Run sessionStep (Sample.session 100) tr s ∧
      (∀ m ∈ tr, PeerSegment (Sample.session 100).theirSeqNr [97] m) ∧ takenOf tr = [97] ∧
      ¬PeerFinHandled (Sample.session 100).theirSeqNr [97] tr := by
  let events : List (SessionEvent Unit) := Sample.handshake 100 ++
    [.segment (Sample.call 3 1001 501 (flagAck ||| flagFin) 100 [97])]
  have run := exec_get_run sessionStep (Sample.session 100) events (by decide +kernel)
  refine ⟨_, _, run, by decide +kernel, by decide +kernel, fun h => ?_⟩
  have hack := h.2 _ [] (List.append_nil _).symm (by decide +kernel)
  revert hack
  decide +kernel

end MyIp.Tcp
