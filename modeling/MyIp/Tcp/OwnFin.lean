import MyIp.Tcp.Flags

/-! # The FINs a session sends

Three places send a FIN: `end_session`, the ACK that empties the buffer of a session to be ended,
and the answer to the peer's FIN. The first two look at `unacked_size`, the third does not. Its
sequence number is exact all the same in one respect: `my_seq_nr` and the bytes in the buffer
together always are where the stream ends (`session_run_position`). So a FIN stands behind the last
byte, and no data follows it, exactly in the runs in which the buffer is empty whenever the peer's
FIN is answered (`fin_comes_last_iff`). -/

namespace MyIp.Tcp
open Bytes EventMachine
set_option autoImplicit false

variable {κ : Type}

/-! ## Segments that take a sequence number -/

def Act.isFin : Act κ → Bool
  | .segment _ _ b => Segment.hasFin b
  | _ => false

/-- A SYN+ACK or a FIN of the session. -/
def Act.takesNumber (a : Act κ) : Bool := a.isSynAck || a.isFin

def Act.carriesData : Act κ → Bool
  | .segment _ _ b => !(Segment.payload b).isEmpty
  | _ => false

/-- How many sequence numbers were taken by SYN+ACKs and FINs. -/
def numbers (acts : List (Act κ)) : ℕ := acts.countP Act.takesNumber

theorem numbers_append (l l' : List (Act κ)) : numbers (l ++ l') = numbers l + numbers l' :=
  List.countP_append

theorem numbers_silent {l : List (Act κ)} (h : ∀ a ∈ l, a.takesNumber = false) : numbers l = 0 := by
  rw [numbers, List.countP_eq_zero]
  intro a ha
  simp [h a ha]

theorem numbers_actsOf_snoc (tr : List (SessionMove κ)) (m : SessionMove κ) :
    numbers (actsOf (tr ++ [m])) = numbers (actsOf tr) + numbers m.output := by
  rw [actsOf_snoc, numbers_append]

theorem takesNumber_of_not_fin {a : Act κ} (h : a.takesNumber = false) : a.isFin = false := by
  simp only [Act.takesNumber, Bool.or_eq_false_iff] at h
  exact h.2

theorem IsReply.takesNumber {ts : TcpSession} {flags : Byte} {a : Act κ} (h : IsReply ts flags a)
    (hs : flags &&& flagSyn = 0) (hf : flags &&& flagFin = 0) : a.takesNumber = false := by
  obtain ⟨us, ackTo, seq, tsEcr, rfl⟩ := h
  simp [Act.takesNumber, Act.isSynAck, Act.isFin, Segment.hasSyn, Segment.hasFin, hs, hf]

theorem ack_takesNumber (dst src : AnyAddr) {b : List Byte} (h : Segment.flags b = flagAck) :
    (.segment dst src b : Act κ).takesNumber = false := by
  simp only [Act.takesNumber, Act.isSynAck, Act.isFin, Segment.hasSyn, Segment.hasAck,
    Segment.hasFin, h]
  decide

theorem syn_takesNumber (dst src : AnyAddr) {b : List Byte} (h : Segment.flags b = flagSyn) :
    (.segment dst src b : Act κ).takesNumber = false := by
  simp only [Act.takesNumber, Act.isSynAck, Act.isFin, Segment.hasSyn, Segment.hasAck,
    Segment.hasFin, h]
  decide

theorem IsReply.carriesData {ts : TcpSession} {flags : Byte} {a : Act κ} (h : IsReply ts flags a) :
    a.carriesData = false := by
  obtain ⟨us, ackTo, seq, tsEcr, rfl⟩ := h
  simp [Act.carriesData]

/-- Each FIN among the acts has the number `first`, moved on by what was numbered before it. -/
def FinsAt (first : BitVec 32) (acts : List (Act κ)) : Prop :=
  ∀ l dst src b r, acts = l ++ .segment dst src b :: r → Segment.hasFin b →
    Segment.seqNr b = first + BitVec.ofNat 32 (numbers l)

theorem FinsAt.append {first : BitVec 32} {l l' : List (Act κ)} (h : FinsAt first l)
    (h' : FinsAt (first + BitVec.ofNat 32 (numbers l)) l') : FinsAt first (l ++ l') := by
  intro pre dst src b post he hfin
  rcases List.append_eq_append_iff.mp he with ⟨mid, rfl, hl'⟩ | ⟨mid, rfl, hl⟩
  · rw [h' mid dst src b post hl' hfin, numbers_append, BitVec.ofNat_add, BitVec.add_assoc]
  · cases mid with
    | nil =>
      rw [List.append_nil] at h'
      have := h' [] dst src b post (by simpa using hl.symm) hfin
      simpa [numbers] using this
    | cons a mid =>
      simp only [List.cons_append, List.cons.injEq] at hl
      obtain ⟨rfl, rfl⟩ := hl
      exact h pre dst src b mid rfl hfin

theorem FinsAt.silent {first : BitVec 32} {l : List (Act κ)} (h : ∀ a ∈ l, a.isFin = false) :
    FinsAt first l := by
  rintro pre dst src b post rfl hfin
  have := h (.segment dst src b) (by simp)
  rw [Act.isFin, hfin] at this
  cases this

theorem FinsAt.single {first : BitVec 32} {dst src : AnyAddr} {b : List Byte}
    (h : Segment.seqNr b = first) : FinsAt first [(.segment dst src b : Act κ)] := by
  intro pre dst' src' b' post he _
  rcases List.append_eq_singleton_iff.mp he.symm with ⟨rfl, hb⟩ | ⟨-, hb⟩
  · simp only [List.cons.injEq, Act.segment.injEq] at hb
    obtain ⟨⟨-, -, rfl⟩, -⟩ := hb
    simpa [numbers] using h
  · cases hb

/-! ## The stages of a segment -/

/-- Where the stream ends, counted from `my_seq_nr`. -/
def streamEnd (ts : TcpSession) : BitVec 32 := ts.mySeqNr + ts.unackedSize.setWidth 32

/-- A point in the processing of a segment that found the end of the stream at `p`. -/
structure FinStage (p : BitVec 32) (w : Work κ) : Prop where
  position : streamEnd w.session = p + BitVec.ofNat 32 (numbers w.acts)
  fins : FinsAt (p - w.session.unackedSize.setWidth 32) w.acts
  ended : (∃ a ∈ w.acts, a.isFin = true) → w.session.state.group = some 3

section Stages
variable {p : BitVec 32} {c : Call κ} {tsEcr : BitVec 32} {w w' : Work κ}

theorem FinStage.quiet (h : FinStage p w) {new : List (Act κ)} (ha : w'.acts = w.acts ++ new)
    (hq : ∀ a ∈ new, a.takesNumber = false) (hseq : w'.session.mySeqNr = w.session.mySeqNr)
    (hsize : w'.session.unackedSize = w.session.unackedSize)
    (hst : w.session.state.group = some 3 → w'.session.state.group = some 3) : FinStage p w' := by
  constructor
  · rw [streamEnd, hseq, hsize, ha, numbers_append, numbers_silent hq]
    exact h.position
  · rw [ha, hsize]
    exact h.fins.append (.silent fun a hm => takesNumber_of_not_fin (hq a hm))
  · rintro ⟨a, hm, hfin⟩
    rw [ha] at hm
    rcases List.mem_append.mp hm with hm | hm
    · exact hst (h.ended ⟨a, hm, hfin⟩)
    · rw [takesNumber_of_not_fin (hq a hm)] at hfin
      cases hfin

theorem FinStage.still (h : FinStage p w) (ha : w'.acts = w.acts)
    (hseq : w'.session.mySeqNr = w.session.mySeqNr)
    (hsize : w'.session.unackedSize = w.session.unackedSize)
    (hst : w.session.state.group = some 3 → w'.session.state.group = some 3) : FinStage p w' :=
  h.quiet (show w'.acts = w.acts ++ [] by rw [ha, List.append_nil]) (by simp) hseq hsize hst

theorem stateChange_takesNumber {old new : TcpState} {a : Act κ}
    (h : a ∈ [(.stateChange old new : Act κ)]) : a.takesNumber = false := by
  obtain rfl := List.mem_singleton.mp h
  rfl

/-- A SYN+ACK or a FIN takes the next number. -/
theorem FinStage.send (h : FinStage p w) {flags : Byte} {ackTo : BitVec 32} {us : BitVec 64}
    {st : TcpState} (hadv : seqAdvance flags 0 = 1)
    (htakes : ((flags &&& flagSyn != 0 && flags &&& flagAck != 0) || flags &&& flagFin != 0) = true)
    (hst : (flags &&& flagFin != 0) = true ∨ w.session.state.group = some 3 → st.group = some 3) :
    FinStage p ((w.send c tsEcr flags ackTo).setState us st) := by
  have hpos := h.position
  rw [streamEnd] at hpos
  have hsent : FinStage p { w.send c tsEcr flags ackTo with
      session := { (w.send c tsEcr flags ackTo).session with state := st } } := by
    have hacts : (w.send c tsEcr flags ackTo).acts = _ := sendFromTo_acts ..
    cases hd : c.idev with
    | none =>
      refine h.still ?_ ?_ ?_ (fun hg => hst (.inr hg))
      · rw [hacts]
        simp [hd]
      · simp [send_session, hd]
      · simp [send_session]
    | some _ =>
      rw [hd] at hacts
      simp only [Option.isSome_some, if_true] at hacts
      have hone : ∀ b, Segment.flags b = flags →
          numbers [(.segment w.session.theirAddr w.session.myAddr b : Act κ)] = 1 := by
        intro b hb
        rw [numbers, List.countP_singleton, if_pos]
        simpa only [Act.takesNumber, Act.isSynAck, Act.isFin, Segment.hasSyn, Segment.hasAck,
          Segment.hasFin, hb] using htakes
      constructor
      · simp only [streamEnd, send_session, hacts, numbers_append, hd, Option.isSome_some, if_true,
          hadv, hone _ (segmentBytes_flags ..), BitVec.ofNat_add,
          show BitVec.ofNat 32 1 = 1 from rfl]
        linear_combination hpos
      · simp only [send_session, hacts]
        refine h.fins.append (.single ?_)
        rw [segmentBytes_seqNr]
        linear_combination hpos
      · rintro ⟨a, hm, hfin⟩
        simp only [hacts] at hm
        rcases List.mem_append.mp hm with hm | hm
        · exact hst (.inr (h.ended ⟨a, hm, hfin⟩))
        · obtain rfl := List.mem_singleton.mp hm
          refine hst (.inl ?_)
          simpa [Act.isFin, Segment.hasFin] using hfin
  exact hsent.quiet rfl (fun _ => stateChange_takesNumber) rfl rfl id

theorem beginSegment_finStage (c : Call κ) (ts : TcpSession) :
    FinStage (streamEnd ts) (beginSegment c ts) := by
  refine ⟨?_, .silent (by simp [beginSegment]), by simp [beginSegment]⟩
  simp [beginSegment, streamEnd, numbers]

theorem receiveRst_finStage (h : FinStage p w) : FinStage p (receiveRst c w) := by
  rcases receiveRst_cases c w with ⟨-, he⟩ | ⟨-, -, he⟩
  · rw [he]
    exact h
  · rw [he]
    exact h.quiet rfl (fun _ => stateChange_takesNumber) rfl rfl (fun _ => rfl)

theorem receiveSyn_finStage (h : FinStage p w) : FinStage p (receiveSyn c tsEcr w) := by
  rcases receiveSyn_cases c tsEcr w with ⟨-, he⟩ | ⟨-, -, hs, he⟩
  · rw [he]
    exact h
  · rw [he]
    refine h.send (by decide) (by decide) ?_
    rintro (hf | hg)
    · exact absurd hf (by decide)
    · rcases hs with hs | hs <;> simp [hs, TcpState.group] at hg

/-- The FINs sent so far found the buffer empty. -/
def Drained (w : Work κ) : Prop := (∃ a ∈ w.acts, a.isFin = true) → w.session.unackedSize = 0

theorem Drained.none (h : ∀ a ∈ w.acts, a.isFin = false) : Drained w := by
  rintro ⟨a, ha, hfin⟩
  rw [h a ha] at hfin
  cases hfin

theorem Drained.quiet (h : Drained w) {new : List (Act κ)} (ha : w'.acts = w.acts ++ new)
    (hq : ∀ a ∈ new, a.takesNumber = false)
    (hsize : w'.session.unackedSize = w.session.unackedSize) : Drained w' := by
  rintro ⟨a, hm, hfin⟩
  rw [ha] at hm
  rw [hsize]
  rcases List.mem_append.mp hm with hm | hm
  · exact h ⟨a, hm, hfin⟩
  · rw [takesNumber_of_not_fin (hq a hm)] at hfin
    cases hfin

theorem FinStage.no_fin (h : FinStage p w) (hg : w.session.state.group ≠ some 3) :
    ∀ a ∈ w.acts, a.isFin = false := by
  intro a ha
  by_contra hfin
  exact hg (h.ended ⟨a, ha, by simpa using hfin⟩)

theorem setWidth_sub_ofInt (x : BitVec 64) (n : ℤ) :
    (x - BitVec.ofInt 64 n).setWidth 32 = x.setWidth 32 - BitVec.ofInt 32 n := by
  have hint : (BitVec.ofInt 64 n).setWidth 32 = BitVec.ofInt 32 n := by
    apply BitVec.eq_of_toInt_eq
    rw [BitVec.toInt_setWidth, BitVec.toInt_ofInt, BitVec.toNat_ofInt, Int.bmod_def, Int.bmod_def]
    omega
  rw [BitVec.sub_eq_add_neg, BitVec.setWidth_add _ _ (by omega),
    BitVec.setWidth_neg_of_le (by omega), hint, BitVec.sub_eq_add_neg]

theorem takeAcked_finStage (h : FinStage p w) (n : ℤ)
    (hno : ∀ a ∈ w.acts, a.isFin = false) : FinStage p (takeAcked n w) := by
  refine ⟨?_, .silent hno, ?_⟩
  · have hpos := h.position
    simp only [streamEnd, takeAcked, dropAcked, setWidth_sub_ofInt] at hpos ⊢
    linear_combination hpos
  · rintro ⟨a, ha, hfin⟩
    rw [hno a ha] at hfin
    cases hfin

theorem ackEstablished_finStage (h : FinStage p w) (hs : w.session.state = .established) :
    FinStage p (ackEstablished c tsEcr w) ∧ Drained (ackEstablished c tsEcr w) := by
  have hno := h.no_fin (by simp [hs, TcpState.group])
  rcases ackEstablished_cases c tsEcr w with ⟨-, he⟩ | ⟨-, -, he⟩
  · rw [he]
    exact ⟨h.still rfl rfl rfl id, .none hno⟩
  · have htake := takeAcked_finStage h (ackedBytes (Segment.ackNr c.pkt.data) w.session) hno
    obtain ⟨r, hr⟩ := forceSend_session (sendDrainedFin c tsEcr
      (takeAcked (ackedBytes (Segment.ackNr c.pkt.data) w.session) w))
    have hlast : FinStage p (sendDrainedFin c tsEcr
        (takeAcked (ackedBytes (Segment.ackNr c.pkt.data) w.session) w)) ∧
        Drained (sendDrainedFin c tsEcr
          (takeAcked (ackedBytes (Segment.ackNr c.pkt.data) w.session) w)) := by
      rcases sendDrainedFin_cases c tsEcr
        (takeAcked (ackedBytes (Segment.ackNr c.pkt.data) w.session) w) with
        ⟨-, hd⟩ | ⟨hz, -, hd⟩
      · rw [hd]
        exact ⟨htake, .none hno⟩
      · rw [hd]
        refine ⟨htake.send (by decide) (by decide) (fun _ => rfl), fun _ => ?_⟩
        simpa only [Work.setState, setState, send_session] using hz
    rw [he]
    refine ⟨hlast.1.still ?_ ?_ ?_ ?_, ?_⟩
    · exact forceSend_acts _
    · simp only [hr]
    · simp only [hr]
    · simp only [hr]
      exact id
    · intro hfin
      simp only [forceSend_acts] at hfin
      simp only [hr]
      exact hlast.2 hfin

theorem receiveAck_finStage (h : FinStage p w) (hno : ∀ a ∈ w.acts, a.isFin = false) :
    FinStage p (receiveAck c tsEcr w) ∧ Drained (receiveAck c tsEcr w) := by
  rcases receiveAck_cases c tsEcr w with ⟨-, he⟩ | ⟨-, -, he⟩
  · rw [he]
    exact ⟨h, .none hno⟩
  · have hb : FinStage p (ackByState c tsEcr w) ∧ Drained (ackByState c tsEcr w) := by
      rcases ackByState_cases c tsEcr w with
        ⟨hs, hb⟩ | ⟨hs, hb⟩ | ⟨hs, hb⟩ | ⟨hs, hb⟩ | ⟨-, -, -, -, hb⟩
      · have hacts := (ackSynSent_acts c tsEcr w).trans (List.append_assoc ..)
        have hq : ∀ a ∈ (if c.idev.isSome then
            [(.segment w.session.myAddr w.session.theirAddr (segmentBytes c.us w.session.theirAddr
              w.session.theirPort w.session.myAddr w.session.myPort flagAck
              (Segment.seqNr c.pkt.data + 1) w.session.mySeqNr tsEcr []) : Act κ)] else []) ++
            [.stateChange w.session.state .established], a.takesNumber = false := by
          intro a ha
          rcases List.mem_append.mp ha with ha | ha
          · split at ha
            · obtain rfl := List.mem_singleton.mp ha
              exact ack_takesNumber _ _ (by simp)
            · simp at ha
          · exact stateChange_takesNumber ha
        rw [hb]
        refine ⟨h.quiet hacts hq ?_ ?_ ?_, (Drained.none hno).quiet hacts hq ?_⟩
        · rw [ackSynSent_session]
        · rw [ackSynSent_session]
        · simp [hs, TcpState.group]
        · rw [ackSynSent_session]
      · have hq : ∃ new, (ackSynRcvd c w).acts = w.acts ++ new ∧
            ∀ a ∈ new, a.takesNumber = false := by
          rcases ackSynRcvd_acts c w with ⟨ha, -⟩ | ⟨handler, cb, -, -, ha, -⟩
          · exact ⟨_, ha, fun _ => stateChange_takesNumber⟩
          · exact ⟨_, ha, by simp [Act.takesNumber, Act.isSynAck, Act.isFin]⟩
        obtain ⟨new, hacts, hq⟩ := hq
        rw [hb]
        refine ⟨h.quiet hacts hq ?_ ?_ ?_, (Drained.none hno).quiet hacts hq ?_⟩
        · rw [ackSynRcvd_session]
          rfl
        · rw [ackSynRcvd_session]
          rfl
        · simp [hs, TcpState.group]
        · rw [ackSynRcvd_session]
          rfl
      · rw [hb]
        refine ⟨h.quiet rfl (fun _ => stateChange_takesNumber) rfl rfl ?_,
          (Drained.none hno).quiet rfl (fun _ => stateChange_takesNumber) rfl⟩
        simp [hs, TcpState.group]
      · rw [hb]
        exact ackEstablished_finStage h hs
      · rw [hb]
        exact ⟨h, .none hno⟩
    rw [he]
    exact ⟨hb.1.still rfl rfl rfl id, hb.2⟩

theorem receiveFin_finStage (h : FinStage p w) : FinStage p (receiveFin c w) := by
  rcases receiveFin_cases c w with ⟨-, he⟩ | ⟨-, -, he⟩
  · rw [he]
    exact h
  · rw [he]
    exact h.quiet rfl (fun _ => stateChange_takesNumber) rfl rfl (fun _ => rfl)

theorem receiveFin_drained (h : Drained w) : Drained (receiveFin c w) := by
  rcases receiveFin_cases c w with ⟨-, he⟩ | ⟨-, -, he⟩
  · rw [he]
    exact h
  · rw [he]
    exact h.quiet rfl (fun _ => stateChange_takesNumber) rfl

theorem ackFin_finStage (h : FinStage p w) : FinStage p (ackFin c tsEcr w) := by
  rcases ackFin_cases c tsEcr w with ⟨-, he⟩ | ⟨-, -, he⟩
  · rw [he]
    exact h
  · rw [he]
    have hsend : FinStage p ((w.send c tsEcr (flagAck ||| flagFin)
        (w.session.theirSeqNr + 1)).setState c.us .finWait2) :=
      h.send (by decide) (by decide) (fun _ => rfl)
    exact hsend.still rfl rfl rfl id

/-- The last two stages send no FIN and leave the buffer alone. -/
theorem processSegment_finStage_of_flags {ts : TcpSession}
    (h : FinStage p (processFlags c tsEcr (beginSegment c ts))) :
    FinStage p (processSegment c tsEcr ts) ∧
      ∀ a ∈ (processSegment c tsEcr ts).acts, a.isFin = true →
        a ∈ (processFlags c tsEcr (beginSegment c ts)).acts := by
  obtain ⟨payload, ending, hacts, -, hpayload, hending⟩ := processSegment_split c tsEcr ts
  obtain ⟨us, term, he⟩ := endSegment_session c tsEcr
    (processPayload c tsEcr (processFlags c tsEcr (beginSegment c ts)))
  obtain ⟨seq, us', hp⟩ := processPayload_session c tsEcr (processFlags c tsEcr (beginSegment c ts))
  have hs : (processSegment c tsEcr ts).session = _ := he
  rw [hp] at hs
  rw [List.append_assoc] at hacts
  have hq : ∀ a ∈ payload ++ ending, a.takesNumber = false := by
    intro a ha
    rcases List.mem_append.mp ha with ha | ha
    · cases hpayload a ha with
      | newData => rfl
      | badFunctionCall => rfl
      | reply _ h => exact h.takesNumber (by decide) (by decide)
    · cases hending a ha with
      | sessionClosed1 => rfl
      | badFunctionCall => rfl
      | reply _ _ h => exact h.takesNumber (by decide) (by decide)
  refine ⟨h.quiet hacts hq ?_ ?_ ?_, ?_⟩
  · rw [hs]
  · rw [hs]
  · rw [hs]
    exact id
  · intro a ha hfin
    rw [hacts] at ha
    rcases List.mem_append.mp ha with ha | ha
    · exact ha
    · rw [takesNumber_of_not_fin (hq a ha)] at hfin
      cases hfin

theorem receiveSyn_no_fin {ts : TcpSession} :
    ∀ a ∈ (receiveSyn c tsEcr (receiveRst c (beginSegment c ts))).acts, a.isFin = false := by
  have hrst : ∀ a ∈ (receiveRst c (beginSegment c ts)).acts, a.isFin = false := by
    rcases receiveRst_cases c (beginSegment c ts) with ⟨-, he⟩ | ⟨-, -, he⟩
    · rw [he]
      simp [beginSegment]
    · rw [he]
      simp [beginSegment, Act.isFin]
  rcases receiveSyn_cases c tsEcr (receiveRst c (beginSegment c ts)) with ⟨-, he⟩ | ⟨-, -, -, he⟩
  · rw [he]
    exact hrst
  · obtain ⟨new, hacts, hall⟩ := send_acts (receiveRst c (beginSegment c ts)) c tsEcr
      (flagSyn ||| flagAck) (receiveRst c (beginSegment c ts)).session.theirSeqNr
    rw [he, setState_acts, hacts]
    intro a ha
    simp only [List.mem_append, List.mem_singleton] at ha
    rcases ha with (ha | ha) | rfl
    · exact hrst a ha
    · obtain ⟨us, ackTo, seq, ecr, rfl⟩ := hall a ha
      simp [Act.isFin, Segment.hasFin, show (flagSyn ||| flagAck) &&& flagFin = 0 by decide]
    · rfl

theorem processFlags_finStage (c : Call κ) (tsEcr : BitVec 32) (ts : TcpSession) :
    FinStage (streamEnd ts) (processFlags c tsEcr (beginSegment c ts)) := by
  unfold processFlags
  split
  · exact beginSegment_finStage c ts
  · have hsyn : FinStage (streamEnd ts) (receiveSyn c tsEcr (receiveRst c (beginSegment c ts))) :=
      receiveSyn_finStage (receiveRst_finStage (beginSegment_finStage c ts))
    exact ackFin_finStage (receiveFin_finStage (receiveAck_finStage hsyn receiveSyn_no_fin).1)

/-- A FIN goes out only on an empty buffer, or as the answer to the peer's FIN. -/
theorem processFlags_drained {ts : TcpSession}
    (ok : c.idev.isSome → answersFin c.pkt.data ts = true → unackedAfterAck c.pkt.data ts = 0) :
    Drained (processFlags c tsEcr (beginSegment c ts)) := by
  unfold processFlags
  split
  · exact .none (by simp [beginSegment])
  · next hf =>
    have fits : Segment.headerSize c.pkt.data ≤ c.pkt.data.length := by
      simpa [beginSegment] using hf
    have hsyn : FinStage (streamEnd ts) (receiveSyn c tsEcr (receiveRst c (beginSegment c ts))) :=
      receiveSyn_finStage (receiveRst_finStage (beginSegment_finStage c ts))
    have hfin : Drained (receiveFin c (receiveAck c tsEcr
        (receiveSyn c tsEcr (receiveRst c (beginSegment c ts))))) :=
      receiveFin_drained (receiveAck_finStage hsyn receiveSyn_no_fin).2
    rcases ackFin_cases c tsEcr (receiveFin c (receiveAck c tsEcr
      (receiveSyn c tsEcr (receiveRst c (beginSegment c ts))))) with ⟨-, he⟩ | ⟨hflag, hseq, he⟩
    · rw [he]
      exact hfin
    · rw [he]
      cases hd : c.idev with
      | none =>
        have hacts : ((receiveFin c (receiveAck c tsEcr
            (receiveSyn c tsEcr (receiveRst c (beginSegment c ts))))).send c tsEcr
            (flagAck ||| flagFin) ((receiveFin c (receiveAck c tsEcr (receiveSyn c tsEcr
            (receiveRst c (beginSegment c ts))))).session.theirSeqNr + 1)).acts = _ :=
          sendFromTo_acts ..
        rw [hd] at hacts
        simp only [Option.isSome_none, Bool.false_eq_true, if_false, List.append_nil] at hacts
        refine hfin.quiet (congrArg (· ++ _) hacts) (fun _ => stateChange_takesNumber) ?_
        simp only [Work.setState, setState, send_session]
      | some d =>
        have hans := (processFlags_answers tsEcr fits rfl).mp ⟨hflag, hseq⟩
        intro _
        simp only [Work.setState, setState, send_session]
        rw [receiveFin_unackedSize, (receiveAck_stage c tsEcr ts).unacked]
        exact ok (by simp [hd]) hans

/-- The answer to the peer's FIN is a FIN. -/
theorem processSegment_answers_fin {ts : TcpSession} (hd : c.idev.isSome)
    (hans : answersFin c.pkt.data ts = true) :
    ∃ a ∈ (processSegment c tsEcr ts).acts, a.isFin = true := by
  obtain ⟨dst, src, b, hmem, hflags, -⟩ := processSegment_answer tsEcr hd hans
  refine ⟨_, hmem, ?_⟩
  simp only [Act.isFin, Segment.hasFin, hflags]
  decide

end Stages

/-! ## One step of a session -/

/-- When the segment makes the session answer the peer's FIN, its ACK has emptied the buffer. -/
def AnswersDrained (m : SessionMove κ) : Prop :=
  match m.event with
  | .segment c => c.idev.isSome → answersFin c.pkt.data m.before = true →
      unackedAfterAck c.pkt.data m.before = 0
  | _ => True

instance (m : SessionMove κ) : Decidable (AnswersDrained m) :=
  match m with
  | ⟨ts, .segment c, _⟩ => inferInstanceAs (Decidable (c.idev.isSome →
      answersFin c.pkt.data ts = true → unackedAfterAck c.pkt.data ts = 0))
  | ⟨_, .sendData _, _⟩ => isTrue trivial
  | ⟨_, .endSession _ _, _⟩ => isTrue trivial
  | ⟨_, .unackedVisit _ _ _ _, _⟩ => isTrue trivial
  | ⟨_, .waitTurn _ _ _, _⟩ => isTrue trivial
  | ⟨_, .setIsTerminating, _⟩ => isTrue trivial
  | ⟨_, .setSessionTimeout _, _⟩ => isTrue trivial

theorem SegmentAct.carriesData {c : Call κ} {ts : TcpSession} {a : Act κ} (h : SegmentAct c ts a) :
    a.carriesData = false := by
  cases h with
  | flag _ h =>
    cases h with
    | stateChange => rfl
    | newSession => rfl
    | reply _ _ h => exact h.carriesData
    | exchanged _ _ _ _ _ _ h =>
      obtain ⟨us, ackTo, seq, tsEcr, rfl⟩ := h
      simp [Act.carriesData]
  | newData => rfl
  | sessionClosed1 => rfl
  | badFunctionCall => rfl
  | reply _ _ h => exact h.carriesData

theorem endSession_fin (idev : Option Idev) (us : BitVec 64) (ts : TcpSession) :
    streamEnd (endSession (κ := κ) idev us ts).1 =
      streamEnd ts + BitVec.ofNat 32 (numbers (endSession (κ := κ) idev us ts).2) ∧
    (endSession (κ := κ) idev us ts).1.unackedSize = ts.unackedSize ∧
    FinsAt ts.mySeqNr (endSession (κ := κ) idev us ts).2 ∧
    ((∃ a ∈ (endSession (κ := κ) idev us ts).2, a.isFin = true) →
      ts.unackedSize = 0 ∧ (endSession (κ := κ) idev us ts).1.state.group = some 3) := by
  unfold endSession
  split
  · next hz =>
    have hadv : seqAdvance flagFin 0 = 1 := by decide
    have hfin : (flagFin &&& flagFin != 0) = true := by decide
    refine ⟨?_, ?_, ?_, fun _ => ⟨hz, rfl⟩⟩
    · cases idev with
      | none => simp [sendSegment, streamEnd, setState, numbers, Act.takesNumber, Act.isSynAck,
          Act.isFin]
      | some _ =>
        simp only [sendSegment, streamEnd, setState, numbers, List.countP_append,
          List.countP_singleton, Act.takesNumber, Act.isSynAck, Act.isFin, Segment.hasFin,
          segmentBytes_flags, hfin, Bool.or_true, if_true, Option.map_some, Option.getD_some,
          List.length_nil, hadv]
        simp only [Bool.or_self, Bool.false_eq_true, if_false, Nat.add_zero,
          show BitVec.ofNat 32 1 = 1 from rfl]
        ring
    · cases idev <;> rfl
    · refine FinsAt.append ?_ (.silent (by simp [Act.isFin]))
      cases idev with
      | none => exact .silent (by simp [sendSegment])
      | some _ => exact .single (by simp)
  · refine ⟨?_, rfl, .silent (by simp), by simp⟩
    simp [streamEnd, numbers]

/-- What a step does to the end of the stream, and where its FINs stand. -/
structure FinStep (ts : TcpSession) (e : SessionEvent κ) (ts' : TcpSession) (acts : List (Act κ)) :
    Prop where
  position : streamEnd ts' = streamEnd ts +
    BitVec.ofNat 32 (numbers acts + (appendedBy (⟨ts, e, acts⟩ : SessionMove κ)).length)
  fins : FinsAt (streamEnd ts - ts'.unackedSize.setWidth 32) acts
  ended : (∃ a ∈ acts, a.isFin = true) → ts'.state.group = some 3

theorem FinStep.quiet {ts ts' : TcpSession} {e : SessionEvent κ} {acts : List (Act κ)}
    (hpos : streamEnd ts' = streamEnd ts) (hq : ∀ a ∈ acts, a.takesNumber = false)
    (happ : appendedBy (⟨ts, e, acts⟩ : SessionMove κ) = []) : FinStep ts e ts' acts := by
  refine ⟨?_, .silent fun a ha => takesNumber_of_not_fin (hq a ha), ?_⟩
  · simp [hpos, numbers_silent hq, happ]
  · rintro ⟨a, ha, hfin⟩
    rw [takesNumber_of_not_fin (hq a ha)] at hfin
    cases hfin

theorem sessionStep_fins {ts ts' : TcpSession} {e : SessionEvent κ} {acts : List (Act κ)}
    (made : sessionStep ts e = some (ts', acts)) : FinStep ts e ts' acts := by
  cases sessionStep_change made with
  | segment c tsEcr _ =>
    have hstage := (processSegment_finStage_of_flags (processFlags_finStage c tsEcr ts)).1
    exact ⟨by simpa [appendedBy] using hstage.position, hstage.fins, hstage.ended⟩
  | append data room =>
    refine ⟨?_, .silent (by simp), by simp⟩
    simp only [streamEnd, appendUnacked, appendedBy, room, if_true, numbers, List.countP_nil,
      Nat.zero_add]
    rw [BitVec.setWidth_add _ _ (by omega), BitVec.setWidth_ofNat_of_le (by omega)]
    ring
  | fin idev us last seq new hz hall =>
    obtain ⟨h1, h2, h3, h4⟩ := endSession_fin (κ := κ) idev us ts
    rw [Option.some.inj made] at h1 h2 h3 h4
    refine ⟨by simpa [appendedBy] using h1, ?_, fun hfin => (h4 hfin).2⟩
    convert h3 using 1
    rw [h2, streamEnd]
    ring
  | visit idev now us rc _ _ visited =>
    refine .quiet ?_ ?_ rfl
    · obtain ⟨last, r, t, -, rfl⟩ := unackedVisit_session visited
      rfl
    · intro a ha
      obtain ⟨off, n, -, -, us', rfl⟩ := unackedVisit_acts visited a ha
      exact ack_takesNumber _ _ (by simp)
  | wait idev us counter last inInit _ _ hall =>
    refine .quiet rfl ?_ rfl
    intro a ha
    obtain ⟨⟨us', ackTo, seq, tsEcr, rfl⟩, -⟩ := hall a ha
    exact syn_takesNumber _ _ (by simp)
  | quiet _ term fin timeout hq =>
    refine .quiet rfl (by simp) ?_
    cases e <;> simp_all [appendedBy, IsQuiet]

theorem sessionStep_drained {ts ts' : TcpSession} {e : SessionEvent κ} {acts : List (Act κ)}
    (made : sessionStep ts e = some (ts', acts)) (ok : AnswersDrained ⟨ts, e, acts⟩)
    (hfin : ∃ a ∈ acts, a.isFin = true) :
    ts'.unackedSize = 0 ∧ ∀ a ∈ acts, a.carriesData = false := by
  have hnone : (∀ a ∈ acts, a.takesNumber = false) → False := by
    intro hq
    obtain ⟨a, ha, hfin⟩ := hfin
    rw [takesNumber_of_not_fin (hq a ha)] at hfin
    cases hfin
  cases sessionStep_change made with
  | segment c tsEcr _ =>
    obtain ⟨hstage, hflags⟩ := processSegment_finStage_of_flags (processFlags_finStage c tsEcr ts)
    obtain ⟨us, term, he⟩ := endSegment_session c tsEcr
      (processPayload c tsEcr (processFlags c tsEcr (beginSegment c ts)))
    obtain ⟨seq, us', hp⟩ :=
      processPayload_session c tsEcr (processFlags c tsEcr (beginSegment c ts))
    obtain ⟨a, ha, hfin⟩ := hfin
    refine ⟨?_, fun a ha => (processSegment_acts c tsEcr ts a ha).carriesData⟩
    rw [processSegment, he, hp]
    exact processFlags_drained ok ⟨a, hflags a ha hfin, hfin⟩
  | append => simp at hfin
  | fin idev us last seq new hz hall =>
    refine ⟨hz, fun a ha => ?_⟩
    rcases List.mem_append.mp ha with ha | ha
    · exact (hall a ha).carriesData
    · obtain rfl := List.mem_singleton.mp ha
      rfl
  | visit idev now us rc _ _ visited =>
    refine (hnone fun a ha => ?_).elim
    obtain ⟨off, n, -, -, us', rfl⟩ := unackedVisit_acts visited a ha
    exact ack_takesNumber _ _ (by simp)
  | wait idev us counter last inInit _ _ hall =>
    refine (hnone fun a ha => ?_).elim
    obtain ⟨⟨us', ackTo, seq, tsEcr, rfl⟩, -⟩ := hall a ha
    exact syn_takesNumber _ _ (by simp)
  | quiet => simp at hfin

theorem Forward.last {s t : TcpState} (h : Forward s t) (hs : s.group = some 3) :
    t.group = some 3 := by
  obtain ⟨i, j, hi, hj, hij⟩ := h
  obtain rfl := Option.some.inj (hs.symm.trans hi)
  have htop : j ≤ 3 := by
    cases t <;> simp [TcpState.group] at hj <;> omega
  rw [hj, le_antisymm htop hij]

/-- A session past `tcp_established` with an empty buffer stays so and sends no data. -/
theorem sessionStep_over {ts ts' : TcpSession} {e : SessionEvent κ} {acts : List (Act κ)}
    (made : sessionStep ts e = some (ts', acts)) (hg : ts.state.group = some 3)
    (hz : ts.unackedSize = 0) :
    (ts'.state.group = some 3 ∧ ts'.unackedSize = 0) ∧ ∀ a ∈ acts, a.carriesData = false := by
  have hgroup : ts'.state.group = some 3 :=
    (Path.forward (sessionStep_walk made (by simp [hg])).1 (by simp [hg])).last hg
  have hest : ts.state ≠ .established := by
    intro hs
    simp [hs, TcpState.group] at hg
  cases sessionStep_change made with
  | segment c tsEcr _ =>
    refine ⟨⟨hgroup, ?_⟩, fun a ha => (processSegment_acts c tsEcr ts a ha).carriesData⟩
    rw [processSegment_unackedSize, unackedAfterAck, takesAcked]
    simpa [hest] using hz
  | append data room =>
    simp only [appends, Bool.and_eq_true, beq_iff_eq] at room
    exact absurd room.2 hest
  | fin idev us last seq new _ hall =>
    refine ⟨⟨hgroup, hz⟩, fun a ha => ?_⟩
    rcases List.mem_append.mp ha with ha | ha
    · exact (hall a ha).carriesData
    · obtain rfl := List.mem_singleton.mp ha
      rfl
  | visit idev now us rc _ _ visited =>
    refine ⟨⟨hgroup, ?_⟩, fun a ha => ?_⟩
    · obtain ⟨last, r, t, -, rfl⟩ := unackedVisit_session visited
      exact hz
    · obtain ⟨off, n, hpos, hle, -⟩ := unackedVisit_acts visited a ha
      have := toSend_le (show ts.unackedSize.toNat < 2 ^ 31 by simp [hz])
      rw [hz] at this
      simp at this
      omega
  | wait idev us counter last inInit _ _ hall =>
    refine ⟨⟨hgroup, hz⟩, fun a ha => ?_⟩
    obtain ⟨⟨us', ackTo, seq, tsEcr, rfl⟩, -⟩ := hall a ha
    simp [Act.carriesData]
  | quiet => exact ⟨⟨hgroup, hz⟩, by simp⟩

/-! ## Whole runs -/

/-- The number that the stream of a session opened as `s0` ends at: the SYN of a client, the
SYN+ACKs and FINs sent so far, and the bytes that `send_data` appended. -/
def lastNumber (s0 : TcpSession) (acts : List (Act κ)) (str : List Byte) : BitVec 32 :=
  s0.initialMySeqNr +
    BitVec.ofNat 32 ((if s0.isClient then 1 else 0) + numbers acts + str.length)

/-- Every FIN of the run found the buffer empty, has the number behind the last byte that was
appended, and is followed by no data. No stage behind one that sends a FIN changes `unacked_size`,
so that its value at the FIN is the one after the move. -/
def FinComesLast (s0 : TcpSession) (tr : List (SessionMove κ)) : Prop :=
  ∀ pre m post l dst src b r, tr = pre ++ m :: post → m.output = l ++ .segment dst src b :: r →
    Segment.hasFin b →
    (∀ after, sessionStep m.before m.event = some (after, m.output) → after.unackedSize = 0) ∧
    Segment.seqNr b = lastNumber s0 (actsOf pre ++ l) (stream pre) ∧
    ∀ a ∈ r ++ actsOf post, a.carriesData = false

theorem FinComesLast.drained {s0 : TcpSession} {tr : List (SessionMove κ)} {m : SessionMove κ}
    {after : TcpSession} (h : FinComesLast s0 tr) (hm : m ∈ tr)
    (made : sessionStep m.before m.event = some (after, m.output))
    (hfin : ∃ a ∈ m.output, a.isFin = true) : after.unackedSize = 0 := by
  obtain ⟨pre, post, rfl⟩ := List.append_of_mem hm
  obtain ⟨a, ha, hfin⟩ := hfin
  obtain ⟨l, r, hacts⟩ := List.append_of_mem ha
  cases a with
  | segment dst src b => exact (h pre m post l dst src b r rfl hacts hfin).1 after made
  | _ => cases hfin

theorem Opened.position {ts : TcpSession} {acts : List (Act κ)} (h : Opened ts acts) :
    streamEnd ts = lastNumber ts ([] : List (Act κ)) [] := by
  cases h with
  | server => simp [streamEnd, lastNumber, newServerSession, numbers]
  | client =>
    have hadv : seqAdvance flagSyn 0 = 1 := by decide
    simp [streamEnd, lastNumber, openClientSession, newClientSession, sendSegment, hadv, numbers]

theorem session_run_position {s0 s : TcpSession} {acts0 : List (Act κ)}
    {tr : List (SessionMove κ)} (opened : Opened s0 acts0) (run : Run sessionStep s0 tr s) :
    streamEnd s = lastNumber s0 (actsOf tr) (stream tr) := by
  refine Run.history_invariant (fun _ => True)
    (fun tr s => streamEnd s = lastNumber s0 (actsOf tr) (stream tr)) opened.position ?_ run
    (fun _ _ => trivial)
  intro tr a e b o h _ made
  rw [(sessionStep_fins made).position, h, lastNumber, lastNumber, numbers_actsOf_snoc, stream_snoc,
    List.length_append, BitVec.add_assoc, ← BitVec.ofNat_add]
  congr 2
  dsimp only
  omega

theorem session_run_over {s s' : TcpSession} {tr : List (SessionMove κ)}
    (hg : s.state.group = some 3) (hz : s.unackedSize = 0) (run : Run sessionStep s tr s') :
    ∀ a ∈ actsOf tr, a.carriesData = false := by
  have inv := Run.history_invariant (fun _ => True)
    (fun tr s => (s.state.group = some 3 ∧ s.unackedSize = 0) ∧
      ∀ a ∈ actsOf tr, a.carriesData = false)
    ⟨⟨hg, hz⟩, by simp [actsOf]⟩ ?_ run (fun _ _ => trivial)
  · exact inv.2
  · intro tr a e b o h _ made
    obtain ⟨⟨hg, hz⟩, hall⟩ := h
    obtain ⟨hnext, hnew⟩ := sessionStep_over made hg hz
    refine ⟨hnext, ?_⟩
    rw [actsOf_snoc]
    intro x hx
    rcases List.mem_append.mp hx with hx | hx
    · exact hall x hx
    · exact hnew x hx

/-- In a run every FIN comes after all data, acknowledged before, and no data follows it, exactly
if the buffer is empty whenever the peer's FIN is answered. -/
theorem fin_comes_last_iff {s0 s : TcpSession} {acts0 : List (Act κ)} {tr : List (SessionMove κ)}
    (opened : Opened s0 acts0) (run : Run sessionStep s0 tr s) :
    FinComesLast s0 tr ↔ ∀ m ∈ tr, AnswersDrained m := by
  constructor
  · intro h m hm
    obtain ⟨-, -, after, -, -, made⟩ := run.move_origin m hm
    obtain ⟨ts, e, acts⟩ := m
    dsimp only at made
    cases sessionStep_change made with
    | segment c tsEcr _ =>
      intro hd hans
      have hz := h.drained hm made (processSegment_answers_fin hd hans)
      rwa [processSegment_unackedSize, if_pos (answersFin_fits hans)] at hz
    | append => trivial
    | fin => trivial
    | visit => trivial
    | wait => trivial
    | quiet => cases e <;> trivial
  · rintro ok pre m post l dst src b r rfl hacts hfin
    obtain ⟨after, hpre, made, hpost⟩ := run.split
    have hmem : Act.segment dst src b ∈ m.output := by simp [hacts]
    obtain ⟨hz, hdata⟩ := sessionStep_drained made (ok m (by simp)) ⟨_, hmem, hfin⟩
    have hstep := sessionStep_fins made
    refine ⟨fun after' made' => ?_, ?_, ?_⟩
    · obtain rfl := (Prod.mk.inj (Option.some.inj (made.symm.trans made'))).1
      exact hz
    · have hzero : (0 : BitVec 64).setWidth 32 = 0 := rfl
      rw [hstep.fins l dst src b r hacts hfin, hz, hzero, session_run_position opened hpre,
        lastNumber, lastNumber, numbers_append]
      simp only [BitVec.ofNat_add]
      ring
    · intro a ha
      rcases List.mem_append.mp ha with ha | ha
      · exact hdata a (by simp [hacts, ha])
      · exact session_run_over (hstep.ended ⟨_, hmem, hfin⟩) hz hpost a ha

/-- One byte, acknowledged by the segment with the peer's FIN. -/
theorem fin_comes_last_acknowledged :
    ∃ (tr : List (SessionMove Unit)) (s : TcpSession),
      Run sessionStep (Sample.session 100) tr s ∧ stream tr = [7] ∧
      (∃ a ∈ actsOf tr, a.isFin = true) ∧ FinComesLast (Sample.session 100) tr := by
  let events : List (SessionEvent Unit) := Sample.handshake 100 ++
    [.sendData [7], .segment (Sample.call 3 1001 502 (flagAck ||| flagFin) 100 [])]
  have run := exec_get_run sessionStep (Sample.session 100) events (by decide +kernel)
  exact ⟨_, _, run, by decide +kernel, by decide +kernel,
    (fin_comes_last_iff (Opened.server ..) run).mpr (by decide +kernel)⟩

/-- The same, but the byte is not acknowledged: the FIN goes out all the same, and the next pass of
the sender thread sends the byte. -/
theorem fin_before_data :
    ∃ (tr : List (SessionMove Unit)) (s : TcpSession),
      Run sessionStep (Sample.session 100) tr s ∧ (∃ a ∈ actsOf tr, a.isFin = true) ∧
      s.unackedSize = 1 ∧ ¬FinComesLast (Sample.session 100) tr ∧
      ∃ s' acts, unackedVisit Sample.device 5000000 5000001 (fun _ => true) s = some (s', acts) ∧
        ∃ a ∈ acts, (a : Act Unit).carriesData = true := by
  let events : List (SessionEvent Unit) := Sample.handshake 100 ++ [.sendData [7]]
  let e : SessionEvent Unit := .segment (Sample.call 3 1001 501 (flagAck ||| flagFin) 100 [])
  have run := exec_get_run sessionStep (Sample.session 100) events (by decide +kernel)
  have hlast : (sessionStep ((exec sessionStep (Sample.session 100) events).get
      (by decide +kernel)).2 e).map (fun r => (r.2.any Act.isFin, r.1.unackedSize,
        (unackedVisit (κ := Unit) Sample.device 5000000 5000001 (fun _ => true) r.1).map
          (·.2.any Act.carriesData))) = some (true, 1, some true) := by decide +kernel
  obtain ⟨⟨s', acts⟩, made, hfacts⟩ := Option.map_eq_some_iff.mp hlast
  simp only [Prod.mk.injEq] at hfacts
  obtain ⟨hfin, hone, hvisit⟩ := hfacts
  have hfin := List.any_eq_true.mp hfin
  refine ⟨_, s', run.snoc made, ?_, hone, ?_, ?_⟩
  · obtain ⟨a, ha, hf⟩ := hfin
    exact ⟨a, by rw [actsOf_snoc]; exact List.mem_append_right _ ha, hf⟩
  · intro h
    have hz := h.drained (List.mem_append_right _ (List.mem_singleton_self _)) made hfin
    rw [hone] at hz
    cases hz
  · obtain ⟨⟨s', acts⟩, hv, hany⟩ := Option.map_eq_some_iff.mp hvisit
    exact ⟨s', acts, hv, List.any_eq_true.mp hany⟩

end MyIp.Tcp
