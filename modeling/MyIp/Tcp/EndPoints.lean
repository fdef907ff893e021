import MyIp.Tcp.Acts

/-! # The end points of the segments a session sends

Every call of `send_segment` passes the two end points as four separate arguments. All of them but
two pass the own end point as the source; the answer to the ACK that connects a client session and
the SYN that `wait_for_client_connected_state` sends again have them exchanged. So a run sends
nothing under wrong end points exactly if it has none of these two steps (`run_endPoints_iff`). -/

namespace MyIp.Tcp
open Bytes EventMachine
set_option autoImplicit false

variable {κ : Type}

/-- If the act is a segment, it goes from the session's own end point to its peer's: in the
addresses given to `transmit_packet` and in the ports of its header. -/
def SentFromOwn (ts : TcpSession) (a : Act κ) : Prop :=
  ∀ dst src b, a = .segment dst src b → src = ts.myAddr ∧ Segment.srcPort b = ts.myPort ∧
    dst = ts.theirAddr ∧ Segment.dstPort b = ts.theirPort

def OneEnd (ts : TcpSession) : Prop := ts.myAddr = ts.theirAddr ∧ ts.myPort = ts.theirPort

theorem SentFromOwn.congr {ts ts' : TcpSession} {a : Act κ} (h : SentFromOwn ts a)
    (hi : ts.identity = ts'.identity) : SentFromOwn ts' a := by
  simp only [TcpSession.identity, Prod.mk.injEq] at hi
  obtain ⟨h1, h2, h3, h4, -⟩ := hi
  simpa only [SentFromOwn, h1, h2, h3, h4] using h

theorem OneEnd.congr {ts ts' : TcpSession} (h : OneEnd ts) (hi : ts.identity = ts'.identity) :
    OneEnd ts' := by
  simp only [TcpSession.identity, Prod.mk.injEq] at hi
  obtain ⟨h1, h2, h3, h4, -⟩ := hi
  simpa only [OneEnd, h1, h2, h3, h4] using h

theorem IsReply.sentFromOwn {ts : TcpSession} {flags : Byte} {a : Act κ} (h : IsReply ts flags a) :
    SentFromOwn ts a := by
  obtain ⟨us, ackTo, seq, tsEcr, rfl⟩ := h
  intro dst src b he
  cases he
  simp

theorem IsData.sentFromOwn {ts : TcpSession} {off n : ℕ} {seq : BitVec 32} {a : Act κ}
    (h : IsData ts off n seq a) : SentFromOwn ts a := by
  obtain ⟨us, rfl⟩ := h
  intro dst src b he
  cases he
  simp

/-- A segment with exchanged end points is right only if there is nothing to exchange. -/
theorem IsExchanged.sentFromOwn_iff {ts : TcpSession} {flags : Byte} {a : Act κ}
    (h : IsExchanged ts flags a) : SentFromOwn ts a ↔ OneEnd ts := by
  obtain ⟨us, ackTo, seq, tsEcr, rfl⟩ := h
  constructor
  · intro hs
    obtain ⟨h1, h2, -, -⟩ := hs _ _ _ rfl
    rw [segmentBytes_srcPort] at h2
    exact ⟨h1.symm, h2.symm⟩
  · rintro ⟨h1, h2⟩ dst src b he
    cases he
    simp [h1, h2]

/-! ## The two steps -/

/-- The steps that send with exchanged end points. -/
def Exchanges (m : SessionMove κ) : Prop :=
  match m.event with
  | .segment c => m.before.state = .synSent ∧ Segment.hasAck c.pkt.data = true ∧
      Segment.hasRst c.pkt.data = false ∧ Segment.headerSize c.pkt.data ≤ c.pkt.data.length ∧
      c.idev.isSome = true
  | .waitTurn idev us counter => m.before.state.rank < TcpState.established.rank ∧
      time us < m.before.stateSince + 30 ∧ counter + 1 = 3 ∧ idev.isSome = true
  | _ => False

instance (m : SessionMove κ) : Decidable (Exchanges m) :=
  match m with
  | ⟨ts, .segment c, _⟩ => inferInstanceAs (Decidable (ts.state = .synSent ∧
      Segment.hasAck c.pkt.data = true ∧ Segment.hasRst c.pkt.data = false ∧
      Segment.headerSize c.pkt.data ≤ c.pkt.data.length ∧ c.idev.isSome = true))
  | ⟨ts, .waitTurn idev us counter, _⟩ => inferInstanceAs (Decidable
      (ts.state.rank < TcpState.established.rank ∧ time us < ts.stateSince + 30 ∧
        counter + 1 = 3 ∧ idev.isSome = true))
  | ⟨_, .sendData _, _⟩ => isFalse id
  | ⟨_, .endSession _ _, _⟩ => isFalse id
  | ⟨_, .unackedVisit _ _ _ _, _⟩ => isFalse id
  | ⟨_, .setIsTerminating, _⟩ => isFalse id
  | ⟨_, .setSessionTimeout _, _⟩ => isFalse id

theorem ackSynSent_exchanges {c : Call κ} {ts : TcpSession} (tsEcr : BitVec 32)
    (sent : ts.state = .synSent) (acks : Segment.hasAck c.pkt.data = true)
    (runs : Segment.hasRst c.pkt.data = false)
    (fits : Segment.headerSize c.pkt.data ≤ c.pkt.data.length) (device : c.idev.isSome = true) :
    ∃ a ∈ (processSegment c tsEcr ts).acts, IsExchanged ts flagAck a := by
  have hrst : receiveRst c (beginSegment c ts) = beginSegment c ts := by
    rcases receiveRst_cases c (beginSegment c ts) with ⟨-, he⟩ | ⟨h, -, -⟩
    · exact he
    · simp [runs] at h
  have hsyn : receiveSyn c tsEcr (beginSegment c ts) = beginSegment c ts := by
    rcases receiveSyn_cases c tsEcr (beginSegment c ts) with ⟨-, he⟩ | ⟨-, -, h, -⟩
    · exact he
    · simp [beginSegment, sent] at h
  have hack : (receiveAck c tsEcr (beginSegment c ts)).acts =
      (ackSynSent c tsEcr (beginSegment c ts)).acts := by
    rcases receiveAck_cases c tsEcr (beginSegment c ts) with ⟨hno, -⟩ | ⟨-, -, he⟩
    · exact absurd ⟨acks, rfl⟩ hno
    · rw [he, ackByState, show (beginSegment c ts).session.state = .synSent from sent]
  have hflags : processFlags c tsEcr (beginSegment c ts) =
      ackFin c tsEcr (receiveFin c (receiveAck c tsEcr (beginSegment c ts))) := by
    unfold processFlags
    rw [if_neg (by simpa [beginSegment] using fits), hrst, hsyn]
  have hfin : Does c ts (receiveAck c tsEcr (beginSegment c ts))
      (receiveFin c (receiveAck c tsEcr (beginSegment c ts))) := receiveFin_does _
  have hackFin : ∀ w : Work κ, Does c w.session w (ackFin c tsEcr w) := fun _ => ackFin_does rfl
  obtain ⟨new1, h1, -⟩ := hfin
  obtain ⟨new2, h2, -⟩ := hackFin (receiveFin c (receiveAck c tsEcr (beginSegment c ts)))
  obtain ⟨new3, h3, -⟩ := processPayload_acts c tsEcr (processFlags c tsEcr (beginSegment c ts))
  obtain ⟨new4, h4, -⟩ :=
    endSegment_acts c tsEcr (processPayload c tsEcr (processFlags c tsEcr (beginSegment c ts)))
  have hmem : ∀ a ∈ (ackSynSent c tsEcr (beginSegment c ts)).acts,
      a ∈ (processSegment c tsEcr ts).acts := by
    intro a ha
    rw [processSegment, h4, h3, hflags, h2, h1, hack]
    simp only [List.mem_append]
    exact .inl (.inl (.inl (.inl ha)))
  refine ⟨_, hmem _ ?_, ⟨c.us, Segment.seqNr c.pkt.data + 1, ts.mySeqNr, tsEcr, rfl⟩⟩
  rw [ackSynSent_acts, device]
  simp [beginSegment]

theorem waitTurn_sends {ts ts' : TcpSession} {idev : Option Idev} {us : BitVec 64} {counter : ℕ}
    {acts : List (Act κ)} (made : sessionStep ts (.waitTurn idev us counter) = some (ts', acts))
    (h : Exchanges (⟨ts, .waitTurn idev us counter, acts⟩ : SessionMove κ)) : ∃ a, a ∈ acts := by
  simp only [Exchanges] at h
  obtain ⟨h1, h2, h3, h4⟩ := h
  obtain ⟨d, rfl⟩ := Option.isSome_iff_exists.mp h4
  have hw : ¬(TcpState.established.rank ≤ ts.state.rank ∨ ts.stateSince + 30 ≤ time us) := by
    omega
  simp only [sessionStep, waitTurn, if_neg hw, if_pos h3, sendSegment, Option.some.injEq,
    Prod.mk.injEq] at made
  rw [← made.2]
  exact ⟨_, List.mem_singleton_self _⟩

theorem sessionStep_endPoints_iff {ts ts' : TcpSession} {e : SessionEvent κ} {acts : List (Act κ)}
    (made : sessionStep ts e = some (ts', acts)) :
    (∀ a ∈ acts, SentFromOwn ts a) ↔ (OneEnd ts ∨ ¬Exchanges ⟨ts, e, acts⟩) := by
  cases sessionStep_change made with
  | segment c tsEcr _ =>
    constructor
    · intro hall
      by_cases hx : Exchanges (⟨ts, .segment c, (processSegment c tsEcr ts).acts⟩ : SessionMove κ)
      · obtain ⟨h1, h2, h3, h4, h5⟩ := hx
        obtain ⟨a, ha, hex⟩ := ackSynSent_exchanges tsEcr h1 h2 h3 h4 h5
        exact .inl (hex.sentFromOwn_iff.mp (hall a ha))
      · exact .inr hx
    · intro hor a ha
      have hkind := processSegment_acts c tsEcr ts a ha
      cases hkind with
      | flag _ hf =>
        cases hf with
        | stateChange => intro dst src b he; cases he
        | newSession => intro dst src b he; cases he
        | reply _ _ h => exact h.sentFromOwn
        | exchanged _ h1 h2 h3 h4 h5 h =>
          rcases hor with hone | hno
          · exact h.sentFromOwn_iff.mpr hone
          · exact absurd ⟨h1, h2, h3, h4, h5⟩ hno
      | newData => intro dst src b he; cases he
      | sessionClosed1 => intro dst src b he; cases he
      | badFunctionCall => intro dst src b he; cases he
      | reply _ _ h => exact h.sentFromOwn
  | append => exact ⟨fun _ => .inr id, fun _ a ha => by simp at ha⟩
  | fin idev us last seq new _ hall =>
    refine ⟨fun _ => .inr id, fun _ a ha => ?_⟩
    rcases List.mem_append.mp ha with ha | ha
    · exact (hall a ha).sentFromOwn
    · obtain rfl := List.mem_singleton.mp ha
      intro dst src b he
      cases he
  | visit idev now us rc _ _ made =>
    refine ⟨fun _ => .inr id, fun _ a ha => ?_⟩
    obtain ⟨off, n, -, -, h⟩ := unackedVisit_acts made a ha
    exact h.sentFromOwn
  | wait idev us counter last inInit _ _ hall =>
    constructor
    · intro hown
      by_cases hx : Exchanges (⟨ts, .waitTurn idev us counter, acts⟩ : SessionMove κ)
      · obtain ⟨a, ha⟩ := waitTurn_sends made hx
        exact .inl ((hall a ha).1.sentFromOwn_iff.mp (hown a ha))
      · exact .inr hx
    · intro hor a ha
      obtain ⟨hex, h1, h2, h3, h4⟩ := hall a ha
      rcases hor with hone | hno
      · exact hex.sentFromOwn_iff.mpr hone
      · exact absurd ⟨h3, h4, h1, h2⟩ hno
  | quiet _ _ _ _ hq =>
    refine ⟨fun _ => .inr ?_, fun _ a ha => by simp at ha⟩
    cases e with
    | segment => exact absurd hq (by simp [IsQuiet])
    | waitTurn => exact absurd hq (by simp [IsQuiet])
    | _ => exact id

/-! ## Whole runs -/

theorem Opened.sentFromOwn {ts : TcpSession} {acts : List (Act κ)} (h : Opened ts acts) :
    ∀ a ∈ acts, SentFromOwn ts a := by
  cases h with
  | server => simp
  | client =>
    intro a ha dst src b he
    subst he
    simp only [openClientSession, newClientSession, sendSegment, List.mem_singleton,
      Act.segment.injEq] at ha
    obtain ⟨rfl, rfl, rfl⟩ := ha
    simp [openClientSession, newClientSession, sendSegment]

/-- In every run of a session from its opening on, all segments go from its own end point to its
peer's, exactly if the end points coincide or the run has neither of the two steps. -/
theorem run_endPoints_iff {s0 s : TcpSession} {acts0 : List (Act κ)} {tr : List (SessionMove κ)}
    (opened : Opened s0 acts0) (run : Run sessionStep s0 tr s) :
    (∀ a ∈ acts0 ++ actsOf tr, SentFromOwn s0 a) ↔ (OneEnd s0 ∨ ∀ m ∈ tr, ¬Exchanges m) := by
  have horigin : ∀ m ∈ tr, m.before.identity = s0.identity ∧
      ((∀ a ∈ m.output, SentFromOwn m.before a) ↔ (OneEnd m.before ∨ ¬Exchanges m)) := by
    intro m hm
    obtain ⟨pre, post, u, -, hpre, made⟩ := run.move_origin m hm
    exact ⟨session_run_identity hpre, sessionStep_endPoints_iff made⟩
  constructor
  · intro hall
    by_cases hone : OneEnd s0
    · exact .inl hone
    · refine .inr fun m hm => ?_
      obtain ⟨hi, hiff⟩ := horigin m hm
      have hown : ∀ a ∈ m.output, SentFromOwn m.before a := by
        intro a ha
        have hmem : a ∈ actsOf tr := List.mem_flatMap.mpr ⟨m, hm, ha⟩
        exact (hall a (List.mem_append_right _ hmem)).congr hi.symm
      rcases hiff.mp hown with h | h
      · exact absurd (h.congr hi) hone
      · exact h
  · intro hor a ha
    rcases List.mem_append.mp ha with ha | ha
    · exact opened.sentFromOwn a ha
    · obtain ⟨m, hm, ha⟩ := List.mem_flatMap.mp ha
      obtain ⟨hi, hiff⟩ := horigin m hm
      have hown : ∀ a ∈ m.output, SentFromOwn m.before a := by
        apply hiff.mpr
        rcases hor with hone | hno
        · exact .inl (hone.congr hi.symm)
        · exact .inr (hno m hm)
      exact (hown a ha).congr hi

/-- A server session from its SYN to its first data. -/
theorem run_endPoints_server :
    ∃ (tr : List (SessionMove Unit)) (s : TcpSession),
      Run sessionStep (Sample.session 100) tr s ∧ (actsOf tr).length = 5 ∧
      ∀ a ∈ [] ++ actsOf tr, SentFromOwn (Sample.session 100) a := by
  let events : List (SessionEvent Unit) := Sample.handshake 100 ++
    [.sendData [1, 2, 3], .unackedVisit Sample.device 2000000 2000001 (fun _ => true)]
  have run := exec_get_run sessionStep (Sample.session 100) events (by decide +kernel)
  exact ⟨_, _, run, by decide +kernel,
    (run_endPoints_iff (Opened.server ..) run).mpr (.inr (by decide +kernel))⟩

/-- A client session from port 5000 to port 80 of the peer, whose sequence numbers start at 500. -/
def Sample.client : TcpSession × List (Act Unit) :=
  openClientSession Sample.device 1 0 Sample.peer 80 5000 500

/-- The SYN+ACK of the peer is answered with a segment from the peer to the own end point. -/
theorem client_answers_from_peer :
    ∃ (tr : List (SessionMove Unit)) (s : TcpSession), Opened Sample.client.1 Sample.client.2 ∧
      Run sessionStep Sample.client.1 tr s ∧ s.state = .established ∧
      ∃ a ∈ Sample.client.2 ++ actsOf tr, ¬SentFromOwn Sample.client.1 a := by
  let synAck : Call Unit :=
    { pkt := ⟨Sample.peer, Sample.host, bareSegment 0 80 5000 1000 501 (flagSyn ||| flagAck) 100 [],
        []⟩
      listener := some Sample.handler
      idev := some Sample.device
      us := 2 }
  have hstep : (sessionStep Sample.client.1 (.segment synAck)).map (·.1.state) =
      some .established := by decide +kernel
  obtain ⟨⟨s, acts⟩, made, hest⟩ := Option.map_eq_some_iff.mp hstep
  refine ⟨[⟨Sample.client.1, .segment synAck, acts⟩], s, .client .., Run.single made, hest, ?_⟩
  have hall : ¬∀ a ∈ acts, SentFromOwn Sample.client.1 a := by
    rw [sessionStep_endPoints_iff made]
    rintro (⟨-, h⟩ | h)
    · exact absurd h (by decide +kernel)
    · refine h ?_
      simp only [Exchanges]
      decide +kernel
  push Not at hall
  obtain ⟨a, ha, hbad⟩ := hall
  exact ⟨a, List.mem_append_right _ (by simpa [actsOf] using ha), hbad⟩

end MyIp.Tcp
