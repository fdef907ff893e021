import MyIp.Tcp.SendStream

/-! # The send window

`unacked_sender` sends at most `min(window_size - data_since_last_ack, unacked_size)` bytes, where
the difference is taken on `size_t`. Two questions about every run: when does a visit to a session
with unacknowledged data send anything (`visit_retransmits_iff`), and when does what it sends stay
inside the window (`run_respects_window_unless_shrunk`). -/

namespace MyIp.Tcp
open Bytes EventMachine
set_option autoImplicit false

variable {κ : Type}

/-! ## How much a visit sends -/

def IntPositive (n : ℕ) : Prop := 0 < n % 2 ^ 32 ∧ n % 2 ^ 32 < 2 ^ 31

/-- The minimum of the wrapped difference and the buffered bytes, when more bytes were sent since
the last ACK than the window has. -/
def wrappedToSend (ts : TcpSession) : ℕ :=
  min (2 ^ 64 - (ts.dataSinceLastAck.toNat - ts.windowSize.toNat)) ts.unackedSize.toNat

/-- The window is not exactly used up: it has room left, or it was overrun and the wrapped number
of bytes to send is positive as an `int`, as for every buffer of fewer than 2^31 bytes. -/
def WindowOpen (ts : TcpSession) : Prop :=
  ts.dataSinceLastAck.toNat < ts.windowSize.toNat ∨
    (ts.windowSize.toNat < ts.dataSinceLastAck.toNat ∧ IntPositive (wrappedToSend ts))

theorem toSend_eq (ts : TcpSession) :
    toSend ts = ((BitVec.ofNat 64 (min ((2 ^ 64 - ts.dataSinceLastAck.toNat +
      ts.windowSize.toNat) % 2 ^ 64) ts.unackedSize.toNat)).setWidth 32).toInt := by
  have hdiff : (ts.windowSize.setWidth 64 - ts.dataSinceLastAck).toNat =
      (2 ^ 64 - ts.dataSinceLastAck.toNat + ts.windowSize.toNat) % 2 ^ 64 := by
    rw [BitVec.toNat_sub, BitVec.toNat_setWidth, Nat.mod_eq_of_lt (a := ts.windowSize.toNat)]
    have := ts.windowSize.isLt
    omega
  unfold toSend
  dsimp only
  congr 2
  apply BitVec.eq_of_toNat_eq
  rw [BitVec.toNat_ofNat, ← hdiff]
  have h1 := (ts.windowSize.setWidth 64 - ts.dataSinceLastAck).isLt
  have h2 := ts.unackedSize.isLt
  split
  · next hlt =>
    have := BitVec.lt_def.mp hlt
    rw [Nat.mod_eq_of_lt (by omega)]
    omega
  · next hlt =>
    have : ts.unackedSize.toNat ≤ (ts.windowSize.setWidth 64 - ts.dataSinceLastAck).toNat :=
      Nat.le_of_not_lt fun h => hlt (BitVec.lt_def.mpr h)
    rw [Nat.mod_eq_of_lt (by omega)]
    omega

theorem toInt_pos_iff_intPositive {n : ℕ} (h : n < 2 ^ 64) :
    0 < ((BitVec.ofNat 64 n).setWidth 32).toInt ↔ IntPositive n := by
  have hn : ((BitVec.ofNat 64 n).setWidth 32).toNat = n % 2 ^ 32 := by
    rw [BitVec.toNat_setWidth, BitVec.toNat_ofNat, Nat.mod_eq_of_lt h]
  rw [BitVec.toInt_eq_toNat_cond, hn, IntPositive]
  split <;> omega

theorem toSend_pos_iff {ts : TcpSession} (h : ts.unackedSize ≠ 0) :
    0 < toSend ts ↔ WindowOpen ts := by
  have hU : 0 < ts.unackedSize.toNat := by
    rw [Nat.pos_iff_ne_zero]
    intro hz
    exact h (BitVec.eq_of_toNat_eq hz)
  have hU' := ts.unackedSize.isLt
  have hW := ts.windowSize.isLt
  have hD := ts.dataSinceLastAck.isLt
  rw [toSend_eq, toInt_pos_iff_intPositive (by omega)]
  unfold WindowOpen
  rcases Nat.lt_trichotomy ts.dataSinceLastAck.toNat ts.windowSize.toNat with hlt | heq | hgt
  · have hdiff : (2 ^ 64 - ts.dataSinceLastAck.toNat + ts.windowSize.toNat) % 2 ^ 64 =
        ts.windowSize.toNat - ts.dataSinceLastAck.toNat := by omega
    rw [hdiff]
    have hpos : IntPositive
        (min (ts.windowSize.toNat - ts.dataSinceLastAck.toNat) ts.unackedSize.toNat) := by
      unfold IntPositive
      omega
    exact ⟨fun _ => .inl hlt, fun _ => hpos⟩
  · have hdiff : (2 ^ 64 - ts.dataSinceLastAck.toNat + ts.windowSize.toNat) % 2 ^ 64 = 0 := by omega
    rw [hdiff, Nat.zero_min]
    constructor
    · intro hp
      exact absurd hp.1 (by simp)
    · rintro (h | h) <;> omega
  · have hdiff : (2 ^ 64 - ts.dataSinceLastAck.toNat + ts.windowSize.toNat) % 2 ^ 64 =
        2 ^ 64 - (ts.dataSinceLastAck.toNat - ts.windowSize.toNat) := by omega
    rw [hdiff]
    constructor
    · intro hp
      exact .inr ⟨hgt, hp⟩
    · rintro (h | h)
      · omega
      · exact h.2

theorem windowOpen_iff_ne {ts : TcpSession} (h : ts.unackedSize ≠ 0)
    (small : ts.unackedSize.toNat < 2 ^ 31) :
    WindowOpen ts ↔ ts.dataSinceLastAck.toNat ≠ ts.windowSize.toNat := by
  have hU : 0 < ts.unackedSize.toNat := by
    rw [Nat.pos_iff_ne_zero]
    intro hz
    exact h (BitVec.eq_of_toNat_eq hz)
  have hD := ts.dataSinceLastAck.isLt
  unfold WindowOpen IntPositive wrappedToSend
  omega

/-! ## When a visit sends -/

/-- Among the acts is a segment that starts at `my_seq_nr` and carries bytes of the buffer. -/
def Retransmits (ts : TcpSession) (acts : List (Act κ)) : Prop :=
  ∃ a ∈ acts, ∃ n, 0 < n ∧ n ≤ ts.unackedSize.toNat ∧ IsData ts 0 n ts.mySeqNr a

theorem toSend_toNat_le (ts : TcpSession) : (toSend ts).toNat ≤ ts.unackedSize.toNat := by
  rw [toSend_eq, BitVec.toInt_eq_toNat_cond, BitVec.toNat_setWidth, BitVec.toNat_ofNat]
  have h := ts.unackedSize.isLt
  have hmod := Nat.mod_le (min ((2 ^ 64 - ts.dataSinceLastAck.toNat + ts.windowSize.toNat) % 2 ^ 64)
    ts.unackedSize.toNat) (2 ^ 32)
  rw [Nat.mod_eq_of_lt (a := min _ _) (by omega)]
  split <;> omega

theorem unackedVisit_retransmits_iff {idev : Idev} {now us : BitVec 64} {rc : ℕ → Bool}
    {ts ts' : TcpSession} {acts : List (Act κ)} (data : ts.unackedSize ≠ 0)
    (late : ts.rLastPktTs.toNat + 1000000 ≤ now.toNat) (room : 32 < idev.maxPacketSize)
    (made : unackedVisit idev now us rc ts = some (ts', acts)) :
    Retransmits ts acts ↔ WindowOpen ts := by
  have hlate : 1000000 ≤ (now - ts.rLastPktTs).toNat := by
    rw [BitVec.toNat_sub]
    have h1 := now.isLt
    have h2 := ts.rLastPktTs.isLt
    omega
  rw [← toSend_pos_iff data]
  rcases unackedVisit_cases made with ⟨hno, -, rfl⟩ | ⟨-, hpos, -, he⟩
  · constructor
    · rintro ⟨a, ha, -⟩
      simp at ha
    · exact fun h => absurd ⟨hlate, h⟩ hno
  · refine ⟨fun _ => hpos, fun _ => ?_⟩
    obtain ⟨fuel, hfuel⟩ : ∃ fuel, (toSend ts).toNat = fuel + 1 :=
      ⟨(toSend ts).toNat - 1, by omega⟩
    obtain ⟨a, hd, ht⟩ := resendLoop_turn (κ := κ) idev us rc (idev.maxPacketSize - 32).toNat
      (toSend ts).toNat fuel 0 0 ts.mySeqNr ts (by omega)
    have hacts : acts = (resendLoop idev us rc (idev.maxPacketSize - 32).toNat (toSend ts).toNat
        (fuel + 1) 0 0 ts.mySeqNr ts).2 := by
      rw [(Prod.mk.inj he).2, ← hfuel]
    have hmem : a ∈ acts := by
      rw [hacts, ht]
      split
      · exact List.mem_cons_self
      · exact List.mem_singleton_self a
    have hle := toSend_toNat_le ts
    exact ⟨a, hmem, _, by omega, by omega, hd⟩

/-- In every run, every visit to a session with unacknowledged data, a second or more after the
last one, sends from `my_seq_nr` on exactly if the window is not exactly used up. -/
theorem visit_retransmits_iff {s0 s : TcpSession} {tr : List (SessionMove κ)}
    (run : Run sessionStep s0 tr s) {m : SessionMove κ} (hm : m ∈ tr) {idev : Idev}
    {now us : BitVec 64} {rc : ℕ → Bool} (visit : m.event = .unackedVisit idev now us rc)
    (data : m.before.unackedSize ≠ 0)
    (late : m.before.rLastPktTs.toNat + 1000000 ≤ now.toNat) (room : 32 < idev.maxPacketSize) :
    (Retransmits m.before m.output ↔ WindowOpen m.before) ∧
      (m.before.unackedSize.toNat < 2 ^ 31 → (Retransmits m.before m.output ↔
        m.before.dataSinceLastAck.toNat ≠ m.before.windowSize.toNat)) := by
  obtain ⟨pre, post, u, -, -, made⟩ := run.move_origin m hm
  rw [visit] at made
  have hiff := unackedVisit_retransmits_iff data late room made
  exact ⟨hiff, fun small => hiff.trans (windowOpen_iff_ne data small)⟩

/-- Ten bytes for a peer with a window of 4: the first pass sends four of them. -/
def Sample.filledWindow : List (SessionEvent Unit) := Sample.handshake 4 ++
  [.sendData [1, 2, 3, 4, 5, 6, 7, 8, 9, 10],
    .unackedVisit Sample.device 2000000 2000001 (fun _ => true)]

theorem visit_retransmits_first_pass :
    ∃ (tr : List (SessionMove Unit)) (s : TcpSession) (m : SessionMove Unit),
      Run sessionStep (Sample.session 4) tr s ∧ m ∈ tr ∧ m.before.unackedSize = 10 ∧
      Retransmits m.before m.output := by
  have run := exec_get_run sessionStep (Sample.session 4) Sample.filledWindow (by decide +kernel)
  refine ⟨_, _, _, run, List.getLast_mem (by decide +kernel), by decide +kernel, ?_⟩
  obtain ⟨-, hiff⟩ := visit_retransmits_iff run (List.getLast_mem (by decide +kernel))
    (show _ = SessionEvent.unackedVisit Sample.device 2000000 2000001 (fun _ => true) from rfl)
    (by decide +kernel) (by decide +kernel) (by decide +kernel)
  exact (hiff (by decide +kernel)).mpr (by decide +kernel)

/-- The peer's ACK is lost: two seconds later the next pass sends nothing. -/
theorem full_window_not_retransmitted :
    ∃ (tr : List (SessionMove Unit)) (s : TcpSession),
      Run sessionStep (Sample.session 4) tr s ∧ s.state = .established ∧ s.unackedSize = 10 ∧
      s.rLastPktTs.toNat + 1000000 ≤ (4000000 : BitVec 64).toNat ∧
      32 < Sample.device.maxPacketSize ∧
      ∃ s' acts, unackedVisit (κ := Unit) Sample.device 4000000 4000001 (fun _ => true) s =
        some (s', acts) ∧ ¬Retransmits s acts := by
  obtain ⟨tr, s, run, hstate, hsize, hlate, hvisit⟩ :=
    exists_run_of_exec sessionStep (Sample.session 4) Sample.filledWindow
      (fun _ s => s.state = .established ∧ s.unackedSize = 10 ∧
        s.rLastPktTs.toNat + 1000000 ≤ (4000000 : BitVec 64).toNat ∧
        (unackedVisit (κ := Unit) Sample.device 4000000 4000001 (fun _ => true) s).map
          (·.2.length) = some 0)
      (by decide +kernel)
  obtain ⟨⟨s', acts⟩, hv, hnone⟩ := Option.map_eq_some_iff.mp hvisit
  refine ⟨tr, s, run, hstate, hsize, hlate, by decide, s', acts, hv, ?_⟩
  rintro ⟨a, ha, -⟩
  have hnil : acts = [] := List.length_eq_zero_iff.mp hnone
  simp [hnil] at ha

/-! ## Staying inside the window -/

/-- The segment's ACK is processed, which clears `data_since_last_ack`. -/
def ackResets (b : List Byte) (ts : TcpSession) : Bool :=
  Segment.hasAck b && Segment.headerSize b ≤ b.length &&
    !(Segment.hasRst b && TcpState.synRcvd.rank ≤ ts.state.rank)

theorem receiveAck_dataSinceLastAck (c : Call κ) (tsEcr : BitVec 32) (w : Work κ) :
    (receiveAck c tsEcr w).session.dataSinceLastAck =
      if Segment.hasAck c.pkt.data ∧ w.deleteEntry = false then 0
      else w.session.dataSinceLastAck := by
  unfold receiveAck
  split <;> rfl

theorem receiveRst_deleteEntry (c : Call κ) (ts : TcpSession) :
    (receiveRst c (beginSegment c ts)).deleteEntry =
      (Segment.hasRst c.pkt.data && TcpState.synRcvd.rank ≤ ts.state.rank) := by
  rcases receiveRst_cases c (beginSegment c ts) with ⟨hno, he⟩ | ⟨h1, h2, he⟩
  · have hb : (Segment.hasRst c.pkt.data && decide (TcpState.synRcvd.rank ≤ ts.state.rank)) =
        false := by
      simpa [beginSegment] using hno
    rw [he, hb]
    rfl
  · have hr : TcpState.synRcvd.rank ≤ ts.state.rank := h2
    rw [he, h1, decide_eq_true hr]
    rfl

theorem processFlags_dataSinceLastAck (c : Call κ) (tsEcr : BitVec 32) (ts : TcpSession) :
    (processFlags c tsEcr (beginSegment c ts)).session.dataSinceLastAck =
      if ackResets c.pkt.data ts then 0 else ts.dataSinceLastAck := by
  have hfin : ∀ w : Work κ, (receiveFin c w).session.dataSinceLastAck =
      w.session.dataSinceLastAck := by
    intro w
    unfold receiveFin
    split <;> rfl
  have hackFin : ∀ w : Work κ, (ackFin c tsEcr w).session.dataSinceLastAck =
      w.session.dataSinceLastAck := by
    intro w
    rcases ackFin_cases c tsEcr w with ⟨-, he⟩ | ⟨-, -, he⟩
    · rw [he]
    · simp only [he, Work.setState, setState, send_session]
  have hsyn : ∀ w : Work κ, (receiveSyn c tsEcr w).session.dataSinceLastAck =
      w.session.dataSinceLastAck ∧ (receiveSyn c tsEcr w).deleteEntry = w.deleteEntry := by
    intro w
    rcases receiveSyn_cases c tsEcr w with ⟨-, he⟩ | ⟨-, -, -, he⟩
    · rw [he]
      exact ⟨rfl, rfl⟩
    · rw [he]
      exact ⟨by simp only [Work.setState, setState, send_session], rfl⟩
  have hrst : (receiveRst c (beginSegment c ts)).session.dataSinceLastAck =
      ts.dataSinceLastAck := by
    unfold receiveRst
    split <;> rfl
  unfold processFlags
  split
  · next hf =>
    have hshort : ¬Segment.headerSize c.pkt.data ≤ c.pkt.data.length := by
      simpa [beginSegment] using hf
    simp [ackResets, hshort, beginSegment]
  · next hf =>
    have hfits : Segment.headerSize c.pkt.data ≤ c.pkt.data.length := by
      simpa [beginSegment] using hf
    rw [hackFin, hfin, receiveAck_dataSinceLastAck, (hsyn _).1, (hsyn _).2, hrst,
      receiveRst_deleteEntry]
    congr 1
    cases hr : Segment.hasRst c.pkt.data <;> simp [ackResets, hfits, hr]

theorem processSegment_window (c : Call κ) (tsEcr : BitVec 32) (ts : TcpSession) :
    (processSegment c tsEcr ts).session.windowSize.toNat =
        max 1 (Segment.winSize c.pkt.data).toNat ∧
      (processSegment c tsEcr ts).session.dataSinceLastAck =
        if ackResets c.pkt.data ts then 0 else ts.dataSinceLastAck := by
  constructor
  · have hw : (processSegment c tsEcr ts).session.windowSize =
        BitVec.ofNat 16 (max 1 (Segment.winSize c.pkt.data).toNat) :=
      congrArg (·.2.2.2.1) (processSegment_fixed c tsEcr ts)
    have := (Segment.winSize c.pkt.data).isLt
    rw [hw, BitVec.toNat_ofNat]
    omega
  · rw [← processFlags_dataSinceLastAck c tsEcr ts]
    obtain ⟨us, term, he⟩ := endSegment_session c tsEcr
      (processPayload c tsEcr (processFlags c tsEcr (beginSegment c ts)))
    obtain ⟨seq, us', hp⟩ :=
      processPayload_session c tsEcr (processFlags c tsEcr (beginSegment c ts))
    rw [processSegment, he, hp]

/-- No segment that leaves `data_since_last_ack` standing takes the window below it. -/
def WindowOk (m : SessionMove κ) : Prop :=
  match m.event with
  | .segment c => ackResets c.pkt.data m.before = true ∨
      m.before.dataSinceLastAck.toNat ≤ max 1 (Segment.winSize c.pkt.data).toNat
  | _ => True

instance (m : SessionMove κ) : Decidable (WindowOk m) :=
  match m with
  | ⟨ts, .segment c, _⟩ => inferInstanceAs (Decidable (ackResets c.pkt.data ts = true ∨
      ts.dataSinceLastAck.toNat ≤ max 1 (Segment.winSize c.pkt.data).toNat))
  | ⟨_, .sendData _, _⟩ => isTrue trivial
  | ⟨_, .endSession _ _, _⟩ => isTrue trivial
  | ⟨_, .unackedVisit _ _ _ _, _⟩ => isTrue trivial
  | ⟨_, .waitTurn _ _ _, _⟩ => isTrue trivial
  | ⟨_, .setIsTerminating, _⟩ => isTrue trivial
  | ⟨_, .setSessionTimeout _, _⟩ => isTrue trivial

def NoWrap (ts : TcpSession) : Prop := ts.dataSinceLastAck.toNat ≤ ts.windowSize.toNat

theorem toSend_le_left {ts : TcpSession} (h : NoWrap ts) :
    (toSend ts).toNat ≤ ts.windowSize.toNat - ts.dataSinceLastAck.toNat := by
  unfold NoWrap at h
  have hW := ts.windowSize.isLt
  have hdiff : (2 ^ 64 - ts.dataSinceLastAck.toNat + ts.windowSize.toNat) % 2 ^ 64 =
      ts.windowSize.toNat - ts.dataSinceLastAck.toNat := by
    omega
  rw [toSend_eq, hdiff, BitVec.toInt_eq_toNat_cond, BitVec.toNat_setWidth, BitVec.toNat_ofNat]
  split <;> omega

theorem noWrap_step_iff {ts ts' : TcpSession} {e : SessionEvent κ} {acts : List (Act κ)}
    (made : sessionStep ts e = some (ts', acts)) (h : NoWrap ts) :
    NoWrap ts' ↔ WindowOk (⟨ts, e, acts⟩ : SessionMove κ) := by
  cases sessionStep_change made with
  | segment c tsEcr _ =>
    obtain ⟨hw, hd⟩ := processSegment_window c tsEcr ts
    simp only [NoWrap, WindowOk, hw, hd]
    split
    · next hr => simp [hr]
    · next hr => simp [hr]
  | append => exact ⟨fun _ => trivial, fun _ => h⟩
  | fin => exact ⟨fun _ => trivial, fun _ => h⟩
  | visit idev now us rc _ _ made =>
    refine ⟨fun _ => trivial, fun _ => ?_⟩
    obtain ⟨last, r, t, ht, rfl⟩ := unackedVisit_session made
    have hle := toSend_le_left h
    have hW := ts.windowSize.isLt
    simp only [NoWrap] at h ⊢
    rw [BitVec.toNat_add, BitVec.toNat_ofNat]
    omega
  | wait => exact ⟨fun _ => trivial, fun _ => h⟩
  | quiet _ _ _ _ hq =>
    refine ⟨fun _ => ?_, fun _ => h⟩
    cases e with
    | segment => exact absurd hq (by simp [IsQuiet])
    | _ => trivial

/-- A segment whose bytes lie inside the window that starts at `my_seq_nr`. -/
def WithinWindow (ts : TcpSession) (a : Act κ) : Prop :=
  ∃ dst src b, a = .segment dst src b ∧
    (Segment.seqNr b - ts.mySeqNr).toNat + (Segment.payload b).length ≤ ts.windowSize.toNat

theorem NoWrap.withinWindow {idev : Idev} {now us : BitVec 64} {rc : ℕ → Bool} {ts ts' : TcpSession}
    {acts : List (Act κ)} (h : NoWrap ts)
    (made : unackedVisit idev now us rc ts = some (ts', acts)) :
    ∀ a ∈ acts, WithinWindow ts a := by
  intro a ha
  obtain ⟨off, n, -, hle, us', rfl⟩ := unackedVisit_acts made a ha
  have hleft := toSend_le_left h
  have hW := ts.windowSize.isLt
  refine ⟨_, _, _, rfl, ?_⟩
  rw [segmentBytes_seqNr, segmentBytes_payload, readAt_length,
    show ts.mySeqNr + BitVec.ofNat 32 off - ts.mySeqNr = BitVec.ofNat 32 off by ring,
    BitVec.toNat_ofNat]
  omega

theorem Opened.noWrap {ts : TcpSession} {acts : List (Act κ)} (h : Opened ts acts) : NoWrap ts := by
  cases h with
  | server => simp [NoWrap, newServerSession]
  | client => simp [NoWrap, openClientSession, newClientSession, sendSegment]

/-- In every run whose segments all meet the condition the difference does not wrap and every
segment of a visit stays inside the window; a segment that does not meet it makes it wrap, if
nothing did before. -/
theorem run_respects_window_unless_shrunk {s0 s : TcpSession} {acts0 : List (Act κ)}
    {tr : List (SessionMove κ)} (opened : Opened s0 acts0) (run : Run sessionStep s0 tr s) :
    ((∀ m ∈ tr, WindowOk m) → NoWrap s ∧
      ∀ idev now us rc s' acts, unackedVisit (κ := κ) idev now us rc s = some (s', acts) →
        ∀ a ∈ acts, WithinWindow s a) ∧
    ((∃ m ∈ tr, ¬WindowOk m) → ∃ pre post s', tr = pre ++ post ∧ Run sessionStep s0 pre s' ∧
      ¬NoWrap s') := by
  have inv : (∀ m ∈ tr, WindowOk m) → NoWrap s :=
    Run.history_invariant WindowOk (fun _ s => NoWrap s) opened.noWrap
      (fun _ _ _ _ _ h ok made => (noWrap_step_iff made h).mpr ok) run
  refine ⟨fun ok => ⟨inv ok, ?_⟩, ?_⟩
  · intro idev now us rc s' acts made
    exact (inv ok).withinWindow made
  · rintro ⟨m, hm, hbad⟩
    obtain ⟨pre, post, u, rfl, hpre, made⟩ := run.move_origin m hm
    by_cases hb : NoWrap m.before
    · refine ⟨pre ++ [m], post, u, by simp, Run.snoc hpre made, ?_⟩
      exact fun hu => hbad ((noWrap_step_iff made hb).mp hu)
    · exact ⟨pre, m :: post, m.before, rfl, hpre, hb⟩

/-- A pass that fills the window of 4, then an ACK that opens it again. -/
theorem run_respects_window_after_ack :
    ∃ (tr : List (SessionMove Unit)) (s : TcpSession),
      Run sessionStep (Sample.session 4) tr s ∧ s.unackedSize = 6 ∧
      ∃ s' acts, unackedVisit Sample.device 4000000 4000001 (fun _ => true) s = some (s', acts) ∧
        acts.length = 1 ∧ ∀ a ∈ acts, WithinWindow s (a : Act Unit) := by
  let events : List (SessionEvent Unit) :=
    Sample.filledWindow ++ [.segment (Sample.call 2000002 1001 505 flagAck 4 [])]
  obtain ⟨tr, s, run, hkept, hsize, hvisit⟩ :=
    exists_run_of_exec sessionStep (Sample.session 4) events
      (fun tr s => (∀ m ∈ tr, WindowOk m) ∧ s.unackedSize = 6 ∧
        (unackedVisit (κ := Unit) Sample.device 4000000 4000001 (fun _ => true) s).map
          (·.2.length) = some 1)
      (by decide +kernel)
  obtain ⟨⟨s', acts⟩, hv, hone⟩ := Option.map_eq_some_iff.mp hvisit
  obtain ⟨hok, -⟩ := run_respects_window_unless_shrunk (Opened.server ..) run
  obtain ⟨-, hwithin⟩ := hok hkept
  exact ⟨tr, s, run, hsize, s', acts, hv, hone, hwithin _ _ _ _ _ _ hv⟩

/-- How many bytes of payload an action sends. -/
def Act.payloadLength : Act κ → ℕ
  | .segment _ _ b => (Segment.payload b).length
  | _ => 0

/-- After a pass that used 4 bytes of the window, a segment without ACK shrinks it to 2: the next
pass sends all ten bytes. -/
theorem shrunk_window_overrun :
    ∃ (tr : List (SessionMove Unit)) (s : TcpSession),
      Run sessionStep (Sample.session 4) tr s ∧ s.state = .established ∧ s.windowSize = 2 ∧
      ∃ s' acts, unackedVisit Sample.device 4000000 4000001 (fun _ => true) s = some (s', acts) ∧
        ∃ a ∈ acts, ¬WithinWindow s (a : Act Unit) := by
  let events : List (SessionEvent Unit) :=
    Sample.filledWindow ++ [.segment (Sample.call 2000002 1001 0 0 2 [])]
  obtain ⟨tr, s, run, hstate, hwin, hvisit⟩ :=
    exists_run_of_exec sessionStep (Sample.session 4) events
      (fun _ s => s.state = .established ∧ s.windowSize = 2 ∧
        (unackedVisit (κ := Unit) Sample.device 4000000 4000001 (fun _ => true) s).map
          (fun r => r.2.map Act.payloadLength) = some [10])
      (by decide +kernel)
  obtain ⟨⟨s', acts⟩, hv, hten⟩ := Option.map_eq_some_iff.mp hvisit
  refine ⟨tr, s, run, hstate, hwin, s', acts, hv, ?_⟩
  obtain ⟨a, rest, rfl⟩ := List.exists_cons_of_ne_nil (l := acts) (by rintro rfl; simp at hten)
  refine ⟨a, List.mem_cons_self, ?_⟩
  rintro ⟨dst, src, b, rfl, hle⟩
  simp only [List.map_cons, List.cons.injEq, Act.payloadLength] at hten
  rw [hwin, hten.1] at hle
  have : (2 : BitVec 16).toNat = 2 := rfl
  omega

end MyIp.Tcp
