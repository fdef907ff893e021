import MyIp.Foundations.Run
import MyIp.Tcp.Resend

/-! # What a session keeps and what is done on its behalf

`SessionChange` says once what an event does to a session; the results about runs go through it.
Every event leaves the end points, the kind and the initial numbers of the session alone
(`sessionStep_identity`), and what a segment does to the outside is of a few kinds
(`SegmentAct`). -/

namespace MyIp.Tcp
open Bytes EventMachine
set_option autoImplicit false

variable {κ : Type}

abbrev SessionMove (κ : Type) := Move TcpSession (SessionEvent κ) (List (Act κ))

def actsOf (tr : List (SessionMove κ)) : List (Act κ) := tr.flatMap (·.output)

theorem actsOf_snoc (tr : List (SessionMove κ)) (m : SessionMove κ) :
    actsOf (tr ++ [m]) = actsOf tr ++ m.output := by
  simp [actsOf]

/-! ## What an event does -/

/-- The event neither is a segment nor makes the session send or append anything. -/
def IsQuiet (ts : TcpSession) : SessionEvent κ → Prop
  | .sendData _ => appends ts = false
  | .endSession _ _ => ts.unackedSize ≠ 0
  | .setIsTerminating => True
  | .setSessionTimeout _ => True
  | _ => False

/-- What an event does to the session `ts`, and the acts that go with it. -/
inductive SessionChange (ts : TcpSession) :
    SessionEvent κ → TcpSession → List (Act κ) → Prop
  | segment (c : Call κ) (tsEcr : BitVec 32) (options : optionsTSecr c.pkt = some tsEcr) :
      SessionChange ts (.segment c) (processSegment c tsEcr ts).session
        (processSegment c tsEcr ts).acts
  | append (data : List Byte) (room : appends ts = true) :
      SessionChange ts (.sendData data) (appendUnacked ts data) []
  | fin (idev : Option Idev) (us last : BitVec 64) (seq : BitVec 32) (new : List (Act κ))
      (drained : ts.unackedSize = 0) (replies : ∀ a ∈ new, IsReply ts flagFin a) :
      SessionChange ts (.endSession idev us)
        { ts with eLastPktTs := last, mySeqNr := seq, state := .finWait1, stateSince := time us }
        (new ++ [.stateChange ts.state .finWait1])
  | visit (idev : Idev) (now us : BitVec 64) (rc : ℕ → Bool) (ts' : TcpSession)
      (acts : List (Act κ)) (made : unackedVisit idev now us rc ts = some (ts', acts)) :
      SessionChange ts (.unackedVisit idev now us rc) ts' acts
  | wait (idev : Option Idev) (us : BitVec 64) (counter : ℕ) (last : BitVec 64) (inInit : Bool)
      (acts : List (Act κ)) (cleared : inInit = true → ts.inInit = true)
      (resends : ∀ a ∈ acts, IsExchanged ts flagSyn a ∧ counter + 1 = 3 ∧ idev.isSome ∧
        ts.state.rank < TcpState.established.rank ∧ time us < ts.stateSince + 30) :
      SessionChange ts (.waitTurn idev us counter)
        { ts with eLastPktTs := last, inInit := inInit } acts
  | quiet (e : SessionEvent κ) (terminating fin : Bool) (timeout : ℤ) (h : IsQuiet ts e) :
      SessionChange ts e
        { ts with
          isTerminating := terminating
          sessionTimeout := timeout
          finAfterUnackedEmpty := fin } []

theorem sessionStep_change {ts ts' : TcpSession} {e : SessionEvent κ} {acts : List (Act κ)}
    (made : sessionStep ts e = some (ts', acts)) : SessionChange ts e ts' acts := by
  cases e with
  | segment c =>
    simp only [sessionStep] at made
    split at made
    · cases made
    · next tsEcr ho =>
      simp only [Option.some.injEq, Prod.mk.injEq] at made
      obtain ⟨rfl, rfl⟩ := made
      exact .segment c tsEcr ho
  | sendData data =>
    simp only [sessionStep, Option.some.injEq, Prod.mk.injEq] at made
    obtain ⟨rfl, rfl⟩ := made
    rcases sendData_cases ts data with ⟨happ, he⟩ | ⟨happ, he⟩
    · rw [he]
      exact .append data happ
    · rw [he]
      exact .quiet (.sendData data) ts.isTerminating ts.finAfterUnackedEmpty ts.sessionTimeout happ
  | endSession idev us =>
    simp only [sessionStep, Option.some.injEq] at made
    rcases endSession_cases (κ := κ) idev us ts with ⟨hz, last, seq, new, he, hall⟩ | ⟨hz, he⟩
    · obtain ⟨rfl, rfl⟩ := Prod.mk.inj (he.symm.trans made)
      exact .fin idev us last seq new hz hall
    · obtain ⟨rfl, rfl⟩ := Prod.mk.inj (he.symm.trans made)
      exact .quiet (.endSession idev us) ts.isTerminating true ts.sessionTimeout hz
  | unackedVisit idev now us rc => exact .visit idev now us rc ts' acts made
  | waitTurn idev us counter =>
    simp only [sessionStep, Option.some.injEq] at made
    obtain ⟨last, inInit, hclear, hs, hall⟩ := waitTurn_cases (κ := κ) idev us counter ts
    rw [made] at hs hall
    rw [show ts' = _ from hs]
    exact .wait idev us counter last inInit acts hclear hall
  | setIsTerminating =>
    simp only [sessionStep, Option.some.injEq, Prod.mk.injEq] at made
    obtain ⟨rfl, rfl⟩ := made
    exact .quiet .setIsTerminating true ts.finAfterUnackedEmpty ts.sessionTimeout trivial
  | setSessionTimeout d =>
    simp only [sessionStep, Option.some.injEq, Prod.mk.injEq] at made
    obtain ⟨rfl, rfl⟩ := made
    exact .quiet (.setSessionTimeout d) ts.isTerminating ts.finAfterUnackedEmpty d trivial

/-! ## What a session keeps for life -/

/-- The end points, the kind and the numbers a session was opened with. -/
def TcpSession.identity (ts : TcpSession) :
    AnyAddr × BitVec 16 × AnyAddr × BitVec 16 × Bool × BitVec 64 × BitVec 32 :=
  (ts.myAddr, ts.myPort, ts.theirAddr, ts.theirPort, ts.isClient, ts.id, ts.initialMySeqNr)

/-- These together with the fields that no segment changes once it has set the window. -/
def TcpSession.fixed (ts : TcpSession) : (AnyAddr × BitVec 16 × AnyAddr × BitVec 16 × Bool ×
    BitVec 64 × BitVec 32) × Bool × ℤ × BitVec 16 × Bool :=
  (ts.identity, ts.inInit, ts.sessionTimeout, ts.windowSize, ts.finAfterUnackedEmpty)

theorem send_fixed (w : Work κ) (c : Call κ) (tsEcr : BitVec 32) (flags : Byte)
    (ackTo : BitVec 32) : (w.send c tsEcr flags ackTo).session.fixed = w.session.fixed := by
  rw [send_session]
  rfl

theorem receiveRst_fixed (c : Call κ) (w : Work κ) :
    (receiveRst c w).session.fixed = w.session.fixed := by
  rcases receiveRst_cases c w with ⟨-, he⟩ | ⟨-, -, he⟩
  · rw [he]
  · rw [he]
    rfl

theorem receiveSyn_fixed (c : Call κ) (tsEcr : BitVec 32) (w : Work κ) :
    (receiveSyn c tsEcr w).session.fixed = w.session.fixed := by
  rcases receiveSyn_cases c tsEcr w with ⟨-, he⟩ | ⟨-, -, -, he⟩
  · rw [he]
  · rw [he]
    exact send_fixed ..

theorem ackEstablished_fixed (c : Call κ) (tsEcr : BitVec 32) (w : Work κ) :
    (ackEstablished c tsEcr w).session.fixed = w.session.fixed := by
  rcases ackEstablished_cases c tsEcr w with ⟨-, he⟩ | ⟨-, -, he⟩
  · rw [he]
  · obtain ⟨r, hr⟩ := forceSend_session (sendDrainedFin c tsEcr
      (takeAcked (ackedBytes (Segment.ackNr c.pkt.data) w.session) w))
    rw [he]
    simp only [hr]
    rcases sendDrainedFin_cases c tsEcr
      (takeAcked (ackedBytes (Segment.ackNr c.pkt.data) w.session) w) with ⟨-, hd⟩ | ⟨-, -, hd⟩
    · rw [hd]
      rfl
    · rw [hd]
      exact send_fixed (takeAcked (ackedBytes (Segment.ackNr c.pkt.data) w.session) w) c tsEcr _ _

theorem receiveAck_fixed (c : Call κ) (tsEcr : BitVec 32) (w : Work κ) :
    (receiveAck c tsEcr w).session.fixed = w.session.fixed := by
  rcases receiveAck_cases c tsEcr w with ⟨-, he⟩ | ⟨-, -, he⟩
  · rw [he]
  · have hb : (ackByState c tsEcr w).session.fixed = w.session.fixed := by
      rcases ackByState_cases c tsEcr w with
        ⟨-, hb⟩ | ⟨-, hb⟩ | ⟨-, hb⟩ | ⟨-, hb⟩ | ⟨-, -, -, -, hb⟩
      · rw [hb, ackSynSent_session]
        rfl
      · rw [hb, ackSynRcvd_session]
        rfl
      · rw [hb]
        rfl
      · rw [hb]
        exact ackEstablished_fixed c tsEcr w
      · rw [hb]
    rw [he]
    exact hb

theorem receiveFin_fixed (c : Call κ) (w : Work κ) :
    (receiveFin c w).session.fixed = w.session.fixed := by
  rcases receiveFin_cases c w with ⟨-, he⟩ | ⟨-, -, he⟩
  · rw [he]
  · rw [he]
    rfl

theorem ackFin_fixed (c : Call κ) (tsEcr : BitVec 32) (w : Work κ) :
    (ackFin c tsEcr w).session.fixed = w.session.fixed := by
  rcases ackFin_cases c tsEcr w with ⟨-, he⟩ | ⟨-, -, he⟩
  · rw [he]
  · rw [he]
    exact send_fixed ..

theorem processFlags_fixed (c : Call κ) (tsEcr : BitVec 32) (w : Work κ) :
    (processFlags c tsEcr w).session.fixed = w.session.fixed := by
  unfold processFlags
  split
  · rfl
  · rw [ackFin_fixed, receiveFin_fixed, receiveAck_fixed, receiveSyn_fixed,
      receiveRst_fixed]

theorem processSegment_fixed (c : Call κ) (tsEcr : BitVec 32) (ts : TcpSession) :
    (processSegment c tsEcr ts).session.fixed = (beginSegment c ts).session.fixed := by
  obtain ⟨us, term, he⟩ := endSegment_session c tsEcr
    (processPayload c tsEcr (processFlags c tsEcr (beginSegment c ts)))
  obtain ⟨seq, us', hp⟩ := processPayload_session c tsEcr (processFlags c tsEcr (beginSegment c ts))
  have hf := processFlags_fixed c tsEcr (beginSegment c ts)
  rw [processSegment, he, hp]
  exact hf

theorem processSegment_identity (c : Call κ) (tsEcr : BitVec 32) (ts : TcpSession) :
    (processSegment c tsEcr ts).session.identity = ts.identity :=
  congrArg (·.1) (processSegment_fixed c tsEcr ts)

theorem sessionStep_identity {ts ts' : TcpSession} {e : SessionEvent κ} {acts : List (Act κ)}
    (made : sessionStep ts e = some (ts', acts)) : ts'.identity = ts.identity := by
  cases sessionStep_change made with
  | segment c tsEcr _ => exact processSegment_identity c tsEcr ts
  | append => rfl
  | fin => rfl
  | visit idev now us rc _ _ made =>
    obtain ⟨last, r, t, -, rfl⟩ := unackedVisit_session made
    rfl
  | wait => rfl
  | quiet => rfl

theorem session_run_identity {s0 s : TcpSession} {tr : List (SessionMove κ)}
    (run : Run sessionStep s0 tr s) : s.identity = s0.identity :=
  Run.invariant (fun s => s.identity = s0.identity) rfl
    (fun _ _ _ _ h made => (sessionStep_identity made).trans h) run

theorem sessionStep_inInit {ts ts' : TcpSession} {e : SessionEvent κ} {acts : List (Act κ)}
    (made : sessionStep ts e = some (ts', acts)) (h : ts'.inInit = true) : ts.inInit = true := by
  cases sessionStep_change made with
  | segment c tsEcr _ =>
    have hf : (processSegment c tsEcr ts).session.inInit = ts.inInit :=
      congrArg (·.2.1) (processSegment_fixed c tsEcr ts)
    rwa [hf] at h
  | append => exact h
  | fin => exact h
  | visit idev now us rc _ _ made =>
    obtain ⟨last, r, t, -, rfl⟩ := unackedVisit_session made
    exact h
  | wait _ _ _ _ _ _ hclear => exact hclear h
  | quiet => exact h

/-! ## What a segment can make the handler do -/

theorem IsReply.congr {ts ts' : TcpSession} {flags : Byte} {a : Act κ} (h : IsReply ts flags a)
    (hi : ts.identity = ts'.identity) : IsReply ts' flags a := by
  simp only [TcpSession.identity, Prod.mk.injEq] at hi
  obtain ⟨h1, h2, h3, h4, -⟩ := hi
  simpa only [IsReply, h1, h2, h3, h4] using h

theorem IsExchanged.congr {ts ts' : TcpSession} {flags : Byte} {a : Act κ}
    (h : IsExchanged ts flags a) (hi : ts.identity = ts'.identity) : IsExchanged ts' flags a := by
  simp only [TcpSession.identity, Prod.mk.injEq] at hi
  obtain ⟨h1, h2, h3, h4, -⟩ := hi
  simpa only [IsExchanged, h1, h2, h3, h4] using h

inductive FlagAct (c : Call κ) (ts : TcpSession) : Act κ → Prop
  | stateChange (old new : TcpState) : FlagAct c ts (.stateChange old new)
  | newSession (handler : PortHandler κ) (cb : κ) (listens : c.listener = some handler)
      (set : handler.newSession = some cb) : FlagAct c ts (.newSession cb c.newSessionRc)
  | reply (flags : Byte) (a : Act κ) (h : IsReply ts flags a) : FlagAct c ts a
  | exchanged (a : Act κ) (sent : ts.state = .synSent) (acks : Segment.hasAck c.pkt.data)
      (runs : Segment.hasRst c.pkt.data = false)
      (fits : Segment.headerSize c.pkt.data ≤ c.pkt.data.length) (device : c.idev.isSome)
      (h : IsExchanged ts flagAck a) : FlagAct c ts a

/-- An application callback, or the attempt of one. -/
def Act.isCallback : Act κ → Bool
  | .stateChange _ _ => false
  | .segment _ _ _ => false
  | _ => true

theorem IsReply.not_callback {ts : TcpSession} {flags : Byte} {a : Act κ} (h : IsReply ts flags a) :
    a.isCallback = false := by
  obtain ⟨us, ackTo, seq, tsEcr, rfl⟩ := h
  rfl

/-- The only callback of the flag stages is `new_session`. -/
theorem FlagAct.callback {c : Call κ} {ts : TcpSession} {a : Act κ} (h : FlagAct c ts a)
    (hcall : a.isCallback = true) : ∃ cb rc, a = .newSession cb rc := by
  cases h with
  | stateChange => cases hcall
  | newSession handler cb => exact ⟨cb, c.newSessionRc, rfl⟩
  | reply _ _ h =>
    rw [h.not_callback] at hcall
    cases hcall
  | exchanged _ _ _ _ _ _ h =>
    obtain ⟨us, ackTo, seq, tsEcr, rfl⟩ := h
    cases hcall

/-- Between two points of the packet handler only such acts were done. -/
def Does (c : Call κ) (ts : TcpSession) (w w' : Work κ) : Prop :=
  ∃ new, w'.acts = w.acts ++ new ∧ ∀ a ∈ new, FlagAct c ts a

section Stages
variable {c : Call κ} {ts : TcpSession}

theorem Does.still {w w' : Work κ} (h : w'.acts = w.acts) : Does c ts w w' :=
  ⟨[], by simp [h], by simp⟩

theorem Does.trans {w w' w'' : Work κ} (h : Does c ts w w') (h' : Does c ts w' w'') :
    Does c ts w w'' := by
  obtain ⟨new, ha, hall⟩ := h
  obtain ⟨new', ha', hall'⟩ := h'
  refine ⟨new ++ new', by rw [ha', ha, List.append_assoc], ?_⟩
  intro a hm
  rcases List.mem_append.mp hm with hm | hm
  · exact hall a hm
  · exact hall' a hm

theorem setState_does (w : Work κ) (us : BitVec 64) (st : TcpState) :
    Does c ts w (w.setState us st) := by
  refine ⟨_, setState_acts w us st, ?_⟩
  intro a ha
  obtain rfl := List.mem_singleton.mp ha
  exact .stateChange _ _

theorem send_does {w : Work κ} {tsEcr : BitVec 32} {flags : Byte} {ackTo : BitVec 32}
    (hi : w.session.identity = ts.identity) : Does c ts w (w.send c tsEcr flags ackTo) := by
  obtain ⟨new, ha, hall⟩ := send_acts w c tsEcr flags ackTo
  exact ⟨new, ha, fun a hm => .reply flags a ((hall a hm).congr hi)⟩

theorem receiveRst_does (w : Work κ) : Does c ts w (receiveRst c w) := by
  rcases receiveRst_cases c w with ⟨-, he⟩ | ⟨-, -, he⟩
  · rw [he]
    exact Does.still rfl
  · rw [he]
    exact setState_does w c.us .closing

theorem receiveSyn_does {w : Work κ} (tsEcr : BitVec 32) (hi : w.session.identity = ts.identity) :
    Does c ts w (receiveSyn c tsEcr w) := by
  rcases receiveSyn_cases c tsEcr w with ⟨-, he⟩ | ⟨-, -, -, he⟩
  · rw [he]
    exact Does.still rfl
  · rw [he]
    exact (send_does hi).trans (setState_does _ c.us .synRcvd)

theorem ackSynRcvd_does (w : Work κ) : Does c ts w (ackSynRcvd c w) := by
  rcases ackSynRcvd_acts c w with ⟨ha, -⟩ | ⟨handler, cb, hl, hc, ha, -⟩
  · refine ⟨_, ha, ?_⟩
    intro a hm
    obtain rfl := List.mem_singleton.mp hm
    exact .stateChange _ _
  · refine ⟨_, ha, ?_⟩
    intro a hm
    simp only [List.mem_cons, List.not_mem_nil, or_false] at hm
    rcases hm with rfl | rfl
    · exact .stateChange _ _
    · exact .newSession handler cb hl hc

theorem ackEstablished_does {w : Work κ} {tsEcr : BitVec 32}
    (hi : w.session.identity = ts.identity) : Does c ts w (ackEstablished c tsEcr w) := by
  rcases ackEstablished_cases c tsEcr w with ⟨-, he⟩ | ⟨-, -, he⟩
  · rw [he]
    exact Does.still rfl
  · rw [he]
    have hfin : Does c ts (takeAcked (ackedBytes (Segment.ackNr c.pkt.data) w.session) w)
        (sendDrainedFin c tsEcr
          (takeAcked (ackedBytes (Segment.ackNr c.pkt.data) w.session) w)) := by
      rcases sendDrainedFin_cases c tsEcr
        (takeAcked (ackedBytes (Segment.ackNr c.pkt.data) w.session) w) with ⟨-, hd⟩ | ⟨-, -, hd⟩
      · rw [hd]
        exact Does.still rfl
      · have hi' : (takeAcked (ackedBytes (Segment.ackNr c.pkt.data) w.session)
            w).session.identity = ts.identity := hi
        rw [hd]
        exact (send_does hi').trans (setState_does _ c.us .finWait1)
    have htake : Does c ts w (takeAcked (ackedBytes (Segment.ackNr c.pkt.data) w.session) w) :=
      Does.still rfl
    exact (htake.trans hfin).trans (Does.still (forceSend_acts _))

theorem ackSynSent_does {w : Work κ} {tsEcr : BitVec 32} (hi : w.session.identity = ts.identity)
    (sent : ts.state = .synSent) (acks : Segment.hasAck c.pkt.data)
    (runs : Segment.hasRst c.pkt.data = false)
    (fits : Segment.headerSize c.pkt.data ≤ c.pkt.data.length) :
    Does c ts w (ackSynSent c tsEcr w) := by
  refine ⟨_, (ackSynSent_acts c tsEcr w).trans (List.append_assoc ..), ?_⟩
  intro a ha
  rcases List.mem_append.mp ha with ha | ha
  · cases hd : c.idev with
    | none => simp [hd] at ha
    | some d =>
      simp only [hd, Option.isSome_some, if_true, List.mem_singleton] at ha
      exact .exchanged a sent acks runs fits (by simp [hd])
        (IsExchanged.congr ⟨_, _, _, _, ha⟩ hi)
  · obtain rfl := List.mem_singleton.mp ha
    exact .stateChange _ _

theorem receiveAck_does {w : Work κ} (tsEcr : BitVec 32) (hi : w.session.identity = ts.identity)
    (sent : w.session.state = .synSent → ts.state = .synSent ∧ Segment.hasRst c.pkt.data = false)
    (fits : Segment.headerSize c.pkt.data ≤ c.pkt.data.length) :
    Does c ts w (receiveAck c tsEcr w) := by
  rcases receiveAck_cases c tsEcr w with ⟨-, he⟩ | ⟨hack, -, he⟩
  · rw [he]
    exact Does.still rfl
  · rw [he]
    have hb : Does c ts w (ackByState c tsEcr w) := by
      rcases ackByState_cases c tsEcr w with
        ⟨hs, hb⟩ | ⟨-, hb⟩ | ⟨-, hb⟩ | ⟨-, hb⟩ | ⟨-, -, -, -, hb⟩
      · rw [hb]
        exact ackSynSent_does hi (sent hs).1 hack (sent hs).2 fits
      · rw [hb]
        exact ackSynRcvd_does w
      · rw [hb]
        exact setState_does w c.us .listen
      · rw [hb]
        exact ackEstablished_does hi
      · rw [hb]
        exact Does.still rfl
    exact hb.trans (Does.still rfl)

theorem receiveFin_does (w : Work κ) : Does c ts w (receiveFin c w) := by
  rcases receiveFin_cases c w with ⟨-, he⟩ | ⟨-, -, he⟩
  · rw [he]
    exact Does.still rfl
  · rw [he]
    refine ⟨_, rfl, ?_⟩
    intro a ha
    obtain rfl := List.mem_singleton.mp ha
    exact .stateChange _ _

theorem ackFin_does {w : Work κ} {tsEcr : BitVec 32} (hi : w.session.identity = ts.identity) :
    Does c ts w (ackFin c tsEcr w) := by
  rcases ackFin_cases c tsEcr w with ⟨-, he⟩ | ⟨-, -, he⟩
  · rw [he]
    exact Does.still rfl
  · rw [he]
    exact (send_does hi).trans (setState_does _ c.us .finWait2)

/-- The ACK stage sees `tcp_syn_sent` only if the session was in it and is not reset. -/
theorem synSent_before_ack {tsEcr : BitVec 32}
    (h : (receiveSyn c tsEcr (receiveRst c (beginSegment c ts))).session.state = .synSent) :
    ts.state = .synSent ∧ Segment.hasRst c.pkt.data = false := by
  have hrst : (receiveRst c (beginSegment c ts)).session.state = .synSent := by
    rcases receiveSyn_cases c tsEcr (receiveRst c (beginSegment c ts)) with ⟨-, he⟩ | ⟨-, -, -, he⟩
    · rwa [he] at h
    · rw [he] at h
      cases h
  rcases receiveRst_cases c (beginSegment c ts) with ⟨hno, he⟩ | ⟨-, -, he⟩
  · rw [he] at hrst
    rw [hrst] at hno
    exact ⟨hrst, by simpa [TcpState.rank] using hno⟩
  · rw [he] at hrst
    cases hrst

theorem processFlags_does (c : Call κ) (ts : TcpSession) (tsEcr : BitVec 32) :
    Does c ts (beginSegment c ts) (processFlags c tsEcr (beginSegment c ts)) := by
  unfold processFlags
  split
  · exact Does.still rfl
  · next hf =>
    have fits : Segment.headerSize c.pkt.data ≤ c.pkt.data.length := by
      simpa [beginSegment] using hf
    have h1 := receiveRst_fixed c (beginSegment c ts)
    have h2 := (receiveSyn_fixed c tsEcr _).trans h1
    have h3 := (receiveAck_fixed c tsEcr _).trans h2
    have h4 := (receiveFin_fixed c _).trans h3
    have hid : ∀ {w : Work κ}, w.session.fixed = (beginSegment c ts).session.fixed →
        w.session.identity = ts.identity := fun h => congrArg (·.1) h
    have hsyn := (receiveRst_does (beginSegment c ts)).trans (receiveSyn_does tsEcr (hid h1))
    have hack := hsyn.trans (receiveAck_does tsEcr (hid h2) synSent_before_ack fits)
    exact (hack.trans (receiveFin_does _)).trans (ackFin_does (hid h4))

end Stages

inductive SegmentAct (c : Call κ) (ts : TcpSession) : Act κ → Prop
  | flag (a : Act κ) (h : FlagAct c ts a) : SegmentAct c ts a
  | newData (handler : PortHandler κ) (cb : κ) (listens : c.listener = some handler)
      (set : handler.newData = some cb)
      (carries : Segment.headerSize c.pkt.data < c.pkt.data.length) :
      SegmentAct c ts (.newData cb (Segment.payload c.pkt.data) c.newDataRc)
  | sessionClosed1 (cb : κ) : SegmentAct c ts (.sessionClosed1 cb)
  | badFunctionCall (slot : Slot) : SegmentAct c ts (.badFunctionCall slot)
  | reply (flags : Byte) (a : Act κ) (h : IsReply ts flags a) : SegmentAct c ts a

theorem processSegment_split (c : Call κ) (tsEcr : BitVec 32) (ts : TcpSession) :
    ∃ payload ending, (processSegment c tsEcr ts).acts =
        (processFlags c tsEcr (beginSegment c ts)).acts ++ payload ++ ending ∧
      (∀ a ∈ (processFlags c tsEcr (beginSegment c ts)).acts, FlagAct c ts a) ∧
      (∀ a ∈ payload, PayloadAct c (processFlags c tsEcr (beginSegment c ts)) a) ∧
      ∀ a ∈ ending,
        EndAct c (processPayload c tsEcr (processFlags c tsEcr (beginSegment c ts))) a := by
  obtain ⟨new, hnew, hflags⟩ := processFlags_does c ts tsEcr
  obtain ⟨payload, hpayload, hp⟩ :=
    processPayload_acts c tsEcr (processFlags c tsEcr (beginSegment c ts))
  obtain ⟨ending, hending, he⟩ :=
    endSegment_acts c tsEcr (processPayload c tsEcr (processFlags c tsEcr (beginSegment c ts)))
  refine ⟨payload, ending, ?_, ?_, hp, he⟩
  · rw [processSegment, hending, hpayload]
  · rw [hnew]
    exact hflags

theorem processSegment_acts (c : Call κ) (tsEcr : BitVec 32) (ts : TcpSession) :
    ∀ a ∈ (processSegment c tsEcr ts).acts, SegmentAct c ts a := by
  obtain ⟨payload, ending, hacts, hflags, hpayload, hending⟩ := processSegment_split c tsEcr ts
  have hi : (processFlags c tsEcr (beginSegment c ts)).session.identity = ts.identity :=
    congrArg (·.1) (processFlags_fixed c tsEcr (beginSegment c ts))
  obtain ⟨seq, us, hp⟩ := processPayload_session c tsEcr (processFlags c tsEcr (beginSegment c ts))
  have hi' : (processPayload c tsEcr (processFlags c tsEcr (beginSegment c ts))).session.identity =
      ts.identity := by
    rw [hp]
    exact hi
  intro a ha
  rw [hacts] at ha
  rcases List.mem_append.mp ha with ha | ha
  · rcases List.mem_append.mp ha with ha | ha
    · exact .flag a (hflags a ha)
    · cases hpayload a ha with
      | newData handler cb hl hc _ _ hlen => exact .newData handler cb hl hc hlen
      | badFunctionCall => exact .badFunctionCall _
      | reply _ h => exact .reply _ a (h.congr hi)
  · cases hending a ha with
    | sessionClosed1 cb => exact .sessionClosed1 cb
    | badFunctionCall => exact .badFunctionCall _
    | reply _ _ h => exact .reply _ a (h.congr hi')

end MyIp.Tcp
