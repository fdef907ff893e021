import MyIp.Tcp.Removal
import MyIp.Tcp.Flags

/-! # Calls of callbacks that are not set

Three call sites do not ask whether the `std::function` they call is set: `new_data` in the payload
branch of `packet_handler`, `session_closed_1` in its failure branch and `session_closed_2` in
`session_ender`. The handler that `allocate_client_session` registers has no `session_closed_1`.
`callsUnset` says on the state before the segment which of them it reaches, so that
`callbacks_set_iff` says exactly which runs call nothing that is not set. -/

namespace MyIp.Tcp
open Bytes EventMachine
set_option autoImplicit false

variable {κ : Type}

/-! ## When a payload is handed over -/

/-- The payload of the segment is handed to the application, if there is a handler. -/
def offersData (c : Call κ) (ts : TcpSession) : Bool :=
  decide (Segment.headerSize c.pkt.data < c.pkt.data.length) && !flagsFail c ts &&
    Segment.seqNr c.pkt.data == expectedSeqNr c.pkt.data ts

/-- The segment takes the failure branch, if its payload is handed to a `new_data` at all. -/
def segmentFails (c : Call κ) (ts : TcpSession) : Bool :=
  flagsFail c ts || (offersData c ts && !c.newDataRc)

/-- The segment makes the handler thread call a callback of `handler` that is not set. -/
def callsUnset (c : Call κ) (ts : TcpSession) (handler : PortHandler κ) : Bool :=
  (offersData c ts && handler.newData.isNone) ||
    (segmentFails c ts && handler.sessionClosed1.isNone)

def Act.isBadCall : Act κ → Bool
  | .badFunctionCall _ => true
  | _ => false

theorem isBadCall_of_replies {ts : TcpSession} {flags : Byte} {new : List (Act κ)}
    (h : ∀ a ∈ new, IsReply ts flags a) : new.any Act.isBadCall = false := by
  rw [List.any_eq_false]
  intro a ha
  obtain ⟨us, ackTo, seq, tsEcr, rfl⟩ := h a ha
  simp [Act.isBadCall]

theorem endSegment_bad {c : Call κ} {w : Work κ} (tsEcr : BitVec 32) (ht : w.thrown = false) :
    (endSegment c tsEcr w).acts.any Act.isBadCall = (w.acts.any Act.isBadCall ||
      (w.fail && (c.listener.map (·.sessionClosed1.isNone)).getD false)) := by
  have hmark : ∀ w : Work κ, (markTerminating w).acts = w.acts := by
    intro w
    unfold markTerminating
    split <;> rfl
  have hrst : ∀ w : Work κ, (sendFailRst c tsEcr w).acts.any Act.isBadCall =
      w.acts.any Act.isBadCall := by
    intro w
    obtain ⟨new, hnew, hall⟩ := sendFailRst_acts c tsEcr w
    rw [hnew, List.any_append, isBadCall_of_replies hall, Bool.or_false]
  have hacts : (endSegment c tsEcr w).acts = (failSession c tsEcr w).acts := by
    unfold endSegment
    rw [ht]
    simp only [Bool.false_eq_true, if_false]
    split
    · rfl
    · rw [hmark]
  rw [hacts]
  unfold failSession
  cases hf : w.fail with
  | false => simp
  | true =>
    cases hl : c.listener with
    | none => simp [hrst]
    | some handler =>
      cases hc : handler.sessionClosed1 with
      | none => simp [hc, Act.isBadCall]
      | some cb => simp [hc, hrst, Act.isBadCall]

theorem processFlags_bad (c : Call κ) (tsEcr : BitVec 32) (ts : TcpSession) :
    (processFlags c tsEcr (beginSegment c ts)).acts.any Act.isBadCall = false := by
  obtain ⟨new, hnew, hall⟩ := processFlags_does c ts tsEcr
  rw [hnew, List.any_append, show (beginSegment c ts).acts = [] from rfl, List.any_nil,
    Bool.false_or, List.any_eq_false]
  intro a ha hbad
  have hcall : a.isCallback = true := by
    cases a <;> simp_all [Act.isBadCall, Act.isCallback]
  obtain ⟨cb, rc, rfl⟩ := (hall a ha).callback hcall
  cases hbad

theorem endSegment_send_bad {c : Call κ} {w : Work κ} (tsEcr ackTo : BitVec 32)
    (ht : w.thrown = false) (hb : w.acts.any Act.isBadCall = false) :
    (endSegment c tsEcr (w.send c tsEcr flagAck ackTo)).acts.any Act.isBadCall =
      (w.fail && (c.listener.map (·.sessionClosed1.isNone)).getD false) := by
  obtain ⟨new, hnew, hall⟩ := send_acts w c tsEcr flagAck ackTo
  have ht' : (w.send c tsEcr flagAck ackTo).thrown = false := ht
  rw [endSegment_bad tsEcr ht', hnew, List.any_append, hb, isBadCall_of_replies hall]
  rfl

section Payload
variable {c : Call κ} {tsEcr : BitVec 32} {ts : TcpSession} {w : Work κ}
  (hbad : w.acts.any Act.isBadCall = false) (hthrown : w.thrown = false)
  (hpayload : Segment.headerSize c.pkt.data < c.pkt.data.length ∧ w.fail = false)
include hbad hthrown

/-- A payload that is not handed over: only the failure branch calls something. -/
theorem processPayload_kept_bad (hkept : Segment.headerSize c.pkt.data < c.pkt.data.length ∧
      w.fail = false → Segment.seqNr c.pkt.data ≠ w.session.theirSeqNr) :
    (endSegment c tsEcr (processPayload c tsEcr w)).acts.any Act.isBadCall =
      (w.fail && (c.listener.map (·.sessionClosed1.isNone)).getD false) := by
  unfold processPayload
  split
  · next hp =>
    rw [if_neg (hkept hp)]
    exact endSegment_send_bad tsEcr _ hthrown hbad
  · rw [endSegment_bad tsEcr hthrown, hbad, Bool.false_or]

include hpayload

/-- A payload that is handed over. -/
theorem processPayload_offered_bad (hseq : Segment.seqNr c.pkt.data = w.session.theirSeqNr)
    (hflags : flagsFail c ts = false) (ho : offersData c ts = true) :
    (endSegment c tsEcr (processPayload c tsEcr w)).acts.any Act.isBadCall =
      (c.listener.map (callsUnset c ts)).getD false := by
  rw [processPayload, if_pos hpayload, if_pos hseq]
  cases hl : c.listener with
  | none =>
    have hd : deliver c w = { w with fail := true } := by simp [deliver, hl]
    have ht' : ({ w with fail := true } : Work κ).thrown = false := hthrown
    rw [hd]
    simp only [true_or, if_true]
    rw [endSegment_bad tsEcr ht']
    simp [hbad, hl]
  | some handler =>
    cases hn : handler.newData with
    | none =>
      have hd : deliver c w =
          { w with acts := w.acts ++ [.badFunctionCall .newData], thrown := true } := by
        simp [deliver, hl, hn]
      rw [hd]
      simp [endSegment, callsUnset, ho, hn, Act.isBadCall]
    | some cb =>
      have hd : deliver c w =
          { w with
            acts := w.acts ++ [.newData cb (Segment.payload c.pkt.data) c.newDataRc]
            fail := !c.newDataRc } := by
        simp [deliver, hl, hn]
      rw [hd]
      have hb : (w.acts ++ [Act.newData cb (Segment.payload c.pkt.data) c.newDataRc]).any
          Act.isBadCall = false := by
        simp [hbad, Act.isBadCall]
      cases hrc : c.newDataRc with
      | false =>
        rw [hrc] at hb
        simp only [Bool.not_false, true_or, if_true]
        rw [endSegment_bad tsEcr (by exact hthrown)]
        simp only [hb, hl, Option.map_some, Option.getD_some, Bool.false_or, Bool.true_and]
        simp [callsUnset, segmentFails, hflags, ho, hn, hrc]
      | true =>
        rw [hrc] at hb
        simp only [Bool.not_true, Bool.false_eq_true, hthrown, or_self, if_false]
        unfold acceptPayload
        dsimp only
        split
        · rw [endSegment_send_bad tsEcr _ rfl hb]
          simp [callsUnset, segmentFails, hflags, hn, hrc]
        · rw [endSegment_bad tsEcr rfl]
          simp [hb, callsUnset, segmentFails, hflags, hn, hrc]

end Payload

theorem processSegment_bad (c : Call κ) (tsEcr : BitVec 32) (ts : TcpSession) :
    (processSegment c tsEcr ts).acts.any Act.isBadCall =
      (c.listener.map (callsUnset c ts)).getD false := by
  have hbad := processFlags_bad c tsEcr ts
  have hfail := processFlags_fail c tsEcr ts
  have hthrown := processFlags_thrown c tsEcr ts
  have hseq := processFlags_expected c tsEcr ts
  unfold processSegment
  generalize processFlags c tsEcr (beginSegment c ts) = w at hbad hfail hthrown hseq
  -- whether the payload is handed over, in the words of the payload stage
  have hoffers : offersData c ts = true ↔
      (Segment.headerSize c.pkt.data < c.pkt.data.length ∧ w.fail = false) ∧
        Segment.seqNr c.pkt.data = w.session.theirSeqNr := by
    simp [offersData, hfail, hseq]
  cases ho : offersData c ts with
  | false =>
    have hkept : Segment.headerSize c.pkt.data < c.pkt.data.length ∧ w.fail = false →
        Segment.seqNr c.pkt.data ≠ w.session.theirSeqNr := by
      intro hp hs
      simp [hoffers.mpr ⟨hp, hs⟩] at ho
    rw [processPayload_kept_bad hbad hthrown hkept, hfail]
    cases c.listener with
    | none => simp
    | some handler => simp [callsUnset, segmentFails, ho]
  | true =>
    obtain ⟨hp, hs⟩ := hoffers.mp ho
    exact processPayload_offered_bad hbad hthrown hp hs (hfail ▸ hp.2) ho

/-! ## Runs of the layer -/

/-- The surroundings of the segment that a step processes. -/
def LayerEvent.callOf (t : Layer κ) : LayerEvent κ → Option (Call κ)
  | .processPacket i us newSessionRc newDataRc =>
    (t.handling[i]?).map fun pkt => t.call pkt us newSessionRc newDataRc
  | _ => none

/-- The session object that the ender thread takes from the queue. -/
def LayerEvent.enders (t : Layer κ) : LayerEvent κ → Option ℕ
  | .sessionEnder => t.endingSessions.head?
  | _ => none

/-- What is asked of a step: the handler of the packet's port has the `new_data` and the
`session_closed_1` that processing the packet calls, and the handler of the port of an ending
session has a `session_closed_2`. -/
def CallsSet (m : LayerMove κ) : Prop :=
  (∀ c ∈ m.event.callOf m.before, ∀ obj ∈ m.before.sessions[c.pkt.key]?,
    ∀ ts ∈ m.before.objects obj, ∀ handler ∈ c.listener, callsUnset c ts handler = false) ∧
  ∀ obj ∈ m.event.enders m.before, ∀ ts ∈ m.before.objects obj,
    ∀ handler ∈ m.before.listeners[portNr ts.myPort]?, handler.sessionClosed2.isSome = true

instance (m : LayerMove κ) : Decidable (CallsSet m) :=
  inferInstanceAs (Decidable (
    (∀ c ∈ m.event.callOf m.before, ∀ obj ∈ m.before.sessions[c.pkt.key]?,
      ∀ ts ∈ m.before.objects obj, ∀ handler ∈ c.listener, callsUnset c ts handler = false) ∧
    ∀ obj ∈ m.event.enders m.before, ∀ ts ∈ m.before.objects obj,
      ∀ handler ∈ m.before.listeners[portNr ts.myPort]?, handler.sessionClosed2.isSome = true))

/-- The step calls no empty `std::function`. -/
def CallsNothingUnset (acts : List (LayerAct κ)) : Prop :=
  ∀ obj slot, .onSession obj (.badFunctionCall slot) ∉ acts

theorem callsNothingUnset_map (obj : ℕ) (acts : List (Act κ)) :
    CallsNothingUnset (acts.map (LayerAct.onSession obj)) ↔ acts.any Act.isBadCall = false := by
  rw [List.any_eq_false]
  constructor
  · intro h a ha hbad
    cases a with
    | badFunctionCall slot => exact h obj slot (List.mem_map_of_mem ha)
    | _ => cases hbad
  · intro h o slot hm
    obtain ⟨a, ha, he⟩ := List.mem_map.mp hm
    cases he
    exact h _ ha rfl

theorem callsNothingUnset_of_quiet {acts : List (LayerAct κ)}
    (h : ∀ a ∈ acts, ∀ obj slot, a ≠ .onSession obj (.badFunctionCall slot)) :
    CallsNothingUnset acts :=
  fun obj slot hm => h _ hm obj slot rfl

theorem processPacket_unset {t t' : Layer κ} {i : ℕ} {us : BitVec 64} {rs rd : Bool}
    {acts : List (LayerAct κ)} (made : layerStep t (.processPacket i us rs rd) = some (t', acts)) :
    CallsNothingUnset acts ↔ CallsSet ⟨t, .processPacket i us rs rd, acts⟩ := by
  unfold layerStep at made
  split at made
  · cases made
  · simp only [runningStep, processPacket] at made
    split at made
    · cases made
    · next pkt inWork =>
      have hcall : (LayerEvent.processPacket i us rs rd : LayerEvent κ).callOf t =
          some (t.call pkt us rs rd) := by
        simp [LayerEvent.callOf, inWork]
      split at made
      · next hnone =>
        cases made
        refine iff_of_true (callsNothingUnset_of_quiet fun a ha obj slot he => ?_) ⟨?_, ?_⟩
        · have hp := sendRstForPort_plain t.idev pkt a ha
          rw [he] at hp
          cases hp
        · intro c hc obj found
          obtain rfl := Option.some.inj (hcall.symm.trans hc)
          cases hnone.symm.trans found
        · simp [LayerEvent.enders]
      · next obj found =>
        split at made
        · next ts tsEcr alive options =>
          cases made
          rw [callsNothingUnset_map, processSegment_bad]
          constructor
          · intro h
            refine ⟨fun c hc obj' found' ts' alive' handler hl => ?_, by simp [LayerEvent.enders]⟩
            obtain rfl := Option.some.inj (hcall.symm.trans hc)
            obtain rfl := Option.some.inj (found.symm.trans found')
            obtain rfl := Option.some.inj (alive.symm.trans alive')
            rw [show (t.call pkt us rs rd).listener = some handler from hl] at h
            exact h
          · rintro ⟨h, -⟩
            cases hl : (t.call pkt us rs rd).listener with
            | none => rfl
            | some handler => exact h _ hcall obj found ts alive handler hl
        · cases made

theorem freeTcpSession_unset (listeners : Std.TreeMap ℤ (PortHandler κ)) (obj : ℕ)
    (ts : TcpSession) : CallsNothingUnset (freeTcpSession listeners obj ts) := by
  refine callsNothingUnset_of_quiet fun a ha o slot he => ?_
  subst he
  rw [freeTcpSession_eq] at ha
  rcases List.mem_append.mp ha with ha | ha
  · obtain ⟨b, hb, he⟩ := List.mem_map.mp ha
    cases he
    unfold closeCalls at hb
    split at hb
    · cases hb
    · simp at hb
  · simp at ha

theorem sessionEnder_unset {t t' : Layer κ} {acts : List (LayerAct κ)}
    (made : layerStep t .sessionEnder = some (t', acts)) :
    CallsNothingUnset acts ↔ CallsSet ⟨t, .sessionEnder, acts⟩ := by
  have hfree := freeTcpSession_unset t.listeners
  unfold layerStep at made
  split at made
  · cases made
  · simp only [runningStep, sessionEnder] at made
    split at made
    · cases made
    · next obj rest queue =>
      split at made
      · cases made
      · next ts alive =>
        have hobj : (LayerEvent.sessionEnder : LayerEvent κ).enders t = some obj := by
          simp [LayerEvent.enders, queue]
        have hset : CallsSet (⟨t, .sessionEnder, acts⟩ : LayerMove κ) ↔
            ∀ handler ∈ t.listeners[portNr ts.myPort]?, handler.sessionClosed2.isSome = true := by
          constructor
          · rintro ⟨-, h⟩
            exact h obj hobj ts alive
          · intro h
            refine ⟨by simp [LayerEvent.callOf], fun o ho s hs => ?_⟩
            obtain rfl := Option.some.inj (hobj.symm.trans ho)
            obtain rfl := Option.some.inj (alive.symm.trans hs)
            exact h
        rw [hset]
        split at made
        · next hnone =>
          cases made
          exact iff_of_true (hfree obj ts) (by simp [hnone])
        · next handler hl =>
          split at made
          · next empty =>
            cases made
            refine iff_of_false (fun h => h obj .sessionClosed2 (by simp)) (fun h => ?_)
            have := h handler hl
            simp [empty] at this
          · next cb set =>
            cases made
            refine iff_of_true (fun o slot hm => ?_) (fun h hh => ?_)
            · rcases List.mem_cons.mp hm with he | hm
              · cases he
              · exact hfree obj ts o slot hm
            · obtain rfl := Option.some.inj (hl.symm.trans hh)
              simp [set]

theorem other_unset {t t' : Layer κ} {e : LayerEvent κ} {acts : List (LayerAct κ)}
    (made : layerStep t e = some (t', acts)) (hcall : e.callOf t = none)
    (hender : e.enders t = none) : CallsNothingUnset acts := by
  cases (layerStep_change made).2.2 with
  | quiet _ _ _ _ _ _ _ plain =>
    refine callsNothingUnset_of_quiet fun a ha obj slot he => ?_
    have hp := plain a ha
    rw [he] at hp
    cases hp
  | notRemoved => exact fun _ _ hm => by cases hm
  | process i us rs rd pkt obj ts tsEcr w inWork =>
    simp [LayerEvent.callOf, inWork] at hcall
  | session _ obj ts ts' se acts source _ hstep =>
    intro o slot hm
    obtain ⟨-, ha⟩ := map_onSession_mem hm
    obtain ⟨c, tsEcr, rfl, -⟩ := sessionStep_callback hstep ha rfl
    exact absurd source sessionEvent_ne_segment
  | server => exact fun _ _ hm => by simp at hm
  | client idev us newData closed2 dstAddr dstPort localPort random ts acts _ opens =>
    rw [openClientSession, Prod.mk.injEq] at opens
    intro o slot hm
    rcases List.mem_cons.mp hm with he | hm
    · cases he
    · obtain ⟨-, ha⟩ := map_onSession_mem hm
      rw [← opens.2] at ha
      simp [sendSegment] at ha
  | ending => exact fun _ _ hm => by cases hm
  | freeing obj rest ts queue => simp [LayerEvent.enders, queue] at hender
  | crash obj rest ts handler queue => simp [LayerEvent.enders, queue] at hender
  | stop => exact fun _ _ hm => by cases hm

theorem layerStep_unset {t t' : Layer κ} {e : LayerEvent κ} {acts : List (LayerAct κ)}
    (made : layerStep t e = some (t', acts)) : CallsNothingUnset acts ↔ CallsSet ⟨t, e, acts⟩ := by
  have hother : e.callOf t = none → e.enders t = none →
      (CallsNothingUnset acts ↔ CallsSet ⟨t, e, acts⟩) := by
    intro hcall hender
    exact iff_of_true (other_unset made hcall hender) ⟨by simp [hcall], by simp [hender]⟩
  cases e with
  | processPacket => exact processPacket_unset made
  | sessionEnder => exact sessionEnder_unset made
  | _ => exact hother rfl rfl

/-- A run of the layer calls no callback that is not set if and only if every step finds the
callbacks that it is about to call. -/
theorem callbacks_set_iff {t : Layer κ} {tr : List (LayerMove κ)} (run : Run layerStep {} tr t) :
    (∀ m ∈ tr, CallsNothingUnset m.output) ↔ ∀ m ∈ tr, CallsSet m := by
  have heach : ∀ m ∈ tr, (CallsNothingUnset m.output ↔ CallsSet m) := by
    intro m hm
    obtain ⟨pre, post, u, -, -, made⟩ := run.move_origin m hm
    exact layerStep_unset made
  exact ⟨fun h m hm => (heach m hm).mp (h m hm), fun h m hm => (heach m hm).mpr (h m hm)⟩

/-- A service that has all its callbacks refuses the data of its peer. -/
theorem callbacks_set_refused_data :
    ∃ (tr : List (LayerMove Unit)) (t : Layer Unit), Run layerStep {} tr t ∧
      (∀ m ∈ tr, CallsSet m) ∧ .sessionClosed1 () ∈ log tr 0 ∧
      ∀ m ∈ tr, CallsNothingUnset m.output := by
  let events : List (LayerEvent Unit) :=
    Sample.service ++ Sample.receive 1 (Sample.packet 1000 0 flagSyn 100 []) ++
      Sample.receive 2 (Sample.packet 1001 501 flagAck 100 []) ++
      [.arrivePacket (Sample.packet 1001 501 flagAck 100 [7]) 500,
        .processPacket 0 3 true false, .removePacket 0, .sessionEnder]
  obtain ⟨tr, t, run, ok, hany⟩ := exists_run_of_exec layerStep {} events
    (fun tr _ => (∀ m ∈ tr, CallsSet m) ∧ (log tr 0).any Act.isSessionClosed1 = true)
    (by decide +kernel)
  obtain ⟨a, ha, hx⟩ := List.any_eq_true.mp hany
  refine ⟨tr, t, run, ok, ?_, (callbacks_set_iff run).mpr ok⟩
  cases a with
  | sessionClosed1 cb => exact ha
  | _ => cases hx

/-- The call of a callback that is not set, for the object `obj`. -/
def LayerAct.callsEmpty (obj : ℕ) (slot : Slot) : LayerAct κ → Bool
  | .onSession o (.badFunctionCall s) => o == obj && s == slot
  | _ => false

theorem callsEmpty_eq {obj : ℕ} {slot : Slot} {a : LayerAct κ} (h : a.callsEmpty obj slot = true) :
    a = .onSession obj (.badFunctionCall slot) := by
  unfold LayerAct.callsEmpty at h
  split at h
  · simp only [Bool.and_eq_true, beq_iff_eq] at h
    rw [h.1, h.2]
  · cases h

/-- The `new_data` of a client session refuses a byte: `session_closed_1` is not set for its port,
and is called. -/
theorem client_refusing_data_calls_unset :
    ∃ (tr : List (LayerMove Unit)) (t : Layer Unit), Run layerStep {} tr t ∧
      ∃ m ∈ tr, .onSession 0 (.badFunctionCall .sessionClosed1) ∈ m.output := by
  let fromPeer (seq : BitVec 32) (flags : Byte) (data : List Byte) : Packet :=
    ⟨Sample.peer, Sample.host, bareSegment 0 80 5900 seq 1 flags 100 data, []⟩
  let events : List (LayerEvent Unit) :=
    [.registerIp Sample.device, .allocateClientSession 1 () () Sample.peer 80 5900 0] ++
      Sample.receive 2 (fromPeer 700 (flagSyn ||| flagAck) []) ++
      [.arrivePacket (fromPeer 701 flagAck [7]) 500, .processPacket 0 3 true false]
  obtain ⟨tr, t, run, m, hm, hbad⟩ := exists_run_of_exec layerStep {} events
    (fun tr _ => ∃ m ∈ tr, m.output.any (LayerAct.callsEmpty 0 .sessionClosed1) = true)
    (by decide +kernel)
  obtain ⟨a, ha, hx⟩ := List.any_eq_true.mp hbad
  refine ⟨tr, t, run, m, hm, ?_⟩
  rw [← callsEmpty_eq hx]
  exact ha

end MyIp.Tcp
