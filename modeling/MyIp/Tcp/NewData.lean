import MyIp.Tcp.ReceiveStream
import MyIp.Tcp.Removal

/-! # Which `new_data` is invoked, and when

The payload of a segment is handed to the `new_data` of the handler that is registered for the
segment's destination port, whenever its sequence number is the expected one. For a server session
that should not be before `new_session` accepted the session, and for a client session it should be
the callback that its `allocate_client_session` was given. The code asks for neither; the two
results say what the steps of a run have to satisfy for it. -/

namespace MyIp.Tcp
open Bytes EventMachine
set_option autoImplicit false

variable {κ : Type}

/-! ## The handshake -/

/-- `new_session` was not invoked yet. -/
def TcpState.inHandshake : TcpState → Bool
  | listen => true
  | synRcvd => true
  | _ => false

/-- The segment makes a session in the state `s` established. -/
def completesHandshake (pkt : Packet) (s : TcpState) : Bool :=
  Segment.headerSize pkt.data ≤ pkt.data.length && Segment.hasAck pkt.data &&
    ((s == .listen && Segment.hasSyn pkt.data) || (s == .synRcvd && !Segment.hasRst pkt.data))

/-- `new_session` returned false, or the session left the handshake without being established. -/
def Act.refuses : Act κ → Bool
  | .newSession _ rc => !rc
  | .stateChange old new => old.inHandshake && !new.inHandshake && new != .established
  | _ => false

def Refused (acts : List (Act κ)) : Prop := ∃ a ∈ acts, a.refuses = true

instance (acts : List (Act κ)) : Decidable (Refused acts) :=
  inferInstanceAs (Decidable (∃ a ∈ acts, a.refuses = true))

theorem Refused.mono {l l' : List (Act κ)} (h : Refused l) (hsub : l ⊆ l') : Refused l' := by
  obtain ⟨a, ha, hr⟩ := h
  exact ⟨a, hsub ha, hr⟩

theorem refused_of_change {l : List (Act κ)} (old new : TcpState) (h : .stateChange old new ∈ l)
    (hold : old.inHandshake = true) (hnew : new.inHandshake = false) (hne : new ≠ .established) :
    Refused l :=
  ⟨_, h, by simp [Act.refuses, hold, hnew, hne]⟩

theorem finStages_handshake {c : Call κ} {w : Work κ} (tsEcr : BitVec 32)
    (h : w.session.state.inHandshake = true) :
    (ackFin c tsEcr (receiveFin c w)).session.state.inHandshake = true ∨
      Refused (ackFin c tsEcr (receiveFin c w)).acts := by
  have hfin : receiveFin c w = w := by
    rcases receiveFin_cases c w with ⟨-, he⟩ | ⟨-, hs, -⟩
    · exact he
    · rw [hs] at h
      cases h
  rw [hfin]
  rcases ackFin_cases c tsEcr w with ⟨-, he⟩ | ⟨-, -, he⟩
  · rw [he]
    exact .inl h
  · rw [he]
    refine .inr (refused_of_change w.session.state .finWait2 ?_ h rfl (by simp))
    simp [Work.setState, send_session]

theorem finStages_keep {c : Call κ} {w : Work κ} (tsEcr : BitVec 32)
    (hg : w.session.state.group ≠ none) :
    w.acts ⊆ (ackFin c tsEcr (receiveFin c w)).acts ∧
      (ackFin c tsEcr (receiveFin c w)).fail = w.fail := by
  have hfin := receiveFin_passage (c.listener.bind (·.newSession)) c w
  obtain ⟨new, ha, -⟩ := hfin.trans (ackFin_passage _ c tsEcr _ (hfin.group_ne_none hg))
  refine ⟨by rw [ha]; exact List.subset_append_left .., ?_⟩
  have h1 : (receiveFin c w).fail = w.fail := by
    unfold receiveFin
    split <;> rfl
  rw [← h1]
  unfold ackFin
  split <;> rfl

/-- The ACK of the handshake: the application accepts the session, or refuses it and the session
fails, or there is nobody to ask. -/
theorem ackSynRcvd_asks (c : Call κ) (w : Work κ) :
    (∃ cb, .newSession cb true ∈ (ackSynRcvd c w).acts) ∨
      ((∃ cb, .newSession cb false ∈ (ackSynRcvd c w).acts) ∧ (ackSynRcvd c w).fail = true) ∨
      (c.listener.bind (·.newSession)).isSome = false := by
  rcases ackSynRcvd_acts c w with ⟨-, hnone⟩ | ⟨handler, cb, hl, hc, ha, hf⟩
  · refine .inr (.inr ?_)
    cases hl : c.listener with
    | none => rfl
    | some handler => simp [hnone handler hl]
  · rw [ha, hf]
    cases hrc : c.newSessionRc with
    | true => exact .inl ⟨cb, by simp⟩
    | false => exact .inr (.inl ⟨⟨cb, by simp⟩, by simp⟩)

theorem receiveAck_handshake {c : Call κ} {w : Work κ} (tsEcr : BitVec 32)
    (h : w.session.state.inHandshake = true) (hdel : w.deleteEntry = false) :
    (Segment.hasAck c.pkt.data = true ∧ w.session.state = .synRcvd ∧
      (receiveAck c tsEcr w).acts = (ackSynRcvd c w).acts ∧
      (receiveAck c tsEcr w).fail = (ackSynRcvd c w).fail) ∨
    (¬(Segment.hasAck c.pkt.data = true ∧ w.session.state = .synRcvd) ∧
      (receiveAck c tsEcr w).session.state.inHandshake = true) := by
  rcases receiveAck_cases c tsEcr w with ⟨hno, he⟩ | ⟨hack, -, he⟩
  · rw [he]
    exact .inr ⟨fun hx => hno ⟨hx.1, hdel⟩, h⟩
  · rw [he]
    rcases ackByState_cases c tsEcr w with
      ⟨hs, -⟩ | ⟨hs, hb⟩ | ⟨hs, -⟩ | ⟨hs, -⟩ | ⟨-, hs, -, -, hb⟩
    · rw [hs] at h
      cases h
    · exact .inl ⟨hack, hs, by rw [hb], by rw [hb]⟩
    · rw [hs] at h
      cases h
    · rw [hs] at h
      cases h
    · refine .inr ⟨fun hx => hs hx.2, ?_⟩
      rw [hb]
      exact h

/-- After the SYN stage a session in the handshake is in `tcp_syn_rcvd` if and only if it was there
or has just got the SYN. -/
theorem receiveSyn_handshake {c : Call κ} {ts : TcpSession} (tsEcr : BitVec 32)
    (h : ts.state.inHandshake = true) :
    (receiveSyn c tsEcr (beginSegment c ts)).session.state.inHandshake = true ∧
      (receiveSyn c tsEcr (beginSegment c ts)).deleteEntry = false ∧
      ((receiveSyn c tsEcr (beginSegment c ts)).session.state = .synRcvd ↔
        (ts.state = .listen ∧ Segment.hasSyn c.pkt.data = true) ∨ ts.state = .synRcvd) := by
  rcases receiveSyn_cases c tsEcr (beginSegment c ts) with ⟨hsyn, hs⟩ | ⟨hsyn, -, hor, hs⟩
  · rw [hs]
    refine ⟨h, rfl, fun hx => .inr hx, ?_⟩
    rintro (⟨hl, hx⟩ | hx)
    · exact absurd ⟨hx, rfl, .inl hl⟩ hsyn
    · exact hx
  · rw [hs]
    refine ⟨rfl, rfl, fun _ => ?_, fun _ => rfl⟩
    exact hor.imp (fun hl => ⟨hl, hsyn⟩) id

theorem group_inHandshake {s : TcpState} (h : s.inHandshake = true) : s.group ≠ none := by
  cases s <;> simp_all [TcpState.inHandshake, TcpState.group]

/-- What the flags of a segment do to a session in the handshake. -/
theorem processFlags_handshake {c : Call κ} {ts : TcpSession} (tsEcr : BitVec 32)
    (h : ts.state.inHandshake = true) :
    (completesHandshake c.pkt ts.state = true ∧
      ((∃ cb, .newSession cb true ∈ (processFlags c tsEcr (beginSegment c ts)).acts) ∨
        (Refused (processFlags c tsEcr (beginSegment c ts)).acts ∧
          (processFlags c tsEcr (beginSegment c ts)).fail = true) ∨
        (c.listener.bind (·.newSession)).isSome = false)) ∨
    (completesHandshake c.pkt ts.state = false ∧
      ((processFlags c tsEcr (beginSegment c ts)).session.state.inHandshake = true ∨
        Refused (processFlags c tsEcr (beginSegment c ts)).acts)) := by
  unfold processFlags
  split
  · next hf =>
    have hlong : c.pkt.data.length < Segment.headerSize c.pkt.data := by
      simpa [beginSegment] using hf
    exact .inr ⟨by simp [completesHandshake, hlong], .inl h⟩
  · next hf =>
    have fits : Segment.headerSize c.pkt.data ≤ c.pkt.data.length := by
      simpa [beginSegment] using hf
    rcases receiveRst_cases c (beginSegment c ts) with ⟨hrst, he⟩ | ⟨hrst, hrank, he⟩
    · obtain ⟨hw, hdel, hrcvd⟩ := receiveSyn_handshake (c := c) tsEcr h
      have hcomplete : completesHandshake c.pkt ts.state = true ↔ Segment.hasAck c.pkt.data = true ∧
          (receiveSyn c tsEcr (beginSegment c ts)).session.state = .synRcvd := by
        have hnot : ts.state = .synRcvd → Segment.hasRst c.pkt.data = false := by
          intro hs
          have hs' : (beginSegment c ts).session.state = .synRcvd := hs
          simpa [hs'] using hrst
        rw [hrcvd, completesHandshake]
        simp only [Bool.and_eq_true, Bool.or_eq_true, decide_eq_true_eq, beq_iff_eq, fits, true_and,
          Bool.not_eq_true']
        constructor
        · rintro ⟨hack, hx | hx⟩
          · exact ⟨hack, .inl hx⟩
          · exact ⟨hack, .inr hx.1⟩
        · rintro ⟨hack, hx | hx⟩
          · exact ⟨hack, .inl hx⟩
          · exact ⟨hack, .inr ⟨hx, hnot hx⟩⟩
      rw [he]
      have hgroup := (receiveAck_passage c tsEcr _ (group_inHandshake hw)).group_ne_none
        (group_inHandshake hw)
      obtain ⟨hsub, hfail⟩ := finStages_keep (c := c) tsEcr hgroup
      rcases receiveAck_handshake tsEcr hw hdel with ⟨hack, hs, ha, hf⟩ | ⟨hno, hin⟩
      · refine .inl ⟨hcomplete.mpr ⟨hack, hs⟩, ?_⟩
        rw [ha] at hsub
        rw [hf] at hfail
        rcases ackSynRcvd_asks c (receiveSyn c tsEcr (beginSegment c ts)) with
          ⟨cb, hcb⟩ | ⟨⟨cb, hcb⟩, hx⟩ | hnone
        · exact .inl ⟨cb, hsub hcb⟩
        · exact .inr (.inl ⟨⟨_, hsub hcb, rfl⟩, hfail.trans hx⟩)
        · exact .inr (.inr hnone)
      · refine .inr ⟨?_, finStages_handshake tsEcr hin⟩
        rw [Bool.eq_false_iff]
        exact fun hx => hno (hcomplete.mp hx)
    · -- a RST in `tcp_syn_rcvd`
      have hstate : ts.state = .synRcvd := by
        have hr : TcpState.synRcvd.rank ≤ ts.state.rank := hrank
        revert h hr
        cases ts.state <;> simp [TcpState.inHandshake, TcpState.rank]
      refine .inr ⟨by simp [completesHandshake, hstate, hrst], .inr ?_⟩
      have hg : (receiveRst c (beginSegment c ts)).session.state.group ≠ none := by
        rw [he]
        simp [Work.setState, setState, TcpState.group]
      have hsyn := receiveSyn_passage (c.listener.bind (·.newSession)) c tsEcr
        (receiveRst c (beginSegment c ts))
      have hpass := hsyn.trans (receiveAck_passage c tsEcr _ (hsyn.group_ne_none hg))
      have hkeep := finStages_keep (c := c) tsEcr (hpass.group_ne_none hg)
      obtain ⟨new, ha, -⟩ := hpass
      refine (refused_of_change .synRcvd .closing ?_ rfl rfl (by simp)).mono hkeep.1
      rw [ha, he]
      simp [Work.setState, beginSegment, hstate]

/-! ## Delivery after acceptance -/

/-- Every invocation of `new_data` comes after a `new_session` that returned true. -/
def Introduced (acts : List (Act κ)) : Prop :=
  ∀ pre cb d rc post, acts = pre ++ .newData cb d rc :: post → ∃ cb', .newSession cb' true ∈ pre

theorem Introduced.append {l l' : List (Act κ)} (h : Introduced l)
    (h' : (∃ cb, .newSession cb true ∈ l) ∨ Introduced l') : Introduced (l ++ l') := by
  intro pre cb d rc post he
  rcases List.append_eq_append_iff.mp he with ⟨mid, rfl, hl'⟩ | ⟨mid, rfl, hl⟩
  · rcases h' with ⟨cb', hcb⟩ | h'
    · exact ⟨cb', List.mem_append_left _ hcb⟩
    · obtain ⟨cb', hcb⟩ := h' mid cb d rc post hl'
      exact ⟨cb', List.mem_append_right _ hcb⟩
  · cases mid with
    | nil =>
      rw [List.append_nil] at h h'
      rw [List.nil_append] at hl
      rcases h' with hold | h'
      · exact hold
      · obtain ⟨cb', hcb⟩ := h' [] cb d rc post hl.symm
        cases hcb
    | cons a mid =>
      obtain ⟨rfl, -⟩ := List.cons.inj hl
      exact h pre cb d rc mid rfl

theorem Introduced.silent {l : List (Act κ)} (h : ∀ cb d rc, .newData cb d rc ∉ l) :
    Introduced l := by
  intro pre cb d rc post he
  exact absurd (by rw [he]; simp) (h cb d rc)

theorem Introduced.accepted {l : List (Act κ)} (h : Introduced l) (hd : delivered l ≠ []) :
    ∃ cb, .newSession cb true ∈ l := by
  obtain ⟨a, ha, hdata⟩ : ∃ a ∈ l, a.data ≠ [] := by
    by_contra hno
    push Not at hno
    exact hd (delivered_eq_nil hno)
  obtain ⟨cb, d, rc, rfl⟩ : ∃ cb d rc, a = .newData cb d rc := by
    cases a <;> simp_all [Act.data]
  obtain ⟨pre, post, rfl⟩ := List.append_of_mem ha
  obtain ⟨cb', hcb⟩ := h pre cb d rc post rfl
  exact ⟨cb', List.mem_append_left _ hcb⟩

/-- The segment's payload is the next data and there is a `new_data` for it. -/
def Delivers (listener : Option (PortHandler κ)) (pkt : Packet) (ts : TcpSession) : Prop :=
  Segment.headerSize pkt.data < pkt.data.length ∧ Segment.seqNr pkt.data = ts.theirSeqNr ∧
    (listener.bind (·.newData)).isSome = true

instance (listener : Option (PortHandler κ)) (pkt : Packet) (ts : TcpSession) :
    Decidable (Delivers listener pkt ts) :=
  inferInstanceAs (Decidable (Segment.headerSize pkt.data < pkt.data.length ∧
    Segment.seqNr pkt.data = ts.theirSeqNr ∧ (listener.bind (·.newData)).isSome = true))

/-- A segment that makes the layer invoke `new_data` for a session other than a connecting client.
The flags come first and did not fail. -/
theorem processSegment_newData {c : Call κ} {tsEcr : BitVec 32} {ts : TcpSession}
    (hs : ts.state ≠ .synSent) {pre post : List (Act κ)} {cb : κ} {d : List Byte} {rc : Bool}
    (h : (processSegment c tsEcr ts).acts = pre ++ .newData cb d rc :: post) :
    Delivers c.listener c.pkt ts ∧ (processFlags c tsEcr (beginSegment c ts)).fail = false ∧
      (processFlags c tsEcr (beginSegment c ts)).acts ⊆ pre := by
  obtain ⟨payload, ending, hacts, hflags, hpayload, hending⟩ := processSegment_split c tsEcr ts
  rw [hacts, List.append_assoc] at h
  have hrest : .newData cb d rc ∈ payload ++ ending ∧
      (processFlags c tsEcr (beginSegment c ts)).acts ⊆ pre := by
    rcases List.append_eq_append_iff.mp h with ⟨mid, rfl, hr⟩ | ⟨mid, hf, hr⟩
    · exact ⟨by rw [hr]; simp, List.subset_append_left ..⟩
    · cases mid with
      | nil =>
        rw [List.append_nil] at hf
        rw [List.nil_append] at hr
        exact ⟨by rw [← hr]; simp, by rw [hf]; exact List.Subset.refl _⟩
      | cons a mid =>
        obtain ⟨rfl, -⟩ := List.cons.inj hr
        have hflag := hflags (.newData cb d rc) (by rw [hf]; simp)
        obtain ⟨cb', rc', he⟩ := hflag.callback rfl
        cases he
  have hpay : .newData cb d rc ∈ payload := by
    rcases List.mem_append.mp hrest.1 with hp | hp
    · exact hp
    · cases hending _ hp with
      | reply _ _ hr => cases hr.not_callback
  have hseq := processFlags_theirSeqNr (c := c) tsEcr hs
  cases hpayload _ hpay with
  | newData handler _ hl hc expected running carries =>
    exact ⟨⟨carries, expected.trans hseq, by simp [hl, hc]⟩, running, hrest.2⟩
  | reply _ hr => cases hr.not_callback

/-- One segment for a session in the handshake. If it delivers something it completes the
handshake, and then there is a `new_session` to ask. -/
theorem processSegment_introduces {c : Call κ} {ts : TcpSession} (tsEcr : BitVec 32)
    (h : ts.state.inHandshake = true)
    (asks : completesHandshake c.pkt ts.state = true →
      (c.listener.bind (·.newSession)).isSome = true)
    (waits : Delivers c.listener c.pkt ts → completesHandshake c.pkt ts.state = true) :
    Introduced (processSegment c tsEcr ts).acts := by
  intro pre cb d rc post he
  have hs : ts.state ≠ .synSent := fun hx => by
    rw [hx] at h
    cases h
  obtain ⟨hdel, hfail, hsub⟩ := processSegment_newData hs he
  have hc := waits hdel
  rcases processFlags_handshake (c := c) tsEcr h with ⟨-, ⟨cb', hcb⟩ | ⟨-, hf⟩ | hnone⟩ | ⟨hno, -⟩
  · exact ⟨cb', hsub hcb⟩
  · rw [hfail] at hf
    cases hf
  · exact absurd (asks hc) (by simp [hnone])
  · rw [hc] at hno
    cases hno

theorem processSegment_leaves {c : Call κ} {ts : TcpSession} (tsEcr : BitVec 32)
    (h : ts.state.inHandshake = true)
    (asks : completesHandshake c.pkt ts.state = true →
      (c.listener.bind (·.newSession)).isSome = true) :
    (processSegment c tsEcr ts).session.state.inHandshake = true ∨
      (∃ cb, .newSession cb true ∈ (processSegment c tsEcr ts).acts) ∨
      Refused (processSegment c tsEcr ts).acts := by
  obtain ⟨us, term, hend⟩ := endSegment_session c tsEcr
    (processPayload c tsEcr (processFlags c tsEcr (beginSegment c ts)))
  obtain ⟨seq, us', hpay⟩ :=
    processPayload_session c tsEcr (processFlags c tsEcr (beginSegment c ts))
  obtain ⟨payload, ending, hacts, -, -, -⟩ := processSegment_split c tsEcr ts
  have hsub : (processFlags c tsEcr (beginSegment c ts)).acts ⊆
      (processSegment c tsEcr ts).acts := by
    rw [hacts, List.append_assoc]
    exact List.subset_append_left ..
  rcases processFlags_handshake (c := c) tsEcr h with ⟨hc, ⟨cb, hcb⟩ | ⟨href, -⟩ | hnone⟩ |
    ⟨-, hin | href⟩
  · exact .inr (.inl ⟨cb, hsub hcb⟩)
  · exact .inr (.inr (href.mono hsub))
  · exact absurd (asks hc) (by simp [hnone])
  · refine .inl ?_
    rw [processSegment, hend, hpay]
    exact hin
  · exact .inr (.inr (href.mono hsub))

/-! ## Where `new_data` is invoked in the layer -/

theorem layerStep_newData {t t' : Layer κ} {e : LayerEvent κ} {acts : List (LayerAct κ)}
    (made : layerStep t e = some (t', acts)) {obj : ℕ} {cb : κ} {d : List Byte} {rc : Bool}
    (h : .newData cb d rc ∈ actsOn obj acts) :
    ∃ i us rs rd pkt ts tsEcr, e = .processPacket i us rs rd ∧ t.handling[i]? = some pkt ∧
      t.sessions[pkt.key]? = some obj ∧ t.objects obj = some ts ∧
      actsOn obj acts = (processSegment (t.call pkt us rs rd) tsEcr ts).acts := by
  have hclosing : ∀ {l : List (Act κ)}, (∀ a ∈ l, a.isClosing = true) → .newData cb d rc ∉ l := by
    intro l hl hx
    have hc := hl _ hx
    cases hc
  have hc := layerStep_object made obj
  generalize actsOn obj acts = objActs at hc h
  cases hc with
  | still => cases h
  | segment i us rs rd pkt ts tsEcr event inWork found alive =>
    exact ⟨i, us, rs, rd, pkt, ts, tsEcr, event, inWork, found, alive, rfl⟩
  | session ts ts' se _ source _ hstep =>
    obtain ⟨c, tsEcr, rfl, -⟩ := sessionStep_callback hstep h rfl
    exact absurd source sessionEvent_ne_segment
  | created ts _ _ _ opened =>
    cases opened with
    | server => cases h
    | client => simp [openClientSession, sendSegment] at h
  | ended ts =>
    rcases List.mem_append.mp h with h | h
    · exact absurd h (hclosing (enderCalls_closing t.listeners ts))
    · exact absurd h (hclosing (closeCalls_closing t.listeners ts))
  | failed => simp at h

/-! ## Server sessions -/

/-- What is asked of a packet for the server session `ts`, to which `l` happened so far. If it
completes the handshake there is a `new_session` to ask; if it brings the next data before the
handshake is over, it completes it; and it does not bring the next data for a session that was
refused. -/
def AsksFirst (listener : Option (PortHandler κ)) (pkt : Packet) (ts : TcpSession)
    (l : List (Act κ)) : Prop :=
  (completesHandshake pkt ts.state = true → (listener.bind (·.newSession)).isSome = true) ∧
  (Delivers listener pkt ts → ts.state.inHandshake = true →
    completesHandshake pkt ts.state = true) ∧
  (Delivers listener pkt ts → ts.state.inHandshake = false → ¬Refused l)

instance (listener : Option (PortHandler κ)) (pkt : Packet) (ts : TcpSession) (l : List (Act κ)) :
    Decidable (AsksFirst listener pkt ts l) :=
  inferInstanceAs (Decidable (
    (completesHandshake pkt ts.state = true → (listener.bind (·.newSession)).isSome = true) ∧
    (Delivers listener pkt ts → ts.state.inHandshake = true →
      completesHandshake pkt ts.state = true) ∧
    (Delivers listener pkt ts → ts.state.inHandshake = false → ¬Refused l)))

/-- That of the step `m` after the run `pre`. -/
def NewDataOk (pre : List (LayerMove κ)) (m : LayerMove κ) : Prop :=
  ∀ pkt ∈ m.event.inWork m.before, ∀ obj ∈ m.before.sessions[pkt.key]?,
    ∀ ts ∈ m.before.objects obj, ts.isClient = false →
      AsksFirst (m.event.listener m.before) pkt ts (log pre obj)

instance (pre : List (LayerMove κ)) (m : LayerMove κ) : Decidable (NewDataOk pre m) :=
  inferInstanceAs (Decidable (∀ pkt ∈ m.event.inWork m.before,
    ∀ obj ∈ m.before.sessions[pkt.key]?, ∀ ts ∈ m.before.objects obj, ts.isClient = false →
      AsksFirst (m.event.listener m.before) pkt ts (log pre obj)))

/-- The application has accepted or refused the session, or the handshake was aborted. -/
def Decided (acts : List (Act κ)) : Prop := (∃ cb, .newSession cb true ∈ acts) ∨ Refused acts

theorem Decided.mono {l l' : List (Act κ)} (h : Decided l) (hsub : l ⊆ l') : Decided l' := by
  rcases h with ⟨cb, hcb⟩ | h
  · exact .inl ⟨cb, hsub hcb⟩
  · exact .inr (h.mono hsub)

theorem sessionStep_decided {ts ts' : TcpSession} {e : SessionEvent κ} {acts : List (Act κ)}
    (made : sessionStep ts e = some (ts', acts)) (hne : ∀ c, e ≠ .segment c)
    (h : ts.state.inHandshake = true) : ts'.state.inHandshake = true ∨ Decided acts := by
  cases sessionStep_change made with
  | segment c => exact absurd rfl (hne c)
  | append => exact .inl h
  | fin => exact .inr (.inr (refused_of_change ts.state .finWait1 (by simp) h rfl (by simp)))
  | visit idev now us rc _ _ visited =>
    obtain ⟨last, r, t, -, rfl⟩ := unackedVisit_session visited
    exact .inl h
  | wait => exact .inl h
  | quiet => exact .inl h

/-- What holds of every server session that exists: nothing was delivered before it was accepted,
and it is decided as soon as it has left the handshake. -/
structure ServerInv (tr : List (LayerMove κ)) (obj : ℕ) (ts : TcpSession) : Prop where
  introduced : Introduced (log tr obj)
  decided : ts.state.inHandshake = true ∨ Decided (log tr obj)
  passive : ts.state ≠ .synSent

theorem ServerInv.segment {tr : List (LayerMove κ)} {m : LayerMove κ} {obj : ℕ} {ts : TcpSession}
    {c : Call κ} {tsEcr : BitVec 32} (h : ServerInv tr obj ts) (hg : ts.state.group ≠ none)
    (ok : AsksFirst c.listener c.pkt ts (log tr obj))
    (hacts : actsOn obj m.output = (processSegment c tsEcr ts).acts) :
    ServerInv (tr ++ [m]) obj (processSegment c tsEcr ts).session := by
  obtain ⟨asks, waits, stays⟩ := ok
  have hleft : log tr obj ⊆ log tr obj ++ (processSegment c tsEcr ts).acts :=
    List.subset_append_left ..
  have hright : (processSegment c tsEcr ts).acts ⊆ log tr obj ++ (processSegment c tsEcr ts).acts :=
    List.subset_append_right ..
  refine ⟨?_, ?_, ?_⟩
  · rw [log_snoc, hacts]
    apply h.introduced.append
    rcases h.decided with hin | ⟨hacc⟩ | href
    · exact .inr (processSegment_introduces tsEcr hin asks fun hd => waits hd hin)
    · exact .inl hacc
    · refine .inr fun pre cb d rc post he => ?_
      have hdel := (processSegment_newData h.passive he).1
      cases hin : ts.state.inHandshake with
      | true =>
        exact processSegment_introduces tsEcr hin asks (fun hd => waits hd hin) pre cb d rc post he
      | false => exact absurd href (stays hdel hin)
  · rw [log_snoc, hacts]
    rcases h.decided with hin | hd
    · rcases processSegment_leaves (c := c) tsEcr hin asks with hin' | hacc | href
      · exact .inl hin'
      · exact .inr (Decided.mono (.inl hacc) hright)
      · exact .inr (Decided.mono (.inr href) hright)
    · exact .inr (hd.mono hleft)
  · intro hs
    have hl : ts.state ≠ .lastAck := fun hx => hg (by rw [hx]; rfl)
    exact h.passive ((processSegment_after (c := c) tsEcr hl).active hs).1

theorem ServerInv.silent {tr : List (LayerMove κ)} {m : LayerMove κ} {obj : ℕ} {ts : TcpSession}
    (h : ServerInv tr obj ts) (hsilent : ∀ cb d rc, .newData cb d rc ∉ actsOn obj m.output) :
    ServerInv (tr ++ [m]) obj ts := by
  refine ⟨?_, h.decided.imp id fun hd => ?_, h.passive⟩
  · rw [log_snoc]
    exact h.introduced.append (.inr (Introduced.silent hsilent))
  · rw [log_snoc]
    exact hd.mono (List.subset_append_left ..)

theorem ServerInv.event {tr : List (LayerMove κ)} {m : LayerMove κ} {obj : ℕ} {ts ts' : TcpSession}
    {e : SessionEvent κ} (h : ServerInv tr obj ts) (hg : ts.state.group ≠ none)
    (hne : ∀ c, e ≠ .segment c) (made : sessionStep ts e = some (ts', actsOn obj m.output)) :
    ServerInv (tr ++ [m]) obj ts' := by
  have hsilent : ∀ cb d rc, .newData cb d rc ∉ actsOn obj m.output := by
    intro cb d rc hx
    obtain ⟨c, -, he, -⟩ := sessionStep_callback made hx rfl
    exact hne c he
  have hold := h.silent hsilent
  refine ⟨hold.introduced, ?_, fun hs => h.passive (sessionStep_synSent made hg hs)⟩
  rcases h.decided with hin | hd
  · rcases sessionStep_decided made hne hin with hin' | hd
    · exact .inl hin'
    · rw [log_snoc]
      exact .inr (hd.mono (List.subset_append_right ..))
  · rw [log_snoc]
    exact .inr (hd.mono (List.subset_append_left ..))

theorem layer_run_serverInv {t : Layer κ} {tr : List (LayerMove κ)} (run : Run layerStep {} tr t)
    (ok : Throughout NewDataOk tr) {obj : ℕ} {ts : TcpSession} (alive : t.objects obj = some ts)
    (server : ts.isClient = false) : ServerInv tr obj ts := by
  induction run generalizing ts with
  | nil => cases alive
  | @snoc tr t t' e acts run made ih =>
    obtain ⟨hold, hlast⟩ := ok.snoc
    have hc := layerStep_object made obj
    generalize hacts : actsOn obj acts = objActs at hc
    cases hc with
    | still same =>
      exact (ih hold (same ▸ alive) server).silent (by simp [hacts])
    | segment i us rs rd pkt s tsEcr event inWork found hs _ alive' =>
      obtain rfl := Option.some.inj (alive'.symm.trans alive)
      have hserver : s.isClient = false := by
        rw [← server]
        exact (key_of_identity (processSegment_identity _ tsEcr s)).2.2.symm
      refine (ih hold hs hserver).segment (layer_run_group run hs) ?_ hacts
      have hwork : e.inWork t = some pkt := by rw [event]; exact inWork
      have hok := hlast pkt hwork obj found s hs hserver
      rw [LayerEvent.listener, hwork] at hok
      exact hok
    | session s _ se _ source hs hstep alive' =>
      obtain rfl := Option.some.inj (alive'.symm.trans alive)
      have hserver : s.isClient = false := by
        rw [← server]
        exact (key_of_identity (sessionStep_identity hstep)).2.2.symm
      refine (ih hold hs hserver).event (layer_run_group run hs) ?_ (hacts ▸ hstep)
      rintro c rfl
      exact sessionEvent_ne_segment source
    | created s _ new _ opened alive' =>
      obtain rfl := Option.some.inj (alive'.symm.trans alive)
      have hlog := ((layer_run_projects run).fresh obj (Nat.le_of_eq new.symm)).2
      cases opened with
      | server pkt id isn =>
        refine ⟨?_, .inl rfl, by simp [newServerSession]⟩
        rw [log_snoc, hlog, hacts]
        exact Introduced.silent (by simp)
      | client => cases server
    | ended _ _ _ gone => cases gone.symm.trans alive
    | failed s hs alive' =>
      obtain rfl := Option.some.inj (alive'.symm.trans alive)
      exact (ih hold hs server).silent (by simp [hacts])

/-- In every run in which data reaches a server session only together with or after the end of its
handshake, and never after the session was refused, `new_data` is invoked for a server session only
after its `new_session` returned true. -/
theorem new_data_after_new_session {t : Layer κ} {tr : List (LayerMove κ)}
    (run : Run layerStep {} tr t) (ok : Throughout NewDataOk tr) {obj : ℕ} {ts : TcpSession}
    (alive : t.objects obj = some ts) (server : ts.isClient = false) : Introduced (log tr obj) :=
  (layer_run_serverInv run ok alive server).introduced

/-- The ACK that completes the handshake brings the first byte. -/
theorem new_data_after_new_session_first_byte :
    ∃ (tr : List (LayerMove Unit)) (t : Layer Unit) (ts : TcpSession), Run layerStep {} tr t ∧
      Throughout NewDataOk tr ∧ t.objects 0 = some ts ∧ ts.isClient = false ∧
      delivered (log tr 0) = [7] ∧ Introduced (log tr 0) := by
  let events : List (LayerEvent Unit) :=
    Sample.service ++ Sample.receive 1 (Sample.packet 1000 0 flagSyn 100 []) ++
      Sample.receive 2 (Sample.packet 1001 501 flagAck 100 [7])
  obtain ⟨tr, t, run, ok, hts, hdata⟩ := exists_run_of_exec layerStep {} events
    (fun tr t => Throughout NewDataOk tr ∧ (t.objects 0).map (·.isClient) = some false ∧
      delivered (log tr 0) = [7])
    (by decide +kernel)
  obtain ⟨ts, alive, server⟩ := Option.map_eq_some_iff.mp hts
  exact ⟨tr, t, ts, run, ok, alive, server, hdata,
    new_data_after_new_session run ok alive server⟩

/-- A SYN, and then the first byte without an ACK: it is delivered, although `new_session` was never
invoked. -/
theorem data_before_new_session :
    ∃ (tr : List (LayerMove Unit)) (t : Layer Unit) (ts : TcpSession), Run layerStep {} tr t ∧
      t.objects 0 = some ts ∧ ts.isClient = false ∧ delivered (log tr 0) = [7] ∧
      (log tr 0).countP Act.isNewSession = 0 ∧ ¬Introduced (log tr 0) := by
  let events : List (LayerEvent Unit) :=
    Sample.service ++ Sample.receive 1 (Sample.packet 1000 0 flagSyn 100 []) ++
      Sample.receive 2 (Sample.packet 1001 0 8 100 [7])
  obtain ⟨tr, t, run, hts, hdata, hnone⟩ := exists_run_of_exec layerStep {} events
    (fun tr t => (t.objects 0).map (·.isClient) = some false ∧ delivered (log tr 0) = [7] ∧
      (log tr 0).countP Act.isNewSession = 0)
    (by decide +kernel)
  obtain ⟨ts, alive, server⟩ := Option.map_eq_some_iff.mp hts
  refine ⟨tr, t, ts, run, alive, server, hdata, hnone, fun h => ?_⟩
  obtain ⟨cb, hcb⟩ := h.accepted (by rw [hdata]; simp)
  exact absurd rfl (List.countP_eq_zero.mp hnone _ hcb)

/-! ## Client sessions -/

def LayerEvent.allocates : LayerEvent κ → Option (κ × BitVec 16)
  | .allocateClientSession _ newData _ _ _ localPort _ => some (newData, localPort)
  | _ => none

/-- The run allocated the client session at `obj`, with `cb` for its data. -/
def AllocatedWith (tr : List (LayerMove κ)) (obj : ℕ) (cb : κ) : Prop :=
  ∃ m ∈ tr, m.before.next = obj ∧ ∃ port, m.event.allocates = some (cb, port)

/-- What is asked of a step: no other `new_data` is registered for the port of a new client session,
and data that reaches a client session is addressed to the port of that session. -/
def OwnPort (m : LayerMove κ) : Prop :=
  (∀ a ∈ m.event.allocates, ∀ handler ∈ m.before.listeners[portNr a.2]?,
    handler.newData = some a.1) ∧
  ∀ pkt ∈ m.event.inWork m.before, ∀ obj ∈ m.before.sessions[pkt.key]?,
    ∀ ts ∈ m.before.objects obj, ts.isClient = true →
      Segment.headerSize pkt.data < pkt.data.length → Segment.dstPort pkt.data = ts.myPort

instance [DecidableEq κ] (m : LayerMove κ) : Decidable (OwnPort m) :=
  inferInstanceAs (Decidable (
    (∀ a ∈ m.event.allocates, ∀ handler ∈ m.before.listeners[portNr a.2]?,
      handler.newData = some a.1) ∧
    ∀ pkt ∈ m.event.inWork m.before, ∀ obj ∈ m.before.sessions[pkt.key]?,
      ∀ ts ∈ m.before.objects obj, ts.isClient = true →
        Segment.headerSize pkt.data < pkt.data.length → Segment.dstPort pkt.data = ts.myPort))

structure ClientInv (tr : List (LayerMove κ)) (t : Layer κ) (obj : ℕ) (cb : κ) : Prop where
  known : obj < t.next
  own : ∀ ts, t.objects obj = some ts → ts.isClient = true ∧
    ∃ handler, t.listeners[portNr ts.myPort]? = some handler ∧ handler.newData = some cb
  data : ∀ cb' d rc, .newData cb' d rc ∈ log tr obj → cb' = cb

theorem ClientInv.step {tr : List (LayerMove κ)} {t t' : Layer κ} {obj : ℕ} {cb : κ}
    (h : ClientInv tr t obj cb) {e : LayerEvent κ} {acts : List (LayerAct κ)}
    (ok : OwnPort ⟨t, e, acts⟩) (made : layerStep t e = some (t', acts)) :
    ClientInv (tr ++ [⟨t, e, acts⟩]) t' obj cb := by
  refine ⟨h.known.trans_le (layerStep_next made), fun ts' alive' => ?_, fun cb' d rc hd => ?_⟩
  · obtain ⟨ts, alive, hid⟩ := layerStep_identity made h.known alive'
    obtain ⟨-, hport, hclient⟩ := key_of_identity hid
    obtain ⟨hc, handler, hl, hn⟩ := h.own ts alive
    exact ⟨hclient.trans hc, handler, by rw [hport]; exact layerStep_listeners made hl, hn⟩
  · rw [log_snoc] at hd
    rcases List.mem_append.mp hd with hd | hd
    · exact h.data cb' d rc hd
    · obtain ⟨i, us, rs, rd, pkt, ts, tsEcr, rfl, inWork, found, alive, hacts⟩ :=
        layerStep_newData made hd
      obtain ⟨hclient, handler, hl, hn⟩ := h.own ts alive
      rw [hacts] at hd
      cases processSegment_acts (t.call pkt us rs rd) tsEcr ts _ hd with
      | flag _ hf =>
        obtain ⟨cb'', rc', he⟩ := hf.callback rfl
        cases he
      | newData handler' _ listens set carries =>
        have hport := ok.2 pkt inWork obj found ts alive hclient carries
        have hlisten : t.listeners[portNr (Segment.dstPort pkt.data)]? = some handler' := listens
        rw [hport] at hlisten
        obtain rfl := Option.some.inj (hl.symm.trans hlisten)
        exact Option.some.inj (set.symm.trans hn)
      | reply _ _ hr => cases hr.not_callback

theorem allocate_step {t t' : Layer κ} {e : LayerEvent κ} {acts : List (LayerAct κ)} {cb : κ}
    {port : BitVec 16} (made : layerStep t e = some (t', acts))
    (allocates : e.allocates = some (cb, port)) :
    t'.next = t.next + 1 ∧ ∃ ts closed2, t'.objects t.next = some ts ∧ ts.isClient = true ∧
      ts.myPort = port ∧
      t'.listeners = t.listeners.insertIfNew (portNr port) (clientHandler cb closed2) := by
  cases e with
  | allocateClientSession us newData closed2 dstAddr dstPort localPort random =>
    obtain ⟨rfl, rfl⟩ := Prod.mk.inj (Option.some.inj allocates)
    unfold layerStep at made
    split at made
    · cases made
    · simp only [runningStep, allocateClientSession] at made
      split at made
      · cases made
      · split at made
        · simp only [Option.some.injEq, Prod.mk.injEq] at made
          obtain ⟨rfl, -⟩ := made
          exact ⟨rfl, _, closed2, Function.update_self .., rfl, rfl, rfl⟩
        · cases made
  | _ => cases allocates

theorem ClientInv.allocated {tr : List (LayerMove κ)} {t t' : Layer κ} {cb : κ} {port : BitVec 16}
    {e : LayerEvent κ} {acts : List (LayerAct κ)} (proj : Projected tr t)
    (ok : OwnPort ⟨t, e, acts⟩) (made : layerStep t e = some (t', acts))
    (allocates : e.allocates = some (cb, port)) :
    ClientInv (tr ++ [⟨t, e, acts⟩]) t' t.next cb := by
  obtain ⟨hnext, ts, closed2, alive, hclient, hport, hl⟩ := allocate_step made allocates
  refine ⟨by omega, fun s hs => ?_, fun cb' d rc hd => ?_⟩
  · obtain rfl := Option.some.inj (alive.symm.trans hs)
    refine ⟨hclient, ?_⟩
    rw [hport, hl]
    cases hold : t.listeners[portNr port]? with
    | some handler =>
      have hsame := ok.1 (cb, port) allocates handler hold
      exact ⟨handler, listeners_insertIfNew_grows _ _ _ _ handler hold, hsame⟩
    | none =>
      have hmem : portNr port ∉ t.listeners := by
        rw [Std.TreeMap.mem_iff_isSome_getElem?, hold]
        simp
      refine ⟨clientHandler cb closed2, ?_, rfl⟩
      rw [Std.TreeMap.getElem?_insertIfNew, if_pos ⟨Std.ReflCmp.compare_self, hmem⟩]
  · rw [log_snoc, (proj.fresh t.next (le_refl _)).2] at hd
    obtain ⟨_, _, _, _, _, _, _, rfl, -⟩ := layerStep_newData made hd
    cases allocates

/-- In every run in which client sessions get ports that no other `new_data` is registered for, and
data for them is addressed to these ports, the data of a client session is handed to the callback
that its own `allocate_client_session` was given. -/
theorem client_data_to_own_callback {t : Layer κ} {tr : List (LayerMove κ)}
    (run : Run layerStep {} tr t) (ok : ∀ m ∈ tr, OwnPort m) {obj : ℕ} {cb : κ}
    (allocated : AllocatedWith tr obj cb) :
    (∀ ts, t.objects obj = some ts →
      ∃ handler, t.listeners[portNr ts.myPort]? = some handler ∧ handler.newData = some cb) ∧
    ∀ cb' d rc, .newData cb' d rc ∈ log tr obj → cb' = cb := by
  suffices ClientInv tr t obj cb from ⟨fun ts alive => (this.own ts alive).2, this.data⟩
  induction run generalizing obj cb with
  | nil =>
    obtain ⟨m, hm, -⟩ := allocated
    cases hm
  | @snoc tr t t' e acts run made ih =>
    have hlast := ok _ (List.mem_append_right _ (List.mem_singleton_self _))
    obtain ⟨m, hm, hobj, port, halloc⟩ := allocated
    rcases List.mem_append.mp hm with hm | hm
    · have hold := ih (fun m hm => ok m (List.mem_append_left _ hm)) ⟨m, hm, hobj, port, halloc⟩
      exact hold.step hlast made
    · obtain rfl := List.mem_singleton.mp hm
      subst hobj
      exact ClientInv.allocated (layer_run_projects run) hlast made halloc

namespace Sample

/-- A client session from port 5900 with the callbacks 2 and 3: its peer accepts it and sends a
byte. -/
def clientWithByte : List (LayerEvent ℕ) :=
  let fromPeer (seq : BitVec 32) (flags : Byte) (data : List Byte) : Packet :=
    ⟨peer, host, bareSegment 0 80 5900 seq 1 flags 100 data, []⟩
  [.allocateClientSession 1 2 3 peer 80 5900 0,
    .arrivePacket (fromPeer 700 (flagSyn ||| flagAck) []) 500, .processPacket 0 2 true true,
    .arrivePacket (fromPeer 701 flagAck [7]) 500, .processPacket 0 3 true true]

end Sample

theorem client_data_to_own_callback_only_client :
    ∃ (tr : List (LayerMove ℕ)) (t : Layer ℕ), Run layerStep {} tr t ∧ (∀ m ∈ tr, OwnPort m) ∧
      AllocatedWith tr 0 2 ∧ delivered (log tr 0) = [7] ∧
      ∀ cb' d rc, .newData cb' d rc ∈ log tr 0 → cb' = 2 := by
  let events : List (LayerEvent ℕ) := .registerIp Sample.device :: Sample.clientWithByte
  have run := exec_get_run layerStep {} events (by decide +kernel)
  have ok : ∀ m ∈ ((exec layerStep {} events).get (by decide +kernel)).1, OwnPort m := by
    decide +kernel
  have allocated : AllocatedWith ((exec layerStep {} events).get (by decide +kernel)).1 0 2 :=
    ⟨((exec layerStep {} events).get (by decide +kernel)).1.get ⟨1, by decide +kernel⟩,
      List.get_mem .., by decide +kernel, 5900, by decide +kernel⟩
  exact ⟨_, _, run, ok, allocated, by decide +kernel,
    (client_data_to_own_callback run ok allocated).2⟩

/-- The call `new_data(d)` of the callback 1, which takes the data. -/
def Act.isTakenByOne (d : List Byte) : Act ℕ → Bool
  | .newData cb d' rc => cb == 1 && d' == d && rc
  | _ => false

/-- With a service at port 5900, whose `new_data` is 1, the byte goes to that service. -/
theorem client_data_to_other_callback :
    ∃ (tr : List (LayerMove ℕ)) (t : Layer ℕ), Run layerStep {} tr t ∧ AllocatedWith tr 0 2 ∧
      .newData 1 [7] true ∈ log tr 0 := by
  let service : PortHandler ℕ := { newSession := some 0, newData := some 1 }
  let events : List (LayerEvent ℕ) :=
    .registerIp Sample.device :: .addHandler 5900 service :: Sample.clientWithByte
  have run := exec_get_run layerStep {} events (by decide +kernel)
  have allocated : AllocatedWith ((exec layerStep {} events).get (by decide +kernel)).1 0 2 :=
    ⟨((exec layerStep {} events).get (by decide +kernel)).1.get ⟨2, by decide +kernel⟩,
      List.get_mem .., by decide +kernel, 5900, by decide +kernel⟩
  have hany : (log ((exec layerStep {} events).get (by decide +kernel)).1 0).any
      (Act.isTakenByOne [7]) = true := by decide +kernel
  obtain ⟨a, ha, hx⟩ := List.any_eq_true.mp hany
  refine ⟨_, _, run, allocated, ?_⟩
  unfold Act.isTakenByOne at hx
  split at hx
  · simp only [Bool.and_eq_true, beq_iff_eq] at hx
    obtain ⟨⟨rfl, rfl⟩, rfl⟩ := hx
    exact ha
  · cases hx

end MyIp.Tcp
