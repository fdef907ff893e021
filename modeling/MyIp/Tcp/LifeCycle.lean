import MyIp.Tcp.Acts

/-! # The life cycle of one session

The states a session can be in fall into four groups that it passes in one direction. `Walk` says
that of the state changes among some acts, `Announced` says that `new_session` is invoked only as
the answer to the change from `tcp_syn_rcvd` to `tcp_established`. Every stage of the packet handler
and every other event of a session keeps to both (`Passage`), hence every run does. -/

namespace MyIp.Tcp
open Bytes EventMachine
set_option autoImplicit false

variable {κ : Type}

/-! ## Groups of states -/

/-- The group of a state, and none for the states that no session is ever in. -/
def TcpState.group : TcpState → Option ℕ
  | listen => some 0
  | synRcvd | synSent => some 1
  | established => some 2
  | finWait1 | finWait2 | closing => some 3
  | closed | closeWait | lastAck | timeWait | rstAct => none

/-- `new` is a state of the life cycle and in no earlier group than `old`. -/
def Forward (old new : TcpState) : Prop :=
  ∃ i j, old.group = some i ∧ new.group = some j ∧ i ≤ j

theorem Forward.refl {s : TcpState} (h : s.group ≠ none) : Forward s s := by
  obtain ⟨i, hi⟩ := Option.ne_none_iff_exists'.mp h
  exact ⟨i, i, hi, hi, le_refl i⟩

theorem Forward.trans {a b c : TcpState} (h : Forward a b) (h' : Forward b c) : Forward a c := by
  obtain ⟨i, j, hi, hj, hij⟩ := h
  obtain ⟨j', k, hj', hk, hjk⟩ := h'
  rw [hj] at hj'
  cases hj'
  exact ⟨i, k, hi, hk, hij.trans hjk⟩

theorem Forward.to_last {s t : TcpState} (h : s.group ≠ none) (ht : t.group = some 3) :
    Forward s t := by
  obtain ⟨i, hi⟩ := Option.ne_none_iff_exists'.mp h
  refine ⟨i, 3, hi, ht, ?_⟩
  revert hi
  cases s <;> simp [TcpState.group] <;> omega

/-! ## Paths through the states -/

def Act.change : Act κ → Option (TcpState × TcpState)
  | .stateChange old new => some (old, new)
  | _ => none

/-- The changes lead from `s` to `t`, each of them forward. -/
def Path (s : TcpState) : List (TcpState × TcpState) → TcpState → Prop
  | [], t => s = t
  | (old, new) :: rest, t => old = s ∧ Forward old new ∧ Path new rest t

/-- The same for the changes among some acts. -/
def Walk (s : TcpState) (acts : List (Act κ)) (t : TcpState) : Prop :=
  Path s (acts.filterMap Act.change) t

theorem Path.append {s t u : TcpState} {l l' : List (TcpState × TcpState)} (h : Path s l t)
    (h' : Path t l' u) : Path s (l ++ l') u := by
  induction l generalizing s with
  | nil =>
    have hst : s = t := h
    rw [hst]
    exact h'
  | cons a l ih => exact ⟨h.1, h.2.1, ih h.2.2⟩

theorem Path.forward {s t : TcpState} {l : List (TcpState × TcpState)} (h : Path s l t)
    (hs : s.group ≠ none) : Forward s t := by
  induction l generalizing s with
  | nil =>
    have hst : s = t := h
    exact hst ▸ Forward.refl hs
  | cons a l ih =>
    obtain ⟨rfl, hf, hp⟩ := h
    obtain ⟨i, j, hi, hj, hij⟩ := hf
    exact Forward.trans ⟨i, j, hi, hj, hij⟩ (ih hp (by simp [hj]))

/-- A session is established at most once: it does not come back to `tcp_syn_rcvd`. -/
theorem Path.count_established {s t : TcpState} {l : List (TcpState × TcpState)} (h : Path s l t)
    (hs : s.group ≠ none) :
    l.count (.synRcvd, .established) ≤ 1 ∧
      (Forward .established s → l.count (.synRcvd, .established) = 0) := by
  induction l generalizing s with
  | nil => simp
  | cons a l ih =>
    obtain ⟨old, new⟩ := a
    obtain ⟨rfl, hf, hp⟩ := h
    obtain ⟨i, j, hi, hj, hij⟩ := hf
    obtain ⟨h1, h2⟩ := ih hp (by simp [hj])
    have hlate : Forward .established new → l.count (.synRcvd, .established) = 0 := h2
    by_cases hc : (old, new) = (TcpState.synRcvd, TcpState.established)
    · obtain ⟨rfl, rfl⟩ := Prod.mk.inj hc
      have hz := hlate (Forward.refl (by simp [TcpState.group]))
      rw [List.count_cons_self, hz]
      refine ⟨le_refl 1, ?_⟩
      rintro ⟨i', j', hi', hj', hij'⟩
      simp only [TcpState.group, Option.some.injEq] at hi' hj'
      omega
    · rw [List.count_cons_of_ne (by simpa using hc)]
      exact ⟨h1, fun hx => hlate (hx.trans ⟨i, j, hi, hj, hij⟩)⟩

theorem Walk.append {s t u : TcpState} {l l' : List (Act κ)} (h : Walk s l t) (h' : Walk t l' u) :
    Walk s (l ++ l') u := by
  rw [Walk, List.filterMap_append]
  exact Path.append h h'

theorem Walk.still {s : TcpState} {l : List (Act κ)} (h : ∀ a ∈ l, a.change = none) :
    Walk s l s := by
  rw [Walk, List.filterMap_eq_nil_iff.mpr h]
  rfl

theorem Walk.single {old new : TcpState} (h : Forward old new) :
    Walk old [(.stateChange old new : Act κ)] new :=
  ⟨rfl, h, rfl⟩

/-! ## Where `new_session` is invoked -/

def Act.isNewSession : Act κ → Bool
  | .newSession _ _ => true
  | _ => false

/-- Every invocation of `new_session` directly follows the change from `tcp_syn_rcvd` to
`tcp_established`. -/
def Announced (acts : List (Act κ)) : Prop :=
  ∀ pre cb rc post, acts = pre ++ .newSession cb rc :: post →
    ∃ pre', pre = pre' ++ [.stateChange .synRcvd .established]

theorem Announced.append {l l' : List (Act κ)} (h : Announced l) (h' : Announced l') :
    Announced (l ++ l') := by
  intro pre cb rc post he
  rcases List.append_eq_append_iff.mp he with ⟨mid, rfl, hl'⟩ | ⟨mid, rfl, hl⟩
  · obtain ⟨pre', rfl⟩ := h' mid cb rc post hl'
    exact ⟨l ++ pre', by simp⟩
  · cases mid with
    | nil =>
      rw [List.nil_append] at hl
      obtain ⟨pre', hpre⟩ := h' [] cb rc post hl.symm
      simp at hpre
    | cons a mid =>
      obtain ⟨rfl, -⟩ := List.cons.inj hl
      exact h pre cb rc mid rfl

theorem Announced.silent {l : List (Act κ)} (h : ∀ a ∈ l, a.isNewSession = false) :
    Announced l := by
  intro pre cb rc post he
  have := h (.newSession cb rc) (by rw [he]; simp)
  simp [Act.isNewSession] at this

theorem Announced.left {l l' : List (Act κ)} (h : Announced (l ++ l')) : Announced l := by
  intro pre cb rc post he
  exact h pre cb rc (post ++ l') (by rw [he]; simp)

theorem Announced.count_le (l : List (Act κ)) (h : Announced l) :
    l.countP Act.isNewSession ≤ (l.filterMap Act.change).count (.synRcvd, .established) := by
  induction hn : l.length using Nat.strong_induction_on generalizing l with
  | _ n ih =>
    rcases List.eq_nil_or_concat l with rfl | ⟨l', a, rfl⟩
    · simp
    · rw [List.concat_eq_append] at h hn ⊢
      have hl' : l'.length < n := by rw [← hn]; simp
      rw [List.countP_append, List.filterMap_append, List.count_append]
      by_cases ha : a.isNewSession = true
      · obtain ⟨cb, rc, rfl⟩ : ∃ cb rc, a = .newSession cb rc := by
          cases a <;> simp_all [Act.isNewSession]
        -- the act before it is the change that pays for it
        obtain ⟨pre', rfl⟩ := h l' cb rc [] (by simp)
        have := ih pre'.length (by simp at hl'; omega) pre' h.left.left rfl
        simp only [List.countP_append, List.filterMap_append, List.count_append]
        simp [Act.isNewSession, Act.change]
        omega
      · have := ih l'.length hl' l' h.left rfl
        simp [ha]
        omega

/-- Every change from `tcp_syn_rcvd` to `tcp_established` is directly followed by the invocation of
`new_session`, if there is one. -/
def Answered (newSession : Option κ) (acts : List (Act κ)) : Prop :=
  ∀ cb, newSession = some cb → ∀ pre post,
    acts = pre ++ .stateChange .synRcvd .established :: post →
      ∃ rc post', post = .newSession cb rc :: post'

theorem Answered.append {f : Option κ} {l l' : List (Act κ)} (h : Answered f l)
    (h' : Answered f l') : Answered f (l ++ l') := by
  intro cb hcb pre post he
  rcases List.append_eq_append_iff.mp he with ⟨mid, rfl, hl'⟩ | ⟨mid, rfl, hl⟩
  · exact h' cb hcb mid post hl'
  · cases mid with
    | nil =>
      rw [List.nil_append] at hl
      exact h' cb hcb [] post hl.symm
    | cons a mid =>
      obtain ⟨rfl, rfl⟩ := List.cons.inj hl
      obtain ⟨rc, post', rfl⟩ := h cb hcb pre mid rfl
      exact ⟨rc, post' ++ l', by simp⟩

theorem Answered.unchanged {f : Option κ} {l : List (Act κ)}
    (h : ∀ a ∈ l, a.change ≠ some (.synRcvd, .established)) : Answered f l := by
  intro cb _ pre post he
  exact absurd rfl (h (.stateChange .synRcvd .established) (by rw [he]; simp))

/-! ## The stages of the packet handler -/

/-- What was done between two points of the packet handler is a walk that announces the session. -/
def Passage (f : Option κ) (w w' : Work κ) : Prop :=
  ∃ new, w'.acts = w.acts ++ new ∧ Walk w.session.state new w'.session.state ∧ Announced new ∧
    Answered f new

theorem Passage.trans {f : Option κ} {w w' w'' : Work κ} (h : Passage f w w')
    (h' : Passage f w' w'') : Passage f w w'' := by
  obtain ⟨new, ha, hw, hn, hf⟩ := h
  obtain ⟨new', ha', hw', hn', hf'⟩ := h'
  exact ⟨new ++ new', by rw [ha', ha, List.append_assoc], hw.append hw', hn.append hn',
    hf.append hf'⟩

theorem Passage.quiet {f : Option κ} {w w' : Work κ} {new : List (Act κ)}
    (ha : w'.acts = w.acts ++ new) (hs : w'.session.state = w.session.state)
    (hq : ∀ a ∈ new, a.change = none ∧ a.isNewSession = false) : Passage f w w' := by
  refine ⟨new, ha, ?_, Announced.silent fun a h => (hq a h).2, Answered.unchanged fun a h => ?_⟩
  · rw [hs]
    exact Walk.still fun a h => (hq a h).1
  · simp [(hq a h).1]

theorem Passage.still {f : Option κ} {w w' : Work κ} (ha : w'.acts = w.acts)
    (hs : w'.session.state = w.session.state) : Passage f w w' := by
  refine ⟨[], by simp [ha], ?_, Announced.silent (by simp), Answered.unchanged (by simp)⟩
  rw [hs]
  rfl

theorem Passage.refl (f : Option κ) (w : Work κ) : Passage f w w := Passage.still rfl rfl

theorem IsReply.quiet {ts : TcpSession} {flags : Byte} {a : Act κ} (h : IsReply ts flags a) :
    a.change = none ∧ a.isNewSession = false := by
  obtain ⟨us, ackTo, seq, tsEcr, rfl⟩ := h
  exact ⟨rfl, rfl⟩

theorem send_passage (f : Option κ) (w : Work κ) (c : Call κ) (tsEcr : BitVec 32) (flags : Byte)
    (ackTo : BitVec 32) : Passage f w (w.send c tsEcr flags ackTo) := by
  obtain ⟨new, ha, hall⟩ := send_acts w c tsEcr flags ackTo
  exact Passage.quiet ha (by rw [send_session]) fun a h => (hall a h).quiet

theorem setState_passage {f : Option κ} {w : Work κ} {us : BitVec 64} {st : TcpState}
    (h : Forward w.session.state st) (hne : st ≠ .established ∨ w.session.state ≠ .synRcvd) :
    Passage f w (w.setState us st) := by
  refine ⟨_, rfl, Walk.single h, Announced.silent (by simp [Act.isNewSession]),
    Answered.unchanged ?_⟩
  intro a ha
  obtain rfl := List.mem_singleton.mp ha
  simp only [Act.change, ne_eq, Option.some.injEq, Prod.mk.injEq, not_and]
  rintro h1 h2
  rcases hne with hne | hne
  · exact hne h2
  · exact hne h1

theorem receiveRst_passage (f : Option κ) (c : Call κ) (w : Work κ)
    (h : w.session.state.group ≠ none) : Passage f w (receiveRst c w) := by
  rcases receiveRst_cases c w with ⟨-, he⟩ | ⟨-, -, he⟩
  · rw [he]
    exact Passage.refl f w
  · rw [he]
    exact setState_passage (Forward.to_last h rfl) (.inl (by simp))

theorem receiveSyn_passage (f : Option κ) (c : Call κ) (tsEcr : BitVec 32) (w : Work κ) :
    Passage f w (receiveSyn c tsEcr w) := by
  rcases receiveSyn_cases c tsEcr w with ⟨-, he⟩ | ⟨-, -, hs, he⟩
  · rw [he]
    exact Passage.refl f w
  · rw [he]
    refine (send_passage f w c tsEcr _ _).trans (setState_passage ?_ (.inl (by simp)))
    rw [send_session]
    rcases hs with hs | hs
    · exact ⟨0, 1, by rw [hs]; rfl, rfl, by omega⟩
    · exact ⟨1, 1, by rw [hs]; rfl, rfl, by omega⟩

theorem ackSynSent_passage (f : Option κ) (c : Call κ) (tsEcr : BitVec 32) (w : Work κ)
    (hs : w.session.state = .synSent) : Passage f w (ackSynSent c tsEcr w) := by
  refine ⟨_, (ackSynSent_acts c tsEcr w).trans (List.append_assoc ..), ?_, ?_, ?_⟩
  · rw [ackSynSent_session]
    refine Walk.append (Walk.still ?_) (Walk.single ⟨1, 2, by rw [hs]; rfl, rfl, by omega⟩)
    split <;> simp [Act.change]
  · apply Announced.silent
    split <;> simp [Act.isNewSession]
  · apply Answered.unchanged
    split <;> simp [Act.change, hs]

theorem ackSynRcvd_passage (c : Call κ) (w : Work κ) (hs : w.session.state = .synRcvd) :
    Passage (c.listener.bind (·.newSession)) w (ackSynRcvd c w) := by
  have hwalk : ∀ l : List (Act κ), (∀ a ∈ l, a.change = none) →
      Walk w.session.state (.stateChange w.session.state .established :: l) .established := by
    intro l hl
    exact Walk.append (l := [.stateChange w.session.state .established])
      (Walk.single ⟨1, 2, by rw [hs]; rfl, rfl, by omega⟩) (Walk.still hl)
  rcases ackSynRcvd_acts c w with ⟨ha, hnone⟩ | ⟨handler, cb, hl, hc, ha, -⟩
  · refine ⟨_, ha, ?_, Announced.silent (by simp [Act.isNewSession]), ?_⟩
    · rw [ackSynRcvd_session]
      exact hwalk [] (by simp)
    · intro cb hcb
      obtain ⟨handler, hl, hc⟩ := Option.bind_eq_some_iff.mp hcb
      rw [hnone handler hl] at hc
      cases hc
  · refine ⟨_, ha, ?_, ?_, ?_⟩
    · rw [ackSynRcvd_session]
      exact hwalk _ (by simp [Act.change])
    · intro pre cb' rc post he
      cases pre with
      | nil => simp at he
      | cons a pre =>
        obtain ⟨rfl, he⟩ := List.cons.inj he
        cases pre with
        | nil => exact ⟨[], by rw [hs]; rfl⟩
        | cons b pre =>
          have hlen := congrArg List.length he
          simp at hlen
    · intro cb' hcb pre post he
      rw [hl] at hcb
      have hcb' : cb = cb' := Option.some.inj (hc.symm.trans hcb)
      subst hcb'
      cases pre with
      | nil =>
        obtain ⟨-, rfl⟩ := List.cons.inj he
        exact ⟨_, [], rfl⟩
      | cons a pre =>
        obtain ⟨rfl, he⟩ := List.cons.inj he
        cases pre with
        | nil => simp at he
        | cons b pre =>
          have hlen := congrArg List.length he
          simp at hlen

theorem ackEstablished_passage (f : Option κ) (c : Call κ) (tsEcr : BitVec 32) (w : Work κ)
    (hs : w.session.state = .established) : Passage f w (ackEstablished c tsEcr w) := by
  rcases ackEstablished_cases c tsEcr w with ⟨-, he⟩ | ⟨-, -, he⟩
  · rw [he]
    exact Passage.refl f w
  · rw [he]
    have htake : Passage f w (takeAcked (ackedBytes (Segment.ackNr c.pkt.data) w.session) w) :=
      Passage.still rfl rfl
    have hforce : ∀ w : Work κ, Passage f w (forceSend w) := by
      intro w
      obtain ⟨r, hr⟩ := forceSend_session w
      exact Passage.still (by simp) (by rw [hr])
    refine (htake.trans ?_).trans (hforce _)
    rcases sendDrainedFin_cases c tsEcr
      (takeAcked (ackedBytes (Segment.ackNr c.pkt.data) w.session) w) with ⟨-, hd⟩ | ⟨-, -, hd⟩
    · rw [hd]
      exact Passage.refl f _
    · rw [hd]
      refine (send_passage f _ c tsEcr _ _).trans (setState_passage ?_ (.inl (by simp)))
      rw [send_session]
      exact ⟨2, 3, by rw [show (takeAcked _ w).session.state = .established from hs]; rfl, rfl,
        by omega⟩

theorem receiveAck_passage (c : Call κ) (tsEcr : BitVec 32) (w : Work κ)
    (h : w.session.state.group ≠ none) :
    Passage (c.listener.bind (·.newSession)) w (receiveAck c tsEcr w) := by
  rcases receiveAck_cases c tsEcr w with ⟨-, he⟩ | ⟨-, -, he⟩
  · rw [he]
    exact Passage.refl _ w
  · rw [he]
    have hlast : ∀ w : Work κ, Passage (c.listener.bind (·.newSession)) w
        { w with session := { w.session with dataSinceLastAck := 0 } } :=
      fun w => Passage.still rfl rfl
    refine Passage.trans ?_ (hlast _)
    rcases ackByState_cases c tsEcr w with
      ⟨hs, hb⟩ | ⟨hs, hb⟩ | ⟨hs, -⟩ | ⟨hs, hb⟩ | ⟨-, -, -, -, hb⟩
    · rw [hb]
      exact ackSynSent_passage _ c tsEcr w hs
    · rw [hb]
      exact ackSynRcvd_passage c w hs
    · rw [hs] at h
      exact absurd rfl h
    · rw [hb]
      exact ackEstablished_passage _ c tsEcr w hs
    · rw [hb]
      exact Passage.refl _ w

theorem receiveFin_passage (f : Option κ) (c : Call κ) (w : Work κ) :
    Passage f w (receiveFin c w) := by
  rcases receiveFin_cases c w with ⟨-, he⟩ | ⟨-, hs, he⟩
  · rw [he]
    exact Passage.refl f w
  · rw [he]
    refine ⟨_, rfl, Walk.single ⟨2, 3, by rw [hs]; rfl, rfl, by omega⟩,
      Announced.silent (by simp [Act.isNewSession]), Answered.unchanged (by simp [Act.change])⟩

theorem ackFin_passage (f : Option κ) (c : Call κ) (tsEcr : BitVec 32) (w : Work κ)
    (h : w.session.state.group ≠ none) : Passage f w (ackFin c tsEcr w) := by
  rcases ackFin_cases c tsEcr w with ⟨-, he⟩ | ⟨-, -, he⟩
  · rw [he]
    exact Passage.refl f w
  · rw [he]
    have hsend := send_passage f w c tsEcr (flagAck ||| flagFin) (w.session.theirSeqNr + 1)
    refine hsend.trans (setState_passage (Forward.to_last ?_ rfl) (.inl (by simp)))
    rw [send_session]
    exact h

theorem processPayload_passage (f : Option κ) (c : Call κ) (tsEcr : BitVec 32) (w : Work κ) :
    Passage f w (processPayload c tsEcr w) := by
  obtain ⟨seq, us, hs⟩ := processPayload_session c tsEcr w
  obtain ⟨new, ha, hall⟩ := processPayload_acts c tsEcr w
  refine Passage.quiet ha (by rw [hs]) fun a h => ?_
  cases hall a h with
  | newData => exact ⟨rfl, rfl⟩
  | badFunctionCall => exact ⟨rfl, rfl⟩
  | reply _ hr => exact hr.quiet

theorem endSegment_passage (f : Option κ) (c : Call κ) (tsEcr : BitVec 32) (w : Work κ) :
    Passage f w (endSegment c tsEcr w) := by
  obtain ⟨us, term, hs⟩ := endSegment_session c tsEcr w
  obtain ⟨new, ha, hall⟩ := endSegment_acts c tsEcr w
  refine Passage.quiet ha (by rw [hs]) fun a h => ?_
  cases hall a h with
  | sessionClosed1 => exact ⟨rfl, rfl⟩
  | badFunctionCall => exact ⟨rfl, rfl⟩
  | reply _ _ hr => exact hr.quiet

theorem Passage.group_ne_none {f : Option κ} {w w' : Work κ} (h : Passage f w w')
    (hg : w.session.state.group ≠ none) : w'.session.state.group ≠ none := by
  obtain ⟨new, -, hw, -, -⟩ := h
  obtain ⟨i, j, -, hj, -⟩ := Path.forward hw hg
  simp [hj]

theorem processFlags_passage (c : Call κ) (tsEcr : BitVec 32) (w : Work κ)
    (h : w.session.state.group ≠ none) :
    Passage (c.listener.bind (·.newSession)) w (processFlags c tsEcr w) := by
  unfold processFlags
  split
  · exact Passage.refl _ w
  · have h1 := receiveRst_passage (c.listener.bind (·.newSession)) c w h
    have h2 := h1.trans (receiveSyn_passage _ c tsEcr _)
    have h3 := h2.trans (receiveAck_passage c tsEcr _ (h2.group_ne_none h))
    have h4 := h3.trans (receiveFin_passage _ c _)
    exact h4.trans (ackFin_passage _ c tsEcr _ (h4.group_ne_none h))

theorem processSegment_passage (c : Call κ) (tsEcr : BitVec 32) (ts : TcpSession)
    (h : ts.state.group ≠ none) :
    Walk ts.state (processSegment c tsEcr ts).acts (processSegment c tsEcr ts).session.state ∧
      Announced (processSegment c tsEcr ts).acts ∧
      Answered (c.listener.bind (·.newSession)) (processSegment c tsEcr ts).acts := by
  have h1 := processFlags_passage c tsEcr (beginSegment c ts) h
  have h2 := h1.trans (processPayload_passage _ c tsEcr _)
  obtain ⟨new, ha, hw, hn, hf⟩ := h2.trans (endSegment_passage _ c tsEcr _)
  have hnew : (processSegment c tsEcr ts).acts = new := ha
  rw [hnew]
  exact ⟨hw, hn, hf⟩

/-! ## All events -/

theorem group_begin {s : TcpState} (h : s = .listen ∨ s = .synSent) : s.group ≠ none := by
  rcases h with rfl | rfl
  · simp [TcpState.group]
  · simp [TcpState.group]

/-- A session begins in `tcp_listen` or in `tcp_syn_sent`, and what was sent so far did not change
that. -/
theorem Opened.begin {ts : TcpSession} {acts : List (Act κ)} (h : Opened ts acts) :
    (ts.state = .listen ∨ ts.state = .synSent) ∧ Walk ts.state acts ts.state ∧ Announced acts := by
  cases h with
  | server pkt id isn => exact ⟨.inl rfl, rfl, Announced.silent (by simp)⟩
  | client idev us id dstAddr dstPort localPort random =>
    refine ⟨.inr rfl, Walk.still ?_, Announced.silent ?_⟩
    · simp [openClientSession, sendSegment, Act.change]
    · simp [openClientSession, sendSegment, Act.isNewSession]

theorem Opened.group {ts : TcpSession} {acts : List (Act κ)} (h : Opened ts acts) :
    ts.state.group ≠ none :=
  group_begin h.begin.1

/-- Every event of a session moves it forward and announces it as it should. -/
theorem sessionStep_walk {ts ts' : TcpSession} {e : SessionEvent κ} {acts : List (Act κ)}
    (made : sessionStep ts e = some (ts', acts)) (h : ts.state.group ≠ none) :
    Walk ts.state acts ts'.state ∧ Announced acts := by
  have hstill : ∀ {s : TcpState} {l : List (Act κ)},
      (∀ a ∈ l, a.change = none ∧ a.isNewSession = false) → Walk s l s ∧ Announced l := by
    intro s l hq
    exact ⟨Walk.still fun a ha => (hq a ha).1, Announced.silent fun a ha => (hq a ha).2⟩
  cases sessionStep_change made with
  | segment c tsEcr _ =>
    obtain ⟨h1, h2, -⟩ := processSegment_passage c tsEcr ts h
    exact ⟨h1, h2⟩
  | append => exact hstill (by simp)
  | fin idev us last seq new _ hall =>
    obtain ⟨hw, hn⟩ := hstill (s := ts.state) fun a ha => (hall a ha).quiet
    exact ⟨hw.append (Walk.single (Forward.to_last h rfl)),
      hn.append (Announced.silent (by simp [Act.isNewSession]))⟩
  | visit idev now us rc _ _ made =>
    have hacts := unackedVisit_acts made
    obtain ⟨last, r, t, -, rfl⟩ := unackedVisit_session made
    refine hstill ?_
    intro a ha
    obtain ⟨off, n, -, -, us', rfl⟩ := hacts a ha
    exact ⟨rfl, rfl⟩
  | wait idev us counter last inInit acts _ hall =>
    refine hstill ?_
    intro a ha
    obtain ⟨⟨us', ackTo, seq, tsEcr, rfl⟩, -⟩ := hall a ha
    exact ⟨rfl, rfl⟩
  | quiet => exact hstill (by simp)

theorem sessionStep_group {ts ts' : TcpSession} {e : SessionEvent κ} {acts : List (Act κ)}
    (made : sessionStep ts e = some (ts', acts)) (h : ts.state.group ≠ none) :
    ts'.state.group ≠ none := by
  obtain ⟨hw, -⟩ := sessionStep_walk made h
  obtain ⟨_, _, -, hj, -⟩ := Path.forward hw h
  simp [hj]

theorem session_run_walk {s0 s : TcpSession} {tr : List (SessionMove κ)}
    (h : s0.state.group ≠ none) (run : Run sessionStep s0 tr s) :
    Walk s0.state (actsOf tr) s.state ∧ Announced (actsOf tr) := by
  have inv := Run.history_invariant (fun _ => True)
    (fun tr s => s.state.group ≠ none ∧ Walk s0.state (actsOf tr) s.state ∧ Announced (actsOf tr))
    ⟨h, rfl, Announced.silent (by simp [actsOf])⟩ ?_ run (fun _ _ => trivial)
  · exact inv.2
  · rintro tr a e b o ⟨hg, hw, hn⟩ - made
    obtain ⟨hw', hn'⟩ := sessionStep_walk made hg
    rw [actsOf_snoc]
    exact ⟨sessionStep_group made hg, hw.append hw', hn.append hn'⟩

end MyIp.Tcp
