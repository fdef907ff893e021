import MyIp.Tcp.Handshake
import MyIp.Tcp.PeerFin

/-! # Acknowledgement numbers

A data segment is answered with the number that is expected next, if it is the expected one or if
its own number is greater. A segment whose number is smaller is answered with that number, although
nothing before the expected one is missing, and the comparison is the one of unsigned integers, not
the one on the circle. `ack_numbers_iff` gives both what a segment's payload is answered with and
the runs in which the acknowledgements of a session do not move backwards. -/

namespace MyIp.Tcp
open Bytes EventMachine
set_option autoImplicit false

variable {κ : Type}

/-! ## The reply to the payload of a segment -/

/-- `data_len > 0 && fail == false`. -/
def looksAtPayload (c : Call κ) (ts : TcpSession) : Bool :=
  decide (Segment.headerSize c.pkt.data < c.pkt.data.length) && !flagsFail c ts

section Replies
variable (c : Call κ) (tsEcr : BitVec 32) (ts : TcpSession)

/-- What a segment finds when the handler comes to its payload. -/
def atPayload : Work κ := processFlags c tsEcr (beginSegment c ts)

/-- What is done because of the payload. -/
def payloadReplies : List (Act κ) :=
  (processPayload c tsEcr (atPayload c tsEcr ts)).acts.drop (atPayload c tsEcr ts).acts.length

/-- Every acknowledgement of the payload carries the number that is expected afterwards. -/
def PayloadAcked : Prop :=
  AcksOnly (fun n => n = (processSegment c tsEcr ts).session.theirSeqNr) (payloadReplies c tsEcr ts)

theorem looksAtPayload_iff :
    (Segment.headerSize c.pkt.data < c.pkt.data.length ∧ (atPayload c tsEcr ts).fail = false) ↔
      looksAtPayload c ts = true := by
  rw [atPayload, processFlags_fail]
  simp [looksAtPayload]

theorem atPayload_step (seen : looksAtPayload c ts = true) :
    PayloadStep c (atPayload c tsEcr ts) (processPayload c tsEcr (atPayload c tsEcr ts)) :=
  processPayload_step c tsEcr (processFlags_thrown c tsEcr ts)
    ((looksAtPayload_iff c tsEcr ts).mpr seen)

theorem processSegment_theirSeqNr : (processSegment c tsEcr ts).session.theirSeqNr =
    (processPayload c tsEcr (atPayload c tsEcr ts)).session.theirSeqNr := by
  obtain ⟨us, term, he⟩ :=
    endSegment_session c tsEcr (processPayload c tsEcr (processFlags c tsEcr (beginSegment c ts)))
  rw [processSegment, he]
  rfl

theorem unexpectedAckTo_eq_iff {seq expected : BitVec 32} (h : seq ≠ expected) :
    unexpectedAckTo seq expected = expected ↔ expected ≤ seq := by
  unfold unexpectedAckTo
  split
  · next hlt => simp [BitVec.le_of_lt hlt]
  · next hlt =>
    have hle := BitVec.not_lt.mp hlt
    have hne : ¬ expected ≤ seq := fun h' => h (BitVec.le_antisymm hle h')
    split
    · simp [h, hne]
    · next hge => exact absurd (BitVec.not_lt.mp hge) hne

/-- The segment's number is not below the one that is expected, as unsigned integers. -/
theorem payload_acked_iff :
    PayloadAcked c tsEcr ts ↔
      (looksAtPayload c ts = true → c.idev.isSome = true →
        expectedSeqNr c.pkt.data ts ≤ Segment.seqNr c.pkt.data) := by
  have hexp : (atPayload c tsEcr ts).session.theirSeqNr = expectedSeqNr c.pkt.data ts :=
    processFlags_expected c tsEcr ts
  rw [PayloadAcked, processSegment_theirSeqNr, payloadReplies]
  by_cases seen : looksAtPayload c ts = true
  · cases atPayload_step c tsEcr ts seen with
    | refused new acts calls seq expected =>
      rw [acts, List.drop_left]
      refine iff_of_true (.silent fun a ha => (refused_silent (calls a ha)).1) ?_
      intro _ _
      rw [← hexp]
      exact BitVec.le_of_eq expected.symm
    | accepted cb new acts replies seq expected =>
      rw [acts, List.drop_left]
      refine iff_of_true ?_ ?_
      · refine AcksOnly.append (.silent (by simp [Act.acknowledges])) ?_
        intro a ha n hn
        exact Option.some.inj (hn.symm.trans (replies a ha).acknowledges)
      · intro _ _
        rw [← hexp]
        exact BitVec.le_of_eq expected.symm
    | unexpected new acts replies sent seq other =>
      rw [acts, List.drop_left, seq]
      rw [hexp] at replies other ⊢
      simp only [seen, true_imp_iff, sent, ← unexpectedAckTo_eq_iff other]
      constructor
      · intro h hne
        obtain ⟨a, ha⟩ := List.exists_mem_of_ne_nil new hne
        exact h a ha _ (replies a ha).acknowledges
      · intro h a ha n hn
        rw [← h (List.ne_nil_of_mem ha)]
        exact Option.some.inj (hn.symm.trans (replies a ha).acknowledges)
  · have hcond := (looksAtPayload_iff c tsEcr ts).not.mpr seen
    rw [processPayload, if_neg hcond, List.drop_length]
    exact iff_of_true (.silent (by simp)) fun h => absurd h seen

end Replies

/-! ## Acknowledgements in a row -/

/-- From one acknowledgement to a later one the number moves forward, and by no more than the bytes
that the application took in between and a FIN. -/
def AcksForward (acts : List (Act κ)) : Prop :=
  ∀ l a mid b r n n', acts = l ++ a :: (mid ++ b :: r) → a.acknowledges = some n →
    b.acknowledges = some n' → ∃ d ≤ (taken mid).length + 1, n' = n + BitVec.ofNat 32 d

/-- The same for two acknowledgements given by their places. -/
theorem AcksForward.get {acts : List (Act κ)} (h : AcksForward acts) {i j : ℕ} (hij : i < j)
    {n n' : BitVec 32} (hi : acts[i]?.bind Act.acknowledges = some n)
    (hj : acts[j]?.bind Act.acknowledges = some n') :
    ∃ d ≤ (taken ((acts.drop (i + 1)).take (j - (i + 1)))).length + 1,
      n' = n + BitVec.ofNat 32 d := by
  obtain ⟨a, ha, hna⟩ := Option.bind_eq_some_iff.mp hi
  obtain ⟨b, hb, hnb⟩ := Option.bind_eq_some_iff.mp hj
  obtain ⟨hli, rfl⟩ := List.getElem?_eq_some_iff.mp ha
  obtain ⟨hlj, rfl⟩ := List.getElem?_eq_some_iff.mp hb
  refine h (acts.take i) acts[i] _ acts[j] (acts.drop (j + 1)) n n' ?_ hna hnb
  have hmid : (acts.drop (i + 1)).drop (j - (i + 1)) = acts[j] :: acts.drop (j + 1) := by
    rw [List.drop_drop, show i + 1 + (j - (i + 1)) = j by omega, List.drop_eq_getElem_cons hlj]
  rw [← hmid, List.take_append_drop, List.cons_getElem_drop_succ, List.take_append_drop]

/-- The acknowledgements go forward. Counted from `base`, none is beyond `top`, and each is at least
as far as the bytes that were taken before it. -/
structure Trail (base : BitVec 32) (acts : List (Act κ)) (top : ℕ) : Prop where
  forward : AcksForward acts
  upTo : ∀ l a mid n, acts = l ++ a :: mid → a.acknowledges = some n →
    ∃ k, (taken l).length ≤ k ∧ k ≤ top ∧ n = base + BitVec.ofNat 32 k

/-- Nothing was acknowledged yet. -/
theorem Trail.start {base : BitVec 32} {acts : List (Act κ)}
    (h : ∀ a ∈ acts, a.acknowledges = none) : Trail base acts 0 := by
  constructor
  · rintro l a mid b r n n' rfl ha
    rw [h a (by simp)] at ha
    cases ha
  · rintro l a mid n rfl ha
    rw [h a (by simp)] at ha
    cases ha

section Trails
variable {base : BitVec 32} {acts : List (Act κ)} {top k : ℕ}

/-- A list that ends in `b`, cut at one of its elements. -/
theorem cut_snoc {α : Type} {l l' mid : List α} {a b : α} (h : l' ++ [b] = l ++ a :: mid) :
    (mid = [] ∧ l' = l ∧ b = a) ∨ ∃ mid', mid = mid' ++ [b] ∧ l' = l ++ a :: mid' := by
  rcases List.eq_nil_or_concat mid with rfl | ⟨mid', last, rfl⟩
  · obtain ⟨rfl, hb⟩ := List.append_inj' h rfl
    exact .inl ⟨rfl, rfl, List.singleton_inj.mp hb⟩
  · rw [List.concat_eq_append, ← List.cons_append, ← List.append_assoc] at h
    obtain ⟨rfl, hb⟩ := List.append_inj' h rfl
    obtain rfl := List.singleton_inj.mp hb
    exact .inr ⟨mid', List.concat_eq_append .., rfl⟩

theorem Trail.silent {b : Act κ} (h : Trail base acts top) (hb : b.acknowledges = none) :
    Trail base (acts ++ [b]) top := by
  constructor
  · intro l a mid c r n n' he ha hc
    rcases cut_snoc he with ⟨hnil, -, -⟩ | ⟨mid', hmid, he'⟩
    · simp at hnil
    · rcases cut_snoc hmid.symm with ⟨-, -, rfl⟩ | ⟨r', rfl, rfl⟩
      · rw [hb] at hc
        cases hc
      · exact h.forward l a mid c r' n n' he' ha hc
  · intro l a mid n he ha
    rcases cut_snoc he with ⟨-, -, rfl⟩ | ⟨mid', -, he'⟩
    · rw [hb] at ha
      cases ha
    · exact h.upTo l a mid' n he' ha

theorem Trail.ack {b : Act κ} (h : Trail base acts top)
    (hb : b.acknowledges = some (base + BitVec.ofNat 32 k)) (htop : top ≤ k)
    (hlow : (taken acts).length ≤ k) (hhigh : k ≤ (taken acts).length + 1) :
    Trail base (acts ++ [b]) k := by
  constructor
  · intro l a mid c r n n' he ha hc
    rcases cut_snoc he with ⟨hnil, -, -⟩ | ⟨mid', hmid, he'⟩
    · simp at hnil
    · rcases cut_snoc hmid.symm with ⟨-, rfl, rfl⟩ | ⟨r', rfl, rfl⟩
      · -- the last acknowledgement and an earlier one
        obtain ⟨k', hk', hle, rfl⟩ := h.upTo l a mid' n he' ha
        have hlen : (taken acts).length = (taken l).length + (taken mid').length := by
          have hcons : taken (a :: mid') = taken mid' := by
            rw [taken, List.flatMap_cons, taken_of_acknowledges ha]
            rfl
          rw [he', taken_append, List.length_append, hcons]
        refine ⟨k - k', by omega, ?_⟩
        obtain rfl := Option.some.inj (hc.symm.trans hb)
        rw [BitVec.add_assoc, ← BitVec.ofNat_add]
        congr 2
        omega
      · exact h.forward l a mid c r' n n' he' ha hc
  · intro l a mid n he ha
    rcases cut_snoc he with ⟨-, rfl, rfl⟩ | ⟨mid', -, he'⟩
    · exact ⟨k, hlow, le_refl k, Option.some.inj (ha.symm.trans hb)⟩
    · obtain ⟨k', h1, h2, h3⟩ := h.upTo l a mid' n he' ha
      exact ⟨k', h1, by omega, h3⟩

theorem Trail.mono (h : Trail base acts top) (htop : top ≤ k) : Trail base acts k := by
  refine ⟨h.forward, ?_⟩
  intro l a mid n he ha
  obtain ⟨k', h1, h2, h3⟩ := h.upTo l a mid n he ha
  exact ⟨k', h1, by omega, h3⟩

/-- Acts that take nothing and acknowledge one position, if any. -/
theorem Trail.append {new : List (Act κ)} (h : Trail base acts top) (htop : top ≤ k)
    (hlow : (taken acts).length ≤ k) (hhigh : k ≤ (taken acts).length + 1)
    (hnone : taken new = []) (hacks : AcksOnly (fun n => n = base + BitVec.ofNat 32 k) new) :
    Trail base (acts ++ new) k := by
  induction new using List.reverseRecOn with
  | nil =>
    rw [List.append_nil]
    exact h.mono htop
  | append_singleton new b ih =>
    rw [taken_append, List.append_eq_nil_iff] at hnone
    have hpre := ih hnone.1 fun a ha => hacks a (List.mem_append_left _ ha)
    have hlen : taken (acts ++ new) = taken acts := by
      rw [taken_append, hnone.1, List.append_nil]
    rw [← List.append_assoc]
    cases hb : b.acknowledges with
    | none => exact hpre.silent hb
    | some n =>
      have hn := hacks b (by simp) n hb
      rw [hn] at hb
      exact hpre.ack hb (le_refl k) (by rw [hlen]; exact hlow) (by rw [hlen]; exact hhigh)

theorem Trail.quiet {new : List (Act κ)} (h : Trail base acts top)
    (hnew : ∀ a ∈ new, a.acknowledges = none) : Trail base (acts ++ new) top := by
  induction new using List.reverseRecOn with
  | nil =>
    rw [List.append_nil]
    exact h
  | append_singleton new b ih =>
    rw [← List.append_assoc]
    exact (ih fun a ha => hnew a (List.mem_append_left _ ha)).silent (hnew b (by simp))

end Trails

/-! ## The acknowledgements of the flags -/

section Flags
variable {c : Call κ} {ts : TcpSession} (tsEcr : BitVec 32)

/-- A client that waits for the answer to its SYN answers no SYN. -/
theorem receiveSyn_silent (hs : ts.state = .synSent) :
    ∀ a ∈ (receiveSyn c tsEcr (receiveRst c (beginSegment c ts))).acts, a.acknowledges = none := by
  obtain ⟨-, -, hstate, -⟩ := receiveRst_begin c ts
  rcases receiveSyn_cases c tsEcr (receiveRst c (beginSegment c ts)) with ⟨-, he⟩ | ⟨-, -, hst, -⟩
  · rw [he]
    rcases receiveRst_cases c (beginSegment c ts) with ⟨-, hr⟩ | ⟨-, -, hr⟩
    · rw [hr]
      simp [beginSegment]
    · rw [hr]
      simp [beginSegment, Act.acknowledges]
  · rw [hstate, hs] at hst
    split at hst <;> simp at hst

theorem receiveAck_expected (fits : Segment.headerSize c.pkt.data ≤ c.pkt.data.length) :
    AcksOnly (fun n => n = expectedSeqNr c.pkt.data ts) (receiveAck c tsEcr
      (receiveSyn c tsEcr (receiveRst c (beginSegment c ts)))).acts := by
  by_cases hs : ts.state = .synSent
  · obtain ⟨hdel, -, hstate, -⟩ := receiveSyn_begin c tsEcr ts
    have hsilent := receiveSyn_silent (c := c) tsEcr hs
    have hresets : resets c.pkt.data ts.state = Segment.hasRst c.pkt.data := by
      simp [resets, hs, TcpState.rank]
    rcases receiveAck_cases c tsEcr (receiveSyn c tsEcr (receiveRst c (beginSegment c ts))) with
      ⟨-, he⟩ | ⟨hack, hd, he⟩
    · rw [he]
      exact .silent hsilent
    · rw [hdel, hresets] at hd
      have hexp : expectedSeqNr c.pkt.data ts = Segment.seqNr c.pkt.data + 1 := by
        simp [expectedSeqNr, connects, fits, hack, hd, hs]
      have hst : (receiveSyn c tsEcr (receiveRst c (beginSegment c ts))).session.state =
          .synSent := by
        rw [hstate, stateAtAck, hresets, hd]
        simp [hs]
      have hb : ackByState c tsEcr (receiveSyn c tsEcr (receiveRst c (beginSegment c ts))) =
          ackSynSent c tsEcr (receiveSyn c tsEcr (receiveRst c (beginSegment c ts))) := by
        simp only [ackByState, hst]
      rw [he, hb, ackSynSent_acts, hexp]
      refine (AcksOnly.append (.silent hsilent) ?_).append .stateChange
      split
      · exact .segment (segmentBytes_ackNr ..)
      · exact .silent (by simp)
  · have hseq : (receiveSyn c tsEcr (receiveRst c (beginSegment c ts))).session.theirSeqNr =
        ts.theirSeqNr :=
      (receiveSyn_theirSeqNr c tsEcr _).trans (receiveRst_theirSeqNr c (beginSegment c ts))
    rw [expectedSeqNr_connected hs]
    exact receiveAck_acks (receiveSyn_acks rfl) hseq fun h => hs (synSent_before_ack h).1

/-- A session past the established state answers nothing but the FIN. -/
theorem receiveAck_over (hs : ts.state.group = some 3) :
    ∀ a ∈ (receiveAck c tsEcr (receiveSyn c tsEcr (receiveRst c (beginSegment c ts)))).acts,
      a.acknowledges = none := by
  have hpast : ∀ st : TcpState, st.group = some 3 → st ≠ .listen ∧ st ≠ .synRcvd ∧
      st ≠ .synSent ∧ st ≠ .lastAck ∧ st ≠ .established := by
    intro st hst
    cases st <;> simp_all [TcpState.group]
  have hclosing : TcpState.closing.group = some 3 := rfl
  obtain ⟨-, -, hstate, -⟩ := receiveRst_begin c ts
  have hgroup : (receiveRst c (beginSegment c ts)).session.state.group = some 3 := by
    rw [hstate]
    split
    · exact hclosing
    · exact hs
  have hsyn : receiveSyn c tsEcr (receiveRst c (beginSegment c ts)) =
      receiveRst c (beginSegment c ts) := by
    rcases receiveSyn_cases c tsEcr (receiveRst c (beginSegment c ts)) with ⟨-, he⟩ | ⟨-, -, hst, -⟩
    · exact he
    · obtain ⟨h1, h2, -⟩ := hpast _ hgroup
      exact absurd hst (not_or.mpr ⟨h1, h2⟩)
  rw [hsyn]
  have hrst : ∀ a ∈ (receiveRst c (beginSegment c ts)).acts, a.acknowledges = none := by
    rcases receiveRst_cases c (beginSegment c ts) with ⟨-, hr⟩ | ⟨-, -, hr⟩
    · rw [hr]
      simp [beginSegment]
    · rw [hr]
      simp [beginSegment, Act.acknowledges]
  rcases receiveAck_cases c tsEcr (receiveRst c (beginSegment c ts)) with ⟨-, he⟩ | ⟨-, -, he⟩
  · rw [he]
    exact hrst
  · rw [he]
    obtain ⟨h1, h2, h3, h4, h5⟩ := hpast _ hgroup
    rcases ackByState_cases c tsEcr (receiveRst c (beginSegment c ts)) with
      ⟨hx, -⟩ | ⟨hx, -⟩ | ⟨hx, -⟩ | ⟨hx, -⟩ | ⟨-, -, -, -, hb⟩
    · exact absurd hx h3
    · exact absurd hx h2
    · exact absurd hx h4
    · exact absurd hx h5
    · rw [hb]
      exact hrst

theorem receiveAck_waiting (hs : ts.state = .synSent) (hno : connects c.pkt.data ts = false)
    (fits : Segment.headerSize c.pkt.data ≤ c.pkt.data.length) :
    ∀ a ∈ (receiveAck c tsEcr (receiveSyn c tsEcr (receiveRst c (beginSegment c ts)))).acts,
      a.acknowledges = none := by
  obtain ⟨hdel, -, -, -⟩ := receiveSyn_begin c tsEcr ts
  rcases receiveAck_cases c tsEcr (receiveSyn c tsEcr (receiveRst c (beginSegment c ts))) with
    ⟨-, he⟩ | ⟨hack, hd, -⟩
  · rw [he]
    exact receiveSyn_silent tsEcr hs
  · have hresets : resets c.pkt.data ts.state = Segment.hasRst c.pkt.data := by
      simp [resets, hs, TcpState.rank]
    rw [hdel, hresets] at hd
    simp [connects, fits, hack, hd, hs] at hno

variable (c ts) in
/-- The flags acknowledge what is expected next, and after it the peer's FIN if they answer it. -/
theorem atPayload_acks :
    ∃ first fin, (atPayload c tsEcr ts).acts = first ++ fin ∧ taken first = [] ∧ taken fin = [] ∧
      AcksOnly (fun n => n = expectedSeqNr c.pkt.data ts) first ∧
      AcksOnly (fun n => n = expectedSeqNr c.pkt.data ts + 1) fin ∧
      (answersFin c.pkt.data ts = false → fin = []) ∧
      (ts.state.group = some 3 ∨ ts.state = .synSent ∧ connects c.pkt.data ts = false →
        ∀ a ∈ first, a.acknowledges = none) := by
  obtain ⟨new, hnew, hflags⟩ := processFlags_does c ts tsEcr
  have hnone : ∀ a ∈ (atPayload c tsEcr ts).acts, a.taken = [] := by
    intro a ha
    rw [atPayload, hnew] at ha
    rcases List.mem_append.mp ha with ha | ha
    · simp [beginSegment] at ha
    · exact taken_of_data (hflags a ha).data
  have hsplit : ∀ first fin, (atPayload c tsEcr ts).acts = first ++ fin →
      taken first = [] ∧ taken fin = [] := by
    intro first fin he
    rw [he] at hnone
    exact ⟨taken_eq_nil fun a ha => hnone a (List.mem_append_left _ ha),
      taken_eq_nil fun a ha => hnone a (List.mem_append_right _ ha)⟩
  by_cases fits : Segment.headerSize c.pkt.data ≤ c.pkt.data.length
  · have hrun : atPayload c tsEcr ts = ackFin c tsEcr (receiveFin c (receiveAck c tsEcr
        (receiveSyn c tsEcr (receiveRst c (beginSegment c ts))))) := by
      rw [atPayload, processFlags, if_neg (by simpa [beginSegment] using fits)]
    have hexpected : AcksOnly (fun n => n = expectedSeqNr c.pkt.data ts) (receiveAck c tsEcr
        (receiveSyn c tsEcr (receiveRst c (beginSegment c ts)))).acts :=
      receiveAck_expected tsEcr fits
    have hfirst := receiveFin_acks (c := c) hexpected
    have hsilent : ts.state.group = some 3 ∨ ts.state = .synSent ∧ connects c.pkt.data ts = false →
        ∀ a ∈ (receiveFin c (receiveAck c tsEcr
          (receiveSyn c tsEcr (receiveRst c (beginSegment c ts))))).acts,
          a.acknowledges = none := by
      intro hs a ha
      have hack : ∀ a ∈ (receiveAck c tsEcr
          (receiveSyn c tsEcr (receiveRst c (beginSegment c ts)))).acts, a.acknowledges = none := by
        rcases hs with hs | ⟨hs, hno⟩
        · exact receiveAck_over tsEcr hs
        · exact receiveAck_waiting tsEcr hs hno fits
      have hnone := receiveFin_acks (P := fun _ => False) (c := c) (.silent hack) a ha
      cases hn : a.acknowledges with
      | none => rfl
      | some n => exact (hnone n hn).elim
    have hexp := processFlags_expected c tsEcr ts
    change (atPayload c tsEcr ts).session.theirSeqNr = _ at hexp
    rw [hrun, ackFin_theirSeqNr] at hexp
    rcases ackFin_cases c tsEcr (receiveFin c (receiveAck c tsEcr
      (receiveSyn c tsEcr (receiveRst c (beginSegment c ts))))) with ⟨hno, he⟩ | ⟨h1, h2, he⟩
    · rw [he] at hrun
      have hacts := (congrArg Work.acts hrun).trans (List.append_nil _).symm
      obtain ⟨ht1, ht2⟩ := hsplit _ _ hacts
      exact ⟨_, [], hacts, ht1, ht2, hfirst, .silent (by simp), fun _ => rfl, hsilent⟩
    · have hans := (processFlags_answers tsEcr fits rfl).mp ⟨h1, h2⟩
      rw [he] at hrun
      have hacts := congrArg Work.acts hrun
      dsimp only [setState_acts] at hacts
      rw [Work.send, sendFromTo_acts, hexp, List.append_assoc] at hacts
      obtain ⟨ht1, ht2⟩ := hsplit _ _ hacts
      refine ⟨_, _, hacts, ht1, ht2, hfirst, ?_, by simp [hans], hsilent⟩
      refine AcksOnly.append ?_ .stateChange
      split
      · exact .segment (segmentBytes_ackNr ..)
      · exact .silent (by simp)
  · have hshort : (atPayload c tsEcr ts).acts = [] ++ [] := by
      rw [atPayload, processFlags, if_pos (by simpa [beginSegment] using fits)]
      rfl
    exact ⟨[], [], hshort, rfl, rfl, .silent (by simp), .silent (by simp), fun _ => rfl, by simp⟩

end Flags

/-! ## The acknowledgements of a segment -/

section OneSegment
variable {c : Call κ} {ts : TcpSession} {base : BitVec 32} {acts : List (Act κ)} {top : ℕ}

/-- How far the acknowledgements are: not beyond the `n` bytes that were taken, unless the peer's
FIN was acknowledged. -/
def Reached (n : ℕ) (fin : Prop) (top : ℕ) : Prop := top ≤ n ∨ fin ∧ top ≤ n + 1

theorem Trail.flags (tsEcr : BitVec 32) {fin : Prop} (h : Trail base acts top)
    (hexp : expectedSeqNr c.pkt.data ts = base + BitVec.ofNat 32 (taken acts).length)
    (reached : Reached (taken acts).length fin top) (past : fin → ts.state.group = some 3) :
    ∃ top', Trail base (acts ++ (atPayload c tsEcr ts).acts) top' ∧
      taken (acts ++ (atPayload c tsEcr ts).acts) = taken acts ∧
      Reached (taken acts).length (fin ∨ answersFin c.pkt.data ts = true) top' := by
  obtain ⟨first, last, hacts, ht1, ht2, hfirst, hlast, hno, hsilent⟩ :=
    atPayload_acks c ts tsEcr
  have htaken1 : taken (acts ++ first) = taken acts := by
    rw [taken_append, ht1, List.append_nil]
  have htaken2 : taken (acts ++ (first ++ last)) = taken acts := by
    rw [taken_append, taken_append, ht1, ht2, List.append_nil, List.append_nil]
  rw [hexp] at hfirst hlast
  -- what comes before the FIN
  obtain ⟨top', htrail, hreach⟩ : ∃ top', Trail base (acts ++ first) top' ∧
      Reached (taken acts).length fin top' := by
    rcases reached with hle | ⟨hfin, hle⟩
    · exact ⟨_, h.append hle (le_refl _) (Nat.le_succ _) ht1 hfirst, .inl (le_refl _)⟩
    · exact ⟨top, h.quiet (hsilent (.inl (past hfin))), .inr ⟨hfin, hle⟩⟩
  rw [hacts]
  cases hans : answersFin c.pkt.data ts with
  | false =>
    rw [hno hans, List.append_nil]
    refine ⟨top', htrail, htaken1, ?_⟩
    rcases hreach with hle | ⟨hfin, hle⟩
    · exact .inl hle
    · exact .inr ⟨.inl hfin, hle⟩
  | true =>
    have hnext : base + BitVec.ofNat 32 (taken acts).length + 1 =
        base + BitVec.ofNat 32 ((taken acts).length + 1) := by
      rw [BitVec.ofNat_add, BitVec.add_assoc]
      rfl
    rw [hnext] at hlast
    have htop : top' ≤ (taken acts).length + 1 := by
      rcases hreach with hle | ⟨-, hle⟩ <;> omega
    have hend := htrail.append htop (by rw [htaken1]; omega) (by rw [htaken1]) ht2 hlast
    rw [List.append_assoc] at hend
    exact ⟨_, hend, htaken2, .inr ⟨.inr rfl, le_refl _⟩⟩

/-- The payload of a segment may be answered: it is the expected one, or one that is answered with
the expected number while no FIN is acknowledged. -/
def PayloadOk (c : Call κ) (ts : TcpSession) (fin : Prop) : Prop :=
  looksAtPayload c ts = true →
    expectedSeqNr c.pkt.data ts ≤ Segment.seqNr c.pkt.data ∧
      (Segment.seqNr c.pkt.data ≠ expectedSeqNr c.pkt.data ts → ¬ fin)

theorem Trail.payload (tsEcr : BitVec 32) {fin : Prop}
    (h : Trail base (acts ++ (atPayload c tsEcr ts).acts) top)
    (htaken : taken (acts ++ (atPayload c tsEcr ts).acts) = taken acts)
    (hexp : expectedSeqNr c.pkt.data ts = base + BitVec.ofNat 32 (taken acts).length)
    (reached : Reached (taken acts).length fin top) (ok : PayloadOk c ts fin) :
    ∃ top', Trail base (acts ++ (processPayload c tsEcr (atPayload c tsEcr ts)).acts) top' ∧
      (processPayload c tsEcr (atPayload c tsEcr ts)).session.theirSeqNr = base + BitVec.ofNat 32
        (taken (acts ++ (processPayload c tsEcr (atPayload c tsEcr ts)).acts)).length ∧
      Reached (taken (acts ++ (processPayload c tsEcr (atPayload c tsEcr ts)).acts)).length fin
        top' := by
  have hnr : (atPayload c tsEcr ts).session.theirSeqNr =
      base + BitVec.ofNat 32 (taken acts).length :=
    (processFlags_expected c tsEcr ts).trans hexp
  by_cases seen : looksAtPayload c ts = true
  · cases atPayload_step c tsEcr ts seen with
    | refused new hacts calls seq expected =>
      have hsame : taken (acts ++ ((atPayload c tsEcr ts).acts ++ new)) = taken acts := by
        rw [← List.append_assoc, taken_append, htaken, taken_eq_nil fun a ha =>
          (refused_silent (calls a ha)).2, List.append_nil]
      rw [seq, hacts, hsame, hnr]
      refine ⟨top, ?_, rfl, reached⟩
      rw [← List.append_assoc]
      exact h.quiet fun a ha => (refused_silent (calls a ha)).1
    | accepted cb new hacts replies seq expected =>
      have hmore : 0 < (Segment.payload c.pkt.data).length := by
        have hlen := ((looksAtPayload_iff c tsEcr ts).mpr seen).1
        rw [payload_length]
        omega
      have hnew : taken new = [] :=
        taken_eq_nil fun a ha => taken_of_data (replies a ha).data
      have hgiven : taken [(.newData cb (Segment.payload c.pkt.data) true : Act κ)] =
          Segment.payload c.pkt.data := by
        simp [taken, Act.taken]
      have hlen : (taken (acts ++ (atPayload c tsEcr ts).acts ++
          [.newData cb (Segment.payload c.pkt.data) true])).length =
          (taken acts).length + (Segment.payload c.pkt.data).length := by
        rw [taken_append, htaken, hgiven, List.length_append]
      have hnext : base + BitVec.ofNat 32 (taken acts).length +
          BitVec.ofNat 32 (Segment.payload c.pkt.data).length =
          base + BitVec.ofNat 32 ((taken acts).length + (Segment.payload c.pkt.data).length) := by
        rw [BitVec.add_assoc, ← BitVec.ofNat_add]
      have htop : top ≤ (taken acts).length + (Segment.payload c.pkt.data).length := by
        rcases reached with hle | ⟨-, hle⟩ <;> omega
      rw [hnr, hnext] at seq
      rw [seq] at replies
      have hgave := h.silent (b := .newData cb (Segment.payload c.pkt.data) true) rfl
      have hend := hgave.append htop (by rw [hlen]) (by rw [hlen]; omega) hnew
        (fun a ha n hn => Option.some.inj (hn.symm.trans (replies a ha).acknowledges))
      rw [List.append_assoc, List.append_assoc] at hend
      rw [List.append_assoc] at hlen
      have hall : (taken (acts ++ ((atPayload c tsEcr ts).acts ++
          ([.newData cb (Segment.payload c.pkt.data) true] ++ new)))).length =
          (taken acts).length + (Segment.payload c.pkt.data).length := by
        rw [← List.append_assoc (atPayload c tsEcr ts).acts, ← List.append_assoc acts, taken_append,
          hnew, List.append_nil, hlen]
      rw [hacts, hall]
      exact ⟨_, hend, seq, .inl (le_refl _)⟩
    | unexpected new hacts replies sent seq other =>
      have hne : Segment.seqNr c.pkt.data ≠ expectedSeqNr c.pkt.data ts := by
        rw [hexp, ← hnr]
        exact other
      have hto : unexpectedAckTo (Segment.seqNr c.pkt.data)
          (atPayload c tsEcr ts).session.theirSeqNr =
          base + BitVec.ofNat 32 (taken acts).length := by
        rw [hnr, ← hexp]
        exact (unexpectedAckTo_eq_iff hne).mpr (ok seen).1
      have htop : top ≤ (taken acts).length := by
        rcases reached with hle | ⟨hfin, -⟩
        · exact hle
        · exact absurd hfin ((ok seen).2 hne)
      have hnew : taken new = [] :=
        taken_eq_nil fun a ha => taken_of_data (replies a ha).data
      have hend := h.append htop (by rw [htaken]) (by rw [htaken]; omega) hnew
        (fun a ha n hn => (Option.some.inj (hn.symm.trans (replies a ha).acknowledges)).trans hto)
      have hsame : taken (acts ++ ((atPayload c tsEcr ts).acts ++ new)) = taken acts := by
        rw [← List.append_assoc, taken_append, htaken, hnew, List.append_nil]
      rw [List.append_assoc] at hend
      rw [seq, hacts, hsame]
      exact ⟨_, hend, hnr, .inl (le_refl _)⟩
  · have hcond := (looksAtPayload_iff c tsEcr ts).not.mpr seen
    rw [processPayload, if_neg hcond, htaken]
    exact ⟨top, h, hnr, reached⟩

theorem Trail.segment (tsEcr : BitVec 32) {fin : Prop} (h : Trail base acts top)
    (hexp : expectedSeqNr c.pkt.data ts = base + BitVec.ofNat 32 (taken acts).length)
    (reached : Reached (taken acts).length fin top) (past : fin → ts.state.group = some 3)
    (ok : PayloadOk c ts (fin ∨ answersFin c.pkt.data ts = true)) :
    ∃ top', Trail base (acts ++ (processSegment c tsEcr ts).acts) top' ∧
      (processSegment c tsEcr ts).session.theirSeqNr =
        base + BitVec.ofNat 32 (taken (acts ++ (processSegment c tsEcr ts).acts)).length ∧
      Reached (taken (acts ++ (processSegment c tsEcr ts).acts)).length
        (fin ∨ answersFin c.pkt.data ts = true) top' := by
  obtain ⟨top₁, hflags, htaken, hreach⟩ := h.flags tsEcr hexp reached past
  obtain ⟨top₂, hpayload, hseq, hreach'⟩ := hflags.payload tsEcr htaken hexp hreach ok
  obtain ⟨new, hnew, hend⟩ :=
    endSegment_silent c tsEcr (processPayload c tsEcr (atPayload c tsEcr ts))
  have hacts : (processSegment c tsEcr ts).acts =
      (processPayload c tsEcr (atPayload c tsEcr ts)).acts ++ new := hnew
  have hsame : taken (acts ++ (processSegment c tsEcr ts).acts) =
      taken (acts ++ (processPayload c tsEcr (atPayload c tsEcr ts)).acts) := by
    rw [hacts, ← List.append_assoc, taken_append, taken_eq_nil fun a ha => (hend a ha).2,
      List.append_nil]
  rw [hsame, processSegment_theirSeqNr]
  refine ⟨top₂, ?_, hseq, hreach'⟩
  rw [hacts, ← List.append_assoc]
  exact hpayload.quiet fun a ha => (hend a ha).1

end OneSegment

/-! ## Runs -/

/-- The move answers the peer's FIN. -/
def answersFinMove (m : SessionMove κ) : Bool :=
  match m.event with
  | .segment c => answersFin c.pkt.data m.before
  | _ => false

/-- What is asked of a move. Its payload, if it is looked at, is not below the expected number, and
if it is not the expected one, no FIN of the peer is acknowledged; a client has none before the
answer to its SYN. After the FIN was acknowledged the sender thread does not come by: the handler
takes the session out of the table. -/
def AckMoveOk (pre : List (SessionMove κ)) (m : SessionMove κ) : Prop :=
  match m.event with
  | .segment c =>
    PayloadOk c m.before
      ((∃ m' ∈ pre, answersFinMove m' = true) ∨ answersFin c.pkt.data m.before = true) ∧
    (looksAtPayload c m.before = true → m.before.state = .synSent →
      connects c.pkt.data m.before = true)
  | .unackedVisit _ _ _ _ => ∀ m' ∈ pre, answersFinMove m' = false
  | _ => True

instance (c : Call κ) (ts : TcpSession) (fin : Prop) [Decidable fin] :
    Decidable (PayloadOk c ts fin) :=
  inferInstanceAs (Decidable (looksAtPayload c ts = true →
    expectedSeqNr c.pkt.data ts ≤ Segment.seqNr c.pkt.data ∧
      (Segment.seqNr c.pkt.data ≠ expectedSeqNr c.pkt.data ts → ¬ fin)))

instance (pre : List (SessionMove κ)) : (m : SessionMove κ) → Decidable (AckMoveOk pre m)
  | ⟨ts, .segment c, _⟩ => inferInstanceAs (Decidable (PayloadOk c ts
      ((∃ m' ∈ pre, answersFinMove m' = true) ∨ answersFin c.pkt.data ts = true) ∧
    (looksAtPayload c ts = true → ts.state = .synSent → connects c.pkt.data ts = true)))
  | ⟨_, .unackedVisit _ _ _ _, _⟩ =>
    inferInstanceAs (Decidable (∀ m' ∈ pre, answersFinMove m' = false))
  | ⟨_, .sendData _, _⟩ => isTrue trivial
  | ⟨_, .endSession _ _, _⟩ => isTrue trivial
  | ⟨_, .waitTurn _ _ _, _⟩ => isTrue trivial
  | ⟨_, .setIsTerminating, _⟩ => isTrue trivial
  | ⟨_, .setSessionTimeout _, _⟩ => isTrue trivial

structure AckInv (tr : List (SessionMove κ)) (ts : TcpSession) : Prop where
  life : ts.state.group ≠ none
  fresh : ts.state = .synSent → (∀ a ∈ actsOf tr, a.acknowledges = none) ∧ takenOf tr = [] ∧
    ts.unackedSize = 0
  trail : ts.state ≠ .synSent → ∃ base top, Trail base (actsOf tr) top ∧
    ts.theirSeqNr = base + BitVec.ofNat 32 (takenOf tr).length ∧
    Reached (takenOf tr).length (∃ m ∈ tr, answersFinMove m = true) top
  past : (∃ m ∈ tr, answersFinMove m = true) → ts.state.group = some 3

theorem Opened.ackInv {ts : TcpSession} {acts : List (Act κ)} (h : Opened ts acts) :
    AckInv ([] : List (SessionMove κ)) ts := by
  refine ⟨h.group, ?_, ?_, by simp⟩
  · intro hs
    refine ⟨by simp [actsOf], rfl, ?_⟩
    cases h <;> rfl
  · intro _
    refine ⟨ts.theirSeqNr, 0, .start (by simp [actsOf]), ?_, .inl (Nat.zero_le _)⟩
    exact (BitVec.add_zero _).symm

theorem group_three {s t : TcpState} (h : Forward s t) (hs : s.group = some 3) :
    t.group = some 3 := by
  obtain ⟨i, j, hi, hj, hle⟩ := h
  have hlast : j ≤ 3 := by
    cases t <;> simp [TcpState.group] at hj <;> omega
  obtain rfl := Option.some.inj (hs.symm.trans hi)
  rw [hj, Nat.le_antisymm hlast hle]

theorem sessionStep_group_three {ts ts' : TcpSession} {e : SessionEvent κ} {acts : List (Act κ)}
    (made : sessionStep ts e = some (ts', acts)) (hs : ts.state.group = some 3) :
    ts'.state.group = some 3 := by
  obtain ⟨hw, -⟩ := sessionStep_walk made (by simp [hs])
  exact group_three (Path.forward hw (by simp [hs])) hs

theorem processSegment_finWait2 {c : Call κ} (tsEcr : BitVec 32) {ts : TcpSession}
    (hans : answersFin c.pkt.data ts = true) :
    (processSegment c tsEcr ts).session.state = .finWait2 := by
  have fits := answersFin_fits hans
  rw [(processSegment_state c tsEcr ts).1, processFlags,
    if_neg (by simpa [beginSegment] using fits)]
  rcases ackFin_cases c tsEcr (receiveFin c (receiveAck c tsEcr
    (receiveSyn c tsEcr (receiveRst c (beginSegment c ts))))) with ⟨hno, -⟩ | ⟨-, -, he⟩
  · exact absurd ((processFlags_answers tsEcr fits rfl).mpr hans) hno
  · rw [he]
    rfl

/-- A client that waits on has neither connected nor answered a FIN. -/
theorem processSegment_waits {c : Call κ} {tsEcr : BitVec 32} {ts : TcpSession}
    (hs : ts.state = .synSent) (h : (processSegment c tsEcr ts).session.state = .synSent) :
    connects c.pkt.data ts = false ∧ answersFin c.pkt.data ts = false := by
  constructor
  · by_contra hconn
    rw [Bool.not_eq_false] at hconn
    obtain ⟨fits, hack, hrst⟩ : Segment.headerSize c.pkt.data ≤ c.pkt.data.length ∧
        Segment.hasAck c.pkt.data = true ∧ Segment.hasRst c.pkt.data = false := by
      simp only [connects, Bool.and_eq_true, decide_eq_true_eq, Bool.not_eq_true'] at hconn
      exact ⟨hconn.1.1.1, hconn.1.1.2, hconn.1.2⟩
    have hest : establishedAfterAck c.pkt.data ts = true := by
      simp [establishedAfterAck, establishes, stateAtAck, resets, hack, hrst, hs]
    have hstage := (receiveAck_stage c tsEcr ts).established.mpr hest
    rw [(processSegment_state c tsEcr ts).1, processFlags,
      if_neg (by simpa [beginSegment] using fits)] at h
    generalize receiveAck c tsEcr (receiveSyn c tsEcr (receiveRst c (beginSegment c ts))) = w
      at h hstage
    rcases ackFin_cases c tsEcr (receiveFin c w) with ⟨-, he⟩ | ⟨-, -, he⟩
    · rcases receiveFin_cases c w with ⟨-, hf⟩ | ⟨-, -, hf⟩
      · rw [he, hf, hstage] at h
        cases h
      · rw [he, hf] at h
        cases h
    · rw [he] at h
      cases h
  · by_contra hans
    rw [processSegment_finWait2 tsEcr (by simpa using hans)] at h
    cases h

/-- What a waiting client does for a segment whose payload is not looked at. -/
theorem processSegment_silent {c : Call κ} (tsEcr : BitVec 32) {ts : TcpSession}
    (hs : ts.state = .synSent) (hconn : connects c.pkt.data ts = false)
    (hans : answersFin c.pkt.data ts = false) (hno : ¬ looksAtPayload c ts = true) :
    ∀ a ∈ (processSegment c tsEcr ts).acts, a.acknowledges = none ∧ a.taken = [] := by
  obtain ⟨first, fin, hflags, htaken, -, -, -, hfin, hsilent⟩ :=
    atPayload_acks c ts tsEcr
  obtain ⟨new, hnew, hend⟩ :=
    endSegment_silent c tsEcr (processPayload c tsEcr (atPayload c tsEcr ts))
  have hskip : processPayload c tsEcr (atPayload c tsEcr ts) = atPayload c tsEcr ts := by
    rw [processPayload, if_neg ((looksAtPayload_iff c tsEcr ts).not.mpr hno)]
  rw [hskip, hflags, hfin hans, List.append_nil] at hnew
  intro a ha
  rw [show (processSegment c tsEcr ts).acts = first ++ new by rw [← hnew, ← hskip]; rfl] at ha
  rcases List.mem_append.mp ha with ha | ha
  · exact ⟨hsilent (.inr ⟨hs, hconn⟩) a ha, List.flatMap_eq_nil_iff.mp htaken a ha⟩
  · exact hend a ha

section Step
variable {tr : List (SessionMove κ)} {ts ts' : TcpSession} {acts : List (Act κ)}

theorem finAnswered_snoc (m : SessionMove κ) :
    (∃ m' ∈ tr ++ [m], answersFinMove m' = true) ↔
      (∃ m' ∈ tr, answersFinMove m' = true) ∨ answersFinMove m = true := by
  simp [or_and_right, exists_or]

theorem AckInv.segment {c : Call κ} {tsEcr : BitVec 32} (h : AckInv tr ts)
    (ok : AckMoveOk tr ⟨ts, .segment c, (processSegment c tsEcr ts).acts⟩)
    (made : sessionStep ts (.segment c) =
      some ((processSegment c tsEcr ts).session, (processSegment c tsEcr ts).acts)) :
    AckInv (tr ++ [⟨ts, .segment c, (processSegment c tsEcr ts).acts⟩])
      (processSegment c tsEcr ts).session := by
  have hlast : ts.state ≠ .lastAck := by
    intro hs
    exact h.life (by rw [hs]; rfl)
  -- where the acknowledgements stand when the segment arrives
  obtain ⟨base, top, htrail, hexp, hreach⟩ : ∃ base top, Trail base (actsOf tr) top ∧
      expectedSeqNr c.pkt.data ts = base + BitVec.ofNat 32 (taken (actsOf tr)).length ∧
      Reached (taken (actsOf tr)).length (∃ m ∈ tr, answersFinMove m = true) top := by
    by_cases hs : ts.state = .synSent
    · obtain ⟨hsilent, htaken, -⟩ := h.fresh hs
      refine ⟨expectedSeqNr c.pkt.data ts, 0, .start hsilent, ?_, .inl (Nat.zero_le _)⟩
      rw [show taken (actsOf tr) = [] from htaken]
      exact (BitVec.add_zero _).symm
    · rw [expectedSeqNr_connected hs]
      exact h.trail hs
  refine ⟨sessionStep_group made h.life, ?_, ?_, ?_⟩
  · intro hs'
    obtain ⟨hs, hview, -⟩ := (processSegment_after (c := c) tsEcr hlast).active hs'
    obtain ⟨hconn, hans⟩ := processSegment_waits hs hs'
    obtain ⟨hsilent, htaken, hsize⟩ := h.fresh hs
    have hnew := processSegment_silent tsEcr hs hconn hans fun seen => by
      have hyes := ok.2 seen hs
      rw [hconn] at hyes
      cases hyes
    simp only [takenOf, actsOf_snoc, taken_append]
    refine ⟨?_, ?_, (congrArg (·.2.2.2) hview).trans hsize⟩
    · intro a ha
      rcases List.mem_append.mp ha with ha | ha
      · exact hsilent a ha
      · exact (hnew a ha).1
    · rw [taken_eq_nil fun a ha => (hnew a ha).2, List.append_nil]
      exact htaken
  · intro _
    obtain ⟨top', htrail', hseq, hreach'⟩ := htrail.segment tsEcr hexp hreach h.past ok.1
    simp only [takenOf, actsOf_snoc, finAnswered_snoc]
    exact ⟨base, top', htrail', hseq, hreach'⟩
  · intro hfin
    rcases (finAnswered_snoc _).mp hfin with hfin | hfin
    · exact sessionStep_group_three made (h.past hfin)
    · rw [processSegment_finWait2 tsEcr hfin]
      rfl

/-- Only a segment makes a client stop waiting or puts something into its buffer. -/
theorem sessionStep_waits {e : SessionEvent κ} (made : sessionStep ts e = some (ts', acts))
    (hne : ∀ c, e ≠ .segment c) (hs' : ts'.state = .synSent) :
    ts.state = .synSent ∧ ts'.unackedSize = ts.unackedSize := by
  cases sessionStep_change made with
  | segment c => exact absurd rfl (hne c)
  | append data room =>
    have hs : ts.state = .synSent := hs'
    simp [appends, hs] at room
  | fin => cases hs'
  | visit idev now us rc _ _ visited =>
    obtain ⟨last, r, t, -, rfl⟩ := unackedVisit_session visited
    exact ⟨hs', rfl⟩
  | wait => exact ⟨hs', rfl⟩
  | quiet => exact ⟨hs', rfl⟩

theorem AckInv.other {e : SessionEvent κ} (h : AckInv tr ts) (ok : AckMoveOk tr ⟨ts, e, acts⟩)
    (made : sessionStep ts e = some (ts', acts)) (hne : ∀ c, e ≠ .segment c) :
    AckInv (tr ++ [⟨ts, e, acts⟩]) ts' := by
  obtain ⟨hacks, hnone, hseq, -, hsilent⟩ := sessionStep_other made hne
  have hmove : answersFinMove (⟨ts, e, acts⟩ : SessionMove κ) = false := by
    cases e with
    | segment c => exact absurd rfl (hne c)
    | _ => rfl
  have hsame : takenOf (tr ++ [⟨ts, e, acts⟩]) = takenOf tr := by
    rw [takenOf_snoc, hnone, List.append_nil]
  -- the sender thread has nothing to send for a client that waits
  have hwaits : ts.state = .synSent → ∀ a ∈ acts, a.acknowledges = none := by
    intro hs
    by_cases hv : ∃ idev now us rc, e = .unackedVisit idev now us rc
    · obtain ⟨idev, now, us, rc, rfl⟩ := hv
      intro a ha
      obtain ⟨off, n, hpos, hend, -⟩ := unackedVisit_acts made a ha
      have hzero : ts.unackedSize.toNat = 0 := by rw [(h.fresh hs).2.2]; rfl
      have hle : toSend ts ≤ ts.unackedSize.toNat := toSend_le (by omega)
      omega
    · push Not at hv
      exact hsilent hv
  refine ⟨sessionStep_group made h.life, ?_, ?_, ?_⟩
  · intro hs'
    obtain ⟨hs, hsize⟩ := sessionStep_waits made hne hs'
    obtain ⟨hpre, htaken, hzero⟩ := h.fresh hs
    rw [hsame, hsize, actsOf_snoc]
    refine ⟨?_, htaken, hzero⟩
    intro a ha
    rcases List.mem_append.mp ha with ha | ha
    · exact hpre a ha
    · exact hwaits hs a ha
  · intro _
    rw [hsame, actsOf_snoc, hseq]
    simp only [finAnswered_snoc, hmove, Bool.false_eq_true, or_false]
    by_cases hs : ts.state = .synSent
    · obtain ⟨hpre, htaken, -⟩ := h.fresh hs
      refine ⟨ts.theirSeqNr, 0, Trail.quiet (.start hpre) (hwaits hs), ?_, .inl (Nat.zero_le _)⟩
      rw [htaken]
      exact (BitVec.add_zero _).symm
    · obtain ⟨base, top, htrail, hexp, hreach⟩ := h.trail hs
      refine ⟨base, ?_⟩
      by_cases hv : ∃ idev now us rc, e = .unackedVisit idev now us rc
      · obtain ⟨idev, now, us, rc, rfl⟩ := hv
        have htop : top ≤ (takenOf tr).length := by
          rcases hreach with hle | ⟨⟨m, hm, hfin⟩, -⟩
          · exact hle
          · have hno := ok m hm
            rw [hfin] at hno
            cases hno
        rw [hexp] at hacks
        exact ⟨_, htrail.append htop (le_refl _) (Nat.le_succ _) hnone hacks, hexp,
          .inl (le_refl _)⟩
      · push Not at hv
        exact ⟨top, htrail.quiet (hsilent hv), hexp, hreach⟩
  · intro hfin
    rcases (finAnswered_snoc _).mp hfin with hfin | hfin
    · exact sessionStep_group_three made (h.past hfin)
    · rw [hmove] at hfin
      cases hfin

end Step

theorem AckInv.step {tr : List (SessionMove κ)} {ts ts' : TcpSession} {e : SessionEvent κ}
    {acts : List (Act κ)} (h : AckInv tr ts) (ok : AckMoveOk tr ⟨ts, e, acts⟩)
    (made : sessionStep ts e = some (ts', acts)) : AckInv (tr ++ [⟨ts, e, acts⟩]) ts' := by
  cases e with
  | segment c =>
    cases sessionStep_change made with
    | segment _ tsEcr _ => exact h.segment ok made
    | quiet _ _ _ _ hq => exact hq.elim
  | _ => exact h.other ok made (by simp)

theorem session_run_acks {s₀ s : TcpSession} {acts₀ : List (Act κ)} {tr : List (SessionMove κ)}
    (opened : Opened s₀ acts₀) (run : Run sessionStep s₀ tr s) (ok : Throughout AckMoveOk tr) :
    AckInv tr s := by
  induction run with
  | nil => exact opened.ackInv
  | snoc _ made ih =>
    obtain ⟨hpre, hlast⟩ := ok.snoc
    exact (ih hpre).step hlast made

/-- The acknowledgements of a payload carry the expected number exactly if the segment is not below
it, in whatever state the session is. And in every run all of whose moves are as `AckMoveOk` asks,
the acknowledgements of the session never move backwards. -/
theorem ack_numbers_iff :
    (∀ (c : Call κ) (tsEcr : BitVec 32) (ts : TcpSession), PayloadAcked c tsEcr ts ↔
      (looksAtPayload c ts = true → c.idev.isSome = true →
        expectedSeqNr c.pkt.data ts ≤ Segment.seqNr c.pkt.data)) ∧
    ∀ (s₀ s : TcpSession) (acts₀ : List (Act κ)) (tr : List (SessionMove κ)), Opened s₀ acts₀ →
      Run sessionStep s₀ tr s → Throughout AckMoveOk tr → AcksForward (actsOf tr) := by
  refine ⟨payload_acked_iff, ?_⟩
  intro s₀ s acts₀ tr opened run ok
  have hinv := session_run_acks opened run ok
  by_cases hs : s.state = .synSent
  · have htrail : Trail 0 (actsOf tr) 0 := Trail.start (hinv.fresh hs).1
    exact htrail.forward
  · obtain ⟨base, top, htrail, -⟩ := hinv.trail hs
    exact htrail.forward

/-- A segment, one from the future and the next one. -/
theorem ack_numbers_gap :
    ∃ (tr : List (SessionMove Unit)) (s : TcpSession), Run sessionStep (Sample.session 6500) tr s ∧
      (actsOf tr).filterMap Act.acknowledges = [1001, 1004, 1004, 1005] ∧
      AcksForward (actsOf tr) := by
  let events : List (SessionEvent Unit) := Sample.handshake 6500 ++
    [.segment (Sample.call 3 1001 501 flagAck 6500 [31, 32, 33]),
      .segment (Sample.call 4 1006 501 flagAck 6500 [36]),
      .segment (Sample.call 5 1004 501 flagAck 6500 [34])]
  have run := exec_get_run sessionStep (Sample.session 6500) events (by decide +kernel)
  exact ⟨_, _, run, by decide +kernel,
    ack_numbers_iff.2 _ _ _ _ (Opened.server ..) run (by decide +kernel)⟩

/-- The peer repeats a segment, say because the acknowledgement was lost. It is answered with the
number of its first byte, although the session expects 1004. -/
theorem old_duplicate_acked_back :
    ∃ (tr : List (SessionMove Unit)) (s : TcpSession), Run sessionStep (Sample.session 6600) tr s ∧
      s.theirSeqNr = 1004 ∧
      ¬ PayloadAcked (Sample.call 4 1001 501 flagAck 6600 [41, 42, 43]) 0 s ∧
      ¬ AcksForward (actsOf tr) := by
  let events : List (SessionEvent Unit) := Sample.handshake 6600 ++
    [.segment (Sample.call 3 1001 501 flagAck 6600 [41, 42, 43]),
      .segment (Sample.call 4 1001 501 flagAck 6600 [41, 42, 43])]
  have run := exec_get_run sessionStep (Sample.session 6600) events (by decide +kernel)
  refine ⟨_, _, run, by decide +kernel, ?_, ?_⟩
  · rw [payload_acked_iff]
    decide +kernel
  · intro h
    obtain ⟨d, hd, he⟩ : ∃ d ≤ 1, (1001 : BitVec 32) = 1004 + BitVec.ofNat 32 d :=
      h.get (show 5 < 6 by decide) (by decide +kernel) (by decide +kernel)
    interval_cases d <;> revert he <;> decide

end MyIp.Tcp
