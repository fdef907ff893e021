import MyIp.Foundations.Exchange
import MyIp.Tcp.AckNumbers
import MyIp.Tcp.EndPoints
import MyIp.Tcp.Lookup

/-! # A connection

A client session and the server session that its SYN creates, with a network between them that
loses, repeats, delays and reorders segments. Whatever the network and the applications do, as long
as the client's session is established: what the server's application took is a beginning of what
the client's application sent, nothing is acknowledged that was not taken, and the rest is still in
the client's buffer (`connection_keeps_stream`). -/

namespace MyIp.Tcp
set_option autoImplicit false

open Bytes EventMachine

variable {κ : Type}

/-! ## Segments of a stream -/

/-- A segment of a peer that has sent `str` so far, from the number `base` on: its payload are the
bytes that its number stands for. -/
structure FromStream (base : BitVec 32) (str b : List Byte) : Prop where
  slice : Segment.payload b = (str.drop (offset base b)).take (Segment.payload b).length
  noFin : Segment.hasFin b = false

section Streams
variable {base : BitVec 32} {str str' b : List Byte}

theorem FromStream.length_le (h : FromStream base str b) :
    (Segment.payload b).length ≤ str.length - offset base b :=
  slice_length h.slice

theorem FromStream.mono (h : FromStream base str b) (more : str <+: str') :
    FromStream base str' b := by
  obtain ⟨rest, rfl⟩ := more
  have hlen := h.length_le
  refine ⟨?_, h.noFin⟩
  by_cases hin : offset base b ≤ str.length
  · rw [List.drop_append_of_le_length hin, List.take_append_of_le_length]
    · exact h.slice
    · rw [List.length_drop]
      exact hlen
  · have hnone : (Segment.payload b).length = 0 := by omega
    rw [hnone, List.take_zero]
    exact List.length_eq_zero_iff.mp hnone

/-- A segment without payload is part of every stream. -/
theorem FromStream.empty (hpayload : Segment.payload b = []) (hfin : Segment.hasFin b = false) :
    FromStream base str b := by
  refine ⟨?_, hfin⟩
  rw [hpayload]
  rfl

theorem IsReply.fromStream {ts : TcpSession} {flags : Byte} {dst src : AnyAddr}
    (h : IsReply ts flags (.segment dst src b : Act κ)) (hfin : Segment.hasFin b = false) :
    FromStream base str b := by
  obtain ⟨us, ackTo, seq, tsEcr, he⟩ := h
  obtain ⟨-, -, rfl⟩ := Act.segment.inj he
  exact .empty (segmentBytes_payload ..) hfin

end Streams

/-! ## What a client sends -/

/-- A client that waits for the answer to its SYN, or is connected. -/
def Open (ts : TcpSession) : Prop := ts.state = .synSent ∨ ts.state = .established

theorem Open.group {ts : TcpSession} (h : Open ts) : ts.state.group ≠ some 3 := by
  obtain h | h := h
  · rw [h]
    decide
  · rw [h]
    decide

section Client
variable {tr : List (SessionMove κ)} {ts ts' : TcpSession} {e : SessionEvent κ}
  {acts : List (Act κ)}

/-- A client that is open was so before. -/
theorem open_before (h : HandshakeInv tr ts) (own : ts.isClient = true)
    (made : sessionStep ts e = some (ts', acts)) (hopen : Open ts') : Open ts := by
  by_cases early : ts.state.rank < TcpState.established.rank
  · exact .inl (h.synSent_of_client own early)
  · have hforward := (sessionStep_walk made h.life).1.forward h.life
    have hlast : ts.state.group ≠ some 3 := fun hg => hopen.group (hforward.last hg)
    refine .inr ?_
    have hlife := h.life
    cases hs : ts.state <;> simp_all [TcpState.rank, TcpState.group]

theorem Open.noFin (made : sessionStep ts e = some (ts', acts)) (hopen : Open ts') :
    ∀ a ∈ acts, a.isFin = false := by
  intro a ha
  by_contra hfin
  exact hopen.group ((sessionStep_fins made).ended ⟨a, ha, by simpa using hfin⟩)

/-- The segments that an open client sends to its peer are parts of its stream. -/
theorem SendInv.sends (h : SendInv tr ts) (own : ts.isClient = true) (apart : ¬OneEnd ts)
    (short : (stream tr).length < 2 ^ 31) (made : sessionStep ts e = some (ts', acts))
    (hopen : Open ts') {dst src : AnyAddr} {b : List Byte} (hmem : .segment dst src b ∈ acts)
    (hown : SentFromOwn ts (.segment dst src b : Act κ)) :
    FromStream (ts.initialMySeqNr + 1) (stream tr) b := by
  have hfin : Segment.hasFin b = false := hopen.noFin made _ hmem
  cases sessionStep_change made with
  | segment c tsEcr _ =>
    cases processSegment_acts c tsEcr ts _ hmem with
    | flag _ hflag =>
      cases hflag with
      | reply flags _ hreply => exact hreply.fromStream hfin
      | exchanged _ _ _ _ _ _ hx => exact absurd (hx.sentFromOwn_iff.mp hown) apart
    | reply flags _ hreply => exact hreply.fromStream hfin
  | append => cases hmem
  | fin => cases hopen with
    | inl hs => cases hs
    | inr hs => cases hs
  | visit idev now us rc _ _ visited =>
    have hstate : ts'.state = ts.state := by
      obtain ⟨last, r, t, -, rfl⟩ := unackedVisit_session visited
      rfl
    obtain hs | hs := hopen
    · -- before the session is established the buffer is empty
      obtain ⟨off, n, hpos, hle, -⟩ := unackedVisit_acts visited _ hmem
      have hzero := (h.active (hstate ▸ hs)).2.1
      have hnone := @toSend_le ts (by rw [hzero]; decide)
      rw [hzero] at hnone
      have htop : (0 : BitVec 64).toNat = 0 := rfl
      omega
    · have hsending := h.established (hstate ▸ hs)
      rw [streamBase, if_pos own] at hsending
      obtain ⟨_, _, _, o, he, -, -, -, hslice, ho⟩ := hsending.visit visited _ hmem
      obtain ⟨-, -, rfl⟩ := Act.segment.inj he
      have hoff : o = offset (ts.initialMySeqNr + 1) b := ho (by omega)
      exact ⟨hoff ▸ hslice, hfin⟩
  | wait idev us counter last inInit _ _ hall =>
    exact absurd ((hall _ hmem).1.sentFromOwn_iff.mp hown) apart
  | quiet => cases hmem

end Client

/-! ## What a server acknowledges -/

/-- One of the numbers from `base` on, up to `n` further. -/
def Upto (base : BitVec 32) (n : ℕ) (x : BitVec 32) : Prop :=
  ∃ k ≤ n, x = base + BitVec.ofNat 32 k

theorem Upto.mono {base x : BitVec 32} {n n' : ℕ} (h : Upto base n x) (hle : n ≤ n') :
    Upto base n' x := by
  obtain ⟨k, hk, rfl⟩ := h
  exact ⟨k, hk.trans hle, rfl⟩

/-- The acknowledgements that a segment causes, if it does not make the session answer a FIN. -/
theorem processSegment_replies {P : BitVec 32 → Prop} {c : Call κ} (tsEcr : BitVec 32)
    {ts : TcpSession} (hs : ts.state ≠ .synSent) (hfin : answersFin c.pkt.data ts = false)
    (hp : P ts.theirSeqNr)
    (hother : Segment.headerSize c.pkt.data < c.pkt.data.length →
      Segment.seqNr c.pkt.data ≠ ts.theirSeqNr →
      P (unexpectedAckTo (Segment.seqNr c.pkt.data) ts.theirSeqNr))
    (hnext : P (processSegment c tsEcr ts).session.theirSeqNr) :
    AcksOnly P (processSegment c tsEcr ts).acts := by
  obtain ⟨first, fin, hacts, -, -, hfirst, -, hno, -⟩ := atPayload_acks c ts tsEcr
  have hexp : expectedSeqNr c.pkt.data ts = ts.theirSeqNr := expectedSeqNr_connected hs
  have hseq : (atPayload c tsEcr ts).session.theirSeqNr = ts.theirSeqNr :=
    (processFlags_expected c tsEcr ts).trans hexp
  obtain ⟨us, term, hsession⟩ :=
    endSegment_session c tsEcr (processPayload c tsEcr (atPayload c tsEcr ts))
  have hafter : (processSegment c tsEcr ts).session.theirSeqNr =
      (processPayload c tsEcr (atPayload c tsEcr ts)).session.theirSeqNr :=
    congrArg (·.theirSeqNr) hsession
  have hflags : AcksOnly P (atPayload c tsEcr ts).acts := by
    rw [hacts, hno hfin, List.append_nil]
    intro a ha n hn
    rw [hfirst a ha n hn, hexp]
    exact hp
  have hpayload : AcksOnly P (processPayload c tsEcr (atPayload c tsEcr ts)).acts := by
    by_cases seen : looksAtPayload c ts = true
    · have hcarries := ((looksAtPayload_iff c tsEcr ts).mpr seen).1
      cases atPayload_step c tsEcr ts seen with
      | refused new acts calls _ _ =>
        rw [acts]
        exact hflags.append (.silent fun a ha => (refused_silent (calls a ha)).1)
      | accepted cb new acts replies seq expected =>
        rw [acts]
        rw [hafter] at hnext
        refine hflags.append (AcksOnly.append (.silent ?_) ?_)
        · intro a ha
          obtain rfl := List.mem_singleton.mp ha
          rfl
        · intro a ha n hn
          obtain rfl := Option.some.inj ((replies a ha).acknowledges.symm.trans hn)
          exact hnext
      | unexpected new acts replies _ _ other =>
        rw [acts]
        rw [hseq] at replies other
        refine hflags.append fun a ha n hn => ?_
        obtain rfl := Option.some.inj ((replies a ha).acknowledges.symm.trans hn)
        exact hother hcarries other
    · rw [processPayload, if_neg ((looksAtPayload_iff c tsEcr ts).not.mpr seen)]
      exact hflags
  obtain ⟨new, hnew, hend⟩ :=
    endSegment_silent c tsEcr (processPayload c tsEcr (atPayload c tsEcr ts))
  have hall : (processSegment c tsEcr ts).acts =
      (processPayload c tsEcr (atPayload c tsEcr ts)).acts ++ new := hnew
  rw [hall]
  exact hpayload.append (.silent fun a ha => (hend a ha).1)

/-- The server's side, when its peer has sent `str` so far, from the number `base` on. -/
structure Receiving (base : BitVec 32) (str : List Byte) (tr : List (SessionMove κ))
    (ts : TcpSession) : Prop where
  life : ts.state.group ≠ none
  connected : ts.state ≠ .synSent
  noFin : ts.flagFinWhenAllReceived = false
  inOrder : takenOf tr <+: str
  expected : ts.theirSeqNr = base + BitVec.ofNat 32 (takenOf tr).length
  acks : AcksOnly (Upto base (takenOf tr).length) (actsOf tr)

section Server
variable {base : BitVec 32} {str : List Byte} {tr : List (SessionMove κ)} {ts : TcpSession}

theorem Receiving.start (pkt : Packet) (id : BitVec 64) (isn : BitVec 32) (str : List Byte) :
    Receiving (Segment.seqNr pkt.data + 1) str ([] : List (SessionMove κ))
      (newServerSession pkt id isn) := by
  refine ⟨?_, ?_, rfl, List.nil_prefix, ?_, .silent (by simp [actsOf])⟩
  · simp [newServerSession, TcpState.group]
  · simp [newServerSession]
  · simp [newServerSession, takenOf, taken, actsOf]

theorem Receiving.mono {str' : List Byte} (h : Receiving base str tr ts) (more : str <+: str') :
    Receiving base str' tr ts :=
  ⟨h.life, h.connected, h.noFin, h.inOrder.trans more, h.expected, h.acks⟩

theorem Receiving.length_le (h : Receiving base str tr ts) :
    (takenOf tr).length ≤ str.length :=
  h.inOrder.length_le

/-- A segment with payload that is not the expected one is answered with the smaller of the two
numbers: as long as the numbers of the stream do not wrap, nothing that was not taken. -/
theorem Receiving.unexpected (h : Receiving base str tr ts) {b : List Byte}
    (low : base.toNat + str.length < 2 ^ 32) (hb : FromStream base str b)
    (hcarries : Segment.headerSize b < b.length) (other : Segment.seqNr b ≠ ts.theirSeqNr) :
    Upto base (takenOf tr).length (unexpectedAckTo (Segment.seqNr b) ts.theirSeqNr) := by
  have hle := h.length_le
  have hin := hb.length_le
  have hlen := payload_length b
  have hnumber : ∀ {x : BitVec 32} {k : ℕ}, x = base + BitVec.ofNat 32 k → k ≤ str.length →
      x.toNat = base.toNat + k := by
    intro x k hx hk
    rw [hx, BitVec.toNat_add, BitVec.toNat_ofNat]
    omega
  have hexpected := hnumber h.expected hle
  have hseq := hnumber (seqNr_eq_offset base b) (by omega)
  have hsmall : Segment.seqNr b < ts.theirSeqNr → offset base b ≤ (takenOf tr).length := by
    intro hlt
    have := BitVec.lt_def.mp hlt
    omega
  unfold unexpectedAckTo
  split
  · exact ⟨_, le_refl _, h.expected⟩
  · split
    · next hlt => exact ⟨_, hsmall hlt, seqNr_eq_offset base b⟩
    · next h1 h2 =>
      exact absurd (BitVec.le_antisymm (BitVec.not_lt.mp h1) (BitVec.not_lt.mp h2)) other

/-- What the server keeps when a segment of its peer's stream comes. -/
theorem Receiving.segment (h : Receiving base str tr ts) {c : Call κ} (tsEcr : BitVec 32)
    (low : base.toNat + str.length < 2 ^ 32) (hb : FromStream base str c.pkt.data)
    (made : sessionStep ts (.segment c) =
      some ((processSegment c tsEcr ts).session, (processSegment c tsEcr ts).acts)) :
    Receiving base str (tr ++ [⟨ts, .segment c, (processSegment c tsEcr ts).acts⟩])
      (processSegment c tsEcr ts).session := by
  have hfin : answersFin c.pkt.data ts = false := by
    simp [answersFin, hb.noFin, h.noFin]
  obtain ⟨-, heffect⟩ := @processSegment_taken _ (fun _ => True) c tsEcr _
    h.connected trivial (fun _ _ => trivial) (fun _ => trivial) (fun _ _ => trivial)
  have hin := hb.length_le
  have hle := h.length_le
  -- the bytes of the expected segment are the next ones of the stream
  have hnext : Segment.seqNr c.pkt.data = ts.theirSeqNr →
      offset base c.pkt.data = (takenOf tr).length := by
    intro hseq
    exact offset_of_number (by omega) (hseq.trans h.expected)
  have htaken : takenOf tr ++ taken (processSegment c tsEcr ts).acts <+: str ∧
      (processSegment c tsEcr ts).session.theirSeqNr = base + BitVec.ofNat 32
        (takenOf tr ++ taken (processSegment c tsEcr ts).acts).length := by
    obtain ⟨h1, h2⟩ | ⟨h1, h2, h3⟩ := heffect
    · rw [h1, List.append_nil, h2]
      exact ⟨h.inOrder, h.expected⟩
    · obtain ⟨rest, hrest⟩ := h.inOrder
      refine ⟨?_, ?_⟩
      · have hdrop : str.drop (offset base c.pkt.data) = rest := by
          rw [hnext h1, ← hrest, List.drop_left]
        rw [h2, hb.slice, hdrop, ← hrest]
        exact (List.prefix_append_right_inj _).mpr (List.take_prefix _ _)
      · rw [h3, h2, h.expected, List.length_append, BitVec.ofNat_add, BitVec.add_assoc]
  have hgrow : (takenOf tr).length ≤ (takenOf (tr ++
      [⟨ts, .segment c, (processSegment c tsEcr ts).acts⟩])).length := by
    rw [takenOf_snoc, List.length_append]
    exact Nat.le_add_right _ _
  constructor
  · exact sessionStep_group made h.life
  · intro hs
    exact h.connected (sessionStep_synSent made h.life hs)
  · by_contra hpending
    obtain ⟨hp, -⟩ | ⟨hp, -⟩ := processSegment_pending (by simpa using hpending)
    · exact Bool.false_ne_true (h.noFin.symm.trans hp)
    · exact Bool.false_ne_true (hb.noFin.symm.trans hp)
  · rw [takenOf_snoc]
    exact htaken.1
  · rw [takenOf_snoc]
    exact htaken.2
  · rw [actsOf_snoc]
    refine AcksOnly.append (fun a ha n hn => (h.acks a ha n hn).mono hgrow) ?_
    show AcksOnly _ (processSegment c tsEcr ts).acts
    refine processSegment_replies (P := Upto base _) tsEcr h.connected hfin ?_ ?_ ?_
    · exact Upto.mono ⟨_, le_refl _, h.expected⟩ hgrow
    · intro hcarries other
      exact (h.unexpected low hb hcarries other).mono hgrow
    · rw [takenOf_snoc]
      exact ⟨_, le_refl _, htaken.2⟩

/-- What the server keeps when anything else happens. -/
theorem Receiving.other (h : Receiving base str tr ts) {ts' : TcpSession} {e : SessionEvent κ}
    {acts : List (Act κ)} (made : sessionStep ts e = some (ts', acts))
    (hne : ∀ c, e ≠ .segment c) : Receiving base str (tr ++ [⟨ts, e, acts⟩]) ts' := by
  obtain ⟨hacks, htaken, hseq, hfin, -⟩ := sessionStep_other made hne
  have hsame : takenOf (tr ++ [⟨ts, e, acts⟩]) = takenOf tr := by
    rw [takenOf_snoc]
    show takenOf tr ++ taken acts = takenOf tr
    rw [htaken, List.append_nil]
  constructor
  · exact sessionStep_group made h.life
  · intro hs
    exact h.connected (sessionStep_synSent made h.life hs)
  · exact hfin.trans h.noFin
  · rw [hsame]
    exact h.inOrder
  · rw [hsame, hseq]
    exact h.expected
  · rw [hsame, actsOf_snoc]
    refine h.acks.append ?_
    intro a ha n hn
    rw [hacks a ha n hn]
    exact ⟨_, le_refl _, h.expected⟩

end Server

/-! ## What the client makes of the acknowledgements -/

/-- The header of the segment is inside it. -/
def Act.Fits (a : Act κ) : Prop :=
  ∀ dst src b, a = .segment dst src b → Segment.headerSize b ≤ b.length

theorem segmentBytes_length (us : BitVec 64) (myAddr peerAddr : AnyAddr)
    (myPort peerPort : BitVec 16) (flags : Byte) (ackTo seq tsEcr : BitVec 32) (data : List Byte) :
    (segmentBytes us myAddr myPort peerAddr peerPort flags ackTo seq tsEcr data).length =
      data.length + 32 := by
  simp [segmentBytes, segmentWith]

theorem segment_fits (us : BitVec 64) (myAddr peerAddr dst src : AnyAddr)
    (myPort peerPort : BitVec 16) (flags : Byte) (ackTo seq tsEcr : BitVec 32) (data : List Byte) :
    Act.Fits (.segment dst src (segmentBytes us myAddr myPort peerAddr peerPort flags ackTo seq
      tsEcr data) : Act κ) := by
  rintro _ _ _ ⟨⟩
  rw [segmentBytes_headerSize, segmentBytes_length]
  exact Nat.le_add_left _ _

theorem IsReply.fits {ts : TcpSession} {flags : Byte} {a : Act κ} (h : IsReply ts flags a) :
    a.Fits := by
  obtain ⟨us, ackTo, seq, tsEcr, rfl⟩ := h
  apply segment_fits

theorem IsExchanged.fits {ts : TcpSession} {flags : Byte} {a : Act κ} (h : IsExchanged ts flags a) :
    a.Fits := by
  obtain ⟨us, ackTo, seq, tsEcr, rfl⟩ := h
  apply segment_fits

theorem sessionStep_fits {ts ts' : TcpSession} {e : SessionEvent κ} {acts : List (Act κ)}
    (made : sessionStep ts e = some (ts', acts)) : ∀ a ∈ acts, a.Fits := by
  intro a ha
  cases sessionStep_change made with
  | segment c tsEcr _ =>
    cases processSegment_acts c tsEcr ts a ha with
    | flag _ hflag =>
      cases hflag with
      | reply flags _ hreply => exact hreply.fits
      | exchanged _ _ _ _ _ _ hx => exact hx.fits
      | _ => exact fun _ _ _ he => by cases he
    | reply flags _ hreply => exact hreply.fits
    | _ => exact fun _ _ _ he => by cases he
  | append => cases ha
  | fin idev us last seq new _ hall =>
    obtain ha | ha := List.mem_append.mp ha
    · exact (hall a ha).fits
    · obtain rfl := List.mem_singleton.mp ha
      exact fun _ _ _ he => by cases he
  | visit idev now us rc _ _ visited =>
    obtain ⟨off, k, -, -, us', rfl⟩ := unackedVisit_acts visited a ha
    apply segment_fits
  | wait idev us counter last inInit _ _ hall => exact (hall a ha).1.fits
  | quiet => cases ha

/-- A segment with RST ends an established session. -/
theorem processSegment_reset {c : Call κ} (tsEcr : BitVec 32) {ts : TcpSession}
    (est : ts.state = .established) (rst : Segment.hasRst c.pkt.data = true)
    (fits : Segment.headerSize c.pkt.data ≤ c.pkt.data.length) :
    (processSegment c tsEcr ts).session.state ≠ .established := by
  obtain ⟨us, term, he⟩ := endSegment_session c tsEcr
    (processPayload c tsEcr (processFlags c tsEcr (beginSegment c ts)))
  obtain ⟨seq, us', hp⟩ := processPayload_session c tsEcr (processFlags c tsEcr (beginSegment c ts))
  have hstate : (processSegment c tsEcr ts).session.state =
      (processFlags c tsEcr (beginSegment c ts)).session.state := by
    rw [processSegment, he, hp]
  have hack : (receiveAck c tsEcr (receiveSyn c tsEcr (receiveRst c
      (beginSegment c ts)))).session.state ≠ .established := by
    rw [ne_eq, (receiveAck_stage c tsEcr ts).established]
    simp [establishedAfterAck, establishes, est, resets_established, rst, stateAtAck_established]
  rw [hstate, processFlags, if_neg (by simpa [beginSegment] using fits)]
  intro hlast
  obtain ⟨-, h1⟩ | ⟨-, -, h1⟩ := ackFin_cases c tsEcr (receiveFin c (receiveAck c tsEcr
    (receiveSyn c tsEcr (receiveRst c (beginSegment c ts)))))
  · obtain ⟨-, h2⟩ | ⟨-, -, h2⟩ := receiveFin_cases c (receiveAck c tsEcr
      (receiveSyn c tsEcr (receiveRst c (beginSegment c ts))))
    · rw [h1, h2] at hlast
      exact hack hlast
    · rw [h1, h2] at hlast
      cases hlast
  · rw [h1] at hlast
    cases hlast

/-- An acknowledgement of the first `k` bytes of the stream, read as the code does. -/
theorem Sending.ackedBytes {str : List Byte} {acked k : ℕ} {ts : TcpSession}
    (h : Sending 1 str acked ts) (short : str.length < 2 ^ 31) (hk : k ≤ str.length)
    (buffered : ts.unackedSize ≠ 0) :
    ackedBytes (ts.initialMySeqNr + 1 + BitVec.ofNat 32 k) ts = (k : ℤ) - acked := by
  have hsize := h.size
  have hdistance : ts.initialMySeqNr + 1 + BitVec.ofNat 32 k - ts.unackedStartSeqNr =
      BitVec.ofNat 32 k - BitVec.ofNat 32 acked := by
    have hone : BitVec.ofNat 32 1 = 1 := rfl
    rw [h.start buffered, h.mySeq, BitVec.ofNat_add, hone]
    ring
  rw [Tcp.ackedBytes, hdistance, BitVec.toInt_eq_toNat_cond, BitVec.toNat_sub, BitVec.toNat_ofNat,
    BitVec.toNat_ofNat]
  split <;> omega

/-! ## The end points -/

/-- What the network carries: the two addresses that `transmit_packet` is given and the bytes. -/
structure Datagram where
  dst : AnyAddr
  src : AnyAddr
  bytes : List Byte
  deriving DecidableEq

def Act.datagram : Act κ → Option Datagram
  | .segment dst src b => some ⟨dst, src, b⟩
  | _ => none

theorem Act.datagram_eq_some {a : Act κ} {d : Datagram} (h : a.datagram = some d) :
    a = .segment d.dst d.src d.bytes := by
  cases a with
  | segment dst src b =>
    cases h
    rfl
  | _ => cases h

/-- The packet was sent to the session: by its address and by its ports. -/
def AddressedTo (ts : TcpSession) (pkt : Packet) : Prop :=
  Owns ts pkt ∧ pkt.dstAddr = ts.myAddr

instance (ts : TcpSession) (pkt : Packet) : Decidable (AddressedTo ts pkt) :=
  inferInstanceAs (Decidable ((ts.theirAddr = pkt.srcAddr ∧ ts.myPort = Segment.dstPort pkt.data ∧
    ts.theirPort = Segment.srcPort pkt.data) ∧ pkt.dstAddr = ts.myAddr))

/-- A session is given the segments that are addressed to it. -/
def endPointStep (ts : TcpSession) : SessionEvent κ → Option (TcpSession × List (Act κ))
  | .segment c => if AddressedTo ts c.pkt then sessionStep ts (.segment c) else none
  | e => sessionStep ts e

def receivesDatagram : SessionEvent κ → Option Datagram
  | .segment c => some ⟨c.pkt.dstAddr, c.pkt.srcAddr, c.pkt.data⟩
  | _ => none

variable (κ) in
/-- A session as one of the two ends of a connection. -/
def endPoint : Exchange.Party TcpSession (SessionEvent κ) (List (Act κ)) Datagram where
  step := endPointStep
  receives := receivesDatagram
  sends := List.filterMap Act.datagram

theorem endPointStep_some {ts ts' : TcpSession} {e : SessionEvent κ} {acts : List (Act κ)}
    (made : endPointStep ts e = some (ts', acts)) :
    sessionStep ts e = some (ts', acts) ∧ ∀ c, e = .segment c → AddressedTo ts c.pkt := by
  cases e with
  | segment c =>
    rw [endPointStep] at made
    split at made
    · next haddr =>
      refine ⟨made, fun c' he => ?_⟩
      cases he
      exact haddr
    · cases made
  | _ => exact ⟨made, fun c he => by cases he⟩

/-- What was sent is among the acts of the history. -/
theorem mem_sent {tr : List (SessionMove κ)} {d : Datagram} (h : d ∈ (endPoint κ).sent tr) :
    .segment d.dst d.src d.bytes ∈ actsOf tr := by
  obtain ⟨m, hm, hd⟩ := List.mem_flatMap.mp h
  obtain ⟨a, ha, he⟩ := List.mem_filterMap.mp hd
  obtain rfl := Act.datagram_eq_some he
  exact List.mem_flatMap.mpr ⟨m, hm, ha⟩

/-! ## Both ends -/

variable (κ) in
/-- The two sessions, with what each of them has done. -/
abbrev Ends := Exchange.Pair TcpSession (SessionEvent κ) (List (Act κ)) TcpSession (SessionEvent κ)
  (List (Act κ))

/-- Two sessions with a network between them. `first` is what the client did when it was opened. -/
def connection (first : List (Act κ)) : Exchange.Link TcpSession (SessionEvent κ) (List (Act κ))
    TcpSession (SessionEvent κ) (List (Act κ)) Datagram where
  left := endPoint κ
  right := endPoint κ
  leftFirst := first.filterMap Act.datagram

/-- The peer of the one session is the other one. -/
def Opposite (a b : TcpSession) : Prop :=
  b.myAddr = a.theirAddr ∧ b.myPort = a.theirPort ∧ b.theirAddr = a.myAddr ∧ b.theirPort = a.myPort

/-- What the two ends keep while the client is open. -/
structure Delivering (first : List (Act κ)) (base : BitVec 32) (s : Ends κ) : Prop where
  sending : SendInv s.leftMoves s.left
  carried : ∀ d ∈ (connection first).toRight s,
    SentFromOwn s.left (.segment d.dst d.src d.bytes : Act κ) →
      FromStream base (stream s.leftMoves) d.bytes
  receiving : Receiving base (stream s.leftMoves) s.rightMoves s.right
  acked : acknowledged s.leftMoves ≤ (takenOf s.rightMoves).length

/-- What they keep in any case. -/
structure ConnectionInv (first : List (Act κ)) (base : BitVec 32) (s : Ends κ) : Prop where
  handshake : HandshakeInv s.leftMoves s.left
  client : s.left.isClient = true
  number : s.left.initialMySeqNr + 1 = base
  apart : ¬OneEnd s.left
  opposite : Opposite s.left s.right
  fits : ∀ a ∈ actsOf s.rightMoves, a.Fits
  delivering : Open s.left → (stream s.leftMoves).length < 2 ^ 31 → Delivering first base s

section Ends
variable {first : List (Act κ)} {base : BitVec 32} {s : Ends κ} {ts' : TcpSession}
  {e : SessionEvent κ} {acts : List (Act κ)}

/-- A segment that comes to the client acknowledges nothing that the server's application has not
taken. -/
theorem Delivering.acknowledges (h : Delivering first base s)
    (number : s.left.initialMySeqNr + 1 = base) (own : s.left.isClient = true)
    (short : (stream s.leftMoves).length < 2 ^ 31) {c : Call κ}
    (carried : (endPoint κ).Carried ((connection first).toLeft s) (.segment c))
    (est : s.left.state = .established) (buffered : s.left.unackedSize ≠ 0)
    (hack : Segment.hasAck c.pkt.data = true) (hrst : Segment.hasRst c.pkt.data = false) :
    acknowledged s.leftMoves + ackedBytes (Segment.ackNr c.pkt.data) s.left ≤
      (takenOf s.rightMoves).length := by
  have hmem := mem_sent (carried ⟨c.pkt.dstAddr, c.pkt.srcAddr, c.pkt.data⟩ rfl)
  obtain ⟨k, hk, hn⟩ := h.receiving.acks _ hmem (Segment.ackNr c.pkt.data) (by
    simp [Act.acknowledges, hack, hrst])
  have hsend := h.sending.established est
  rw [streamBase, if_pos own] at hsend
  rw [hn, ← number, hsend.ackedBytes short (hk.trans h.receiving.length_le) buffered]
  omega

/-- So the move of an open client is one that its buffer is made for. -/
theorem Delivering.sendOk (h : Delivering first base s) (number : s.left.initialMySeqNr + 1 = base)
    (own : s.left.isClient = true) (fits : ∀ a ∈ actsOf s.rightMoves, a.Fits)
    (short : (stream (s.leftMoves ++ [⟨s.left, e, acts⟩])).length < 2 ^ 31)
    (carried : (endPoint κ).Carried ((connection first).toLeft s) e)
    (made : sessionStep s.left e = some (ts', acts)) (hopen : Open ts') :
    SendOk ⟨s.left, e, acts⟩ := by
  rw [stream_snoc, List.length_append] at short
  cases e with
  | segment c =>
    intro hack est buffered
    cases hrst : Segment.hasRst c.pkt.data with
    | true =>
      have hfits := fits _ (mem_sent (carried ⟨c.pkt.dstAddr, c.pkt.srcAddr, c.pkt.data⟩ rfl))
        _ _ _ rfl
      cases sessionStep_change made with
      | segment _ tsEcr _ =>
        obtain hs | hs := hopen
        · have hbefore := sessionStep_synSent made h.sending.life hs
          rw [est] at hbefore
          cases hbefore
        · exact absurd hs (processSegment_reset tsEcr est hrst hfits)
      | quiet _ _ _ _ hq => exact hq.elim
    | false =>
      have hle := h.acknowledges number own (by omega) carried est buffered hack hrst
      have hsize := (h.sending.established est).size
      have hin := h.receiving.length_le
      show Tcp.ackedBytes (Segment.ackNr c.pkt.data) s.left ≤ s.left.unackedSize.toNat
      omega
  | sendData data =>
    intro happ
    have est : s.left.state = .established := by
      simp only [appends, Bool.and_eq_true, beq_iff_eq] at happ
      exact happ.2
    have hsize := (h.sending.established est).size
    have hnew : appendedBy (⟨s.left, .sendData data, acts⟩ : SessionMove κ) = data := if_pos happ
    rw [hnew] at short
    show s.left.unackedSize.toNat + data.length < 2 ^ 31
    omega
  | _ => exact trivial

theorem Delivering.acked_step (h : Delivering first base s)
    (number : s.left.initialMySeqNr + 1 = base) (own : s.left.isClient = true)
    (short : (stream s.leftMoves).length < 2 ^ 31)
    (carried : (endPoint κ).Carried ((connection first).toLeft s) e) :
    acknowledged (s.leftMoves ++ [⟨s.left, e, acts⟩]) ≤ (takenOf s.rightMoves).length := by
  have hacked := h.acked
  rw [acknowledged_snoc]
  cases e with
  | segment c =>
    simp only [acknowledgedBy]
    split
    · next hcounts =>
      obtain ⟨hcounts, est, buffered⟩ := hcounts
      simp only [ackCounts, Bool.and_eq_true, Bool.not_eq_true', decide_eq_true_eq] at hcounts
      have hle := h.acknowledges number own short carried est buffered hcounts.1.1 hcounts.1.2
      omega
    · exact hacked
  | _ => exact hacked

theorem sentFromOwn_congr {ts ts' : TcpSession} {a : Act κ} (h : ts'.identity = ts.identity) :
    SentFromOwn ts' a ↔ SentFromOwn ts a :=
  ⟨fun hs => hs.congr h, fun hs => hs.congr h.symm⟩

/-- What a move of the client keeps. -/
theorem ConnectionInv.left (h : ConnectionInv first base s)
    (carried : (endPoint κ).Carried ((connection first).toLeft s) e)
    (made : sessionStep s.left e = some (ts', acts)) :
    ConnectionInv first base (s.moveLeft e ts' acts) := by
  have hid := sessionStep_identity made
  have hfields := hid
  simp only [TcpSession.identity, Prod.mk.injEq] at hfields
  obtain ⟨h1, h2, h3, h4, h5, -, h7⟩ := hfields
  constructor
  · exact h.handshake.step made
  · exact h5.trans h.client
  · show ts'.initialMySeqNr + 1 = base
    rw [h7]
    exact h.number
  · exact fun hone => h.apart (hone.congr hid)
  · obtain ⟨o1, o2, o3, o4⟩ := h.opposite
    exact ⟨o1.trans h3.symm, o2.trans h4.symm, o3.trans h1.symm, o4.trans h2.symm⟩
  · exact h.fits
  · intro hopen short
    have hbefore : Open s.left := open_before h.handshake h.client made hopen
    have hmore : stream s.leftMoves <+: stream (s.leftMoves ++ [⟨s.left, e, acts⟩]) := by
      rw [stream_snoc]
      exact List.prefix_append _ _
    have hshort : (stream s.leftMoves).length < 2 ^ 31 := hmore.length_le.trans_lt short
    have hd := h.delivering hbefore hshort
    constructor
    · exact hd.sending.step
        (hd.sendOk h.number h.client h.fits short carried made hopen) made
    · intro d hmem hown
      have hown' := (sentFromOwn_congr hid).mp hown
      simp only [Exchange.Link.toRight, Exchange.Pair.moveLeft, Exchange.Party.sent_snoc,
        ← List.append_assoc] at hmem
      obtain hold | hnew := List.mem_append.mp hmem
      · exact (hd.carried d hold hown').mono hmore
      · obtain ⟨a, ha, he⟩ := List.mem_filterMap.mp hnew
        obtain rfl := Act.datagram_eq_some he
        rw [← h.number]
        exact (hd.sending.sends h.client h.apart hshort made hopen ha hown').mono hmore
    · exact hd.receiving.mono hmore
    · exact hd.acked_step h.number h.client hshort carried

/-- What a move of the server keeps: it is given segments of the client's stream. -/
theorem ConnectionInv.right (h : ConnectionInv first base s) (low : base.toNat ≤ 2 ^ 31)
    (carried : (endPoint κ).Carried ((connection first).toRight s) e)
    (made : endPointStep s.right e = some (ts', acts)) :
    ConnectionInv first base (s.moveRight e ts' acts) := by
  obtain ⟨hstep, haddressed⟩ := endPointStep_some made
  have hid := sessionStep_identity hstep
  simp only [TcpSession.identity, Prod.mk.injEq] at hid
  obtain ⟨h1, h2, h3, h4, -⟩ := hid
  obtain ⟨o1, o2, o3, o4⟩ := h.opposite
  constructor
  · exact h.handshake
  · exact h.client
  · exact h.number
  · exact h.apart
  · exact ⟨h1.trans o1, h2.trans o2, h3.trans o3, h4.trans o4⟩
  · intro a ha
    rw [show actsOf (s.moveRight e ts' acts).rightMoves = actsOf s.rightMoves ++ acts from
      actsOf_snoc ..] at ha
    obtain ha | ha := List.mem_append.mp ha
    · exact h.fits a ha
    · exact sessionStep_fits hstep a ha
  · intro hopen short
    have hd := h.delivering hopen short
    have hgrow : (takenOf s.rightMoves).length ≤
        (takenOf (s.rightMoves ++ [⟨s.right, e, acts⟩])).length := by
      rw [takenOf_snoc, List.length_append]
      exact Nat.le_add_right _ _
    refine ⟨hd.sending, hd.carried, ?_, hd.acked.trans hgrow⟩
    by_cases hseg : ∃ c, e = .segment c
    · obtain ⟨c, rfl⟩ := hseg
      obtain ⟨⟨a1, a2, a3⟩, a4⟩ := haddressed c rfl
      have hb := hd.carried ⟨c.pkt.dstAddr, c.pkt.srcAddr, c.pkt.data⟩ (carried _ rfl) (by
        rintro _ _ _ ⟨⟩
        exact ⟨a1.symm.trans o3, a3.symm.trans o4, a4.trans o1, a2.symm.trans o2⟩)
      have hshort : (stream s.leftMoves).length < 2 ^ 31 := short
      cases sessionStep_change hstep with
      | segment _ tsEcr _ => exact hd.receiving.segment tsEcr (by omega) hb hstep
      | quiet _ _ _ _ hq => exact hq.elim
    · exact hd.receiving.other hstep fun c hc => hseg ⟨c, hc⟩

end Ends

/-! ## From the SYN on -/

variable (κ) in
/-- A client session that has sent its SYN, and the server session that the packet with it
creates. -/
def opening (idev : Idev) (us id : BitVec 64) (dstAddr : AnyAddr) (dstPort localPort : BitVec 16)
    (random : BitVec 32) (pkt : Packet) (serverId : BitVec 64) (serverIsn : BitVec 32) :
    Ends κ where
  left := (openClientSession (κ := κ) idev us id dstAddr dstPort localPort random).1
  right := newServerSession pkt serverId serverIsn

section Opening
variable {idev : Idev} {us id serverId : BitVec 64} {dstAddr : AnyAddr}
  {dstPort localPort : BitVec 16} {random serverIsn : BitVec 32} {pkt : Packet}

theorem opening_inv (apart : ¬(idev.addr = dstAddr ∧ localPort = dstPort))
    (syn : .segment pkt.dstAddr pkt.srcAddr pkt.data ∈
      (openClientSession (κ := κ) idev us id dstAddr dstPort localPort random).2) :
    ConnectionInv (openClientSession (κ := κ) idev us id dstAddr dstPort localPort random).2
      ((random &&& 0x7fffffff) + 1)
      (opening κ idev us id dstAddr dstPort localPort random pkt serverId serverIsn) := by
  have opened : Opened (κ := κ) _ _ := .client idev us id dstAddr dstPort localPort random
  -- the only segment so far is the SYN
  have hfirst : (openClientSession (κ := κ) idev us id dstAddr dstPort localPort random).2 =
      [.segment dstAddr idev.addr (segmentBytes us idev.addr localPort dstAddr dstPort flagSyn 0
        (random &&& 0x7fffffff) 0 [])] := rfl
  rw [hfirst, List.mem_singleton] at syn
  obtain ⟨hdst, hsrc, hdata⟩ := Act.segment.inj syn
  constructor
  · exact opened.handshakeInv
  · rfl
  · rfl
  · exact apart
  · refine ⟨hdst, ?_, hsrc, ?_⟩
    · show Segment.dstPort pkt.data = dstPort
      rw [hdata, segmentBytes_dstPort]
    · show Segment.srcPort pkt.data = localPort
      rw [hdata, segmentBytes_srcPort]
  · intro a ha
    cases ha
  · intro _ _
    constructor
    · exact opened.sendInv
    · intro d hd _
      simp only [Exchange.Link.toRight, connection, hfirst, Exchange.Party.sent, opening] at hd
      obtain rfl := List.mem_singleton.mp hd
      apply FromStream.empty
      · exact segmentBytes_payload ..
      · show Segment.hasFin (segmentBytes ..) = false
        simp [Segment.hasFin]
        decide
    · have hseq : Segment.seqNr pkt.data = random &&& 0x7fffffff := by
        rw [hdata, segmentBytes_seqNr]
      rw [← hseq]
      exact Receiving.start pkt serverId serverIsn _
    · exact Nat.zero_le _

/-- In every run of the two ends, with a network that loses, repeats, delays and reorders what they
send: as long as the client is established, its peer's application took the bytes of the stream in
order, only those are acknowledged, and all others are still in the buffer. -/
theorem connection_keeps_stream (apart : ¬(idev.addr = dstAddr ∧ localPort = dstPort))
    (syn : .segment pkt.dstAddr pkt.srcAddr pkt.data ∈
      (openClientSession (κ := κ) idev us id dstAddr dstPort localPort random).2)
    {tr : List (Move (Ends κ) (SessionEvent κ ⊕ SessionEvent κ) Unit)} {t : Ends κ}
    (run : Run (connection
        (openClientSession (κ := κ) idev us id dstAddr dstPort localPort random).2).step
      (opening κ idev us id dstAddr dstPort localPort random pkt serverId serverIsn) tr t)
    (est : t.left.state = .established) (short : (stream t.leftMoves).length < 2 ^ 31) :
    takenOf t.rightMoves <+: stream t.leftMoves ∧
    acknowledged t.leftMoves ≤ (takenOf t.rightMoves).length ∧
    readAt t.left.unacked 0 t.left.unackedSize.toNat =
      (stream t.leftMoves).drop (acknowledged t.leftMoves) ∧
    (t.left.unackedSize = 0 → takenOf t.rightMoves = stream t.leftMoves) := by
  have low : ((random &&& 0x7fffffff : BitVec 32) + 1).toNat ≤ 2 ^ 31 := by
    have := Nat.and_le_right (n := random.toNat) (m := 0x7fffffff)
    have hand : (random &&& 0x7fffffff : BitVec 32).toNat = random.toNat &&& 0x7fffffff := rfl
    have hone : (1 : BitVec 32).toNat = 1 := rfl
    rw [BitVec.toNat_add, hand, hone]
    omega
  have hinv := Exchange.Link.invariant _ (opening_inv apart syn)
    (fun _ _ _ _ h carried made => h.left carried (endPointStep_some made).1)
    (fun _ _ _ _ h carried made => h.right low carried made) run
  have hd := hinv.delivering (.inr est) short
  have hsend := hd.sending.established est
  have hsize := hsend.size
  have hinOrder := hd.receiving.inOrder
  refine ⟨hinOrder, hd.acked, ?_, ?_⟩
  · rw [readAt_inside (by simpa using hsend.fits), List.drop_zero]
    exact hsend.bytes
  · intro hempty
    have hzero : t.left.unackedSize.toNat = 0 := by
      rw [hempty]
      rfl
    have hacked := hd.acked
    exact hinOrder.eq_of_length (le_antisymm hinOrder.length_le (by omega))

end Opening

/-! ## A connection for examples

The session of `Sample.device` at port 4000 and a service at port 80 of `Sample.peer`. -/

namespace Sample

def syn : Packet where
  srcAddr := host
  dstAddr := peer
  data := segmentBytes 1000000 host 4000 peer 80 flagSyn 0 100 0 []

def fromClient (us : BitVec 64) (seq : BitVec 32) (data : List Byte) : List Byte :=
  segmentBytes us host 4000 peer 80 flagAck 501 seq 0 data

def fromServer (us : BitVec 64) (flags : Byte) (seq ackTo tsEcr : BitVec 32) : List Byte :=
  segmentBytes us peer 80 host 4000 flags ackTo seq tsEcr []

def atServer (us : BitVec 64) (data : List Byte) : SessionEvent Unit :=
  .segment
    { pkt := ⟨host, peer, data, []⟩
      listener := some handler
      idev := some ⟨peer, 1480⟩
      us := us }

def atClient (us : BitVec 64) (data : List Byte) : SessionEvent Unit :=
  .segment
    { pkt := ⟨peer, host, data, []⟩
      listener := some handler
      idev := some device
      us := us }

def ends : Ends Unit := opening Unit device 1000000 7 peer 80 4000 100 syn 9 500

def link := connection (openClientSession (κ := Unit) device 1000000 7 peer 80 4000 100).2

end Sample

/-- Three bytes, of which a first segment is lost and a second one comes twice, and two more that
are still on their way when an acknowledgement and an older one after it arrive. -/
theorem connection_keeps_stream_lossy :
    ∃ (tr : List (Move (Ends Unit) (SessionEvent Unit ⊕ SessionEvent Unit) Unit)) (t : Ends Unit),
      Run Sample.link.step Sample.ends tr t ∧ stream t.leftMoves = [1, 2, 3, 4, 5] ∧
      takenOf t.rightMoves = [1, 2, 3] ∧ acknowledged t.leftMoves = 3 ∧
      readAt t.left.unacked 0 t.left.unackedSize.toNat = (stream t.leftMoves).drop 3 := by
  let events : List (SessionEvent Unit ⊕ SessionEvent Unit) :=
    [.inr (Sample.atServer 2000000 Sample.syn.data),
      .inl (Sample.atClient 3000000 (Sample.fromServer 2000000 (flagSyn ||| flagAck) 500 101 0)),
      .inl (.sendData [1, 2, 3]),
      .inl (.unackedVisit Sample.device 6000000 6000000 (fun _ => true)),
      .inl (.unackedVisit Sample.device 7000000 7000000 (fun _ => true)),
      .inr (Sample.atServer 8000000 (Sample.fromClient 7000000 101 [1, 2, 3])),
      .inr (Sample.atServer 8000001 (Sample.fromClient 7000000 101 [1, 2, 3])),
      .inl (.sendData [4, 5]),
      .inl (Sample.atClient 9000000 (Sample.fromServer 8000000 flagAck 501 104 7000000)),
      .inl (Sample.atClient 9000001 (Sample.fromServer 8000001 flagAck 501 101 7000000))]
  have run := exec_get_run Sample.link.step Sample.ends events (by decide +kernel)
  have hstream : stream ((exec Sample.link.step Sample.ends events).get
      (by decide +kernel)).2.leftMoves = [1, 2, 3, 4, 5] := by decide +kernel
  have hacked : acknowledged ((exec Sample.link.step Sample.ends events).get
      (by decide +kernel)).2.leftMoves = 3 := by decide +kernel
  obtain ⟨-, -, hbuffer, -⟩ := connection_keeps_stream (by decide +kernel)
    (List.mem_singleton_self _) run (by decide +kernel) (by rw [hstream]; decide)
  rw [hacked] at hbuffer
  exact ⟨_, _, run, hstream, by decide +kernel, hacked, hbuffer⟩

end MyIp.Tcp
