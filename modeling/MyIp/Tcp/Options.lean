import MyIp.Foundations.TurnLoop
import MyIp.Tcp.Flags

/-! # The option loop of `tcp::packet_handler` and the bytes it looks at

The loop moves a cursor from option to option by the length byte that the peer has put there. It is
a `TurnLoop` over the cursor, so it ends unless it comes to an option of length zero. The header's
length is compared with the packet's only after the loop: `optionReads` lists the places that the
loop looks at, which may be behind the packet. -/

namespace MyIp.Tcp
open Bytes TurnLoop StateTransition
set_option autoImplicit false

variable {κ : Type}

/-- Options of kind 0 and 1 consist of the kind alone. -/
def oneByteOption (pkt : Packet) (s : ℕ) : Prop := pkt.at s = 0 ∨ pkt.at s = 1

instance (pkt : Packet) (s : ℕ) : Decidable (oneByteOption pkt s) :=
  inferInstanceAs (Decidable (pkt.at s = 0 ∨ pkt.at s = 1))

/-- A timestamp that the loop takes over. -/
def echoedTimestamp (pkt : Packet) (s : ℕ) : Prop :=
  pkt.at s = 8 ∧ Segment.hasAck pkt.data ∧ s + 6 ≤ Segment.headerSize pkt.data

instance (pkt : Packet) (s : ℕ) : Decidable (echoedTimestamp pkt s) :=
  inferInstanceAs (Decidable (pkt.at s = 8 ∧ Segment.hasAck pkt.data ∧
    s + 6 ≤ Segment.headerSize pkt.data))

def optionSize (pkt : Packet) (s : ℕ) : ℕ :=
  if oneByteOption pkt s then 1 else (pkt.at (s + 1)).toNat

/-- The cursor after one turn of the loop. -/
def optionTurn (pkt : Packet) (s : ℕ) : Option ℕ :=
  if s + 2 ≤ Segment.headerSize pkt.data then some (s + optionSize pkt s) else none

theorem optionTurn_inside {pkt : Packet} {s : ℕ} (h : s + 2 ≤ Segment.headerSize pkt.data) :
    optionTurn pkt s = some (s + optionSize pkt s) :=
  if_pos h

/-- Where the options of a header start: the first one behind the fixed part, the others behind the
one before them. Two bytes before the header's end is the last place for one. -/
inductive OptionStart (pkt : Packet) : ℕ → Prop
  | first : OptionStart pkt 20
  | next {s : ℕ} (before : OptionStart pkt s) (inside : s + 2 ≤ Segment.headerSize pkt.data) :
      OptionStart pkt (s + optionSize pkt s)

theorem optionStart_iff_reaches (pkt : Packet) (s : ℕ) :
    OptionStart pkt s ↔ Reaches (optionTurn pkt) 20 s := by
  constructor
  · intro h
    induction h with
    | first => exact Relation.ReflTransGen.refl
    | next _ inside ih => exact ih.tail (optionTurn_inside inside)
  · intro h
    induction h with
    | refl => exact .first
    | tail _ made ih =>
      rw [Option.mem_def, optionTurn] at made
      split at made
      · next inside =>
        cases made
        exact .next ih inside
      · cases made

/-! ## The end of the loop -/

/-- The timestamp to echo after a turn. -/
def tsEcrAfter (pkt : Packet) (s : ℕ) (tsEcr : BitVec 32) : BitVec 32 :=
  if echoedTimestamp pkt s then
    be32 (pkt.at (s + 2)) (pkt.at (s + 3)) (pkt.at (s + 4)) (pkt.at (s + 5))
  else tsEcr

theorem scanOptions_succ (pkt : Packet) (fuel s : ℕ) (tsEcr : BitVec 32) :
    scanOptions pkt (fuel + 1) s tsEcr =
      if s + 2 ≤ Segment.headerSize pkt.data then
        scanOptions pkt fuel (s + optionSize pkt s) (tsEcrAfter pkt s tsEcr)
      else some tsEcr := by
  rw [scanOptions]
  by_cases inside : s + 2 ≤ Segment.headerSize pkt.data
  · rw [if_pos inside, if_pos inside]
    by_cases one : oneByteOption pkt s
    · have hsize : optionSize pkt s = 1 := if_pos one
      rw [hsize]
      exact if_pos one
    · have hsize : optionSize pkt s = (pkt.at (s + 1)).toNat := if_neg one
      rw [hsize]
      exact if_neg one
  · rw [if_neg inside, if_neg inside]

theorem scanOptions_ends {pkt : Packet} {fuel s : ℕ} {tsEcr : BitVec 32}
    (h : (scanOptions pkt fuel s tsEcr).isSome) : Ends (optionTurn pkt) s := by
  induction fuel generalizing s tsEcr with
  | zero => cases h
  | succ fuel ih =>
    rw [scanOptions_succ] at h
    by_cases inside : s + 2 ≤ Segment.headerSize pkt.data
    · rw [if_pos inside] at h
      rw [ends_turn_iff (optionTurn_inside inside)]
      exact ih h
    · exact ends_of_left (if_neg inside)

/-- A loop that ends needs no more turns than there are bytes up to the header's end. -/
theorem scanOptions_isSome {pkt : Packet} {fuel s : ℕ} (tsEcr : BitVec 32)
    (h : Ends (optionTurn pkt) s) (enough : Segment.headerSize pkt.data ≤ fuel + 1 + s) :
    (scanOptions pkt (fuel + 1) s tsEcr).isSome := by
  induction fuel generalizing s tsEcr with
  | zero =>
    rw [scanOptions_succ, if_neg (by omega)]
    rfl
  | succ fuel ih =>
    rw [scanOptions_succ]
    by_cases inside : s + 2 ≤ Segment.headerSize pkt.data
    · rw [if_pos inside]
      have made := optionTurn_inside inside
      have moved : optionSize pkt s ≠ 0 := by
        intro hz
        rw [hz] at made
        exact not_ends_of_standstill Relation.ReflTransGen.refl made h
      exact ih _ ((ends_turn_iff made).mp h) (by omega)
    · rw [if_neg inside]
      rfl

/-- The fuel that the model gives the loop is enough. -/
theorem optionsTSecr_isSome_iff (pkt : Packet) :
    (optionsTSecr pkt).isSome ↔ Ends (optionTurn pkt) 20 :=
  ⟨scanOptions_ends, fun h => scanOptions_isSome 0 h (by omega)⟩

theorem optionTurn_moves (pkt : Packet) (s t : ℕ) (h : optionTurn pkt s = some t) :
    Segment.headerSize pkt.data - t < Segment.headerSize pkt.data - s ∨ t = s := by
  unfold optionTurn at h
  split at h
  · cases h
    omega
  · cases h

/-- An option with a length byte, and that byte is zero. -/
def HasZeroLength (pkt : Packet) (s : ℕ) : Prop := ¬ oneByteOption pkt s ∧ pkt.at (s + 1) = 0

theorem optionSize_eq_zero_iff (pkt : Packet) (s : ℕ) :
    optionSize pkt s = 0 ↔ HasZeroLength pkt s := by
  unfold optionSize HasZeroLength
  split
  · next h => simp [h]
  · next h => simp [h, ← BitVec.toNat_inj]

theorem optionTurn_ends_iff (pkt : Packet) :
    Ends (optionTurn pkt) 20 ↔
      ∀ s, OptionStart pkt s → s + 2 ≤ Segment.headerSize pkt.data → ¬ HasZeroLength pkt s := by
  rw [ends_iff_moves _ (optionTurn_moves pkt)]
  constructor
  · intro h s hs inside hz
    refine h s ((optionStart_iff_reaches pkt s).mp hs) ?_
    rw [optionTurn_inside inside, (optionSize_eq_zero_iff pkt s).mpr hz, Nat.add_zero]
  · intro h s hs still
    unfold optionTurn at still
    split at still
    · next inside =>
      refine h s ((optionStart_iff_reaches pkt s).mpr hs) inside ?_
      rw [← optionSize_eq_zero_iff]
      have := Option.some.inj still
      omega
    · cases still

/-- The loop over the options ends if and only if it meets no option of length zero. -/
theorem option_loop_ends_iff (pkt : Packet) :
    (∃ fuel, (scanOptions pkt fuel 20 0).isSome) ↔
      ∀ s, OptionStart pkt s → s + 2 ≤ Segment.headerSize pkt.data → ¬ HasZeroLength pkt s := by
  rw [← optionTurn_ends_iff]
  constructor
  · rintro ⟨fuel, h⟩
    exact scanOptions_ends h
  · intro h
    exact ⟨_, (optionsTSecr_isSome_iff pkt).mpr h⟩

namespace Sample

/-- The packet with another byte for the data offset. -/
def withOffset (offset : Byte) (pkt : Packet) : Packet :=
  { pkt with data := pkt.data.set 12 offset }

/-- An acknowledgement with a maximum segment size option that says that it has no length. -/
def emptyOption : Packet := withOffset 0x60 (packet 1001 501 flagAck 900 [2, 0, 0, 0])

end Sample

theorem option_loop_stands_still :
    20 ≤ Sample.emptyOption.data.length ∧
      ¬ ∃ fuel, (scanOptions Sample.emptyOption fuel 20 0).isSome := by
  refine ⟨by decide, ?_⟩
  rintro ⟨fuel, h⟩
  have still : optionTurn Sample.emptyOption 20 = some 20 := by decide
  exact not_ends_of_standstill Relation.ReflTransGen.refl still (scanOptions_ends h)

/-! ## The bytes that are looked at -/

/-- The places at which a turn with the cursor at `s` looks. -/
def inspected (pkt : Packet) (s : ℕ) : List ℕ :=
  s :: (if echoedTimestamp pkt s then [s + 2, s + 3, s + 4, s + 5] else []) ++
    if oneByteOption pkt s then [] else [s + 1]

/-- The places at which the first `fuel` turns look. -/
def optionReads (pkt : Packet) : (fuel s : ℕ) → List ℕ
  | 0, _ => []
  | fuel + 1, s =>
    if s + 2 ≤ Segment.headerSize pkt.data then
      inspected pkt s ++ optionReads pkt fuel (s + optionSize pkt s)
    else []

section SameBytes
variable {pkt pkt' : Packet}
  (hsize : Segment.headerSize pkt.data = Segment.headerSize pkt'.data)
  (hack : Segment.hasAck pkt.data = Segment.hasAck pkt'.data)
include hsize hack

end SameBytes

theorem mem_optionReads_iff (pkt : Packet) (i s : ℕ) :
    (∃ fuel, i ∈ optionReads pkt fuel s) ↔
      ∃ t, Reaches (optionTurn pkt) s t ∧ t + 2 ≤ Segment.headerSize pkt.data ∧
        i ∈ inspected pkt t := by
  constructor
  · rintro ⟨fuel, hi⟩
    induction fuel generalizing s with
    | zero => cases hi
    | succ fuel ih =>
      rw [optionReads] at hi
      split at hi
      · next inside =>
        rcases List.mem_append.mp hi with hi | hi
        · exact ⟨s, Relation.ReflTransGen.refl, inside, hi⟩
        · obtain ⟨t, ht, hin, hmem⟩ := ih _ hi
          exact ⟨t, ht.head (optionTurn_inside inside), hin, hmem⟩
      · cases hi
  · rintro ⟨t, ht, hin, hmem⟩
    induction ht using Relation.ReflTransGen.head_induction_on with
    | refl =>
      refine ⟨1, ?_⟩
      rw [optionReads, if_pos hin]
      exact List.mem_append_left _ hmem
    | @head s u made _ ih =>
      obtain ⟨fuel, hi⟩ := ih
      rw [Option.mem_def, optionTurn] at made
      split at made
      · next inside =>
        cases made
        refine ⟨fuel + 1, ?_⟩
        rw [optionReads, if_pos inside]
        exact List.mem_append_right _ hi
      · cases made

/-- How many bytes of an option the loop needs: the kind, the length byte of an option that has one,
a timestamp up to the last of the four bytes that are taken over. -/
def neededBytes (pkt : Packet) (s : ℕ) : ℕ :=
  if echoedTimestamp pkt s then 6 else if oneByteOption pkt s then 1 else 2

/-- The packet ends in the middle of an option, or before it. -/
def CutOff (pkt : Packet) (s : ℕ) : Prop := pkt.data.length < s + neededBytes pkt s

theorem inspected_inside_iff (pkt : Packet) (s : ℕ) :
    (∀ i ∈ inspected pkt s, i < pkt.data.length) ↔ ¬ CutOff pkt s := by
  unfold inspected CutOff neededBytes
  by_cases echo : echoedTimestamp pkt s
  · have hk : pkt.at s = 8 := echo.1
    have one : ¬ oneByteOption pkt s := by
      rw [oneByteOption, hk]
      decide
    simp only [echo, one, if_true, if_false, List.cons_append, List.nil_append, List.mem_cons,
      List.not_mem_nil, or_false, forall_eq_or_imp, forall_eq]
    omega
  · by_cases one : oneByteOption pkt s
    · simp only [echo, one, if_true, if_false, List.append_nil, List.mem_singleton, forall_eq]
      omega
    · simp only [echo, one, if_false, List.cons_append, List.nil_append, List.mem_cons,
        List.not_mem_nil, or_false, forall_eq_or_imp, forall_eq]
      omega

/-- No option is cut off when the header fits into the packet. -/
theorem not_cutOff_of_fits {pkt : Packet} {s : ℕ}
    (fits : Segment.headerSize pkt.data ≤ pkt.data.length)
    (inside : s + 2 ≤ Segment.headerSize pkt.data) : ¬ CutOff pkt s := by
  unfold CutOff neededBytes
  split
  · next echo =>
    have := echo.2.2
    omega
  · split <;> omega

/-! ## The payload -/

theorem segment_step_inv {c : Call κ} {ts ts' : TcpSession} {acts : List (Act κ)}
    (h : sessionStep ts (.segment c) = some (ts', acts)) :
    ∃ tsEcr, optionsTSecr c.pkt = some tsEcr ∧ ts' = (processSegment c tsEcr ts).session ∧
      acts = (processSegment c tsEcr ts).acts := by
  rw [sessionStep] at h
  cases hopt : optionsTSecr c.pkt with
  | none =>
    rw [hopt] at h
    cases h
  | some tsEcr =>
    rw [hopt] at h
    obtain ⟨rfl, rfl⟩ := Prod.mk.inj (Option.some.inj h)
    exact ⟨tsEcr, rfl, rfl, rfl⟩

/-- A segment for an established session that expects it and has nothing to send reaches the
application, whatever its flags are. -/
theorem processSegment_reaches_newData {c : Call κ} {ts : TcpSession} {handler : PortHandler κ}
    {cb : κ} (tsEcr : BitVec 32) (hl : c.listener = some handler) (hc : handler.newData = some cb)
    (hcarries : Segment.headerSize c.pkt.data < c.pkt.data.length)
    (hs : ts.state = .established) (hempty : ts.unackedSize = 0)
    (hseq : ts.theirSeqNr = Segment.seqNr c.pkt.data) :
    .newData cb (Segment.payload c.pkt.data) c.newDataRc ∈ (processSegment c tsEcr ts).acts := by
  have hfail : (processFlags c tsEcr (beginSegment c ts)).fail = false := by
    rw [processFlags_fail]
    have hover : overAcks c.pkt.data ts = false := by simp [overAcks, hempty]
    have hshort : ¬ c.pkt.data.length < Segment.headerSize c.pkt.data := by omega
    simp only [flagsFail, hshort, decide_false, Bool.false_or, ackFails, hs, resets_established]
    cases hr : Segment.hasRst c.pkt.data with
    | true => simp
    | false =>
      rw [stateAtAck_established.mpr ⟨rfl, hr⟩]
      simp [hover]
  have hexp : (processFlags c tsEcr (beginSegment c ts)).session.theirSeqNr =
      Segment.seqNr c.pkt.data := by
    rw [processFlags_theirSeqNr tsEcr (by rw [hs]; decide), hseq]
  unfold processSegment
  generalize processFlags c tsEcr (beginSegment c ts) = w at hfail hexp
  obtain ⟨new, hnew, -⟩ := endSegment_acts c tsEcr (processPayload c tsEcr w)
  rw [hnew]
  refine List.mem_append_left _ ?_
  have hd : deliver c w =
      { w with
        acts := w.acts ++ [.newData cb (Segment.payload c.pkt.data) c.newDataRc]
        fail := !c.newDataRc } := by
    simp [deliver, hl, hc]
  rw [processPayload, if_pos ⟨hcarries, hfail⟩, if_pos hexp.symm, hd]
  dsimp only
  split
  · simp
  · unfold acceptPayload
    dsimp only
    split
    · rw [(send_acts _ c tsEcr flagAck _).choose_spec.1]
      simp
    · simp

/-- The places at which `packet_handler` looks before it comes to the payload. The fixed part of the
header is looked at up to the checksum, which is logged. -/
def packetReads (pkt : Packet) (fuel : ℕ) : List ℕ := List.range 18 ++ optionReads pkt fuel 20

/-- What the application gets of a packet is what follows a header of a sound length. -/
def PayloadSound (κ : Type) (pkt : Packet) : Prop :=
  ∀ (c : Call κ) (ts ts' : TcpSession) (acts : List (Act κ)) (cb : κ) (d : List Byte) (rc : Bool),
    c.pkt = pkt → sessionStep ts (.segment c) = some (ts', acts) → .newData cb d rc ∈ acts →
      d = pkt.data.drop (Segment.headerSize pkt.data) ∧ 20 ≤ Segment.headerSize pkt.data ∧
        Segment.headerSize pkt.data ≤ pkt.data.length

theorem payloadSound_of_offset {pkt : Packet} (h : 20 ≤ Segment.headerSize pkt.data) :
    PayloadSound κ pkt := by
  rintro c ts ts' acts cb d rc rfl hstep hmem
  obtain ⟨tsEcr, -, -, rfl⟩ := segment_step_inv hstep
  cases processSegment_acts c tsEcr ts _ hmem with
  | newData handler _ _ _ carries => exact ⟨rfl, h, carries.le⟩
  | flag _ hf =>
    obtain ⟨_, _, he⟩ := hf.callback rfl
    cases he
  | reply _ _ hr => cases hr.not_callback

/-- An idle connection that expects the packet next. -/
def idleSession (pkt : Packet) : TcpSession :=
  { newServerSession pkt 0 0 with
    state := .established
    theirSeqNr := Segment.seqNr pkt.data }

/-- With a data offset below five a part of the header is handed over as payload. -/
theorem offset_of_payloadSound [Nonempty κ] {pkt : Packet} (hlen : 20 ≤ pkt.data.length)
    (h : PayloadSound κ pkt) : 20 ≤ Segment.headerSize pkt.data := by
  obtain ⟨cb⟩ := ‹Nonempty κ›
  by_contra hshort
  have hends : Ends (optionTurn pkt) 20 := ends_of_left (if_neg (by omega))
  obtain ⟨tsEcr, hts⟩ := Option.isSome_iff_exists.mp ((optionsTSecr_isSome_iff pkt).mpr hends)
  let c : Call κ := ⟨pkt, some { newData := some cb }, none, 0, true, true⟩
  have hstep : sessionStep (idleSession pkt) (.segment c) =
      some ((processSegment c tsEcr (idleSession pkt)).session,
        (processSegment c tsEcr (idleSession pkt)).acts) := by
    simp only [sessionStep, c, hts]
  have hmem : .newData cb (Segment.payload pkt.data) true ∈
      (processSegment c tsEcr (idleSession pkt)).acts :=
    processSegment_reaches_newData (c := c) tsEcr rfl rfl
    (by omega : Segment.headerSize pkt.data < pkt.data.length) rfl rfl rfl
  exact hshort (h c _ _ _ cb _ _ rfl hstep hmem).2.1

/-- `packet_handler` keeps to the bytes of the packet if and only if the data offset leaves room for
the fixed part of the header and the packet does not end in the middle of the options. -/
theorem packet_reads_inside_iff [Nonempty κ] (pkt : Packet) (hlen : 20 ≤ pkt.data.length) :
    ((∀ fuel, ∀ i ∈ packetReads pkt fuel, i < pkt.data.length) ∧ PayloadSound κ pkt) ↔
      20 ≤ Segment.headerSize pkt.data ∧
        ∀ s, OptionStart pkt s → s + 2 ≤ Segment.headerSize pkt.data → ¬ CutOff pkt s := by
  constructor
  · rintro ⟨hreads, hsound⟩
    refine ⟨offset_of_payloadSound hlen hsound, ?_⟩
    intro s hs inside
    rw [← inspected_inside_iff]
    intro i hi
    obtain ⟨fuel, hmem⟩ := (mem_optionReads_iff pkt i 20).mpr
      ⟨s, (optionStart_iff_reaches pkt s).mp hs, inside, hi⟩
    exact hreads fuel i (List.mem_append_right _ hmem)
  · rintro ⟨hoffset, huncut⟩
    refine ⟨?_, payloadSound_of_offset hoffset⟩
    intro fuel i hi
    rcases List.mem_append.mp hi with hi | hi
    · have := List.mem_range.mp hi
      omega
    · obtain ⟨s, hs, inside, hmem⟩ := (mem_optionReads_iff pkt i 20).mp ⟨fuel, hi⟩
      have huncut := huncut s ((optionStart_iff_reaches pkt s).mpr hs) inside
      exact (inspected_inside_iff pkt s).mpr huncut i hmem

namespace Sample

/-- A segment with a timestamp option and one byte of data. -/
def timestamped : Packet :=
  withOffset 0x80 (packet 1001 501 flagAck 903 [8, 10, 0, 0, 0, 1, 0, 0, 0, 2, 1, 0, 65])

end Sample

theorem packet_reads_inside_timestamp :
    20 ≤ Sample.timestamped.data.length ∧
      (∀ fuel, ∀ i ∈ packetReads Sample.timestamped fuel, i < Sample.timestamped.data.length) ∧
      PayloadSound Unit Sample.timestamped :=
  ⟨by decide, (packet_reads_inside_iff Sample.timestamped (by decide)).mpr
    ⟨by decide, fun _ _ inside => not_cutOff_of_fits (by decide) inside⟩⟩

/-- A header that is longer than the packet and one that is too short for its fixed part. -/
theorem packet_reads_outside :
    (∃ i ∈ packetReads (Sample.withOffset 0xf0 (Sample.packet 1001 501 flagAck 901 [])) 1,
      ¬ i < (Sample.withOffset 0xf0 (Sample.packet 1001 501 flagAck 901 [])).data.length) ∧
    ¬ PayloadSound Unit (Sample.withOffset 0x40 (Sample.packet 1001 501 flagAck 902 [])) := by
  refine ⟨⟨20, by decide, by decide⟩, ?_⟩
  intro h
  have hoffset := offset_of_payloadSound (by decide) h
  revert hoffset
  decide

end MyIp.Tcp
