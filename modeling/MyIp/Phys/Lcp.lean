import Mathlib.Data.List.GetD
import MyIp.Phys.Xcp

/-! # PPP, what a Configure-Request does to the link

The options of a request are taken one after the other (`handleLcp_eq`): both compressions are
off at the start and an option turns one on; a character map is copied into the tables as it is come
to, and with it the two bytes behind it, since the option's length counts its header too. The answer
is made after the last option. So what the link has afterwards (`scanned_link`) is there whatever
the answer is (`request_atomic_iff`), and it is not the map that was asked for
(`negotiated_accm_iff`). -/

namespace MyIp.Phys.Ppp
open Bytes TurnLoop
set_option autoImplicit false

/-! ## Requests -/

/-- An option with a length byte that counts it and its header; a character map has 32 bits. -/
structure ConfigOption where
  type : Byte
  body : List Byte
  short : body.length < 254
  accm_size : type = 2 → body.length = 4

def ConfigOption.bytes (p : ConfigOption) : List Byte :=
  [p.type, BitVec.ofNat 8 (2 + p.body.length)] ++ p.body

def optionsBytes (options : List ConfigOption) : List Byte := options.flatMap ConfigOption.bytes

/-- What `handle_lcp` is given: the PPP header, a Configure-Request and the frame check sequence,
which nobody looks at. -/
structure ConfigureRequest where
  header : List Byte
  header_size : header.length = 4
  identifier : Byte
  options : List ConfigOption
  fcs : List Byte
  fcs_size : fcs.length = 2

def ConfigureRequest.packet (r : ConfigureRequest) : List Byte :=
  r.header ++ xcpPacket 1 r.identifier (optionsBytes r.options) ++ r.fcs

/-- The types that are acknowledged. -/
def ConfigOption.Acceptable (p : ConfigOption) : Prop :=
  p.type = 1 ∨ p.type = 2 ∨ p.type = 5 ∨ p.type = 7 ∨ p.type = 8

instance (p : ConfigOption) : Decidable p.Acceptable :=
  inferInstanceAs (Decidable (p.type = 1 ∨ p.type = 2 ∨ p.type = 5 ∨ p.type = 7 ∨ p.type = 8))

theorem ConfigOption.bytes_length (p : ConfigOption) : p.bytes.length = 2 + p.body.length := by
  rw [bytes, List.length_append]
  rfl

/-! ## One option -/

/-- What is collected of an option, and what it does to the link. -/
def LcpScan.taken (s : LcpScan) (p : ConfigOption) (following : List Byte) : LcpScan where
  ack := if p.Acceptable then s.ack ++ p.bytes else s.ack
  rej := if p.Acceptable then s.rej else s.rej ++ p.bytes
  link := { s.link with
    settings := ⟨s.link.settings.acFieldCompression || p.type == 8,
      s.link.settings.protocolCompression || p.type == 7⟩
    accmRx := if p.type = 2 then s.link.accmRx.load (p.body ++ following) else s.link.accmRx
    accmTx := if p.type = 2 then s.link.accmTx.load (p.body ++ following) else s.link.accmTx }

theorem getD_behind (before l : List Byte) (i : ℕ) :
    (before ++ l).getD (before.length + i) 0 = l.getD i 0 := by
  rw [List.getD_eq_getElem?_getD, List.getElem?_append_right (Nat.le_add_right _ i),
    Nat.add_sub_cancel_left, List.getD_eq_getElem?_getD]

/-- An option in its place: `before` it and `behind` it. -/
structure Placed (data : List Byte) (before : List Byte) (p : ConfigOption) (behind : List Byte) :
    Prop where
  here : data = before ++ (p.bytes ++ behind)
  more : 2 ≤ behind.length

namespace Placed

variable {data before behind : List Byte} {p : ConfigOption}

theorem length (h : Placed data before p behind) :
    data.length = before.length + (2 + p.body.length + behind.length) := by
  rw [h.here, List.length_append, List.length_append, p.bytes_length]

theorem drop (h : Placed data before p behind) : data.drop before.length = p.bytes ++ behind := by
  rw [h.here, List.drop_left]

theorem getD (h : Placed data before p behind) (i : ℕ) :
    data.getD (before.length + i) 0 = (p.bytes ++ behind).getD i 0 := by
  rw [h.here, getD_behind]

theorem type_eq (h : Placed data before p behind) : data.getD before.length 0 = p.type :=
  h.getD 0

theorem optionLen_eq (h : Placed data before p behind) :
    optionLen data before.length = 2 + p.body.length := by
  have hshort := p.short
  have hbyte : data.getD (before.length + 1) 0 = BitVec.ofNat 8 (2 + p.body.length) := h.getD 1
  rw [optionLen, hbyte, toNat_ofNat_of_lt (by omega)]

theorem optionBytes_eq (h : Placed data before p behind) :
    optionBytes data before.length = p.bytes := by
  rw [optionBytes, h.drop, h.optionLen_eq, ← p.bytes_length, List.take_left]

/-- The map and the two bytes behind it. -/
theorem lcpAccmBytes_eq (h : Placed data before p behind) (htype : p.type = 2) :
    lcpAccmBytes data before.length = p.body ++ behind.take 2 := by
  have hsize := p.accm_size htype
  rw [lcpAccmBytes, h.optionLen_eq, ← List.drop_drop, h.drop]
  show (p.body ++ behind).take (2 + p.body.length) = _
  rw [List.take_append, List.take_of_length_le (by omega)]
  congr 2
  omega

theorem not_lcpThrows (h : Placed data before p behind) (st : Station) :
    ¬ lcpThrows st data before.length := by
  have hlen := h.length
  have hmore := h.more
  unfold lcpThrows
  rw [h.type_eq, h.optionLen_eq]
  rintro (⟨-, -, hshort⟩ | ⟨htype, hlong⟩)
  · omega
  · have := p.accm_size htype
    omega

theorem lcpOption_eq (h : Placed data before p behind) (st : Station) (s : LcpScan) :
    lcpOption st data before.length s = some (s.taken p (behind.take 2), false) := by
  unfold lcpOption
  dsimp only
  rw [if_neg (h.not_lcpThrows st), h.type_eq, h.optionBytes_eq]
  unfold LcpScan.taken LcpScan.acked LcpScan.rejected
  by_cases h1 : p.type = 1
  · simp [ConfigOption.Acceptable, h1]
  by_cases h2 : p.type = 2
  · simp [ConfigOption.Acceptable, h2, h.lcpAccmBytes_eq h2]
  by_cases h5 : p.type = 5
  · simp [ConfigOption.Acceptable, h5]
  by_cases h7 : p.type = 7
  · simp [ConfigOption.Acceptable, h7]
  by_cases h8 : p.type = 8
  · simp [ConfigOption.Acceptable, h8]
  have hno : ¬ p.Acceptable := by
    unfold ConfigOption.Acceptable
    tauto
  rw [if_neg h1, if_neg h2, if_neg h5, if_neg h7, if_neg h8, if_neg hno, if_neg hno, if_neg h2,
    if_neg h2, beq_eq_false_iff_ne.mpr h7, beq_eq_false_iff_ne.mpr h8, Bool.or_false,
    Bool.or_false]

theorem optionStep_eq (h : Placed data before p behind) (st : Station) (s : LcpScan)
    (outside : Bool) :
    optionStep st.logDebug data (lcpOption st data) ⟨before.length, s, outside⟩ =
      .inl ⟨(before ++ p.bytes).length, s.taken p (behind.take 2), outside⟩ := by
  have hlen := h.length
  have hmore := h.more
  unfold optionStep
  dsimp only
  rw [if_pos (by omega), h.optionLen_eq, if_neg (by omega), h.lcpOption_eq st s]
  simp [p.bytes_length]

end Placed

/-! ## All options -/

/-- What is collected, and the link, after the last option. -/
def scanned (fcs : List Byte) : List ConfigOption → LcpScan → LcpScan
  | [], s => s
  | p :: ps, s => scanned fcs ps (s.taken p ((optionsBytes ps ++ fcs).take 2))

theorem run_options (st : Station) {fcs : List Byte} (hfcs : fcs.length = 2) {n : ℕ}
    (options : List ConfigOption) (before : List Byte) (s : LcpScan) (outside : Bool)
    {data : List Byte} (hdata : data = before ++ (optionsBytes options ++ fcs))
    (enough : options.length < n) :
    run (optionStep st.logDebug data (lcpOption st data)) n ⟨before.length, s, outside⟩ =
      some (some (scanned fcs options s, outside)) := by
  induction options generalizing before s n with
  | nil =>
    obtain ⟨n, rfl⟩ : ∃ m, n = m + 1 := ⟨n - 1, by simp at enough; omega⟩
    have hleft : ¬ before.length < data.length - 2 := by
      rw [hdata]
      simp [optionsBytes, hfcs]
    refine run_left ?_ n
    unfold optionStep
    rw [if_neg hleft]
    rfl
  | cons p ps ih =>
    obtain ⟨n, rfl⟩ : ∃ m, n = m + 1 := ⟨n - 1, by simp at enough; omega⟩
    have placed : Placed data before p (optionsBytes ps ++ fcs) := by
      constructor
      · rw [hdata, optionsBytes, List.flatMap_cons, List.append_assoc]
        rfl
      · rw [List.length_append]
        omega
    rw [run_next (placed.optionStep_eq st s outside) n]
    refine ih (before ++ p.bytes) _ ?_ ?_
    · rw [placed.here, List.append_assoc]
    · simpa using enough

namespace ConfigureRequest

variable (r : ConfigureRequest)

theorem packet_eq : r.packet = (r.header ++ [1, r.identifier] ++
    be16Bytes (BitVec.ofNat 16 (4 + (optionsBytes r.options).length))) ++
      (optionsBytes r.options ++ r.fcs) := by
  simp [packet, xcpPacket]

theorem packet_length : r.packet.length = 10 + (optionsBytes r.options).length := by
  simp [packet_eq, r.header_size, r.fcs_size]
  omega

theorem optionsBytes_length (options : List ConfigOption) :
    options.length ≤ (optionsBytes options).length := by
  unfold optionsBytes
  induction options with
  | nil => exact Nat.le_refl _
  | cons p ps ih =>
    rw [List.flatMap_cons, List.length_append, p.bytes_length, List.length_cons]
    omega

theorem packet_getD (i : ℕ) : r.packet.getD (4 + i) 0 =
    (xcpPacket 1 r.identifier (optionsBytes r.options) ++ r.fcs).getD i 0 := by
  rw [packet, List.append_assoc, ← r.header_size, getD_behind]

theorem entered : Entered r.packet 1 := by
  have hlen := r.packet_length
  refine ⟨by omega, ?_, r.packet_getD 0⟩
  have hlength : xcpLength r.packet = (4 + (optionsBytes r.options).length) % 2 ^ 16 := by
    have h6 : r.packet.getD 6 0 = _ := r.packet_getD 2
    have h7 : r.packet.getD 7 0 = _ := r.packet_getD 3
    rw [xcpLength, h6, h7]
    show (be16 ((BitVec.ofNat 16 (4 + (optionsBytes r.options).length) >>> 8).setWidth 8)
      ((BitVec.ofNat 16 (4 + (optionsBytes r.options).length)).setWidth 8)).toNat = _
    rw [be16_be16Bytes, BitVec.toNat_ofNat]
  rw [hlength, hlen]
  have := Nat.mod_le (4 + (optionsBytes r.options).length) (2 ^ 16)
  omega

/-- What is collected of a request, and the link after it. -/
def result (link : Link) : LcpScan := scanned r.fcs r.options ⟨[], [], link.renegotiating⟩

theorem optionLoop_eq (st : Station) (link : Link) :
    optionLoop st.logDebug r.packet (lcpOption st r.packet) ⟨[], [], link.renegotiating⟩ =
      .returns (r.result link) false := by
  have hcount := optionsBytes_length r.options
  have hlen := r.packet_length
  have hrun := run_options st r.fcs_size r.options _ ⟨[], [], link.renegotiating⟩ false r.packet_eq
    (show r.options.length < r.packet.length by omega)
  have hstart : (r.header ++ [1, r.identifier] ++
      be16Bytes (BitVec.ofNat 16 (4 + (optionsBytes r.options).length))).length = 8 := by
    simp [r.header_size]
  rw [hstart] at hrun
  rw [optionLoop, scanStart, hrun]
  rfl

theorem handleLcp_eq (st : Station) (link : Link) :
    handleLcp st link r.packet = .returns ((r.result link).link,
      lcpAnswer r.identifier (r.result link) ++ lcpRequest (r.result link).link) false := by
  have hid : xcpIdentifier r.packet = r.identifier := r.packet_getD 1
  rw [handleLcp, handleXcp_entered r.entered, if_pos rfl, r.optionLoop_eq st link, hid]
  rfl

/-- What is said of all that a request leads to is said of this. -/
theorem handled_iff (st : Station) (link : Link) (P : Link → List Sent → Prop) :
    (∃ link' sent outside,
      handleLcp st link r.packet = .returns (link', sent) outside ∧ P link' sent) ↔
      P (r.result link).link
        (lcpAnswer r.identifier (r.result link) ++ lcpRequest (r.result link).link) := by
  rw [r.handleLcp_eq st link]
  constructor
  · rintro ⟨link', sent, outside, heq, h⟩
    cases heq
    exact h
  · intro h
    exact ⟨_, _, _, rfl, h⟩

end ConfigureRequest

/-! ## The link after a request -/

/-- The map of the last such option and the two bytes behind it: the next option's header or the
frame check sequence. -/
def lastAccm (fcs : List Byte) : List ConfigOption → Option (List Byte)
  | [] => none
  | p :: ps => (lastAccm fcs ps).or
      (if p.type = 2 then some (p.body ++ (optionsBytes ps ++ fcs).take 2) else none)

def Accm.loadLast (accm : Accm) (bytes : Option (List Byte)) : Accm := bytes.elim accm accm.load

theorem Accm.load_getElem (accm : Accm) (bytes : List Byte) {i : ℕ} (hi : i < 32) :
    (accm.load bytes)[i] = bytes.getD i accm[i] := by
  unfold load
  rw [Vector.getElem_ofFn]
  rfl

theorem Accm.load_load (accm : Accm) {a b : List Byte} (h : a.length = b.length) :
    (accm.load a).load b = accm.load b := by
  apply Vector.ext
  intro i hi
  rw [load_getElem, load_getElem, load_getElem]
  by_cases hb : i < b.length
  · rw [List.getD_eq_getElem _ _ hb, List.getD_eq_getElem _ _ hb]
  · rw [List.getD_eq_default a _ (by omega)]

theorem lastAccm_length {fcs : List Byte} (hfcs : fcs.length = 2) {options : List ConfigOption}
    {bytes : List Byte} (h : lastAccm fcs options = some bytes) : bytes.length = 6 := by
  induction options with
  | nil => cases h
  | cons p ps ih =>
    rw [lastAccm, Option.or_eq_some_iff] at h
    rcases h with h | ⟨-, h⟩
    · exact ih h
    · rw [Option.ite_none_right_eq_some, Option.some_inj] at h
      obtain ⟨htype, rfl⟩ := h
      have := p.accm_size htype
      simp only [List.length_append, List.length_take]
      omega

/-- A map is overwritten by a later one, with its two bytes. -/
theorem Accm.loadLast_cons {fcs : List Byte} (hfcs : fcs.length = 2) (accm : Accm)
    (p : ConfigOption) (ps : List ConfigOption) :
    (if p.type = 2 then accm.load (p.body ++ (optionsBytes ps ++ fcs).take 2) else accm).loadLast
      (lastAccm fcs ps) = accm.loadLast (lastAccm fcs (p :: ps)) := by
  unfold loadLast
  rw [lastAccm]
  by_cases htype : p.type = 2
  · rw [if_pos htype, if_pos htype]
    cases hlast : lastAccm fcs ps with
    | none => rfl
    | some bytes =>
      have hsize := p.accm_size htype
      have hsix := lastAccm_length hfcs hlast
      refine accm.load_load ?_
      simp only [List.length_append, List.length_take]
      omega
  · rw [if_neg htype, if_neg htype, Option.or_none]

theorem scanned_link {fcs : List Byte} (hfcs : fcs.length = 2) (options : List ConfigOption)
    (s : LcpScan) :
    (scanned fcs options s).link = { s.link with
      settings := ⟨s.link.settings.acFieldCompression || options.any (·.type == 8),
        s.link.settings.protocolCompression || options.any (·.type == 7)⟩
      accmRx := s.link.accmRx.loadLast (lastAccm fcs options)
      accmTx := s.link.accmTx.loadLast (lastAccm fcs options) } := by
  induction options generalizing s with
  | nil => simp [scanned, lastAccm, Accm.loadLast]
  | cons p ps ih =>
    rw [scanned, ih]
    simp only [LcpScan.taken, Accm.loadLast_cons hfcs, List.any_cons, Bool.or_assoc]

/-- All that is acknowledged is acceptable, all that is rejected is not. -/
theorem scanned_rej_eq_nil_iff (fcs : List Byte) (options : List ConfigOption) (s : LcpScan) :
    (scanned fcs options s).rej = [] ↔ s.rej = [] ∧ ∀ p ∈ options, p.Acceptable := by
  induction options generalizing s with
  | nil => simp [scanned]
  | cons p ps ih =>
    rw [scanned, ih, List.forall_mem_cons, ← and_assoc]
    refine and_congr_left fun _ => ?_
    unfold LcpScan.taken
    dsimp only
    split
    · next h => simp [h]
    · next h => simp [h, ConfigOption.bytes]

theorem scanned_ack_eq_nil_iff (fcs : List Byte) (options : List ConfigOption) (s : LcpScan) :
    (scanned fcs options s).ack = [] ↔ s.ack = [] ∧ ∀ p ∈ options, ¬ p.Acceptable := by
  induction options generalizing s with
  | nil => simp [scanned]
  | cons p ps ih =>
    rw [scanned, ih, List.forall_mem_cons, ← and_assoc]
    refine and_congr_left fun _ => ?_
    unfold LcpScan.taken
    dsimp only
    split
    · next h => simp [h, ConfigOption.bytes]
    · next h => simp [h]

/-! ## Atomic requests -/

def Link.parameters (link : Link) : Settings × Accm × Accm :=
  (link.settings, link.accmRx, link.accmTx)

def Answered (code : Byte) (sent : List Sent) : Prop :=
  ∃ m ∈ sent, m.protocol = 0xc021 ∧ m.packet.head? = some code

/-- The parameters change with a Configure-Ack only, and not with a Configure-Reject. -/
def Atomic (st : Station) (link : Link) (r : ConfigureRequest) : Prop :=
  ∃ link' sent outside, handleLcp st link r.packet = .returns (link', sent) outside ∧
    (link'.parameters ≠ link.parameters → Answered 2 sent) ∧
    (Answered 4 sent → link'.parameters = link.parameters)

theorem answered_append_iff {code : Byte} (hcode : code ≠ 1) (sent : List Sent) (link : Link) :
    Answered code (sent ++ lcpRequest link) ↔ Answered code sent := by
  constructor
  · rintro ⟨m, hm, hprotocol, hhead⟩
    rcases List.mem_append.mp hm with hm | hm
    · exact ⟨m, hm, hprotocol, hhead⟩
    · unfold lcpRequest at hm
      split at hm
      · rw [List.mem_singleton.mp hm] at hhead
        exact absurd (Option.some.inj hhead).symm hcode
      · cases hm
  · rintro ⟨m, hm, h⟩
    exact ⟨m, List.mem_append_left _ hm, h⟩

theorem answered_ack_iff (identifier : Byte) (s : LcpScan) :
    Answered 2 (lcpAnswer identifier s) ↔ s.rej = [] ∧ s.ack ≠ [] := by
  unfold lcpAnswer Answered
  by_cases hrej : s.rej = [] <;> by_cases hack : s.ack = [] <;>
    simp [hrej, hack, sendRej, sendAck, sendXcp, transmitLow, xcpPacket]

theorem answered_rej_iff (identifier : Byte) (s : LcpScan) :
    Answered 4 (lcpAnswer identifier s) ↔ s.rej ≠ [] := by
  unfold lcpAnswer Answered
  by_cases hrej : s.rej = [] <;> by_cases hack : s.ack = [] <;>
    simp [hrej, hack, sendRej, sendAck, sendXcp, transmitLow, xcpPacket]

theorem Accm.load_eq_self_iff (accm : Accm) {bytes : List Byte} (h : bytes.length ≤ 32) :
    accm.load bytes = accm ↔ bytes <+: accm.toList := by
  rw [List.prefix_iff_getElem]
  constructor
  · intro heq
    refine ⟨by simpa using h, ?_⟩
    intro i hi
    have hget := accm.load_getElem bytes (i := i) (by omega)
    rw [List.getD_eq_getElem _ _ hi] at hget
    rw [← hget]
    simp [heq]
  · rintro ⟨_, hget⟩
    apply Vector.ext
    intro i hi
    rw [load_getElem]
    by_cases hlt : i < bytes.length
    · rw [List.getD_eq_getElem _ _ hlt, hget i hlt]
      simp
    · rw [List.getD_eq_default _ _ (by omega)]

/-- The link has what the options of a request will make of it. -/
def AlreadyNegotiated (link : Link) (r : ConfigureRequest) : Prop :=
  link.settings = ⟨r.options.any (·.type == 8), r.options.any (·.type == 7)⟩ ∧
  ∀ bytes, lastAccm r.fcs r.options = some bytes →
    bytes <+: link.accmRx.toList ∧ bytes <+: link.accmTx.toList

theorem result_parameters_eq_iff (link : Link) (r : ConfigureRequest) :
    (r.result link).link.parameters = link.parameters ↔ AlreadyNegotiated link r := by
  rw [ConfigureRequest.result, scanned_link r.fcs_size, Link.parameters, Link.parameters,
    Prod.mk.injEq, Prod.mk.injEq]
  refine and_congr ?_ ?_
  · simp only [Link.renegotiating, Bool.false_or]
    exact eq_comm
  · unfold Accm.loadLast
    cases hlast : lastAccm r.fcs r.options with
    | none => simp [Link.renegotiating]
    | some bytes =>
      have hsix := lastAccm_length r.fcs_size hlast
      simp only [Option.elim_some, Link.renegotiating, Option.some_inj, forall_eq']
      rw [Accm.load_eq_self_iff _ (by omega), Accm.load_eq_self_iff _ (by omega)]

theorem result_answered_ack_iff (link : Link) (r : ConfigureRequest) :
    (r.result link).rej = [] ∧ (r.result link).ack ≠ [] ↔
      r.options ≠ [] ∧ ∀ p ∈ r.options, p.Acceptable := by
  have hrej := scanned_rej_eq_nil_iff r.fcs r.options ⟨[], [], link.renegotiating⟩
  have hack := scanned_ack_eq_nil_iff r.fcs r.options ⟨[], [], link.renegotiating⟩
  simp only [true_and] at hrej hack
  rw [ConfigureRequest.result, hrej, Ne, hack, and_comm]
  refine and_congr_left fun hall => not_congr ?_
  constructor
  · intro hnone
    rw [List.eq_nil_iff_forall_not_mem]
    intro p hp
    exact hnone p hp (hall p hp)
  · rintro hnil
    simp [hnil]

theorem atomic_iff_result (st : Station) (link : Link) (r : ConfigureRequest) :
    Atomic st link r ↔
      ((r.result link).link.parameters ≠ link.parameters →
        (r.result link).rej = [] ∧ (r.result link).ack ≠ []) ∧
      ((r.result link).rej ≠ [] → (r.result link).link.parameters = link.parameters) := by
  refine (r.handled_iff st link _).trans ?_
  rw [answered_append_iff (by decide), answered_ack_iff, answered_append_iff (by decide),
    answered_rej_iff]

/-- A request is handled atomically if and only if all its options are acceptable and there are
some, or the link already has what they will make of it. -/
theorem request_atomic_iff (st : Station) (link : Link) (r : ConfigureRequest) :
    Atomic st link r ↔
      (r.options ≠ [] ∧ ∀ p ∈ r.options, p.Acceptable) ∨ AlreadyNegotiated link r := by
  rw [atomic_iff_result, ← result_parameters_eq_iff, ← result_answered_ack_iff link r]
  constructor
  · rintro ⟨hchange, -⟩
    by_cases same : (r.result link).link.parameters = link.parameters
    · exact .inr same
    · exact .inl (hchange same)
  · rintro (acked | same)
    · exact ⟨fun _ => acked, fun hrej => absurd acked.1 hrej⟩
    · exact ⟨fun changed => absurd same changed, fun _ => same⟩

theorem callback_sizes : ([] : List Byte).length < 254 ∧ ([6] : List Byte).length < 254 := by
  decide

theorem callback_types : (7 : Byte) ≠ 2 ∧ (13 : Byte) ≠ 2 := by decide

/-- Protocol field compression, and a callback, which is not supported. -/
def callbackRequest : ConfigureRequest where
  header := [0xff, 0x03, 0xc0, 0x21]
  header_size := rfl
  identifier := 1
  options := [⟨7, [], callback_sizes.1, fun h => absurd h callback_types.1⟩,
    ⟨13, [6], callback_sizes.2, fun h => absurd h callback_types.2⟩]
  fcs := [0x12, 0x34]
  fcs_size := rfl

theorem rejected_request_changes_link :
    ¬ Atomic sampleStation sampleLink callbackRequest ∧
    ∃ link' sent, handleLcp sampleStation sampleLink callbackRequest.packet =
        .returns (link', sent) false ∧
      sampleLink.settings.protocolCompression = false ∧
      link'.settings.protocolCompression = true ∧ Answered 4 sent := by
  have heq := callbackRequest.handleLcp_eq sampleStation sampleLink
  have hchanged : (callbackRequest.result sampleLink).link.settings.protocolCompression = true := by
    decide +kernel
  have hrej : (callbackRequest.result sampleLink).rej ≠ [] := by decide +kernel
  constructor
  · rw [atomic_iff_result]
    rintro ⟨-, hreject⟩
    have hsettings := congrArg (·.1.protocolCompression) (hreject hrej)
    exact absurd (hchanged.symm.trans hsettings) (by decide)
  · refine ⟨_, _, heq, rfl, hchanged, ?_⟩
    rw [answered_append_iff (by decide), answered_rej_iff]
    exact hrej

/-! ## The character map that is used -/

theorem and_bit_ne_zero_iff (x : Byte) {k : ℕ} (hk : k < 8) :
    x &&& (1 <<< k) ≠ 0 ↔ x.getLsbD k = true := by
  have htwo : ((1 <<< k : ℕ) : Byte) = BitVec.twoPow 8 k := by
    apply BitVec.eq_of_toNat_eq
    rw [BitVec.toNat_twoPow, Nat.shiftLeft_eq, Nat.one_mul]
    rfl
  rw [htwo, BitVec.and_twoPow]
  cases x.getLsbD k with
  | false => simp
  | true =>
    simp only [if_true, iff_true]
    intro hzero
    have hbit := congrArg (·.getLsbD k) hzero
    simp [hk] at hbit

theorem Accm.marks_eq (accm : Accm) (b : Byte) :
    accm.marks b = (accm.get ⟨b.toNat / 8, by have := b.isLt; omega⟩).getLsbD (b.toNat % 8) := by
  have hindex : (b >>> 3).toNat = b.toNat / 8 := by
    rw [BitVec.toNat_ushiftRight, Nat.shiftRight_eq_div_pow]
  have hbit : (b &&& 7).toNat = b.toNat % 8 := by
    rw [BitVec.toNat_and]
    exact Nat.and_two_pow_sub_one_eq_mod b.toNat 3
  unfold marks
  simp only [hindex, hbit]
  rw [Bool.eq_iff_iff, decide_eq_true_iff]
  exact and_bit_ne_zero_iff _ (Nat.mod_lt _ (by omega))

/-- The characters of the bytes that were loaded, and the others. -/
theorem Accm.marks_load (accm : Accm) (bytes : List Byte) (b : Byte) :
    (accm.load bytes).marks b = if b.toNat / 8 < bytes.length
      then (bytes.getD (b.toNat / 8) 0).getLsbD (b.toNat % 8) else accm.marks b := by
  have hlt : b.toNat / 8 < 32 := by
    have := b.isLt
    omega
  have hget : (accm.load bytes).get ⟨b.toNat / 8, hlt⟩ =
      bytes.getD (b.toNat / 8) (accm.get ⟨b.toNat / 8, hlt⟩) := accm.load_getElem bytes hlt
  rw [marks_eq, hget, marks_eq]
  split
  · next h => rw [List.getD_eq_getElem _ _ h, List.getD_eq_getElem _ _ h]
  · next h => rw [List.getD_eq_default _ _ (by omega)]

/-- The octets of a map, the least significant one first, in a table of six. -/
def octets (v : BitVec 32) : List Byte := (be32Bytes v).reverse ++ [0, 0]

theorem octets_getLsbD (v : BitVec 32) {k j : ℕ} (hk : k < 6) (hj : j < 8) :
    ((octets v).getD k 0).getLsbD j = v.getLsbD (8 * k + j) := by
  have hshift : ∀ n, ((v >>> n).setWidth 8).getLsbD j = v.getLsbD (n + j) := by
    intro n
    rw [BitVec.getLsbD_setWidth, BitVec.getLsbD_ushiftRight]
    simp [hj]
  have hhigh : ∀ n, 32 ≤ n → (0 : Byte).getLsbD j = v.getLsbD n := by
    intro n hn
    rw [BitVec.getLsbD_of_ge v n hn]
    exact BitVec.getLsbD_zero
  rcases (by omega : k = 0 ∨ k = 1 ∨ k = 2 ∨ k = 3 ∨ k = 4 ∨ k = 5) with
    rfl | rfl | rfl | rfl | rfl | rfl
  · exact hshift 0
  · exact hshift 8
  · exact hshift 16
  · exact hshift 24
  · exact hhigh _ (by omega)
  · exact hhigh _ (by omega)

theorem eq_octets {bytes : List Byte} (hsix : bytes.length = 6) {v : BitVec 32}
    (h : ∀ k < 6, ∀ j < 8, (bytes.getD k 0).getLsbD j = v.getLsbD (8 * k + j)) :
    bytes = octets v := by
  apply List.ext_getElem
  · rw [hsix]
    rfl
  · intro k hk hk'
    rw [← List.getD_eq_getElem _ 0 hk, ← List.getD_eq_getElem _ 0 hk']
    apply BitVec.eq_of_getLsbD_eq
    intro j hj
    rw [h k (by omega) j hj, octets_getLsbD v (by omega) hj]

theorem escapes_data_iff (accm : Accm) (b : Byte) :
    escapes accm true b = true ↔ b = 0x7d ∨ b = 0x7e ∨ accm.marks b = true := by
  unfold escapes
  simp [or_assoc]

/-- After a request with the map `v` the characters of a data frame that are escaped are the ones
that `v` says, and what the table has for characters that `v` says nothing about is as before. -/
def NegotiatedUsed (st : Station) (link : Link) (r : ConfigureRequest) (v : BitVec 32) : Prop :=
  ∃ link' sent outside, handleLcp st link r.packet = .returns (link', sent) outside ∧
    (∀ b : Byte, escapes link'.accmTx true b = true ↔
      b = 0x7d ∨ b = 0x7e ∨ b.toNat < 32 ∧ v.getLsbD b.toNat = true) ∧
    ∀ b : Byte, 32 ≤ b.toNat → link'.accmTx.marks b = link.accmTx.marks b

theorem lastAccm_of_asked (fcs : List Byte) {options : List ConfigOption}
    (h : ∃ p ∈ options, p.type = 2) : ∃ bytes, lastAccm fcs options = some bytes := by
  induction options with
  | nil =>
    obtain ⟨p, hp, -⟩ := h
    cases hp
  | cons p ps ih =>
    rw [lastAccm]
    obtain ⟨q, hq, htype⟩ := h
    rcases List.mem_cons.mp hq with rfl | hq
    · rw [if_pos htype]
      cases lastAccm fcs ps with
      | none => exact ⟨_, rfl⟩
      | some bytes => exact ⟨bytes, rfl⟩
    · obtain ⟨bytes, hbytes⟩ := ih ⟨q, hq, htype⟩
      rw [hbytes]
      exact ⟨bytes, rfl⟩

section Negotiated

variable {accm : Accm} {bytes : List Byte} {v : BitVec 32}

/-- The characters of the loaded bytes are neither the escape character nor the flag. -/
theorem ne_flag_of_lt {b : Byte} (h : b.toNat < 48) : b ≠ 0x7d ∧ b ≠ 0x7e := by
  constructor
  · rintro rfl
    exact absurd h (by decide)
  · rintro rfl
    exact absurd h (by decide)

theorem eq_octets_of_escapes (hsix : bytes.length = 6)
    (hescapes : ∀ b : Byte, escapes (accm.load bytes) true b = true ↔
      b = 0x7d ∨ b = 0x7e ∨ b.toNat < 32 ∧ v.getLsbD b.toNat = true) : bytes = octets v := by
  refine eq_octets hsix fun k hk j hj => ?_
  have hb : (BitVec.ofNat 8 (8 * k + j)).toNat = 8 * k + j := toNat_ofNat_of_lt (by omega)
  obtain ⟨h7d, h7e⟩ := ne_flag_of_lt (show (BitVec.ofNat 8 (8 * k + j)).toNat < 48 by omega)
  have h := hescapes (BitVec.ofNat 8 (8 * k + j))
  rw [escapes_data_iff, Accm.marks_load, hb, if_pos (by omega),
    show (8 * k + j) / 8 = k by omega, show (8 * k + j) % 8 = j by omega, or_iff_right h7d,
    or_iff_right h7e, or_iff_right h7d, or_iff_right h7e] at h
  rw [Bool.eq_iff_iff, h]
  constructor
  · exact And.right
  · intro hbit
    refine ⟨?_, hbit⟩
    by_contra hge
    rw [BitVec.getLsbD_of_ge v _ (by omega)] at hbit
    cases hbit

theorem marks_octets (accm : Accm) (v : BitVec 32) (b : Byte) :
    (accm.load (octets v)).marks b = if b.toNat < 48 then v.getLsbD b.toNat else accm.marks b := by
  rw [Accm.marks_load]
  have hlen : (octets v).length = 6 := rfl
  by_cases hb : b.toNat < 48
  · rw [if_pos (by omega), if_pos hb, octets_getLsbD v (by omega) (by omega),
      show 8 * (b.toNat / 8) + b.toNat % 8 = b.toNat by omega]
  · rw [if_neg (by omega), if_neg hb]

theorem escapes_octets_iff
    (others : ∀ b : Byte, 32 ≤ b.toNat → accm.marks b = true → b = 0x7d ∨ b = 0x7e) (b : Byte) :
    escapes (accm.load (octets v)) true b = true ↔
      b = 0x7d ∨ b = 0x7e ∨ b.toNat < 32 ∧ v.getLsbD b.toNat = true := by
  rw [escapes_data_iff, marks_octets]
  constructor
  · rintro (h | h | hmark)
    · exact .inl h
    · exact .inr (.inl h)
    · by_cases hb : b.toNat < 48
      · rw [if_pos hb] at hmark
        refine .inr (.inr ⟨?_, hmark⟩)
        by_contra hge
        rw [BitVec.getLsbD_of_ge v _ (by omega)] at hmark
        cases hmark
      · rw [if_neg hb] at hmark
        rcases others b (by omega) hmark with h | h
        · exact .inl h
        · exact .inr (.inl h)
  · rintro (h | h | ⟨hlow, hbit⟩)
    · exact .inl h
    · exact .inr (.inl h)
    · rw [if_pos (by omega)]
      exact .inr (.inr hbit)

end Negotiated

theorem negotiatedUsed_iff {st : Station} {link : Link} {r : ConfigureRequest} {v : BitVec 32}
    {bytes : List Byte} (hlast : lastAccm r.fcs r.options = some bytes) :
    NegotiatedUsed st link r v ↔
      (∀ b : Byte, escapes (link.accmTx.load bytes) true b = true ↔
        b = 0x7d ∨ b = 0x7e ∨ b.toNat < 32 ∧ v.getLsbD b.toNat = true) ∧
      ∀ b : Byte, 32 ≤ b.toNat → (link.accmTx.load bytes).marks b = link.accmTx.marks b := by
  have htable : (r.result link).link.accmTx = link.accmTx.load bytes := by
    rw [ConfigureRequest.result, scanned_link r.fcs_size, hlast]
    rfl
  rw [← htable]
  exact r.handled_iff st link _

/-- The map that was asked for is used if and only if the last map of the request has its octets
the other way round, two zero bytes follow, and no other character is marked already. -/
theorem negotiated_accm_iff (st : Station) (link : Link) (r : ConfigureRequest) (v : BitVec 32)
    (asked : ∃ p ∈ r.options, p.type = 2 ∧ p.body = be32Bytes v) :
    NegotiatedUsed st link r v ↔
      lastAccm r.fcs r.options = some ((be32Bytes v).reverse ++ [0, 0]) ∧
      ∀ b : Byte, 32 ≤ b.toNat → link.accmTx.marks b = true → b = 0x7d ∨ b = 0x7e := by
  obtain ⟨p, hp, htype, -⟩ := asked
  obtain ⟨bytes, hlast⟩ := lastAccm_of_asked r.fcs ⟨p, hp, htype⟩
  rw [negotiatedUsed_iff hlast, hlast, Option.some_inj]
  constructor
  · rintro ⟨hescapes, hothers⟩
    refine ⟨eq_octets_of_escapes (lastAccm_length r.fcs_size hlast) hescapes, ?_⟩
    intro b hb hmark
    rw [← hothers b hb] at hmark
    rcases (hescapes b).mp ((escapes_data_iff _ b).mpr (.inr (.inr hmark))) with h | h | ⟨h, -⟩
    · exact .inl h
    · exact .inr h
    · omega
  · rintro ⟨rfl, hothers⟩
    refine ⟨escapes_octets_iff hothers, ?_⟩
    intro b hb
    show (link.accmTx.load (octets v)).marks b = _
    rw [marks_octets]
    split
    · next hlow =>
      rw [BitVec.getLsbD_of_ge v _ hb]
      symm
      rw [Bool.eq_false_iff]
      intro hmark
      obtain ⟨h7d, h7e⟩ := ne_flag_of_lt hlow
      exact (hothers b hb hmark).elim h7d h7e
    · rfl

theorem be32Bytes_short (v : BitVec 32) : (be32Bytes v).length < 254 := by
  rw [be32Bytes_length]
  omega

/-- A request with nothing but a map. -/
def mapRequest (v : BitVec 32) (a b : Byte) : ConfigureRequest where
  header := [0xff, 0x03, 0xc0, 0x21]
  header_size := rfl
  identifier := 7
  options := [⟨2, be32Bytes v, be32Bytes_short v, fun _ => be32Bytes_length v⟩]
  fcs := [a, b]
  fcs_size := rfl

/-- The empty map, and a frame check sequence of zeros. -/
theorem negotiated_accm_empty : NegotiatedUsed sampleStation sampleLink (mapRequest 0 0 0) 0 := by
  refine (negotiated_accm_iff _ _ _ _ ⟨_, List.mem_singleton_self _, rfl, rfl⟩).mpr ⟨?_, ?_⟩
  · decide +kernel
  · decide +kernel

/-- The map for XON and XOFF, 0x11 and 0x13, is acknowledged; then other characters are escaped. -/
theorem negotiated_accm_misplaced :
    ¬ NegotiatedUsed sampleStation sampleLink (mapRequest 0x000a0000 0x12 0x34) 0x000a0000 ∧
    ∃ link' sent, handleLcp sampleStation sampleLink (mapRequest 0x000a0000 0x12 0x34).packet =
        .returns (link', sent) false ∧
      Answered 2 sent ∧ escapes link'.accmTx true 0x11 = false ∧
      escapes link'.accmTx true 0x09 = true ∧ escapes link'.accmTx true 0x21 = true := by
  have heq := (mapRequest 0x000a0000 0x12 0x34).handleLcp_eq sampleStation sampleLink
  have hxon : escapes ((mapRequest 0x000a0000 0x12 0x34).result sampleLink).link.accmTx true 0x11 =
      false := by
    decide +kernel
  constructor
  · rintro ⟨link', sent, outside, heq', hescapes, -⟩
    rw [heq] at heq'
    cases heq'
    have h := (hescapes 0x11).mpr (.inr (.inr ⟨by decide, by decide⟩))
    rw [hxon] at h
    cases h
  · refine ⟨_, _, heq, ?_, hxon, by decide +kernel, by decide +kernel⟩
    rw [answered_append_iff (by decide), answered_ack_iff]
    decide +kernel

end MyIp.Phys.Ppp
