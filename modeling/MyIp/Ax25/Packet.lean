import MyIp.Net.Buffer
import MyIp.Ax25.Address

/-! # AX.25 packets

`ax25_packet` (`ax25.h`, `ax25.cpp`). The constructor reads a packet from the bytes of a frame, at
most two repeaters of it; `generatePacket` writes one for any number of repeaters and moves the end
mark to the last address. `ofBytes_generatePacket` is the round trip for up to two. -/

namespace MyIp.Ax25
set_option autoImplicit false

open Bytes

inductive FrameType
  | i | s | u | ui
  deriving DecidableEq, Repr

/-- `ax25_packet` -/
structure Ax25Packet where
  valid : Bool := false
  invalidReason : String := ""
  fromAddr : Ax25Address := {}
  toAddr : Ax25Address := {}
  repeaters : List Ax25Address := []
  control : Byte := 0
  type : FrameType := .i
  pid : Option Byte := none
  data : BufferIn := .ofBytes []
  deriving DecidableEq

/-- I or UI: a pid follows the control byte. -/
def hasPid (control : Byte) : Bool := control &&& 1 = 0 || control &&& 0xef = 0x03

/-- The type that the constructor gives to a frame. -/
def frameType (control : Byte) : FrameType :=
  if hasPid control then if control &&& 0xef = 0x03 then .ui else .i
  else if control &&& 2 ≠ 0 then .u else .s

namespace Ax25Packet

/-- The loop over the repeaters, for `turns` more of them. The message is the reason why one was not
valid; no result stands for a read behind the end of the frame. -/
def repeatersFrom (input : List Byte) : ℕ → ℕ → Bool → List Ax25Address →
    Option (Option String × List Ax25Address × ℕ)
  | 0, offset, _, repeaters => some (none, repeaters, offset)
  | turns + 1, offset, endMark, repeaters =>
    if endMark then some (none, repeaters, offset)
    else if input.length < offset + 7 then none
    else
      let a := Ax25Address.ofBytes ((input.drop offset).take 7)
      if a.valid then repeatersFrom input turns (offset + 7) a.endMark (repeaters ++ [a])
      else some (some ("via invalid: " ++ a.invalidReason), repeaters, offset + 7)

/-- What follows the addresses: control, pid and data. -/
def readRest (input : List Byte) (offset : ℕ) (p : Ax25Packet) : Option Ax25Packet := do
  let control ← input[offset]?
  if hasPid control then
    let pid ← input[offset + 1]?
    return { p with
      valid := true
      control := control
      pid := some pid
      type := frameType control
      data := .ofBytes (input.drop (offset + 2)) }
  else
    return { p with
      valid := true
      control := control
      type := frameType control
      data := .ofBytes (input.drop (offset + 1)) }

/-- `ax25_packet(const std::vector<uint8_t> &)`; no result stands for a read behind the end. -/
def ofBytes (input : List Byte) : Option Ax25Packet :=
  if input.length < 14 then
    some { invalidReason := "packet too short (" ++ toString input.length ++ " bytes)" }
  else
    let toAddr := Ax25Address.ofBytes (input.take 7)
    let fromAddr := Ax25Address.ofBytes ((input.drop 7).take 7)
    if toAddr.valid = false then
      some { toAddr := toAddr, invalidReason := "to invalid: " ++ toAddr.invalidReason }
    else if fromAddr.valid = false then
      some { toAddr := toAddr, fromAddr := fromAddr
             invalidReason := "from invalid: " ++ fromAddr.invalidReason }
    else
      match repeatersFrom input 2 14 fromAddr.endMark [] with
      | none => none
      | some (some reason, repeaters, _) =>
        some { toAddr := toAddr, fromAddr := fromAddr, repeaters := repeaters
               invalidReason := reason }
      | some (none, repeaters, offset) =>
        readRest input offset { toAddr := toAddr, fromAddr := fromAddr, repeaters := repeaters }

/-- `add_repeater` -/
def addRepeater (p : Ax25Packet) (addr : AnyAddr) : Ax25Packet :=
  let temp := Ax25Address.ofAnyAddr addr
  if p.repeaters.any fun repeater => repeater.same temp then p
  else { p with repeaters := p.repeaters ++ [temp] }

/-- `set_from` and `set_to` with an `any_addr`, `set_control`, `set_pid` and `set_data`, in the
order in which the device calls them. -/
def build (fromAddr toAddr : AnyAddr) (control : Byte) (pid : Byte) (data : List Byte) :
    Ax25Packet where
  fromAddr := .ofAnyAddr fromAddr
  toAddr := .ofAnyAddr toAddr
  control := control
  pid := some pid
  data := .ofBytes data

/-- The repeaters as `generate_packet` writes them: the end mark is on the last one. -/
def markEnd : List Ax25Address → List Ax25Address
  | [] => []
  | a :: repeaters => { a with endMark := repeaters.isEmpty } :: markEnd repeaters

/-- `copy_from` of `generate_packet` -/
def copyFrom (p : Ax25Packet) : Ax25Address :=
  if p.repeaters.isEmpty then p.fromAddr else { p.fromAddr with endMark := false }

/-- The bytes of `generate_packet` before the data. -/
def header (p : Ax25Packet) : List Byte :=
  p.toAddr.generateAddress ++ p.copyFrom.generateAddress ++
    (markEnd p.repeaters).flatMap Ax25Address.generateAddress ++
    p.control :: (if hasPid p.control then [p.pid.getD 0] else [])

/-- `generate_packet`: the frame, and the packet with its data read. The block it writes to has 1024
bytes more than the data, which is enough for 144 repeaters. -/
def generatePacket (p : Ax25Packet) : Except String (List Byte × Ax25Packet) := do
  let (bytes, data) ← p.data.getBytes p.data.getSize
  return (p.header ++ bytes, { p with data := data })

/-! ## Reading back what was written -/

/-- An address as it is read back. -/
def asRead (a : Ax25Address) : Ax25Address :=
  .ofCallsign a.address a.ssid a.endMark a.repeated

theorem encodable_endMark {a : Ax25Address} (h : a.Encodable) (endMark : Bool) :
    ({ a with endMark := endMark } : Ax25Address).Encodable :=
  ⟨h.length_le, h.character, h.ssid_lt⟩

theorem repeatersFrom_markEnd (input rest : List Byte) (repeaters : List Ax25Address)
    (turns offset : ℕ) (found : List Ax25Address) (h : ∀ a ∈ repeaters, a.Encodable)
    (hturns : repeaters.length ≤ turns)
    (hinput : input.drop offset =
      (markEnd repeaters).flatMap Ax25Address.generateAddress ++ rest) :
    repeatersFrom input turns offset repeaters.isEmpty found =
      some (none, found ++ (markEnd repeaters).map asRead, offset + 7 * repeaters.length) := by
  induction repeaters generalizing turns offset found with
  | nil => cases turns <;> simp [repeatersFrom, markEnd]
  | cons a repeaters ih =>
    obtain ⟨turns, rfl⟩ : ∃ n, turns = n + 1 := ⟨turns - 1, by simp at hturns; omega⟩
    rw [markEnd, List.flatMap_cons, List.append_assoc] at hinput
    have hlen := congrArg List.length hinput
    rw [List.length_drop, List.length_append, Ax25Address.generateAddress_length] at hlen
    have htake : (input.drop offset).take 7 =
        ({ a with endMark := repeaters.isEmpty } : Ax25Address).generateAddress := by
      rw [hinput, List.take_left' (by simp)]
    have hdrop : input.drop (offset + 7) =
        (markEnd repeaters).flatMap Ax25Address.generateAddress ++ rest := by
      rw [← List.drop_drop, hinput, List.drop_left' (by simp)]
    have hread := Ax25Address.ofBytes_generateAddress
      (encodable_endMark (h a (by simp)) repeaters.isEmpty)
    have htail := ih turns (offset + 7)
      (found ++ [asRead { a with endMark := repeaters.isEmpty }])
      (fun b hb => h b (by simp [hb])) (by simpa using hturns) hdrop
    rw [repeatersFrom, List.isEmpty_cons, if_neg (by simp), if_neg (by omega), htake, hread]
    refine Eq.trans htail ?_
    simp only [markEnd, List.map_cons, List.append_assoc, List.singleton_append, List.length_cons]
    congr 3
    omega

theorem markEnd_bytes_length (repeaters : List Ax25Address) :
    ((markEnd repeaters).flatMap Ax25Address.generateAddress).length = 7 * repeaters.length := by
  induction repeaters with
  | nil => rfl
  | cons a repeaters ih =>
    rw [markEnd, List.flatMap_cons, List.length_append, ih, Ax25Address.generateAddress_length,
      List.length_cons]
    omega

/-- The packet that is read from the frame of `p` with the data `bytes`. -/
def readBack (p : Ax25Packet) (bytes : List Byte) : Ax25Packet where
  valid := true
  toAddr := asRead p.toAddr
  fromAddr := asRead p.copyFrom
  repeaters := (markEnd p.repeaters).map asRead
  control := p.control
  type := frameType p.control
  pid := if hasPid p.control then some (p.pid.getD 0) else none
  data := .ofBytes bytes

theorem readRest_append {input rest : List Byte} {offset : ℕ} {control : Byte} {pid : Option Byte}
    (hinput : input.drop offset =
      control :: (if hasPid control then [pid.getD 0] else []) ++ rest) (p : Ax25Packet)
    (hpid : p.pid = none) :
    readRest input offset p = some { p with
      valid := true
      control := control
      pid := if hasPid control then some (pid.getD 0) else none
      type := frameType control
      data := .ofBytes rest } := by
  have hget : ∀ i, input[offset + i]? = (input.drop offset)[i]? := fun i => by
    rw [List.getElem?_drop]
  have hdrop : ∀ i, input.drop (offset + i) = (input.drop offset).drop i := fun i => by
    rw [List.drop_drop]
  have hzero := hget 0
  rw [Nat.add_zero, hinput] at hzero
  rw [readRest, hget, hdrop, hdrop, hzero, hinput]
  by_cases h : hasPid control = true
  · simp [h]
  · simp [h, hpid]

theorem copyFrom_encodable {p : Ax25Packet} (h : p.fromAddr.Encodable) : p.copyFrom.Encodable := by
  rw [copyFrom]
  split
  · exact h
  · exact encodable_endMark h false

theorem copyFrom_endMark {p : Ax25Packet} (h : p.repeaters = [] → p.fromAddr.endMark = true) :
    p.copyFrom.endMark = p.repeaters.isEmpty := by
  rw [copyFrom]
  cases hr : p.repeaters with
  | nil => exact h hr
  | cons a repeaters => rfl

/-- The frame of a packet with at most two repeaters is read as that packet. -/
theorem ofBytes_header {p : Ax25Packet} (hto : p.toAddr.Encodable) (hfrom : p.fromAddr.Encodable)
    (hrepeaters : ∀ a ∈ p.repeaters, a.Encodable) (hlen : p.repeaters.length ≤ 2)
    (hend : p.repeaters = [] → p.fromAddr.endMark = true) (bytes : List Byte) :
    ofBytes (p.header ++ bytes) = some (p.readBack bytes) := by
  have hcopy := copyFrom_encodable hfrom
  obtain ⟨input, hinput⟩ : ∃ input, input = p.header ++ bytes := ⟨_, rfl⟩
  have hparts : input = p.toAddr.generateAddress ++ (p.copyFrom.generateAddress ++
      ((markEnd p.repeaters).flatMap Ax25Address.generateAddress ++
        (p.control :: (if hasPid p.control then [p.pid.getD 0] else []) ++ bytes))) := by
    rw [hinput, header]
    simp only [List.append_assoc]
  have hsize : ¬input.length < 14 := by
    rw [hparts, List.length_append, List.length_append]
    simp only [Ax25Address.generateAddress_length]
    omega
  have hfirst : input.take 7 = p.toAddr.generateAddress := by
    rw [hparts, List.take_left' (by simp)]
  have hseven : input.drop 7 = p.copyFrom.generateAddress ++
      ((markEnd p.repeaters).flatMap Ax25Address.generateAddress ++
        (p.control :: (if hasPid p.control then [p.pid.getD 0] else []) ++ bytes)) := by
    rw [hparts, List.drop_left' (by simp)]
  have hsecond : (input.drop 7).take 7 = p.copyFrom.generateAddress := by
    rw [hseven, List.take_left' (by simp)]
  have hvia : input.drop 14 = (markEnd p.repeaters).flatMap Ax25Address.generateAddress ++
      (p.control :: (if hasPid p.control then [p.pid.getD 0] else []) ++ bytes) := by
    rw [show 14 = 7 + 7 from rfl, ← List.drop_drop, hseven, List.drop_left' (by simp)]
  have hrest : input.drop (14 + 7 * p.repeaters.length) =
      p.control :: (if hasPid p.control then [p.pid.getD 0] else []) ++ bytes := by
    rw [← List.drop_drop, hvia, List.drop_left' (markEnd_bytes_length p.repeaters)]
  rw [← hinput, ofBytes, if_neg hsize]
  simp only [hfirst, hsecond, Ax25Address.ofBytes_generateAddress hto,
    Ax25Address.ofBytes_generateAddress hcopy]
  rw [if_neg (by simp [Ax25Address.ofCallsign]), if_neg (by simp [Ax25Address.ofCallsign])]
  simp only [Ax25Address.ofCallsign, copyFrom_endMark hend]
  rw [repeatersFrom_markEnd input _ p.repeaters 2 14 [] hrepeaters hlen hvia]
  simp only []
  rw [readRest_append hrest _ rfl]
  simp [readBack, asRead, Ax25Address.ofCallsign, copyFrom_endMark hend]

theorem generatePacket_unread {p : Ax25Packet} {bytes : List Byte} (h : p.data = .ofBytes bytes) :
    ∃ p', p.generatePacket = .ok (p.header ++ bytes, p') := by
  have hleft : p.data.left = bytes ++ [] := by rw [h, BufferIn.ofBytes_left, List.append_nil]
  obtain ⟨data, hread, -⟩ := BufferIn.read_append "buffer_in::get_bytes" hleft
  have hsize : p.data.getSize = bytes.length := by rw [h]; rfl
  refine ⟨{ p with data := data }, ?_⟩
  simp [generatePacket, BufferIn.getBytes, hsize, hread, bind, Except.bind, pure, Except.pure]

theorem station_markEnd (repeaters : List Ax25Address) :
    ((markEnd repeaters).map asRead).map Ax25Address.station =
      repeaters.map Ax25Address.station := by
  induction repeaters with
  | nil => rfl
  | cons a repeaters ih =>
    rw [markEnd, List.map_cons, List.map_cons, ih]
    rfl

theorem station_copyFrom (p : Ax25Packet) :
    (asRead p.copyFrom).station = p.fromAddr.station := by
  rw [copyFrom]
  split <;> rfl

/-- A packet that was just built, with at most two repeaters, survives `generate_packet` and the
constructor. -/
theorem ofBytes_generatePacket (p : Ax25Packet) (bytes : List Byte)
    (hdata : p.data = .ofBytes bytes) (hto : p.toAddr.Encodable) (hfrom : p.fromAddr.Encodable)
    (hrepeaters : ∀ a ∈ p.repeaters, a.Encodable) (hlen : p.repeaters.length ≤ 2)
    (hend : p.repeaters = [] → p.fromAddr.endMark = true) :
    ∃ frame p' q, p.generatePacket = .ok (frame, p') ∧ ofBytes frame = some q ∧ q.valid = true ∧
      q.toAddr.station = p.toAddr.station ∧ q.fromAddr.station = p.fromAddr.station ∧
      q.repeaters.map Ax25Address.station = p.repeaters.map Ax25Address.station ∧
      q.control = p.control ∧ q.data.left = bytes ∧
      (hasPid p.control = true → ∀ pid, p.pid = some pid → q.pid = some pid) := by
  obtain ⟨p', hgenerated⟩ := generatePacket_unread hdata
  refine ⟨p.header ++ bytes, p', p.readBack bytes, hgenerated,
    ofBytes_header hto hfrom hrepeaters hlen hend bytes, rfl, rfl, station_copyFrom p,
    station_markEnd p.repeaters, rfl, BufferIn.ofBytes_left bytes, ?_⟩
  intro hcontrol pid hpid
  simp [readBack, hcontrol, hpid]

namespace Sample

/-- A frame from PI1ABC-7 to QST by way of two repeaters. -/
def packet : Ax25Packet where
  toAddr := .ofCallsign [0x51, 0x53, 0x54] 0 false false
  fromAddr := .ofCallsign [0x50, 0x49, 0x31, 0x41, 0x42, 0x43] 7 false false
  repeaters := [.ofCallsign [0x50, 0x49, 0x31] 1 false true,
    .ofCallsign [0x50, 0x49, 0x32] 2 false false]
  control := 0x03
  pid := some 0xf0
  data := .ofBytes [0x68, 0x69]

theorem encodable_of_decide {a : Ax25Address} (h : a.address.length ≤ 6 ∧
    (∀ c ∈ a.address, c < 128 ∧ c ≠ 0 ∧ c ≠ 32) ∧ a.ssid < 16) : a.Encodable :=
  ⟨h.1, h.2.1, h.2.2⟩

end Sample

theorem ofBytes_generatePacket_packet :
    ∃ frame p' q, Sample.packet.generatePacket = .ok (frame, p') ∧ ofBytes frame = some q ∧
      q.valid = true ∧ q.toAddr.station = Sample.packet.toAddr.station ∧
      q.fromAddr.station = Sample.packet.fromAddr.station ∧
      q.repeaters.map Ax25Address.station = Sample.packet.repeaters.map Ax25Address.station ∧
      q.control = Sample.packet.control ∧ q.data.left = [0x68, 0x69] ∧
      (hasPid Sample.packet.control = true → ∀ pid, Sample.packet.pid = some pid →
        q.pid = some pid) := by
  refine ofBytes_generatePacket Sample.packet [0x68, 0x69] rfl ?_ ?_ ?_ (by decide) (by decide)
  · exact Sample.encodable_of_decide (by decide)
  · exact Sample.encodable_of_decide (by decide)
  · intro a ha
    simp only [Sample.packet, List.mem_cons, List.not_mem_nil, or_false] at ha
    rcases ha with rfl | rfl <;> exact Sample.encodable_of_decide (by decide)

end Ax25Packet

end MyIp.Ax25
