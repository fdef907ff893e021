import MyIp.Foundations.Crc
import MyIp.Foundations.Framing
import MyIp.Phys.Device

/-! # PPP, the data path

`phys_gen_ppp::wrap_in_ppp_frame` builds a frame, the loop of `phys_ppp::operator()` splits what it
reads at the flag 0x7e and gives the unescaped contents to `process_incoming_packet`. The handlers
of the control protocols and the emulation of a modem are here as what they are called with and
what the emulation writes; an exception that nobody catches ends the loop (`thrown`).

The body of a frame is a stuffed list (`wrapInPppFrame_eq`), so it has no flag inside and the loop
sees exactly its bytes (`feed_wrapped`); whichever header fields were left out,
`process_incoming_packet` puts them back (`processIncomingPacket_temp`). -/

namespace MyIp.Phys.Ppp
set_option autoImplicit false

open Bytes Framing

/-! ## The frame check sequence -/

/-- The inner loop that fills an entry of `fcstab`, with so many turns to go. -/
def fcsEntry : ℕ → BitVec 16 → Byte → BitVec 16
  | 0, value, _ => value
  | n + 1, value, temp =>
    if (value ^^^ temp.setWidth 16) &&& 0x0001 ≠ 0 then
      fcsEntry n (value >>> 1 ^^^ 0x8408) (temp >>> 1)
    else fcsEntry n (value >>> 1) (temp >>> 1)

def fcstab (i : Byte) : BitVec 16 := fcsEntry 8 0 i

/-- The loop over `temp`, and the complement at its end. -/
def fcs (temp : List Byte) : BitVec 16 :=
  temp.foldl (fun (fcs : BitVec 16) b =>
    fcs >>> 8 ^^^ fcstab (((fcs ^^^ b.setWidth 16) &&& 0xff).setWidth 8)) 0xffff ^^^ 0xffff

/-! ## Sending -/

/-- The negotiated settings. -/
structure Settings where
  acFieldCompression : Bool
  protocolCompression : Bool
  deriving DecidableEq

/-- `ACCM_rx` and `ACCM_tx`: a bit for each character. -/
abbrev Accm := Vector Byte 32

def Accm.marks (accm : Accm) (b : Byte) : Bool :=
  accm.get ⟨(b >>> 3).toNat, by
    have := b.isLt
    rw [BitVec.toNat_ushiftRight, Nat.shiftRight_eq_div_pow]
    omega⟩ &&& (1 <<< (b &&& 7).toNat) ≠ 0

/-- `temp` before the frame check sequence is added to it. -/
def tempOf (cfg : Settings) (payload : List Byte) (protocol : BitVec 16) (notPppMeta : Bool) :
    List Byte :=
  let acField : List Byte := if !cfg.acFieldCompression || !notPppMeta then [0xff, 0x03] else []
  let protocolField : List Byte :=
    if cfg.protocolCompression && protocol < 0x0100 && notPppMeta then [protocol.setWidth 8]
    else [(protocol >>> 8).setWidth 8, protocol.setWidth 8]
  acField ++ protocolField ++ payload

def escapes (accm : Accm) (notPppMeta : Bool) (b : Byte) : Bool :=
  b == 0x7d || b == 0x7e || accm.marks b || (b < 0x20 && !notPppMeta)

def fcsBytes (fcs : BitVec 16) : List Byte := [fcs.setWidth 8, (fcs >>> 8).setWidth 8]

def wrapInPppFrame (cfg : Settings) (payload : List Byte) (protocol : BitVec 16) (accm : Accm)
    (notPppMeta : Bool) : List Byte :=
  let temp := tempOf cfg payload protocol notPppMeta
  let temp := temp ++ fcsBytes (fcs temp)
  0x7e :: (temp.flatMap (fun b =>
    if escapes accm notPppMeta b then [0x7d, b ^^^ 0x20] else [b]) ++ [0x7e])

/-- `transmit_packet`: the bytes that `transmit_low` writes. -/
def transmitPacket (cfg : Settings) (accm : Accm) (payload : List Byte) : List Byte :=
  wrapInPppFrame cfg payload 0x0021 accm true

/-! ## Receiving -/

/-- `unwrap_ppp_frame`; the `at` after an escape byte at the end throws. -/
def unwrapPppFrame (payload : List Byte) : Option (List Byte) :=
  unstuff 0x7d (· ^^^ 0x20) payload

inductive Act
  | queued (layer : ℕ) (p : Packet)
  | handleLcp (packetBuffer : List Byte)
  | handleIpcp (packetBuffer : List Byte)
  | handleIpv6cp (packetBuffer : List Byte)
  | handleCcp (packetBuffer : List Byte)
  /-- What the emulated modem answers. -/
  | wrote (bytes : List Byte)
  deriving DecidableEq

/-- The header with the fields that the sender left out. -/
def fullHeader (cfg : Settings) (packetBuffer : List Byte) : List Byte :=
  let packetBuffer :=
    if packetBuffer.getD 0 0 ≠ 0xff ∧ cfg.acFieldCompression = true then
      0xff :: 0x03 :: packetBuffer
    else packetBuffer
  if packetBuffer.getD 2 0 &&& 1 = 1 ∧ cfg.protocolCompression = true then
    packetBuffer.take 2 ++ 0x00 :: packetBuffer.drop 2
  else packetBuffer

/-- `process_incoming_packet`; a buffer too short for the frame check sequence makes the size of the
packet negative, and its allocation throws. -/
def processIncomingPacket (dev : Device) (cfg : Settings) (packetBuffer : List Byte) :
    Option (List Act) :=
  if packetBuffer.length < 4 then some []
  else
    let packetBuffer := fullHeader cfg packetBuffer
    let protocol := be16 (packetBuffer.getD 2 0) (packetBuffer.getD 3 0)
    if protocol = 0x0021 then
      if dev.protMap 0x800 ≠ none ∧ packetBuffer.length < 6 then none
      else some ((dev.queueIncoming 0x800 ⟨genOpponentMac dev.myMac dev.myMac_mac, dev.myMac,
        (packetBuffer.drop 4).take (packetBuffer.length - (4 + 2))⟩).map fun q => .queued q.1 q.2)
    else if protocol = 0xc021 then some [.handleLcp packetBuffer]
    else if protocol = 0x8021 then some [.handleIpcp packetBuffer]
    else if protocol = 0x8057 then some [.handleIpv6cp packetBuffer]
    else if protocol = 0x80fd then some [.handleCcp packetBuffer]
    else some []

structure Receiver where
  packetBuffer : List Byte
  modem : List Byte
  thrown : Bool
  deriving DecidableEq

def Receiver.start : Receiver := ⟨[], [], false⟩

/-- The texts of the modem emulation. -/
def textAtdt : List Byte := [0x41, 0x54, 0x44, 0x54]
def textAt : List Byte := [0x41, 0x54]
def textClient : List Byte := [0x43, 0x4c, 0x49, 0x45, 0x4e, 0x54]
def textConnect : List Byte := [0x43, 0x4f, 0x4e, 0x4e, 0x45, 0x43, 0x54, 0x0d, 0x0a]
def textOk : List Byte := [0x4f, 0x4b, 0x0d, 0x0a]
/-- `SERVER` and a carriage return: the line feed is not among the seven bytes that are written. -/
def textServer : List Byte := [0x53, 0x45, 0x52, 0x56, 0x45, 0x52, 0x0d]

/-- The modem emulation at one byte: what it remembers, and what it writes. -/
def modemByte (modem : List Byte) (buffer : Byte) : List Byte × List Act :=
  if (0x20 ≤ buffer ∧ buffer < 0x7f) ∨ buffer = 0x0a ∨ buffer = 0x0d then
    let modem := modem ++ [buffer]
    if textAtdt <:+: modem then ([], [.wrote textConnect])
    else if textAt <:+: modem then ([], [.wrote textOk])
    else if textClient <:+: modem then ([], [.wrote textServer])
    else (modem, [])
  else (modem, [])

/-- One byte that `operator()` reads. -/
def receive (dev : Device) (cfg : Settings) (emulateModemXp : Bool) (r : Receiver) (buffer : Byte) :
    Receiver × List Act :=
  if r.thrown then (r, [])
  else if buffer = 0x7e then
    if r.packetBuffer = [] then (r, [])
    else match (unwrapPppFrame r.packetBuffer).bind (processIncomingPacket dev cfg) with
      | some acts => (.start, acts)
      | none => ({ r with thrown := true }, [])
  else if emulateModemXp then
    (⟨r.packetBuffer ++ [buffer], (modemByte r.modem buffer).1, false⟩,
      (modemByte r.modem buffer).2)
  else (⟨r.packetBuffer ++ [buffer], r.modem, false⟩, [])

/-! ## The frame check sequence is the CRC-16 -/

theorem and_one_ne_zero_iff (x : BitVec 16) : x &&& 1 ≠ 0 ↔ x.getLsbD 0 = true := by
  rw [show (1 : BitVec 16) = 1#16 from rfl, BitVec.and_one_eq_setWidth_ofBool_getLsbD]
  cases x.getLsbD 0 <;> decide

theorem fcsEntry_eq (n : ℕ) (value : BitVec 16) (temp : Byte) :
    fcsEntry n value temp = Crc.crcBits 0x8408 value ((List.range n).map temp.getLsbD) := by
  induction n generalizing value temp with
  | zero => rfl
  | succ n ih =>
    have hbit : (value ^^^ temp.setWidth 16) &&& 1 ≠ 0 ↔
        (value.getLsbD 0 ^^ temp.getLsbD 0) = true := by
      rw [and_one_ne_zero_iff, BitVec.getLsbD_xor, BitVec.getLsbD_setWidth]
      simp
    have hrest : (List.range n).map (temp >>> 1).getLsbD =
        ((List.range n).map Nat.succ).map temp.getLsbD := by
      rw [List.map_map]
      refine List.map_congr_left fun i _ => ?_
      rw [BitVec.getLsbD_ushiftRight, Nat.add_comm]
      rfl
    rw [fcsEntry, List.range_succ_eq_map, List.map_cons, Crc.crcBits, List.foldl_cons, ← hrest,
      Crc.bitStep]
    by_cases hb : (value.getLsbD 0 ^^ temp.getLsbD 0) = true
    · rw [if_pos (hbit.mpr hb), if_pos hb, ih]
      rfl
    · rw [if_neg (mt hbit.mp hb), if_neg hb, ih]
      rfl

theorem fcs_index (c : BitVec 16) (b : Byte) :
    ((c ^^^ b.setWidth 16) &&& 0xff).setWidth 8 = c.setWidth 8 ^^^ b := by
  apply BitVec.eq_of_getLsbD_eq
  intro i hi
  have h255 : (0xff : BitVec 16).getLsbD i = true := by
    revert i
    decide
  have hlt : i < 16 := by omega
  rw [BitVec.getLsbD_setWidth, BitVec.getLsbD_and, h255, Bool.and_true, BitVec.getLsbD_xor,
    BitVec.getLsbD_xor, BitVec.getLsbD_setWidth, BitVec.getLsbD_setWidth]
  simp only [hi, hlt, decide_true, Bool.true_and]

/-- The table gives the reflected CRC-16. -/
theorem fcs_eq (temp : List Byte) : fcs temp = Crc.crc 0x8408 0xffff temp ^^^ 0xffff := by
  have hstep : (fun (fcs : BitVec 16) b =>
      fcs >>> 8 ^^^ fcstab (((fcs ^^^ b.setWidth 16) &&& 0xff).setWidth 8)) =
      fun fcs b => Crc.crcBits 0x8408 fcs (Crc.byteBits b) := by
    funext c b
    rw [fcs_index, fcstab, fcsEntry_eq, Crc.crc_byte_table]
    rfl
  rw [fcs, hstep]
  rfl

/-! ## The body of a frame -/

def stuffing (accm : Accm) (notPppMeta : Bool) : Stuffing Byte where
  esc := 0x7d
  special := escapes accm notPppMeta
  code b := b ^^^ 0x20

/-- What stands between the flags, before it is escaped. -/
def unescaped (cfg : Settings) (payload : List Byte) (protocol : BitVec 16) (notPppMeta : Bool) :
    List Byte :=
  tempOf cfg payload protocol notPppMeta ++ fcsBytes (fcs (tempOf cfg payload protocol notPppMeta))

theorem wrapInPppFrame_eq (cfg : Settings) (payload : List Byte) (protocol : BitVec 16)
    (accm : Accm) (notPppMeta : Bool) :
    wrapInPppFrame cfg payload protocol accm notPppMeta =
      0x7e :: ((stuffing accm notPppMeta).stuff (unescaped cfg payload protocol notPppMeta) ++
        [0x7e]) :=
  rfl

theorem xor_20_xor_20 (b : Byte) : b ^^^ 0x20 ^^^ 0x20 = b := by
  rw [BitVec.xor_assoc, BitVec.xor_self]
  exact BitVec.xor_zero

theorem unwrap_stuff (accm : Accm) (notPppMeta : Bool) (l : List Byte) :
    unwrapPppFrame ((stuffing accm notPppMeta).stuff l) = some l :=
  unstuff_stuff (S := stuffing accm notPppMeta) (by simp [stuffing, escapes])
    (fun a _ => xor_20_xor_20 a) l

/-- A marked character is below 0x20, so the flag is no escaped character. -/
theorem flag_not_mem_stuff {accm : Accm} (hmarks : ∀ b, accm.marks b = true → b.toNat < 0x20)
    (l : List Byte) : 0x7e ∉ (stuffing accm true).stuff l := by
  refine Stuffing.not_mem_stuff (by simp [stuffing, escapes])
    (show (0x7e : Byte) ≠ 0x7d by decide) ?_ l
  intro a ha hcode
  have ha' : a = 0x5e := by
    have h := congrArg (· ^^^ 0x20) hcode
    rwa [show (stuffing accm true).code a = a ^^^ 0x20 from rfl, xor_20_xor_20] at h
  subst ha'
  have hm : accm.marks 0x5e = true := by
    simpa [stuffing, escapes] using ha
  exact absurd (hmarks _ hm) (by decide)

/-! ## Receiving a frame -/

/-- Whichever fields the sender left out, the header is whole again. -/
theorem fullHeader_unescaped (cfg : Settings) (payload : List Byte) :
    fullHeader cfg (unescaped cfg payload 0x0021 true) =
      [0xff, 0x03, 0x00, 0x21] ++ (payload ++ fcsBytes (fcs (tempOf cfg payload 0x0021 true))) := by
  obtain ⟨ac, pc⟩ := cfg
  rw [unescaped]
  generalize fcsBytes _ = f
  cases ac <;> cases pc <;> simp [fullHeader, tempOf]

theorem unescaped_length (cfg : Settings) (payload : List Byte) :
    payload.length + 3 ≤ (unescaped cfg payload 0x0021 true).length := by
  obtain ⟨ac, pc⟩ := cfg
  cases ac <;> cases pc <;> simp [unescaped, tempOf, fcsBytes]

theorem processIncomingPacket_unescaped {dev : Device} {layer : ℕ}
    (attached : dev.protMap 0x800 = some layer) (cfg : Settings) {payload : List Byte}
    (hne : payload ≠ []) :
    processIncomingPacket dev cfg (unescaped cfg payload 0x0021 true) = some [.queued layer
      ⟨genOpponentMac dev.myMac dev.myMac_mac, dev.myMac, payload⟩] := by
  have hpos : 1 ≤ payload.length := List.length_pos_iff.mpr hne
  have hlen := unescaped_length cfg payload
  rw [processIncomingPacket, if_neg (by omega), fullHeader_unescaped]
  generalize hf : fcsBytes (fcs (tempOf cfg payload 0x0021 true)) = f
  have htwo : f.length = 2 := by rw [← hf]; rfl
  have hsize : ([0xff, 0x03, 0x00, 0x21] ++ (payload ++ f)).length = payload.length + 6 := by
    simp [htwo]
  have hdata : (([0xff, 0x03, 0x00, 0x21] ++ (payload ++ f)).drop 4).take
      (payload.length + 6 - (4 + 2)) = payload := by
    rw [show payload.length + 6 - (4 + 2) = payload.length by omega]
    exact List.take_left
  have hprotocol : be16 (([0xff, 0x03, 0x00, 0x21] ++ (payload ++ f)).getD 2 0)
      (([0xff, 0x03, 0x00, 0x21] ++ (payload ++ f)).getD 3 0) = 0x0021 :=
    show be16 0x00 0x21 = 0x0021 by decide
  simp only [hprotocol, if_true, hsize, hdata]
  rw [if_neg (by omega), Device.queueIncoming_attached attached]
  rfl

def Act.isWrote : Act → Bool
  | .wrote _ => true
  | _ => false

theorem modemByte_wrote (modem : List Byte) (b : Byte) :
    ∀ a ∈ (modemByte modem b).2, a.isWrote = true := by
  unfold modemByte
  dsimp only
  split
  · split_ifs <;> simp [Act.isWrote]
  · simp

/-- Between the flags the bytes are collected, whatever the modem emulation makes of them. -/
theorem feed_body (dev : Device) (cfg : Settings) (emulateModemXp : Bool) {body : List Byte}
    (h : 0x7e ∉ body) (collected modem : List Byte) :
    ∃ modem' acts, feed (receive dev cfg emulateModemXp) ⟨collected, modem, false⟩ body =
      (⟨collected ++ body, modem', false⟩, acts) ∧ ∀ a ∈ acts, a.isWrote = true := by
  induction body generalizing collected modem with
  | nil => exact ⟨modem, [], by simp [feed], by simp⟩
  | cons b body ih =>
    have hb : b ≠ 0x7e := fun he => h (he ▸ List.mem_cons_self)
    have hbody : 0x7e ∉ body := fun hm => h (List.mem_cons_of_mem _ hm)
    obtain ⟨modem₁, acts₁, hstep, hwrote₁⟩ : ∃ modem' acts,
        receive dev cfg emulateModemXp ⟨collected, modem, false⟩ b =
          (⟨collected ++ [b], modem', false⟩, acts) ∧ ∀ a ∈ acts, a.isWrote = true := by
      rw [receive, if_neg Bool.false_ne_true, if_neg hb]
      split
      · exact ⟨_, _, rfl, modemByte_wrote modem b⟩
      · exact ⟨_, _, rfl, by simp⟩
    obtain ⟨modem₂, acts₂, hrest, hwrote₂⟩ := ih hbody (collected ++ [b]) modem₁
    refine ⟨modem₂, acts₁ ++ acts₂, ?_, ?_⟩
    · rw [feed, hstep, hrest, List.append_assoc]
      rfl
    · intro a ha
      rcases List.mem_append.mp ha with ha | ha
      · exact hwrote₁ a ha
      · exact hwrote₂ a ha

/-- A frame is queued when its second flag is read, and the receiver is back at its start. -/
theorem feed_transmitPacket {dev : Device} {layer : ℕ} (attached : dev.protMap 0x800 = some layer)
    (cfg : Settings) (emulateModemXp : Bool) {accm : Accm}
    (hmarks : ∀ b, accm.marks b = true → b.toNat < 0x20) {payload : List Byte}
    (hne : payload ≠ []) :
    ∃ acts, feed (receive dev cfg emulateModemXp) .start (transmitPacket cfg accm payload) =
        (.start, acts) ∧
      acts.filter (!·.isWrote) =
        [.queued layer ⟨genOpponentMac dev.myMac dev.myMac_mac, dev.myMac, payload⟩] := by
  have hflag := flag_not_mem_stuff hmarks (unescaped cfg payload 0x0021 true)
  have hunwrap := unwrap_stuff accm true (unescaped cfg payload 0x0021 true)
  rw [transmitPacket, wrapInPppFrame_eq]
  generalize (stuffing accm true).stuff (unescaped cfg payload 0x0021 true) = body
    at hflag hunwrap ⊢
  obtain ⟨modem, acts, hbody, hwrote⟩ := feed_body dev cfg emulateModemXp hflag [] []
  have hnil : body ≠ [] := by
    rintro rfl
    have hlen := unescaped_length cfg payload
    rw [← Option.some.inj hunwrap] at hlen
    simp at hlen
  have hfront : feed (receive dev cfg emulateModemXp) .start [0x7e] = (.start, []) := rfl
  have hback : feed (receive dev cfg emulateModemXp) ⟨body, modem, false⟩ [0x7e] = (.start,
      [.queued layer ⟨genOpponentMac dev.myMac dev.myMac_mac, dev.myMac, payload⟩]) := by
    rw [feed_singleton, receive, if_neg Bool.false_ne_true, if_pos rfl, if_neg hnil, hunwrap,
      Option.bind_some, processIncomingPacket_unescaped attached cfg hne]
  have hwhole := feed_append_of_eq hfront (feed_append_of_eq hbody hback)
  refine ⟨_, hwhole, ?_⟩
  have hnone : acts.filter (!·.isWrote) = [] := by
    rw [List.filter_eq_nil_iff]
    intro a ha
    simp [hwrote a ha]
  rw [List.nil_append, List.filter_append, hnone]
  rfl

/-- A frame: two flags around a body without flags, which is unescaped to the header, the payload
and their CRC-16. -/
def IsFrame (frame : List Byte) : Prop :=
  ∃ body content, frame = 0x7e :: (body ++ [0x7e]) ∧ 0x7e ∉ body ∧
    unwrapPppFrame body =
      some (content ++ fcsBytes (Crc.crc 0x8408 0xffff content ^^^ 0xffff))

/-- With the same settings on both sides, the payloads of the frames are queued for IPv4 in the
order in which they were sent; all that happens besides is that the modem emulation writes. -/
theorem ppp_round_trip (dev : Device) (layer : ℕ) (attached : dev.protMap 0x800 = some layer)
    (cfg : Settings) (emulateModemXp : Bool) (accm : Accm)
    (hmarks : ∀ b, accm.marks b = true → b.toNat < 0x20) (payloads : List (List Byte))
    (hne : ∀ p ∈ payloads, p ≠ []) :
    (∃ acts, feed (receive dev cfg emulateModemXp) .start
        (payloads.flatMap (transmitPacket cfg accm)) = (.start, acts) ∧
      acts.filter (!·.isWrote) = payloads.map fun p =>
        .queued layer ⟨genOpponentMac dev.myMac dev.myMac_mac, dev.myMac, p⟩) ∧
    ∀ p ∈ payloads, IsFrame (transmitPacket cfg accm p) := by
  constructor
  · induction payloads with
    | nil => exact ⟨[], rfl, rfl⟩
    | cons p payloads ih =>
      obtain ⟨acts₁, hfirst, hqueued₁⟩ :=
        feed_transmitPacket attached cfg emulateModemXp hmarks (hne p List.mem_cons_self)
      obtain ⟨acts₂, hrest, hqueued₂⟩ := ih fun q hq => hne q (List.mem_cons_of_mem _ hq)
      refine ⟨acts₁ ++ acts₂, feed_append_of_eq hfirst hrest, ?_⟩
      rw [List.filter_append, hqueued₁, hqueued₂]
      rfl
  · intro p _
    refine ⟨_, tempOf cfg p 0x0021 true, wrapInPppFrame_eq cfg p 0x0021 accm true,
      flag_not_mem_stuff hmarks _, ?_⟩
    rw [unwrap_stuff, unescaped, fcs_eq]

/-- The table of the start, `ACCM_tx`: all characters below 0x20 are marked. -/
def Accm.initial : Accm := ⟨⟨[0xff, 0xff, 0xff, 0xff] ++ List.replicate 28 0⟩, rfl⟩

theorem ppp_round_trip_flags :
    ∃ acts, feed (receive Sample.device ⟨true, true⟩ true) .start
        (transmitPacket ⟨true, true⟩ .initial [0x7e, 0x7d, 0x11] ++
          transmitPacket ⟨true, true⟩ .initial [0xff]) = (.start, acts) ∧
      acts.filter (!·.isWrote) =
        [.queued 4 ⟨genOpponentMac Sample.device.myMac rfl, Sample.device.myMac,
            [0x7e, 0x7d, 0x11]⟩,
          .queued 4 ⟨genOpponentMac Sample.device.myMac rfl, Sample.device.myMac, [0xff]⟩] := by
  have h := ppp_round_trip Sample.device 4 rfl ⟨true, true⟩ true .initial
    (by decide +kernel) [[0x7e, 0x7d, 0x11], [0xff]] (by decide)
  simpa using h.1

end MyIp.Phys.Ppp
