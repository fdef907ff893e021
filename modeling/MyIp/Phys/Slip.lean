import MyIp.Foundations.Framing
import MyIp.Phys.Device

/-! # SLIP

`phys_slip::transmit_packet` frames a packet by END bytes on both sides, the receive loop of
`phys_slip::operator()` collects the bytes between them. The loop fetches the byte after an ESC
with a second `read`, which blocks until there is one; `inEscape` says that it waits there.

A byte is taken up from its encoding (`feed_escaped`), so a frame is received whole
(`feed_transmitPacket`), and the empty frames between two END bytes are dropped because they are
shorter than 20 bytes. -/

namespace MyIp.Phys.Slip
set_option autoImplicit false

open Bytes Framing

/-- What the loop of `transmit_packet` puts out for one byte. -/
def escaped (b : Byte) : List Byte :=
  if b = 0xc0 then [0xdb, 0xdc]
  else if b = 0xdb then [0xdb, 0xdd]
  else [b]

/-- `out_size` -/
def outSize (plSize : ℕ) : ℕ := plSize * 2 + 2

/-- `transmit_packet`: the bytes it writes. -/
def transmitPacket (payload : List Byte) : List Byte := 0xc0 :: (payload.flatMap escaped ++ [0xc0])

structure Receiver where
  packetBuffer : List Byte
  inEscape : Bool
  deriving DecidableEq

def Receiver.start : Receiver := ⟨[], false⟩

def srcMac : AnyAddr := ⟨.mac, [0, 0, 0, 0, 0, 1], rfl⟩

/-- The END of a packet: shorter ones than an IP header are invalid. -/
def endOfPacket (dev : Device) (packetBuffer : List Byte) : List (ℕ × Packet) :=
  if packetBuffer.length < 20 then []
  else dev.queueIncoming 0x800 ⟨srcMac, dev.myMac, packetBuffer⟩

/-- One byte that `operator()` reads, and what it queues. -/
def receive (dev : Device) (r : Receiver) (buffer : Byte) : Receiver × List (ℕ × Packet) :=
  if r.inEscape then
    if buffer = 0xdc then (⟨r.packetBuffer ++ [0xc0], false⟩, [])
    else if buffer = 0xdd then (⟨r.packetBuffer ++ [0xdb], false⟩, [])
    else (⟨r.packetBuffer, false⟩, [])
  else if buffer = 0xdb then (⟨r.packetBuffer, true⟩, [])
  else if buffer = 0xc0 then (.start, endOfPacket dev r.packetBuffer)
  else (⟨r.packetBuffer ++ [buffer], false⟩, [])

theorem escaped_eq (b : Byte) :
    escaped b = (Stuffing.delimited (0xc0 : Byte) 0xdb 0xdc 0xdd).symbol b :=
  (Stuffing.delimited_symbol _ _ _ _ b).symm

theorem transmitPacket_length_le (payload : List Byte) :
    (transmitPacket payload).length ≤ outSize payload.length := by
  have h := Stuffing.stuff_length_le (S := .delimited (0xc0 : Byte) 0xdb 0xdc 0xdd) payload
  rw [Stuffing.stuff, ← List.flatMap_congr fun b _ => escaped_eq b] at h
  rw [transmitPacket, outSize, List.length_cons, List.length_append, List.length_singleton]
  omega

theorem feed_escaped (dev : Device) (collected : List Byte) (b : Byte) :
    feed (receive dev) ⟨collected, false⟩ (escaped b) = (⟨collected ++ [b], false⟩, []) := by
  unfold escaped
  split
  · rename_i hend
    subst hend
    rfl
  · rename_i hend
    split
    · rename_i hesc
      subst hesc
      rfl
    · rename_i hesc
      rw [feed_singleton, receive, if_neg Bool.false_ne_true, if_neg hesc, if_neg hend]

/-- Between packets, the END in front is the end of an empty frame. -/
theorem feed_transmitPacket (dev : Device) (payload : List Byte) :
    feed (receive dev) .start (transmitPacket payload) = (.start, endOfPacket dev payload) := by
  have hfront : feed (receive dev) .start [0xc0] = (.start, []) := rfl
  have hbody : feed (receive dev) .start (payload.flatMap escaped) = (⟨payload, false⟩, []) :=
    feed_collect (φ := fun collected => Receiver.mk collected false) fun pre b _ _ =>
      feed_escaped dev pre b
  have hback : feed (receive dev) ⟨payload, false⟩ [0xc0] = (.start, endOfPacket dev payload) :=
    feed_singleton _ _
  exact feed_append_of_eq hfront (feed_append_of_eq hbody hback)

/-- Packets of at least 20 bytes that are sent one after the other are queued in that order, each
with the contents it was sent with, and nothing else is queued. -/
theorem slip_round_trip (dev : Device) (layer : ℕ) (attached : dev.protMap 0x800 = some layer)
    (packets : List (List Byte)) (hlen : ∀ p ∈ packets, 20 ≤ p.length) :
    feed (receive dev) .start (packets.flatMap transmitPacket) =
        (.start, packets.map fun p => (layer, ⟨srcMac, dev.myMac, p⟩)) ∧
      ∀ p ∈ packets, (transmitPacket p).length ≤ outSize p.length := by
  refine ⟨?_, fun p _ => transmitPacket_length_le p⟩
  have hframe : ∀ p ∈ packets, feed (receive dev) .start (transmitPacket p) =
      (.start, [(layer, ⟨srcMac, dev.myMac, p⟩)]) := by
    intro p hp
    have hlong : ¬p.length < 20 := by
      have := hlen p hp
      omega
    rw [feed_transmitPacket, endOfPacket, if_neg hlong, Device.queueIncoming_attached attached]
  rw [feed_frames hframe, List.map_eq_flatMap]

/-- Packets that consist of END and of ESC bytes only. -/
theorem slip_round_trip_delimiters :
    (feed (receive Sample.device) .start
        (transmitPacket (List.replicate 20 0xc0) ++ transmitPacket (List.replicate 21 0xdb))).2 =
      [(4, ⟨srcMac, Sample.device.myMac, List.replicate 20 0xc0⟩),
        (4, ⟨srcMac, Sample.device.myMac, List.replicate 21 0xdb⟩)] := by
  have h := slip_round_trip Sample.device 4 rfl
    [List.replicate 20 0xc0, List.replicate 21 0xdb] (by decide)
  simpa using congrArg Prod.snd h.1

end MyIp.Phys.Slip
