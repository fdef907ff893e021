import MyIp.Net.Checksum
import MyIp.Tcp.Session

/-! # TCP segments on the wire

Reading the fields of a segment, as `tcp::packet_handler` does, and `tcp::send_segment`, which
builds one (20 bytes of header, 12 bytes of timestamp option and padding, the data) and hands it
to `transmit_packet`. -/

namespace MyIp.Tcp
open Bytes
set_option autoImplicit false

def flagFin : Byte := 0x01
def flagSyn : Byte := 0x02
def flagRst : Byte := 0x04
def flagAck : Byte := 0x10

/-! ## Fields of a segment -/

namespace Segment

def byteAt (b : List Byte) (i : ℕ) : Byte := b.getD i 0

def srcPort (b : List Byte) : BitVec 16 := be16 (byteAt b 0) (byteAt b 1)

def dstPort (b : List Byte) : BitVec 16 := be16 (byteAt b 2) (byteAt b 3)

def seqNr (b : List Byte) : BitVec 32 := be32 (byteAt b 4) (byteAt b 5) (byteAt b 6) (byteAt b 7)

def ackNr (b : List Byte) : BitVec 32 := be32 (byteAt b 8) (byteAt b 9) (byteAt b 10) (byteAt b 11)

def headerSize (b : List Byte) : ℕ := (byteAt b 12 >>> 4).toNat * 4

def flags (b : List Byte) : Byte := byteAt b 13

def hasFin (b : List Byte) : Bool := flags b &&& flagFin != 0

def hasSyn (b : List Byte) : Bool := flags b &&& flagSyn != 0

def hasRst (b : List Byte) : Bool := flags b &&& flagRst != 0

def hasAck (b : List Byte) : Bool := flags b &&& flagAck != 0

def winSize (b : List Byte) : BitVec 16 := be16 (byteAt b 14) (byteAt b 15)

/-- `p[header_size .. size)`. -/
def payload (b : List Byte) : List Byte := b.drop (headerSize b)

end Segment

/-! ## Building a segment -/

/-- The bytes of `temp` with a given checksum field. -/
def segmentWith (checksum : BitVec 16) (us : BitVec 64) (myPort peerPort : BitVec 16) (flags : Byte)
    (ackTo seq tsEcr : BitVec 32) (data : List Byte) : List Byte :=
  (myPort >>> 8).setWidth 8 :: myPort.setWidth 8 ::
  (peerPort >>> 8).setWidth 8 :: peerPort.setWidth 8 ::
  (seq >>> 24).setWidth 8 :: (seq >>> 16).setWidth 8 :: (seq >>> 8).setWidth 8 :: seq.setWidth 8 ::
  (ackTo >>> 24).setWidth 8 :: (ackTo >>> 16).setWidth 8 :: (ackTo >>> 8).setWidth 8 ::
    ackTo.setWidth 8 ::
  (8 <<< 4) :: flags :: 255 :: 255 ::
  (checksum >>> 8).setWidth 8 :: checksum.setWidth 8 :: 0 :: 0 ::
  8 :: 10 ::
  (us >>> 24).setWidth 8 :: (us >>> 16).setWidth 8 :: (us >>> 8).setWidth 8 :: us.setWidth 8 ::
  (tsEcr >>> 24).setWidth 8 :: (tsEcr >>> 16).setWidth 8 :: (tsEcr >>> 8).setWidth 8 ::
    tsEcr.setWidth 8 ::
  1 :: 0 :: data

/-- The finished segment: the checksum is computed over the segment with a zero field. -/
def segmentBytes (us : BitVec 64) (myAddr : AnyAddr) (myPort : BitVec 16) (peerAddr : AnyAddr)
    (peerPort : BitVec 16) (flags : Byte) (ackTo seq tsEcr : BitVec 32) (data : List Byte) :
    List Byte :=
  segmentWith
    (tcpUdpChecksum peerAddr myAddr true
      (segmentWith 0 us myPort peerPort flags ackTo seq tsEcr data))
    us myPort peerPort flags ackTo seq tsEcr data

/-- A segment with the smallest header, 20 bytes without options. -/
def bareSegment (checksum : BitVec 16) (srcPort dstPort : BitVec 16) (seq ackTo : BitVec 32)
    (flags : Byte) (window : BitVec 16) (data : List Byte) : List Byte :=
  be16Bytes srcPort ++ be16Bytes dstPort ++ be32Bytes seq ++ be32Bytes ackTo ++
    [0x50, flags] ++ be16Bytes window ++ be16Bytes checksum ++ [0, 0] ++ data

section Fields
variable (us : BitVec 64) (myAddr : AnyAddr) (myPort : BitVec 16) (peerAddr : AnyAddr)
  (peerPort : BitVec 16) (fl : Byte) (ackTo seq tsEcr : BitVec 32) (data : List Byte)

@[simp] theorem segmentBytes_srcPort :
    Segment.srcPort (segmentBytes us myAddr myPort peerAddr peerPort fl ackTo seq tsEcr data) =
      myPort := by
  simp [Segment.srcPort, Segment.byteAt, segmentBytes, segmentWith, be16_be16Bytes]

@[simp] theorem segmentBytes_dstPort :
    Segment.dstPort (segmentBytes us myAddr myPort peerAddr peerPort fl ackTo seq tsEcr data) =
      peerPort := by
  simp [Segment.dstPort, Segment.byteAt, segmentBytes, segmentWith, be16_be16Bytes]

@[simp] theorem segmentBytes_seqNr :
    Segment.seqNr (segmentBytes us myAddr myPort peerAddr peerPort fl ackTo seq tsEcr data) =
      seq := by
  simp [Segment.seqNr, Segment.byteAt, segmentBytes, segmentWith, be32_be32Bytes]

@[simp] theorem segmentBytes_ackNr :
    Segment.ackNr (segmentBytes us myAddr myPort peerAddr peerPort fl ackTo seq tsEcr data) =
      ackTo := by
  simp [Segment.ackNr, Segment.byteAt, segmentBytes, segmentWith, be32_be32Bytes]

@[simp] theorem segmentBytes_flags :
    Segment.flags (segmentBytes us myAddr myPort peerAddr peerPort fl ackTo seq tsEcr data) =
      fl := by
  simp [Segment.flags, Segment.byteAt, segmentBytes, segmentWith]

@[simp] theorem segmentBytes_headerSize :
    Segment.headerSize (segmentBytes us myAddr myPort peerAddr peerPort fl ackTo seq tsEcr data) =
      32 := by
  simp [Segment.headerSize, Segment.byteAt, segmentBytes, segmentWith]

@[simp] theorem segmentBytes_payload :
    Segment.payload (segmentBytes us myAddr myPort peerAddr peerPort fl ackTo seq tsEcr data) =
      data := by
  rw [Segment.payload, segmentBytes_headerSize, segmentBytes, segmentWith]
  simp only [List.drop_succ_cons, List.drop_zero]

end Fields

/-! ## `tcp::send_segment` -/

/-- What `send_segment` leaves behind: the session, the sequence number that its pointer argument
refers to (`none` for `nullptr`), and what it transmitted. -/
structure Sent (κ : Type) where
  session : TcpSession
  mySeqNr : Option (BitVec 32)
  acts : List (Act κ)

/-- How far a segment moves the sequence number: its data, and one for SYN or FIN. -/
def seqAdvance (flags : Byte) (dataLen : ℕ) : BitVec 32 :=
  BitVec.ofNat 32 dataLen + if flags &&& flagFin != 0 || flags &&& flagSyn != 0 then 1 else 0

/-- `tcp::send_segment`. Without a network device nothing is sent and nothing changes. What
`transmit_packet` returns is known to the caller only. -/
def sendSegment {κ : Type} (idev : Option Idev) (us : BitVec 64) (ts : TcpSession)
    (myAddr : AnyAddr) (myPort : BitVec 16) (peerAddr : AnyAddr) (peerPort : BitVec 16)
    (flags : Byte) (ackTo : BitVec 32) (mySeqNr : Option (BitVec 32)) (data : List Byte)
    (tsEcr : BitVec 32) : Sent κ :=
  match idev with
  | none => ⟨ts, mySeqNr, []⟩
  | some _ =>
    { session := { ts with eLastPktTs := us }
      mySeqNr := mySeqNr.map (· + seqAdvance flags data.length)
      acts := [.segment peerAddr myAddr (segmentBytes us myAddr myPort peerAddr peerPort flags ackTo
        (mySeqNr.getD 0) tsEcr data)] }

/-! ## Incoming packets -/

/-- A packet as the IP layer hands it over. `slack` is what the heap holds behind the copy of its
bytes: the option loop may look there. -/
structure Packet where
  srcAddr : AnyAddr
  dstAddr : AnyAddr
  data : List Byte
  slack : List Byte := []
  deriving DecidableEq

/-- The byte at `p[i]`, inside the packet or behind it. -/
def Packet.at (pkt : Packet) (i : ℕ) : Byte := Segment.byteAt (pkt.data ++ pkt.slack) i

/-- The loop over the TCP options, from offset `cur`, with the timestamp to echo found so far.
`none`: the loop does not end within `fuel` turns. -/
def scanOptions (pkt : Packet) : (fuel cur : ℕ) → BitVec 32 → Option (BitVec 32)
  | 0, _, _ => none
  | fuel + 1, cur, tsEcr =>
    if cur + 2 ≤ Segment.headerSize pkt.data then
      let tsEcr :=
        if pkt.at cur = 8 ∧ Segment.hasAck pkt.data ∧ cur + 6 ≤ Segment.headerSize pkt.data then
          be32 (pkt.at (cur + 2)) (pkt.at (cur + 3)) (pkt.at (cur + 4)) (pkt.at (cur + 5))
        else tsEcr
      if pkt.at cur = 0 ∨ pkt.at cur = 1 then scanOptions pkt fuel (cur + 1) tsEcr
      else scanOptions pkt fuel (cur + (pkt.at (cur + 1)).toNat) tsEcr
    else some tsEcr

/-- The timestamp to echo. A turn of the loop that moves on moves at least one byte, so more than
`header_size` turns are only made by a loop that stands still. -/
def optionsTSecr (pkt : Packet) : Option (BitVec 32) :=
  scanOptions pkt (Segment.headerSize pkt.data + 1) 20 0

end MyIp.Tcp
