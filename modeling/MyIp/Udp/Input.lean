import MyIp.Udp.Transmit

/-! # Receiving UDP

`udp::operator()` (`udp.cpp`) looks for a handler by the destination port and gives it what is
behind the header, or has ICMP tell the sender that there is none. Neither the length nor the
checksum of the datagram is looked at. -/

namespace MyIp.Udp
set_option autoImplicit false

open Bytes Net

variable {κ : Type}

/-- The map `callbacks`. -/
abbrev Callbacks (κ : Type) := ℤ → Option κ

/-- `udp::add_handler`: a handler that is there stays. -/
def addHandler (port : ℤ) (cb : κ) (callbacks : Callbacks κ) : Callbacks κ :=
  if (callbacks port).isSome then callbacks else Function.update callbacks port (some cb)

inductive Effect (κ : Type)
  | callback (cb : κ) (srcAddr : AnyAddr) (srcPort : ℤ) (dstAddr : AnyAddr) (dstPort : ℤ)
      (up : IpPacket)
  | sendDestinationPortUnreachable (dstIp srcIp : AnyAddr) (pkt : IpPacket)

def srcPort (p : List Byte) : ℤ := (be16 (p.getD 0 0) (p.getD 1 0)).toNat

def dstPort (p : List Byte) : ℤ := (be16 (p.getD 2 0) (p.getD 3 0)).toNat

/-- `udp::operator()` for one packet; `icmp` says that there is an ICMP layer. -/
def receive (icmp : Bool) (callbacks : Callbacks κ) (pkt : IpPacket) : Option (Effect κ) :=
  if pkt.data.length < 8 then none
  else
    match callbacks (dstPort pkt.data) with
    | none =>
      if icmp then some (.sendDestinationPortUnreachable pkt.srcAddr pkt.dstAddr pkt) else none
    | some cb =>
      some (.callback cb pkt.srcAddr (srcPort pkt.data) pkt.dstAddr (dstPort pkt.data)
        { pkt with data := pkt.data.drop 8 })

/-! ## A datagram of `transmit_packet` -/

section Datagram
variable (source target : ℤ) (payload : List Byte) (checksum : BitVec 16)

/-- The header keeps the lower 16 bits of a port. -/
theorem port_bytes (port : ℤ) :
    ((be16 ((BitVec.ofInt 16 port >>> 8).setWidth 8)
      ((BitVec.ofInt 16 port).setWidth 8)).toNat : ℤ) = port % 65536 := by
  rw [be16_be16Bytes, BitVec.toNat_ofInt]
  omega

@[simp] theorem srcPort_datagram :
    srcPort (datagram source target payload checksum) = source % 65536 :=
  port_bytes source

@[simp] theorem dstPort_datagram :
    dstPort (datagram source target payload checksum) = target % 65536 :=
  port_bytes target

@[simp] theorem drop_datagram : (datagram source target payload checksum).drop 8 = payload := rfl

/-- The handler of the port gets the payload, and if there is none the whole datagram is quoted. -/
theorem receive_datagram (icmp : Bool) (callbacks : Callbacks κ) {pkt : IpPacket}
    (h : pkt.data = datagram source target payload checksum) :
    receive icmp callbacks pkt =
      match callbacks (target % 65536) with
      | some cb => some (.callback cb pkt.srcAddr (source % 65536) pkt.dstAddr (target % 65536)
          { pkt with data := payload })
      | none =>
        if icmp then some (.sendDestinationPortUnreachable pkt.srcAddr pkt.dstAddr pkt)
        else none := by
  rw [receive, h, datagram_length, if_neg (by omega), srcPort_datagram, dstPort_datagram,
    drop_datagram]
  cases callbacks (target % 65536) <;> rfl

end Datagram

end MyIp.Udp
