import MyIp.Net.AnyAddr

/-! # The Internet checksum

`ip_checksum` (`network_layer.cpp`) and `tcp_udp_checksum` (`transport_layer.cpp`). The first reads
16 bit words and swaps each to network order, so on bytes it sums big-endian words. -/

namespace MyIp
open Bytes
set_option autoImplicit false

def netWords : List Byte → List (BitVec 16)
  | a :: b :: rest => be16 a b :: netWords rest
  | _ => []

def ipChecksum (p : List (BitVec 16)) : BitVec 16 :=
  let cksum : BitVec 32 := p.foldl (fun (c : BitVec 32) w => c + w.setWidth 32) 0
  let cksum := (cksum >>> 16) + (cksum &&& 0xffff)
  let cksum := cksum + (cksum >>> 16)
  (~~~cksum).setWidth 16

def padEven (payload : List Byte) : List Byte :=
  payload ++ List.replicate (payload.length % 2) 0

/-- The pseudo header of the destination's family, and nothing for the others. -/
def pseudoHeader (src dst : AnyAddr) (tcp : Bool) (len : ℕ) : Option (List Byte) :=
  let protocol : Byte := if tcp then 0x06 else 0x11
  match dst.af with
  | .ipv6 => some (src.addr ++ dst.addr ++ be32Bytes (BitVec.ofNat 32 len) ++ [0, 0, 0, protocol])
  | .ipv4 => some (src.addr ++ dst.addr ++ [0, protocol] ++ be16Bytes (BitVec.ofNat 16 len))
  | _ => none

def tcpUdpChecksum (src dst : AnyAddr) (tcp : Bool) (payload : List Byte) : BitVec 16 :=
  match pseudoHeader src dst tcp payload.length with
  | some header => ipChecksum (netWords (header ++ padEven payload))
  | none => 0

end MyIp
