import MyIp.Net.AnyAddr

/-! # Between the network and the transport layers

What a transport layer gets from a network layer, and what it gives to one. -/

namespace MyIp.Net
set_option autoImplicit false

open Bytes

/-- `packet`, as a transport layer gets it: `header` is what the network layer had before `data`. -/
structure IpPacket where
  srcMacAddr : AnyAddr
  srcAddr : AnyAddr
  dstAddr : AnyAddr
  data : List Byte
  header : List Byte

/-- The arguments of `network_layer::transmit_packet`. -/
structure IpTransmit where
  dstMac : Option AnyAddr
  dstIp : AnyAddr
  srcIp : AnyAddr
  protocol : Byte
  payload : List Byte
  headerTemplate : Option (List Byte)
  deriving DecidableEq

/-- The arguments of `udp::transmit_packet`. -/
structure UdpTransmit where
  dstIp : AnyAddr
  dstPort : ℤ
  srcIp : AnyAddr
  srcPort : ℤ
  payload : List Byte

end MyIp.Net
