import MyIp.Net.AnyAddr

/-! # What the link layers share

A device knows its own address and, in `prot_map`, which network layer takes the packets of an
ether type. `queueIncoming` is what all receivers do with a packet: it goes to the queue of that
layer, which is taken to have room for it, or nowhere if no layer is attached. -/

namespace MyIp.Phys
set_option autoImplicit false

open Bytes

/-- The part of a `packet` that a receiver fills in: the addresses of the link and the payload. -/
structure Packet where
  srcAddr : AnyAddr
  dstAddr : AnyAddr
  data : List Byte
  deriving DecidableEq

/-- `phys`: `prot_map` gives the network layer of an ether type by its number. -/
structure Device where
  myMac : AnyAddr
  myMac_mac : myMac.af = .mac
  protMap : BitVec 16 → Option ℕ

def Device.queueIncoming (dev : Device) (etherType : BitVec 16) (p : Packet) :
    List (ℕ × Packet) :=
  match dev.protMap etherType with
  | some layer => [(layer, p)]
  | none => []

theorem Device.queueIncoming_attached {dev : Device} {etherType : BitVec 16} {layer : ℕ}
    (h : dev.protMap etherType = some layer) (p : Packet) :
    dev.queueIncoming etherType p = [(layer, p)] := by
  rw [queueIncoming, h]

/-- `gen_opponent_mac` -/
def genOpponentMac (myMac : AnyAddr) (h : myMac.af = .mac) : AnyAddr where
  af := .mac
  addr := myMac.addr.zipIdx.map fun (b, i) => b ^^^ (if i % 2 = 1 then 0x55 else 0xaa)
  addr_size := by rw [List.length_map, List.length_zipIdx, myMac.addr_size, h]

namespace Sample

/-- A device with IPv4 attached, as layer 4. -/
def device : Device where
  myMac := ⟨.mac, [2, 0, 0, 0, 0, 1], rfl⟩
  myMac_mac := rfl
  protMap := fun etherType => if etherType = 0x800 then some 4 else none

end Sample

end MyIp.Phys
