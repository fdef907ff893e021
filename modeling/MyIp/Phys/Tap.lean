import MyIp.Phys.Bpq
import MyIp.Router

/-! # Ethernet frames of a TAP device

`phys_tap::transmit_packet` (`phys_tap.cpp`) puts the two addresses and the ether type before a
payload and pads the frame to 64 bytes; the thread of another device reads a frame into a buffer of
65536 bytes and gives it to `process_ethernet_frame`. A payload arrives with zeros behind it if it
is short (`receive_transmitPacket`): what it is made of has to tell where it ends. -/

namespace MyIp.Phys.Tap
set_option autoImplicit false

open Bytes Bpq

/-- `any_addr::get` with the expected size, which is asserted. -/
def getBytes (a : AnyAddr) (expSize : ℕ) : Option (List Byte) :=
  if expSize = a.af.size then some a.addr else none

def pad (out : List Byte) : List Byte := out ++ List.replicate (64 - out.length) 0

/-- `phys_tap::transmit_packet`: what is written to the device. -/
def transmitPacket (dstMac srcMac : AnyAddr) (etherType : BitVec 16) (payload : List Byte) :
    Option (List Byte) := do
  let dst ← getBytes dstMac 6
  let src ← getBytes srcMac 6
  return pad (dst ++ src ++ be16Bytes etherType ++ payload)

/-- `router::operator()` for a queued packet, and the frame that the chosen device writes. -/
def emit (net : Router.Net) (q : Router.QueuedPacket) : Option (List Byte) :=
  match Router.decision net q with
  | .ok (.transmit _ dstMac srcMac) => transmitPacket dstMac srcMac q.etherType q.data
  | _ => none

/-- `phys_tap::operator()` for one frame. -/
def receive (env : Env) (frame : List Byte) : Bpq.Outcome :=
  let buffer := frame.take 65536
  if buffer.length < 14 then .ok (false, []) else processEthernetFrame env buffer

/-! ## From one device to another -/

theorem getBytes_mac {a : AnyAddr} {b : List Byte} (h : getBytes a 6 = some b) :
    a.af = .mac ∧ b = a.addr ∧ b.length = 6 := by
  rw [getBytes] at h
  split at h
  · next hsize =>
    obtain rfl := Option.some.inj h
    refine ⟨?_, rfl, a.addr_size.trans hsize.symm⟩
    cases haf : a.af with
    | mac => rfl
    | _ => simp [haf, AddrFamily.size] at hsize
  · cases h

theorem transmitPacket_some {dstMac srcMac : AnyAddr} {etherType : BitVec 16}
    {payload frame : List Byte} (h : transmitPacket dstMac srcMac etherType payload = some frame) :
    dstMac.af = .mac ∧ srcMac.af = .mac ∧
      frame = dstMac.addr ++ (srcMac.addr ++ (be16Bytes etherType ++
        (payload ++ List.replicate (50 - payload.length) 0))) := by
  rw [transmitPacket] at h
  obtain ⟨dst, hdst, h⟩ := Option.bind_eq_some_iff.mp h
  obtain ⟨src, hsrc, h⟩ := Option.bind_eq_some_iff.mp h
  obtain ⟨hdstMac, rfl, hdstLen⟩ := getBytes_mac hdst
  obtain ⟨hsrcMac, rfl, hsrcLen⟩ := getBytes_mac hsrc
  refine ⟨hdstMac, hsrcMac, ?_⟩
  rw [← Option.some.inj h, pad, List.length_append, List.length_append, List.length_append, hdstLen,
    hsrcLen, be16Bytes_length]
  simp only [List.append_assoc]
  rw [show 64 - (6 + 6 + 2 + payload.length) = 50 - payload.length by omega]

theorem emit_some {net : Router.Net} {q : Router.QueuedPacket} {frame : List Byte}
    (h : emit net q = some frame) :
    ∃ dstMac srcMac, transmitPacket dstMac srcMac q.etherType q.data = some frame := by
  rw [emit] at h
  split at h
  · exact ⟨_, _, h⟩
  · cases h

/-- The network layer that the ether type is for gets the payload, padded, and the addresses. -/
theorem receive_transmitPacket {dstMac srcMac : AnyAddr} {etherType : BitVec 16}
    {payload frame : List Byte} (h : transmitPacket dstMac srcMac etherType payload = some frame)
    (fits : 14 + payload.length ≤ 65536) (ip : etherType ≠ 0x08ff) {env : Env}
    {layer : ℕ} (attached : env.protMap etherType = some layer) :
    receive env frame = .ok (true, [.queueIncomingPacket layer
      ⟨srcMac, dstMac, payload ++ List.replicate (50 - payload.length) 0⟩]) := by
  obtain ⟨hdst, hsrc, hframe⟩ := transmitPacket_some h
  have hdstLen : dstMac.addr.length = 6 := by rw [dstMac.addr_size, hdst, AddrFamily.size]
  have hsrcLen : srcMac.addr.length = 6 := by rw [srcMac.addr_size, hsrc, AddrFamily.size]
  have hlen : frame.length = 14 + (payload ++ List.replicate (50 - payload.length) 0).length := by
    rw [hframe, List.length_append, List.length_append, List.length_append, hdstLen, hsrcLen,
      be16Bytes_length]
    omega
  have hpadded : (payload ++ List.replicate (50 - payload.length) (0 : Byte)).length ≤ 65522 := by
    rw [List.length_append, List.length_replicate]
    omega
  have hwhole : frame.take 65536 = frame := List.take_of_length_le (by omega)
  have htype : be16 (frame.getD 12 0) (frame.getD 13 0) = etherType := by
    have hdrop : frame.drop 12 = be16Bytes etherType ++
        (payload ++ List.replicate (50 - payload.length) 0) := by
      rw [hframe, ← List.append_assoc]
      exact List.drop_left' (by rw [List.length_append, hdstLen, hsrcLen])
    have hat : ∀ i, frame.getD (12 + i) 0 = (frame.drop 12).getD i 0 := by
      intro i
      rw [List.getD_eq_getElem?_getD, List.getD_eq_getElem?_getD, List.getElem?_drop]
    rw [show frame.getD 12 0 = _ from hat 0, show frame.getD 13 0 = _ from hat 1, hdrop]
    exact be16_be16Bytes etherType
  have hhead : frame.take 6 = dstMac.addr := by
    rw [hframe]
    exact List.take_left' hdstLen
  have hmiddle : (frame.drop 6).take 6 = srcMac.addr := by
    rw [hframe, List.drop_left' hdstLen]
    exact List.take_left' hsrcLen
  have hrest : frame.drop 14 = payload ++ List.replicate (50 - payload.length) 0 := by
    rw [hframe, ← List.append_assoc, ← List.append_assoc]
    exact List.drop_left' (by
      rw [List.length_append, List.length_append, hdstLen, hsrcLen, be16Bytes_length])
  simp only [receive, hwhole]
  rw [if_neg (by omega), processEthernetFrame, ethernetFrame, dif_pos (by omega)]
  simp only [htype, if_neg ip, attached, hhead, hmiddle, hrest]
  have hmac : ∀ (a : AnyAddr), a.af = .mac → ∀ hsize, (⟨.mac, a.addr, hsize⟩ : AnyAddr) = a := by
    rintro ⟨af, addr, hsize⟩ rfl _
    rfl
  rw [hmac srcMac hsrc, hmac dstMac hdst]

end MyIp.Phys.Tap
