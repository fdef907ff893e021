import MyIp.Ipv6.Receive

/-! # Extension headers

A packet with extension headers, as its sender makes it. `ipv6::operator()` (`ipv6.cpp`) does not
follow them: without padding it does not look for headers at all, and with padding it takes for
headers what is there, as far as there is padding. -/

namespace MyIp.Ipv6
set_option autoImplicit false

open Bytes

/-- A hop-by-hop, routing or destination options header; `units` counts what follows its first 8
bytes. -/
structure ExtensionHeader where
  type : Byte
  type_mem : type ∈ [0, 43, (60 : Byte)]
  units : Byte
  body : List Byte
  body_length : body.length + 2 = (units.toNat + 1) * 8

/-- The type of the first header of a chain that leads to `upper`. -/
def firstType (upper : Byte) : List ExtensionHeader → Byte
  | [] => upper
  | h :: _ => h.type

/-- Each header names the next one. -/
def chainBytes (upper : Byte) : List ExtensionHeader → List Byte
  | [] => []
  | h :: chain => firstType upper chain :: h.units :: h.body ++ chainBytes upper chain

structure Packet6 where
  /-- Version and a part of the traffic class. -/
  first : Byte
  version : first >>> 4 = 6
  /-- The rest of it, and the flow label. -/
  label : Vector Byte 3
  hopLimit : Byte
  src : AnyAddr
  src_ipv6 : src.af = .ipv6
  dst : AnyAddr
  dst_ipv6 : dst.af = .ipv6
  chain : List ExtensionHeader
  upper : Byte
  payload : List Byte
  length_lt : (chainBytes upper chain).length + payload.length < 65536

namespace Packet6

/-- What the payload length counts. -/
def length (q : Packet6) : ℕ := (chainBytes q.upper q.chain).length + q.payload.length

def fixedHeader (q : Packet6) : List Byte :=
  q.first :: (q.label.toList ++ (be16Bytes (BitVec.ofNat 16 q.length) ++
    (firstType q.upper q.chain :: q.hopLimit :: (q.src.addr ++ q.dst.addr))))

/-- The frame, with what the link layer puts behind the packet. -/
def bytes (q : Packet6) (padding : List Byte) : List Byte :=
  q.fixedHeader ++ (chainBytes q.upper q.chain ++ q.payload ++ padding)

theorem fixedHeader_length (q : Packet6) : q.fixedHeader.length = 40 := by
  have hsrc := AnyAddr.length_ipv6 q.src_ipv6
  have hdst := AnyAddr.length_ipv6 q.dst_ipv6
  simp [fixedHeader, hsrc, hdst]

theorem bytes_length (q : Packet6) (padding : List Byte) :
    (q.bytes padding).length = 40 + q.length + padding.length := by
  rw [bytes, List.length_append, q.fixedHeader_length, List.length_append, List.length_append, length]
  omega

theorem drop_bytes (q : Packet6) (padding : List Byte) :
    (q.bytes padding).drop 40 = chainBytes q.upper q.chain ++ q.payload ++ padding := by
  rw [bytes, ← q.fixedHeader_length, List.drop_left]

theorem field_bytes (q : Packet6) (padding : List Byte) :
    field (q.bytes padding) 0 = q.first ∧ ipSize (q.bytes padding) = q.length ∧
      field (q.bytes padding) 6 = firstType q.upper q.chain ∧
      address (q.bytes padding) 24 = q.dst := by
  have hsrc := AnyAddr.length_ipv6 q.src_ipv6
  have hdst := AnyAddr.length_ipv6 q.dst_ipv6
  have hlen := q.bytes_length padding
  obtain ⟨x, y, z, hlabel⟩ := List.length_eq_three.mp q.label.length_toList
  have hbytes : q.bytes padding = q.first :: x :: y :: z ::
      (be16Bytes (BitVec.ofNat 16 q.length) ++ (firstType q.upper q.chain :: q.hopLimit ::
        (q.src.addr ++ (q.dst.addr ++ (chainBytes q.upper q.chain ++ q.payload ++ padding))))) := by
    rw [bytes, fixedHeader, hlabel]
    simp only [List.cons_append, List.nil_append, List.append_assoc]
  refine ⟨by rw [hbytes]; rfl, ?_, by rw [hbytes]; rfl, ?_⟩
  · have hvalue : be16 (field (q.bytes padding) 4) (field (q.bytes padding) 5) =
        BitVec.ofNat 16 q.length := by
      rw [hbytes]
      exact be16_be16Bytes _
    simp only [ipSize]
    rw [hvalue, toNat_ofNat_of_lt q.length_lt, if_neg (by omega)]
  · have hread : readAt (q.bytes padding) 24 16 = q.dst.addr := by
      have hdrop : (q.bytes padding).drop 24 = (q.src.addr ++ (q.dst.addr ++
          (chainBytes q.upper q.chain ++ q.payload ++ padding))).drop 16 := by
        rw [hbytes]
        rfl
      rw [readAt_inside (by omega), hdrop, ← hsrc, List.drop_left, hsrc, ← hdst, List.take_left]
    rw [address]
    congr 1
    exact q.dst_ipv6.symm

end Packet6

/-- The payload is delivered to the handler of its protocol. -/
def Delivered (node : Node) (q : Packet6) (pkt : Arrival) : Prop :=
  ∃ header, (receive node pkt).outcome = .delivered q.upper header q.payload

/-- As many bytes as there are of padding, from the payload on, are not taken for headers; or they are,
and what is delivered then happens to be the same. -/
def PaddingIgnored (q : Packet6) (padding : List Byte) : Prop :=
  ∃ size, HeadersIn (q.payload ++ padding) padding.length q.upper q.upper size ∧
    size ≤ padding.length ∧ ((q.payload ++ padding).drop size).take q.payload.length = q.payload

/-- Less than 8 bytes of padding are not taken for a header. -/
theorem paddingIgnored_of_lt {q : Packet6} {padding : List Byte} (h : padding.length < 8) :
    PaddingIgnored q padding :=
  ⟨0, .done h, Nat.zero_le _, by rw [List.drop_zero, List.take_left]⟩

theorem chainBytes_eq_nil_iff (upper : Byte) (chain : List ExtensionHeader) :
    (chainBytes upper chain).length = 0 ↔ chain = [] := by
  cases chain with
  | nil => exact iff_of_true rfl rfl
  | cons h chain => exact iff_of_false (by simp [chainBytes]) nofun

section Receive

variable {node : Node} {q : Packet6} {pkt : Arrival} {padding : List Byte}

theorem receive_bytes (hdata : pkt.data = q.bytes padding) (hdst : q.dst = node.myip) :
    ∃ protocol size, HeadersIn (chainBytes q.upper q.chain ++ q.payload ++ padding) padding.length
        (firstType q.upper q.chain) protocol size ∧
      (receive node pkt).outcome = deliver node (q.bytes padding) protocol (40 + size) := by
  obtain ⟨hfirst, hsize, hprotocol, haddress⟩ := q.field_bytes padding
  have hlen := q.bytes_length padding
  have haccepted : ¬Refused node pkt.data := by
    rw [hdata]
    intro hrefused
    cases hrefused with
    | tooSmall h => omega
    | version h => exact h (by rw [hfirst]; exact q.version)
    | notForMe h => exact h.1 (haddress.trans hdst)
  have houtcome := receive_accepted haccepted
  rw [hdata] at houtcome
  obtain ⟨protocol, size, hheaders, hdemux⟩ := demux_eq node (q.bytes padding)
  rw [q.drop_bytes, hsize, hprotocol] at hheaders
  have hroom : (q.bytes padding).length - q.length - 40 = padding.length := by omega
  rw [hroom] at hheaders
  exact ⟨protocol, size, hheaders, houtcome.trans hdemux⟩

theorem chain_eq_nil_of_delivered (hdata : pkt.data = q.bytes padding) (hdst : q.dst = node.myip)
    (h : Delivered node q pkt) : q.chain = [] := by
  obtain ⟨protocol, size, -, houtcome⟩ := receive_bytes hdata hdst
  obtain ⟨header, hdelivered⟩ := h
  rw [houtcome] at hdelivered
  obtain ⟨-, hsize, -, -⟩ := q.field_bytes padding
  obtain ⟨-, hin, -, -, hpayload⟩ := deliver_eq_delivered_iff.mp hdelivered
  -- as many bytes are delivered as the payload length says, which counts the chain
  have hlength := congrArg List.length hpayload
  rw [List.length_take, List.length_drop, hsize, Packet6.length] at hlength
  rw [hsize, Packet6.length] at hin
  apply (chainBytes_eq_nil_iff q.upper q.chain).mp
  omega

/-- The payload of a packet is delivered exactly if it has no extension headers and its padding is
ignored. -/
theorem delivered_iff (node : Node) (q : Packet6) (pkt : Arrival) (padding : List Byte)
    (hdata : pkt.data = q.bytes padding) (hdst : q.dst = node.myip)
    (hupper : node.protMap q.upper = true) :
    Delivered node q pkt ↔ q.chain = [] ∧ PaddingIgnored q padding := by
  by_cases hchain : q.chain = []
  · obtain ⟨protocol, size, hheaders, houtcome⟩ := receive_bytes hdata hdst
    obtain ⟨-, hsize, -, -⟩ := q.field_bytes padding
    have hlength : q.length = q.payload.length := by
      rw [Packet6.length, hchain]
      exact Nat.zero_add _
    have hlen := q.bytes_length padding
    have hdrop : (q.bytes padding).drop (40 + size) = (q.payload ++ padding).drop size := by
      rw [← List.drop_drop, q.drop_bytes, hchain]
      rfl
    rw [hchain] at hheaders
    change HeadersIn (q.payload ++ padding) padding.length q.upper protocol size at hheaders
    have hdelivered : Delivered node q pkt ↔ node.protMap protocol = true ∧
        size ≤ padding.length ∧ protocol = q.upper ∧
          ((q.payload ++ padding).drop size).take q.payload.length = q.payload := by
      simp only [Delivered, houtcome, deliver_eq_delivered_iff, hsize, hlength, hdrop]
      constructor
      · rintro ⟨header, hknown, hin, hprotocol, -, hpayload⟩
        exact ⟨hknown, by omega, hprotocol, hpayload⟩
      · rintro ⟨hknown, hin, hprotocol, hpayload⟩
        exact ⟨_, hknown, by omega, hprotocol, rfl, hpayload⟩
    rw [hdelivered]
    constructor
    · rintro ⟨-, hin, rfl, hpayload⟩
      exact ⟨hchain, size, hheaders, hin, hpayload⟩
    · rintro ⟨-, size', hheaders', hin, hpayload⟩
      obtain ⟨rfl, rfl⟩ := hheaders.unique hheaders'
      exact ⟨hupper, hin, rfl, hpayload⟩
  · exact iff_of_false (fun h => hchain (chain_eq_nil_of_delivered hdata hdst h))
      fun h => hchain h.1

end Receive

namespace Sample

/-- 8 bytes of UDP for the host, behind extension headers. -/
def packet (chain : List ExtensionHeader) (h : (chainBytes 17 chain).length < 65000) : Packet6 where
  first := 0x60
  version := by decide
  label := #v[0, 0, 0]
  hopLimit := 64
  src := ⟨.ipv6, [0x20, 1, 0x0d, 0xb8, 0, 0, 0, 0, 0, 0, 0, 0, 0, 0, 1, 9], rfl⟩
  src_ipv6 := rfl
  dst := node.myip
  dst_ipv6 := rfl
  chain := chain
  upper := 17
  payload := [0, 7, 0, 9, 0, 8, 0, 0]
  length_lt := by
    have hpayload : [0, 7, 0, 9, 0, 8, 0, (0 : Byte)].length = 8 := rfl
    rw [hpayload]
    omega

/-- Destination options, with a PadN option. -/
def destinationOptions : ExtensionHeader where
  type := 60
  type_mem := by decide
  units := 0
  body := [1, 4, 0, 0, 0, 0]
  body_length := rfl

def arrival (q : Packet6) (padding : List Byte) : Arrival :=
  { frame 0 with data := q.bytes padding }

end Sample

theorem delivered_iff_plain :
    Delivered Sample.node (Sample.packet [] (by decide))
        (Sample.arrival (Sample.packet [] (by decide)) [0, 0]) ↔
      (Sample.packet [] (by decide)).chain = [] ∧
        PaddingIgnored (Sample.packet [] (by decide)) [0, 0] :=
  delivered_iff Sample.node (Sample.packet [] (by decide)) _ [0, 0] rfl rfl rfl

/-- A packet with destination options is dropped, and so is one without them that is followed by 8
bytes of padding. -/
theorem not_delivered :
    (receive Sample.node (Sample.arrival
        (Sample.packet [Sample.destinationOptions] (by decide)) [])).outcome =
          .discarded .unknownProtocol ∧
      (receive Sample.node (Sample.arrival (Sample.packet [] (by decide))
        (List.replicate 8 0))).outcome = .discarded .unknownProtocol ∧
      ¬Delivered Sample.node (Sample.packet [Sample.destinationOptions] (by decide))
        (Sample.arrival (Sample.packet [Sample.destinationOptions] (by decide)) []) := by
  refine ⟨by decide +kernel, by decide +kernel, fun h => ?_⟩
  have hdata : (Sample.arrival (Sample.packet [Sample.destinationOptions] (by decide)) []).data =
      (Sample.packet [Sample.destinationOptions] (by decide)).bytes [] := rfl
  cases chain_eq_nil_of_delivered hdata rfl h

end MyIp.Ipv6
