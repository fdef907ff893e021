import MyIp.Icmp6.OptionWalk
import MyIp.Net.InternetChecksum
import MyIp.Net.Layers

/-! # Incoming ICMPv6

`icmp6::operator()` and `send_packet` (`icmp6.cpp`). A message is built in a buffer of `max_size`
bytes, 8 less than a packet may have. The payload alone is compared with that size; then 8 bytes of
header come before it, and the whole is rounded up to a multiple of 8. -/

namespace MyIp.Icmp6
set_option autoImplicit false

open Bytes Net OnesComplement

inductive Fault
  /-- Bytes behind the packet are read. -/
  | packetRead
  /-- Bytes behind `out` are written. -/
  | bufferWrite
  /-- Bytes behind `out` are read. -/
  | bufferRead
  | negativeSize
  | assertion
  deriving DecidableEq

inductive Effect
  | nothing
  | transmit (call : IpTransmit)
  | addRouterIpv6 (call : Router.Table.Call)
  | hangs

/-- An `icmp6`: the `mtu_size` of the device behind `idev`, if that is set, and whether warnings are
logged. -/
structure Host extends Node where
  myMac : AnyAddr
  idev : Option ℤ
  logsWarnings : Bool

/-- `get_max_packet_size` of `ipv6`, with that of the device in it. -/
def maxPacketSize (mtuSize : ℤ) : ℤ := mtuSize - 14 - 40

/-- `a.get(p, expSize)` -/
def getBytes (a : AnyAddr) (expSize : ℕ) : Except Fault (List Byte) :=
  if a.af.size = expSize then .ok a.addr else .error .assertion

/-- `out_size` -/
def roundUp (size : ℕ) : ℕ := if size % 8 ≠ 0 then size + (8 - size % 8) else size

/-- `out`, as far as it is transmitted. -/
def message (type code : Byte) (reserved : BitVec 32) (payload : List Byte) (checksum : BitVec 16) :
    List Byte :=
  [type, code] ++ (be16Bytes checksum ++ (be32Bytes reserved ++ payload ++
    List.replicate (roundUp (8 + payload.length) - (8 + payload.length)) 0))

def pseudoHeader (src dst : List Byte) (len : ℕ) : List Byte :=
  src ++ (dst ++ (be32Bytes (BitVec.ofNat 32 len) ++ [0, 0, 0, 58]))

/-- `send_packet`, where `payload` is what there is at the pointer. -/
def sendPacket (idev : Option ℤ) (dstMac : AnyAddr) (dstIp srcIp : AnyAddr) (type code : Byte)
    (reserved : BitVec 32) (payload : List Byte) (payloadSize : ℤ) : Except Fault Effect :=
  match idev with
  | none => .ok .nothing
  | some mtuSize =>
    let maxSize := maxPacketSize mtuSize - 8
    if maxSize < payloadSize then .ok .nothing
    else if maxSize < 8 then .error .bufferWrite
    else if payloadSize < 0 then .error .negativeSize
    else if payload.length < payloadSize then .error .packetRead
    else if maxSize < 8 + payloadSize then .error .bufferWrite
    else
      let payload := payload.take payloadSize.toNat
      if maxSize < roundUp (8 + payload.length) then .error .bufferRead
      else do
        let src ← getBytes srcIp 16
        let dst ← getBytes dstIp 16
        let temp := pseudoHeader src dst (roundUp (8 + payload.length)) ++
          message type code reserved payload 0
        return .transmit ⟨some dstMac, dstIp, srcIp, 0x3a,
          message type code reserved payload (ipChecksum (netWords temp)), none⟩

/-- `send_ping_reply` -/
def sendPingReply (host : Host) (pkt : IpPacket) : Except Fault Effect :=
  match pkt.data with
  | _ :: _ :: _ :: _ :: a :: b :: c :: d :: payload =>
    sendPacket host.idev pkt.srcMacAddr pkt.srcAddr host.myIp 129 0 (be32 a b c d) payload
      (pkt.data.length - 8)
  | _ => .error .packetRead

/-- `send_packet_neighbor_advertisement` -/
def sendPacketNeighborAdvertisement (host : Host) (peerMac peerIp : AnyAddr) :
    Except Fault Effect := do
  let mac ← getBytes host.myMac 6
  let ip ← getBytes host.myIp 16
  sendPacket host.idev peerMac peerIp host.myIp 136 0 0x60000000 (ip ++ ([0x02, 0x01] ++ mac)) 24

def Outcome.effect : Outcome → Except Fault Effect
  | nothing => .ok .nothing
  | addRouterIpv6 call => .ok (.addRouterIpv6 call)
  | outOfBounds => .error .packetRead
  | hangs => .ok .hangs

/-- `icmp6::operator()` for one packet. -/
def receive (host : Host) (pkt : IpPacket) : Except Fault Effect :=
  match pkt.data with
  | [] => .error .packetRead
  | type :: rest =>
    if type = 128 then sendPingReply host pkt
    else if type = 133 then .ok .nothing
    else if type = 134 then (processRouterAdvertisement host.toNode pkt.data).effect
    else if type = 135 then sendPacketNeighborAdvertisement host pkt.srcMacAddr pkt.srcAddr
    else if host.logsWarnings ∧ rest = [] then .error .packetRead
    else .ok .nothing

/-! ## Bounds -/

/-- Only bytes of the packet are read, only bytes of `out` written, and no size is negative. -/
structure StaysInside (host : Host) (pkt : IpPacket) : Prop where
  packetRead : receive host pkt ≠ .error .packetRead
  bufferWrite : receive host pkt ≠ .error .bufferWrite
  negativeSize : receive host pkt ≠ .error .negativeSize

/-- An echo request has its header, and is at least 8 bytes smaller than a packet may be, or larger
than it may be. -/
def EchoFits (host : Host) (size : ℕ) : Prop :=
  8 ≤ size ∧ ∀ mtuSize ∈ host.idev,
    (size : ℤ) + 8 ≤ maxPacketSize mtuSize ∨ maxPacketSize mtuSize < size

/-- What a packet needs, by its type. -/
structure Wellsized (host : Host) (p : List Byte) : Prop where
  type : p ≠ []
  echo : p.head? = some 128 → EchoFits host p.length
  advertisement : p.head? = some 134 → p.length ≤ 18 ∨ OptionsInside p
  logged : p.length = 1 → host.logsWarnings = true →
    p.head? ∈ [some 128, some 133, some 134, some 135]

section SendPacket

variable {mtuSize : ℤ} {dstMac dstIp srcIp : AnyAddr} {type code : Byte} {reserved : BitVec 32}
  {payload : List Byte}

theorem sendPacket_tooBig (h : maxPacketSize mtuSize < payload.length + 8) :
    sendPacket (some mtuSize) dstMac dstIp srcIp type code reserved payload payload.length =
      .ok .nothing := by
  simp only [sendPacket]
  rw [if_pos (by omega)]

theorem sendPacket_overflow (h : payload.length + 8 ≤ maxPacketSize mtuSize)
    (h' : maxPacketSize mtuSize < payload.length + 16) :
    sendPacket (some mtuSize) dstMac dstIp srcIp type code reserved payload payload.length =
      .error .bufferWrite := by
  simp only [sendPacket]
  rw [if_neg (by omega)]
  by_cases hsmall : maxPacketSize mtuSize - 8 < 8
  · rw [if_pos hsmall]
  · rw [if_neg hsmall, if_neg (by omega), if_neg (by omega), if_pos (by omega)]

theorem sendPacket_fits (h : payload.length + 16 ≤ maxPacketSize mtuSize) :
    sendPacket (some mtuSize) dstMac dstIp srcIp type code reserved payload payload.length =
      if maxPacketSize mtuSize - 8 < roundUp (8 + payload.length) then .error .bufferRead
      else do
        let src ← getBytes srcIp 16
        let dst ← getBytes dstIp 16
        return .transmit ⟨some dstMac, dstIp, srcIp, 0x3a, message type code reserved payload
          (ipChecksum (netWords (pseudoHeader src dst (roundUp (8 + payload.length)) ++
            message type code reserved payload 0))), none⟩ := by
  simp only [sendPacket]
  rw [if_neg (by omega), if_neg (by omega), if_neg (by omega), if_neg (by omega), if_neg (by omega),
    Int.toNat_natCast, List.take_length]

theorem getBytes_ne_error {a : AnyAddr} {n : ℕ} {fault : Fault} (h : fault ≠ .assertion) :
    getBytes a n ≠ .error fault := by
  rw [getBytes]
  split
  · nofun
  · exact fun he => h (Except.error.inj he).symm

theorem getBytes_ok {a : AnyAddr} {n : ℕ} {bytes : List Byte} (h : getBytes a n = .ok bytes) :
    bytes = a.addr ∧ bytes.length = n := by
  rw [getBytes] at h
  split at h
  · rename_i hsize
    obtain rfl := Except.ok.inj h
    exact ⟨rfl, a.addr_size.trans hsize⟩
  · cases h

theorem bind_ne_error {α β : Type} {x : Except Fault α} {f : α → Except Fault β} {fault : Fault}
    (hx : x ≠ .error fault) (hf : ∀ a, x = .ok a → f a ≠ .error fault) :
    (x >>= f) ≠ .error fault := by
  cases x with
  | error e => exact fun h => hx (congrArg Except.error (Except.error.inj h))
  | ok a => exact hf a rfl

/-- Where all of the message fits, only an assertion can fail. -/
theorem sendPacket_ne_error (h : payload.length + 16 ≤ maxPacketSize mtuSize) {fault : Fault}
    (hfault : fault ≠ .assertion) (hread : fault ≠ .bufferRead) :
    sendPacket (some mtuSize) dstMac dstIp srcIp type code reserved payload payload.length ≠
      .error fault := by
  rw [sendPacket_fits h]
  split
  · exact fun he => hread (Except.error.inj he).symm
  · apply bind_ne_error (getBytes_ne_error hfault)
    intro src _
    apply bind_ne_error (getBytes_ne_error hfault)
    nofun

end SendPacket

theorem length_header_add {p : List Byte} (h : 8 ≤ p.length) : 8 + (p.drop 8).length = p.length := by
  rw [List.length_drop]
  omega

/-- The size that `send_ping_reply` gives is that of what follows the header of a request. -/
theorem sendPingReply_eq (host : Host) {pkt : IpPacket} (h : 8 ≤ pkt.data.length) :
    ∃ idSeqNr, sendPingReply host pkt = sendPacket host.idev pkt.srcMacAddr pkt.srcAddr host.myIp
      129 0 idSeqNr (pkt.data.drop 8) (pkt.data.drop 8).length ∧
      be32Bytes idSeqNr = (pkt.data.drop 4).take 4 := by
  obtain ⟨srcMacAddr, srcAddr, dstAddr, data, header⟩ := pkt
  match data, h with
  | t :: u :: v :: w :: a :: b :: c :: d :: payload, _ =>
    refine ⟨be32 a b c d, ?_, be32Bytes_be32 a b c d⟩
    have hsize : (((t :: u :: v :: w :: a :: b :: c :: d :: payload).length : ℤ) - 8) =
        payload.length := by
      simp only [List.length_cons]
      omega
    simp only [sendPingReply, hsize, List.drop_succ_cons, List.drop_zero]

theorem sendPingReply_short {host : Host} {pkt : IpPacket} (h : pkt.data.length < 8) :
    sendPingReply host pkt = .error .packetRead := by
  rw [sendPingReply]
  split
  · rename_i hdata
    rw [hdata] at h
    simp only [List.length_cons] at h
    omega
  · rfl

theorem receive_echo (host : Host) {pkt : IpPacket} (h : pkt.data.head? = some 128) :
    receive host pkt = sendPingReply host pkt := by
  obtain ⟨rest, hdata⟩ := List.head?_eq_some_iff.mp h
  rw [receive, hdata]
  exact if_pos rfl

/-- The faults that leave a block. -/
inductive IsOverrun : Fault → Prop
  | packetRead : IsOverrun .packetRead
  | bufferWrite : IsOverrun .bufferWrite
  | negativeSize : IsOverrun .negativeSize

theorem IsOverrun.ne {fault : Fault} (h : IsOverrun fault) :
    fault ≠ .assertion ∧ fault ≠ .bufferRead := by
  cases h <;> exact ⟨nofun, nofun⟩

theorem staysInside_iff_forall {host : Host} {pkt : IpPacket} :
    StaysInside host pkt ↔ ∀ fault, IsOverrun fault → receive host pkt ≠ .error fault := by
  constructor
  · intro h fault hfault
    cases hfault with
    | packetRead => exact h.packetRead
    | bufferWrite => exact h.bufferWrite
    | negativeSize => exact h.negativeSize
  · exact fun h => ⟨h _ .packetRead, h _ .bufferWrite, h _ .negativeSize⟩

theorem sendPingReply_inside_iff {host : Host} {pkt : IpPacket} :
    (∀ fault, IsOverrun fault → sendPingReply host pkt ≠ .error fault) ↔
      EchoFits host pkt.data.length := by
  rcases Nat.lt_or_ge pkt.data.length 8 with hshort | hlong
  · refine iff_of_false (fun h => h _ .packetRead (sendPingReply_short hshort)) fun h => ?_
    have := h.1
    omega
  · obtain ⟨idSeqNr, heq, -⟩ := sendPingReply_eq host hlong
    have hsize := length_header_add hlong
    rw [heq, EchoFits]
    cases host.idev with
    | none => exact iff_of_true nofun ⟨hlong, nofun⟩
    | some mtuSize =>
      constructor
      · refine fun h => ⟨hlong, ?_⟩
        rintro _ ⟨⟩
        by_contra hcut
        exact h _ .bufferWrite (sendPacket_overflow (by omega) (by omega))
      · rintro ⟨-, h⟩ fault hfault
        rcases h mtuSize rfl with hfits | hbig
        · exact sendPacket_ne_error (by omega) hfault.ne.1 hfault.ne.2
        · rw [sendPacket_tooBig (by omega)]
          nofun

theorem neighborAdvertisement_inside {host : Host} (hmtu : ∀ mtuSize ∈ host.idev, 1280 ≤ mtuSize)
    (peerMac peerIp : AnyAddr) {fault : Fault} (hfault : IsOverrun fault) :
    sendPacketNeighborAdvertisement host peerMac peerIp ≠ .error fault := by
  rw [sendPacketNeighborAdvertisement]
  apply bind_ne_error (getBytes_ne_error hfault.ne.1)
  intro mac hmac
  apply bind_ne_error (getBytes_ne_error hfault.ne.1)
  intro ip hip
  have hsize : (ip ++ ([0x02, 0x01] ++ mac)).length = 24 := by
    rw [List.length_append, List.length_append, (getBytes_ok hip).2, (getBytes_ok hmac).2]
    rfl
  have hlength : (24 : ℤ) = (ip ++ ([0x02, 0x01] ++ mac)).length := by rw [hsize]; rfl
  cases hidev : host.idev with
  | none => nofun
  | some mtuSize =>
    have hmin := hmtu mtuSize hidev
    rw [hlength]
    apply sendPacket_ne_error _ hfault.ne.1 hfault.ne.2
    rw [hsize, maxPacketSize]
    omega

theorem effect_inside_iff {o : Outcome} :
    (∀ fault, IsOverrun fault → o.effect ≠ .error fault) ↔ o ≠ .outOfBounds := by
  cases o with
  | outOfBounds => exact iff_of_false (fun h => h _ .packetRead rfl) fun h => h rfl
  | _ => exact iff_of_true nofun nofun

/-- What the branches of `operator()` need. -/
theorem receive_inside_iff {host : Host} {pkt : IpPacket}
    (hmtu : ∀ mtuSize ∈ host.idev, 1280 ≤ mtuSize) {type : Byte} {rest : List Byte}
    (hdata : pkt.data = type :: rest) :
    (∀ fault, IsOverrun fault → receive host pkt ≠ .error fault) ↔
      (type = 128 → EchoFits host pkt.data.length) ∧
        (type = 134 → pkt.data.length ≤ 18 ∨ OptionsInside pkt.data) ∧
        (rest = [] → host.logsWarnings = true → type ∈ [128, 133, 134, 135]) := by
  have hreceive : receive host pkt = if type = 128 then sendPingReply host pkt
      else if type = 133 then .ok .nothing
      else if type = 134 then (processRouterAdvertisement host.toNode pkt.data).effect
      else if type = 135 then sendPacketNeighborAdvertisement host pkt.srcMacAddr pkt.srcAddr
      else if host.logsWarnings ∧ rest = [] then .error .packetRead
      else .ok .nothing := by
    rw [receive, hdata]
  rw [hreceive]
  by_cases h128 : type = 128
  · subst h128
    rw [if_pos rfl, sendPingReply_inside_iff]
    simp
  rw [if_neg h128]
  by_cases h133 : type = 133
  · subst h133
    rw [if_pos rfl]
    exact iff_of_true nofun ⟨nofun, nofun, by simp⟩
  rw [if_neg h133]
  by_cases h134 : type = 134
  · subst h134
    rw [if_pos rfl, effect_inside_iff, processRouterAdvertisement_inside_iff host.toNode]
    simp
  rw [if_neg h134]
  by_cases h135 : type = 135
  · subst h135
    rw [if_pos rfl]
    exact iff_of_true (fun fault => neighborAdvertisement_inside hmtu _ _) ⟨nofun, nofun, by simp⟩
  rw [if_neg h135]
  by_cases hlogged : host.logsWarnings = true ∧ rest = []
  · rw [if_pos hlogged]
    refine iff_of_false (fun h => h _ .packetRead rfl) fun h => ?_
    have hknown := h.2.2 hlogged.2 hlogged.1
    simp only [List.mem_cons, List.not_mem_nil, or_false] at hknown
    rcases hknown with hknown | hknown | hknown | hknown
    · exact h128 hknown
    · exact h133 hknown
    · exact h134 hknown
    · exact h135 hknown
  · rw [if_neg hlogged]
    exact iff_of_true nofun ⟨fun h => absurd h h128, fun h => absurd h h134,
      fun hrest hlogs => absurd ⟨hlogs, hrest⟩ hlogged⟩

/-- A packet is handled inside its blocks exactly if it is one that is not empty and, as an echo
request, has a size that `EchoFits`, as an advertisement has complete options. Of an unknown type it
has a second byte, if that is logged. -/
theorem staysInside_iff (host : Host) (pkt : IpPacket)
    (hmtu : ∀ mtuSize ∈ host.idev, 1280 ≤ mtuSize) :
    StaysInside host pkt ↔ Wellsized host pkt.data := by
  rw [staysInside_iff_forall]
  cases hdata : pkt.data with
  | nil =>
    refine iff_of_false (fun h => h _ .packetRead ?_) fun h => h.type rfl
    rw [receive, hdata]
  | cons type rest =>
    rw [receive_inside_iff hmtu hdata, ← hdata]
    have hhead : ∀ t : Byte, pkt.data.head? = some t ↔ type = t := by
      intro t
      rw [hdata, List.head?_cons, Option.some.injEq]
    have hlen : pkt.data.length = 1 ↔ rest = [] := by
      rw [hdata, List.length_cons, ← List.length_eq_zero_iff]
      omega
    have hknown : pkt.data.head? ∈ [some 128, some 133, some 134, some (135 : Byte)] ↔
        type ∈ [128, 133, 134, 135] := by
      simp only [List.mem_cons, List.not_mem_nil, or_false, hhead]
    constructor
    · rintro ⟨hecho, hadvertisement, hlogged⟩
      exact ⟨by rw [hdata]; nofun, fun h => hecho ((hhead 128).mp h),
        fun h => hadvertisement ((hhead 134).mp h),
        fun h hlogs => hknown.mpr (hlogged (hlen.mp h) hlogs)⟩
    · intro h
      exact ⟨fun htype => h.echo ((hhead 128).mpr htype),
        fun htype => h.advertisement ((hhead 134).mpr htype),
        fun hrest hlogs => hknown.mp (h.logged (hlen.mpr hrest) hlogs)⟩

/-- An echo request that is as large as a packet may be is more than the buffer holds. -/
theorem receive_overflow (host : Host) {pkt : IpPacket} {mtuSize : ℤ}
    (hidev : host.idev = some mtuSize)
    (htype : pkt.data.head? = some 128) (h : pkt.data.length ≤ maxPacketSize mtuSize)
    (h' : maxPacketSize mtuSize < pkt.data.length + 8) (h8 : 8 ≤ pkt.data.length) :
    receive host pkt = .error .bufferWrite := by
  obtain ⟨idSeqNr, heq, -⟩ := sendPingReply_eq host h8
  have hsize := length_header_add h8
  rw [receive_echo host htype, heq, hidev]
  exact sendPacket_overflow (by omega) (by omega)

/-- Rounded up, a message may be larger than the buffer that all of it was written into: the rest is
read behind it. -/
theorem sendPacket_bufferRead {mtuSize : ℤ} {dstMac dstIp srcIp : AnyAddr} {type code : Byte}
    {reserved : BitVec 32} {payload : List Byte} (h : payload.length + 16 ≤ maxPacketSize mtuSize)
    (h' : maxPacketSize mtuSize < roundUp (8 + payload.length) + 8) :
    sendPacket (some mtuSize) dstMac dstIp srcIp type code reserved payload payload.length =
      .error .bufferRead := by
  rw [sendPacket_fits h, if_pos (by omega)]

namespace Sample

def host : Host where
  toNode := node
  myMac := ⟨.mac, [2, 0, 0, 0, 0x56, 1], rfl⟩
  idev := some 1500
  logsWarnings := true

def incoming (data : List Byte) : IpPacket where
  srcMacAddr := ⟨.mac, [2, 0, 0, 0, 6, 9], rfl⟩
  srcAddr := ⟨.ipv6, [0x20, 1, 0x0d, 0xb8, 0, 0, 0, 0, 0, 0, 0, 0, 0, 0, 0, 9], rfl⟩
  dstAddr := host.myIp
  data := data
  header := []

theorem mtu_host : ∀ mtuSize ∈ host.idev, 1280 ≤ mtuSize := by
  rintro mtuSize ⟨⟩
  decide

end Sample

theorem staysInside_iff_ping :
    StaysInside Sample.host (Sample.incoming [128, 0, 0, 0, 0, 1, 0, 1]) ↔
      Wellsized Sample.host [128, 0, 0, 0, 0, 1, 0, 1] :=
  staysInside_iff Sample.host (Sample.incoming [128, 0, 0, 0, 0, 1, 0, 1]) Sample.mtu_host

/-- An empty message, an echo request without its header, one that is 8 bytes too large for the
buffer, and an advertisement with an option of one byte. -/
theorem not_staysInside :
    receive Sample.host (Sample.incoming []) = .error .packetRead ∧
      receive Sample.host (Sample.incoming [128, 0, 0, 0]) = .error .packetRead ∧
      receive Sample.host (Sample.incoming (128 :: List.replicate 1445 0)) =
        .error .bufferWrite ∧
      receive Sample.host (Sample.incoming (134 :: List.replicate 15 0 ++ [1, 2, 1])) =
        .error .packetRead ∧
      ¬StaysInside Sample.host (Sample.incoming []) := by
  have hempty : receive Sample.host (Sample.incoming []) = .error .packetRead := rfl
  refine ⟨hempty, rfl, ?_, rfl, fun h => h.packetRead hempty⟩
  have hlen : (Sample.incoming (128 :: List.replicate 1445 0)).data.length = 1446 := by
    rw [Sample.incoming, List.length_cons, List.length_replicate]
  refine receive_overflow Sample.host rfl rfl ?_ ?_ ?_
  all_goals
    rw [hlen]
    decide

end MyIp.Icmp6
