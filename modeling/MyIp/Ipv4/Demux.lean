import MyIp.Ipv4.Forward

/-! # Lengths and local protocols

One sequence of checks in `ipv4::operator()` (`ipv4.cpp`) stands before local delivery and before
forwarding. The lengths of the frame, of the packet and of its header are compared with each other,
but the header is not required to have 20 bytes. The protocol is looked up before the destination
is, so that a packet for another host is dropped if its protocol is not used here. -/

namespace MyIp.Ipv4
set_option autoImplicit false

open Bytes Phys

/-! ## What is discarded -/

/-- The destination is another host, and the packet is not forwarded to it. -/
def NotForMe (node : Node) (p : List Byte) : Prop :=
  address p 16 ≠ node.myip ∧ ¬(node.forward = true ∧ field p 16 &&& 0xf0 ≠ 224)

/-- One of the checks fails. -/
inductive Refused (node : Node) (p : List Byte) : Prop
  | tooSmall (h : p.length < 20)
  | version (h : field p 0 >>> 4 ≠ 4)
  | ttlExceeded (h : ttl p ≤ 1)
  | size (h : p.length < ipSize p)
  | headerSize (h : ipSize p < headerSize p)
  | unknownProtocol (h : node.protMap (field p 9) = false)
  | notForMe (h : NotForMe node p)

/-- What becomes of a packet that passes all checks. -/
def accepted (node : Node) (pkt : Packet) : Outcome :=
  if address pkt.data 16 ≠ node.myip then
    .forwarded (Router.routePacket none 0x0800 (some (address pkt.data 16)) (some pkt.srcAddr)
      (some (address pkt.data 12)) (pkt.data.take (ipSize pkt.data)))
  else
    .delivered (field pkt.data 9) (pkt.data.take (headerSize pkt.data))
      ((pkt.data.take (ipSize pkt.data)).drop (headerSize pkt.data))

theorem receive_refused {node : Node} {pkt : Packet} (h : Refused node pkt.data) :
    ∃ reason, receive node pkt = .discarded reason := by
  simp only [receive]
  by_cases hsmall : pkt.data.length < 20
  · exact ⟨_, if_pos hsmall⟩
  by_cases hversion : field pkt.data 0 >>> 4 ≠ 4
  · exact ⟨_, by rw [if_neg hsmall, if_pos hversion]⟩
  by_cases httl : ttl pkt.data ≤ 1
  · exact ⟨_, by rw [if_neg hsmall, if_neg hversion, if_pos httl]⟩
  by_cases hsize : pkt.data.length < ipSize pkt.data
  · exact ⟨_, by rw [if_neg hsmall, if_neg hversion, if_neg httl, if_pos hsize]⟩
  rw [if_neg hsmall, if_neg hversion, if_neg httl, if_neg hsize]
  by_cases hheader : ipSize pkt.data < headerSize pkt.data
  · exact ⟨_, if_pos hheader⟩
  by_cases hprotocol : (!node.protMap (field pkt.data 9)) = true
  · exact ⟨_, by rw [if_neg hheader, if_pos hprotocol]⟩
  rw [if_neg hheader, if_neg hprotocol]
  cases h with
  | tooSmall h => exact absurd h hsmall
  | version h => exact absurd h hversion
  | ttlExceeded h => exact absurd h httl
  | size h => exact absurd h hsize
  | headerSize h => exact absurd h hheader
  | unknownProtocol h => exact absurd (by rw [h]; rfl) hprotocol
  | notForMe h => exact ⟨_, by rw [if_pos h.1, if_neg (by simpa using h.2)]⟩

theorem receive_accepted {node : Node} {pkt : Packet} (h : ¬Refused node pkt.data) :
    receive node pkt = accepted node pkt := by
  have hsmall : ¬pkt.data.length < 20 := fun hc => h (.tooSmall hc)
  have hversion : ¬field pkt.data 0 >>> 4 ≠ 4 := fun hc => h (.version hc)
  have httl : ¬ttl pkt.data ≤ 1 := fun hc => h (.ttlExceeded hc)
  have hsize : ¬pkt.data.length < ipSize pkt.data := fun hc => h (.size hc)
  have hheader : ¬ipSize pkt.data < headerSize pkt.data := fun hc => h (.headerSize hc)
  have hprotocol : ¬(!node.protMap (field pkt.data 9)) = true :=
    fun hc => h (.unknownProtocol (by simpa using hc))
  simp only [receive, accepted]
  rw [if_neg hsmall, if_neg hversion, if_neg httl, if_neg hsize, if_neg hheader, if_neg hprotocol]
  by_cases hdst : address pkt.data 16 ≠ node.myip
  · have hforward : node.forward = true ∧ field pkt.data 16 &&& 0xf0 ≠ 224 := by
      by_contra hc
      exact h (.notForMe ⟨hdst, hc⟩)
    rw [if_pos hdst, if_pos hdst, if_pos (by simpa using hforward)]
  · rw [if_neg hdst, if_neg hdst]

/-! ## The lengths of what is delivered -/

/-- `20 <= h <= t <= size` for the length `h` of the header and the length `t` of the packet. -/
def WithinFrame (p : List Byte) : Prop :=
  20 ≤ headerSize p ∧ headerSize p ≤ ipSize p ∧ ipSize p ≤ p.length

/-- What reaches a transport protocol is the header and the payload of a frame with such lengths,
and no other frame gets anywhere. -/
structure DeliversWithinFrame (node : Node) (pkt : Packet) : Prop where
  delivered : ∀ protocol header payload, receive node pkt = .delivered protocol header payload →
    WithinFrame pkt.data ∧ header = pkt.data.take (headerSize pkt.data) ∧
      payload = (pkt.data.take (ipSize pkt.data)).drop (headerSize pkt.data)
  dropped : ¬WithinFrame pkt.data → ∃ reason, receive node pkt = .discarded reason

theorem withinFrame_iff {node : Node} {p : List Byte} (h : ¬Refused node p) :
    WithinFrame p ↔ 20 ≤ headerSize p := by
  constructor
  · exact And.left
  · exact fun hheader => ⟨hheader, Nat.le_of_not_lt fun hc => h (.headerSize hc),
      Nat.le_of_not_lt fun hc => h (.size hc)⟩

/-- The lengths are as they should be exactly if the header has five words at least, or one of the
other checks refuses the frame. -/
theorem deliversWithinFrame_iff (node : Node) (pkt : Packet) :
    DeliversWithinFrame node pkt ↔ 20 ≤ headerSize pkt.data ∨ Refused node pkt.data := by
  by_cases hrefused : Refused node pkt.data
  · obtain ⟨reason, hreason⟩ := receive_refused hrefused
    refine iff_of_true ⟨fun protocol header payload h => ?_, fun _ => ⟨reason, hreason⟩⟩
      (.inr hrefused)
    rw [hreason] at h
    cases h
  · have hframe := withinFrame_iff hrefused
    have haccepted := receive_accepted hrefused
    constructor
    · intro h
      by_contra hc
      obtain ⟨hheader, -⟩ := not_or.mp hc
      obtain ⟨reason, hreason⟩ := h.dropped fun hwithin => hheader (hframe.mp hwithin)
      rw [haccepted, accepted] at hreason
      split at hreason
      · cases hreason
      · cases hreason
    · rintro (hheader | h)
      · refine ⟨fun protocol header payload h => ?_, fun h => absurd (hframe.mpr hheader) h⟩
        rw [haccepted, accepted] at h
        split at h
        · cases h
        · obtain ⟨-, rfl, rfl⟩ := Outcome.delivered.inj h
          exact ⟨hframe.mpr hheader, rfl, rfl⟩
      · exact absurd h hrefused

/-! ## Packets in transit -/

/-- The arguments of `route_packet`. -/
structure RouteCall where
  overrideDstMac : Option AnyAddr
  etherType : BitVec 16
  dstIp : AnyAddr
  srcMac : Option AnyAddr
  srcIp : AnyAddr
  payload : List Byte

/-- What comes of the call. -/
def RouteCall.queued (call : RouteCall) : Option Router.QueuedPacket :=
  Router.routePacket call.overrideDstMac call.etherType (some call.dstIp) call.srcMac
    (some call.srcIp) call.payload

/-- The call for a packet that is forwarded. -/
def forwardCall (pkt : Packet) : RouteCall :=
  ⟨none, 0x0800, address pkt.data 16, some pkt.srcAddr, address pkt.data 12,
    pkt.data.take (ipSize pkt.data)⟩

/-- A valid packet that a forwarding node is to pass on: its time to live is above 1, and it is
neither for this host nor multicast. -/
structure Transit (node : Node) (pkt : Packet) : Prop where
  forward : node.forward = true
  minimum : 20 ≤ pkt.data.length
  version : field pkt.data 0 >>> 4 = 4
  lengths : WithinFrame pkt.data
  ttl : 1 < ttl pkt.data
  dst_ne : address pkt.data 16 ≠ node.myip
  dst_unicast : field pkt.data 16 &&& 0xf0 ≠ 224

/-- The same node with other protocols. -/
def Node.withProtocols (node : Node) (protMap : Byte → Bool) : Node :=
  { node with protMap := protMap }

/-- With both protocol maps the packet is given to the router, once and with the same arguments. -/
def ForwardedAlike (node : Node) (protMap₁ protMap₂ : Byte → Bool) (pkt : Packet) : Prop :=
  receive (node.withProtocols protMap₁) pkt = .forwarded (forwardCall pkt).queued ∧
    receive (node.withProtocols protMap₂) pkt = .forwarded (forwardCall pkt).queued

/-- A packet in transit is forwarded exactly if its protocol is used by the node itself. -/
theorem receive_transit_iff {node : Node} {pkt : Packet} (h : Transit node pkt)
    (protMap : Byte → Bool) :
    receive (node.withProtocols protMap) pkt = .forwarded (forwardCall pkt).queued ↔
      protMap (field pkt.data 9) = true := by
  constructor
  · intro hforwarded
    by_contra hprotocol
    have hrefused : Refused (node.withProtocols protMap) pkt.data :=
      .unknownProtocol (Bool.eq_false_of_not_eq_true hprotocol)
    obtain ⟨reason, hreason⟩ := receive_refused hrefused
    rw [hforwarded] at hreason
    cases hreason
  · intro hprotocol
    have haccepted : ¬Refused (node.withProtocols protMap) pkt.data := by
      intro hrefused
      cases hrefused with
      | tooSmall hc => exact absurd h.minimum (by omega)
      | version hc => exact hc h.version
      | ttlExceeded hc => exact absurd h.ttl (by omega)
      | size hc => exact absurd h.lengths.2.2 (by omega)
      | headerSize hc => exact absurd h.lengths.2.1 (by omega)
      | unknownProtocol hc =>
        have hfalse : protMap (field pkt.data 9) = false := hc
        rw [hprotocol] at hfalse
        cases hfalse
      | notForMe hc => exact hc.2 ⟨h.forward, h.dst_unicast⟩
    rw [receive_accepted haccepted, accepted, if_pos]
    · rfl
    · exact h.dst_ne

/-- Whether a packet in transit is forwarded does depend on the protocols of the node: it is with
both protocol maps exactly if both have its protocol. -/
theorem forwardedAlike_iff (node : Node) (pkt : Packet) (protMap₁ protMap₂ : Byte → Bool)
    (h : Transit node pkt) :
    ForwardedAlike node protMap₁ protMap₂ pkt ↔
      protMap₁ (field pkt.data 9) = true ∧ protMap₂ (field pkt.data 9) = true := by
  rw [ForwardedAlike, receive_transit_iff h, receive_transit_iff h]

namespace Sample

/-- The packet above, with a protocol of its own choice. -/
def carrying (protocol : Byte) : Packet :=
  { packet with data := packet.data.set 9 protocol }

theorem transit (protocol : Byte) : Transit node (carrying protocol) where
  forward := rfl
  minimum := by simp [carrying, packet]
  version := by
    have hfield : field (carrying protocol).data 0 = 0x45 := rfl
    rw [hfield]
    decide
  lengths := by
    have hfield : field (carrying protocol).data 0 = 0x45 := rfl
    have hheader : headerSize (carrying protocol).data = 20 := by
      rw [headerSize, hfield]
      decide
    have hsize : ipSize (carrying protocol).data = 20 := by
      have hhigh : field (carrying protocol).data 2 = 0 := rfl
      have hlow : field (carrying protocol).data 3 = 20 := rfl
      rw [ipSize, hhigh, hlow]
      decide
    have hlength : (carrying protocol).data.length = 20 := rfl
    unfold WithinFrame
    omega
  ttl := by
    have httl : ttl (carrying protocol).data = 64 := rfl
    omega
  dst_ne := by
    have haddress : address (carrying protocol).data 16 = .ipv4 10 0 0 3 := rfl
    rw [haddress]
    decide
  dst_unicast := by
    have hfield : field (carrying protocol).data 16 = 10 := rfl
    rw [hfield]
    decide

/-- An ICMP packet for this host whose header is said to have one word. -/
def oneWord : Packet :=
  { packet with data := [0x41, 0, 0, 20, 0, 1, 0, 0, 64, 1, 0x66, 0xdd, 10, 0, 0, 9, 10, 0, 0, 1] }

end Sample

theorem forwardedAlike_iff_icmp :
    ForwardedAlike Sample.node (· == 1) (fun _ => true) (Sample.carrying 1) ↔
      (field (Sample.carrying 1).data 9 == 1) = true ∧ true = true :=
  forwardedAlike_iff Sample.node (Sample.carrying 1) (· == 1) (fun _ => true) (Sample.transit 1)

/-- A node without SCTP does not forward SCTP, a node with it does. -/
theorem not_forwardedAlike :
    Transit Sample.node (Sample.carrying 132) ∧
      receive (Sample.node.withProtocols (· == 132)) (Sample.carrying 132) =
        .forwarded (forwardCall (Sample.carrying 132)).queued ∧
      receive Sample.node (Sample.carrying 132) = .discarded .unknownProtocol ∧
      ¬ForwardedAlike Sample.node (· == 132) (· == 1) (Sample.carrying 132) := by
  have hdropped : receive Sample.node (Sample.carrying 132) = .discarded .unknownProtocol := rfl
  refine ⟨Sample.transit 132, rfl, hdropped, fun h => ?_⟩
  have hforwarded := h.2
  rw [show Sample.node.withProtocols (· == 1) = Sample.node from rfl, hdropped] at hforwarded
  cases hforwarded

/-- A header of 4 bytes is delivered. -/
theorem not_deliversWithinFrame :
    receive Sample.node Sample.oneWord =
        .delivered 1 (Sample.oneWord.data.take 4) (Sample.oneWord.data.drop 4) ∧
      ¬DeliversWithinFrame Sample.node Sample.oneWord := by
  have hdelivered : receive Sample.node Sample.oneWord =
      .delivered 1 (Sample.oneWord.data.take 4) (Sample.oneWord.data.drop 4) := rfl
  refine ⟨hdelivered, fun h => ?_⟩
  have hheader : 20 ≤ headerSize Sample.oneWord.data := (h.delivered _ _ _ hdelivered).1.1
  exact absurd hheader (by decide)

end MyIp.Ipv4
