import MyIp.Icmp4.Unreachable
import MyIp.Ipv4.Path
import MyIp.Udp.Input

/-! # A datagram from one host to another

`udp::transmit_packet` on one host, any hosts in between, `udp::operator()` on the last one: the
handler of the port is called with the payload, the addresses and the ports that were sent
(`datagram_reaches_handler`). If there is no handler, the error that comes back, again by way of any
hosts, quotes the header and the ports of the datagram (`port_unreachable_returns`). -/

namespace MyIp.Udp
set_option autoImplicit false

open Bytes Net Ipv4

variable {κ : Type}

theorem transmitPacket_eq {dstIp srcIp : AnyAddr} {dstPort srcPort : ℤ} {payload : List Byte}
    {call : IpTransmit}
    (h : transmitPacket true dstIp dstPort srcIp srcPort payload = some call) :
    ∃ checksum, call =
      ⟨none, dstIp, srcIp, 0x11, datagram srcPort dstPort payload checksum, none⟩ := by
  rw [transmitPacket] at h
  split at h
  · cases h
  · exact ⟨_, (Option.some.inj h).symm⟩

section Delivery
variable {dstIp srcIp : AnyAddr} {dstPort srcPort : ℤ} {payload frame : List Byte}
  {call : IpTransmit} {sender receiver : Station} {stations : List Station}

/-- What comes to `udp::operator()` of the destination. -/
theorem datagram_reaches_udp
    (h : transmitPacket true dstIp dstPort srcIp srcPort payload = some call)
    (short : 42 + payload.length ≤ 65536) (sent : transit sender stations call = some frame)
    (mine : receiver.node.myip = dstIp) (known : receiver.node.protMap 0x11 = true) :
    ∃ mac header checksum, receiver.deliver frame =
        some (0x11, ⟨mac, srcIp, dstIp, datagram srcPort dstPort payload checksum, header⟩) ∧
      outPacket call = header ++ datagram srcPort dstPort payload checksum ∧
      header.length = 20 := by
  obtain ⟨checksum, rfl⟩ := transmitPacket_eq h
  have hshort : 34 + (datagram srcPort dstPort payload checksum).length ≤ 65536 := by
    rw [datagram_length]
    omega
  obtain ⟨fits, hcarries⟩ := transit_carries hshort sent
  obtain ⟨mac, hdeliver⟩ := deliver_carries fits hcarries mine known
  exact ⟨mac, _, checksum, hdeliver, rfl, outHeader_length fits.ip _⟩

/-- The handler of the port is called with what was sent; ports are numbers of 16 bits. -/
theorem datagram_reaches_handler {icmp : Bool} {callbacks : Callbacks κ} {cb : κ}
    (h : transmitPacket true dstIp dstPort srcIp srcPort payload = some call)
    (short : 42 + payload.length ≤ 65536) (sent : transit sender stations call = some frame)
    (mine : receiver.node.myip = dstIp) (known : receiver.node.protMap 0x11 = true)
    (listens : callbacks (dstPort % 65536) = some cb) :
    ∃ pkt mac header, receiver.deliver frame = some (0x11, pkt) ∧
      receive icmp callbacks pkt = some (.callback cb srcIp (srcPort % 65536) dstIp
        (dstPort % 65536) ⟨mac, srcIp, dstIp, payload, header⟩) := by
  obtain ⟨mac, header, checksum, hdeliver, -⟩ := datagram_reaches_udp h short sent mine known
  refine ⟨_, mac, header, hdeliver, ?_⟩
  rw [receive_datagram _ _ _ _ icmp callbacks rfl, listens]

/-- What a host sends for a datagram without a handler. -/
def refusal (mtu : ℤ) (callbacks : Callbacks κ) (st : Station) (frame : List Byte) :
    Option IpTransmit :=
  match st.deliver frame with
  | some (protocol, pkt) =>
    if protocol = 0x11 then
      match receive true callbacks pkt with
      | some (.sendDestinationPortUnreachable dstIp srcIp p) =>
        match Icmp4.sendDestinationPortUnreachable (some mtu) dstIp srcIp p with
        | .ok message => message
        | .error _ => none
      | _ => none
    else none
  | none => none

/-- Without a handler an error message goes back. It quotes the header and the first eight bytes of
what was sent, and comes to the ICMP layer of the sender, whatever hosts are on that way. -/
theorem port_unreachable_returns {callbacks : Callbacks κ} {mtu : ℤ}
    (h : transmitPacket true dstIp dstPort srcIp srcPort payload = some call)
    (short : 42 + payload.length ≤ 65536) (sent : transit sender stations call = some frame)
    (mine : receiver.node.myip = dstIp) (known : receiver.node.protMap 0x11 = true)
    (free : callbacks (dstPort % 65536) = none) :
    ∃ message, refusal mtu callbacks receiver frame = some message ∧
      Icmp4.Quotes 3 3 ((outPacket call).take 28) message.payload ∧
      ∀ {back : Station} {returning : List Station} {frame' : List Byte},
        back.node.myip = srcIp → back.node.protMap 0x01 = true →
        transit receiver returning message = some frame' →
        ∃ mac header, back.deliver frame' =
          some (0x01, ⟨mac, dstIp, srcIp, message.payload, header⟩) := by
  obtain ⟨mac, header, checksum, hdeliver, hpacket, hlen⟩ :=
    datagram_reaches_udp h short sent mine known
  have hquoted : (outPacket call).take 28 =
      header ++ (datagram srcPort dstPort payload checksum).take 8 := by
    rw [hpacket, List.take_append, hlen, List.take_of_length_le (by omega)]
  obtain ⟨message, hmessage, hquotes, heven⟩ := @Icmp4.sendPacket_quotes mtu
    ⟨mac, srcIp, dstIp, datagram srcPort dstPort payload checksum, header⟩ srcIp dstIp 3 3
    (by rw [hlen]; decide)
  refine ⟨⟨none, srcIp, dstIp, 0x01, message, none⟩, ?_, ?_, ?_⟩
  · have hreceive := @receive_datagram κ srcPort dstPort payload checksum true callbacks
      ⟨mac, srcIp, dstIp, datagram srcPort dstPort payload checksum, header⟩ rfl
    rw [free] at hreceive
    simp only [refusal, hdeliver, hreceive, if_true, Icmp4.sendDestinationPortUnreachable, hmessage]
  · rw [hquoted]
    exact hquotes
  · intro back returning frame' own takes hback
    have hshort : message.length ≤ 37 := by
      have := hquotes.length
      rw [List.length_append, List.length_take, hlen] at this
      omega
    obtain ⟨fits, hcarries⟩ := transit_carries (by simp only; omega) hback
    obtain ⟨mac', hreturned⟩ := deliver_carries fits hcarries own takes
    exact ⟨mac', _, hreturned⟩

end Delivery

namespace Sample

/-- Three bytes for port 53 of the receiver. -/
def request : IpTransmit :=
  ⟨none, .ipv4 10 0 1 3, .ipv4 10 0 0 9, 0x11, datagram 4711 53 [1, 2, 3] 0xd42e, none⟩

def noCallbacks : Callbacks Unit := fun _ => none

/-- The error message for it. -/
def unreachable : IpTransmit :=
  ⟨none, .ipv4 10 0 0 9, .ipv4 10 0 1 3, 0x01, [3, 3, 16, 95, 0, 0, 5, 200] ++
    (outPacket request).take 28, none⟩

end Sample

/-- By way of two hosts. -/
theorem datagram_reaches_handler_routed :
    transmitPacket true (.ipv4 10 0 1 3) 53 (.ipv4 10 0 0 9) 4711 [1, 2, 3] = some Sample.request ∧
      ∃ pkt mac header,
        Ipv4.Sample.receiver.deliver (Ipv4.Sample.frame 4 Sample.request) = some (0x11, pkt) ∧
        receive false (addHandler 53 () fun _ => none) pkt =
          some (.callback () (.ipv4 10 0 0 9) 4711 (.ipv4 10 0 1 3) 53
            ⟨mac, .ipv4 10 0 0 9, .ipv4 10 0 1 3, [1, 2, 3], header⟩) := by
  have hsent : transmitPacket true (.ipv4 10 0 1 3) 53 (.ipv4 10 0 0 9) 4711 [1, 2, 3] =
      some Sample.request := by decide +kernel
  have hcarried : transit Ipv4.Sample.sender Ipv4.Sample.between Sample.request =
      some (Ipv4.Sample.frame 4 Sample.request) := by decide +kernel
  exact ⟨hsent, datagram_reaches_handler hsent (by decide) hcarried rfl (by decide) rfl⟩

/-- By way of two hosts, and back the other way. -/
theorem port_unreachable_returns_routed :
    ∃ message frame, refusal 1480 Sample.noCallbacks Ipv4.Sample.receiver
        (Ipv4.Sample.frame 4 Sample.request) = some message ∧
      Icmp4.Quotes 3 3 ((outPacket Sample.request).take 28) message.payload ∧
      transit Ipv4.Sample.receiver Ipv4.Sample.between.reverse message = some frame ∧
      ∃ mac header, Ipv4.Sample.sender.deliver frame =
        some (0x01, ⟨mac, .ipv4 10 0 1 3, .ipv4 10 0 0 9, message.payload, header⟩) := by
  have hsent : transmitPacket true (.ipv4 10 0 1 3) 53 (.ipv4 10 0 0 9) 4711 [1, 2, 3] =
      some Sample.request := by decide +kernel
  have hcarried : transit Ipv4.Sample.sender Ipv4.Sample.between Sample.request =
      some (Ipv4.Sample.frame 4 Sample.request) := by decide +kernel
  have hmine : Ipv4.Sample.receiver.node.myip = .ipv4 10 0 1 3 := rfl
  have hfree : Sample.noCallbacks (53 % 65536) = none := rfl
  obtain ⟨message, hrefusal, hquotes, hreturn⟩ :=
    port_unreachable_returns hsent (by decide) hcarried hmine (by decide) hfree
  have hmessage : refusal 1480 Sample.noCallbacks Ipv4.Sample.receiver
      (Ipv4.Sample.frame 4 Sample.request) = some Sample.unreachable := by decide +kernel
  obtain rfl := Option.some.inj (hrefusal.symm.trans hmessage)
  have hback : transit Ipv4.Sample.receiver Ipv4.Sample.between.reverse Sample.unreachable =
      some (Ipv4.Sample.frame 3 Sample.unreachable) := by decide +kernel
  exact ⟨_, _, hmessage, hquotes, hback, hreturn rfl (by decide) hback⟩

end MyIp.Udp
