import MyIp.Arp.Input
import MyIp.Foundations.Broadcast
import MyIp.Phys.Tap

/-! # Hosts that resolve each other

Any number of hosts on one Ethernet, each with a TAP device and an `arp` (`arp.cpp`): threads in
`get_mac` send requests, `arp::operator()` answers them and fills in what the threads wait for, and
IPv4 remembers who sent it a packet (`update_cache` in `ipv4.cpp`). The network loses, repeats,
delays and reorders frames. -/

namespace MyIp.Arp.Network
set_option autoImplicit false

open Bytes Phys Input EventMachine

/-- A host; its ARP layer has the number `layer` at its device `interface`. -/
structure Station where
  host : Host
  ethernet : host.myMac.af = .mac
  ip : host.myIp.af = .ipv4
  env : Bpq.Env
  layer : ℕ
  attached : env.protMap 0x0806 = some layer
  interface : ℕ

/-! ## Requests -/

def broadcast : AnyAddr := ⟨.mac, [0xff, 0xff, 0xff, 0xff, 0xff, 0xff], rfl⟩

/-- `arp::check_special_ip_addresses`; the multicast branch for AX.25 gives the callsign QST. -/
def checkSpecialIpAddresses (ip : AnyAddr) (family : AddrFamily) : Option AnyAddr :=
  let b := fun i => ip.addr.getD i 0
  if b 0 &&& 0xf0 = 224 ∧ family = .mac then
    some ⟨.mac, [0x01, 0x00, 0x5e, b 1, b 2, b 3], rfl⟩
  else if b 0 &&& 0xf0 = 224 ∧ family = .ax25 then
    some (Ax25.Ax25Address.ofCallsign [0x51, 0x53, 0x54] 0 false false).getAnyAddr
  else if b 0 = 255 ∧ b 1 = 255 ∧ b 2 = 255 ∧ b 3 = 255 then some broadcast
  else none

/-- `arp::send_request`: the arguments of `transmit_packet`, or nothing for an address that it does
not know how to resolve. -/
def sendRequest (host : Host) (ip : AnyAddr) (af : AddrFamily) : Except Fault (Option Transmit) :=
  let request := fun (htype : Byte) (ptype : BitVec 16) (hwSize : ℕ) (destMac : AnyAddr) =>
    if hwSize ≠ host.myMac.addr.length ∨ host.myIp.addr.length ≠ 4 then .error .sizeMismatch
    else .ok (some (Transmit.mk destMac host.myMac 0x0806 ([0, htype] ++ be16Bytes ptype ++
      [BitVec.ofNat 8 hwSize, 4, 0, 1] ++ host.myMac.addr ++ host.myIp.addr ++
        List.replicate hwSize 0 ++ ip.addr)))
  if ip.af ≠ .ipv4 then .ok none
  else if af = .mac then request 1 0x0800 6 broadcast
  else if af = .ax25 then
    request 3 0x00cc 7 (Ax25.Ax25Address.ofCallsign [0x51, 0x53, 0x54] 0 true false).getAnyAddr
  else .ok none

/-- What the TAP device writes for a call of `transmit_packet`. -/
def write (t : Transmit) : Option (List Byte) :=
  Tap.transmitPacket t.dstMac t.srcMac t.etherType t.payload

/-- The frame with a request for `ip`. -/
def requestFrame (st : Station) (ip : AnyAddr) : Option (List Byte) :=
  match sendRequest st.host ip .mac with
  | .ok (some t) => write t
  | _ => none

/-! ## One host -/

/-- What is on the network: frames of ARP, and packets of IPv4, of which only the two addresses of
the sender matter here. -/
inductive Message
  | frame (bytes : List Byte)
  | packet (srcMac srcIp : AnyAddr)
  deriving DecidableEq

/-- The resolver of a host, and the argument `ip` of each call of `get_mac`. -/
structure Local where
  resolver : MacResolver.State
  asked : ℕ → Option AnyAddr

inductive Event
  /-- A step of a thread in `get_mac`, or of the cleaner. -/
  | resolver (e : MacResolver.Event)
  /-- A frame comes to the device; the clock shows `us`. -/
  | frame (bytes : List Byte) (us : BitVec 64)
  | sendPacket
  /-- A packet comes that was not forwarded. -/
  | packet (srcMac srcIp : AnyAddr) (us : BitVec 64)

/-- Ethernet devices. -/
def resolver : MacResolver.Resolver := ⟨fun _ => .mac, checkSpecialIpAddresses⟩

/-- The steps that the resolver makes by itself; a request is taken by the device only if one could
be made. -/
def own (st : Station) : MacResolver.Event → Bool
  | .getMac _ _ ip sends => !sends || (requestFrame st ip).isSome
  | .reply _ _ _ => false
  | .cache (.updateCache _ _ _ _ _) => false
  | _ => true

/-- The address that a step asks for: the first time, or again after half a second. -/
def asks (s t : MacResolver.State) : MacResolver.Event → Option AnyAddr
  | .getMac c _ _ _ =>
    match t.calls c with
    | .sent ip _ => some ip
    | _ => none
  | .insert c _ _ =>
    match t.calls c with
    | .waiting ip _ _ true => some ip
    | _ => none
  | .wake c _ =>
    match s.calls c, t.calls c with
    | .waiting _ _ _ false, .waiting ip _ _ true => some ip
    | _, _ => none
  | _ => none

/-- The argument of a call that starts. -/
def recordAsked (asked : ℕ → Option AnyAddr) : MacResolver.Event → ℕ → Option AnyAddr
  | .getMac c _ ip _ => Function.update asked c (some ip)
  | _ => asked

/-- What an ARP packet leads to, put into effect. -/
def apply (st : Station) (s : Local) (o : Outcome) (us : BitVec 64) : Local × List Message :=
  let cache := match o.cached with
    | some (mac, ip) => s.resolver.cache.updateCache mac ip st.interface false us
    | none => s.resolver.cache
  let filled := match o.resolved with
    | some (ip, mac) => s.resolver.fillWork ip mac
    | none => s.resolver
  ({ s with resolver := { filled with cache := cache } },
    ((o.sent.bind write).map Message.frame).toList)

/-- A frame, from the device to `arp::operator()`; no result stands for what is not defined. -/
def receive (st : Station) (s : Local) (frame : List Byte) (us : BitVec 64) :
    Option (Local × List Message) :=
  match Tap.receive st.env frame with
  | .ok (_, [.queueIncomingPacket layer p]) =>
    if layer = st.layer then
      match input st.host s.resolver.work p with
      | .ok o => some (apply st s o us)
      | .error _ => none
    else some (s, [])
  | .ok _ => some (s, [])
  | .error _ => none

def step (st : Station) (s : Local) : Event → Option (Local × List Message)
  | .resolver e =>
    if own st e then
      (MacResolver.step resolver s.resolver e).map fun r =>
        (⟨r.1, recordAsked s.asked e⟩,
          (((asks s.resolver r.1 e).bind (requestFrame st)).map Message.frame).toList)
    else none
  | .frame bytes us => receive st s bytes us
  | .sendPacket => some (s, [.packet st.host.myMac st.host.myIp])
  | .packet srcMac srcIp us =>
    some ({ s with resolver := { s.resolver with
      cache := s.resolver.cache.updateCache srcMac srcIp st.interface false us } }, [])

def party (st : Station) : Exchange.Party Local Event (List Message) Message where
  step := step st
  receives
    | .frame bytes _ => some (.frame bytes)
    | .packet srcMac srcIp _ => some (.packet srcMac srcIp)
    | _ => none
  sends := id

/-! ## What the packets say -/

/-- A hardware address of Ethernet and an IPv4 address. -/
structure Binding where
  mac : AnyAddr
  ip : AnyAddr
  ethernet : mac.af = .mac
  ipv4 : ip.af = .ipv4

def Station.binding (st : Station) : Binding := ⟨st.host.myMac, st.host.myIp, st.ethernet, st.ip⟩

/-- An ARP packet on Ethernet: a request or a reply of `sender` to `target`. -/
def message (op : Byte) (sender target : Binding) : List Byte :=
  [0, 1, 8, 0, 6, 4, 0, op] ++
    (sender.mac.addr ++ (sender.ip.addr ++ (target.mac.addr ++ target.ip.addr)))

theorem Binding.mac_length (b : Binding) : b.mac.addr.length = 6 := by
  rw [b.mac.addr_size, b.ethernet, AddrFamily.size]

theorem Binding.ip_length (b : Binding) : b.ip.addr.length = 4 := by
  rw [b.ip.addr_size, b.ipv4, AddrFamily.size]

theorem addrAt_append {p a c : List Byte} {off : ℕ} {af : AddrFamily} {x : AnyAddr} (h : x.af = af)
    (hp : p = a ++ (x.addr ++ c)) (ha : a.length = off) : addrAt af p off = .ok x := by
  obtain ⟨af', addr, hsize⟩ := x
  obtain rfl : af' = af := h
  have hlen : addr.length = af'.size := hsize
  have hinside : off + af'.size ≤ p.length := by
    rw [hp, List.length_append, List.length_append, hlen]
    omega
  have hbytes : (p.drop off).take af'.size = addr := by
    rw [hp, List.drop_left' ha, List.take_left' hlen]
  rw [addrAt, dif_pos hinside]
  simp only [hbytes]

section Message
variable {op : Byte} {sender target : Binding} {p tail : List Byte}

/-- The pieces of the packet. -/
def parts (op : Byte) (sender target : Binding) (tail : List Byte) : Parts where
  front := [0, 1, 8, 0, 6, 4, 0]
  low := op
  sha := sender.mac.addr
  shaEnd := []
  spa := sender.ip.addr
  tha := target.mac.addr
  thaEnd := []
  tpa := target.ip.addr
  tail := tail

theorem message_eq : message op sender target ++ tail = (parts op sender target tail).bytes := by
  simp only [message, parts, Parts.bytes, List.append_assoc, List.cons_append, List.nil_append]

theorem message_length : (message op sender target).length = 28 := by
  simp [message, sender.mac_length, sender.ip_length, target.mac_length, target.ip_length]

theorem message_parts (hp : p = message op sender target ++ tail) :
    (parts op sender target tail).Of p := by
  refine ⟨hp.trans message_eq, rfl, sender.mac_length, ?_, sender.ip_length, target.mac_length, ?_,
    target.ip_length⟩
  · rw [hp]
    rfl
  · rw [hp]
    rfl

theorem etherType_message (hp : p = message op sender target ++ tail) : etherType p = 0x0800 := by
  have hbytes : be16 8 0 = 0x0800 := by decide
  rw [hp]
  exact hbytes

theorem refused_message (hp : p = message op sender target ++ tail) : refused p = false := by
  have hlen : p.length = 28 + tail.length := by rw [hp, List.length_append, message_length]
  have hend : endOffset p = 28 := by rw [hp]; rfl
  have hpSize : pSize p = 4 := by rw [hp]; rfl
  have hlong : ¬28 + tail.length < 6 := by omega
  simp [refused, hlen, hend, hpSize, etherType_message hp, hlong]

/-- What is copied from the packet. -/
theorem addresses_message (hp : p = message op sender target ++ tail) :
    addrAt .mac p shaOffset = .ok sender.mac ∧ addrAt .ipv4 p (spaOffset p) = .ok sender.ip ∧
      addrAt .mac p (thaOffset p) = .ok target.mac ∧
      addrAt .ipv4 p (tpaOffset p) = .ok target.ip := by
  have hparts : p = [0, 1, 8, 0, 6, 4, 0, op] ++ (sender.mac.addr ++ (sender.ip.addr ++
      (target.mac.addr ++ (target.ip.addr ++ tail)))) := by
    rw [hp, message]
    simp only [List.append_assoc]
  have hspa : spaOffset p = 14 := by rw [hp]; rfl
  have htha : thaOffset p = 18 := by rw [hp]; rfl
  have htpa : tpaOffset p = 24 := by rw [hp]; rfl
  rw [hspa, htha, htpa]
  refine ⟨addrAt_append sender.ethernet hparts rfl, ?_, ?_, ?_⟩
  · rw [← List.append_assoc] at hparts
    exact addrAt_append sender.ipv4 hparts (by simp [sender.mac_length])
  · rw [← List.append_assoc, ← List.append_assoc] at hparts
    exact addrAt_append target.ethernet hparts (by simp [sender.mac_length, sender.ip_length])
  · rw [← List.append_assoc, ← List.append_assoc, ← List.append_assoc] at hparts
    exact addrAt_append target.ipv4 hparts
      (by simp [sender.mac_length, sender.ip_length, target.mac_length])

/-- The entry of the cache for a packet that the sender was not asked for. -/
def gratuitous (sender target : Binding) : Option (AnyAddr × AnyAddr) :=
  if target.mac.addr = List.replicate 6 0xff ∧ target.ip = sender.ip then
    some (sender.mac, sender.ip)
  else none

theorem input_request (st : Station) (work : AnyAddr → Option (Option AnyAddr)) {pkt : Packet}
    (hp : pkt.data = message 1 sender target ++ tail) :
    input st.host work pkt = .ok
      { cached := gratuitous sender target
        sent := if target.ip = st.host.myIp then
            some ⟨pkt.srcAddr, st.host.myMac, 0x0806, message 2 st.binding sender ++ tail⟩
          else none
        resolved := none } := by
  obtain ⟨hsha, hspa, htha, htpa⟩ := addresses_message hp
  have hrequest : request pkt.data = 1 := by
    have hbytes : be16 0 1 = 1 := by decide
    rw [hp]
    exact hbytes
  have hmac : macSize (etherType pkt.data) = some (hwSize pkt.data) := by
    have hsize : hwSize pkt.data = 6 := by rw [hp]; rfl
    rw [etherType_message hp, hsize]
    rfl
  have hreply : target.ip = st.host.myIp →
      reply st.host pkt.data = .ok (message 2 st.binding sender ++ tail) := by
    intro hme
    have hsize : st.host.myMac.addr.length = hwSize pkt.data := by
      rw [hp]
      exact st.binding.mac_length
    rw [reply_parts (message_parts hp) (by rw [hp]; rfl) hmac hsize, message, Parts.answer]
    simp only [parts, Station.binding, List.append_assoc, hme]
    rfl
  simp only [input, refused_message hp, Bool.false_eq_true, if_false, htha, hsha, htpa, hspa,
    ok_bind, hrequest, true_or, true_and, if_true, gratuitous]
  by_cases hme : target.ip = st.host.myIp
  · rw [if_pos hme, if_pos hme, hreply hme]
    rfl
  · rw [if_neg hme, if_neg hme]
    rfl

theorem input_reply (st : Station) (work : AnyAddr → Option (Option AnyAddr)) {pkt : Packet}
    (hp : pkt.data = message 2 sender target ++ tail) :
    input st.host work pkt = .ok
      { cached := gratuitous sender target
        sent := none
        resolved := if work sender.ip = none then none else some (sender.ip, sender.mac) } := by
  obtain ⟨hsha, hspa, htha, htpa⟩ := addresses_message hp
  have hrequest : request pkt.data = 2 := by
    have hbytes : be16 0 2 = 2 := by decide
    rw [hp]
    exact hbytes
  have hmac : workMac pkt.data = .ok (some sender.mac) := by
    rw [workMac, if_pos (etherType_message hp), hsha]
    rfl
  have htwo : (2 : BitVec 16) ≠ 1 := by decide
  simp only [input, refused_message hp, Bool.false_eq_true, if_false, htha, hsha, htpa, hspa,
    ok_bind, hrequest, or_true, true_and, if_true, htwo, onReply, hmac, gratuitous]
  cases work sender.ip <;> rfl

end Message

/-! ## Frames -/

/-- What is behind a packet: nothing, or what another device has added to it. -/
def Padding (tail : List Byte) : Prop := tail = [] ∨ tail = List.replicate 22 0

/-- A frame with such a packet. -/
def Carries (src : AnyAddr) (op : Byte) (sender target : Binding) (frame : List Byte) : Prop :=
  ∃ dst tail, Padding tail ∧
    Tap.transmitPacket dst src 0x0806 (message op sender target ++ tail) = some frame

section Frame
variable {st : Station} {s : Local} {src : AnyAddr} {op : Byte} {sender target : Binding}
  {frame : List Byte}

/-- The packet comes to the ARP layer with the padding of a device. -/
theorem receive_carries (h : Carries src op sender target frame) (us : BitVec 64) :
    ∃ dst, receive st s frame us =
      match input st.host s.resolver.work
          ⟨src, dst, message op sender target ++ List.replicate 22 0⟩ with
      | .ok o => some (apply st s o us)
      | .error _ => none := by
  obtain ⟨dst, tail, htail, h⟩ := h
  have hlen : (message op sender target ++ tail).length = 28 + tail.length := by
    rw [List.length_append, message_length]
  have hpadded : message op sender target ++ tail ++
      List.replicate (50 - (message op sender target ++ tail).length) 0 =
        message op sender target ++ List.replicate 22 0 := by
    rw [hlen, List.append_assoc]
    obtain rfl | rfl := htail <;> rfl
  have hfits : 14 + (message op sender target ++ tail).length ≤ 65536 := by
    rw [hlen]
    obtain rfl | rfl := htail <;> decide
  refine ⟨dst, ?_⟩
  rw [receive, Tap.receive_transmitPacket h hfits (by decide) st.attached, hpadded]
  exact if_pos rfl

theorem receive_request (h : Carries src 1 sender target frame) (us : BitVec 64) :
    receive st s frame us = some (apply st s
      { cached := gratuitous sender target
        sent := if target.ip = st.host.myIp then some ⟨src, st.host.myMac, 0x0806,
            message 2 st.binding sender ++ List.replicate 22 0⟩
          else none
        resolved := none } us) := by
  obtain ⟨dst, hreceive⟩ := @receive_carries st s _ _ _ _ _ h us
  rw [hreceive, input_request st _ rfl]

theorem receive_reply (h : Carries src 2 sender target frame) (us : BitVec 64) :
    receive st s frame us = some (apply st s
      { cached := gratuitous sender target
        sent := none
        resolved := if s.resolver.work sender.ip = none then none
          else some (sender.ip, sender.mac) } us) := by
  obtain ⟨dst, hreceive⟩ := @receive_carries st s _ _ _ _ _ h us
  rw [hreceive, input_reply st _ rfl]

end Frame

/-- Nobody's address; it is what a request asks for. -/
def unknown : AnyAddr := ⟨.mac, List.replicate 6 0, rfl⟩

/-- A request comes from this host. -/
theorem requestFrame_some {st : Station} {ip : AnyAddr} {frame : List Byte}
    (h : requestFrame st ip = some frame) :
    ∃ hip : ip.af = .ipv4,
      Carries st.host.myMac 1 st.binding ⟨unknown, ip, rfl, hip⟩ frame := by
  rw [requestFrame, sendRequest] at h
  by_cases hip : ip.af = .ipv4
  · have hmac := st.binding.mac_length
    have hmine := st.binding.ip_length
    refine ⟨hip, broadcast, [], .inl rfl, ?_⟩
    have hsizes : ¬(6 ≠ st.host.myMac.addr.length ∨ st.host.myIp.addr.length ≠ 4) := by
      rintro (hc | hc)
      · exact hc hmac.symm
      · exact hc hmine
    simp only [hip, ne_eq, not_true_eq_false, if_false, if_true, hsizes, write] at h
    have hsame : [0, 1] ++ be16Bytes 0x0800 ++ [6#8, 4, 0, 1] ++ st.host.myMac.addr ++
        st.host.myIp.addr ++ List.replicate 6 0 ++ ip.addr =
        message 1 st.binding ⟨unknown, ip, rfl, hip⟩ ++ [] := by
      simp only [message, List.append_assoc, List.append_nil]
      rfl
    rw [← hsame]
    exact h
  · simp only [ne_eq, hip, not_false_eq_true, if_true] at h
    cases h

/-! ## Safety -/

section Safety
variable {ι : Type} {stations : ι → Station}

/-- `mac` is the hardware address of a host with the address `ip`. -/
def Owns (stations : ι → Station) (ip mac : AnyAddr) : Prop :=
  ∃ i, (stations i).host.myIp = ip ∧ (stations i).host.myMac = mac

/-- What hosts put on the network: ARP packets with their own addresses as the sender's, and IPv4
packets with their own addresses. -/
inductive Honest (stations : ι → Station) : Message → Prop
  | frame (i : ι) {op : Byte} {target : Binding} {bytes : List Byte} (hop : op = 1 ∨ op = 2)
      (h : Carries (stations i).host.myMac op (stations i).binding target bytes) :
      Honest stations (.frame bytes)
  | packet (i : ι) : Honest stations (.packet (stations i).host.myMac (stations i).host.myIp)

/-- What a call may be told that asked for `ip`. -/
def Answer (stations : ι → Station) (ip mac : AnyAddr) : Prop :=
  checkSpecialIpAddresses ip .mac = some mac ∨ Owns stations ip mac

/-- A call in the phase given, with its argument. -/
def PhaseRight (stations : ι → Station) (asked : Option AnyAddr) : MacResolver.Phase → Prop
  | .idle => True
  | .sent ip _ => asked = some ip
  | .waiting ip _ _ _ => asked = some ip
  | .returned _ result => ∀ found ∈ result, ∃ ip, asked = some ip ∧ Answer stations ip found.2

/-- All that a host knows of hardware addresses, and has told, is right. -/
structure Right (stations : ι → Station) (s : Local) : Prop where
  cache : ∀ ip e, s.resolver.cache.cache ip = some e → Owns stations ip e.addr
  work : ∀ ip mac, s.resolver.work ip = some (some mac) → Owns stations ip mac
  calls : ∀ c, PhaseRight stations (s.asked c) (s.resolver.calls c)

theorem Owns.families {ip mac : AnyAddr} (h : Owns stations ip mac) :
    mac.af = .mac ∧ ip.af = .ipv4 := by
  obtain ⟨i, rfl, rfl⟩ := h
  exact ⟨(stations i).ethernet, (stations i).ip⟩

/-- An update with an address of its owner. -/
theorem updateCache_owns {cache : AddressCache}
    (h : ∀ ip e, cache.cache ip = some e → Owns stations ip e.addr) {mac ip : AnyAddr}
    (owns : Owns stations ip mac) (interface : ℕ) (staticEntry : Bool) (now : BitVec 64) :
    ∀ ip' e, (cache.updateCache mac ip interface staticEntry now).cache ip' = some e →
      Owns stations ip' e.addr := by
  intro ip' e he
  rw [AddressCache.updateCache_cache] at he
  split at he
  · next hthis =>
    obtain rfl := Option.some.inj he
    rw [hthis.2]
    exact owns
  · exact h ip' e he

theorem gratuitous_owns (i : ι) (target : Binding) {found : AnyAddr × AnyAddr}
    (h : gratuitous (stations i).binding target = some found) :
    Owns stations found.2 found.1 := by
  rw [gratuitous] at h
  split at h
  · obtain rfl := Option.some.inj h
    exact ⟨i, rfl, rfl⟩
  · cases h

theorem apply_right {st : Station} {s : Local} (h : Right stations s) {o : Outcome}
    (cached : ∀ found, o.cached = some found → Owns stations found.2 found.1)
    (resolved : ∀ found, o.resolved = some found → Owns stations found.1 found.2)
    (sent : ∀ t bytes, o.sent = some t → write t = some bytes → Honest stations (.frame bytes))
    (us : BitVec 64) :
    Right stations (apply st s o us).1 ∧ ∀ m ∈ (apply st s o us).2, Honest stations m := by
  refine ⟨⟨?_, ?_, ?_⟩, ?_⟩
  · cases hcached : o.cached with
    | none =>
      simp only [apply, hcached]
      exact h.cache
    | some found =>
      simp only [apply, hcached]
      exact updateCache_owns h.cache (cached found hcached) _ _ _
  · intro ip mac hmac
    cases hresolved : o.resolved with
    | none =>
      simp only [apply, hresolved] at hmac
      exact h.work ip mac hmac
    | some found =>
      simp only [apply, hresolved, MacResolver.fillWork_work] at hmac
      split at hmac
      · next hthis =>
        obtain rfl := Option.some.inj (Option.some.inj hmac)
        rw [hthis.2]
        exact resolved found hresolved
      · exact h.work ip mac hmac
  · intro c
    cases hresolved : o.resolved with
    | none =>
      simp only [apply, hresolved]
      exact h.calls c
    | some found =>
      simp only [apply, hresolved, MacResolver.fillWork_calls]
      exact h.calls c
  · intro m hm
    simp only [apply, Option.mem_toList, Option.map_eq_some_iff, Option.bind_eq_some_iff] at hm
    obtain ⟨bytes, ⟨t, ht, hwrite⟩, rfl⟩ := hm
    exact sent t bytes ht hwrite

/-- A frame that a host of this network has sent is defined for every host, whatever that does. -/
theorem receive_right (i : ι) {s : Local} (h : Right stations s) {bytes : List Byte}
    (honest : Honest stations (.frame bytes)) (us : BitVec 64) :
    ∃ r, receive (stations i) s bytes us = some r ∧ Right stations r.1 ∧
      ∀ m ∈ r.2, Honest stations m := by
  obtain ⟨j, hop, hcarries⟩ | _ := honest
  obtain rfl | rfl := hop
  · refine ⟨_, receive_request hcarries us, apply_right h ?_ ?_ ?_ us⟩
    · exact fun found hfound => gratuitous_owns j _ hfound
    · intro found hfound
      cases hfound
    · intro t reply ht hwrite
      simp only [Option.ite_none_right_eq_some, Option.some.injEq] at ht
      obtain ⟨-, rfl⟩ := ht
      exact .frame i (.inr rfl) ⟨_, _, .inr rfl, hwrite⟩
  · refine ⟨_, receive_reply hcarries us, apply_right h ?_ ?_ ?_ us⟩
    · exact fun found hfound => gratuitous_owns j _ hfound
    · intro found hfound
      simp only [Option.ite_none_left_eq_some, Option.some.injEq] at hfound
      obtain ⟨-, rfl⟩ := hfound
      exact ⟨j, rfl, rfl⟩
    · intro t reply ht
      cases ht

theorem Right.setCall {s : Local} (h : Right stations s) {c : ℕ} {phase : MacResolver.Phase}
    (hphase : PhaseRight stations (s.asked c) phase) :
    Right stations { s with resolver := s.resolver.setCall c phase } := by
  refine ⟨h.cache, h.work, ?_⟩
  intro d
  by_cases hd : d = c
  · subst hd
    simpa [MacResolver.State.setCall] using hphase
  · simpa [MacResolver.State.setCall, hd] using h.calls d

theorem Right.forget {s : Local} (h : Right stations s) (ip : AnyAddr) :
    Right stations { s with resolver :=
      { s.resolver with work := Function.update s.resolver.work ip none } } := by
  refine ⟨h.cache, ?_, h.calls⟩
  intro ip' mac hmac
  by_cases hip : ip' = ip
  · subst hip
    simp at hmac
  · simp only [Function.update_of_ne hip] at hmac
    exact h.work ip' mac hmac

/-- A turn of the loop in `get_mac` tells and remembers what the work list says. -/
theorem turn_right {s : Local} (h : Right stations s) {c : ℕ} {ip : AnyAddr}
    (asked : s.asked c = some ip) {interface : ℕ} {startTs : BitVec 64} {repeated : Bool}
    {clock : MacResolver.Clock} {t : MacResolver.State}
    (made : MacResolver.turn s.resolver c ip interface startTs repeated clock = some t) :
    Right stations { s with resolver := t } := by
  rw [MacResolver.turn] at made
  split at made
  · cases hwork : s.resolver.work ip with
    | none =>
      rw [hwork] at made
      obtain rfl := Option.some.inj made
      exact h.setCall (by simp [PhaseRight])
    | some entry =>
      rw [hwork] at made
      cases entry with
      | none =>
        obtain rfl := Option.some.inj made
        exact h.setCall asked
      | some mac =>
        have howns := h.work ip mac hwork
        obtain ⟨hmac, hip⟩ := howns.families
        have hupdate : Arp.step s.resolver.cache (.updateCache mac ip interface false clock.us) =
            some (s.resolver.cache.updateCache mac ip interface false clock.us, .done) :=
          if_pos ⟨.inl hmac, .inl hip⟩
        simp only [hupdate, Option.map_some, Option.some.injEq] at made
        obtain rfl := made
        have hcall : Right stations
            ⟨s.resolver.setCall c (.returned interface (some (interface, mac))), s.asked⟩ :=
          h.setCall (fun found hfound => ⟨ip, asked, by
            obtain rfl := Option.some.inj hfound
            exact .inr howns⟩)
        exact ⟨updateCache_owns h.cache howns _ _ _, (hcall.forget ip).work, hcall.calls⟩
  · obtain rfl := Option.some.inj made
    exact (h.setCall (by simp [PhaseRight])).forget ip

theorem insertWork_cache (s : MacResolver.State) (ip : AnyAddr) :
    (s.insertWork ip).cache = s.cache := by
  rw [MacResolver.State.insertWork]
  split_ifs <;> rfl

/-- The beginning of `get_mac` tells what is special or in the cache. -/
theorem getMac_right {s : Local} (h : Right stations s) {c : ℕ}
    (idle : s.resolver.calls c = .idle) (interface : ℕ) (ip : AnyAddr) (sends : Bool) :
    Right stations
      ⟨s.resolver.setCall c (MacResolver.getMac resolver s.resolver interface ip sends),
        Function.update s.asked c (some ip)⟩ := by
  have hstarted : Right stations ⟨s.resolver, Function.update s.asked c (some ip)⟩ := by
    refine ⟨h.cache, h.work, ?_⟩
    intro d
    by_cases hd : d = c
    · subst hd
      simp [idle, PhaseRight]
    · simp only [Function.update_of_ne hd]
      exact h.calls d
  apply hstarted.setCall
  simp only [MacResolver.getMac, Function.update_self]
  cases hspecial : resolver.checkSpecialIpAddresses ip (resolver.getPhysType interface) with
  | some mac =>
    intro found hfound
    obtain rfl := Option.some.inj hfound
    exact ⟨ip, rfl, .inl hspecial⟩
  | none =>
    cases hcache : s.resolver.cache.queryCache ip false with
    | some found =>
      intro found' hfound
      obtain rfl := Option.some.inj hfound
      obtain ⟨entry, hentry, -, haddr⟩ := queryCache_eq_some.mp hcache
      have howns := h.cache ip entry hentry
      rw [haddr] at howns
      exact ⟨ip, rfl, .inr howns⟩
    | none =>
      cases sends with
      | true => exact rfl
      | false => simp [PhaseRight]

/-- The steps of the resolver. -/
theorem resolver_right (i : ι) {s : Local} (h : Right stations s) {e : MacResolver.Event}
    (hown : own (stations i) e = true) {t : MacResolver.State} {u : Unit}
    (made : MacResolver.step resolver s.resolver e = some (t, u)) :
    Right stations ⟨t, recordAsked s.asked e⟩ := by
  cases e with
  | getMac c interface ip sends =>
    cases hphase : s.resolver.calls c with
    | idle =>
      simp only [MacResolver.step, hphase, Option.some.injEq, Prod.mk.injEq] at made
      obtain ⟨rfl, -⟩ := made
      exact getMac_right h hphase interface ip sends
    | _ => simp [MacResolver.step, hphase] at made
  | insert c startTs clock =>
    cases hphase : s.resolver.calls c with
    | sent ip interface =>
      simp only [MacResolver.step, hphase, Option.map_eq_some_iff, Prod.mk.injEq] at made
      obtain ⟨t', hturn, rfl, -⟩ := made
      have hasked : s.asked c = some ip := by
        have := h.calls c
        rwa [hphase] at this
      have hinserted : Right stations { s with resolver := s.resolver.insertWork ip } := by
        refine ⟨?_, ?_, ?_⟩
        · rw [insertWork_cache]
          exact h.cache
        · intro ip' mac hmac
          simp only [MacResolver.insertWork_work] at hmac
          split at hmac
          · cases hmac
          · exact h.work ip' mac hmac
        · intro d
          simp only [MacResolver.insertWork_calls]
          exact h.calls d
      exact turn_right hinserted hasked hturn
    | _ => simp [MacResolver.step, hphase] at made
  | wake c clock =>
    cases hphase : s.resolver.calls c with
    | waiting ip interface startTs repeated =>
      simp only [MacResolver.step, hphase, Option.map_eq_some_iff, Prod.mk.injEq] at made
      obtain ⟨t', hturn, rfl, -⟩ := made
      have hasked : s.asked c = some ip := by
        have := h.calls c
        rwa [hphase] at this
      exact turn_right h hasked hturn
    | _ => simp [MacResolver.step, hphase] at made
  | reply etherType sha spa => cases hown
  | cache e =>
    simp only [MacResolver.step, Option.map_eq_some_iff, Prod.mk.injEq] at made
    obtain ⟨updated, hcache, rfl, -⟩ := made
    obtain ⟨mac, ip, interface, staticEntry, now, rfl, -⟩ | ⟨now, -, hcleaned⟩ | ⟨-, hsame⟩ :=
      Arp.step_cases hcache
    · cases hown
    · refine ⟨?_, h.work, h.calls⟩
      intro ip entry hentry
      rw [hcleaned] at hentry
      obtain ⟨hentry, -⟩ := Option.filter_eq_some_iff.mp hentry
      exact h.cache ip entry hentry
    · rw [hsame]
      exact h
  | stop =>
    simp only [MacResolver.step, Option.some.injEq, Prod.mk.injEq] at made
    obtain ⟨rfl, -⟩ := made
    exact ⟨h.cache, h.work, h.calls⟩

theorem step_right (i : ι) {s t : Local} (h : Right stations s) {e : Event} {sent : List Message}
    (given : ∀ m, (party (stations i)).receives e = some m → Honest stations m)
    (made : step (stations i) s e = some (t, sent)) :
    Right stations t ∧ ∀ m ∈ sent, Honest stations m := by
  cases e with
  | resolver e =>
    simp only [step] at made
    split at made
    · next hown =>
      obtain ⟨⟨t', u⟩, hmade, hpair⟩ := Option.map_eq_some_iff.mp made
      obtain ⟨rfl, rfl⟩ := Prod.mk.inj hpair
      refine ⟨resolver_right i h hown hmade, ?_⟩
      intro m hm
      simp only [Option.mem_toList, Option.map_eq_some_iff, Option.bind_eq_some_iff] at hm
      obtain ⟨bytes, ⟨ip, -, hrequest⟩, rfl⟩ := hm
      obtain ⟨hip, hcarries⟩ := requestFrame_some hrequest
      exact .frame i (.inl rfl) hcarries
    · cases made
  | frame bytes us =>
    obtain ⟨r, hreceive, hright⟩ := receive_right i h (given _ rfl) us
    obtain rfl := Option.some.inj (hreceive.symm.trans made)
    exact hright
  | sendPacket =>
    obtain ⟨rfl, rfl⟩ := Prod.mk.inj (Option.some.inj made)
    refine ⟨h, ?_⟩
    intro m hm
    obtain rfl := List.mem_singleton.mp hm
    exact .packet i
  | packet srcMac srcIp us =>
    obtain ⟨rfl, rfl⟩ := Prod.mk.inj (Option.some.inj made)
    obtain _ | j := given _ rfl
    refine ⟨⟨updateCache_owns h.cache ⟨j, rfl, rfl⟩ _ _ _, h.work, h.calls⟩, ?_⟩
    intro m hm
    cases hm

/-- Whatever the network and the threads do: a host knows and tells hardware addresses of their
owners only, apart from the special ones, and what the others send never does it any harm. -/
theorem resolved_is_owner [DecidableEq ι] {s t : Broadcast.State ι Local Message}
    {tr : List (Move (Broadcast.State ι Local Message) (ι × Event) (List Message))}
    (start : ∀ i, Right stations (s.locals i)) (empty : s.sent = [])
    (run : Run (Broadcast.step fun i => party (stations i)) s tr t) (i : ι) :
    (∀ ip e, (t.locals i).resolver.cache.cache ip = some e → Owns stations ip e.addr) ∧
    (∀ c interface found, (t.locals i).resolver.calls c = .returned interface (some found) →
      ∃ ip, (t.locals i).asked c = some ip ∧ Answer stations ip found.2) ∧
    ∀ bytes us, .frame bytes ∈ t.sent → (receive (stations i) (t.locals i) bytes us).isSome := by
  obtain ⟨hlocals, hsent⟩ := Broadcast.keeps (fun _ => Right stations) (Honest stations)
    (fun i _ _ _ _ h given made => step_right i h given made) start (by simp [empty]) run
  refine ⟨(hlocals i).cache, ?_, ?_⟩
  · intro c interface found hreturned
    have hcall := (hlocals i).calls c
    rw [hreturned] at hcall
    exact hcall found rfl
  · intro bytes us hbytes
    obtain ⟨r, hreceive, -⟩ := receive_right i (hlocals i) (hsent _ hbytes) us
    rw [hreceive]
    rfl

end Safety

/-! ## Resolution -/

namespace Sample

def station (mac ip : AnyAddr) (ethernet : mac.af = .mac) (ipv4 : ip.af = .ipv4) : Station where
  host := ⟨mac, ip⟩
  ethernet := ethernet
  ip := ipv4
  env := ⟨fun etherType => if etherType = 0x0806 then some 1 else none, none, fun _ => true⟩
  layer := 1
  attached := rfl
  interface := 0

/-- Two hosts. -/
def stations (i : Bool) : Station :=
  if i then station ⟨.mac, [2, 0, 0, 0, 0x77, 1], rfl⟩ ⟨.ipv4, [10, 7, 0x77, 1], rfl⟩ rfl rfl
  else station ⟨.mac, [2, 0, 0, 0, 0x77, 2], rfl⟩ ⟨.ipv4, [10, 7, 0x77, 2], rfl⟩ rfl rfl

def idle : Local := ⟨.init, fun _ => none⟩

def question : List Byte :=
  (requestFrame (stations true) (stations false).host.myIp).getD []

def answer : List Byte :=
  (write ⟨(stations true).host.myMac, (stations false).host.myMac, 0x0806,
    message 2 (stations false).binding (stations true).binding ++ List.replicate 22 0⟩).getD []

def clockAt (ms : BitVec 64) : MacResolver.Clock := ⟨ms, ms, ms * 1000⟩

/-- One host asks for the other. The question comes twice, and a packet that the other sends is
there before the answer. -/
def events : List (Bool × Event) :=
  [(true, .resolver (.getMac 4 0 (stations false).host.myIp true)),
    (true, .resolver (.insert 4 5000 (clockAt 5000))),
    (false, .frame question 5001000),
    (false, .frame question 5002000),
    (false, .sendPacket),
    (true, .packet (stations false).host.myMac (stations false).host.myIp 5003000),
    (true, .frame answer 5004000),
    (true, .resolver (.wake 4 (clockAt 5010)))]

def network : Broadcast.State Bool Local Message → Bool × Event →
    Option (Broadcast.State Bool Local Message × List Message) :=
  Broadcast.step fun i => party (stations i)

def start : Broadcast.State Bool Local Message := ⟨fun _ => idle, []⟩

/-- A thread waits. -/
def waiting : Local where
  resolver := (MacResolver.State.init.insertWork (stations false).host.myIp).setCall 4
    (.waiting (stations false).host.myIp 0 5000 false)
  asked := fun _ => none

end Sample

theorem idle_right : Right Sample.stations Sample.idle := by
  refine ⟨?_, ?_, fun c => trivial⟩
  · intro ip e he
    cases he
  · intro ip mac hmac
    cases hmac

theorem resolved_is_owner_two :
    ∃ (tr : List (Move (Broadcast.State Bool Local Message) (Bool × Event) (List Message)))
      (t : Broadcast.State Bool Local Message), Run Sample.network Sample.start tr t ∧
      (t.locals true).resolver.calls 4 =
        .returned 0 (some (0, (Sample.stations false).host.myMac)) ∧
      (∃ ip, (t.locals true).asked 4 = some ip ∧
        Answer Sample.stations ip (Sample.stations false).host.myMac) ∧
      ∀ us, (receive (Sample.stations false) (t.locals false) Sample.answer us).isSome := by
  have run := exec_get_run Sample.network Sample.start Sample.events (by decide +kernel)
  have hreturned : (((exec Sample.network Sample.start Sample.events).get
      (by decide +kernel)).2.locals true).resolver.calls 4 =
        .returned 0 (some (0, (Sample.stations false).host.myMac)) := by decide +kernel
  have hsent : .frame Sample.answer ∈ ((exec Sample.network Sample.start Sample.events).get
      (by decide +kernel)).2.sent := by decide +kernel
  obtain ⟨-, htold, -⟩ := resolved_is_owner (fun _ => idle_right) rfl run true
  obtain ⟨-, -, hdefined⟩ := resolved_is_owner (fun _ => idle_right) rfl run false
  exact ⟨_, _, run, hreturned, htold 4 0 _ hreturned, fun us => hdefined _ us hsent⟩

end MyIp.Arp.Network
