import MyIp.Phys.Kiss
import MyIp.Phys.Bpq

/-! # From one KISS device to another

`phys_kiss::transmit_packet` makes an AX.25 frame of a packet and `transmit_ax25` writes it to the
line, as `send_beacon` does with its text. The other end reads the line one byte at a time, and
`process_kiss_packet` takes the frames apart. As long as a frame fits into the buffer of the reader,
what was sent comes to the network layers in the order in which it was sent, with the two callsigns,
and the router learns behind which device the senders are (`line_reaches_layers`). -/

namespace MyIp.Phys.KissLink
set_option autoImplicit false

open Bytes Framing Ax25 Kiss Bpq

/-- What a device sends: a packet, with the arguments of `transmit_packet`, or its beacon. -/
inductive Sending
  | packet (dstMac srcMac : AnyAddr) (etherType : BitVec 16) (payload : List Byte)
  | beacon (callsign : AnyAddr) (text : List Byte)

/-- `a.set_to("IDENT", 0, true, false)` -/
def ident : Ax25Address := .ofCallsign [0x49, 0x44, 0x45, 0x4e, 0x54] 0 true false

/-- The packet of `send_beacon`. -/
def beaconPacket (callsign : AnyAddr) (text : List Byte) : Ax25Packet where
  fromAddr := .ofAnyAddr callsign
  toAddr := ident
  control := 0x03
  pid := some 0xf0
  data := .ofBytes text

/-- What is written to the line. -/
def transmit : Sending → Except Fault (List Byte)
  | .packet dstMac srcMac etherType payload => do
    match ← kissTransmitPacket dstMac srcMac etherType payload with
    | some frame => return transmitAx25 frame
    | none => return []
  | .beacon callsign text => do
    let frame ← writePacket (beaconPacket callsign text)
    return transmitAx25 frame

/-- What is on the line after one sending after the other. -/
def line : List Sending → Except Fault (List Byte)
  | [] => .ok []
  | s :: sendings => do
    let bytes ← transmit s
    let rest ← line sendings
    return bytes ++ rest

/-- `process_kiss_packet` for one frame after the other. -/
def processAll (env : Env) (addCallsign : Option AnyAddr) : List (List Byte) →
    Except Fault (List Effect)
  | [] => .ok []
  | frame :: frames => do
    let (_, effects) ← processKissPacket env frame addCallsign
    let rest ← processAll env addCallsign frames
    return effects ++ rest

/-- `handle_kiss` for all that is read from the line. -/
def handleLine (env : Env) (addCallsign : Option AnyAddr) (bytes : List Byte) :
    Except Fault (List Effect) :=
  processAll env addCallsign (feed handleKiss .start bytes).2

/-! ## One frame -/

/-- An ether type that goes over AX.25 under the pid given. The version in an IP packet says which
of the two it is. -/
inductive Goes : BitVec 16 → Byte → List Byte → Prop
  | ipv4 {b : Byte} (rest : List Byte) (version : b >>> 4 = 4) : Goes 0x0800 0xcc (b :: rest)
  | ipv6 {b : Byte} (rest : List Byte) (version : b >>> 4 = 6) : Goes 0x86dd 0xcc (b :: rest)
  | arp (payload : List Byte) : Goes 0x0806 0xcd payload

/-- What the other end can make of a sending. A frame has 16 bytes besides its payload, and the
reader has room for 255 behind the command byte. -/
inductive Fits : Sending → Prop
  | packet {dst src : Ax25Address} {etherType : BitVec 16} {pid : Byte} {payload : List Byte}
      (goes : Goes etherType pid payload) (target : dst.Encodable) (source : src.Encodable)
      (last : src.endMark = true) (short : payload.length ≤ 239) :
      Fits (.packet dst.getAnyAddr src.getAnyAddr etherType payload)
  | beacon {callsign : Ax25Address} {text : List Byte} (source : callsign.Encodable)
      (last : callsign.endMark = true) (short : text.length ≤ 239) :
      Fits (.beacon callsign.getAnyAddr text)

/-- What comes of a sending at the other end, where `interface` is the device. -/
def arrival (env : Env) (interface : ℕ) : Sending → List Effect
  | .packet dstMac srcMac etherType payload =>
    .addAx25Route srcMac interface :: match env.protMap etherType with
      | some layer => [.queueIncomingPacket layer ⟨srcMac, dstMac, payload⟩]
      | none => []
  | .beacon callsign _ => [.addAx25Route callsign interface]

/-- An unnumbered information frame without repeaters. -/
def unnumbered (src dst : Ax25Address) (pid : Byte) (payload : List Byte) : Ax25Packet where
  fromAddr := .ofAnyAddr src.getAnyAddr
  toAddr := .ofAnyAddr dst.getAnyAddr
  control := 0x03
  pid := some pid
  data := .ofBytes payload

def frameOf (src dst : Ax25Address) (pid : Byte) (payload : List Byte) : List Byte :=
  (unnumbered src dst pid payload).header ++ payload

section Frame
variable {src dst : Ax25Address} {pid : Byte} {payload : List Byte}

theorem writePacket_unnumbered :
    writePacket (unnumbered src dst pid payload) = .ok (frameOf src dst pid payload) := by
  obtain ⟨p', hgenerated⟩ :=
    @Ax25Packet.generatePacket_unread (unnumbered src dst pid payload) _ rfl
  exact writePacket_eq hgenerated

theorem frameOf_length : (frameOf src dst pid payload).length = 16 + payload.length := by
  have hcontrol : Ax25Packet.Received.controlSize 0x03 = 2 := by decide
  have hheader : (unnumbered src dst pid payload).header.length = 16 :=
    (Ax25Packet.header_length _).trans (congrArg (14 + ·) hcontrol)
  rw [frameOf, List.length_append, hheader]

/-- An address comes back as the one that was sent. -/
theorem asRead_getAnyAddr {a : Ax25Address} (h : a.Encodable) :
    (Ax25Packet.asRead (.ofAnyAddr a.getAnyAddr)).getAnyAddr = a.getAnyAddr := by
  rw [Ax25Address.ofAnyAddr_getAnyAddr h]
  rfl

theorem ident_encodable : ident.Encodable := ⟨by decide, by decide, by decide⟩

/-- What `process_kiss_packet` does with such a frame. -/
theorem processKissPacket_frameOf (hsrc : src.Encodable) (hlast : src.endMark = true)
    (hdst : dst.Encodable) {env : Env} {interface : ℕ} (device : env.sourcePhys = some interface)
    (addCallsign : Option AnyAddr) :
    ∃ p, processKissPacket env (frameOf src dst pid payload) addCallsign =
        (processValid env p addCallsign).map
          (fun r => (r.1, .addAx25Route src.getAnyAddr interface :: r.2)) ∧
      p.fromAddr.getAnyAddr = src.getAnyAddr ∧ p.toAddr.getAnyAddr = dst.getAnyAddr ∧
      p.type = .ui ∧ p.pid = some pid ∧ p.data = .ofBytes payload := by
  have hfrom := Ax25Address.ofAnyAddr_getAnyAddr hsrc
  have hread : Ax25Packet.ofBytes (frameOf src dst pid payload) =
      some ((unnumbered src dst pid payload).readBack payload) := by
    apply Ax25Packet.ofBytes_header
    · exact (Ax25Address.ofAnyAddr_valid dst).2.1
    · exact (Ax25Address.ofAnyAddr_valid src).2.1
    · exact fun a ha => absurd ha List.not_mem_nil
    · exact Nat.zero_le 2
    · intro _
      exact (congrArg Ax25Address.endMark hfrom).trans hlast
  have hfromBack : ((unnumbered src dst pid payload).readBack payload).fromAddr.getAnyAddr =
      src.getAnyAddr := asRead_getAnyAddr hsrc
  refine ⟨(unnumbered src dst pid payload).readBack payload, ?_, hfromBack, ?_, ?_, ?_, rfl⟩
  · have hvalid : ((unnumbered src dst pid payload).readBack payload).valid = true := rfl
    have hlearn : learn env ((unnumbered src dst pid payload).readBack payload) =
        [.addAx25Route src.getAnyAddr interface] := by
      rw [learn, device]
      exact congrArg (fun a => [Effect.addAx25Route a interface]) hfromBack
    rw [processKissPacket, kissPacket, readPacket_eq hread]
    simp only [bind, Except.bind, hvalid, if_true, hlearn]
    cases processValid env ((unnumbered src dst pid payload).readBack payload) addCallsign <;> rfl
  · exact asRead_getAnyAddr hdst
  · have htype : frameType (unnumbered src dst pid payload).control = .ui := by
      rw [show (unnumbered src dst pid payload).control = 0x03 from rfl]
      decide
    exact htype
  · have hcontrol : hasPid 0x03 = true := by decide
    exact if_pos hcontrol

theorem kissTransmitPacket_goes {etherType : BitVec 16} (goes : Goes etherType pid payload) :
    kissTransmitPacket dst.getAnyAddr src.getAnyAddr etherType payload =
      .ok (some (frameOf src dst pid payload)) := by
  have hwritten : ∀ pid payload, writePacket
      (.build src.getAnyAddr dst.getAnyAddr 0x03 pid payload) = .ok (frameOf src dst pid payload) :=
    fun _ _ => writePacket_unnumbered
  have hfamilies : ¬(src.getAnyAddr.af ≠ .ax25 ∨ dst.getAnyAddr.af ≠ .ax25) := by
    rintro (h | h) <;> exact h rfl
  rw [kissTransmitPacket, if_neg hfamilies]
  cases goes with
  | ipv4 rest version =>
    rw [hwritten]
    rfl
  | ipv6 rest version =>
    rw [hwritten]
    rfl
  | arp =>
    rw [hwritten, hwritten]
    rfl

/-- A packet comes to the network layer of its ether type. -/
theorem processValid_goes {etherType : BitVec 16} (goes : Goes etherType pid payload) {env : Env}
    {p : Ax25Packet} (type : p.type = .ui) (hpid : p.pid = some pid)
    (data : p.data = .ofBytes payload) (addCallsign : Option AnyAddr) :
    ∃ rc, processValid env p addCallsign = .ok (rc, match env.protMap etherType with
      | some layer => [.queueIncomingPacket layer
          ⟨p.fromAddr.getAnyAddr, p.toAddr.getAnyAddr, payload⟩]
      | none => []) := by
  have hleft : p.data.copy.left = payload := by
    rw [data]
    exact BufferIn.ofBytes_left payload
  rw [processValid, if_pos (.inr type), hpid]
  cases goes with
  | ipv4 rest version =>
    simp only [hleft, version, if_true, queueFor]
    cases env.protMap 0x0800 <;> exact ⟨_, rfl⟩
  | ipv6 rest version =>
    simp only [hleft, version, if_true, queueFor]
    cases env.protMap 0x86dd <;> exact ⟨_, rfl⟩
  | arp =>
    simp only [queueFor, hleft]
    cases env.protMap 0x0806 <;> exact ⟨_, rfl⟩

end Frame

/-! ## All of them -/

/-- What is written is one KISS frame, short enough for the reader, and the other end makes of it
what it should. -/
theorem transmit_fits {env : Env} {interface : ℕ} (device : env.sourcePhys = some interface)
    (addCallsign : Option AnyAddr) {s : Sending} (fits : Fits s) :
    ∃ frame, transmit s = .ok (transmitAx25 frame) ∧ frame.length ≤ 255 ∧
      ∃ rc, processKissPacket env frame addCallsign = .ok (rc, arrival env interface s) := by
  cases fits with
  | @packet dst src etherType pid payload goes target source last short =>
    obtain ⟨p, hprocess, hfrom, hto, htype, hpid, hdata⟩ :=
      processKissPacket_frameOf source last target device addCallsign
    obtain ⟨rc, hvalid⟩ := processValid_goes goes htype hpid hdata addCallsign
    refine ⟨frameOf src dst pid payload, ?_, by rw [frameOf_length]; omega, rc, ?_⟩
    · rw [transmit, kissTransmitPacket_goes goes]
      rfl
    · rw [hprocess, hvalid, hfrom, hto]
      rfl
  | @beacon callsign text source last short =>
    obtain ⟨p, hprocess, hfrom, hto, htype, hpid, hdata⟩ :=
      @processKissPacket_frameOf callsign ident 0xf0 text source last ident_encodable env interface
        device addCallsign
    refine ⟨frameOf callsign ident 0xf0 text, ?_, by rw [frameOf_length]; omega, ?_⟩
    · have hident : ident = .ofAnyAddr ident.getAnyAddr := by decide +kernel
      have hbeacon : beaconPacket callsign.getAnyAddr text = unnumbered callsign ident 0xf0 text :=
        congrArg (fun a => { beaconPacket callsign.getAnyAddr text with toAddr := a }) hident
      rw [transmit, hbeacon, writePacket_unnumbered]
      rfl
    · -- a text is shown to the operator and goes nowhere
      have hvalid : processValid env p addCallsign = .ok (true, []) := by
        rw [processValid, if_pos (.inr htype), hpid]
        rfl
      rw [hprocess, hvalid]
      exact ⟨true, rfl⟩

theorem processAll_eq {env : Env} {addCallsign : Option AnyAddr} {interface : ℕ}
    (device : env.sourcePhys = some interface) {sendings : List Sending}
    (fits : ∀ s ∈ sendings, Fits s) :
    ∃ frames : List (List Byte), (∀ f ∈ frames, f.length ≤ 255) ∧
      line sendings = .ok (frames.flatMap transmitAx25) ∧
      processAll env addCallsign frames = .ok (sendings.flatMap (arrival env interface)) := by
  induction sendings with
  | nil => exact ⟨[], by simp, rfl, rfl⟩
  | cons s sendings ih =>
    obtain ⟨frames, hshort, hline, hall⟩ := ih fun t ht => fits t (List.mem_cons_of_mem _ ht)
    obtain ⟨frame, hsent, hfits, rc, hprocess⟩ :=
      transmit_fits device addCallsign (fits s List.mem_cons_self)
    refine ⟨frame :: frames, ?_, ?_, ?_⟩
    · intro f hf
      obtain rfl | hf := List.mem_cons.mp hf
      · exact hfits
      · exact hshort f hf
    · rw [line, hsent, hline]
      rfl
    · rw [processAll, hprocess, hall]
      rfl

/-- Whatever was sent, one after the other, comes to the network layers at the other end, and to its
router, in that order. -/
theorem line_reaches_layers {env : Env} {interface : ℕ} (device : env.sourcePhys = some interface)
    (addCallsign : Option AnyAddr) {sendings : List Sending} (fits : ∀ s ∈ sendings, Fits s) :
    ∃ bytes, line sendings = .ok bytes ∧
      handleLine env addCallsign bytes = .ok (sendings.flatMap (arrival env interface)) := by
  obtain ⟨frames, hshort, hline, hall⟩ := @processAll_eq env addCallsign _ device _ fits
  have hread : feed handleKiss .start (frames.flatMap transmitAx25) =
      (.start, frames.flatMap fun f => [f]) :=
    feed_frames fun f hf => feed_transmitAx25 (hshort f hf)
  refine ⟨_, hline, ?_⟩
  rw [handleLine, hread, List.flatMap_singleton']
  exact hall

namespace Sample

def here : Ax25Address := .ofCallsign [0x50, 0x49, 0x31, 0x41] 7 true false

def there : Ax25Address := .ofCallsign [0x50, 0x49, 0x32, 0x42] 1 true false

def env : Env where
  protMap := fun etherType =>
    if etherType = 0x0800 then some 4 else if etherType = 0x0806 then some 2 else none
  sourcePhys := some 9
  routed := fun _ => true

/-- An IPv4 packet with bytes that have to be escaped, a beacon and an ARP packet. -/
def sendings : List Sending :=
  [.packet there.getAnyAddr here.getAnyAddr 0x0800 [0x45, FEND, FESC, 1],
    .beacon here.getAnyAddr [0x68, 0x69],
    .packet there.getAnyAddr here.getAnyAddr 0x0806 [0, 3, 0, 0xcc]]

end Sample

theorem line_reaches_layers_mixed :
    ∃ bytes, line Sample.sendings = .ok bytes ∧ handleLine Sample.env none bytes = .ok
      [.addAx25Route Sample.here.getAnyAddr 9,
        .queueIncomingPacket 4
          ⟨Sample.here.getAnyAddr, Sample.there.getAnyAddr, [0x45, FEND, FESC, 1]⟩,
        .addAx25Route Sample.here.getAnyAddr 9,
        .addAx25Route Sample.here.getAnyAddr 9,
        .queueIncomingPacket 2
          ⟨Sample.here.getAnyAddr, Sample.there.getAnyAddr, [0, 3, 0, 0xcc]⟩] := by
  have hhere : Sample.here.Encodable := ⟨by decide, by decide, by decide⟩
  have hthere : Sample.there.Encodable := ⟨by decide, by decide, by decide⟩
  have hfits : ∀ s ∈ Sample.sendings, Fits s := by
    intro s hs
    simp only [Sample.sendings, List.mem_cons, List.not_mem_nil, or_false] at hs
    obtain rfl | rfl | rfl := hs
    · exact .packet (.ipv4 _ (by decide)) hthere hhere rfl (by decide)
    · exact .beacon hhere rfl (by decide)
    · exact .packet (.arp _) hthere hhere rfl (by decide)
  exact line_reaches_layers rfl none hfits

end MyIp.Phys.KissLink
