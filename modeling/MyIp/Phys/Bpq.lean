import MyIp.Phys.Device
import MyIp.Ax25.Received

/-! # AX.25 frames over KISS and Ethernet

`process_kiss_packet` (`phys_kiss.cpp`) takes an AX.25 frame: it goes to a network layer, or it is
routed as is, with the own callsign as one more repeater. A routed frame is the payload of ether
type 0x08ff (BPQ), a zero byte and then the frame; `phys_kiss::transmit_packet` and, by way of
Ethernet, `process_ethernet_frame` (`phys_tap.cpp`) take it out again. The former makes its packet
from a vector that is gone when the packet is written. -/

namespace MyIp.Phys.Bpq
set_option autoImplicit false

open Bytes Ax25

/-- Where the code leaves its defined behaviour. -/
inductive Fault
  /-- A read behind the end of a frame, or of a `buffer_in`. -/
  | readPastEnd
  /-- A vector made of a range whose end is before its begin or outside of the block. -/
  | invalidRange
  /-- A read of bytes whose vector was given back. -/
  | freedRead
  | assertion
  deriving DecidableEq, Repr

/-- A vector of the bytes from `first` up to `last`. -/
def slice (block : List Byte) (first last : ℕ) : Except Fault (List Byte) :=
  if first ≤ last ∧ last ≤ block.length then .ok ((block.take last).drop first)
  else .error .invalidRange

def readPacket (input : List Byte) : Except Fault Ax25Packet :=
  match Ax25Packet.ofBytes input with
  | some p => .ok p
  | none => .error .readPastEnd

def writePacket (p : Ax25Packet) : Except Fault (List Byte) :=
  match p.generatePacket with
  | .ok (frame, _) => .ok frame
  | .error _ => .error .readPastEnd

/-- What the functions below do to the rest of the program. -/
inductive Effect
  | addAx25Route (callsign : AnyAddr) (interface : ℕ)
  | queueIncomingPacket (layer : ℕ) (p : Packet)
  | routePacket (dst : AnyAddr) (etherType : BitVec 16) (src : AnyAddr) (payload : List Byte)
  deriving DecidableEq

/-- `prot_map`, `source_phys` and the answers of `router::route_packet`. -/
structure Env where
  protMap : BitVec 16 → Option ℕ
  sourcePhys : Option ℕ
  routed : Effect → Bool

abbrev Outcome := Except Fault (Bool × List Effect)

/-- The branch of a frame for a network layer; `missing` is the result if there is none. -/
def queueFor (env : Env) (ap : Ax25Packet) (etherType : BitVec 16) (missing : Bool) :
    Bool × List Effect :=
  match env.protMap etherType with
  | some layer => (true, [.queueIncomingPacket layer
      ⟨ap.fromAddr.getAnyAddr, ap.toAddr.getAnyAddr, ap.data.copy.left⟩])
  | none => (missing, [])

/-- The payload for ether type 0x08ff. -/
def bpqPayload (frame : List Byte) : List Byte := 0 :: frame

/-- The branch `route_as_is`. -/
def routeAsIs (env : Env) (ap : Ax25Packet) (addCallsign : Option AnyAddr) : Outcome := do
  let ap := match addCallsign with
    | some callsign => ap.addRepeater callsign
    | none => ap
  let frame ← writePacket ap
  let routing := Effect.routePacket ap.toAddr.getAnyAddr 0x08ff ap.fromAddr.getAnyAddr
    (bpqPayload frame)
  return (env.routed routing, [routing])

/-- `process_kiss_packet` for a valid packet, after the route to its sender was added. -/
def processValid (env : Env) (ap : Ax25Packet) (addCallsign : Option AnyAddr) : Outcome :=
  if ap.type = .i ∨ ap.type = .ui then
    match ap.pid with
    | none => .ok (false, [])
    | some pid =>
      if pid = 0xcc then
        match ap.data.copy.left with
        | [] => .error .readPastEnd
        | b :: _ =>
          if b >>> 4 = 4 then .ok (queueFor env ap 0x0800 true)
          else if b >>> 4 = 6 then .ok (queueFor env ap 0x86dd true)
          else .ok (true, [])
      else if pid = 0xf0 then .ok (true, [])
      else if pid = 0xcd then .ok (queueFor env ap 0x0806 false)
      else routeAsIs env ap addCallsign
  else routeAsIs env ap addCallsign

def learn (env : Env) (ap : Ax25Packet) : List Effect :=
  match env.sourcePhys with
  | some interface => [.addAx25Route ap.fromAddr.getAnyAddr interface]
  | none => []

/-- The frame that `process_ethernet_frame` passes on for ether type 0x08ff. -/
def bpqFrame (buffer : List Byte) : Except Fault (List Byte) := slice buffer 16 (buffer.length - 16)

/-- `process_ethernet_frame`, with `process_kiss_packet` as `kiss`. -/
def ethernetFrame (env : Env) (kiss : List Byte → Outcome) (buffer : List Byte) : Outcome :=
  if h : 14 ≤ buffer.length then
    let etherType := be16 (buffer.getD 12 0) (buffer.getD 13 0)
    if etherType = 0x08ff then
      if 16 < buffer.length then do
        let frame ← bpqFrame buffer
        let (_, effects) ← kiss frame
        return (true, effects)
      else .ok (false, [])
    else
      match env.protMap etherType with
      | none => .ok (false, [])
      | some layer => .ok (true, [.queueIncomingPacket layer
          ⟨⟨.mac, (buffer.drop 6).take 6, by simp [AddrFamily.size]; omega⟩,
            ⟨.mac, buffer.take 6, by simp [AddrFamily.size]; omega⟩, buffer.drop 14⟩])
  else .error .readPastEnd

/-- `process_kiss_packet`; `depth` bounds how many frames can be one inside the other. -/
def kissPacket (env : Env) : ℕ → List Byte → Option AnyAddr → Outcome
  | 0, _, _ => .ok (false, [])
  | depth + 1, input, addCallsign => do
    let ap ← readPacket input
    if ap.valid then
      let (rc, effects) ← processValid env ap addCallsign
      return (rc, learn env ap ++ effects)
    else if 6 + 6 + 2 + 46 ≤ input.length then
      let (processed, effects) ← ethernetFrame env (fun f => kissPacket env depth f none) input
      return (!processed, effects)
    else return (false, [])

/-- A frame inside a frame is shorter, so the length is depth enough (`kissPacket_depth`). -/
def processKissPacket (env : Env) (input : List Byte) (addCallsign : Option AnyAddr) : Outcome :=
  kissPacket env (input.length + 1) input addCallsign

def processEthernetFrame (env : Env) (buffer : List Byte) : Outcome :=
  ethernetFrame env (fun f => processKissPacket env f none) buffer

/-- `phys_kiss::transmit_packet`: the AX.25 frame that `transmit_ax25` is given, or nothing for an
ether type that cannot be sent. -/
def kissTransmitPacket (dst src : AnyAddr) (etherType : BitVec 16) (payload : List Byte) :
    Except Fault (Option (List Byte)) := do
  if src.af ≠ .ax25 ∨ dst.af ≠ .ax25 then throw .assertion
  if etherType = 0x0800 ∨ etherType = 0x86dd then
    return some (← writePacket (.build src dst 0x03 0xcc payload))
  else if etherType = 0x0806 then
    return some (← writePacket (.build src dst 0x03 0xcd payload))
  else if etherType = 0x08ff then
    let a ← readPacket (← slice payload 1 (payload.length - 1))
    -- the vector ends with this statement, and `data` points into it
    if a.data.getSize ≠ 0 then throw .freedRead
    return some (← writePacket a)
  else return none

/-- `phys_tap::transmit_packet`: the Ethernet frame that is written. -/
def tapTransmitPacket (dst src : AnyAddr) (etherType : BitVec 16) (payload : List Byte) :
    Except Fault (List Byte) :=
  if dst.addr.length ≠ 6 ∨ src.addr.length ≠ 6 then .error .assertion
  else .ok (resize (dst.addr ++ src.addr ++ be16Bytes etherType ++ payload)
    (max (payload.length + 14) 64))

/-! ## Digipeating -/

/-- Frames of other types than I and UI, and those of a protocol that nothing here takes. -/
def RoutedAsIs (p : Ax25Packet) : Prop :=
  (p.type = .i ∨ p.type = .ui) → ∃ pid, p.pid = some pid ∧ pid ≠ 0xcc ∧ pid ≠ 0xf0 ∧ pid ≠ 0xcd

theorem processValid_routed (env : Env) {p : Ax25Packet} (h : RoutedAsIs p)
    (addCallsign : Option AnyAddr) :
    processValid env p addCallsign = routeAsIs env p addCallsign := by
  rw [processValid]
  split
  · rename_i htype
    obtain ⟨pid, hpid, hip, htext, harp⟩ := h htype
    rw [hpid]
    simp only [hip, htext, harp, if_false]
  · rfl

/-- The own callsign as a repeater, in the form that `any_addr` gives it. -/
def ownRepeater (callsign : Ax25Address) : Ax25Address := .ofAnyAddr callsign.getAnyAddr

/-- The own callsign is one of the repeaters already. -/
def Listed (p : Ax25Packet) (callsign : Ax25Address) : Prop :=
  ∃ repeater ∈ p.repeaters, repeater.same (ownRepeater callsign) = true

instance (p : Ax25Packet) (callsign : Ax25Address) : Decidable (Listed p callsign) :=
  inferInstanceAs (Decidable (∃ repeater ∈ p.repeaters, _))

/-- The frame that is sent on is the frame `p` with the own callsign as its last repeater. -/
def Preserved (p : Ax25Packet) (callsign : Ax25Address) (frame : List Byte) : Prop :=
  ∃ q, Ax25Packet.ofBytes frame = some q ∧ q.valid = true ∧
    q.toAddr.station = p.toAddr.station ∧ q.fromAddr.station = p.fromAddr.station ∧
    q.control = p.control ∧ q.pid = p.pid ∧ q.data.left = p.data.left ∧
    q.repeaters.map Ax25Address.station = p.repeaters.map Ax25Address.station ++
      (if Listed p callsign then [] else [(ownRepeater callsign).station])

theorem addRepeater_eq (p : Ax25Packet) (callsign : Ax25Address) :
    p.addRepeater callsign.getAnyAddr = { p with repeaters :=
      p.repeaters ++ (if Listed p callsign then [] else [ownRepeater callsign]) } := by
  have hany : (p.repeaters.any fun repeater => repeater.same (ownRepeater callsign)) = true ↔
      Listed p callsign := List.any_eq_true
  rw [Ax25Packet.addRepeater]
  by_cases h : Listed p callsign
  · rw [if_pos h, List.append_nil]
    exact if_pos (hany.mpr h)
  · rw [if_neg h]
    exact if_neg fun hl => h (hany.mp hl)

/-- What is sent on for a frame that is routed as is. -/
theorem processKissPacket_routed (env : Env) {input : List Byte} {p : Ax25Packet}
    (h : Ax25Packet.ofBytes input = some p) (hvalid : p.valid = true) (hrouted : RoutedAsIs p)
    (callsign : Ax25Address) {bytes : List Byte} (hdata : p.data = .ofBytes bytes) :
    ∃ rc, processKissPacket env input (some callsign.getAnyAddr) =
      .ok (rc, learn env p ++ [.routePacket p.toAddr.getAnyAddr 0x08ff p.fromAddr.getAnyAddr
        (bpqPayload ((p.addRepeater callsign.getAnyAddr).header ++ bytes))]) := by
  have hfields := addRepeater_eq p callsign
  obtain ⟨p', hgenerated⟩ := Ax25Packet.generatePacket_unread
    (show (p.addRepeater callsign.getAnyAddr).data = .ofBytes bytes by rw [hfields]; exact hdata)
  have hto : (p.addRepeater callsign.getAnyAddr).toAddr = p.toAddr := by rw [hfields]
  have hfrom : (p.addRepeater callsign.getAnyAddr).fromAddr = p.fromAddr := by rw [hfields]
  refine ⟨env.routed (.routePacket p.toAddr.getAnyAddr 0x08ff p.fromAddr.getAnyAddr
        (bpqPayload ((p.addRepeater callsign.getAnyAddr).header ++ bytes))), ?_⟩
  rw [processKissPacket, kissPacket, readPacket, h]
  simp only [bind, Except.bind, hvalid, if_true, processValid_routed env hrouted]
  simp [routeAsIs, writePacket, hgenerated, bind, Except.bind, pure, Except.pure, hto, hfrom]

theorem preserved_iff {input : List Byte} {p : Ax25Packet} (h : Ax25Packet.ofBytes input = some p)
    (hvalid : p.valid = true) (callsign : Ax25Address) {bytes : List Byte}
    (hdata : p.data = .ofBytes bytes) :
    Preserved p callsign ((p.addRepeater callsign.getAnyAddr).header ++ bytes) ↔
      p.repeaters.length < 2 ∨ Listed p callsign := by
  obtain ⟨offset, hreceived⟩ := Ax25Packet.received h hvalid
  obtain ⟨hlen, -, hsettled, hend⟩ := hreceived.repeaters_spec
  obtain ⟨-, -, hpid, -⟩ := hreceived.rest_spec
  constructor
  · rintro ⟨q, hq, hqvalid, -, -, -, -, -, hrepeaters⟩
    by_contra hno
    push Not at hno
    -- three repeaters were written, but no more than two are read
    obtain ⟨offset', hq'⟩ := Ax25Packet.received hq hqvalid
    have hqlen := hq'.repeaters_spec.1
    have hcount := congrArg List.length hrepeaters
    rw [if_neg hno.2, List.length_append, List.length_map, List.length_map,
      List.length_singleton] at hcount
    omega
  · intro hfits
    obtain ⟨hown, hownEncodable, -⟩ := Ax25Address.ofAnyAddr_valid callsign
    rw [addRepeater_eq]
    have hback := Ax25Packet.ofBytes_header (p := { p with repeaters :=
        p.repeaters ++ (if Listed p callsign then [] else [ownRepeater callsign]) })
      hreceived.to_settled.1 hreceived.from_settled.1 ?_ ?_ ?_ bytes
    · refine ⟨_, hback, rfl, rfl, Ax25Packet.station_copyFrom _, rfl, hpid.symm, ?_, ?_⟩
      · rw [hdata]
        rfl
      · rw [Ax25Packet.readBack, Ax25Packet.station_markEnd, List.map_append]
        split <;> rfl
    · intro a ha
      rcases List.mem_append.mp ha with ha | ha
      · exact (hsettled a ha).1
      · split at ha
        · exact absurd ha (List.not_mem_nil)
        · rw [List.mem_singleton.mp ha]
          exact hownEncodable
    · rw [List.length_append]
      split
      · simpa using hlen
      · rename_i hlisted
        have := hfits.resolve_right hlisted
        rw [List.length_singleton]
        omega
    · intro hnil
      exact hend (List.append_eq_nil_iff.mp hnil).1

/-- A frame that is routed as is keeps all it says exactly if it has passed fewer than two
repeaters, or this one already. -/
theorem digipeat_preserves_iff (env : Env) (input : List Byte) (p : Ax25Packet)
    (h : Ax25Packet.ofBytes input = some p) (hvalid : p.valid = true) (hrouted : RoutedAsIs p)
    (callsign : Ax25Address) :
    ∃ rc frame, processKissPacket env input (some callsign.getAnyAddr) =
      .ok (rc, learn env p ++ [.routePacket p.toAddr.getAnyAddr 0x08ff p.fromAddr.getAnyAddr
        (bpqPayload frame)]) ∧
      (Preserved p callsign frame ↔ p.repeaters.length < 2 ∨ Listed p callsign) := by
  obtain ⟨offset, hreceived⟩ := Ax25Packet.received h hvalid
  obtain ⟨-, hdata, -, -⟩ := hreceived.rest_spec
  obtain ⟨rc, hprocessed⟩ := processKissPacket_routed env h hvalid hrouted callsign hdata
  exact ⟨rc, _, hprocessed, preserved_iff h hvalid callsign hdata⟩

namespace Sample

def env : Env := ⟨fun _ => none, some 1, fun _ => true⟩

/-- An S frame from B to A by way of `count` repeaters, the last of which has the end mark. -/
def viaFrame (count : ℕ) : List Byte :=
  [0x82, 0x40, 0x40, 0x40, 0x40, 0x40, 0x60, 0x84, 0x40, 0x40, 0x40, 0x40, 0x40, 0x60] ++
    (List.range count).flatMap (fun i => [0x86, 0x40, 0x40, 0x40, 0x40, 0x40,
      0x60 ||| BitVec.ofNat 8 (2 * i) ||| (if i + 1 = count then 1 else 0)]) ++ [0x01, 0x55]

/-- The repeaters C-0, C-1 and so on. -/
def viaPacket (count : ℕ) : Ax25Packet where
  valid := true
  toAddr := .ofCallsign [0x41] 0 false false
  fromAddr := .ofCallsign [0x42] 0 false false
  repeaters := (List.range count).map fun i =>
    .ofCallsign [0x43] (BitVec.ofNat 32 i) (i + 1 == count) false
  control := 0x01
  type := .s
  data := .ofBytes [0x55]

def own : Ax25Address := .ofCallsign [0x44] 7 true false

end Sample

theorem digipeat_preserves_iff_via :
    ∃ rc frame, processKissPacket Sample.env (Sample.viaFrame 1) (some Sample.own.getAnyAddr) =
      .ok (rc, learn Sample.env (Sample.viaPacket 1) ++
        [.routePacket (Sample.viaPacket 1).toAddr.getAnyAddr 0x08ff
          (Sample.viaPacket 1).fromAddr.getAnyAddr (bpqPayload frame)]) ∧
      (Preserved (Sample.viaPacket 1) Sample.own frame ↔
        (Sample.viaPacket 1).repeaters.length < 2 ∨ Listed (Sample.viaPacket 1) Sample.own) :=
  digipeat_preserves_iff Sample.env (Sample.viaFrame 1) (Sample.viaPacket 1) (by decide +kernel) rfl
    (by rintro (h | h) <;> exact absurd h (by decide)) Sample.own

/-- After two repeaters: the third one is read as control byte and data. -/
theorem digipeat_two_repeaters :
    Ax25Packet.ofBytes (Sample.viaFrame 2) = some (Sample.viaPacket 2) ∧
    RoutedAsIs (Sample.viaPacket 2) ∧
    ∃ frame, processKissPacket Sample.env (Sample.viaFrame 2) (some Sample.own.getAnyAddr) =
      .ok (true, learn Sample.env (Sample.viaPacket 2) ++
        [.routePacket (Sample.viaPacket 2).toAddr.getAnyAddr 0x08ff
          (Sample.viaPacket 2).fromAddr.getAnyAddr (bpqPayload frame)]) ∧
      ¬Preserved (Sample.viaPacket 2) Sample.own frame := by
  refine ⟨by decide +kernel, by rintro (h | h) <;> exact absurd h (by decide),
    ((Sample.viaPacket 2).addRepeater Sample.own.getAnyAddr).header ++ [0x55], by decide +kernel, ?_⟩
  rintro ⟨q, hq, -, -, -, hcontrol, -⟩
  have hread : (Ax25Packet.ofBytes (((Sample.viaPacket 2).addRepeater
      Sample.own.getAnyAddr).header ++ [0x55])).map Ax25Packet.control = some 0x88 := by
    decide +kernel
  rw [hq, Option.map_some, hcontrol] at hread
  exact absurd hread (by decide)

/-! ## Frames inside frames -/

theorem slice_ok {block f : List Byte} {first last : ℕ} (h : slice block first last = .ok f) :
    f.length = last - first ∧ first ≤ last ∧ last ≤ block.length := by
  rw [slice] at h
  split at h
  · rename_i hrange
    obtain rfl := Except.ok.inj h
    refine ⟨?_, hrange⟩
    rw [List.length_drop, List.length_take]
    omega
  · exact absurd h (by simp)

theorem bpqFrame_shorter {buffer f : List Byte} (h : bpqFrame buffer = .ok f) :
    f.length < buffer.length := by
  obtain ⟨hlen, hle, hend⟩ := slice_ok h
  omega

theorem ethernetFrame_congr (env : Env) {kiss kiss' : List Byte → Outcome} {buffer : List Byte}
    (h : ∀ f, f.length < buffer.length → kiss f = kiss' f) :
    ethernetFrame env kiss buffer = ethernetFrame env kiss' buffer := by
  have hframe : ∀ f, bpqFrame buffer = .ok f → kiss f = kiss' f :=
    fun f hf => h f (bpqFrame_shorter hf)
  unfold ethernetFrame
  cases hf : bpqFrame buffer with
  | error fault => rfl
  | ok f =>
    simp only [bind, Except.bind, hframe f hf]

/-- Any depth above the length gives the same. -/
theorem kissPacket_depth (env : Env) {depth depth' : ℕ} {input : List Byte}
    (h : input.length < depth) (h' : input.length < depth') (addCallsign : Option AnyAddr) :
    kissPacket env depth input addCallsign = kissPacket env depth' input addCallsign := by
  induction depth generalizing depth' input addCallsign with
  | zero => omega
  | succ depth ih =>
    obtain ⟨depth', rfl⟩ : ∃ n, depth' = n + 1 := ⟨depth' - 1, by omega⟩
    have hsame := ethernetFrame_congr env
      fun f (hf : f.length < input.length) => ih (by omega) (show f.length < depth' by omega) none
    rw [kissPacket, kissPacket, hsame]

/-! ## The range of a BPQ frame -/

theorem bpqFrame_eq {buffer : List Byte} (h : 32 ≤ buffer.length) :
    bpqFrame buffer = .ok ((buffer.take (buffer.length - 16)).drop 16) := by
  rw [bpqFrame, slice, if_pos (by omega)]

theorem bpqFrame_invalid {buffer : List Byte} (h : buffer.length < 32) :
    bpqFrame buffer = .error .invalidRange := by
  rw [bpqFrame, slice, if_neg (by omega)]

theorem writePacket_ne_invalidRange (p : Ax25Packet) : writePacket p ≠ .error .invalidRange := by
  rw [writePacket]
  split <;> simp

theorem routeAsIs_ne_invalidRange (env : Env) (ap : Ax25Packet) (addCallsign : Option AnyAddr) :
    routeAsIs env ap addCallsign ≠ .error .invalidRange := by
  unfold routeAsIs
  extract_lets ap'
  have hwrite := writePacket_ne_invalidRange ap'
  cases h : writePacket ap' with
  | error fault =>
    rw [h] at hwrite
    simpa [bind, Except.bind] using hwrite
  | ok frame => simp [bind, Except.bind, pure, Except.pure]

theorem processValid_ne_invalidRange (env : Env) (ap : Ax25Packet) (addCallsign : Option AnyAddr) :
    processValid env ap addCallsign ≠ .error .invalidRange := by
  have hroute := routeAsIs_ne_invalidRange env ap addCallsign
  unfold processValid
  split
  · split
    · simp
    · split_ifs
      · split
        · simp
        · split_ifs <;> simp
      · simp
      · simp
      · exact hroute
  · exact hroute

theorem ethernetFrame_ne_invalidRange (env : Env) {kiss : List Byte → Outcome} {buffer : List Byte}
    (hlen : 32 ≤ buffer.length) (hkiss : ∀ f, kiss f ≠ .error .invalidRange) :
    ethernetFrame env kiss buffer ≠ .error .invalidRange := by
  unfold ethernetFrame
  rw [dif_pos (by omega), bpqFrame_eq hlen]
  extract_lets etherType
  split_ifs with htype hsize
  · have := hkiss ((buffer.take (buffer.length - 16)).drop 16)
    cases h : kiss ((buffer.take (buffer.length - 16)).drop 16) with
    | error fault =>
      rw [h] at this
      simpa [bind, Except.bind, h] using this
    | ok r => simp [bind, Except.bind, h, pure, Except.pure]
  · simp
  · split <;> simp

/-- Frames in KISS packets are of 60 bytes at least. -/
theorem kissPacket_ne_invalidRange (env : Env) (depth : ℕ) (input : List Byte)
    (addCallsign : Option AnyAddr) :
    kissPacket env depth input addCallsign ≠ .error .invalidRange := by
  induction depth generalizing input addCallsign with
  | zero => simp [kissPacket]
  | succ depth ih =>
    rw [kissPacket]
    cases hread : Ax25Packet.ofBytes input with
    | none => simp [readPacket, hread, bind, Except.bind]
    | some ap =>
      have hvalid := processValid_ne_invalidRange env ap addCallsign
      simp only [readPacket, hread, bind, Except.bind, pure, Except.pure]
      split_ifs with hv hlen
      · cases h : processValid env ap addCallsign with
        | error fault => simpa [h] using hvalid
        | ok r => simp
      · have hether := ethernetFrame_ne_invalidRange env (show 32 ≤ input.length by omega)
          fun f => ih f none
        cases h : ethernetFrame env (fun f => kissPacket env depth f none) input with
        | error fault => simpa [h] using hether
        | ok r => simp
      · simp

/-- A BPQ frame long enough to be taken apart. -/
def IsBpq (buffer : List Byte) : Prop :=
  16 < buffer.length ∧ be16 (buffer.getD 12 0) (buffer.getD 13 0) = 0x08ff

theorem processEthernetFrame_invalid_iff (env : Env) {buffer : List Byte} (h : IsBpq buffer) :
    processEthernetFrame env buffer = .error .invalidRange ↔ buffer.length < 32 := by
  obtain ⟨hsize, htype⟩ := h
  constructor
  · intro hfault
    by_contra hlong
    exact ethernetFrame_ne_invalidRange env (by omega)
      (fun f => kissPacket_ne_invalidRange env _ f none) hfault
  · intro hshort
    rw [processEthernetFrame, ethernetFrame, dif_pos (by omega), bpqFrame_invalid hshort]
    extract_lets etherType
    rw [if_pos htype, if_pos hsize]
    rfl

/-- Of a frame that was sent over Ethernet, 17 bytes are missing. -/
theorem bpqFrame_tap_ne {dst src : AnyAddr} {f buffer : List Byte}
    (hsent : tapTransmitPacket dst src 0x08ff (bpqPayload f) = .ok buffer)
    (hsize : 64 ≤ (bpqPayload f).length + 14) : bpqFrame buffer ≠ .ok f := by
  rw [tapTransmitPacket] at hsent
  split at hsent
  · exact absurd hsent (by simp)
  · have hlen : buffer.length = max ((bpqPayload f).length + 14) 64 := by
      rw [← Except.ok.inj hsent, resize_length]
    rw [bpqPayload, List.length_cons] at hlen hsize
    intro h
    obtain ⟨hf, -, -⟩ := slice_ok h
    omega

/-! ## The way over KISS -/

/-- A frame as the parser understands it, written again. -/
def normalForm (f : List Byte) : Except Fault (List Byte) := do
  let p ← readPacket f
  writePacket p

theorem readPacket_eq {f : List Byte} {p : Ax25Packet} (h : Ax25Packet.ofBytes f = some p) :
    readPacket f = .ok p := by
  rw [readPacket, h]

theorem writePacket_eq {p p' : Ax25Packet} {frame : List Byte}
    (h : p.generatePacket = .ok (frame, p')) : writePacket p = .ok frame := by
  rw [writePacket, h]

theorem normalForm_length {f : List Byte} {p : Ax25Packet} (h : Ax25Packet.ofBytes f = some p)
    (hvalid : p.valid = true) : ∃ frame, normalForm f = .ok frame ∧ frame.length = f.length := by
  obtain ⟨offset, hreceived⟩ := Ax25Packet.received h hvalid
  obtain ⟨frame, p', hgenerated, hlen⟩ := hreceived.frame_length
  refine ⟨frame, ?_, hlen⟩
  rw [normalForm, readPacket_eq h]
  exact writePacket_eq hgenerated

/-- `transmit_packet` leaves out the last byte of the frame, and what it copies of the data is no
longer there. -/
theorem kissTransmitPacket_bpq {dst src : AnyAddr} {f : List Byte} (hdst : dst.af = .ax25)
    (hsrc : src.af = .ax25) (hf : f ≠ []) :
    kissTransmitPacket dst src 0x08ff (bpqPayload f) = (do
      let a ← readPacket (f.take (f.length - 1))
      if a.data.getSize ≠ 0 then throw .freedRead
      return some (← writePacket a)) := by
  have hpos : 0 < f.length := List.length_pos_iff.mpr hf
  have hslice : slice (bpqPayload f) 1 ((bpqPayload f).length - 1) =
      .ok (f.take (f.length - 1)) := by
    rw [slice, bpqPayload, List.length_cons, if_pos (by omega)]
    obtain ⟨n, hn⟩ : ∃ n, f.length = n + 1 := ⟨f.length - 1, by omega⟩
    simp [hn]
  rw [kissTransmitPacket, if_neg (by simp [hdst, hsrc]), hslice]
  rfl

section Sending
variable {f : List Byte} {offset : ℕ} {p : Ax25Packet} {dst src : AnyAddr}

theorem received_ne_nil (h : Ax25Packet.Received f offset p) : f ≠ [] := by
  have hlong := h.long_enough
  exact List.length_pos_iff.mp (by omega)

/-- The data that is left after the cut is read from freed memory. -/
theorem kissTransmitPacket_freed (h : Ax25Packet.Received f offset p) (hdst : dst.af = .ax25)
    (hsrc : src.af = .ax25) (hdata : 2 ≤ p.data.getSize) :
    kissTransmitPacket dst src 0x08ff (bpqPayload f) = .error .freedRead := by
  obtain ⟨hrest, hbytes, -⟩ := h.rest_spec
  have hsize : p.data.getSize =
      f.length - (offset + Ax25Packet.Received.controlSize p.control) := by
    rw [hbytes, BufferIn.getSize, BufferIn.ofBytes, List.length_drop]
  have hcut := readPacket_eq (h.shorten (n := f.length - 1) (by omega))
  have hleft : ((f.take (f.length - 1)).drop
      (offset + Ax25Packet.Received.controlSize p.control)).length ≠ 0 := by
    rw [List.length_drop, List.length_take]
    omega
  rw [kissTransmitPacket_bpq hdst hsrc (received_ne_nil h), hcut]
  exact if_pos hleft

theorem kissTransmitPacket_ne (h : Ax25Packet.ofBytes f = some p) (hvalid : p.valid = true)
    (hdst : dst.af = .ax25) (hsrc : src.af = .ax25) :
    kissTransmitPacket dst src 0x08ff (bpqPayload f) ≠ (normalForm f).map some := by
  obtain ⟨offset, hreceived⟩ := Ax25Packet.received h hvalid
  have hlong : 14 < f.length := by
    obtain ⟨hoffset, -⟩ := hreceived.rest_spec
    obtain ⟨-, hfourteen, -⟩ := hreceived.repeaters_spec
    have hcontrol : 0 < Ax25Packet.Received.controlSize p.control := by
      rw [Ax25Packet.Received.controlSize]
      split <;> simp
    omega
  obtain ⟨frame, hframe, hlen⟩ := normalForm_length h hvalid
  rw [kissTransmitPacket_bpq hdst hsrc (received_ne_nil hreceived), hframe]
  -- the shortened frame cannot be read, has data, or gives a frame that is shorter by one
  cases hcut : Ax25Packet.ofBytes (f.take (f.length - 1)) with
  | none => simp [readPacket, hcut, bind, Except.bind, Except.map]
  | some q =>
    obtain ⟨frame', hframe', hlen'⟩ := normalForm_length hcut (hreceived.take (by omega) hcut)
    rw [normalForm, readPacket_eq hcut] at hframe'
    have hwritten : writePacket q = .ok frame' := hframe'
    rw [readPacket_eq hcut]
    by_cases hdata : q.data.getSize = 0
    · intro hsame
      obtain rfl : frame' = frame := by
        simpa [hdata, hwritten, bind, Except.bind, pure, Except.pure, Except.map] using hsame
      rw [List.length_take] at hlen'
      omega
    · simp [hdata, bind, Except.bind, Except.map, throw, throwThe, MonadExceptOf.throw]

end Sending

/-- What BPQ frames are for: `phys_kiss` sends the frame on, `process_ethernet_frame` takes it out
of an Ethernet frame that was not padded, and makes no range that is not one. -/
def Transparent (env : Env) (f : List Byte) : Prop :=
  (∀ dst src : AnyAddr, dst.af = .ax25 → src.af = .ax25 →
    kissTransmitPacket dst src 0x08ff (bpqPayload f) = (normalForm f).map some) ∧
  (∀ (dst src : AnyAddr) (buffer : List Byte), 64 ≤ (bpqPayload f).length + 14 →
    tapTransmitPacket dst src 0x08ff (bpqPayload f) = .ok buffer → bpqFrame buffer = .ok f) ∧
  (∀ buffer : List Byte, IsBpq buffer → processEthernetFrame env buffer ≠ .error .invalidRange)

/-- No frame comes through: `phys_kiss` drops its last byte and reads what is left of two or more
bytes of data after it was freed, `process_ethernet_frame` drops 17 bytes, and the range of the
latter is not one for buffers of less than 32 bytes. -/
theorem bpq_loses_bytes (env : Env) (f : List Byte) (p : Ax25Packet)
    (h : Ax25Packet.ofBytes f = some p) (hvalid : p.valid = true) :
    ¬Transparent env f ∧
    (∀ dst src : AnyAddr, dst.af = .ax25 → src.af = .ax25 →
      kissTransmitPacket dst src 0x08ff (bpqPayload f) ≠ (normalForm f).map some ∧
      (2 ≤ p.data.getSize →
        kissTransmitPacket dst src 0x08ff (bpqPayload f) = .error .freedRead)) ∧
    (∀ (dst src : AnyAddr) (buffer : List Byte), 64 ≤ (bpqPayload f).length + 14 →
      tapTransmitPacket dst src 0x08ff (bpqPayload f) = .ok buffer → bpqFrame buffer ≠ .ok f) ∧
    (∀ buffer : List Byte, IsBpq buffer →
      (processEthernetFrame env buffer = .error .invalidRange ↔ buffer.length < 32)) := by
  obtain ⟨offset, hreceived⟩ := Ax25Packet.received h hvalid
  refine ⟨?_, fun _ _ hdst hsrc => ⟨kissTransmitPacket_ne h hvalid hdst hsrc,
      kissTransmitPacket_freed hreceived hdst hsrc⟩,
    fun _ _ _ hsize hsent => bpqFrame_tap_ne hsent hsize,
    fun _ hbpq => processEthernetFrame_invalid_iff env hbpq⟩
  rintro ⟨hkiss, -, -⟩
  exact kissTransmitPacket_ne h hvalid rfl rfl
    (hkiss ⟨.ax25, List.replicate 7 0, rfl⟩ ⟨.ax25, List.replicate 7 0, rfl⟩ rfl rfl)

namespace Sample

/-- A UI frame from B to A with pid 1 and 40 bytes of data. -/
def frame : List Byte :=
  [0x82, 0x40, 0x40, 0x40, 0x40, 0x40, 0x60, 0x84, 0x40, 0x40, 0x40, 0x40, 0x40, 0x61, 0x03, 0x01] ++
    List.replicate 40 0x55

def packet : Ax25Packet where
  valid := true
  toAddr := .ofCallsign [0x41] 0 false false
  fromAddr := .ofCallsign [0x42] 0 true false
  control := 0x03
  type := .ui
  pid := some 1
  data := .ofBytes (List.replicate 40 0x55)

theorem ofBytes_frame : Ax25Packet.ofBytes frame = some packet := by decide +kernel

end Sample

theorem bpq_loses_bytes_frame :
    ¬Transparent Sample.env Sample.frame ∧
    (∀ dst src : AnyAddr, dst.af = .ax25 → src.af = .ax25 →
      kissTransmitPacket dst src 0x08ff (bpqPayload Sample.frame) ≠
        (normalForm Sample.frame).map some ∧
      (2 ≤ Sample.packet.data.getSize →
        kissTransmitPacket dst src 0x08ff (bpqPayload Sample.frame) = .error .freedRead)) ∧
    (∀ (dst src : AnyAddr) (buffer : List Byte), 64 ≤ (bpqPayload Sample.frame).length + 14 →
      tapTransmitPacket dst src 0x08ff (bpqPayload Sample.frame) = .ok buffer →
      bpqFrame buffer ≠ .ok Sample.frame) ∧
    (∀ buffer : List Byte, IsBpq buffer →
      (processEthernetFrame Sample.env buffer = .error .invalidRange ↔ buffer.length < 32)) :=
  bpq_loses_bytes Sample.env Sample.frame Sample.packet Sample.ofBytes_frame rfl

/-- The frame with 40 bytes of data: `phys_kiss` copies 39 bytes of freed memory, and 39 bytes are
found in the Ethernet frame that carries it. -/
theorem bpq_frame_not_transparent :
    ¬(∀ (f : List Byte) (p : Ax25Packet), Ax25Packet.ofBytes f = some p → p.valid = true →
      Transparent Sample.env f) := by
  intro h
  obtain ⟨hkiss, -, -⟩ := h Sample.frame Sample.packet Sample.ofBytes_frame rfl
  have hsent := hkiss Sample.packet.toAddr.getAnyAddr Sample.packet.fromAddr.getAnyAddr rfl rfl
  exact absurd hsent (by decide +kernel)

end MyIp.Phys.Bpq
