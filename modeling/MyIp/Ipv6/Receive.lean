import MyIp.Net.AnyAddr
import MyIp.Phys.Device

/-! # Receiving IPv6

`ipv6::operator()` (`ipv6.cpp`). Extension headers are looked for up to `eh`, which is the size of
the frame less the payload length: so far behind the fixed header as there is padding behind the
packet. What is delivered has the payload length as its size, wherever it begins. -/

namespace MyIp.Ipv6
set_option autoImplicit false

open Bytes

structure Node where
  myip : AnyAddr
  /-- The protocols in `prot_map`. -/
  protMap : Byte → Bool

/-- A packet that the link layer queued, with the interface it came from. -/
structure Arrival extends Phys.Packet where
  isForwarded : Bool
  interface : ℕ

inductive Discard
  | tooSmall | version | notForMe | size | unknownProtocol
  deriving DecidableEq

inductive Outcome
  | discarded (reason : Discard)
  | delivered (protocol : Byte) (header payload : List Byte)
  /-- Bytes behind the frame are read. -/
  | outOfBounds
  | hangs
  deriving DecidableEq

/-- What is done for a packet: the arguments of `update_cache`, and what becomes of it. -/
structure Received where
  cached : Option (AnyAddr × AnyAddr × ℕ)
  outcome : Outcome
  deriving DecidableEq

/-- `payload_header[i]` -/
def field (p : List Byte) (i : ℕ) : Byte := p.getD i 0

def address (p : List Byte) (i : ℕ) : AnyAddr := ⟨.ipv6, readAt p i 16, readAt_length p i 16⟩

def linkLocalScopeMulticast (p : List Byte) : Bool := field p 24 == 0xff && field p 25 == 0x02

/-- `ip_size`, as it is clamped. -/
def ipSize (p : List Byte) : ℕ :=
  let ipSize := (be16 (field p 4) (field p 5)).toNat
  if p.length < ipSize then p.length else ipSize

inductive Scan
  | left (protocol : Byte) (nh : ℕ)
  | outOfBounds
  | hangs

/-- The loop over the headers, at `nh`. -/
def headerLoop (p : List Byte) (eh : ℕ) : ℕ → Byte → ℕ → Scan
  | 0, _, _ => .hangs
  | turns + 1, protocol, nh =>
    if nh + 8 ≤ eh then
      match p[nh]?, p[nh + 1]? with
      | some next, some len => headerLoop p eh turns next (nh + (len.toNat + 1) * 8)
      | _, _ => .outOfBounds
    else .left protocol nh

/-- What follows the loop: the new packet is copied from the frame. -/
def deliver (node : Node) (p : List Byte) (protocol : Byte) (headerSize : ℕ) : Outcome :=
  if p.length < ipSize p then .discarded .size
  else if !node.protMap protocol then .discarded .unknownProtocol
  else if p.length < headerSize + ipSize p then .outOfBounds
  else .delivered protocol (p.take headerSize) ((p.drop headerSize).take (ipSize p))

/-- What becomes of a packet for this host. -/
def demux (node : Node) (p : List Byte) : Outcome :=
  match headerLoop p (p.length - ipSize p) (p.length + 1) (field p 6) 40 with
  | .left protocol nh => deliver node p protocol nh
  | .outOfBounds => .outOfBounds
  | .hangs => .hangs

/-- `ipv6::operator()` for one packet. -/
def receive (node : Node) (pkt : Arrival) : Received :=
  let p := pkt.data
  if p.length < 40 then ⟨none, .discarded .tooSmall⟩
  else if field p 0 >>> 4 ≠ 6 then ⟨none, .discarded .version⟩
  else
    let pktDst := address p 24
    let pktSrc := address p 8
    if pktDst ≠ node.myip ∧ linkLocalScopeMulticast p = false then ⟨none, .discarded .notForMe⟩
    else
      ⟨if pkt.isForwarded then none else some (pkt.srcAddr, pktSrc, pkt.interface), demux node p⟩

/-! ## What is taken for headers -/

/-- `rest` begins with what is taken for headers of so many bytes in all: the first 2 bytes of each are
the next protocol and a length in units of 8 bytes, and the next one is looked for while there are 8
of the `room` bytes left. -/
inductive HeadersIn : List Byte → ℕ → Byte → Byte → ℕ → Prop
  | done {rest : List Byte} {room : ℕ} {protocol : Byte} (h : room < 8) :
      HeadersIn rest room protocol protocol 0
  | header {next len protocol protocol' : Byte} {rest : List Byte} {room size : ℕ} (h : 8 ≤ room)
      (hnext : HeadersIn ((next :: len :: rest).drop ((len.toNat + 1) * 8))
        (room - (len.toNat + 1) * 8) next protocol' size) :
      HeadersIn (next :: len :: rest) room protocol protocol' ((len.toNat + 1) * 8 + size)

theorem HeadersIn.unique {rest : List Byte} {room : ℕ} {protocol p₁ p₂ : Byte} {s₁ s₂ : ℕ}
    (h₁ : HeadersIn rest room protocol p₁ s₁) (h₂ : HeadersIn rest room protocol p₂ s₂) :
    p₁ = p₂ ∧ s₁ = s₂ := by
  induction h₁ generalizing p₂ s₂ with
  | done hroom =>
    cases h₂ with
    | done _ => exact ⟨rfl, rfl⟩
    | header h _ => omega
  | header hroom _ ih =>
    cases h₂ with
    | done h => omega
    | header _ hnext =>
      obtain ⟨rfl, rfl⟩ := ih hnext
      exact ⟨rfl, rfl⟩

/-- The loop ends behind what is taken for headers. -/
theorem headerLoop_eq {p : List Byte} {eh : ℕ} (heh : eh ≤ p.length) {turns : ℕ} (protocol : Byte)
    (nh : ℕ) (hturns : eh < nh + turns) (hpos : 0 < turns) :
    ∃ protocol' size, HeadersIn (p.drop nh) (eh - nh) protocol protocol' size ∧
      headerLoop p eh turns protocol nh = .left protocol' (nh + size) := by
  induction turns generalizing protocol nh with
  | zero => omega
  | succ turns ih =>
    rw [headerLoop]
    by_cases hroom : nh + 8 ≤ eh
    · rw [if_pos hroom, List.getElem?_eq_getElem (by omega), List.getElem?_eq_getElem (by omega)]
      have hdrop : p.drop nh = p[nh] :: p[nh + 1] :: p.drop (nh + 2) := by
        rw [List.drop_eq_getElem_cons (by omega), List.drop_eq_getElem_cons (by omega)]
      obtain ⟨protocol', size, hheaders, hloop⟩ := ih p[nh] (nh + (p[nh + 1].toNat + 1) * 8)
        (by omega) (by omega)
      refine ⟨protocol', (p[nh + 1].toNat + 1) * 8 + size, ?_, ?_⟩
      · rw [hdrop]
        apply HeadersIn.header (by omega)
        rw [← hdrop, List.drop_drop, Nat.sub_sub]
        exact hheaders
      · rw [← Nat.add_assoc]
        exact hloop
    · rw [if_neg hroom]
      exact ⟨protocol, 0, .done (by omega), rfl⟩

theorem ipSize_le (p : List Byte) : ipSize p ≤ p.length := by
  simp only [ipSize]
  split <;> omega

theorem demux_eq (node : Node) (p : List Byte) :
    ∃ protocol size, HeadersIn (p.drop 40) (p.length - ipSize p - 40) (field p 6) protocol size ∧
      demux node p = deliver node p protocol (40 + size) := by
  have heh : p.length - ipSize p ≤ p.length := Nat.sub_le _ _
  have hturns : p.length - ipSize p < 40 + (p.length + 1) := by omega
  obtain ⟨protocol, size, hheaders, hloop⟩ :=
    headerLoop_eq heh (field p 6) 40 hturns (Nat.succ_pos _)
  exact ⟨protocol, size, hheaders, by rw [demux, hloop]⟩

/-! ## Inside the frame -/

/-- The loop ends, only bytes of the frame are read, and header and payload are inside. -/
structure StaysInside (node : Node) (pkt : Arrival) : Prop where
  ends : (receive node pkt).outcome ≠ .hangs
  reads : (receive node pkt).outcome ≠ .outOfBounds
  delivered : ∀ protocol header payload,
    (receive node pkt).outcome = .delivered protocol header payload →
      header.length + payload.length ≤ pkt.data.length

/-- A frame that is too small, of another version or for another host. -/
inductive Refused (node : Node) (p : List Byte) : Prop
  | tooSmall (h : p.length < 40)
  | version (h : field p 0 >>> 4 ≠ 6)
  | notForMe (h : address p 24 ≠ node.myip ∧ linkLocalScopeMulticast p = false)

/-- Behind the fixed header and what is taken for others, in as many bytes as the frame has more than
40 and the payload length, there are still as many as that length says; or no one waits for them. -/
def PayloadInside (node : Node) (p : List Byte) : Prop :=
  ∃ protocol size, HeadersIn (p.drop 40) (p.length - ipSize p - 40) (field p 6) protocol size ∧
    (node.protMap protocol = false ∨ 40 + size + ipSize p ≤ p.length)

theorem receive_refused {node : Node} {pkt : Arrival} (h : Refused node pkt.data) :
    ∃ reason, (receive node pkt).outcome = .discarded reason := by
  simp only [receive]
  by_cases hsmall : pkt.data.length < 40
  · exact ⟨_, by rw [if_pos hsmall]⟩
  by_cases hversion : field pkt.data 0 >>> 4 ≠ 6
  · exact ⟨_, by rw [if_neg hsmall, if_pos hversion]⟩
  rw [if_neg hsmall, if_neg hversion]
  cases h with
  | tooSmall h => exact absurd h hsmall
  | version h => exact absurd h hversion
  | notForMe h => exact ⟨_, by rw [if_pos h]⟩

theorem receive_accepted {node : Node} {pkt : Arrival} (h : ¬Refused node pkt.data) :
    (receive node pkt).outcome = demux node pkt.data := by
  have hsmall : ¬pkt.data.length < 40 := fun hc => h (.tooSmall hc)
  have hversion : ¬field pkt.data 0 >>> 4 ≠ 6 := fun hc => h (.version hc)
  have hdst : ¬(address pkt.data 24 ≠ node.myip ∧ linkLocalScopeMulticast pkt.data = false) :=
    fun hc => h (.notForMe hc)
  simp only [receive]
  rw [if_neg hsmall, if_neg hversion, if_neg hdst]

theorem deliver_cases (node : Node) (p : List Byte) (protocol : Byte) (headerSize : ℕ) :
    (node.protMap protocol = false ∧
        deliver node p protocol headerSize = .discarded .unknownProtocol) ∨
      (node.protMap protocol = true ∧ p.length < headerSize + ipSize p ∧
        deliver node p protocol headerSize = .outOfBounds) ∨
      (node.protMap protocol = true ∧ headerSize + ipSize p ≤ p.length ∧
        deliver node p protocol headerSize =
          .delivered protocol (p.take headerSize) ((p.drop headerSize).take (ipSize p))) := by
  rw [deliver, if_neg (not_lt.mpr (ipSize_le p))]
  cases hprotocol : node.protMap protocol with
  | false => exact .inl ⟨rfl, rfl⟩
  | true =>
    rcases Nat.lt_or_ge p.length (headerSize + ipSize p) with hout | hin
    · exact .inr (.inl ⟨rfl, hout, by simp [hout]⟩)
    · exact .inr (.inr ⟨rfl, hin, by simp [not_lt.mpr hin]⟩)

theorem deliver_eq_delivered_iff {node : Node} {p : List Byte} {protocol protocol' : Byte}
    {headerSize : ℕ} {header payload : List Byte} :
    deliver node p protocol headerSize = .delivered protocol' header payload ↔
      node.protMap protocol = true ∧ headerSize + ipSize p ≤ p.length ∧ protocol = protocol' ∧
        p.take headerSize = header ∧ (p.drop headerSize).take (ipSize p) = payload := by
  rcases deliver_cases node p protocol headerSize with ⟨hunknown, heq⟩ | ⟨-, hout, heq⟩ |
    ⟨hknown, hin, heq⟩
  · rw [heq, hunknown]
    exact iff_of_false nofun fun h => Bool.false_ne_true h.1
  · rw [heq]
    exact iff_of_false nofun fun h => absurd h.2.1 (by omega)
  · rw [heq, Outcome.delivered.injEq]
    exact ⟨fun h => ⟨hknown, hin, h⟩, fun h => h.2.2⟩

/-- A frame is handled inside exactly if it is refused or its payload is inside. -/
theorem receiver_staysInside_iff (node : Node) (pkt : Arrival) :
    StaysInside node pkt ↔ Refused node pkt.data ∨ PayloadInside node pkt.data := by
  by_cases hrefused : Refused node pkt.data
  · obtain ⟨reason, hreason⟩ := receive_refused hrefused
    refine iff_of_true ⟨?_, ?_, ?_⟩ (.inl hrefused)
    all_goals
      rw [hreason]
      nofun
  have houtcome := receive_accepted hrefused
  obtain ⟨protocol, size, hheaders, hdemux⟩ := demux_eq node pkt.data
  rw [hdemux] at houtcome
  have hinside : PayloadInside node pkt.data ↔
      node.protMap protocol = false ∨ 40 + size + ipSize pkt.data ≤ pkt.data.length := by
    constructor
    · rintro ⟨protocol', size', hheaders', h⟩
      obtain ⟨rfl, rfl⟩ := hheaders.unique hheaders'
      exact h
    · exact fun h => ⟨protocol, size, hheaders, h⟩
  rw [hinside]
  rcases deliver_cases node pkt.data protocol (40 + size) with ⟨hunknown, heq⟩ |
    ⟨hknown, hout, heq⟩ | ⟨hknown, hin, heq⟩
  · refine iff_of_true ⟨?_, ?_, ?_⟩ (.inr (.inl hunknown))
    all_goals
      rw [houtcome, heq]
      nofun
  · refine iff_of_false (fun h => h.reads (houtcome.trans heq)) ?_
    rw [hknown]
    rintro (h | h | h)
    · exact hrefused h
    · cases h
    · omega
  · refine iff_of_true ⟨?_, ?_, ?_⟩ (.inr (.inr hin))
    · rw [houtcome, heq]
      nofun
    · rw [houtcome, heq]
      nofun
    · intro protocol' header payload h
      obtain ⟨rfl, rfl, rfl⟩ := Outcome.delivered.inj ((houtcome.trans heq).symm.trans h)
      rw [List.length_take, List.length_take, List.length_drop]
      omega

namespace Sample

/-- A host with UDP, `2001:db8::1`. -/
def node : Node where
  myip := ⟨.ipv6, [0x20, 1, 0x0d, 0xb8, 0, 0, 0, 0, 0, 0, 0, 0, 0, 0, 0, 1], rfl⟩
  protMap := (· == 17)

/-- A frame from `2001:db8::9` with 8 bytes of UDP and a payload length. -/
def frame (length : Byte) : Arrival where
  srcAddr := ⟨.mac, [2, 0, 0, 0, 9, 6], rfl⟩
  dstAddr := ⟨.mac, [2, 0, 0, 0, 1, 6], rfl⟩
  data := [0x60, 0, 0, 0, 0, length, 17, 255, 0x20, 1, 0x0d, 0xb8, 0, 0, 0, 0, 0, 0, 0, 0, 0, 0, 0, 9] ++
    node.myip.addr ++ [0, 7, 0, 7, 0, 8, 0, 0]
  isForwarded := false
  interface := 1

end Sample

/-- A payload length of 9 bytes where there are 8. -/
theorem not_staysInside_cut :
    (receive Sample.node (Sample.frame 9)).outcome = .outOfBounds ∧
      ¬StaysInside Sample.node (Sample.frame 9) := by
  have hout : (receive Sample.node (Sample.frame 9)).outcome = .outOfBounds := by decide +kernel
  exact ⟨hout, fun h => h.reads hout⟩

end MyIp.Ipv6
