import MyIp.Arp.MacResolver
import MyIp.Net.Buffer
import MyIp.Phys.Device

/-! # Incoming ARP packets

`arp::operator()` (`arp.cpp`) for one packet. The places of the four addresses in it come from the
two size bytes of the packet, but 6, 7 or 4 bytes are copied from there, and `swap_mac` exchanges 6
bytes for every kind of hardware address. What is copied is checked against the packet here
(`bytesAt`, `storeAt`), as are the assertions of `any_addr`; `input_ok_iff` says when all of them
hold, `answers_iff` when the answer to a request is the right one. -/

namespace MyIp.Arp.Input
set_option autoImplicit false

open Bytes Phys

/-- The two addresses of an `arp`; the hardware addresses of its interface are such as `myMac`. -/
structure Host where
  myMac : AnyAddr
  myIp : AnyAddr

inductive Fault
  /-- A copy is not inside the packet. -/
  | outside
  /-- The assertion of `any_addr::get` on the size. -/
  | sizeMismatch
  /-- The assertion of `any_addr` on an address that is not set. -/
  | notSet
  deriving DecidableEq, Repr

/-! ## The layout of a packet -/

def hwSize (p : List Byte) : ℕ := (p.getD 4 0).toNat

def pSize (p : List Byte) : ℕ := (p.getD 5 0).toNat

/-- `sha_offset` -/
def shaOffset : ℕ := 8

def spaOffset (p : List Byte) : ℕ := 8 + hwSize p

def thaOffset (p : List Byte) : ℕ := spaOffset p + pSize p

def tpaOffset (p : List Byte) : ℕ := thaOffset p + hwSize p

def endOffset (p : List Byte) : ℕ := tpaOffset p + pSize p

def etherType (p : List Byte) : BitVec 16 := be16 (p.getD 2 0) (p.getD 3 0)

def request (p : List Byte) : BitVec 16 := be16 (p.getD 6 0) (p.getD 7 0)

/-- The packet is too small, or a size is not that of its ether type. -/
def refused (p : List Byte) : Bool :=
  p.length < 6 || p.length < endOffset p || (etherType p == 0x0800 && pSize p != 4) ||
    (etherType p == 0x08ff && hwSize p != 7) || (etherType p == 0x00cc && hwSize p != 7)

/-- The size of a hardware address, for the ether types that are listed. -/
def macSize (t : BitVec 16) : Option ℕ :=
  if t = 0x0800 then some 6 else if t = 0x08ff ∨ t = 0x00cc then some 7 else none

/-- The IPv4 address in place `off`. -/
def ipAt (p : List Byte) (off : ℕ) : AnyAddr :=
  .ipv4 (p.getD off 0) (p.getD (off + 1) 0) (p.getD (off + 2) 0) (p.getD (off + 3) 0)

/-! ## Copying -/

/-- `n` bytes, if they are inside. -/
def bytesAt (m : List Byte) (off n : ℕ) : Except Fault (List Byte) :=
  if off + n ≤ m.length then .ok ((m.drop off).take n) else .error .outside

/-- The block with `d` in place `off`, if that is inside. -/
def storeAt (m : List Byte) (off : ℕ) (d : List Byte) : Except Fault (List Byte) :=
  if off + d.length ≤ m.length then .ok (writeAt m off d) else .error .outside

/-- `any_addr(af, &p[off])` -/
def addrAt (af : AddrFamily) (p : List Byte) (off : ℕ) : Except Fault AnyAddr :=
  if h : off + af.size ≤ p.length then
    .ok ⟨af, (p.drop off).take af.size, length_take_drop h⟩
  else .error .outside

/-- `a.get(&m[off], expSize)` -/
def getInto (a : AnyAddr) (expSize : ℕ) (m : List Byte) (off : ℕ) : Except Fault (List Byte) :=
  if expSize = a.addr.length then storeAt m off a.addr else .error .sizeMismatch

/-- `n` bytes in two places of a block change places. -/
def swapBytes (n : ℕ) (m : List Byte) (a b : ℕ) : Except Fault (List Byte) := do
  let temp ← bytesAt m a n
  let other ← bytesAt m b n
  let m ← storeAt m a other
  storeAt m b temp

/-- `swap_mac` -/
def swapMac : List Byte → ℕ → ℕ → Except Fault (List Byte) := swapBytes 6

/-- `swap_ipv4` -/
def swapIpv4 : List Byte → ℕ → ℕ → Except Fault (List Byte) := swapBytes 4

/-! ## One packet -/

/-- The arguments of `transmit_packet`. -/
structure Transmit where
  dstMac : AnyAddr
  srcMac : AnyAddr
  etherType : BitVec 16
  payload : List Byte

/-- What a packet leads to: a call of `update_cache`, an answer, an entry of `work` filled in. -/
structure Outcome where
  cached : Option (AnyAddr × AnyAddr) := none
  sent : Option Transmit := none
  resolved : Option (AnyAddr × AnyAddr) := none

/-- `reply`, as it is made from the request. -/
def reply (host : Host) (p : List Byte) : Except Fault (List Byte) := do
  let reply ← swapMac p shaOffset (thaOffset p)
  let reply ← match macSize (etherType p) with
    | some size => getInto host.myMac size reply shaOffset
    | none => .ok reply
  let reply ← storeAt reply 7 [2]
  swapIpv4 reply (spaOffset p) (tpaOffset p)

/-- `work_mac`; for an ether type that is not listed it is not set. -/
def workMac (p : List Byte) : Except Fault (Option AnyAddr) :=
  if etherType p = 0x0800 then (addrAt .mac p shaOffset).map some
  else if etherType p = 0x08ff ∨ etherType p = 0x00cc then (addrAt .ax25 p shaOffset).map some
  else .ok none

/-- The branch for a reply. -/
def onReply (work : AnyAddr → Option (Option AnyAddr)) (p : List Byte) (spa : AnyAddr)
    (o : Outcome) : Except Fault Outcome := do
  let mac ← workMac p
  match work spa, mac with
  | none, _ => return o
  | some _, some mac => return { o with resolved := some (spa, mac) }
  | some _, none => throw .notSet

/-- `arp::operator()` for one packet. -/
def input (host : Host) (work : AnyAddr → Option (Option AnyAddr)) (pkt : Packet) :
    Except Fault Outcome :=
  let p := pkt.data
  if refused p then .ok {}
  else do
    let tha ← addrAt .mac p (thaOffset p)
    let sha ← addrAt .mac p shaOffset
    let tpa ← addrAt .ipv4 p (tpaOffset p)
    let spa ← addrAt .ipv4 p (spaOffset p)
    let isGratuitous := (request p = 1 ∨ request p = 2) ∧ tha.addr = List.replicate 6 0xff ∧
      tpa = spa
    let o : Outcome := { cached := if isGratuitous then some (sha, spa) else none }
    if request p = 1 then
      if tpa = host.myIp then
        let payload ← reply host p
        return { o with sent := some ⟨pkt.srcAddr, host.myMac, 0x0806, payload⟩ }
      else return o
    else if request p = 2 then onReply work p spa o
    else return o

/-! ## When nothing goes wrong -/

/-- What a packet needs that passes the checks: room for the addresses that are copied, if it asks
for this host an ether type that goes with its hardware addresses, and if it answers a pending
request one that is listed. -/
structure Harmless (host : Host) (work : AnyAddr → Option (Option AnyAddr)) (p : List Byte) :
    Prop where
  tha : thaOffset p + 6 ≤ p.length
  tpa : tpaOffset p + 4 ≤ p.length
  question : request p = 1 → ipAt p (tpaOffset p) = host.myIp →
    ∀ size, macSize (etherType p) = some size → size = host.myMac.addr.length
  answer : request p = 2 → macSize (etherType p) = none → work (ipAt p (spaOffset p)) = none

theorem bytesAt_inside {m : List Byte} {off n : ℕ} (h : off + n ≤ m.length) :
    bytesAt m off n = .ok ((m.drop off).take n) := if_pos h

theorem storeAt_inside {m d : List Byte} {off : ℕ} (h : off + d.length ≤ m.length) :
    storeAt m off d = .ok (writeAt m off d) := if_pos h

theorem addrAt_eq (af : AddrFamily) (p : List Byte) (off : ℕ) :
    (off + af.size ≤ p.length ∧ ∃ a, addrAt af p off = .ok a) ∨
      (p.length < off + af.size ∧ addrAt af p off = .error .outside) := by
  rw [addrAt]
  split
  · rename_i h
    exact .inl ⟨h, _, rfl⟩
  · rename_i h
    exact .inr ⟨Nat.lt_of_not_le h, rfl⟩

theorem take_four {p : List Byte} {off : ℕ} (h : off + 4 ≤ p.length) :
    (p.drop off).take 4 =
      [p.getD off 0, p.getD (off + 1) 0, p.getD (off + 2) 0, p.getD (off + 3) 0] := by
  apply List.ext_getElem?
  intro i
  have hget : ∀ k, off + k < p.length → p[off + k]? = some (p.getD (off + k) 0) := by
    intro k hk
    rw [List.getD_eq_getElem?_getD, List.getElem?_eq_getElem hk, Option.getD_some]
  by_cases hi : i < 4
  · rw [List.getElem?_take_of_lt hi, List.getElem?_drop, hget i (by omega)]
    interval_cases i <;> rfl
  · rw [List.getElem?_take_eq_none (by omega), List.getElem?_eq_none (by simp; omega)]

theorem addrAt_ipv4 {p : List Byte} {off : ℕ} (h : off + 4 ≤ p.length) :
    addrAt .ipv4 p off = .ok (ipAt p off) := by
  have hsize : off + AddrFamily.ipv4.size ≤ p.length := h
  have hbytes : (p.drop off).take AddrFamily.ipv4.size = (ipAt p off).addr := take_four h
  rw [addrAt, dif_pos hsize]
  simp only [hbytes]
  rfl

theorem swapBytes_inside {n : ℕ} {m : List Byte} {a b : ℕ} (ha : a + n ≤ m.length)
    (hb : b + n ≤ m.length) : ∃ r, swapBytes n m a b = .ok r ∧ r.length = m.length := by
  have hlen : ∀ off, off + n ≤ m.length → ((m.drop off).take n).length = n := by
    intro off hoff
    rw [List.length_take, List.length_drop]
    omega
  have hfirst : a + ((m.drop b).take n).length ≤ m.length := by rw [hlen b hb]; exact ha
  have hlength := writeAt_length hfirst
  have hsecond : b + ((m.drop a).take n).length ≤
      (writeAt m a ((m.drop b).take n)).length := by
    rw [hlen a ha, hlength]
    exact hb
  refine ⟨writeAt (writeAt m a ((m.drop b).take n)) b ((m.drop a).take n), ?_, ?_⟩
  · rw [swapBytes, bytesAt_inside ha, bytesAt_inside hb, ok_bind, ok_bind,
      storeAt_inside hfirst, ok_bind, storeAt_inside hsecond]
  · rw [writeAt_length hsecond, hlength]

section Checks
variable {host : Host} {p : List Byte}

theorem refused_eq_false (h : refused p = false) :
    endOffset p ≤ p.length ∧ (etherType p = 0x0800 → pSize p = 4) ∧
      (etherType p = 0x08ff ∨ etherType p = 0x00cc → hwSize p = 7) := by
  simp only [refused, Bool.or_eq_false_iff, decide_eq_false_iff_not, Nat.not_lt,
    Bool.and_eq_false_iff, beq_eq_false_iff_ne, bne_eq_false_iff_eq] at h
  obtain ⟨⟨⟨⟨-, hend⟩, hip⟩, hold⟩, hax25⟩ := h
  refine ⟨hend, fun htype => hip.resolve_left fun hne => hne htype, ?_⟩
  rintro (htype | htype)
  · exact hold.resolve_left fun hne => hne htype
  · exact hax25.resolve_left fun hne => hne htype

theorem macSize_cases (t : BitVec 16) :
    (t = 0x0800 ∧ macSize t = some 6) ∨
      (t ≠ 0x0800 ∧ (t = 0x08ff ∨ t = 0x00cc) ∧ macSize t = some 7) ∨
      (t ≠ 0x0800 ∧ ¬(t = 0x08ff ∨ t = 0x00cc) ∧ macSize t = none) := by
  rw [macSize]
  by_cases hip : t = 0x0800
  · exact .inl ⟨hip, if_pos hip⟩
  · rw [if_neg hip]
    by_cases hax25 : t = 0x08ff ∨ t = 0x00cc
    · exact .inr (.inl ⟨hip, hax25, if_pos hax25⟩)
    · exact .inr (.inr ⟨hip, hax25, if_neg hax25⟩)

/-- A hardware address of the listed size is inside. -/
theorem macSize_inside (hp : refused p = false) (htha : thaOffset p + 6 ≤ p.length) {size : ℕ}
    (h : macSize (etherType p) = some size) : shaOffset + size ≤ p.length := by
  obtain ⟨hend, -, hax25⟩ := refused_eq_false hp
  have hplace : thaOffset p = 8 + hwSize p + pSize p := rfl
  have hlast : endOffset p = 8 + hwSize p + pSize p + hwSize p + pSize p := rfl
  obtain ⟨-, hsize⟩ | ⟨-, htype, hsize⟩ | ⟨-, -, hsize⟩ := macSize_cases (etherType p)
  · obtain rfl := Option.some.inj (hsize.symm.trans h)
    rw [shaOffset]
    omega
  · obtain rfl := Option.some.inj (hsize.symm.trans h)
    have hseven := hax25 htype
    rw [shaOffset]
    omega
  · exact absurd (hsize.symm.trans h) (by simp)

/-- The answer to a request is made if the hardware address of this host has the size that goes
with the ether type. -/
theorem reply_ok_iff (host : Host) (hp : refused p = false) (htha : thaOffset p + 6 ≤ p.length)
    (htpa : tpaOffset p + 4 ≤ p.length) :
    (∃ r, reply host p = .ok r) ↔
      ∀ size, macSize (etherType p) = some size → size = host.myMac.addr.length := by
  have hsha : shaOffset + 6 ≤ p.length := by
    have hplace : thaOffset p = 8 + hwSize p + pSize p := rfl
    rw [shaOffset]
    omega
  have hspa : spaOffset p + 4 ≤ p.length := by
    have hplace : tpaOffset p = spaOffset p + pSize p + hwSize p := rfl
    omega
  obtain ⟨swapped, hswap, hlength⟩ := swapBytes_inside hsha htha
  -- the opcode and the protocol addresses, in any block of this length
  have hrest : ∀ m : List Byte, m.length = p.length →
      ∃ r, (storeAt m 7 [2] >>= fun m => swapIpv4 m (spaOffset p) (tpaOffset p)) = .ok r := by
    intro m hm
    have hseven : 7 + [(2 : Byte)].length ≤ m.length := by
      rw [shaOffset] at hsha
      rw [List.length_singleton]
      omega
    have hkeeps := writeAt_length hseven
    obtain ⟨r, hr, -⟩ := swapBytes_inside (n := 4) (m := writeAt m 7 [2]) (a := spaOffset p)
      (b := tpaOffset p) (by rw [hkeeps, hm]; exact hspa) (by rw [hkeeps, hm]; exact htpa)
    exact ⟨r, by rw [storeAt_inside hseven, ok_bind]; exact hr⟩
  rw [reply, swapMac, hswap, ok_bind]
  cases hsize : macSize (etherType p) with
  | none => exact iff_of_true (hrest swapped hlength) (by simp)
  | some size =>
    simp only [Option.some.injEq, forall_eq', getInto]
    by_cases hfits : size = host.myMac.addr.length
    · have hinside : shaOffset + host.myMac.addr.length ≤ swapped.length := by
        rw [hlength, ← hfits]
        exact macSize_inside hp htha hsize
      rw [if_pos hfits, storeAt_inside hinside, ok_bind]
      exact iff_of_true (hrest _ ((writeAt_length hinside).trans hlength)) hfits
    · rw [if_neg hfits]
      refine iff_of_false ?_ hfits
      rintro ⟨r, hr⟩
      cases hr

/-- An answer is taken if its ether type is listed, or nobody waits for it. -/
theorem onReply_ok_iff (hp : refused p = false) (htha : thaOffset p + 6 ≤ p.length)
    (work : AnyAddr → Option (Option AnyAddr)) (spa : AnyAddr) (o : Outcome) :
    (∃ o', onReply work p spa o = .ok o') ↔
      (macSize (etherType p) = none → work spa = none) := by
  have hmac : (∃ mac, workMac p = .ok (some mac) ∧ macSize (etherType p) ≠ none) ∨
      (workMac p = .ok none ∧ macSize (etherType p) = none) := by
    rw [workMac]
    obtain ⟨htype, hsize⟩ | ⟨hne, htype, hsize⟩ | ⟨hne, htype, hsize⟩ :=
      macSize_cases (etherType p)
    · have hinside := macSize_inside hp htha hsize
      obtain ⟨-, a, ha⟩ | ⟨hlt, -⟩ := addrAt_eq .mac p shaOffset
      · exact .inl ⟨a, by rw [if_pos htype, ha]; rfl, by rw [hsize]; simp⟩
      · exact absurd hinside (Nat.not_le_of_lt hlt)
    · have hinside := macSize_inside hp htha hsize
      obtain ⟨-, a, ha⟩ | ⟨hlt, -⟩ := addrAt_eq .ax25 p shaOffset
      · exact .inl ⟨a, by rw [if_neg hne, if_pos htype, ha]; rfl, by rw [hsize]; simp⟩
      · exact absurd hinside (Nat.not_le_of_lt hlt)
    · exact .inr ⟨by rw [if_neg hne, if_neg htype], hsize⟩
  rw [onReply]
  obtain ⟨mac, hmac, hlisted⟩ | ⟨hmac, hunlisted⟩ := hmac
  · rw [hmac, ok_bind]
    refine iff_of_true ?_ fun h => absurd h hlisted
    cases work spa with
    | none => exact ⟨_, rfl⟩
    | some entry => exact ⟨_, rfl⟩
  · rw [hmac, ok_bind]
    cases work spa with
    | none => exact iff_of_true ⟨_, rfl⟩ fun _ => rfl
    | some entry =>
      refine iff_of_false ?_ fun h => absurd (h hunlisted) (by simp)
      rintro ⟨o', ho'⟩
      cases ho'

/-- What comes after the four addresses were read. -/
def answered (host : Host) (work : AnyAddr → Option (Option AnyAddr)) (pkt : Packet) (o : Outcome) :
    Except Fault Outcome :=
  if request pkt.data = 1 then
    if ipAt pkt.data (tpaOffset pkt.data) = host.myIp then do
      let payload ← reply host pkt.data
      return { o with sent := some ⟨pkt.srcAddr, host.myMac, 0x0806, payload⟩ }
    else return o
  else if request pkt.data = 2 then onReply work pkt.data (ipAt pkt.data (spaOffset pkt.data)) o
  else return o

/-- All four addresses are inside. -/
theorem input_inside (host : Host) (work : AnyAddr → Option (Option AnyAddr)) {pkt : Packet}
    (hp : refused pkt.data = false) (htha : thaOffset pkt.data + 6 ≤ pkt.data.length)
    (htpa : tpaOffset pkt.data + 4 ≤ pkt.data.length) :
    ∃ o, input host work pkt = answered host work pkt o := by
  have hthaPlace : thaOffset pkt.data = 8 + hwSize pkt.data + pSize pkt.data := rfl
  have htpaPlace : tpaOffset pkt.data = spaOffset pkt.data + pSize pkt.data + hwSize pkt.data := rfl
  have hspa : spaOffset pkt.data + 4 ≤ pkt.data.length := by omega
  simp only [input, hp, Bool.false_eq_true, if_false]
  obtain ⟨-, tha, hthaEq⟩ | ⟨hlt, -⟩ := addrAt_eq .mac pkt.data (thaOffset pkt.data)
  · obtain ⟨-, sha, hshaEq⟩ | ⟨hlt, -⟩ := addrAt_eq .mac pkt.data shaOffset
    · rw [hthaEq, ok_bind, hshaEq, ok_bind, addrAt_ipv4 htpa, ok_bind, addrAt_ipv4 hspa, ok_bind]
      exact ⟨_, rfl⟩
    · simp only [AddrFamily.size, shaOffset] at hlt
      omega
  · exact absurd htha (Nat.not_le_of_lt hlt)

/-- The target addresses are the last ones that are read, and the first that may be outside. -/
theorem input_outside (host : Host) (work : AnyAddr → Option (Option AnyAddr)) {pkt : Packet}
    (hp : refused pkt.data = false)
    (h : ¬(thaOffset pkt.data + 6 ≤ pkt.data.length ∧ tpaOffset pkt.data + 4 ≤ pkt.data.length)) :
    input host work pkt = .error .outside := by
  have hthaPlace : thaOffset pkt.data = 8 + hwSize pkt.data + pSize pkt.data := rfl
  simp only [input, hp, Bool.false_eq_true, if_false]
  obtain ⟨htha, tha, hthaEq⟩ | ⟨-, herror⟩ := addrAt_eq .mac pkt.data (thaOffset pkt.data)
  · obtain ⟨-, sha, hshaEq⟩ | ⟨hlt, -⟩ := addrAt_eq .mac pkt.data shaOffset
    · obtain ⟨htpa, -⟩ | ⟨-, herror⟩ := addrAt_eq .ipv4 pkt.data (tpaOffset pkt.data)
      · exact absurd ⟨htha, htpa⟩ h
      · rw [hthaEq, ok_bind, hshaEq, ok_bind, herror]
        rfl
    · simp only [AddrFamily.size, shaOffset] at hlt htha
      omega
  · rw [herror]
    rfl

theorem answered_ok_iff {host : Host} {work : AnyAddr → Option (Option AnyAddr)} {pkt : Packet}
    (hp : refused pkt.data = false) (htha : thaOffset pkt.data + 6 ≤ pkt.data.length)
    (htpa : tpaOffset pkt.data + 4 ≤ pkt.data.length) (o : Outcome) :
    (∃ o', answered host work pkt o = .ok o') ↔ Harmless host work pkt.data := by
  rw [answered]
  by_cases hquestion : request pkt.data = 1
  · have hnot : request pkt.data ≠ 2 := by rw [hquestion]; decide
    rw [if_pos hquestion]
    by_cases hme : ipAt pkt.data (tpaOffset pkt.data) = host.myIp
    · rw [if_pos hme]
      have hreply := reply_ok_iff host hp htha htpa
      constructor
      · rintro ⟨o', ho'⟩
        obtain ⟨r, hr, -⟩ := exists_of_bind_eq_ok ho'
        exact ⟨htha, htpa, fun _ _ => hreply.mp ⟨r, hr⟩, fun h => absurd h hnot⟩
      · intro h
        obtain ⟨r, hr⟩ := hreply.mpr (h.question hquestion hme)
        exact ⟨_, by rw [hr, ok_bind]; rfl⟩
    · rw [if_neg hme]
      exact iff_of_true ⟨_, rfl⟩ ⟨htha, htpa, fun _ h => absurd h hme, fun h => absurd h hnot⟩
  · rw [if_neg hquestion]
    by_cases hanswer : request pkt.data = 2
    · rw [if_pos hanswer, onReply_ok_iff hp htha]
      exact ⟨fun h => ⟨htha, htpa, fun h' => absurd h' hquestion, fun _ => h⟩,
        fun h => h.answer hanswer⟩
    · rw [if_neg hanswer]
      exact iff_of_true ⟨_, rfl⟩
        ⟨htha, htpa, fun h => absurd h hquestion, fun h => absurd h hanswer⟩

/-- All copies of a packet are inside it and all assertions hold exactly if the packet is refused or
harmless. -/
theorem input_ok_iff (host : Host) (work : AnyAddr → Option (Option AnyAddr)) (pkt : Packet) :
    (∃ o, input host work pkt = .ok o) ↔
      refused pkt.data = true ∨ Harmless host work pkt.data := by
  cases hp : refused pkt.data with
  | true => exact iff_of_true ⟨{}, by rw [input, hp]; rfl⟩ (.inl rfl)
  | false =>
    rw [or_iff_right Bool.false_ne_true]
    by_cases hinside :
        thaOffset pkt.data + 6 ≤ pkt.data.length ∧ tpaOffset pkt.data + 4 ≤ pkt.data.length
    · obtain ⟨o, ho⟩ := input_inside host work hp hinside.1 hinside.2
      rw [ho, answered_ok_iff hp hinside.1 hinside.2]
    · refine iff_of_false ?_ fun h => hinside ⟨h.tha, h.tpa⟩
      rw [input_outside host work hp hinside]
      rintro ⟨o, ho⟩
      cases ho

end Checks

/-! ## Pending requests -/

/-! ## Answers -/

/-- A request for the address of this host, as its interface asks: Ethernet with IPv4, or AX.25. -/
structure AsksForMe (host : Host) (p : List Byte) : Prop where
  link : (hwSize p = 6 ∧ etherType p = 0x0800 ∧ host.myMac.af = .mac) ∨
    (hwSize p = 7 ∧ etherType p = 0x00cc ∧ host.myMac.af = .ax25)
  pSize : pSize p = 4
  request : request p = 1
  complete : endOffset p ≤ p.length
  forMe : ipAt p (tpaOffset p) = host.myIp

/-- The bytes of an address in place `off`. -/
def field (p : List Byte) (off n : ℕ) : List Byte := (p.drop off).take n

/-- `r` answers the request `p`: it is a reply with the addresses of this host as the sender's and
those of the sender as the target's, and is the request in all other bytes. -/
structure IsAnswer (host : Host) (p r : List Byte) : Prop where
  length : r.length = p.length
  opcode : request r = 2
  sha : field r shaOffset (hwSize p) = host.myMac.addr
  spa : field r (spaOffset p) 4 = host.myIp.addr
  tha : field r (thaOffset p) (hwSize p) = field p shaOffset (hwSize p)
  tpa : field r (tpaOffset p) 4 = field p (spaOffset p) 4
  rest : ∀ i, i < 6 ∨ endOffset p ≤ i → r[i]? = p[i]?

/-- The request is answered rightly, to its sender. -/
def Answers (host : Host) (work : AnyAddr → Option (Option AnyAddr)) (pkt : Packet) : Prop :=
  ∃ o r, input host work pkt = .ok o ∧
    o.sent = some ⟨pkt.srcAddr, host.myMac, 0x0806, r⟩ ∧ IsAnswer host pkt.data r

theorem bytesAt_append {a b c : List Byte} {off n : ℕ} (ha : a.length = off)
    (hb : b.length = n) : bytesAt (a ++ (b ++ c)) off n = .ok b := by
  rw [bytesAt, if_pos (by simp only [List.length_append]; omega), List.drop_left' ha,
    List.take_left' hb]

theorem storeAt_append {a b c d : List Byte} {off : ℕ} (ha : a.length = off)
    (hd : d.length = b.length) : storeAt (a ++ (b ++ c)) off d = .ok (a ++ (d ++ c)) := by
  have hdrop : (a ++ (b ++ c)).drop (off + d.length) = c := by
    rw [← List.drop_drop, List.drop_left' ha, List.drop_left' hd.symm]
  rw [storeAt, if_pos (by simp only [List.length_append]; omega), writeAt, List.take_left' ha,
    hdrop, List.append_assoc]

/-- Two pieces of a block that do not overlap change places. -/
theorem swapBytes_append {a x b y c : List Byte} {n i j : ℕ} (ha : a.length = i)
    (hx : x.length = n) (hb : (a ++ (x ++ b)).length = j) (hy : y.length = n) :
    swapBytes n (a ++ (x ++ (b ++ (y ++ c)))) i j = .ok (a ++ (y ++ (b ++ (x ++ c)))) := by
  have hb' : (a ++ (y ++ b)).length = j := by
    simp only [List.length_append] at hb ⊢
    omega
  have hsecond : a ++ (x ++ (b ++ (y ++ c))) = (a ++ (x ++ b)) ++ (y ++ c) := by
    simp only [List.append_assoc]
  have hstored : a ++ (y ++ (b ++ (y ++ c))) = (a ++ (y ++ b)) ++ (y ++ c) := by
    simp only [List.append_assoc]
  rw [swapBytes, bytesAt_append ha hx, ok_bind, hsecond, bytesAt_append hb hy, ok_bind, ← hsecond,
    storeAt_append ha (hy.trans hx.symm), ok_bind, hstored,
    storeAt_append hb' (hx.trans hy.symm)]
  simp only [List.append_assoc]

/-- The pieces of a packet: the hardware addresses are cut after 6 bytes. -/
structure Parts where
  front : List Byte
  low : Byte
  sha : List Byte
  shaEnd : List Byte
  spa : List Byte
  tha : List Byte
  thaEnd : List Byte
  tpa : List Byte
  tail : List Byte

namespace Parts

def bytes (q : Parts) : List Byte :=
  (q.front ++ [q.low]) ++
    (q.sha ++ ((q.shaEnd ++ q.spa) ++ (q.tha ++ (q.thaEnd ++ (q.tpa ++ q.tail)))))

/-- The answer, with the hardware address `mac` of the host. -/
def answer (q : Parts) (mac : List Byte) : List Byte :=
  (q.front ++ [2] ++ mac) ++ (q.tpa ++ ((q.sha ++ q.thaEnd) ++ (q.spa ++ q.tail)))

/-- The pieces are those of the packet `p`. -/
structure Of (q : Parts) (p : List Byte) : Prop where
  bytes : p = q.bytes
  front : q.front.length = 7
  sha : q.sha.length = 6
  shaEnd : 6 + q.shaEnd.length = hwSize p
  spa : q.spa.length = 4
  tha : q.tha.length = 6
  thaEnd : 6 + q.thaEnd.length = hwSize p
  tpa : q.tpa.length = 4

end Parts

theorem exists_split {l : List Byte} {n : ℕ} (h : n ≤ l.length) :
    ∃ a b, l = a ++ b ∧ a.length = n :=
  ⟨l.take n, l.drop n, (List.take_append_drop n l).symm, by rw [List.length_take]; omega⟩

theorem exists_parts {p : List Byte} (hhw : 6 ≤ hwSize p) (hpSize : pSize p = 4)
    (hend : endOffset p ≤ p.length) : ∃ q : Parts, q.Of p := by
  have hlen : 8 + hwSize p + 4 + hwSize p + 4 ≤ p.length := by
    have hlast : endOffset p = 8 + hwSize p + pSize p + hwSize p + pSize p := rfl
    omega
  generalize hn : hwSize p = n at hhw hlen
  obtain ⟨front, l₁, hl₁, hfront⟩ := exists_split (l := p) (n := 7) (by omega)
  obtain ⟨low, l₂, rfl⟩ := List.exists_cons_of_length_pos (l := l₁) (by
    have := congrArg List.length hl₁
    rw [List.length_append] at this
    omega)
  have h₂ := congrArg List.length hl₁
  rw [List.length_append, List.length_cons] at h₂
  obtain ⟨sha, l₃, rfl, hsha⟩ := exists_split (l := l₂) (n := 6) (by omega)
  rw [List.length_append] at h₂
  obtain ⟨shaEnd, l₄, rfl, hshaEnd⟩ := exists_split (l := l₃) (n := n - 6) (by omega)
  rw [List.length_append] at h₂
  obtain ⟨spa, l₅, rfl, hspa⟩ := exists_split (l := l₄) (n := 4) (by omega)
  rw [List.length_append] at h₂
  obtain ⟨tha, l₆, rfl, htha⟩ := exists_split (l := l₅) (n := 6) (by omega)
  rw [List.length_append] at h₂
  obtain ⟨thaEnd, l₇, rfl, hthaEnd⟩ := exists_split (l := l₆) (n := n - 6) (by omega)
  rw [List.length_append] at h₂
  obtain ⟨tpa, tail, rfl, htpa⟩ := exists_split (l := l₇) (n := 4) (by omega)
  refine ⟨⟨front, low, sha, shaEnd, spa, tha, thaEnd, tpa, tail⟩, ?_, hfront, hsha,
    (show 6 + shaEnd.length = hwSize p by omega), hspa, htha,
    (show 6 + thaEnd.length = hwSize p by omega), htpa⟩
  rw [hl₁, Parts.bytes]
  simp only [List.append_assoc, List.cons_append, List.nil_append]

theorem reply_parts {host : Host} {p : List Byte} {q : Parts} (hq : q.Of p)
    (hpSize : pSize p = 4) (hsize : macSize (etherType p) = some (hwSize p))
    (hmac : host.myMac.addr.length = hwSize p) :
    reply host p = .ok (q.answer host.myMac.addr) := by
  obtain ⟨hbytes, hfront, hsha, hshaEnd, hspa, htha, hthaEnd, htpa⟩ := hq
  have hfirst : (q.front ++ [q.low]).length = shaOffset := by
    rw [List.length_append, hfront]
    rfl
  have hthaPlace : ((q.front ++ [q.low]) ++ (q.sha ++ (q.shaEnd ++ q.spa))).length =
      thaOffset p := by
    have hplace : thaOffset p = 8 + hwSize p + pSize p := rfl
    simp only [List.length_append, List.length_singleton]
    omega
  have hspaPlace : (q.front ++ [2] ++ host.myMac.addr).length = spaOffset p := by
    have hplace : spaOffset p = 8 + hwSize p := rfl
    simp only [List.length_append, List.length_singleton]
    omega
  have htpaPlace : ((q.front ++ [2] ++ host.myMac.addr) ++
      (q.spa ++ (q.sha ++ q.thaEnd))).length = tpaOffset p := by
    have hplace : tpaOffset p = 8 + hwSize p + pSize p + hwSize p := rfl
    simp only [List.length_append, List.length_singleton]
    omega
  have hswap : swapMac p shaOffset (thaOffset p) = .ok ((q.front ++ [q.low]) ++ (q.tha ++
      ((q.shaEnd ++ q.spa) ++ (q.sha ++ (q.thaEnd ++ (q.tpa ++ q.tail)))))) := by
    have hsame := congrArg (fun m => swapBytes 6 m shaOffset (thaOffset p)) hbytes
    exact hsame.trans (swapBytes_append hfirst hsha hthaPlace htha)
  have hregroup : (q.front ++ [q.low]) ++ (q.tha ++ ((q.shaEnd ++ q.spa) ++ (q.sha ++ (q.thaEnd ++
      (q.tpa ++ q.tail))))) = (q.front ++ [q.low]) ++ ((q.tha ++ q.shaEnd) ++ (q.spa ++ (q.sha ++
      (q.thaEnd ++ (q.tpa ++ q.tail))))) := by
    simp only [List.append_assoc]
  have hblock : host.myMac.addr.length = (q.tha ++ q.shaEnd).length := by
    rw [List.length_append]
    omega
  have hopcode : (q.front ++ [q.low]) ++ (host.myMac.addr ++ (q.spa ++ (q.sha ++ (q.thaEnd ++
      (q.tpa ++ q.tail))))) = q.front ++ ([q.low] ++ (host.myMac.addr ++ (q.spa ++ (q.sha ++
      (q.thaEnd ++ (q.tpa ++ q.tail)))))) := by
    simp only [List.append_assoc]
  have hone : ([2] : List Byte).length = [q.low].length := rfl
  have hlast : q.front ++ ([2] ++ (host.myMac.addr ++ (q.spa ++ (q.sha ++ (q.thaEnd ++
      (q.tpa ++ q.tail)))))) = (q.front ++ [2] ++ host.myMac.addr) ++ (q.spa ++
      ((q.sha ++ q.thaEnd) ++ (q.tpa ++ q.tail))) := by
    simp only [List.append_assoc]
  rw [reply, hswap, ok_bind, hsize]
  simp only [getInto]
  rw [if_pos hmac.symm, hregroup, storeAt_append hfirst hblock, ok_bind, hopcode,
    storeAt_append hfront hone, ok_bind, hlast]
  exact swapBytes_append hspaPlace hspa htpaPlace htpa

theorem field_eq {p a b c : List Byte} {off n : ℕ} (hp : p = a ++ (b ++ c)) (ha : a.length = off)
    (hb : b.length = n) : field p off n = b := by
  rw [hp, field, List.drop_left' ha, List.take_left' hb]

theorem Parts.Of.endOffset_eq {q : Parts} {p : List Byte} (hq : q.Of p) (hpSize : pSize p = 4) :
    endOffset p = 28 + q.shaEnd.length + q.thaEnd.length := by
  have hlast : endOffset p = 8 + hwSize p + pSize p + hwSize p + pSize p := rfl
  have hsha := hq.shaEnd
  have htha := hq.thaEnd
  omega

theorem be16_eq_one {a b : Byte} (h : be16 a b = 1) : a = 0 := by
  have hnat := congrArg BitVec.toNat h
  rw [be16_toNat] at hnat
  apply BitVec.eq_of_toNat_eq
  simp at hnat ⊢
  omega

/-- The first bytes of the answer, and its tail, are those of the request. -/
theorem answer_getElem? {p mac : List Byte} {q : Parts} (hq : q.Of p) (hpSize : pSize p = 4)
    (hmac : mac.length = hwSize p) {i : ℕ} (hi : i < 7 ∨ endOffset p ≤ i) :
    (q.answer mac)[i]? = p[i]? := by
  have hend := hq.endOffset_eq hpSize
  obtain ⟨hbytes, hfront, hsha, hshaEnd, hspa, htha, hthaEnd, htpa⟩ := hq
  have hp : p = (q.front ++ ([q.low] ++ (q.sha ++ (q.shaEnd ++ (q.spa ++ (q.tha ++ (q.thaEnd ++
      q.tpa))))))) ++ q.tail := by
    rw [hbytes, Parts.bytes]
    simp only [List.append_assoc]
  have hr : q.answer mac = (q.front ++ ([2] ++ (mac ++ (q.tpa ++ (q.sha ++ (q.thaEnd ++
      q.spa)))))) ++ q.tail := by
    rw [Parts.answer]
    simp only [List.append_assoc]
  rcases hi with hi | hi
  · have hanswer : (q.answer mac)[i]? = q.front[i]? := by
      rw [hr, List.append_assoc, List.getElem?_append_left (by omega)]
    have hrequest : p[i]? = q.front[i]? := by
      conv_lhs => rw [hp]
      rw [List.append_assoc, List.getElem?_append_left (by omega)]
    rw [hanswer, hrequest]
  · rw [hr]
    conv_rhs => rw [hp]
    have hleft : (q.front ++ ([2] ++ (mac ++ (q.tpa ++ (q.sha ++ (q.thaEnd ++ q.spa)))))).length =
        endOffset p := by
      simp only [List.length_append, List.length_singleton]
      omega
    have hright : (q.front ++ ([q.low] ++ (q.sha ++ (q.shaEnd ++ (q.spa ++ (q.tha ++ (q.thaEnd ++
        q.tpa))))))).length = endOffset p := by
      simp only [List.length_append, List.length_singleton]
      omega
    rw [List.getElem?_append_right (by omega), List.getElem?_append_right (by omega), hleft, hright]

/-- The answer is right exactly if the bytes of the hardware addresses that are not exchanged were
the same before. -/
theorem isAnswer_answer_iff {host : Host} {p : List Byte} {q : Parts} (hq : q.Of p)
    (hpSize : pSize p = 4) (hrequest : request p = 1)
    (hmac : host.myMac.addr.length = hwSize p) (hme : ipAt p (tpaOffset p) = host.myIp) :
    IsAnswer host p (q.answer host.myMac.addr) ↔ q.thaEnd = q.shaEnd := by
  have hend := hq.endOffset_eq hpSize
  have hkept : ∀ i, i < 7 ∨ endOffset p ≤ i →
      (q.answer host.myMac.addr)[i]? = p[i]? := fun i => answer_getElem? hq hpSize hmac
  obtain ⟨hbytes, hfront, hsha, hshaEnd, hspa, htha, hthaEnd, htpa⟩ := hq
  have hspaPlace : spaOffset p = 8 + hwSize p := rfl
  have hthaPlace : thaOffset p = 8 + hwSize p + pSize p := rfl
  have htpaPlace : tpaOffset p = 8 + hwSize p + pSize p + hwSize p := rfl
  have hpLength : p.length = endOffset p + q.tail.length := by
    have hsum := congrArg List.length hbytes
    simp only [Parts.bytes, List.length_append, List.length_singleton] at hsum
    omega
  -- the fields of the request
  have pSha : field p shaOffset (hwSize p) = q.sha ++ q.shaEnd := by
    have hcut : p = (q.front ++ [q.low]) ++ ((q.sha ++ q.shaEnd) ++ (q.spa ++ (q.tha ++ (q.thaEnd ++
        (q.tpa ++ q.tail))))) := by
      rw [hbytes, Parts.bytes]
      simp only [List.append_assoc]
    exact field_eq hcut (by rw [List.length_append, hfront]; rfl)
      (by rw [List.length_append]; omega)
  have pSpa : field p (spaOffset p) 4 = q.spa := by
    have hcut : p = (q.front ++ [q.low] ++ q.sha ++ q.shaEnd) ++ (q.spa ++ (q.tha ++ (q.thaEnd ++
        (q.tpa ++ q.tail)))) := by
      rw [hbytes, Parts.bytes]
      simp only [List.append_assoc]
    exact field_eq hcut (by simp only [List.length_append, List.length_singleton]; omega) hspa
  have pTpa : field p (tpaOffset p) 4 = q.tpa := by
    have hcut : p = (q.front ++ [q.low] ++ q.sha ++ q.shaEnd ++ q.spa ++ q.tha ++ q.thaEnd) ++
        (q.tpa ++ q.tail) := by
      rw [hbytes, Parts.bytes]
      simp only [List.append_assoc]
    exact field_eq hcut (by simp only [List.length_append, List.length_singleton]; omega) htpa
  have hmyIp : host.myIp.addr = q.tpa := by
    rw [← hme, ← pTpa, field, take_four (by omega)]
    rfl
  -- the fields of the answer
  have rSha : field (q.answer host.myMac.addr) shaOffset (hwSize p) = host.myMac.addr := by
    refine field_eq (a := q.front ++ [2]) (c := q.tpa ++ ((q.sha ++ q.thaEnd) ++ (q.spa ++ q.tail)))
      ?_ (by rw [List.length_append, hfront]; rfl) hmac
    rw [Parts.answer, List.append_assoc]
  have rSpa : field (q.answer host.myMac.addr) (spaOffset p) 4 = q.tpa := by
    refine field_eq (show q.answer host.myMac.addr = (q.front ++ [2] ++ host.myMac.addr) ++
      (q.tpa ++ ((q.sha ++ q.thaEnd) ++ (q.spa ++ q.tail))) from rfl) ?_ htpa
    simp only [List.length_append, List.length_singleton]
    omega
  have rTha : field (q.answer host.myMac.addr) (thaOffset p) (hwSize p) = q.sha ++ q.thaEnd := by
    refine field_eq (a := q.front ++ [2] ++ host.myMac.addr ++ q.tpa) (c := q.spa ++ q.tail)
      ?_ ?_ (by rw [List.length_append]; omega)
    · simp only [Parts.answer, List.append_assoc]
    · simp only [List.length_append, List.length_singleton]
      omega
  have rTpa : field (q.answer host.myMac.addr) (tpaOffset p) 4 = q.spa := by
    refine field_eq (a := q.front ++ [2] ++ host.myMac.addr ++ q.tpa ++ (q.sha ++ q.thaEnd))
      (c := q.tail) ?_ ?_ hspa
    · simp only [Parts.answer, List.append_assoc]
    · simp only [List.length_append, List.length_singleton]
      omega
  have hopcode : request (q.answer host.myMac.addr) = 2 := by
    have hhigh : (q.answer host.myMac.addr).getD 6 0 = 0 := by
      rw [List.getD_eq_getElem?_getD, hkept 6 (.inl (by decide)), ← List.getD_eq_getElem?_getD]
      exact be16_eq_one hrequest
    have hlow : (q.answer host.myMac.addr).getD 7 0 = 2 := by
      rw [List.getD_eq_getElem?_getD, Parts.answer, List.append_assoc, List.append_assoc,
        List.getElem?_append_right (by omega), hfront]
      rfl
    rw [request, hhigh, hlow]
    rfl
  constructor
  · intro h
    have hsame := h.tha
    rw [rTha, pSha] at hsame
    exact List.append_cancel_left hsame
  · intro hsame
    refine ⟨?_, hopcode, rSha, by rw [rSpa, hmyIp], by rw [rTha, pSha, hsame], by rw [rTpa, pSpa],
      fun i hi => hkept i (hi.imp_left fun hlt => by omega)⟩
    rw [hpLength, Parts.answer]
    simp only [List.length_append, List.length_singleton]
    omega

theorem AsksForMe.refused {host : Host} {p : List Byte} (h : AsksForMe host p) :
    refused p = false := by
  have hlast : endOffset p = 8 + hwSize p + Input.pSize p + hwSize p + Input.pSize p := rfl
  have hend := h.complete
  have hsmall : decide (p.length < 6) = false := decide_eq_false (by omega)
  have hlong : decide (p.length < endOffset p) = false := decide_eq_false (by omega)
  rw [Input.refused, hsmall, hlong, h.pSize]
  obtain ⟨hsize, htype, -⟩ | ⟨hsize, htype, -⟩ := h.link
  · rw [hsize, htype]
    rfl
  · rw [hsize, htype]
    rfl

theorem AsksForMe.macSize {host : Host} {p : List Byte} (h : AsksForMe host p) :
    Input.macSize (etherType p) = some (hwSize p) ∧ host.myMac.addr.length = hwSize p ∧
      (hwSize p = 6 ∨ hwSize p = 7) := by
  have hlength := host.myMac.addr_size
  obtain ⟨hsize, htype, hmac⟩ | ⟨hsize, htype, hmac⟩ := h.link
  · rw [hmac] at hlength
    exact ⟨by rw [htype, hsize]; rfl, by rw [hlength, hsize]; rfl, .inl hsize⟩
  · rw [hmac] at hlength
    exact ⟨by rw [htype, hsize]; rfl, by rw [hlength, hsize]; rfl, .inr hsize⟩

theorem input_question {host : Host} (work : AnyAddr → Option (Option AnyAddr)) {pkt : Packet}
    {r : List Byte} (hp : refused pkt.data = false)
    (htha : thaOffset pkt.data + 6 ≤ pkt.data.length)
    (htpa : tpaOffset pkt.data + 4 ≤ pkt.data.length) (hrequest : request pkt.data = 1)
    (hme : ipAt pkt.data (tpaOffset pkt.data) = host.myIp) (hreply : reply host pkt.data = .ok r) :
    ∃ o, input host work pkt = .ok o ∧ o.sent = some ⟨pkt.srcAddr, host.myMac, 0x0806, r⟩ := by
  obtain ⟨o, ho⟩ := input_inside host work hp htha htpa
  rw [ho, answered, if_pos hrequest, if_pos hme, hreply, ok_bind]
  exact ⟨_, rfl, rfl⟩

theorem getD_of_append {p a c : List Byte} {x : Byte} {i : ℕ} (hp : p = a ++ ([x] ++ c))
    (ha : a.length = i) : p.getD i 0 = x := by
  rw [hp, List.getD_eq_getElem?_getD, List.getElem?_append_right (by omega), ha, Nat.sub_self]
  rfl

/-- The seventh bytes of the hardware addresses, if they have one. -/
theorem Parts.Of.ends_eq_iff {p : List Byte} {q : Parts} (hq : q.Of p)
    (hsize : hwSize p = 6 ∨ hwSize p = 7) :
    q.thaEnd = q.shaEnd ↔ (hwSize p = 7 → p.getD 14 0 = p.getD 25 0) := by
  obtain ⟨hbytes, hfront, hsha, hshaEnd, hspa, htha, hthaEnd, htpa⟩ := hq
  rcases hsize with hsix | hseven
  · have hsha0 : q.shaEnd = [] := List.length_eq_zero_iff.mp (by omega)
    have htha0 : q.thaEnd = [] := List.length_eq_zero_iff.mp (by omega)
    exact iff_of_true (by rw [hsha0, htha0]) fun h => absurd h (by omega)
  · obtain ⟨a, ha⟩ := List.length_eq_one_iff.mp (show q.shaEnd.length = 1 by omega)
    obtain ⟨b, hb⟩ := List.length_eq_one_iff.mp (show q.thaEnd.length = 1 by omega)
    have hsender : p.getD 14 0 = a := by
      refine getD_of_append (a := q.front ++ [q.low] ++ q.sha)
        (c := q.spa ++ (q.tha ++ (q.thaEnd ++ (q.tpa ++ q.tail)))) ?_ ?_
      · rw [hbytes, Parts.bytes, ha]
        simp only [List.append_assoc]
      · simp only [List.length_append, List.length_singleton]
        omega
    have htarget : p.getD 25 0 = b := by
      refine getD_of_append (a := q.front ++ [q.low] ++ q.sha ++ q.shaEnd ++ q.spa ++ q.tha)
        (c := q.tpa ++ q.tail) ?_ ?_
      · rw [hbytes, Parts.bytes, hb]
        simp only [List.append_assoc]
      · simp only [List.length_append, List.length_singleton]
        omega
    rw [hsender, htarget, ha, hb, List.cons.injEq]
    exact ⟨fun h _ => h.1.symm, fun h => ⟨(h hseven).symm, rfl⟩⟩

/-- A request for this host is answered rightly exactly if its hardware addresses have 6 bytes, or
the seventh byte of the sender's is that of the target's. -/
theorem answers_iff (host : Host) (work : AnyAddr → Option (Option AnyAddr)) (pkt : Packet)
    (h : AsksForMe host pkt.data) :
    Answers host work pkt ↔
      (hwSize pkt.data = 7 → pkt.data.getD 14 0 = pkt.data.getD 25 0) := by
  obtain ⟨hlisted, hmac, hsize⟩ := h.macSize
  have hlast : endOffset pkt.data =
      8 + hwSize pkt.data + pSize pkt.data + hwSize pkt.data + pSize pkt.data := rfl
  have hthaPlace : thaOffset pkt.data = 8 + hwSize pkt.data + pSize pkt.data := rfl
  have htpaPlace : tpaOffset pkt.data =
      8 + hwSize pkt.data + pSize pkt.data + hwSize pkt.data := rfl
  have hfour := h.pSize
  have hend := h.complete
  obtain ⟨q, hq⟩ := exists_parts (by omega) hfour hend
  have hreply := reply_parts hq hfour hlisted hmac
  obtain ⟨o, ho, hsent⟩ := input_question work h.refused (by omega) (by omega) h.request
    h.forMe hreply
  rw [← hq.ends_eq_iff hsize, ← isAnswer_answer_iff hq hfour h.request hmac h.forMe]
  constructor
  · rintro ⟨o', r, ho', hsent', hr⟩
    obtain rfl := Except.ok.inj (ho.symm.trans ho')
    have hsame := Option.some.inj (hsent.symm.trans hsent')
    rw [(Transmit.mk.inj hsame).2.2.2]
    exact hr
  · exact fun hr => ⟨o, _, ho, hsent, hr⟩

namespace Sample

def ethernet : Host := ⟨⟨.mac, [2, 0, 0, 0, 1, 9], rfl⟩, .ipv4 10 0 0 1⟩

/-- PI1ABC-7, as an AX.25 address. -/
def ax25 : Host := ⟨⟨.ax25, [0xa0, 0x92, 0x62, 0x82, 0x84, 0x86, 0x6e], rfl⟩, .ipv4 10 0 0 1⟩

def packet (data : List Byte) : Packet where
  srcAddr := MacResolver.Sample.mac
  dstAddr := ⟨.mac, List.replicate 6 0xff, rfl⟩
  data := data

/-- 10.0.0.9 asks for 10.0.0.1. -/
def etherRequest : List Byte :=
  [0, 1, 8, 0, 6, 4, 0, 1] ++ [2, 0, 0, 0, 6, 1] ++ [10, 0, 0, 9] ++ List.replicate 6 0 ++
    [10, 0, 0, 1]

/-- The same on AX.25, from PI1XYZ-5. -/
def ax25Request : List Byte :=
  [0, 3, 0, 0xcc, 7, 4, 0, 1] ++ [0xa0, 0x92, 0x62, 0xb0, 0xb2, 0xb4, 0x6a] ++ [10, 0, 0, 9] ++
    List.replicate 7 0 ++ [10, 0, 0, 1]

/-- A reply of an ether type that is not listed. -/
def otherReply : List Byte :=
  [0, 1, 0x86, 0xdd, 6, 4, 0, 2] ++ [2, 0, 0, 0, 6, 1] ++ [10, 0, 0, 9] ++ List.replicate 6 0 ++
    [10, 0, 0, 1]

/-- A packet with hardware addresses of no bytes. -/
def noHardware : List Byte := [0, 1, 8, 0, 0, 4, 0, 1, 10, 0, 0, 9, 10, 0, 0, 1]

theorem etherRequest_asksForMe : AsksForMe ethernet etherRequest :=
  ⟨.inl ⟨rfl, rfl, rfl⟩, rfl, rfl, by decide, rfl⟩

theorem ax25Request_asksForMe : AsksForMe ax25 ax25Request :=
  ⟨.inr ⟨rfl, rfl, rfl⟩, rfl, rfl, by decide, rfl⟩

end Sample

theorem answers_iff_etherRequest :
    Answers Sample.ethernet (fun _ => none) (Sample.packet Sample.etherRequest) ↔
      (hwSize Sample.etherRequest = 7 →
        Sample.etherRequest.getD 14 0 = Sample.etherRequest.getD 25 0) :=
  answers_iff Sample.ethernet (fun _ => none) (Sample.packet Sample.etherRequest)
    Sample.etherRequest_asksForMe

/-- The answer on AX.25 goes to PI1XYZ without its SSID. -/
theorem not_answers_ax25 :
    AsksForMe Sample.ax25 Sample.ax25Request ∧
      (∃ r, reply Sample.ax25 Sample.ax25Request = .ok r ∧
        field r (thaOffset Sample.ax25Request) 7 = [0xa0, 0x92, 0x62, 0xb0, 0xb2, 0xb4, 0]) ∧
      ¬Answers Sample.ax25 (fun _ => none) (Sample.packet Sample.ax25Request) := by
  have hreply : ∃ r, reply Sample.ax25 Sample.ax25Request = .ok r ∧
      field r (thaOffset Sample.ax25Request) 7 = [0xa0, 0x92, 0x62, 0xb0, 0xb2, 0xb4, 0] :=
    ⟨_, rfl, by decide +kernel⟩
  obtain ⟨r, hr, hfield⟩ := hreply
  refine ⟨Sample.ax25Request_asksForMe, ⟨r, hr, hfield⟩, ?_⟩
  rintro ⟨o, r', ho, hsent, hanswer⟩
  have hrefused : refused (Sample.packet Sample.ax25Request).data = false := rfl
  obtain ⟨o', ho', hsent'⟩ := input_question (fun _ => none) hrefused (by decide) (by decide) rfl
    rfl hr
  obtain rfl := Except.ok.inj (ho'.symm.trans ho)
  obtain rfl := (Transmit.mk.inj (Option.some.inj (hsent'.symm.trans hsent))).2.2.2
  have htha : field r (thaOffset Sample.ax25Request) 7 =
      field Sample.ax25Request shaOffset 7 := hanswer.tha
  rw [hfield] at htha
  exact absurd htha (by decide)

/-- A packet that ends too early, a request with the ether type of another link, and a reply of a
type that is not listed while its sender is waited for. -/
theorem input_faults :
    (¬∃ o, input Sample.ethernet (fun _ => none) (Sample.packet Sample.noHardware) = .ok o) ∧
      (¬∃ o, input Sample.ethernet (fun _ => none) (Sample.packet Sample.ax25Request) = .ok o) ∧
      ¬∃ o, input Sample.ethernet (fun _ => some none) (Sample.packet Sample.otherReply) =
        .ok o := by
  have houtside : input Sample.ethernet (fun _ => none) (Sample.packet Sample.noHardware) =
      .error .outside := rfl
  have hmismatch : input Sample.ethernet (fun _ => none) (Sample.packet Sample.ax25Request) =
      .error .sizeMismatch := rfl
  have hnotSet : input Sample.ethernet (fun _ => some none) (Sample.packet Sample.otherReply) =
      .error .notSet := rfl
  refine ⟨?_, ?_, ?_⟩
  · rintro ⟨o, ho⟩
    rw [houtside] at ho
    cases ho
  · rintro ⟨o, ho⟩
    rw [hmismatch] at ho
    cases ho
  · rintro ⟨o, ho⟩
    rw [hnotSet] at ho
    cases ho

end MyIp.Arp.Input
