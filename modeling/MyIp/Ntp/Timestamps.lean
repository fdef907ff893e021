import MyIp.Foundations.Bytes
import MyIp.Net.Layers
import Mathlib.Data.List.GetD

/-! # NTP time stamps

`ntp::input` answers a request, `ntp::operator()` broadcasts (`ntp.cpp`). Both turn microseconds into
the fraction of a second by a multiplication with 4295, which is a little more than `2 ^ 32 / 10 ^ 6`,
and keep 32 bits of the product. -/

namespace MyIp.Ntp
set_option autoImplicit false

open Bytes Net

inductive Fault
  | outside | aborted
  deriving DecidableEq

structure Timespec where
  sec : ℤ
  nsec : ℕ

structure Timeval where
  sec : ℤ
  usec : ℕ

/-- What `gettimeofday` makes of a reading of the clock. -/
def gettimeofday (t : Timespec) : Timeval := ⟨t.sec, t.nsec / 1000⟩

def ntpEpoch : ℤ := 86400 * (365 * 70 + 17)

structure Stamp where
  secs : BitVec 32
  fraq : BitVec 32
  deriving DecidableEq

def Stamp.bytes (s : Stamp) : List Byte := be32Bytes s.secs ++ be32Bytes s.fraq

def Stamp.value (s : Stamp) : ℕ := s.secs.toNat * 2 ^ 32 + s.fraq.toNat

/-- The stamps of `input`: `htonl` keeps the low 32 bits. -/
def stampTimespec (t : Timespec) : Stamp :=
  ⟨BitVec.ofInt 32 (t.sec + ntpEpoch), BitVec.ofNat 32 (t.nsec / 1000 * 4295)⟩

/-- The stamps of the broadcast. -/
def stampTimeval (t : Timeval) : Stamp :=
  ⟨BitVec.ofInt 32 (t.sec + ntpEpoch), BitVec.ofNat 32 (t.usec * 4295)⟩

/-! ## Messages -/

/-- `sntp_datagram`, its three small fields first. The stamps are in host order here. -/
structure SntpDatagram where
  li : ℕ
  vn : ℕ
  mode : ℕ
  stratum : Byte
  poll : Byte
  precision : Byte
  rootDelay : BitVec 32
  rootDispersion : BitVec 32
  referenceIdentifier : List Byte
  reference : Stamp
  originate : Stamp
  receive : Stamp
  transmit : Stamp

/-- The first 16 bytes; `root_delay` and `root_dispersion` are not put into network order. -/
def SntpDatagram.head (m : SntpDatagram) : List Byte :=
  [BitVec.ofNat 8 (m.mode + 8 * m.vn + 64 * m.li), m.stratum, m.poll, m.precision] ++
    (be32Bytes m.rootDelay).reverse ++ (be32Bytes m.rootDispersion).reverse ++ m.referenceIdentifier

def SntpDatagram.bytes (m : SntpDatagram) : List Byte :=
  m.head ++ m.reference.bytes ++ m.originate.bytes ++ m.receive.bytes ++ m.transmit.bytes

structure Host where
  myIp : AnyAddr
  upstreamNtpServer : AnyAddr

structure Request where
  srcIp : AnyAddr
  srcPort : ℤ
  dstIp : AnyAddr
  dstPort : ℤ
  data : List Byte

/-- `upstream_ntp_server.get(…, 4)` asserts the size of the address. -/
def Host.identifier (host : Host) : Except Fault (List Byte) :=
  if host.upstreamNtpServer.addr.length = 4 then .ok host.upstreamNtpServer.addr else .error .aborted

/-- The stamp in the 8 bytes from `off` on. -/
def stampAt (p : List Byte) (off : ℕ) : Stamp :=
  ⟨be32 (p.getD off 0) (p.getD (off + 1) 0) (p.getD (off + 2) 0) (p.getD (off + 3) 0),
    be32 (p.getD (off + 4) 0) (p.getD (off + 5) 0) (p.getD (off + 6) 0) (p.getD (off + 7) 0)⟩

/-- `transmit_timestamp_…` of the request; only 8 bytes of it were checked to be there. -/
def transmitOf (data : List Byte) : Except Fault Stamp :=
  if data.length < 48 then .error .outside else .ok (stampAt data 40)

def reply (identifier : List Byte) (originate : Stamp) (recvNow now : Timespec) : SntpDatagram where
  li := 0
  vn := 3
  mode := 4
  stratum := 2
  poll := 16
  precision := BitVec.ofInt 8 (-18)
  rootDelay := 369098752
  rootDispersion := 369098752
  referenceIdentifier := identifier
  reference := stampTimespec now
  originate := originate
  receive := stampTimespec recvNow
  transmit := stampTimespec now

/-- `ntp::input`, for a packet that came at `recvNow` and a clock that shows `now`. -/
def input (host : Host) (p : Request) (recvNow now : Timespec) : Except Fault (Option UdpTransmit) :=
  if p.dstIp ≠ host.myIp then .ok none
  else if p.data.length < 8 then .ok none
  else if (p.data.getD 0 0).toNat % 8 = 3 then do
    let identifier ← host.identifier
    let originate ← transmitOf p.data
    return some ⟨p.srcIp, p.srcPort, p.dstIp, p.dstPort, (reply identifier originate recvNow now).bytes⟩
  else .ok none

def announcement (identifier : List Byte) (nowtv : Timeval) : SntpDatagram where
  li := 0
  vn := 3
  mode := 5
  stratum := 2
  poll := 16
  precision := BitVec.ofInt 8 (-18)
  rootDelay := 1
  rootDispersion := 1
  referenceIdentifier := identifier
  reference := stampTimeval nowtv
  originate := ⟨0, 0⟩
  receive := ⟨0, 0⟩
  transmit := stampTimeval nowtv

/-- One turn of `ntp::operator()`. -/
def broadcast (host : Host) (nowtv : Timeval) : Except Fault UdpTransmit := do
  let identifier ← host.identifier
  return ⟨.ipv4 224 0 1 1, 123, host.myIp, 123, (announcement identifier nowtv).bytes⟩

/-! ## Which stamps are computed -/

/-- The stamp is sent for that reading of the clock, by one of the two. -/
inductive Computed (t : Timespec) : Stamp → Prop
  | receive {host : Host} {p : Request} {now : Timespec} {call : UdpTransmit}
      (sent : input host p t now = .ok (some call)) : Computed t (stampAt call.payload 32)
  | reference {host : Host} {p : Request} {recvNow : Timespec} {call : UdpTransmit}
      (sent : input host p recvNow t = .ok (some call)) : Computed t (stampAt call.payload 16)
  | transmit {host : Host} {p : Request} {recvNow : Timespec} {call : UdpTransmit}
      (sent : input host p recvNow t = .ok (some call)) : Computed t (stampAt call.payload 40)
  | broadcastReference {host : Host} {call : UdpTransmit}
      (sent : broadcast host (gettimeofday t) = .ok call) : Computed t (stampAt call.payload 16)
  | broadcastTransmit {host : Host} {call : UdpTransmit}
      (sent : broadcast host (gettimeofday t) = .ok call) : Computed t (stampAt call.payload 40)

def Timespec.IsReading (t : Timespec) : Prop := t.nsec < 10 ^ 9

instance : LE Timespec := ⟨fun t₁ t₂ => t₁.sec < t₂.sec ∨ t₁.sec = t₂.sec ∧ t₁.nsec ≤ t₂.nsec⟩

/-- Number of the NTP era: the seconds have 32 bits. -/
def Timespec.era (t : Timespec) : ℤ := (t.sec + ntpEpoch) / 2 ^ 32

/-- The fraction is the part of the second up to less than 10 microseconds. -/
def Stamp.Near (s : Stamp) (t : Timespec) : Prop :=
  |(s.fraq.toNat : ℚ) / 2 ^ 32 - (t.nsec : ℚ) / 10 ^ 9| < 10 / 10 ^ 6

theorem stampAt_append (before : List Byte) (s : Stamp) (rest : List Byte) :
    stampAt (before ++ s.bytes ++ rest) before.length = s := by
  have byte : ∀ k, (before ++ s.bytes ++ rest).getD (before.length + k) 0 =
      (s.bytes ++ rest).getD k 0 := by
    intro k
    rw [List.append_assoc, List.getD_append_right _ _ _ _ (Nat.le_add_right _ _),
      Nat.add_sub_cancel_left]
  have first := byte 0
  rw [Nat.add_zero] at first
  rw [stampAt, byte, byte, byte, byte, byte, byte, byte, first]
  change Stamp.mk (be32 _ _ _ _) (be32 _ _ _ _) = s
  exact congrArg₂ Stamp.mk (be32_be32Bytes s.secs) (be32_be32Bytes s.fraq)

@[simp] theorem Stamp.bytes_length (s : Stamp) : s.bytes.length = 8 := rfl

theorem SntpDatagram.head_length {m : SntpDatagram} (h : m.referenceIdentifier.length = 4) :
    m.head.length = 16 := by
  simp [head, h]

theorem reference_at {m : SntpDatagram} (h : m.referenceIdentifier.length = 4) :
    stampAt m.bytes 16 = m.reference := by
  have hat := stampAt_append m.head m.reference (m.originate.bytes ++ m.receive.bytes ++ m.transmit.bytes)
  rw [SntpDatagram.head_length h] at hat
  simpa only [SntpDatagram.bytes, List.append_assoc] using hat

theorem receive_at {m : SntpDatagram} (h : m.referenceIdentifier.length = 4) :
    stampAt m.bytes 32 = m.receive := by
  have hat := stampAt_append (m.head ++ m.reference.bytes ++ m.originate.bytes) m.receive m.transmit.bytes
  simpa only [List.length_append, SntpDatagram.head_length h, Stamp.bytes_length,
    SntpDatagram.bytes] using hat

theorem transmit_at {m : SntpDatagram} (h : m.referenceIdentifier.length = 4) :
    stampAt m.bytes 40 = m.transmit := by
  have hat := stampAt_append (m.head ++ m.reference.bytes ++ m.originate.bytes ++ m.receive.bytes)
    m.transmit []
  simpa only [List.length_append, SntpDatagram.head_length h, Stamp.bytes_length,
    SntpDatagram.bytes, List.append_nil] using hat

theorem Host.identifier_length {host : Host} {identifier : List Byte}
    (h : host.identifier = .ok identifier) : identifier.length = 4 := by
  unfold Host.identifier at h
  split at h
  case isTrue h4 =>
    obtain rfl := Except.ok.inj h
    exact h4
  case isFalse => cases h

/-- What a call of `input` carries. -/
theorem input_sent {host : Host} {p : Request} {recvNow now : Timespec} {call : UdpTransmit}
    (h : input host p recvNow now = .ok (some call)) :
    ∃ identifier originate, identifier.length = 4 ∧
      call.payload = (reply identifier originate recvNow now).bytes := by
  unfold input at h
  split at h
  · cases h
  split at h
  · cases h
  split at h
  · cases hid : host.identifier with
    | error fault => rw [hid] at h; cases h
    | ok identifier =>
      cases hor : transmitOf p.data with
      | error fault => rw [hid, hor] at h; cases h
      | ok originate =>
        rw [hid, hor] at h
        obtain rfl := Option.some.inj (Except.ok.inj h)
        exact ⟨identifier, originate, Host.identifier_length hid, rfl⟩
  · cases h

theorem broadcast_sent {host : Host} {nowtv : Timeval} {call : UdpTransmit}
    (h : broadcast host nowtv = .ok call) :
    ∃ identifier, identifier.length = 4 ∧ call.payload = (announcement identifier nowtv).bytes := by
  unfold broadcast at h
  cases hid : host.identifier with
  | error fault => rw [hid] at h; cases h
  | ok identifier =>
    rw [hid] at h
    obtain rfl := Except.ok.inj h
    exact ⟨identifier, Host.identifier_length hid, rfl⟩

/-- The address 192.0.2.1 for everything. -/
def sampleHost : Host := ⟨.ipv4 192 0 2 1, .ipv4 192 0 2 1⟩

theorem computed_iff {t : Timespec} {s : Stamp} : Computed t s ↔ s = stampTimespec t := by
  constructor
  · intro h
    cases h with
    | receive sent =>
      obtain ⟨identifier, originate, h4, hp⟩ := input_sent sent
      rw [hp]
      exact receive_at h4
    | reference sent =>
      obtain ⟨identifier, originate, h4, hp⟩ := input_sent sent
      rw [hp]
      exact reference_at h4
    | transmit sent =>
      obtain ⟨identifier, originate, h4, hp⟩ := input_sent sent
      rw [hp]
      exact transmit_at h4
    | broadcastReference sent =>
      obtain ⟨identifier, h4, hp⟩ := broadcast_sent sent
      rw [hp]
      exact reference_at h4
    | broadcastTransmit sent =>
      obtain ⟨identifier, h4, hp⟩ := broadcast_sent sent
      rw [hp]
      exact transmit_at h4
  · intro h
    have hcall : broadcast sampleHost (gettimeofday t) = .ok _ := rfl
    have hsent := Computed.broadcastTransmit hcall
    rw [transmit_at rfl] at hsent
    rw [h]
    exact hsent

/-! ## Order and error -/

theorem secs_of_era {t₁ t₂ : Timespec} (era : t₁.era = t₂.era) (h : t₁.sec ≤ t₂.sec) :
    ((stampTimespec t₁).secs.toNat : ℤ) + (t₂.sec - t₁.sec) = (stampTimespec t₂).secs.toNat := by
  simp only [Timespec.era, ntpEpoch, stampTimespec, BitVec.toNat_ofInt] at *
  omega

/-- The product does not wrap: 999992 microseconds are the most for which it has 32 bits. -/
theorem fraq_of_lt {t : Timespec} (h : t.nsec < 999993000) :
    (stampTimespec t).fraq.toNat = t.nsec / 1000 * 4295 := by
  simp only [stampTimespec, BitVec.toNat_ofNat]
  omega

theorem fraq_of_ge {t : Timespec} (hr : t.IsReading) (h : 999993000 ≤ t.nsec) :
    (stampTimespec t).fraq.toNat < 30000 := by
  have hproduct : 2 ^ 32 ≤ t.nsec / 1000 * 4295 ∧ t.nsec / 1000 * 4295 < 2 ^ 32 + 30000 := by
    unfold Timespec.IsReading at hr
    omega
  obtain ⟨k, hk⟩ := Nat.exists_eq_add_of_le hproduct.1
  have hk' : k < 30000 := by omega
  rw [stampTimespec, BitVec.toNat_ofNat, hk, Nat.add_mod_left]
  exact (Nat.mod_le k _).trans_lt hk'

theorem near_iff_nat (s : Stamp) (t : Timespec) :
    s.Near t ↔ s.fraq.toNat * 10 ^ 9 < (t.nsec + 10000) * 2 ^ 32 ∧
      t.nsec * 2 ^ 32 < s.fraq.toNat * 10 ^ 9 + 10000 * 2 ^ 32 := by
  have hcast : s.Near t ↔ ((s.fraq.toNat : ℚ) * 10 ^ 9 < (t.nsec + 10000) * 2 ^ 32 ∧
      (t.nsec : ℚ) * 2 ^ 32 < s.fraq.toNat * 10 ^ 9 + 10000 * 2 ^ 32) := by
    rw [Stamp.Near, abs_lt]
    constructor
    · rintro ⟨hlow, hhigh⟩
      constructor <;> linarith
    · rintro ⟨hhigh, hlow⟩
      constructor <;> linarith
  rw [hcast]
  exact_mod_cast Iff.rfl

theorem near_iff {t : Timespec} (hr : t.IsReading) :
    (stampTimespec t).Near t ↔ t.nsec < 999993000 := by
  rw [near_iff_nat]
  constructor
  · rintro ⟨-, hlow⟩
    by_contra hge
    have := fraq_of_ge hr (not_lt.mp hge)
    omega
  · intro h
    rw [fraq_of_lt h]
    omega

/-- Stamps of readings that do not wrap are ordered as the readings are. -/
theorem value_le {t₁ t₂ : Timespec} (hle : t₁ ≤ t₂) (era : t₁.era = t₂.era)
    (h₁ : t₁.nsec < 999993000) (h₂ : t₂.nsec < 999993000) :
    (stampTimespec t₁).value ≤ (stampTimespec t₂).value := by
  have hfraq₁ := (stampTimespec t₁).fraq.isLt
  rw [Stamp.value, Stamp.value]
  obtain hsec | ⟨hsec, hnsec⟩ := hle
  · have hsecs := secs_of_era era hsec.le
    omega
  · have hsecs := secs_of_era era hsec.le
    rw [fraq_of_lt h₁, fraq_of_lt h₂]
    have hdiv : t₁.nsec / 1000 ≤ t₂.nsec / 1000 := Nat.div_le_div_right hnsec
    omega

/-- Whatever stamps are computed for the two readings: they are in order and near. -/
def Faithful (t₁ t₂ : Timespec) : Prop :=
  ∀ s₁ s₂, Computed t₁ s₁ → Computed t₂ s₂ → s₁.value ≤ s₂.value ∧ s₁.Near t₁ ∧ s₂.Near t₂

/-- The stamps are right as long as both readings are below the 999993rd microsecond of their second. -/
theorem stamps_faithful_iff {t₁ t₂ : Timespec} (h₁ : t₁.IsReading) (h₂ : t₂.IsReading) (hle : t₁ ≤ t₂)
    (era : t₁.era = t₂.era) :
    Faithful t₁ t₂ ↔ t₁.nsec < 999993000 ∧ t₂.nsec < 999993000 := by
  constructor
  · intro h
    obtain ⟨-, hnear₁, hnear₂⟩ := h _ _ (computed_iff.mpr rfl) (computed_iff.mpr rfl)
    exact ⟨(near_iff h₁).mp hnear₁, (near_iff h₂).mp hnear₂⟩
  · rintro ⟨hlt₁, hlt₂⟩ s₁ s₂ hs₁ hs₂
    obtain rfl := computed_iff.mp hs₁
    obtain rfl := computed_iff.mp hs₂
    exact ⟨value_le hle era hlt₁ hlt₂, (near_iff h₁).mpr hlt₁, (near_iff h₂).mpr hlt₂⟩

/-- Half a second apart, in one era. -/
theorem faithful_half_second :
    Faithful ⟨1700000000, 250000000⟩ ⟨1700000000, 750000000⟩ :=
  (@stamps_faithful_iff ⟨1700000000, 250000000⟩ ⟨1700000000, 750000000⟩ (by norm_num [Timespec.IsReading])
    (by norm_num [Timespec.IsReading]) (.inr ⟨rfl, by decide⟩) rfl).mpr ⟨by decide, by decide⟩

/-- A microsecond before the end of the second the fraction starts at 0 again: the time goes back by
almost a second. -/
theorem last_microsecond_goes_back :
    ¬∀ t₁ t₂ : Timespec, t₁.IsReading → t₂.IsReading → t₁ ≤ t₂ → t₁.era = t₂.era →
      Faithful t₁ t₂ := by
  intro h
  have hbad := h ⟨1700000000, 500000000⟩ ⟨1700000000, 999999000⟩
    (by norm_num [Timespec.IsReading]) (by norm_num [Timespec.IsReading]) (.inr ⟨rfl, by decide⟩) rfl
  obtain ⟨hvalue, -⟩ := hbad _ _ (computed_iff.mpr rfl) (computed_iff.mpr rfl)
  revert hvalue
  decide

end MyIp.Ntp
