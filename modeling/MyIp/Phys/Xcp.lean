import MyIp.Foundations.TurnLoop
import MyIp.Phys.Ppp

/-! # PPP, the control protocols

`handle_lcp`, `handle_ipcp`, `handle_ipv6cp` and `handle_ccp` of `phys_gen_ppp`. They are given the
whole packet: four bytes of PPP header, a code, an identifier, a length, the options and the two
bytes of the frame check sequence. Four of the five option loops collect what is to be acknowledged
and what is to be rejected; all five move on by the length byte of the option that they are at, so
they are one `TurnLoop` with different bodies (`optionStep`), and whether such a loop ends is seen
from the length bytes alone (`optionLoop_hangs_iff`).

The calls of `at` throw for an index that is not there; `bin_to_text` and the constructor of
`any_addr` read through a pointer, and what lies behind the packet is then read (`outside`). The
arguments of a log line are computed only when the level is low enough (`logDebug`). -/

namespace MyIp.Phys.Ppp
open Bytes TurnLoop StateTransition
set_option autoImplicit false

/-! ## The link and its environment -/

structure Link where
  settings : Settings
  accmRx : Accm
  accmTx : Accm
  lcpOptionsAcked : Bool
  ipcpOptionsAcked : Bool
  ipv6cpOptionsAcked : Bool
  deriving DecidableEq

/-- What a link does not change: the device, the address for the other side (`main` makes it of four
numbers), the one of the attached IPv4, the level of the log, and what lies in memory behind a
packet. -/
structure Station where
  dev : Device
  opponentAddress : AnyAddr
  opponentAddress_ipv4 : opponentAddress.af = .ipv4
  ipv4Addr : AnyAddr
  ipv4Addr_ipv4 : ipv4Addr.af = .ipv4
  logDebug : Bool
  behind : ℕ → Byte

/-- A call of `transmit_low` and the frame that it writes. -/
structure Sent where
  protocol : BitVec 16
  packet : List Byte
  frame : List Byte
  deriving DecidableEq

def transmitLow (link : Link) (packet : List Byte) (protocol : BitVec 16) : Sent :=
  ⟨protocol, packet, wrapInPppFrame link.settings packet protocol link.accmTx false⟩

/-- How a call ends: it returns (`outside` says whether it read behind the packet), an exception
that nobody catches leaves it, or it does not end. -/
inductive Outcome (α : Type)
  | returns (a : α) (outside : Bool)
  | throws
  | hangs
  deriving DecidableEq

def Outcome.map {α β : Type} (f : α → β) : Outcome α → Outcome β
  | returns a outside => returns (f a) outside
  | throws => throws
  | hangs => hangs

/-! ## The option loop -/

def optionLen (data : List Byte) (offset : ℕ) : ℕ := (data.getD (offset + 1) 0).toNat

/-- What the loops copy of an option. -/
def optionBytes (data : List Byte) (offset : ℕ) : List Byte :=
  (data.drop offset).take (optionLen data offset)

structure Scan (σ : Type) where
  optionsOffset : ℕ
  acc : σ
  outside : Bool

/-- A turn of an option loop. The body is given the place of the option; it gives `none` for an
exception, else what is collected then, and whether it read behind the packet. The line that is
logged first shows as many bytes as the length says, also when the loop is then left for them. -/
def optionStep {σ : Type} (logDebug : Bool) (data : List Byte) (body : ℕ → σ → Option (σ × Bool))
    (s : Scan σ) : Scan σ ⊕ Option (σ × Bool) :=
  if s.optionsOffset < data.length - 2 then
    if data.length - s.optionsOffset < optionLen data s.optionsOffset then
      .inr (some (s.acc, s.outside || logDebug))
    else match body s.optionsOffset s.acc with
      | none => .inr none
      | some (acc, outside) =>
        .inl ⟨s.optionsOffset + optionLen data s.optionsOffset, acc, s.outside || outside⟩
  else .inr (some (s.acc, s.outside))

/-- The options are behind the PPP header and the four bytes of code, identifier and length. -/
def scanStart {σ : Type} (acc : σ) : Scan σ := ⟨8, acc, false⟩

def optionLoop {σ : Type} (logDebug : Bool) (data : List Byte) (body : ℕ → σ → Option (σ × Bool))
    (acc : σ) : Outcome σ :=
  match run (optionStep logDebug data body) data.length (scanStart acc) with
  | none => .hangs
  | some none => .throws
  | some (some (acc, outside)) => .returns acc outside

/-! ## Packets of the control protocols -/

def xcpCode (data : List Byte) : Byte := data.getD 4 0

def xcpIdentifier (data : List Byte) : Byte := data.getD 5 0

def xcpLength (data : List Byte) : ℕ := (be16 (data.getD 6 0) (data.getD 7 0)).toNat

/-- What the four handlers do first: they read the eight bytes with `at`, and a packet that is
shorter than its length says is left alone. -/
def handleXcp {α : Type} (data : List Byte) (ignored : α)
    (handle : Byte → Outcome α) : Outcome α :=
  if data.length < 8 then .throws
  else if data.length < 4 + xcpLength data then .returns ignored false
  else handle (xcpCode data)

def xcpPacket (code identifier : Byte) (data : List Byte) : List Byte :=
  [code, identifier] ++ be16Bytes (BitVec.ofNat 16 (4 + data.length)) ++ data

def sendXcp (link : Link) (code identifier : Byte) (protocol : BitVec 16) (data : List Byte) :
    Sent :=
  transmitLow link (xcpPacket code identifier data) protocol

def sendRej (link : Link) (protocol : BitVec 16) (identifier : Byte) (options : List Byte) : Sent :=
  sendXcp link 4 identifier protocol options

def sendAck (link : Link) (protocol : BitVec 16) (identifier : Byte) (options : List Byte) : Sent :=
  sendXcp link 2 identifier protocol options

def sendNak (link : Link) (protocol : BitVec 16) (identifier : Byte) (options : List Byte) : Sent :=
  sendXcp link 3 identifier protocol options

/-! ## CCP and IPV6CP -/

/-- No option of CCP is known: all are collected for the rejection. -/
def ccpOption (data : List Byte) (offset : ℕ) (rej : List Byte) : Option (List Byte × Bool) :=
  some (rej ++ optionBytes data offset, false)

def handleCcp (st : Station) (link : Link) (data : List Byte) : Outcome (Link × List Sent) :=
  handleXcp data (link, []) fun code =>
    if code = 0x01 then
      (optionLoop st.logDebug data (ccpOption data) []).map fun rej =>
        (link, [if rej ≠ [] then sendRej link 0x80fd (xcpIdentifier data) rej
          else sendAck link 0x80fd (xcpIdentifier data) []])
    else .returns (link, []) false

def ipv6cpOption (data : List Byte) (offset : ℕ) (rej : List Byte) : Option (List Byte × Bool) :=
  if data.getD offset 0 = 0xff then some (rej, false)
  else some (rej ++ optionBytes data offset, false)

def handleIpv6cp (st : Station) (link : Link) (data : List Byte) : Outcome (Link × List Sent) :=
  handleXcp data (link, []) fun code =>
    if code = 0x01 then
      (optionLoop st.logDebug data (ipv6cpOption data) []).map fun rej =>
        (link, [if rej ≠ [] then sendRej link 0x8057 (xcpIdentifier data) rej
          else sendAck link 0x8057 (xcpIdentifier data) []])
    else if code = 0x02 then .returns ({ link with ipv6cpOptionsAcked := true }, []) false
    else .returns (link, []) false

/-! ## IPCP -/

structure IpcpScan where
  ack : List Byte
  rej : List Byte
  sendNakWithNewAddress : Bool

/-- A byte that is read through a pointer into the packet. -/
def rawAt (st : Station) (data : List Byte) (i : ℕ) : Byte :=
  if i < data.length then data.getD i 0 else st.behind (i - data.length)

def ipcpOption (st : Station) (data : List Byte) (offset : ℕ) (s : IpcpScan) :
    Option (IpcpScan × Bool) :=
  if data.getD offset 0 = 0x03 then
    let theirs := [rawAt st data (offset + 2), rawAt st data (offset + 3),
      rawAt st data (offset + 4), rawAt st data (offset + 5)]
    let outside := decide (data.length < offset + 6)
    if theirs = st.opponentAddress.addr then
      some ({ s with ack := s.ack ++ optionBytes data offset }, outside)
    else some ({ s with sendNakWithNewAddress := true }, outside)
  else some ({ s with rej := s.rej ++ optionBytes data offset }, false)

/-- The loop over rejected options looks at nothing but their lengths. -/
def ipcpRejected (_offset : ℕ) (s : Unit) : Option (Unit × Bool) := some (s, false)

def ipcpAnswer (st : Station) (link : Link) (identifier : Byte) (s : IpcpScan) : List Sent :=
  if s.sendNakWithNewAddress then
    [sendNak link 0x8021 identifier ([3, 6] ++ st.opponentAddress.addr)]
  else if s.rej ≠ [] then [sendRej link 0x8021 identifier s.rej]
  else if s.ack ≠ [] then [sendAck link 0x8021 identifier s.ack]
  else []

def ipcpRequest (st : Station) (link : Link) : List Sent :=
  if link.ipcpOptionsAcked = false ∧ st.dev.protMap 0x800 ≠ none then
    [transmitLow link (xcpPacket 1 1 ([3, 6] ++ st.ipv4Addr.addr)) 0x8021]
  else []

def handleIpcp (st : Station) (link : Link) (data : List Byte) : Outcome (Link × List Sent) :=
  handleXcp data (link, []) fun code =>
    if code = 0x01 then
      (optionLoop st.logDebug data (ipcpOption st data) ⟨[], [], false⟩).map fun s =>
        (link, ipcpAnswer st link (xcpIdentifier data) s ++ ipcpRequest st link)
    else if code = 0x02 then .returns ({ link with ipcpOptionsAcked := true }, []) false
    else if code = 0x04 then
      (optionLoop st.logDebug data ipcpRejected ()).map fun _ => (link, [])
    else .returns (link, []) false

/-! ## LCP -/

def magic : BitVec 32 := 0x1234abcd

structure LcpScan where
  ack : List Byte
  rej : List Byte
  link : Link

/-- Entries from the front of a table are overwritten, at most 32. -/
def Accm.load (accm : Accm) (bytes : List Byte) : Accm :=
  Vector.ofFn fun i => bytes.getD i (accm.get i)

/-- The option's length counts its two header bytes, and so many bytes behind them are copied. -/
def lcpAccmBytes (data : List Byte) (offset : ℕ) : List Byte :=
  (data.drop (offset + 2)).take (optionLen data offset)

/-- Where an `at` of the body throws: at a maximum receive unit, when it is logged, and at a table
that is longer than 32 bytes or than the packet. -/
def lcpThrows (st : Station) (data : List Byte) (offset : ℕ) : Prop :=
  (data.getD offset 0 = 1 ∧ st.logDebug = true ∧ data.length ≤ offset + 3) ∨
  (data.getD offset 0 = 2 ∧
    (32 < optionLen data offset ∨ data.length < offset + 2 + optionLen data offset))

instance (st : Station) (data : List Byte) (offset : ℕ) : Decidable (lcpThrows st data offset) :=
  inferInstanceAs (Decidable (_ ∨ _))

def LcpScan.acked (s : LcpScan) (option : List Byte) : LcpScan := { s with ack := s.ack ++ option }

def LcpScan.rejected (s : LcpScan) (option : List Byte) : LcpScan :=
  { s with rej := s.rej ++ option }

def lcpOption (st : Station) (data : List Byte) (offset : ℕ) (s : LcpScan) :
    Option (LcpScan × Bool) :=
  let type := data.getD offset 0
  let option := optionBytes data offset
  if lcpThrows st data offset then none
  else if type = 1 then some (s.acked option, false)
  else if type = 2 then
    let link := { s.link with
      accmRx := s.link.accmRx.load (lcpAccmBytes data offset)
      accmTx := s.link.accmTx.load (lcpAccmBytes data offset) }
    some ({ s with link := link }.acked option, false)
  else if type = 5 then some (s.acked option, false)
  else if type = 7 then
    let link := { s.link with settings := { s.link.settings with protocolCompression := true } }
    some ({ s with link := link }.acked option, false)
  else if type = 8 then
    let link := { s.link with settings := { s.link.settings with acFieldCompression := true } }
    some ({ s with link := link }.acked option, false)
  else
    -- also the callback option, 13; the byte of it that is logged is there
    some (s.rejected option, false)

def lcpAnswer (identifier : Byte) (s : LcpScan) : List Sent :=
  if s.rej ≠ [] then [sendRej s.link 0xc021 identifier s.rej]
  else if s.ack ≠ [] then [sendAck s.link 0xc021 identifier s.ack]
  else []

/-- The options that are asked for: the table as it is now, the magic number, and both
compressions. -/
def lcpRequest (link : Link) : List Sent :=
  if link.lcpOptionsAcked = false then
    [transmitLow link (xcpPacket 1 1 ([2, 6] ++ link.accmRx.toList.take 4 ++
      ([5, 6] ++ be32Bytes magic) ++ [7, 2] ++ [8, 2])) 0xc021]
  else []

/-- The link at the start of the loop. -/
def Link.renegotiating (link : Link) : Link :=
  { link with settings := ⟨false, false⟩, lcpOptionsAcked := false }

def textMyIP : List Byte := [0x4d, 0x79, 0x49, 0x50]

def handleLcp (st : Station) (link : Link) (data : List Byte) : Outcome (Link × List Sent) :=
  handleXcp data (link, []) fun code =>
    if code = 0x01 then
      (optionLoop st.logDebug data (lcpOption st data) ⟨[], [], link.renegotiating⟩).map fun s =>
        (s.link, lcpAnswer (xcpIdentifier data) s ++ lcpRequest s.link)
    else if code = 0x02 then .returns ({ link with lcpOptionsAcked := true }, []) false
    else if code = 0x09 then
      -- the string that is logged has the length less eight, which may not be negative
      if st.logDebug = true ∧ xcpLength data < 8 then .throws
      else .returns (link,
        [transmitLow link ([10, xcpIdentifier data, 0, 8] ++ be32Bytes magic) 0xc021]) false
    else if code = 0x0c then
      if st.logDebug = true ∧ xcpLength data < 8 then .throws
      else .returns (link, [transmitLow link
        ([0x0c, xcpIdentifier data, 0, 12] ++ be32Bytes magic ++ textMyIP) 0xc021]) false
    else .returns (link, []) false

/-! ## The end of the option loops -/

/-- The places that a loop comes to: the first one, and behind an option that is whole and does not
make the body throw. Two bytes before the end of the packet the frame check sequence starts. -/
inductive OptionAt (data : List Byte) (throws : ℕ → Prop) (start : ℕ) : ℕ → Prop
  | first (inside : start < data.length - 2) : OptionAt data throws start start
  | next {o : ℕ} (before : OptionAt data throws start o)
      (whole : optionLen data o ≤ data.length - o) (goesOn : ¬ throws o)
      (inside : o + optionLen data o < data.length - 2) :
      OptionAt data throws start (o + optionLen data o)

theorem OptionAt.inside {data : List Byte} {throws : ℕ → Prop} {start o : ℕ}
    (h : OptionAt data throws start o) : o < data.length - 2 := by
  cases h with
  | first inside => exact inside
  | next _ _ _ inside => exact inside

section Cursor

variable {σ : Type} {logDebug : Bool} {data : List Byte} {body : ℕ → σ → Option (σ × Bool)}
  {throws : ℕ → Prop} [DecidablePred throws]

/-- A turn, as far as the place is concerned. -/
def cursorTurn (data : List Byte) (throws : ℕ → Prop) [DecidablePred throws] (o : ℕ) : Option ℕ :=
  if o < data.length - 2 ∧ optionLen data o ≤ data.length - o ∧ ¬ throws o then
    some (o + optionLen data o)
  else none

theorem cursorTurn_eq_some_iff {o o' : ℕ} : cursorTurn data throws o = some o' ↔
    (o < data.length - 2 ∧ optionLen data o ≤ data.length - o ∧ ¬ throws o) ∧
      o' = o + optionLen data o := by
  rw [cursorTurn, Option.ite_none_right_eq_some, Option.some_inj]
  exact and_congr_right fun _ => eq_comm

theorem optionAt_iff_reaches {start o : ℕ} : OptionAt data throws start o ↔
    Reaches (cursorTurn data throws) start o ∧ o < data.length - 2 := by
  constructor
  · intro h
    refine ⟨?_, h.inside⟩
    induction h with
    | first => exact Relation.ReflTransGen.refl
    | next before whole goesOn _ ih =>
      exact ih.tail (cursorTurn_eq_some_iff.mpr ⟨⟨before.inside, whole, goesOn⟩, rfl⟩)
  · rintro ⟨h, inside⟩
    induction h with
    | refl => exact .first inside
    | tail _ made ih =>
      obtain ⟨⟨before, whole, goesOn⟩, rfl⟩ := cursorTurn_eq_some_iff.mp made
      exact .next (ih before) whole goesOn inside

theorem cursorTurn_moves (o o' : ℕ) (h : cursorTurn data throws o = some o') :
    data.length - o' < data.length - o ∨ o' = o := by
  obtain ⟨⟨inside, -, -⟩, rfl⟩ := cursorTurn_eq_some_iff.mp h
  omega

/-- Whether the body throws is a matter of the place alone. -/
def ThrowsAt (body : ℕ → σ → Option (σ × Bool)) (throws : ℕ → Prop) : Prop :=
  ∀ o acc, body o acc = none ↔ throws o

theorem optionStep_follows (h : ThrowsAt body throws) (s : Scan σ) :
    (goesOn (optionStep logDebug data body) s).map Scan.optionsOffset =
      cursorTurn data throws s.optionsOffset := by
  unfold goesOn optionStep cursorTurn
  by_cases inside : s.optionsOffset < data.length - 2
  · by_cases whole : optionLen data s.optionsOffset ≤ data.length - s.optionsOffset
    · rw [if_pos inside, if_neg (by omega)]
      cases hbody : body s.optionsOffset s.acc with
      | none =>
        rw [if_neg fun hc => hc.2.2 ((h _ _).mp hbody)]
        rfl
      | some r =>
        have hgoes : ¬ throws s.optionsOffset := by
          intro hthrows
          rw [(h _ s.acc).mpr hthrows] at hbody
          cases hbody
        rw [if_pos ⟨inside, whole, hgoes⟩]
        rfl
    · rw [if_pos inside, if_pos (by omega), if_neg fun hc => whole hc.2.1]
      rfl
  · rw [if_neg inside, if_neg fun hc => inside hc.1]
    rfl

/-- No option that the loop comes to has the length zero. -/
def ZeroFree (data : List Byte) (throws : ℕ → Prop) : Prop :=
  ∀ o, OptionAt data throws 8 o → ¬ throws o → optionLen data o ≠ 0

theorem optionStep_ends_iff (h : ThrowsAt body throws) (acc : σ) :
    Ends (goesOn (optionStep logDebug data body)) (scanStart acc) ↔ ZeroFree data throws := by
  rw [ends_map (optionStep_follows h) (scanStart acc),
    ends_iff_moves (fun o => data.length - o) cursorTurn_moves]
  constructor
  · intro hmoves o ho goesOn hzero
    obtain ⟨hreach, inside⟩ := optionAt_iff_reaches.mp ho
    refine hmoves o hreach (cursorTurn_eq_some_iff.mpr ⟨⟨inside, ?_, goesOn⟩, ?_⟩)
    · rw [hzero]
      exact Nat.zero_le _
    · rw [hzero]
      rfl
  · intro hfree o hreach still
    obtain ⟨⟨inside, -, goesOn⟩, hsame⟩ := cursorTurn_eq_some_iff.mp still
    exact hfree o (optionAt_iff_reaches.mpr ⟨hreach, inside⟩) goesOn (by omega)

theorem optionLoop_hangs_iff (h : ThrowsAt body throws) (acc : σ) (header : 8 ≤ data.length) :
    optionLoop logDebug data body acc = .hangs ↔ ¬ ZeroFree data throws := by
  have follows : ∀ s : Scan σ, (goesOn (optionStep logDebug data body) s).map Scan.optionsOffset =
      cursorTurn data throws s.optionsOffset := optionStep_follows h
  have enough : data.length - (scanStart acc).optionsOffset < data.length := by
    show data.length - 8 < data.length
    omega
  have hrun := run_eq_none_iff follows (fun o => data.length - o) cursorTurn_moves enough
  rw [optionStep_ends_iff h acc] at hrun
  rw [← hrun, optionLoop]
  cases run (optionStep logDebug data body) data.length (scanStart acc) with
  | none => simp
  | some r =>
    cases r with
    | none => simp
    | some r => simp

end Cursor

/-! ## The handlers -/

/-- A body without exceptions. -/
def never (_ : ℕ) : Prop := False

instance : DecidablePred never := fun _ => inferInstanceAs (Decidable False)

theorem ccpOption_throws (data : List Byte) : ThrowsAt (ccpOption data) never := by
  intro o rej
  simp [ccpOption, never]

theorem ipv6cpOption_throws (data : List Byte) : ThrowsAt (ipv6cpOption data) never := by
  intro o rej
  unfold ipv6cpOption never
  split <;> simp

theorem ipcpOption_throws (st : Station) (data : List Byte) :
    ThrowsAt (ipcpOption st data) never := by
  intro o s
  unfold ipcpOption never
  dsimp only
  split_ifs <;> simp

theorem ipcpRejected_throws : ThrowsAt ipcpRejected never := by
  intro o s
  simp [ipcpRejected, never]

theorem lcpOption_throws (st : Station) (data : List Byte) :
    ThrowsAt (lcpOption st data) (lcpThrows st data) := by
  intro o s
  unfold lcpOption
  by_cases h : lcpThrows st data o
  · simp [h]
  · rw [if_neg h]
    simp only [h, iff_false]
    split_ifs <;> simp

/-- A handler looks at the code of a packet that is as long as it says. -/
def Entered (data : List Byte) (code : Byte) : Prop :=
  8 ≤ data.length ∧ 4 + xcpLength data ≤ data.length ∧ xcpCode data = code

theorem handleXcp_entered {α : Type} {data : List Byte} {code : Byte} (h : Entered data code)
    (ignored : α) (handle : Byte → Outcome α) : handleXcp data ignored handle = handle code := by
  obtain ⟨header, whole, hcode⟩ := h
  rw [handleXcp, if_neg (by omega), if_neg (by omega), hcode]

/-- A handler hangs if and only if it does for the code of a packet that is not left alone. -/
theorem handleXcp_hangs_iff {α : Type} (data : List Byte) (ignored : α)
    (handle : Byte → Outcome α) :
    handleXcp data ignored handle = .hangs ↔
      ∃ code, Entered data code ∧ handle code = .hangs := by
  constructor
  · intro h
    unfold handleXcp at h
    split at h
    · cases h
    · next header =>
      split at h
      · cases h
      · next whole =>
        exact ⟨xcpCode data, ⟨by omega, by omega, rfl⟩, h⟩
  · rintro ⟨code, entered, h⟩
    rw [handleXcp_entered entered, h]

theorem Outcome.map_hangs_iff {α β : Type} (f : α → β) (o : Outcome α) :
    o.map f = .hangs ↔ o = .hangs := by
  cases o <;> simp [Outcome.map]

/-- Three of the handlers have a loop for the code 1 alone. -/
theorem handleXcp_request_hangs_iff {α : Type} {data : List Byte} {ignored : α}
    {handle : Byte → Outcome α} {throws : ℕ → Prop}
    (request : 8 ≤ data.length → (handle 1 = .hangs ↔ ¬ ZeroFree data throws))
    (others : ∀ code, code ≠ 1 → handle code ≠ .hangs) :
    handleXcp data ignored handle = .hangs ↔ Entered data 1 ∧ ¬ ZeroFree data throws := by
  rw [handleXcp_hangs_iff]
  constructor
  · rintro ⟨code, entered, h⟩
    obtain rfl : code = 1 := by
      by_contra hcode
      exact others code hcode h
    exact ⟨entered, (request entered.1).mp h⟩
  · rintro ⟨entered, h⟩
    exact ⟨1, entered, (request entered.1).mpr h⟩

theorem handleCcp_hangs_iff (st : Station) (link : Link) (data : List Byte) :
    handleCcp st link data = .hangs ↔ Entered data 1 ∧ ¬ ZeroFree data never := by
  refine handleXcp_request_hangs_iff ?_ ?_
  · intro header
    rw [if_pos rfl, Outcome.map_hangs_iff, optionLoop_hangs_iff (ccpOption_throws data) _ header]
  · intro code hcode
    rw [if_neg hcode]
    simp

theorem handleIpv6cp_hangs_iff (st : Station) (link : Link) (data : List Byte) :
    handleIpv6cp st link data = .hangs ↔ Entered data 1 ∧ ¬ ZeroFree data never := by
  refine handleXcp_request_hangs_iff ?_ ?_
  · intro header
    rw [if_pos rfl, Outcome.map_hangs_iff,
      optionLoop_hangs_iff (ipv6cpOption_throws data) _ header]
  · intro code hcode
    rw [if_neg hcode]
    split <;> simp

theorem handleLcp_hangs_iff (st : Station) (link : Link) (data : List Byte) :
    handleLcp st link data = .hangs ↔ Entered data 1 ∧ ¬ ZeroFree data (lcpThrows st data) := by
  refine handleXcp_request_hangs_iff ?_ ?_
  · intro header
    rw [if_pos rfl, Outcome.map_hangs_iff,
      optionLoop_hangs_iff (lcpOption_throws st data) _ header]
  · intro code hcode
    rw [if_neg hcode]
    split_ifs <;> simp

theorem handleIpcp_hangs_iff (st : Station) (link : Link) (data : List Byte) :
    handleIpcp st link data = .hangs ↔
      (Entered data 1 ∨ Entered data 4) ∧ ¬ ZeroFree data never := by
  have request : ∀ header : 8 ≤ data.length, ∀ acc,
      optionLoop st.logDebug data (ipcpOption st data) acc = .hangs ↔ ¬ ZeroFree data never :=
    fun header acc => optionLoop_hangs_iff (ipcpOption_throws st data) acc header
  have reject : ∀ header : 8 ≤ data.length, ∀ acc,
      optionLoop st.logDebug data ipcpRejected acc = .hangs ↔ ¬ ZeroFree data never :=
    fun header acc => optionLoop_hangs_iff ipcpRejected_throws acc header
  rw [handleIpcp, handleXcp_hangs_iff]
  constructor
  · rintro ⟨code, entered, h⟩
    by_cases h1 : code = 0x01
    · subst h1
      rw [if_pos rfl, Outcome.map_hangs_iff, request entered.1] at h
      exact ⟨.inl entered, h⟩
    · rw [if_neg h1] at h
      by_cases h4 : code = 0x04
      · subst h4
        rw [if_neg (by decide), if_pos rfl, Outcome.map_hangs_iff, reject entered.1] at h
        exact ⟨.inr entered, h⟩
      · rw [if_neg h4] at h
        split at h <;> cases h
  · rintro ⟨entered | entered, h⟩
    · refine ⟨1, entered, ?_⟩
      rw [if_pos rfl, Outcome.map_hangs_iff, request entered.1]
      exact h
    · refine ⟨4, entered, ?_⟩
      rw [if_neg (by decide), if_neg (by decide), if_pos rfl, Outcome.map_hangs_iff,
        reject entered.1]
      exact h

/-- The loop of a handler, over all the turns that it needs. -/
def LoopEnds {σ : Type} (st : Station) (data : List Byte) (body : ℕ → σ → Option (σ × Bool))
    (acc : σ) : Prop :=
  Ends (goesOn (optionStep st.logDebug data body)) (scanStart acc)

/-- Each of the five loops ends if and only if it comes to no option of length zero (an option of
LCP at which it throws before may have that length), and the handlers hang at their loops only. -/
theorem option_loops_end_iff (st : Station) (link : Link) (data : List Byte) :
    ((LoopEnds st data (ccpOption data) [] ↔ ZeroFree data never) ∧
      (LoopEnds st data (ipcpOption st data) ⟨[], [], false⟩ ↔ ZeroFree data never) ∧
      (LoopEnds st data ipcpRejected () ↔ ZeroFree data never) ∧
      (LoopEnds st data (ipv6cpOption data) [] ↔ ZeroFree data never) ∧
      (LoopEnds st data (lcpOption st data) ⟨[], [], link.renegotiating⟩ ↔
        ZeroFree data (lcpThrows st data))) ∧
    (handleCcp st link data = .hangs ↔ Entered data 1 ∧ ¬ ZeroFree data never) ∧
    (handleIpcp st link data = .hangs ↔
      (Entered data 1 ∨ Entered data 4) ∧ ¬ ZeroFree data never) ∧
    (handleIpv6cp st link data = .hangs ↔ Entered data 1 ∧ ¬ ZeroFree data never) ∧
    (handleLcp st link data = .hangs ↔
      Entered data 1 ∧ ¬ ZeroFree data (lcpThrows st data)) := by
  refine ⟨⟨?_, ?_, ?_, ?_, ?_⟩, handleCcp_hangs_iff st link data,
    handleIpcp_hangs_iff st link data, handleIpv6cp_hangs_iff st link data,
    handleLcp_hangs_iff st link data⟩
  · exact optionStep_ends_iff (ccpOption_throws data) _
  · exact optionStep_ends_iff (ipcpOption_throws st data) _
  · exact optionStep_ends_iff ipcpRejected_throws _
  · exact optionStep_ends_iff (ipv6cpOption_throws data) _
  · exact optionStep_ends_iff (lcpOption_throws st data) _

/-- A station that is not logging much, and the link as the constructor leaves it. -/
def sampleStation : Station where
  dev := Sample.device
  opponentAddress := .ipv4 192 168 3 2
  opponentAddress_ipv4 := rfl
  ipv4Addr := .ipv4 192 168 3 1
  ipv4Addr_ipv4 := rfl
  logDebug := false
  behind := fun _ => 0

def sampleLink : Link := ⟨⟨false, false⟩, .initial, .initial, false, false, false⟩

/-- A packet with one option, which has nothing but a header with the length zero. -/
def emptyOption (protocol : List Byte) (code type : Byte) : List Byte :=
  [0xff, 0x03] ++ protocol ++ [code, 1, 0, 6, type, 0, 0, 0]

theorem option_of_length_zero_hangs :
    handleLcp sampleStation sampleLink (emptyOption [0xc0, 0x21] 1 5) = .hangs ∧
    handleIpcp sampleStation sampleLink (emptyOption [0x80, 0x21] 1 2) = .hangs ∧
    handleIpcp sampleStation sampleLink (emptyOption [0x80, 0x21] 4 2) = .hangs ∧
    handleIpv6cp sampleStation sampleLink (emptyOption [0x80, 0x57] 1 1) = .hangs ∧
    handleCcp sampleStation sampleLink (emptyOption [0x80, 0xfd] 1 1) = .hangs ∧
    ¬ LoopEnds sampleStation (emptyOption [0xc0, 0x21] 1 5)
      (lcpOption sampleStation (emptyOption [0xc0, 0x21] 1 5))
      ⟨[], [], sampleLink.renegotiating⟩ := by
  refine ⟨by decide +kernel, by decide +kernel, by decide +kernel, by decide +kernel,
    by decide +kernel, ?_⟩
  rw [LoopEnds, optionStep_ends_iff (lcpOption_throws _ _)]
  intro hfree
  exact hfree 8 (.first (by decide)) (by decide) (by decide)

end MyIp.Phys.Ppp
