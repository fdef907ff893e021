import MyIp.Dns.Request
import MyIp.Net.Layers
import Mathlib.Data.List.TakeWhile

/-! # Announcements

Every five seconds `mdns::operator()` (`mdns.cpp`) puts four records into a buffer of 256 bytes, one
builder after the other, and sends them. The header was written before that: it says that there are
three. -/

namespace MyIp.Mdns
set_option autoImplicit false

open Bytes Net Dns

inductive Fault
  | outside | aborted
  deriving DecidableEq

/-! ## Builders -/

/-- A size byte, and `sprintf` with `%s` of `c_str()`. The 0 that `sprintf` puts behind is written over
by what comes next. -/
def part (p : Name) : List Byte := BitVec.ofNat 8 p.length :: p.takeWhile (· ≠ 0)

def ttl : BitVec 32 := 5

/-- Type, class and `ttl`. -/
def kind (type dnsClass : BitVec 16) : List Byte :=
  be16Bytes type ++ be16Bytes dnsClass ++ be32Bytes ttl

def localPart : Name := [0x6c, 0x6f, 0x63, 0x61, 0x6c]

def addPtr (name : List Name) : List Byte :=
  let dataLen := 1 + (name.map fun p => p.length + 1).sum
  (name.drop 1).flatMap part ++ [0] ++ kind 12 1 ++ be16Bytes (BitVec.ofNat 16 dataLen) ++
    (name.flatMap part ++ [0])

def addTxt (name : List Name) : List Byte :=
  name.flatMap part ++ [0] ++ kind 16 0x8001 ++ be16Bytes 0

/-- `name.at(0)` throws where there is no part. -/
def addSrv (name : List Name) (port : ℤ) : Except Fault (List Byte) :=
  match name with
  | [] => .error .aborted
  | first :: _ =>
    let dataLen := 2 + 2 + 2 + 1 + first.length + 1 + 5 + 1
    .ok (name.flatMap part ++ [0] ++ kind 33 0x8001 ++ be16Bytes (BitVec.ofNat 16 dataLen) ++
      (be16Bytes 0 ++ be16Bytes 0 ++ be16Bytes (BitVec.ofInt 16 port) ++
        (part first ++ part localPart ++ [0])))

def addA (name : List Name) (a : AnyAddr) : Except Fault (List Byte) :=
  match name with
  | [] => .error .aborted
  | first :: _ =>
    .ok (part first ++ part localPart ++ [0] ++ kind 1 0x8001 ++
      be16Bytes (BitVec.ofNat 16 a.addr.length) ++ a.addr)

/-- No questions, "3 answers". -/
def responseHeader : List Byte := [0, 0, 0x84, 0, 0, 0, 0, 3, 0, 0, 0, 0]

/-- `protocols` has one of these for each service; `address` is the one of its interface. -/
structure Entry where
  address : AnyAddr
  port : ℤ
  hostname : Name

/-- The name up to a dot at its end. `hostname[last_char]` is outside an empty one. -/
def stripped (hostname : Name) : Except Fault Name :=
  match hostname.getLast? with
  | none => .error .outside
  | some last => .ok (if last = dot then hostname.dropLast else hostname)

/-- A turn of the loop over `protocols`. Nothing compares `ro` to the size of the buffer: more than 256
bytes are written outside of it. -/
def announce (tgt : Entry) : Except Fault UdpTransmit := do
  let hostname ← stripped tgt.hostname
  let name := split hostname dot
  let srv ← addSrv name tgt.port
  let a ← addA name tgt.address
  let message := responseHeader ++ addPtr name ++ addTxt name ++ srv ++ a
  if message.length ≤ 256 then return ⟨.ipv4 224 0 0 251, 5353, tgt.address, 5353, message⟩
  else throw .outside

/-! ## What a message is -/

/-- What is behind the ten bytes and the data: the last two of the ten say how long the data is. -/
def skipFixed (fixed : List Byte) : Option (List Byte) :=
  let rdLength := (be16 (fixed.getD 8 0) (fixed.getD 9 0)).toNat
  if fixed.length < 10 + rdLength then none else some (fixed.drop (10 + rdLength))

/-- The rest of the message behind a resource record. -/
def skipRecord (buffer : List Byte) : Option (List Byte) := do
  let (_, n, _) ← nameLoop buffer.length buffer
  skipFixed (buffer.drop n)

def skipRecords : ℕ → List Byte → Option (List Byte)
  | 0, buffer => some buffer
  | n + 1, buffer => (skipRecord buffer).bind (skipRecords n)

def ancount (message : List Byte) : ℕ := (be16 (message.getD 6 0) (message.getD 7 0)).toNat

/-- As many records as the header says, and nothing behind. -/
def WellFormed (message : List Byte) : Prop :=
  12 ≤ message.length ∧ skipRecords (ancount message) (message.drop 12) = some []

def Announced (sent : Except Fault UdpTransmit) : Prop :=
  ∃ call, sent = .ok call ∧ WellFormed call.payload ∧ call.payload.length ≤ 256

/-- A label as the configuration can have it: names are C strings there. -/
structure HostLabel extends Label where
  noDot : dot ∉ bytes
  noNul : 0 ∉ bytes

/-- The labels with dots between them, and with one at the end if `full`. -/
def hostName (ls : List HostLabel) (full : Bool) : Name :=
  [dot].intercalate (ls.map fun l => l.bytes) ++ if full then [dot] else []

/-! ## Records -/

structure Record where
  owner : List Label
  type : BitVec 16
  dnsClass : BitVec 16
  data : List Byte

def Record.wire (r : Record) : List Byte :=
  labelsWire r.owner ++ 0 :: (kind r.type r.dnsClass ++ be16Bytes (BitVec.ofNat 16 r.data.length) ++
    r.data)

theorem skipFixed_append (type dnsClass : BitVec 16) {data : List Byte} (h : data.length < 65536)
    (rest : List Byte) :
    skipFixed (kind type dnsClass ++ be16Bytes (BitVec.ofNat 16 data.length) ++ data ++ rest) =
      some rest := by
  have hten : (kind type dnsClass ++ be16Bytes (BitVec.ofNat 16 data.length)).length = 10 := rfl
  have hlength : (be16 ((BitVec.ofNat 16 data.length >>> 8).setWidth 8)
      ((BitVec.ofNat 16 data.length).setWidth 8)).toNat = data.length := by
    rw [be16_be16Bytes, toNat_ofNat_of_lt h]
  generalize hhead : kind type dnsClass ++ be16Bytes (BitVec.ofNat 16 data.length) = head at hten
  have hhigh : (head ++ data ++ rest).getD 8 0 = (BitVec.ofNat 16 data.length >>> 8).setWidth 8 := by
    rw [← hhead]
    rfl
  have hlow : (head ++ data ++ rest).getD 9 0 = (BitVec.ofNat 16 data.length).setWidth 8 := by
    rw [← hhead]
    rfl
  have hbehind : (head ++ data).length = 10 + data.length := by
    rw [List.length_append, hten]
  have hlong : ¬(head ++ data ++ rest).length < 10 + data.length := by
    rw [List.length_append, hbehind]
    omega
  rw [skipFixed, hhigh, hlow, hlength, if_neg hlong, ← hbehind, List.drop_left]

theorem skipRecord_wire {r : Record} (h : r.data.length < 65536) (rest : List Byte) :
    skipRecord (r.wire ++ rest) = some rest := by
  have hwire : r.wire ++ rest = labelsWire r.owner ++ 0 :: (kind r.type r.dnsClass ++
      be16Bytes (BitVec.ofNat 16 r.data.length) ++ r.data ++ rest) := by
    simp only [Record.wire, List.append_assoc, List.cons_append]
  have hname := nameLoop_of_segmentAt (SegmentAt.ends hwire)
  have hdrop : (r.wire ++ rest).drop ((labelsWire r.owner).length + 1) =
      kind r.type r.dnsClass ++ be16Bytes (BitVec.ofNat 16 r.data.length) ++ r.data ++ rest := by
    rw [hwire, List.drop_append, List.drop_eq_nil_of_le (Nat.le_succ _), Nat.add_sub_cancel_left]
    rfl
  rw [skipRecord, hname, Option.bind_eq_bind, Option.bind_some]
  dsimp only
  rw [hdrop]
  exact skipFixed_append r.type r.dnsClass h rest

/-- The parts of a name that is made of labels are written as labels. -/
theorem part_eq_wire (l : HostLabel) : part l.bytes = l.wire := by
  have hall : l.bytes.takeWhile (· ≠ 0) = l.bytes := by
    apply List.takeWhile_eq_self_iff.mpr
    intro b hb
    rw [decide_eq_true_iff]
    rintro rfl
    exact l.noNul hb
  rw [part, hall, Label.wire]

def labels (ls : List HostLabel) : List Label := ls.map HostLabel.toLabel

theorem flatMap_part (ls : List HostLabel) :
    (ls.map fun l => l.bytes).flatMap part = labelsWire (labels ls) := by
  rw [labelsWire, labels, List.flatMap_map, List.flatMap_map]
  apply List.flatMap_congr
  exact fun l _ => part_eq_wire l

theorem labelsWire_length (ls : List HostLabel) :
    (labelsWire (labels ls)).length = ((ls.map fun l => l.bytes).map fun p => p.length + 1).sum := by
  rw [labelsWire, labels, List.length_flatMap, List.map_map, List.map_map]
  rfl

def localLabel : Label := ⟨localPart, by decide, by decide⟩

def ptr (ls : List HostLabel) : Record := ⟨labels (ls.drop 1), 12, 1, labelsWire (labels ls) ++ [0]⟩

def txt (ls : List HostLabel) : Record := ⟨labels ls, 16, 0x8001, []⟩

def srv (l : HostLabel) (ls : List HostLabel) (port : ℤ) : Record :=
  ⟨labels (l :: ls), 33, 0x8001, be16Bytes 0 ++ be16Bytes 0 ++ be16Bytes (BitVec.ofInt 16 port) ++
    (labelsWire [l.toLabel, localLabel] ++ [0])⟩

def a (l : HostLabel) (addr : AnyAddr) : Record :=
  ⟨[l.toLabel, localLabel], 1, 0x8001, addr.addr⟩

theorem addPtr_eq (ls : List HostLabel) : addPtr (ls.map fun l => l.bytes) = (ptr ls).wire := by
  have hlength : 1 + ((ls.map fun l => l.bytes).map fun p => p.length + 1).sum =
      (labelsWire (labels ls) ++ [0]).length := by
    rw [List.length_append, labelsWire_length, List.length_singleton, Nat.add_comm]
  rw [addPtr, ← List.map_drop, flatMap_part, flatMap_part, hlength]
  simp only [ptr, Record.wire, List.append_assoc, List.cons_append, List.nil_append]

theorem addTxt_eq (ls : List HostLabel) : addTxt (ls.map fun l => l.bytes) = (txt ls).wire := by
  rw [addTxt, flatMap_part]
  simp only [txt, Record.wire, List.append_assoc, List.cons_append, List.nil_append, List.append_nil]
  rfl

theorem part_localPart : part localPart = localLabel.wire := by decide

theorem addSrv_eq (l : HostLabel) (ls : List HostLabel) (port : ℤ) :
    addSrv ((l :: ls).map fun l => l.bytes) port = .ok (srv l ls port).wire := by
  have hname : part l.bytes ++ part localPart ++ [0] = labelsWire [l.toLabel, localLabel] ++ [0] := by
    rw [part_eq_wire, part_localPart, labelsWire]
    simp
  have hlength : 2 + 2 + 2 + 1 + l.bytes.length + 1 + 5 + 1 = (srv l ls port).data.length := by
    simp only [srv, labelsWire, List.flatMap_cons, List.flatMap_nil, Label.wire, List.length_append,
      List.length_cons, List.length_nil, be16Bytes_length, localLabel, localPart]
    omega
  have hparts := flatMap_part (l :: ls)
  rw [List.map_cons] at hparts ⊢
  rw [addSrv, hparts, hname, hlength]
  simp only [srv, Record.wire, List.append_assoc, List.cons_append, List.nil_append]

theorem addA_eq (l : HostLabel) (ls : List HostLabel) (addr : AnyAddr) :
    addA ((l :: ls).map fun l => l.bytes) addr = .ok (a l addr).wire := by
  rw [List.map_cons, addA, part_eq_wire, part_localPart]
  simp [a, Record.wire, labelsWire]

/-! ## Messages -/

theorem split_hostName (l : HostLabel) (ls : List HostLabel) :
    split ([dot].intercalate ((l :: ls).map fun l => l.bytes)) dot =
      (l :: ls).map fun l => l.bytes := by
  refine split_intercalate fun p hp => ?_
  obtain ⟨l', -, rfl⟩ := List.mem_map.mp hp
  exact ⟨List.ne_nil_of_length_pos l'.pos, l'.noDot⟩

theorem getLast_intercalate (l : HostLabel) (ls : List HostLabel) :
    ∃ last, ([dot].intercalate ((l :: ls).map fun l => l.bytes)).getLast? = some last ∧ last ≠ dot := by
  induction ls generalizing l with
  | nil =>
    obtain ⟨last, hlast⟩ := Option.isSome_iff_exists.mp (List.getLast?_isSome.mpr
      (List.ne_nil_of_length_pos l.pos))
    refine ⟨last, by simpa [List.intercalate] using hlast, ?_⟩
    rintro rfl
    exact l.noDot (List.mem_of_getLast? hlast)
  | cons l' ls ih =>
    obtain ⟨last, hlast, hne⟩ := ih l'
    refine ⟨last, ?_, hne⟩
    have hcons : [dot].intercalate ((l :: l' :: ls).map fun l => l.bytes) =
        l.bytes ++ [dot] ++ [dot].intercalate ((l' :: ls).map fun l => l.bytes) := by
      simp [List.intercalate]
    rw [hcons, List.getLast?_append, hlast]
    rfl

theorem stripped_hostName (l : HostLabel) (ls : List HostLabel) (full : Bool) :
    stripped (hostName (l :: ls) full) = .ok ([dot].intercalate ((l :: ls).map fun l => l.bytes)) := by
  obtain ⟨last, hlast, hne⟩ := getLast_intercalate l ls
  cases full with
  | false =>
    rw [hostName, if_neg Bool.false_ne_true, List.append_nil, stripped, hlast]
    exact congrArg Except.ok (if_neg hne)
  | true =>
    rw [hostName, if_pos rfl, stripped, List.getLast?_concat]
    exact congrArg Except.ok ((if_pos rfl).trans List.dropLast_concat)

/-- The four records of an announcement. -/
def records (l : HostLabel) (ls : List HostLabel) (port : ℤ) (addr : AnyAddr) : List Record :=
  [ptr (l :: ls), txt (l :: ls), srv l ls port, a l addr]

theorem announce_eq (l : HostLabel) (ls : List HostLabel) (full : Bool) (port : ℤ) (addr : AnyAddr) :
    announce ⟨addr, port, hostName (l :: ls) full⟩ =
      let message := responseHeader ++ (records l ls port addr).flatMap Record.wire
      if message.length ≤ 256 then .ok ⟨.ipv4 224 0 0 251, 5353, addr, 5353, message⟩
      else .error .outside := by
  unfold announce
  simp only [stripped_hostName, bind, Except.bind, split_hostName, addSrv_eq, addA_eq, addPtr_eq,
    addTxt_eq, records, List.flatMap_cons, List.flatMap_nil, List.append_nil, List.append_assoc]
  rfl

theorem ancount_header (rest : List Byte) : ancount (responseHeader ++ rest) = 3 := by
  change (be16 0 3).toNat = 3
  decide

theorem data_length_le (r : Record) : r.data.length ≤ r.wire.length := by
  simp only [Record.wire, List.length_append, List.length_cons]
  omega

theorem skipRecords_wire (rs : List Record) (h : (rs.flatMap Record.wire).length < 65536)
    (rest : List Byte) : skipRecords rs.length (rs.flatMap Record.wire ++ rest) = some rest := by
  induction rs with
  | nil => rfl
  | cons r rs ih =>
    rw [List.flatMap_cons, List.length_append] at h
    have hdata := data_length_le r
    rw [List.flatMap_cons, List.append_assoc, List.length_cons, skipRecords,
      skipRecord_wire (by omega), Option.bind_some]
    exact ih (by omega)

/-- Four records are sent, each with the length of its data, and nothing else. -/
theorem announce_four {l : HostLabel} {ls : List HostLabel} {full : Bool} {port : ℤ} {addr : AnyAddr}
    {call : UdpTransmit} (h : announce ⟨addr, port, hostName (l :: ls) full⟩ = .ok call) :
    call.payload.length ≤ 256 ∧ skipRecords 4 (call.payload.drop 12) = some [] := by
  rw [announce_eq] at h
  dsimp only at h
  split at h
  case isTrue hlen =>
    obtain rfl := Except.ok.inj h
    refine ⟨hlen, ?_⟩
    rw [List.length_append] at hlen
    have hskip := skipRecords_wire (records l ls port addr) (by omega) []
    rw [List.append_nil] at hskip
    exact hskip
  case isFalse => cases h

/-- The fourth record is behind the three that the header counts: no announcement is well-formed. -/
theorem announce_not_wellFormed (l : HostLabel) (ls : List HostLabel) (full : Bool) (port : ℤ)
    (addr : AnyAddr) : ¬Announced (announce ⟨addr, port, hostName (l :: ls) full⟩) := by
  intro hannounced
  obtain ⟨call, hcall, ⟨-, hthree⟩, -⟩ := hannounced
  rw [announce_eq] at hcall
  dsimp only at hcall
  split at hcall
  case isTrue hlen =>
    obtain rfl := Except.ok.inj hcall
    rw [List.length_append] at hlen
    have hbefore : (records l ls port addr).flatMap Record.wire =
        [ptr (l :: ls), txt (l :: ls), srv l ls port].flatMap Record.wire ++ (a l addr).wire := by
      simp [records]
    have hskip := skipRecords_wire [ptr (l :: ls), txt (l :: ls), srv l ls port]
      (by rw [hbefore, List.length_append] at hlen; omega) (a l addr).wire
    rw [← hbefore] at hskip
    rw [ancount_header] at hthree
    have hrest : (a l addr).wire = [] := Option.some.inj (hskip.symm.trans hthree)
    have hwire : 0 < (a l addr).wire.length := by
      simp only [Record.wire, List.length_append, List.length_cons]
      omega
    rw [hrest] at hwire
    exact absurd hwire (lt_irrefl 0)
  case isFalse => cases hcall

/-- `web.local` -/
def sampleName : List HostLabel :=
  [⟨⟨[0x77, 0x65, 0x62], by decide, by decide⟩, by decide, by decide⟩,
    ⟨localLabel, by decide, by decide⟩]

/-- The address record of `web.local` is left over. -/
theorem sample_left_over : ¬Announced (announce ⟨.ipv4 192 0 2 7, 80, hostName sampleName false⟩) := by
  have hleft : (announce ⟨.ipv4 192 0 2 7, 80, hostName sampleName false⟩).toOption.map
      (fun call => skipRecords (ancount call.payload) (call.payload.drop 12)) =
        some (some ([3, 0x77, 0x65, 0x62] ++ [5, 0x6c, 0x6f, 0x63, 0x61, 0x6c] ++
          [0, 0, 1, 0x80, 1, 0, 0, 0, 5, 0, 4, 192, 0, 2, 7])) := by
    decide +kernel
  intro hannounced
  obtain ⟨call, hcall, ⟨-, hnone⟩, -⟩ := hannounced
  rw [hcall, Except.toOption, Option.map_some, hnone] at hleft
  cases hleft

end MyIp.Mdns
