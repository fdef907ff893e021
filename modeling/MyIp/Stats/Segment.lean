import MyIp.FifoStats
import MyIp.Foundations.CText
import MyIp.Net.AnyAddr
import Mathlib.Data.List.TakeWhile

/-! # The statistics segment

`stats::register_stat` (`stats.cpp`) puts records of 48 bytes into a block of shared memory: two
counters, and a name with a 0 behind it. `stats_to_json` (`stats_utils.cpp`) goes through the block
until the mark byte of a record, the first one of its name, is 0. It asks whether the record begins
inside the block, not whether its mark byte is there. -/

namespace MyIp.Stats
set_option autoImplicit false

open Bytes CText

inductive Fault
  | outside | overflow | turns
  deriving DecidableEq

/-! ## The block -/

def store (p : List Byte) (off : ℕ) (d : List Byte) : Except Fault (List Byte) :=
  if off + d.length ≤ p.length then .ok (writeAt p off d) else .error .outside

def byteAt (p : List Byte) (off : ℕ) : Except Fault Byte :=
  match p[off]? with
  | some b => .ok b
  | none => .error .outside

/-- A `uint64_t` of a little-endian host. -/
def le64Bytes (v : BitVec 64) : List Byte := (List.range 8).map fun i => (v >>> (8 * i)).setWidth 8

def readWord (p : List Byte) (off : ℕ) : Except Fault (BitVec 64) :=
  if off + 8 ≤ p.length then .ok (leWord (readAt p off 8)) else .error .outside

def chr (b : Byte) : Char := Char.ofNat b.toNat

/-- What `%s` prints: the characters up to a 0, which has to be there. -/
def cString : List Byte → Except Fault Text
  | [] => .error .outside
  | b :: rest => if b = 0 then .ok [] else (cString rest).map (chr b :: ·)

/-! ## `stats` -/

structure Shm where
  size : ℕ
  p : List Byte
  len : ℕ

def Shm.new (size : ℕ) : Shm := ⟨size, List.replicate size 0, 0⟩

/-- `register_stat`, without its object identifier; the second part is the pointer. -/
def registerStat (s : Shm) (name : List Byte) : Except Fault (Shm × Option ℕ) :=
  if 2 ^ 31 ≤ s.len + 48 then .error .overflow
  else if s.size < s.len + 48 then .ok (s, none)
  else do
    let p ← store s.p s.len (le64Bytes 0)
    let p ← store p (s.len + 8) (le64Bytes 0)
    let copyN := min name.length 31
    let p ← store p (s.len + 16) (name.take copyN)
    let p ← store p (s.len + 16 + copyN) [0]
    return ({ s with p, len := s.len + 48 }, some s.len)

/-- What a function makes of the two counters at a pointer. -/
abbrev Counters := BitVec 64 × BitVec 64

def statsIncCounter : Counters → Counters := fun c => (c.1 + 1, c.2)

def update (p : List Byte) (ptr : ℕ) (f : Counters → Counters) : Except Fault (List Byte) := do
  let cnt ← readWord p ptr
  let cnt2 ← readWord p (ptr + 8)
  let p ← store p ptr (le64Bytes (f (cnt, cnt2)).1)
  store p (ptr + 8) (le64Bytes (f (cnt, cnt2)).2)

/-! ## `stats_to_json` -/

/-- `myformat` makes a `std::string` of a C string. -/
def myformat (t : Text) : Text := cStr t

/-- The loop. `average` is `%f` of the quotient of two numbers as `double`. -/
def jsonLoop (average : BitVec 64 → BitVec 64 → Text) (p : List Byte) (size : ℕ) :
    (turns cur : ℕ) → Text → (firstGen : Bool) → Except Fault Text
  | 0, _, _, _ => .error .turns
  | turns + 1, cur, out, firstGen =>
    if cur < size then do
      let mark ← byteAt p (cur + 16)
      if mark = 0 then return out
      else
        let out := if firstGen then "\x7b ".toList else out ++ ", ".toList
        let name ← cString (p.drop (cur + 16))
        let out := out ++ myformat ('"' :: name ++ "\" : ".toList)
        let cnt ← readWord p cur
        let cnt2 ← readWord p (cur + 8)
        let out := out ++ if cnt2 ≠ 0 then myformat (average cnt cnt2)
          else myformat (decimal cnt.toNat)
        jsonLoop average p size turns (cur + 48) out false
    else return out

def fifoJson (pair : Text × FifoStats) : Text :=
  myformat ("\x7b \"name\":\"".toList ++ cStr pair.1 ++ "\", \"values\":[".toList) ++
    ", ".toList.intercalate (List.ofFn fun i => myformat (decimal (pair.2.counters i).toNat)) ++
      "] \x7d".toList

def fifosJson (fs : List (Text × FifoStats)) : Text :=
  ", \"fifo\":[".toList ++ ", ".toList.intercalate (fs.map fifoJson) ++ "]".toList ++ " \x7d".toList

/-- A turn moves on by 48 bytes, so that there are turns enough. -/
def statsToJson (average : BitVec 64 → BitVec 64 → Text) (p : List Byte)
    (fs : List (Text × FifoStats)) (size : ℕ) : Except Fault Text := do
  let out ← jsonLoop average p size (size + 1) 0 [] true
  return out ++ fifosJson fs

/-! ## Runs -/

/-- A registration, or an update of the counters behind the pointer that was the `nr`-th to be
returned. -/
inductive Event
  | register (name : List Byte)
  | count (nr : ℕ) (f : Counters → Counters)

/-- The block, and the names with the pointers that were returned for them. -/
structure State where
  shm : Shm
  returned : List (List Byte × ℕ)

def step (s : State) : Event → Except Fault State
  | .register name => do
    let (shm, ptr) ← registerStat s.shm name
    return ⟨shm, s.returned ++ ptr.toList.map fun ptr => (name, ptr)⟩
  | .count nr f =>
    match s.returned[nr]? with
    | none => .ok s
    | some (_, ptr) => do
      let p ← update s.shm.p ptr f
      return { s with shm := { s.shm with p } }

def run (size : ℕ) (evs : List Event) : Except Fault State := evs.foldlM step ⟨.new size, []⟩

def Event.name : Event → Option (List Byte)
  | register name => some name
  | count _ _ => none

/-- The names of the calls of `register_stat`. -/
def names (evs : List Event) : List (List Byte) := evs.filterMap Event.name

/-- A record in the output. -/
def entry (name : List Byte) (value : Text) : Text :=
  '"' :: name.map chr ++ "\" : ".toList ++ value

def listing : List Text → Text
  | [] => []
  | e :: es => "\x7b ".toList ++ ", ".toList.intercalate (e :: es)

/-- The pointers that were returned are those of records inside the block that do not meet. -/
def Apart (size : ℕ) (ptrs : List ℕ) : Prop :=
  ptrs.Pairwise (fun a b => a + 48 ≤ b ∨ b + 48 ≤ a) ∧ ∀ a ∈ ptrs, a + 48 ≤ size

/-- The registrations are records apart from each other, and the output, which is made without a read
outside the block, has the registered names in their order. -/
def Faithful (average : BitVec 64 → BitVec 64 → Text) (fs : List (Text × FifoStats)) (size : ℕ)
    (evs : List Event) : Prop :=
  ∃ s json, run size evs = .ok s ∧ Apart size (s.returned.map Prod.snd) ∧
    statsToJson average s.shm.p fs size = .ok json ∧
    ∃ values : List Text, values.length = s.returned.length ∧
      json = listing (List.zipWith entry (s.returned.map fun r => r.1.take 31) values) ++ fifosJson fs

/-! ## Records -/

structure Rec where
  counters : List Byte
  name : List Byte
  counters_length : counters.length = 16
  name_length : name.length ≤ 31

def Rec.wire (r : Rec) : List Byte :=
  r.counters ++ (r.name ++ List.replicate (32 - r.name.length) 0)

@[simp] theorem Rec.wire_length (r : Rec) : r.wire.length = 48 := by
  have hcounters := r.counters_length
  have hname := r.name_length
  simp only [wire, List.length_append, List.length_replicate]
  omega

def wires (recs : List Rec) : List Byte := recs.flatMap Rec.wire

@[simp] theorem wires_length (recs : List Rec) : (wires recs).length = 48 * recs.length := by
  induction recs with
  | nil => rfl
  | cons r recs ih =>
    rw [wires, List.flatMap_cons, List.length_append, ← wires, ih, Rec.wire_length, List.length_cons]
    omega

theorem wires_append (recs recs' : List Rec) : wires (recs ++ recs') = wires recs ++ wires recs' :=
  List.flatMap_append

theorem wires_cons (r : Rec) (recs : List Rec) : wires (r :: recs) = r.wire ++ wires recs := rfl

/-- The block has these records, and zeros behind them. -/
structure Holds (s : Shm) (recs : List Rec) : Prop where
  p : s.p = wires recs ++ List.replicate (s.size - 48 * recs.length) 0
  len : s.len = 48 * recs.length
  fits : 48 * recs.length ≤ s.size

theorem holds_new (size : ℕ) : Holds (.new size) [] where
  p := rfl
  len := rfl
  fits := Nat.zero_le _

theorem store_middle {a b c d : List Byte} (h : b.length = d.length) :
    store (a ++ (b ++ c)) a.length d = .ok (a ++ (d ++ c)) := by
  have hfits : a.length + d.length ≤ (a ++ (b ++ c)).length := by
    simp only [List.length_append]
    omega
  have hdrop : (a ++ (b ++ c)).drop (a.length + d.length) = c := by
    rw [← h, ← List.append_assoc, ← List.length_append, List.drop_left]
  rw [store, if_pos hfits, writeAt, List.take_left, hdrop, List.append_assoc]

/-- A write to the front of the zeros. -/
theorem store_zeros {a d : List Byte} {off m k : ℕ} (hoff : off = a.length) (hm : d.length = m) :
    store (a ++ List.replicate (m + k) 0) off d = .ok (a ++ d ++ List.replicate k 0) := by
  rw [hoff, ← hm, ← List.replicate_append_replicate, store_middle (by rw [List.length_replicate]),
    List.append_assoc]

@[simp] theorem le64Bytes_length (v : BitVec 64) : (le64Bytes v).length = 8 := by
  rw [le64Bytes, List.length_map, List.length_range]

def Rec.new (name : List Byte) : Rec where
  counters := le64Bytes 0 ++ le64Bytes 0
  name := name.take 31
  counters_length := by rw [List.length_append, le64Bytes_length]
  name_length := by rw [List.length_take]; omega

theorem Rec.new_wire (name : List Byte) :
    (Rec.new name).wire = le64Bytes 0 ++ le64Bytes 0 ++ name.take (min name.length 31) ++ [0] ++
      List.replicate (31 - min name.length 31) 0 := by
  have htake : name.take (min name.length 31) = name.take 31 := by
    rw [List.take_eq_take_iff]
    omega
  have hlength : 32 - (name.take 31).length = 1 + (31 - min name.length 31) := by
    rw [List.length_take]
    omega
  rw [htake, wire, Rec.new]
  dsimp only
  rw [hlength, ← List.replicate_append_replicate]
  simp only [List.append_assoc, List.replicate_one]

/-- A registration for which there is room adds a record. -/
theorem registerStat_room {s : Shm} {recs : List Rec} (h : Holds s recs) (name : List Byte)
    (hint : s.len + 48 < 2 ^ 31) (hroom : 48 * (recs.length + 1) ≤ s.size) :
    ∃ s', registerStat s name = .ok (s', some (48 * recs.length)) ∧ s'.size = s.size ∧
      Holds s' (recs ++ [.new name]) := by
  have hlen : s.len = (wires recs).length := by rw [h.len, wires_length]
  have hp := h.p
  have hname : (name.take (min name.length 31)).length = min name.length 31 := by
    rw [List.length_take]
    omega
  generalize hw : wires recs = w at hlen hp
  generalize hd : name.take (min name.length 31) = d at hname
  generalize hm : min name.length 31 = m at hname
  rw [hm] at hd
  obtain ⟨k, hk⟩ : ∃ k, s.size - 48 * recs.length = 8 + (8 + (m + (1 + k))) :=
    ⟨s.size - 48 * recs.length - 17 - m, by omega⟩
  rw [hk] at hp
  have hfirst : store s.p s.len (le64Bytes 0) =
      .ok (w ++ le64Bytes 0 ++ List.replicate (8 + (m + (1 + k))) 0) := by
    rw [hp]
    exact store_zeros hlen (le64Bytes_length 0)
  have hsecond : store (w ++ le64Bytes 0 ++ List.replicate (8 + (m + (1 + k))) 0) (s.len + 8)
      (le64Bytes 0) = .ok (w ++ le64Bytes 0 ++ le64Bytes 0 ++ List.replicate (m + (1 + k)) 0) :=
    store_zeros (by rw [List.length_append, le64Bytes_length, hlen]) (le64Bytes_length 0)
  have hthird : store (w ++ le64Bytes 0 ++ le64Bytes 0 ++ List.replicate (m + (1 + k)) 0) (s.len + 16)
      d = .ok (w ++ le64Bytes 0 ++ le64Bytes 0 ++ d ++ List.replicate (1 + k) 0) :=
    store_zeros (by
      rw [List.length_append, List.length_append, le64Bytes_length, hlen]) hname
  have hfourth : store (w ++ le64Bytes 0 ++ le64Bytes 0 ++ d ++ List.replicate (1 + k) 0)
      (s.len + 16 + m) [0] =
        .ok (w ++ le64Bytes 0 ++ le64Bytes 0 ++ d ++ [0] ++ List.replicate k 0) :=
    store_zeros (by
      rw [List.length_append, List.length_append, List.length_append, le64Bytes_length, hlen, hname])
      rfl
  have hregister : registerStat s name = .ok (⟨s.size,
      w ++ le64Bytes 0 ++ le64Bytes 0 ++ d ++ [0] ++ List.replicate k 0, s.len + 48⟩,
        some (48 * recs.length)) := by
    have hsize : ¬s.size < s.len + 48 := by
      rw [h.len]
      omega
    rw [registerStat, if_neg (not_le.mpr hint), if_neg hsize, hfirst, ← h.len]
    simp only [bind, Except.bind, hsecond, hm, hd, hthird, hfourth]
    rfl
  refine ⟨_, hregister, rfl, ?_, ?_, ?_⟩
  · have hrest : k = 31 - m + (s.size - 48 * (recs ++ [Rec.new name]).length) := by
      rw [List.length_append, List.length_singleton]
      omega
    dsimp only
    rw [wires_append, hw, wires, List.flatMap_singleton, Rec.new_wire, hm, hd, hrest,
      ← List.replicate_append_replicate]
    simp only [List.append_assoc]
  · dsimp only
    rw [h.len, List.length_append, List.length_singleton]
    omega
  · rwa [List.length_append, List.length_singleton]

/-- There is no pointer for a registration without room. -/
theorem registerStat_full {s : Shm} {recs : List Rec} (h : Holds s recs) (name : List Byte)
    (hint : s.len + 48 < 2 ^ 31) (hfull : s.size < 48 * (recs.length + 1)) :
    registerStat s name = .ok (s, none) := by
  have hsize : s.size < s.len + 48 := by
    rw [h.len]
    omega
  rw [registerStat, if_neg (not_le.mpr hint), if_pos hsize]

/-- An update writes over 16 bytes. -/
theorem update_append {a counters rest : List Byte} (h : counters.length = 16)
    (f : Counters → Counters) : ∃ counters' : List Byte, counters'.length = 16 ∧
      update (a ++ (counters ++ rest)) a.length f = .ok (a ++ (counters' ++ rest)) := by
  have hinside : a.length + 16 ≤ (a ++ (counters ++ rest)).length := by
    simp only [List.length_append]
    omega
  have hcnt : ∃ cnt, readWord (a ++ (counters ++ rest)) a.length = .ok cnt :=
    ⟨_, if_pos (by omega)⟩
  have hcnt2 : ∃ cnt, readWord (a ++ (counters ++ rest)) (a.length + 8) = .ok cnt :=
    ⟨_, if_pos (by omega)⟩
  obtain ⟨cnt, hcnt⟩ := hcnt
  obtain ⟨cnt2, hcnt2⟩ := hcnt2
  have hsplit : counters ++ rest = counters.take 8 ++ (counters.drop 8 ++ rest) := by
    rw [← List.append_assoc, List.take_append_drop]
  have hfirst : store (a ++ (counters ++ rest)) a.length (le64Bytes (f (cnt, cnt2)).1) =
      .ok (a ++ (le64Bytes (f (cnt, cnt2)).1 ++ (counters.drop 8 ++ rest))) := by
    rw [hsplit]
    exact store_middle (by rw [List.length_take, le64Bytes_length]; omega)
  have hsecond : store (a ++ (le64Bytes (f (cnt, cnt2)).1 ++ (counters.drop 8 ++ rest)))
      (a.length + 8) (le64Bytes (f (cnt, cnt2)).2) =
        .ok (a ++ le64Bytes (f (cnt, cnt2)).1 ++ (le64Bytes (f (cnt, cnt2)).2 ++ rest)) := by
    have hoff : a.length + 8 = (a ++ le64Bytes (f (cnt, cnt2)).1).length := by
      rw [List.length_append, le64Bytes_length]
    rw [hoff, ← List.append_assoc]
    exact store_middle (by rw [List.length_drop, le64Bytes_length]; omega)
  refine ⟨le64Bytes (f (cnt, cnt2)).1 ++ le64Bytes (f (cnt, cnt2)).2, ?_, ?_⟩
  · rw [List.length_append, le64Bytes_length, le64Bytes_length]
  · rw [update]
    simp only [bind, Except.bind, hcnt, hcnt2, hfirst, hsecond, List.append_assoc]

/-- The counters behind the pointer of a record are inside it. -/
theorem update_holds {s : Shm} {before after : List Rec} {r : Rec} (h : Holds s (before ++ r :: after))
    (f : Counters → Counters) : ∃ p r', update s.p (48 * before.length) f = .ok p ∧ r'.name = r.name ∧
      Holds { s with p } (before ++ r' :: after) := by
  have hptr : 48 * before.length = (wires before).length := (wires_length before).symm
  have hp := h.p
  rw [wires_append, wires_cons, Rec.wire] at hp
  simp only [List.append_assoc] at hp
  obtain ⟨counters, hlength, hupdate⟩ := update_append r.counters_length f
  rw [hp, hptr, hupdate]
  have hsame : (before ++ (⟨counters, r.name, hlength, r.name_length⟩ : Rec) :: after).length =
      (before ++ r :: after).length := by
    rw [List.length_append, List.length_append, List.length_cons, List.length_cons]
  refine ⟨_, ⟨counters, r.name, hlength, r.name_length⟩, rfl, rfl, ?_, ?_, ?_⟩
  · dsimp only
    rw [hsame, wires_append, wires_cons, Rec.wire]
    simp only [List.append_assoc]
  · rw [hsame]
    exact h.len
  · rw [hsame]
    exact h.fits

/-! ## Reading the records -/

theorem chr_eq_nul_iff : ∀ b : Byte, chr b = '\x00' ↔ b = 0 := by
  decide +kernel

theorem cString_append {name : List Byte} (h : 0 ∉ name) (rest : List Byte) :
    cString (name ++ 0 :: rest) = .ok (name.map chr) := by
  induction name with
  | nil => rfl
  | cons b name ih =>
    rw [List.mem_cons, not_or] at h
    rw [List.cons_append, cString, if_neg (Ne.symm h.1), ih h.2]
    rfl

theorem nul_notMem_map_chr {name : List Byte} (h : 0 ∉ name) : '\x00' ∉ name.map chr := by
  intro hmem
  obtain ⟨b, hb, hchr⟩ := List.mem_map.mp hmem
  rw [chr_eq_nul_iff] at hchr
  exact h (hchr ▸ hb)

/-- The text of the counters. -/
def valueText (average : BitVec 64 → BitVec 64 → Text) (counters : List Byte) : Text :=
  let cnt := leWord (readAt counters 0 8)
  let cnt2 := leWord (readAt counters 8 8)
  if cnt2 ≠ 0 then myformat (average cnt cnt2) else myformat (decimal cnt.toNat)

def Rec.entry (average : BitVec 64 → BitVec 64 → Text) (r : Rec) : Text :=
  Stats.entry r.name (valueText average r.counters)

theorem readWord_append {a b c : List Byte} {k : ℕ} (h : k + 8 ≤ b.length) :
    readWord (a ++ (b ++ c)) (a.length + k) = .ok (leWord (readAt b k 8)) := by
  have hinside : a.length + k + 8 ≤ (a ++ (b ++ c)).length := by
    simp only [List.length_append]
    omega
  rw [readWord, if_pos hinside, readAt_inside hinside, readAt_inside h, ← List.drop_drop,
    List.drop_left, List.drop_append_of_le_length (by omega),
    List.take_append_of_le_length (by rw [List.length_drop]; omega)]

theorem byteAt_append {a c : List Byte} (b : Byte) {off : ℕ} (hoff : off = a.length) :
    byteAt (a ++ b :: c) off = .ok b := by
  rw [byteAt, hoff, List.getElem?_append_right le_rfl, Nat.sub_self, List.getElem?_cons_zero]

/-- The text before the value has no 0 of its own. -/
theorem myformat_name {name : List Byte} (h : 0 ∉ name) :
    myformat ('"' :: name.map chr ++ "\" : ".toList) = '"' :: name.map chr ++ "\" : ".toList := by
  apply cStr_eq_self
  rw [List.cons_append, List.mem_cons, List.mem_append, not_or, not_or]
  exact ⟨by decide, nul_notMem_map_chr h, by decide⟩

/-- A turn of the loop at a record whose name has no 0 in it. -/
theorem jsonLoop_record (average : BitVec 64 → BitVec 64 → Text) {a : List Byte} (rest : List Byte)
    {r : Rec} (hne : r.name ≠ []) (hnul : 0 ∉ r.name) {size : ℕ} (hsize : a.length < size) (turns : ℕ)
    (out : Text) (firstGen : Bool) :
    jsonLoop average (a ++ (r.wire ++ rest)) size (turns + 1) a.length out firstGen =
      jsonLoop average (a ++ (r.wire ++ rest)) size turns (a ++ r.wire).length
        ((if firstGen then "\x7b ".toList else out ++ ", ".toList) ++ r.entry average) false := by
  have hcounters := r.counters_length
  have hname := r.name_length
  obtain ⟨b, name, hcons⟩ := List.exists_cons_of_ne_nil hne
  have hb : b ≠ 0 := by
    rintro rfl
    exact hnul (by rw [hcons]; exact List.mem_cons_self)
  have hzeros : List.replicate (32 - r.name.length) (0 : Byte) =
      0 :: List.replicate (31 - r.name.length) 0 := by
    rw [← List.replicate_succ]
    congr 1
    omega
  have hlength : (a ++ r.wire).length = a.length + 48 := by
    rw [List.length_append, r.wire_length]
  have hmark : byteAt (a ++ (r.wire ++ rest)) (a.length + 16) = .ok b := by
    rw [Rec.wire, hcons, ← List.append_assoc, ← List.append_assoc]
    simp only [List.append_assoc, List.cons_append]
    rw [← List.append_assoc]
    exact byteAt_append b (by rw [List.length_append, hcounters])
  have hstring : cString ((a ++ (r.wire ++ rest)).drop (a.length + 16)) = .ok (r.name.map chr) := by
    have hdrop : (a ++ (r.wire ++ rest)).drop (a.length + 16) =
        r.name ++ 0 :: (List.replicate (31 - r.name.length) 0 ++ rest) := by
      rw [Rec.wire, hzeros, ← hcounters, ← List.length_append]
      simp only [List.append_assoc, List.cons_append]
      rw [← List.append_assoc a, List.drop_left]
    rw [hdrop, cString_append hnul]
  have hcnt : readWord (a ++ (r.wire ++ rest)) a.length = .ok (leWord (readAt r.counters 0 8)) := by
    rw [Rec.wire, List.append_assoc]
    exact readWord_append (k := 0) (by omega)
  have hcnt2 : readWord (a ++ (r.wire ++ rest)) (a.length + 8) =
      .ok (leWord (readAt r.counters 8 8)) := by
    rw [Rec.wire, List.append_assoc]
    exact readWord_append (by omega)
  rw [jsonLoop, if_pos hsize, hlength]
  simp only [bind, Except.bind, hmark, hstring, hcnt, hcnt2, if_neg hb, myformat_name hnul]
  rw [Rec.entry, Stats.entry, valueText]
  simp only [List.append_assoc, List.cons_append]

/-- The loop stops at a mark byte that is 0, and reads outside where there is none. -/
theorem jsonLoop_zeros (average : BitVec 64 → BitVec 64 → Text) {a : List Byte} {k size : ℕ}
    (hsize : size = a.length + k) (turns : ℕ) (out : Text) (firstGen : Bool) :
    jsonLoop average (a ++ List.replicate k 0) size (turns + 1) a.length out firstGen =
      if 0 < k ∧ k ≤ 16 then .error .outside else .ok out := by
  rw [jsonLoop]
  by_cases hk : 0 < k
  · rw [if_pos (by omega)]
    by_cases h16 : k ≤ 16
    · have hnone : byteAt (a ++ List.replicate k 0) (a.length + 16) = .error .outside := by
        have hlength : (a ++ List.replicate k (0 : Byte)).length ≤ a.length + 16 := by
          rw [List.length_append, List.length_replicate]
          omega
        rw [byteAt, List.getElem?_eq_none hlength]
      rw [if_pos (And.intro hk h16), hnone]
      rfl
    · have hmark : byteAt (a ++ List.replicate k 0) (a.length + 16) = .ok 0 := by
        rw [byteAt, List.getElem?_append_right (Nat.le_add_right _ _), Nat.add_sub_cancel_left,
          List.getElem?_replicate, if_pos (by omega)]
      rw [if_neg (fun h : 0 < k ∧ k ≤ 16 => h16 h.2), hmark]
      rfl
  · rw [if_neg (by omega), if_neg (fun h : 0 < k ∧ k ≤ 16 => hk h.1)]
    rfl

/-- The loop from the first of the records that are left. -/
theorem jsonLoop_records (average : BitVec 64 → BitVec 64 → Text) {recs : List Rec}
    (hne : ∀ r ∈ recs, r.name ≠ []) (hnul : ∀ r ∈ recs, 0 ∉ r.name) {a : List Byte} {k size turns : ℕ}
    (hsize : size = (a ++ wires recs).length + k) (hturns : recs.length < turns) (out : Text) :
    jsonLoop average (a ++ (wires recs ++ List.replicate k 0)) size turns a.length out false =
      if 0 < k ∧ k ≤ 16 then .error .outside
      else .ok (out ++ recs.flatMap fun r => ", ".toList ++ r.entry average) := by
  induction recs generalizing a turns out with
  | nil =>
    obtain ⟨turns, rfl⟩ : ∃ n, turns = n + 1 := ⟨turns - 1, by omega⟩
    have hsize' : size = a.length + k := by simpa [wires] using hsize
    rw [List.flatMap_nil, List.append_nil]
    exact jsonLoop_zeros average hsize' turns out false
  | cons r recs ih =>
    obtain ⟨turns, rfl⟩ : ∃ n, turns = n + 1 := ⟨turns - 1, by omega⟩
    have hassoc : a ++ (wires (r :: recs) ++ List.replicate k 0) =
        (a ++ r.wire) ++ (wires recs ++ List.replicate k 0) := by
      rw [wires_cons]
      simp only [List.append_assoc]
    have hlt : a.length < size := by
      rw [hsize, List.length_append, wires_length, List.length_cons]
      omega
    have hturn := jsonLoop_record average (wires recs ++ List.replicate k 0)
      (hne r List.mem_cons_self) (hnul r List.mem_cons_self) hlt turns out false
    rw [← List.append_assoc a] at hturn
    rw [hassoc, hturn, ih (fun r hr => hne r (List.mem_cons_of_mem _ hr))
      (fun r hr => hnul r (List.mem_cons_of_mem _ hr)) (by
        rw [hsize, wires_cons, List.append_assoc])
      (by rw [List.length_cons] at hturns; omega), List.flatMap_cons]
    simp only [Bool.false_eq_true, if_false, List.append_assoc]

theorem intercalate_cons_eq (sep t : Text) (ts : List Text) :
    sep.intercalate (t :: ts) = t ++ ts.flatMap (sep ++ ·) := by
  induction ts generalizing t with
  | nil => rw [List.intercalate_singleton, List.flatMap_nil, List.append_nil]
  | cons t' ts ih =>
    rw [List.intercalate_cons_cons, ih, List.flatMap_cons]
    simp only [List.append_assoc]

/-- What the loop makes of the records of a block. -/
theorem jsonLoop_holds (average : BitVec 64 → BitVec 64 → Text) {s : Shm} {recs : List Rec}
    (h : Holds s recs) (hne : ∀ r ∈ recs, r.name ≠ []) (hnul : ∀ r ∈ recs, 0 ∉ r.name) :
    jsonLoop average s.p s.size (s.size + 1) 0 [] true =
      if 0 < s.size - 48 * recs.length ∧ s.size - 48 * recs.length ≤ 16 then .error .outside
      else .ok (listing (recs.map (Rec.entry average))) := by
  have hp := h.p
  have hfits := h.fits
  generalize hk : s.size - 48 * recs.length = k at hp ⊢
  cases recs with
  | nil =>
    rw [hp]
    exact jsonLoop_zeros average (a := []) (by simpa using hk) s.size [] true
  | cons r recs =>
    rw [List.length_cons] at hk hfits
    have hlt : ([] : List Byte).length < s.size := by
      rw [List.length_nil]
      omega
    have hturn := jsonLoop_record average (wires recs ++ List.replicate k 0)
      (hne r List.mem_cons_self) (hnul r List.mem_cons_self) hlt s.size [] true
    have hsize : s.size = (r.wire ++ wires recs).length + k := by
      rw [List.length_append, Rec.wire_length, wires_length]
      omega
    have hturns : recs.length < s.size := by omega
    have hrest := jsonLoop_records average (fun r hr => hne r (List.mem_cons_of_mem _ hr))
      (fun r hr => hnul r (List.mem_cons_of_mem _ hr)) hsize hturns ("\x7b ".toList ++ r.entry average)
    rw [hp, wires_cons, List.append_assoc]
    rw [List.nil_append, List.nil_append, if_pos rfl] at hturn
    rw [List.length_nil] at hturn
    rw [hturn, hrest, List.map_cons, listing, intercalate_cons_eq, List.flatMap_map, List.append_assoc]

theorem nul_notMem_myformat (t : Text) : '\x00' ∉ myformat t := by
  intro h
  have hmem := List.mem_takeWhile_imp h
  simp at hmem

theorem bind_eq_ok {α β : Type} {x : Except Fault α} {f : α → Except Fault β} {y : β}
    (h : x >>= f = .ok y) : ∃ a, x = .ok a ∧ f a = .ok y := by
  cases x with
  | error fault => cases h
  | ok a => exact ⟨a, rfl, h⟩

/-- No text of the loop has a 0 in it, whatever the block has. -/
theorem nul_notMem_jsonLoop {average : BitVec 64 → BitVec 64 → Text} {p : List Byte}
    {size turns cur : ℕ} {out t : Text} {firstGen : Bool}
    (h : jsonLoop average p size turns cur out firstGen = .ok t) (hout : '\x00' ∉ out) :
    '\x00' ∉ t := by
  induction turns generalizing cur out firstGen with
  | zero => cases h
  | succ turns ih =>
    rw [jsonLoop] at h
    split at h
    · obtain ⟨mark, -, h⟩ := bind_eq_ok h
      split at h
      · obtain rfl := Except.ok.inj h
        exact hout
      · obtain ⟨name, -, h⟩ := bind_eq_ok h
        obtain ⟨cnt, -, h⟩ := bind_eq_ok h
        obtain ⟨cnt2, -, h⟩ := bind_eq_ok h
        apply ih h
        simp only [List.mem_append, not_or]
        refine ⟨⟨?_, nul_notMem_myformat _⟩, ?_⟩
        · split
          · decide
          · rw [List.mem_append, not_or]
            exact ⟨hout, by decide⟩
        · split <;> exact nul_notMem_myformat _
    · obtain rfl := Except.ok.inj h
      exact hout

/-! ## Runs of registrations and updates -/

/-- After the calls with the names `ns` there are records for as many of them as there is room. -/
structure Tracks (size : ℕ) (ns : List (List Byte)) (st : State) (recs : List Rec) : Prop where
  holds : Holds st.shm recs
  size_eq : st.shm.size = size
  returned : st.returned.map Prod.fst = ns.take (size / 48)
  ptrs : st.returned.map Prod.snd = (List.range recs.length).map (48 * ·)
  names : st.returned.map (fun r => r.1.take 31) = recs.map Rec.name

theorem tracks_new (size : ℕ) : Tracks size [] ⟨.new size, []⟩ [] where
  holds := holds_new size
  size_eq := rfl
  returned := List.take_nil.symm
  ptrs := rfl
  names := rfl

theorem Tracks.length {size : ℕ} {ns : List (List Byte)} {st : State} {recs : List Rec}
    (h : Tracks size ns st recs) : recs.length = min ns.length (size / 48) := by
  have hnames := congrArg List.length h.names
  have hreturned := congrArg List.length h.returned
  rw [List.length_map, List.length_map] at hnames
  rw [List.length_map, List.length_take] at hreturned
  omega

/-- A registration, if the sum of the `int` is one. -/
theorem step_register {size : ℕ} {ns : List (List Byte)} {st : State} {recs : List Rec}
    (h : Tracks size ns st recs) (name : List Byte)
    (hint : min ns.length (size / 48) < 2 ^ 31 / 48) :
    ∃ st' recs', step st (.register name) = .ok st' ∧ Tracks size (ns ++ [name]) st' recs' := by
  have hlength := h.length
  have hlen := h.holds.len
  by_cases hroom : ns.length < size / 48
  · obtain ⟨s', hregister, hsize, hholds⟩ := registerStat_room h.holds name (by omega)
      (by rw [h.size_eq]; omega)
    have hstep : step st (.register name) = .ok ⟨s', st.returned ++ [(name, 48 * recs.length)]⟩ := by
      rw [step, hregister]
      rfl
    refine ⟨_, _, hstep, hholds, hsize.trans h.size_eq, ?_, ?_, ?_⟩
    · rw [List.map_append, h.returned, List.take_of_length_le hroom.le,
        List.take_of_length_le (by rw [List.length_append, List.length_singleton]; omega)]
      rfl
    · rw [List.map_append, h.ptrs, List.length_append, List.length_singleton, List.range_succ,
        List.map_append]
      rfl
    · rw [List.map_append, h.names, List.map_append]
      rfl
  · have hstep : step st (.register name) = .ok st := by
      rw [step, registerStat_full h.holds name (by omega) (by rw [h.size_eq]; omega)]
      exact congrArg Except.ok (by rw [Option.toList_none, List.map_nil, List.append_nil])
    refine ⟨_, _, hstep, h.holds, h.size_eq, ?_, h.ptrs, h.names⟩
    rw [h.returned, List.take_append_of_le_length (by omega)]

theorem step_overflow {size : ℕ} {ns : List (List Byte)} {st : State} {recs : List Rec}
    (h : Tracks size ns st recs) (name : List Byte)
    (hint : 2 ^ 31 / 48 ≤ min ns.length (size / 48)) :
    step st (.register name) = .error .overflow := by
  have hlength := h.length
  have hlen := h.holds.len
  rw [step, registerStat, if_pos (by omega)]
  rfl

theorem step_count {size : ℕ} {ns : List (List Byte)} {st : State} {recs : List Rec}
    (h : Tracks size ns st recs) (nr : ℕ) (f : Counters → Counters) :
    ∃ st' recs', step st (.count nr f) = .ok st' ∧ Tracks size ns st' recs' := by
  cases hnr : st.returned[nr]? with
  | none => exact ⟨st, recs, by rw [step, hnr], h⟩
  | some r =>
    have hptr : ((List.range recs.length).map (48 * ·))[nr]? = some r.2 := by
      rw [← h.ptrs, List.getElem?_map, hnr]
      rfl
    obtain ⟨hlt, hr⟩ := List.getElem?_eq_some_iff.mp hptr
    rw [List.length_map, List.length_range] at hlt
    rw [List.getElem_map, List.getElem_range] at hr
    have hsplit : recs = recs.take nr ++ recs[nr] :: recs.drop (nr + 1) := by
      rw [List.getElem_cons_drop, List.take_append_drop]
    have hbefore : (recs.take nr).length = nr := by
      rw [List.length_take]
      omega
    have hholds := h.holds
    rw [hsplit] at hholds
    obtain ⟨p, r', hupdate, hname, hholds'⟩ := update_holds hholds f
    have hstep : step st (.count nr f) = .ok { st with shm := { st.shm with p } } := by
      rw [hbefore] at hupdate
      rw [step, hnr]
      dsimp only
      rw [← hr, hupdate]
      rfl
    refine ⟨_, _, hstep, hholds', h.size_eq, h.returned, ?_, ?_⟩
    · have hsame := congrArg List.length hsplit
      rw [List.length_append, List.length_cons] at hsame ⊢
      rw [← hsame]
      exact h.ptrs
    · rw [h.names, List.map_append, List.map_cons, hname, ← List.map_cons, ← List.map_append, ← hsplit]

theorem names_cons_register (name : List Byte) (evs : List Event) :
    names (.register name :: evs) = name :: names evs := rfl

/-- A run in which the sum is always an `int`. -/
theorem run_tracks {size : ℕ} {ns : List (List Byte)} {st : State} {recs : List Rec}
    (h : Tracks size ns st recs) {evs : List Event}
    (hint : ns.length + (names evs).length ≤ 2 ^ 31 / 48 ∨ size / 48 < 2 ^ 31 / 48) :
    ∃ st' recs', evs.foldlM step st = .ok st' ∧ Tracks size (ns ++ names evs) st' recs' := by
  induction evs generalizing ns st recs with
  | nil => exact ⟨st, recs, rfl, by rwa [names, List.filterMap_nil, List.append_nil]⟩
  | cons ev evs ih =>
    cases ev with
    | register name =>
      rw [names_cons_register, List.length_cons] at hint
      obtain ⟨st', recs', hstep, htracks⟩ := step_register h name (by omega)
      obtain ⟨st'', recs'', hrun, hfinal⟩ := ih htracks (by
        rw [List.length_append, List.length_singleton]
        omega)
      rw [List.append_assoc, List.singleton_append] at hfinal
      refine ⟨st'', recs'', ?_, by rwa [names_cons_register]⟩
      rw [List.foldlM_cons, hstep]
      exact hrun
    | count nr f =>
      obtain ⟨st', recs', hstep, htracks⟩ := step_count h nr f
      obtain ⟨st'', recs'', hrun, hfinal⟩ := ih htracks hint
      refine ⟨st'', recs'', ?_, hfinal⟩
      rw [List.foldlM_cons, hstep]
      exact hrun

/-- A run that comes to a sum that is none. -/
theorem run_overflow {size : ℕ} {ns : List (List Byte)} {st : State} {recs : List Rec}
    (h : Tracks size ns st recs) {evs : List Event} (hns : ns.length ≤ 2 ^ 31 / 48)
    (hevs : 2 ^ 31 / 48 < ns.length + (names evs).length) (hsize : 2 ^ 31 / 48 ≤ size / 48) :
    evs.foldlM step st = .error .overflow := by
  induction evs generalizing ns st recs with
  | nil =>
    rw [names, List.filterMap_nil, List.length_nil] at hevs
    omega
  | cons ev evs ih =>
    rw [List.foldlM_cons]
    cases ev with
    | register name =>
      rw [names_cons_register, List.length_cons] at hevs
      by_cases hfull : ns.length < 2 ^ 31 / 48
      · obtain ⟨st', recs', hstep, htracks⟩ := step_register h name (by omega)
        rw [hstep]
        apply ih htracks
        · rw [List.length_append, List.length_singleton]
          omega
        · rw [List.length_append, List.length_singleton]
          omega
      · rw [step_overflow h name (by omega)]
        rfl
    | count nr f =>
      obtain ⟨st', recs', hstep, htracks⟩ := step_count h nr f
      rw [hstep]
      exact ih htracks hns hevs

/-! ## When the output is right -/

theorem apart_range {size n : ℕ} (h : 48 * n ≤ size) : Apart size ((List.range n).map (48 * ·)) := by
  constructor
  · rw [List.pairwise_map]
    apply List.pairwise_lt_range.imp
    intro a b hab
    exact .inl (by omega)
  · intro a ha
    obtain ⟨i, hi, rfl⟩ := List.mem_map.mp ha
    have := List.mem_range.mp hi
    omega

theorem mem_listing {c : Char} {e : Text} {es : List Text} (hc : c ∈ e) (he : e ∈ es) :
    c ∈ listing es := by
  obtain ⟨e', es, rfl⟩ := List.exists_cons_of_ne_nil (List.ne_nil_of_mem he)
  rw [listing, intercalate_cons_eq, List.mem_append, List.mem_append]
  obtain rfl | hmem := List.mem_cons.mp he
  · exact .inr (.inl hc)
  · exact .inr (.inr (List.mem_flatMap.mpr ⟨e, hmem, List.mem_append.mpr (.inr hc)⟩))

/-- The entries of names that have values, with a 0 in one of the names. -/
theorem nul_mem_listing {ns : List (List Byte)} {values : List Text} (hlen : values.length = ns.length)
    {name : List Byte} (hname : name ∈ ns) (hnul : 0 ∈ name) :
    '\x00' ∈ listing (List.zipWith entry ns values) := by
  obtain ⟨i, hi, rfl⟩ := List.mem_iff_getElem.mp hname
  have hi' : i < values.length := by omega
  have hentry : entry ns[i] values[i] ∈ List.zipWith entry ns values := by
    rw [← List.getElem_zipWith (f := entry) (h := by rw [List.length_zipWith]; omega)]
    exact List.getElem_mem _
  refine mem_listing ?_ hentry
  rw [entry]
  simp only [List.cons_append, List.mem_cons, List.mem_append, List.mem_map]
  exact .inr (.inl (.inl ⟨0, hnul, rfl⟩))

theorem zipWith_entry (average : BitVec 64 → BitVec 64 → Text) (recs : List Rec) :
    List.zipWith entry (recs.map Rec.name) (recs.map fun r => valueText average r.counters) =
      recs.map (Rec.entry average) := by
  rw [List.zipWith_map, List.zipWith_self]
  rfl

/-- What the loop has written is behind it in the output. -/
theorem statsToJson_ok {average : BitVec 64 → BitVec 64 → Text} {p : List Byte}
    {fs : List (Text × FifoStats)} {size : ℕ} {out : Text}
    (h : statsToJson average p fs size = .ok (out ++ fifosJson fs)) :
    jsonLoop average p size (size + 1) 0 [] true = .ok out := by
  obtain ⟨out', hloop, hout⟩ := bind_eq_ok h
  rw [hloop, List.append_cancel_right (Except.ok.inj hout)]

/-- The names come out as they were registered exactly if their first 31 bytes have no 0 among them and
the block does not end within 16 bytes behind its last record; and `len + 48` has to be an `int`. -/
theorem segment_faithful_iff (average : BitVec 64 → BitVec 64 → Text) (fs : List (Text × FifoStats)) (size : ℕ)
    (evs : List Event) (hne : ∀ name ∈ names evs, name ≠ []) :
    Faithful average fs size evs ↔
      ((names evs).length ≤ 2 ^ 31 / 48 ∨ size / 48 < 2 ^ 31 / 48) ∧
      (∀ name ∈ (names evs).take (size / 48), 0 ∉ name.take 31) ∧
      ¬(size / 48 ≤ (names evs).length ∧ 0 < size % 48 ∧ size % 48 ≤ 16) := by
  by_cases hint : (names evs).length ≤ 2 ^ 31 / 48 ∨ size / 48 < 2 ^ 31 / 48
  case neg =>
    have hrun : run size evs = .error .overflow :=
      run_overflow (tracks_new size) (Nat.zero_le _) (by rw [List.length_nil]; omega) (by omega)
    refine iff_of_false ?_ (fun h => hint h.1)
    rintro ⟨st, json, hok, -⟩
    rw [hrun] at hok
    cases hok
  have hint' : ([] : List (List Byte)).length + (names evs).length ≤ 2 ^ 31 / 48 ∨
      size / 48 < 2 ^ 31 / 48 := by
    rwa [List.length_nil, Nat.zero_add]
  obtain ⟨st, recs, hrun, htracks⟩ := run_tracks (tracks_new size) hint'
  rw [List.nil_append] at htracks
  have hlength := htracks.length
  have hnames : recs.map Rec.name = ((names evs).take (size / 48)).map fun name => name.take 31 := by
    rw [← htracks.names, ← htracks.returned, List.map_map]
    rfl
  have hrec : ∀ r ∈ recs, ∃ name ∈ (names evs).take (size / 48), name.take 31 = r.name := by
    intro r hr
    have hmem : r.name ∈ recs.map Rec.name := List.mem_map_of_mem hr
    rw [hnames] at hmem
    exact List.mem_map.mp hmem
  have hrecne : ∀ r ∈ recs, r.name ≠ [] := by
    intro r hr hnil
    obtain ⟨name, hname, htake⟩ := hrec r hr
    rw [hnil, List.take_eq_nil_iff] at htake
    exact hne name (List.mem_of_mem_take hname) (htake.resolve_left (by decide))
  have hreturned : st.returned.map (fun r => r.1.take 31) =
      ((names evs).take (size / 48)).map fun name => name.take 31 := by
    rw [htracks.names, hnames]
  have hloop := fun hnul => jsonLoop_holds average htracks.holds hrecne hnul
  rw [htracks.size_eq] at hloop
  -- behind the records there is what is left of the block, or room for one more
  have hend : (0 < size - 48 * recs.length ∧ size - 48 * recs.length ≤ 16) ↔
      (size / 48 ≤ (names evs).length ∧ 0 < size % 48 ∧ size % 48 ≤ 16) := by
    omega
  constructor
  · rintro ⟨st', json, hok, -, hjson, values, hvalues, rfl⟩
    obtain rfl := Except.ok.inj (hok.symm.trans hrun)
    have hout := statsToJson_ok hjson
    have hnul : ∀ name ∈ (names evs).take (size / 48), 0 ∉ name.take 31 := by
      intro name hname hzero
      apply nul_notMem_jsonLoop hout List.not_mem_nil
      apply nul_mem_listing (by rw [List.length_map, hvalues]) ?_ hzero
      rw [hreturned]
      exact List.mem_map.mpr ⟨name, hname, rfl⟩
    refine ⟨hint, hnul, fun hfull => ?_⟩
    have hrecnul : ∀ r ∈ recs, 0 ∉ r.name := by
      intro r hr
      obtain ⟨name, hname, htake⟩ := hrec r hr
      rw [← htake]
      exact hnul name hname
    rw [hloop hrecnul, if_pos (hend.mpr hfull)] at hout
    cases hout
  · rintro ⟨-, hnul, hfull⟩
    have hrecnul : ∀ r ∈ recs, 0 ∉ r.name := by
      intro r hr
      obtain ⟨name, hname, htake⟩ := hrec r hr
      rw [← htake]
      exact hnul name hname
    have hfits := htracks.holds.fits
    rw [htracks.size_eq] at hfits
    refine ⟨st, listing (recs.map (Rec.entry average)) ++ fifosJson fs, hrun, ?_, ?_,
      recs.map fun r => valueText average r.counters, ?_, ?_⟩
    · rw [htracks.ptrs]
      exact apart_range hfits
    · rw [statsToJson, hloop hrecnul, if_neg (fun h => hfull (hend.mp h))]
      rfl
    · have hlengths := congrArg List.length htracks.names
      rw [List.length_map, List.length_map] at hlengths
      rw [List.length_map, hlengths]
    · rw [htracks.names, zipWith_entry]

/-- Two names in a block of 120 bytes. -/
theorem faithful_two :
    Faithful (fun _ _ => []) [] 120
      [.register [0x72, 0x78], .count 0 statsIncCounter, .register [0x74]] :=
  (segment_faithful_iff _ [] 120 _ (by decide)).mpr ⟨.inl (by decide), by decide, by decide⟩

/-- A full block that has 16 bytes more, as one of 16384 bytes has: the byte behind them is read. -/
theorem full_reads_outside :
    ¬∀ (average : BitVec 64 → BitVec 64 → Text) (size : ℕ) (evs : List Event),
      (∀ name ∈ names evs, name ≠ []) → Faithful average [] size evs := by
  intro h
  obtain ⟨st, json, hrun, -, hjson, -⟩ := h (fun _ _ => []) 64 [.register [0x72, 0x78]] (by decide)
  have houtside : (run 64 [.register [0x72, 0x78]]).toOption.map
      (fun st => statsToJson (fun _ _ => []) st.shm.p [] 64) = some (.error .outside) := by
    decide +kernel
  rw [hrun, Except.toOption, Option.map_some, hjson] at houtside
  cases houtside

end MyIp.Stats
