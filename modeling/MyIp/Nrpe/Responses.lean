import MyIp.Foundations.Crc
import MyIp.Foundations.Run
import Mathlib.Data.List.GetD

/-! # How often a request is answered

`nrpe_thread` (`nrpe.cpp`) looks at what was received when it starts and whenever it wakes up: after
new data, and every 500 ms. What it has answered stays in the buffer, and the session is there until it
is closed at the other side of the TCP layer. -/

namespace MyIp.Nrpe
set_option autoImplicit false

open Bytes EventMachine

/-- `crc32` (`hash.cpp`) with the polynomial `0xedb88320`. -/
def crc32 (data : List Byte) : BitVec 32 := ~~~Crc.crc 0xedb88320 0xffffffff data

/-- What `collect_performance_metrics` prints: a size, and a percentage with `%f`. -/
structure Metrics where
  text : List Byte
  short : text.length ≤ 400

/-- `OK`, for the versions that are known. -/
def servicePayload (request : List Byte) : List Byte :=
  let version := be16 (request.getD 0 0) (request.getD 1 0)
  if version ≠ 4 ∧ version ≠ 3 then [] else [0x4f, 0x4b]

def responseCode (request : List Byte) : Byte := if servicePayload request = [] then 3 else 0

/-- `reply`, which has 1040 bytes, with its check sum. -/
def replyWith (crc : BitVec 32) (metrics : Metrics) (request : List Byte) : List Byte :=
  let payload := servicePayload request ++ metrics.text
  [request.getD 0 0, request.getD 1 0, 0, 2] ++ be32Bytes crc ++ [0, responseCode request, 0, 0] ++
    be32Bytes (BitVec.ofNat 32 payload.length) ++ payload ++ List.replicate (1024 - payload.length) 0

/-- `send_response`: the bytes that are sent. -/
def sendResponse (metrics : Metrics) (request : List Byte) : List Byte :=
  let totalSize := 16 + (servicePayload request ++ metrics.text).length
  let padding := if request.getD 1 0 = 3 then 3 else 0
  let crc := crc32 ((replyWith 0 metrics request).take (totalSize + padding))
  (replyWith crc metrics request).take totalSize

/-- The length field of a request. -/
def bufferLength (req : List Byte) : BitVec 32 :=
  be32 (req.getD 12 0) (req.getD 13 0) (req.getD 14 0) (req.getD 15 0)

/-- The test of `nrpe_thread`; `16 + buffer_length` is an `int` that becomes a `size_t`. -/
def Ready (req : List Byte) : Prop :=
  16 ≤ req.length ∧ ((16 + bufferLength req).signExtend 64).toNat ≤ req.length ∧
    0 < (bufferLength req).toInt

instance (req : List Byte) : Decidable (Ready req) :=
  inferInstanceAs (Decidable (16 ≤ req.length ∧
    ((16 + bufferLength req).signExtend 64).toNat ≤ req.length ∧ 0 < (bufferLength req).toInt))

/-- `nrpe_session_data`; without data `req_data` is the null pointer. -/
structure State where
  reqData : List Byte
  terminate : Bool
  deriving DecidableEq

def State.init : State := ⟨[], false⟩

/-- A chunk for `nrpe_new_data`, a turn of the loop of `nrpe_thread` (the first one, or one after it woke
up), or `nrpe_close_session_2`. -/
inductive Event
  | data (chunk : List Byte)
  | wake (metrics : Metrics)
  | close

/-- The output is what is sent. There is no session for data that comes behind its end, and no block of
memory of `2 ^ 63` bytes. -/
def step (s : State) : Event → Option (State × Option (List Byte))
  | .data chunk =>
    if s.terminate ∨ 2 ^ 63 ≤ (s.reqData ++ chunk).length then none
    else some ({ s with reqData := s.reqData ++ chunk }, none)
  | .wake metrics =>
    if s.terminate = false ∧ Ready s.reqData then some (s, some (sendResponse metrics s.reqData))
    else some (s, none)
  | .close => some ({ s with terminate := true }, none)

/-- The header and as many bytes as it says. -/
def Complete (req : List Byte) : Prop :=
  16 ≤ req.length ∧ 0 < (bufferLength req).toInt ∧ 16 + (bufferLength req).toInt ≤ req.length

instance (req : List Byte) : Decidable (Complete req) :=
  inferInstanceAs (Decidable (16 ≤ req.length ∧ 0 < (bufferLength req).toInt ∧
    16 + (bufferLength req).toInt ≤ req.length))

abbrev Turn := Move State Event (Option (List Byte))

def Event.isWake : Event → Bool
  | wake _ => true
  | _ => false

/-- How often `send_response` was executed. -/
def responses (tr : List Turn) : ℕ := tr.countP fun m => m.output.isSome

/-- The thread wakes up between the end of the request and the end of the session. -/
def Late (m : Turn) : Prop :=
  m.event.isWake = true ∧ m.before.terminate = false ∧ Complete m.before.reqData

instance (m : Turn) : Decidable (Late m) :=
  inferInstanceAs (Decidable (m.event.isWake = true ∧ m.before.terminate = false ∧
    Complete m.before.reqData))

/-- The end of the request is an `int`. -/
def Addressable (req : List Byte) : Prop := 16 + (bufferLength req).toInt < 2 ^ 31

/-! ## The test of the thread -/

/-- A sum that is no `int` wraps around to a negative one, and that becomes a huge `size_t`. -/
theorem signExtend_toNat (v : BitVec 32) :
    ((v.signExtend 64).toNat : ℤ) = if 0 ≤ v.toInt then v.toInt else v.toInt + 2 ^ 64 := by
  have hwide : (v.signExtend 64).toInt = v.toInt := BitVec.toInt_signExtend_of_le (by decide)
  have hcases := BitVec.toInt_eq_toNat_cond (v.signExtend 64)
  have hbound := (v.signExtend 64).isLt
  rw [hwide] at hcases
  split_ifs at hcases <;> split_ifs <;> omega

theorem ready_iff {req : List Byte} (hlen : req.length < 2 ^ 63) :
    Ready req ↔ Complete req ∧ Addressable req := by
  have hlow := BitVec.le_toInt (bufferLength req)
  have hhigh := BitVec.toInt_lt (x := bufferLength req)
  have hsum : (16 + bufferLength req).toInt = (16 + (bufferLength req).toInt).bmod (2 ^ 32) :=
    BitVec.toInt_add _ _
  have hextend := signExtend_toNat (16 + bufferLength req)
  rw [Ready, Complete, Addressable]
  by_cases hint : 16 + (bufferLength req).toInt < 2 ^ 31
  · rw [Int.bmod_eq_of_le (by omega) (by omega)] at hsum
    rw [hsum] at hextend
    split_ifs at hextend
    · omega
    · omega
  · have hwrapped : (16 + bufferLength req).toInt < 0 := by
      rw [hsum, Int.bmod_def]
      omega
    have hbig := BitVec.le_toInt (16 + bufferLength req)
    rw [if_neg (not_le.mpr hwrapped)] at hextend
    omega

/-! ## Runs -/

/-- What a step sends, and that it keeps what was received. -/
theorem step_facts {s t : State} {ev : Event} {out : Option (List Byte)} (h : step s ev = some (t, out))
    (hlen : s.reqData.length < 2 ^ 63) :
    (out.isSome = true ↔ Late ⟨s, ev, out⟩ ∧ Addressable s.reqData) ∧ s.reqData <+: t.reqData ∧
      t.reqData.length < 2 ^ 63 := by
  cases ev with
  | data chunk =>
    rw [step] at h
    split_ifs at h with hnone
    obtain ⟨rfl, rfl⟩ := h
    rw [not_or] at hnone
    refine ⟨?_, List.prefix_append _ _, not_le.mp hnone.2⟩
    simp [Late, Event.isWake]
  | wake metrics =>
    rw [step] at h
    split_ifs at h with hready
    · obtain ⟨rfl, rfl⟩ := h
      refine ⟨?_, List.prefix_rfl, hlen⟩
      obtain ⟨hcomplete, haddressable⟩ := (ready_iff hlen).mp hready.2
      exact iff_of_true rfl ⟨⟨rfl, hready.1, hcomplete⟩, haddressable⟩
    · obtain ⟨rfl, rfl⟩ := h
      refine ⟨?_, List.prefix_rfl, hlen⟩
      refine iff_of_false Bool.false_ne_true ?_
      rintro ⟨⟨-, hterminate, hcomplete⟩, haddressable⟩
      exact hready ⟨hterminate, (ready_iff hlen).mpr ⟨hcomplete, haddressable⟩⟩
  | close =>
    rw [step] at h
    obtain ⟨rfl, rfl⟩ := h
    refine ⟨?_, List.prefix_rfl, hlen⟩
    simp [Late, Event.isWake]

/-- In a run every response is one of a late wake-up. -/
theorem run_facts {tr : List Turn} {s : State} (run : Run step .init tr s) :
    s.reqData.length < 2 ^ 63 ∧ ∀ m ∈ tr, m.before.reqData <+: s.reqData ∧
      (m.output.isSome = true ↔ Late m ∧ Addressable m.before.reqData) := by
  induction run with
  | nil => exact ⟨by decide, fun m hm => by cases hm⟩
  | @snoc tr t u ev out run made ih =>
    obtain ⟨hlen, hall⟩ := ih
    obtain ⟨hout, hpre, hlen'⟩ := step_facts made hlen
    refine ⟨hlen', fun m hm => ?_⟩
    obtain hm | hm := List.mem_append.mp hm
    · exact ⟨(hall m hm).1.trans hpre, (hall m hm).2⟩
    · obtain rfl := List.mem_singleton.mp hm
      exact ⟨hpre, hout⟩

/-- The length field is there as soon as the header is. -/
theorem bufferLength_of_prefix {req req' : List Byte} (h : req <+: req') (hlen : 16 ≤ req.length) :
    bufferLength req' = bufferLength req := by
  obtain ⟨rest, rfl⟩ := h
  have byte : ∀ i < 16, (req ++ rest).getD i 0 = req.getD i 0 := by
    intro i hi
    exact List.getD_append _ _ _ _ (by omega)
  rw [bufferLength, bufferLength, byte 12 (by decide), byte 13 (by decide), byte 14 (by decide),
    byte 15 (by decide)]

/-- A request that is complete in the end was so at every late wake-up, with the same length. -/
theorem addressable_of_late {m : Turn} (h : Late m) {req : List Byte} (hpre : m.before.reqData <+: req) :
    Addressable m.before.reqData ↔ Addressable req := by
  rw [Addressable, Addressable, bufferLength_of_prefix hpre h.2.2.1]

/-- `send_response` is executed once for a complete request exactly if the end of the request is an
`int` and the thread wakes up once between the end of the request and the end of the session. -/
theorem answered_once_iff {tr : List Turn} {s : State} (run : Run step .init tr s) :
    responses tr = 1 ↔ Addressable s.reqData ∧ tr.countP (fun m => Late m) = 1 := by
  obtain ⟨-, hall⟩ := run_facts run
  by_cases haddressable : Addressable s.reqData
  · have hcount : responses tr = tr.countP fun m => Late m := by
      apply List.countP_congr
      intro m hm
      obtain ⟨hpre, hout⟩ := hall m hm
      rw [decide_eq_true_iff, hout]
      constructor
      · exact fun h => h.1
      · exact fun h => ⟨h, (addressable_of_late h hpre).mpr haddressable⟩
    rw [hcount]
    exact ⟨fun h => ⟨haddressable, h⟩, fun h => h.2⟩
  · have hnone : responses tr = 0 := by
      apply List.countP_eq_zero.mpr
      intro m hm hsome
      obtain ⟨hpre, hout⟩ := hall m hm
      obtain ⟨hlate, hbefore⟩ := hout.mp hsome
      exact haddressable ((addressable_of_late hlate hpre).mp hbefore)
    rw [hnone]
    exact iff_of_false (by decide) fun h => haddressable h.1

namespace Sample

def metrics : Metrics := ⟨[0x7c], by decide⟩

/-- A request of version 3 with two bytes. -/
def request : List Byte := [0, 3, 0, 1, 0, 0, 0, 0, 0, 0, 0, 0, 0, 0, 0, 2, 0x5f, 0]

end Sample

/-- In two chunks, and with one turn after the second of them. -/
theorem answered_once_in_chunks : ∃ tr s, Run step .init tr s ∧ Complete s.reqData ∧
    (responses tr = 1 ↔ Addressable s.reqData ∧ tr.countP (fun m => Late m) = 1) := by
  have hrun := exec_get_run step .init [.wake Sample.metrics, .data (Sample.request.take 9),
    .wake Sample.metrics, .data (Sample.request.drop 9), .wake Sample.metrics, .close] rfl
  exact ⟨_, _, hrun, by decide, answered_once_iff hrun⟩

/-- The thread wakes up once more before the session is closed, and answers again. -/
theorem answered_twice :
    ¬∀ (tr : List Turn) (s : State), Run step .init tr s → Complete s.reqData →
      (∃ m ∈ tr, Late m) → responses tr = 1 := by
  intro h
  have hrun := exec_get_run step .init [.wake Sample.metrics, .data Sample.request,
    .wake Sample.metrics, .wake Sample.metrics, .close] rfl
  exact absurd (h _ _ hrun (by decide) ⟨_, List.mem_of_getElem? (i := 2) rfl, by decide⟩) (by decide)

end MyIp.Nrpe
