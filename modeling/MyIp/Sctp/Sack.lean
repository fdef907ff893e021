import MyIp.Foundations.Serial
import MyIp.Sctp.Chunks

/-! # Acknowledging data

The DATA chunks of one association, in the order in which they come in, each with the callback as
it answers then. `Log` keeps beside the association the TSNs that were given to `new_data` and each
SACK together with what had been delivered when it was made.

What is delivered is a consecutive sequence from the initial TSN on, and `their_tsn` is the TSN
after it (`Log.Inv`). The SACK has `tsn_before`, the `their_tsn` from before the chunk: that is the
highest delivered TSN when the chunk itself was delivered, and one too many otherwise. -/

namespace MyIp.Sctp
set_option autoImplicit false

open Bytes Serial

/-- A DATA chunk without its header, and the callback. -/
structure DataArrival where
  body : List Byte
  newData : Session → List Byte → Bool

/-- The TSN of a chunk that can be read. -/
def DataArrival.tsn (a : DataArrival) : Option (BitVec 32) :=
  match readData (.ofBytes a.body) with
  | .error _ => none
  | .ok data => some data.tsn

theorem DataArrival.exists_of_tsn {a : DataArrival} {tsn : BitVec 32} (h : a.tsn = some tsn) :
    ∃ data, readData (.ofBytes a.body) = .ok data ∧ data.tsn = tsn := by
  rw [DataArrival.tsn] at h
  split at h
  · cases h
  · rename_i data hread
    exact ⟨data, hread, Option.some.inj h⟩

structure Log where
  session : Session
  delivered : List (BitVec 32) := []
  sacks : List (List Byte × List (BitVec 32)) := []

/-- One chunk; one that is cut off makes no SACK. -/
def Log.step (log : Log) (a : DataArrival) : Log :=
  match a.tsn, chunkData log.session (.ofBytes a.body) a.newData with
  | some tsn, .ok handled =>
    let delivered :=
      if handled.delivered.isSome then log.delivered ++ [tsn] else log.delivered
    ⟨handled.session, delivered, log.sacks ++ [(handled.out, delivered)]⟩
  | _, _ => log

def Log.run (s : Session) (arrivals : List DataArrival) : Log :=
  arrivals.foldl Log.step { session := s }

/-- The Cumulative TSN Ack of a SACK. -/
def cumulativeTsn (sack : List Byte) : Option (BitVec 32) :=
  match sack.drop 4 with
  | a :: b :: c :: d :: _ => some (be32 a b c d)
  | _ => none

/-- The SACK acknowledges all that was delivered from the initial TSN on, and nothing else. -/
def Acknowledges (initial : BitVec 32) (entry : List Byte × List (BitVec 32)) : Prop :=
  ∃ t, cumulativeTsn entry.1 = some t ∧ IsHighest initial entry.2 t

theorem cumulativeTsn_sack (tsn : BitVec 32) : cumulativeTsn (sack tsn) = some tsn :=
  congrArg some (be32_be32Bytes tsn)

/-- After `n` chunks that were delivered. -/
structure Log.Inv (initial : BitVec 32) (n : ℕ) (log : Log) : Prop where
  delivered : log.delivered = consecutive initial n
  theirTsn : log.session.theirTsn = initial + BitVec.ofNat 32 n

namespace Log

/-- A chunk that cannot be read changes nothing. -/
theorem step_unreadable {log : Log} {a : DataArrival} (h : a.tsn = none) : log.step a = log := by
  rw [step, h]

/-- The chunk that is expected: the SACK is right. -/
theorem step_expected {initial : BitVec 32} {n : ℕ} {log : Log} {a : DataArrival}
    (hinv : log.Inv initial n) (h : a.tsn = some (initial + BitVec.ofNat 32 n)) :
    (log.step a).Inv initial (n + 1) ∧
      ∃ entry, (log.step a).sacks = log.sacks ++ [entry] ∧ Acknowledges initial entry := by
  obtain ⟨data, hread, htsn⟩ := DataArrival.exists_of_tsn h
  have hexpected : data.tsn = log.session.theirTsn := htsn.trans hinv.theirTsn.symm
  have hdelivered : log.delivered ++ [initial + BitVec.ofNat 32 n] =
      consecutive initial (n + 1) := by
    rw [hinv.delivered, consecutive_succ]
  rw [step, h, chunkData_expected hread hexpected]
  simp only [Option.isSome_some, if_true, hdelivered]
  refine ⟨⟨rfl, ?_⟩, _, rfl, log.session.theirTsn, cumulativeTsn_sack _, ?_⟩
  · rw [add_ofNat_succ, hinv.theirTsn]
  · rw [isHighest_consecutive_iff, hinv.theirTsn, add_ofNat_succ]
    exact (BitVec.add_sub_cancel _ _).symm

/-- Any other chunk: the SACK has a TSN that was not delivered. -/
theorem step_other {initial : BitVec 32} {n : ℕ} {log : Log} {a : DataArrival} {tsn : BitVec 32}
    (hinv : log.Inv initial n) (h : a.tsn = some tsn)
    (hother : tsn ≠ initial + BitVec.ofNat 32 n) :
    ∃ entry ∈ (log.step a).sacks, ¬ Acknowledges initial entry := by
  obtain ⟨data, hread, rfl⟩ := DataArrival.exists_of_tsn h
  have hother' : data.tsn ≠ log.session.theirTsn := by rwa [hinv.theirTsn]
  rw [step, h, chunkData_other hread hother']
  refine ⟨_, List.mem_append_right _ List.mem_cons_self, ?_⟩
  rintro ⟨t, ht, hhighest⟩
  rw [cumulativeTsn_sack] at ht
  obtain rfl := Option.some.inj ht
  simp only [Option.isSome_none, Bool.false_eq_true, if_false, hinv.delivered,
    isHighest_consecutive_iff, hinv.theirTsn] at hhighest
  -- no number is its own predecessor
  generalize initial + BitVec.ofNat 32 n = x at hhighest
  bv_omega

/-- The SACKs that were made stay in the log. -/
theorem mem_sacks_foldl {log : Log} {entry : List Byte × List (BitVec 32)}
    (h : entry ∈ log.sacks) (arrivals : List DataArrival) :
    entry ∈ (arrivals.foldl step log).sacks := by
  induction arrivals generalizing log with
  | nil => exact h
  | cons a arrivals ih =>
    apply ih
    rw [step]
    split
    · exact List.mem_append_left _ h
    · exact h

theorem foldl_acknowledges_iff {initial : BitVec 32} {n : ℕ} {log : Log}
    (hinv : log.Inv initial n) (hsacks : ∀ entry ∈ log.sacks, Acknowledges initial entry)
    (arrivals : List DataArrival) :
    (∀ entry ∈ (arrivals.foldl step log).sacks, Acknowledges initial entry) ↔
      arrivals.filterMap DataArrival.tsn = consecutive (initial + BitVec.ofNat 32 n)
        (arrivals.filterMap DataArrival.tsn).length := by
  induction arrivals generalizing n log with
  | nil => exact ⟨fun _ => rfl, fun _ => hsacks⟩
  | cons a arrivals ih =>
    rw [List.foldl_cons]
    cases h : a.tsn with
    | none =>
      rw [step_unreadable h, List.filterMap_cons_none h]
      exact ih hinv hsacks
    | some tsn =>
      rw [List.filterMap_cons_some h, List.length_cons, consecutive_cons, List.cons.injEq]
      by_cases hexpected : tsn = initial + BitVec.ofNat 32 n
      · obtain ⟨hinv', entry, hentry, hack⟩ := step_expected hinv (hexpected ▸ h)
        have hsacks' : ∀ e ∈ (log.step a).sacks, Acknowledges initial e := by
          intro e he
          rw [hentry] at he
          rcases List.mem_append.mp he with he | he
          · exact hsacks e he
          · rw [List.mem_singleton.mp he]
            exact hack
        rw [ih hinv' hsacks', add_ofNat_succ]
        exact ⟨fun h => ⟨hexpected, h⟩, fun h => h.2⟩
      · obtain ⟨entry, hentry, hnot⟩ := step_other hinv h hexpected
        constructor
        · intro hall
          exact absurd (hall entry (mem_sacks_foldl hentry arrivals)) hnot
        · intro hall
          exact absurd hall.1 hexpected

/-- Every SACK of an association acknowledges exactly what was delivered, if and only if the chunks
come with consecutive TSNs from the initial one on: none lost, none twice, none out of order. -/
theorem sacks_acknowledge_iff (s : Session) (arrivals : List DataArrival) :
    (∀ entry ∈ (run s arrivals).sacks, Acknowledges s.theirTsn entry) ↔
      arrivals.filterMap DataArrival.tsn =
        consecutive s.theirTsn (arrivals.filterMap DataArrival.tsn).length := by
  have hinv : Log.Inv s.theirTsn 0 { session := s } := ⟨rfl, (BitVec.add_zero _).symm⟩
  have h := foldl_acknowledges_iff hinv (by simp) arrivals
  rwa [show s.theirTsn + BitVec.ofNat 32 0 = s.theirTsn from BitVec.add_zero _] at h

/-- TSN 8 comes while TSN 7 is on its way: the SACK acknowledges TSN 7. -/
theorem sack_before_delivery :
    (run sampleSession
          [⟨[0, 0, 0, 8, 0, 0, 0, 1, 0, 0, 0, 0, 0x68, 0x69], fun _ _ => true⟩]).sacks =
        [([3, 3, 0, 16, 0, 0, 0, 7, 0, 0, 16, 0, 0, 0, 0, 0], [])] ∧
      ¬ ∀ entry ∈ (run sampleSession
          [⟨[0, 0, 0, 8, 0, 0, 0, 1, 0, 0, 0, 0, 0x68, 0x69], fun _ _ => true⟩]).sacks,
        Acknowledges 7 entry := by
  have hinv : Log.Inv 7 0 { session := sampleSession } := ⟨rfl, rfl⟩
  obtain ⟨entry, hentry, hnot⟩ := step_other hinv
    (a := ⟨[0, 0, 0, 8, 0, 0, 0, 1, 0, 0, 0, 0, 0x68, 0x69], fun _ _ => true⟩)
    (show _ = some (8 : BitVec 32) from rfl)
    (by decide)
  exact ⟨rfl, fun hall => hnot (hall entry hentry)⟩

end Log

end MyIp.Sctp
