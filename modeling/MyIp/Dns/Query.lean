import MyIp.Dns.Request

/-! # Queries

`dns::query` (`dns.cpp`): each turn of its loop goes on from the name that the turn before ended with.
It sends one request for the name that it starts with, and one whenever CNAME records lead to another.
Between two turns the lock is free, so that the caches of a turn may be any. -/

namespace MyIp.Dns
set_option autoImplicit false

open Bytes
open Net (strTolower)

/-- What a turn of the loop sees. -/
structure Turn where
  dns : Dns
  now : ℤ

/-- The loop over the CNAME records: "cname max depth is 8 here". -/
def followCnames (turn : Turn) : ℕ → Name → Bool → Name × Bool
  | 0, work, sendReq => (work, sendReq)
  | depth + 1, work, sendReq =>
    match turn.dns.cnameCache work with
    | none => (work, sendReq)
    | some itc =>
      if itc.maxAge ≤ turn.now - itc.t then (work, sendReq)
      else followCnames turn depth itc.name true

/-- The address of `work`, with a record that is not too old. The age is an `int`. -/
def lookup (turn : Turn) (work : Name) : Option AnyAddr := do
  let ita ← turn.dns.aAaaaCache work
  let age := (BitVec.ofInt 32 (turn.now - ita.t)).toInt
  if age < ita.maxAge then some ita.a else none

/-- "Sending DNS resolve request for" a name. -/
structure Sent where
  work : Name
  buffer : List Byte

/-- The turns of `query`: what is sent in them, and the address that they end with. -/
def queryLoop : List Turn → Name → Bool → Option (List Sent × Option AnyAddr)
  | [], _, _ => some ([], none)
  | turn :: turns, work, sendReq =>
    let (work, sendReq) := followCnames turn 8 work sendReq
    match lookup turn work with
    | some a => some ([], some a)
    | none =>
      if sendReq then do
        let buffer ← request work
        let (sent, a) ← queryLoop turns work false
        some (⟨work, buffer⟩ :: sent, a)
      else queryLoop turns work false

/-- `dns::query` with the turns that it makes until it returns. -/
def query (name : Name) (turns : List Turn) : Option (List Sent × Option AnyAddr) :=
  queryLoop turns (strTolower name) true

/-- Every request is built inside its buffer, and its question is for the name in lower case. -/
def Built (result : Option (List Sent × Option AnyAddr)) : Prop :=
  ∃ sent a, result = some (sent, a) ∧ ∀ s ∈ sent, QuestionIs s.buffer (strTolower s.work)

/-! ## The names that are asked for -/

/-- So many records, none of them too old, lead from a name to a name. -/
inductive Leads (turn : Turn) : ℕ → Name → Name → Prop
  | here (work : Name) : Leads turn 0 work work
  | next {depth : ℕ} {work work' : Name} {itc : CnameRec}
      (hitc : turn.dns.cnameCache work = some itc) (hage : turn.now - itc.t < itc.maxAge)
      (h : Leads turn depth itc.name work') : Leads turn (depth + 1) work work'

def Last (turn : Turn) (work : Name) : Prop :=
  ∀ itc, turn.dns.cnameCache work = some itc → itc.maxAge ≤ turn.now - itc.t

/-- The name that a turn ends with: no record leads on from it, or there were `most`. -/
structure EndsWith (turn : Turn) (most depth : ℕ) (work work' : Name) : Prop where
  leads : Leads turn depth work work'
  depth_le : depth ≤ most
  last : depth < most → Last turn work'

/-- The names that turns ask for, from the name that the turn before ended with. In a turn that finds
no address it is the one that the turn ends with, if it is the first turn or a record leads there. -/
inductive Asks : List Turn → Name → Bool → Name → Prop
  | now {turn : Turn} {turns : List Turn} {depth : ℕ} {work work' : Name} {sendReq : Bool}
      (hend : EndsWith turn 8 depth work work') (hnone : lookup turn work' = none)
      (hsend : sendReq = true ∨ 0 < depth) : Asks (turn :: turns) work sendReq work'
  | later {turn : Turn} {turns : List Turn} {depth : ℕ} {work work' asked : Name} {sendReq : Bool}
      (hend : EndsWith turn 8 depth work work') (hnone : lookup turn work' = none)
      (h : Asks turns work' false asked) : Asks (turn :: turns) work sendReq asked

theorem followCnames_leads {turn : Turn} {most depth : ℕ} {work work' : Name} (sendReq : Bool)
    (h : EndsWith turn most depth work work') :
    followCnames turn most work sendReq = (work', sendReq || decide (0 < depth)) := by
  obtain ⟨hleads, hle, hlast⟩ := h
  induction hleads generalizing most sendReq with
  | here work =>
    cases most with
    | zero => simp [followCnames]
    | succ most =>
      rw [followCnames]
      cases hitc : turn.dns.cnameCache work with
      | none => simp
      | some itc => simp [hlast (Nat.succ_pos _) itc hitc]
  | @next depth work work' itc hitc hage _ ih =>
    obtain ⟨most, rfl⟩ : ∃ k, most = k + 1 := ⟨most - 1, by omega⟩
    have hnext := ih true (Nat.le_of_succ_le_succ hle) fun h => hlast (Nat.succ_lt_succ h)
    rw [followCnames, hitc]
    simp [not_le.mpr hage, hnext]

theorem exists_endsWith (turn : Turn) (most : ℕ) (work : Name) :
    ∃ depth work', EndsWith turn most depth work work' := by
  induction most generalizing work with
  | zero => exact ⟨0, work, .here work, Nat.le_refl 0, nofun⟩
  | succ most ih =>
    by_cases hlast : Last turn work
    · exact ⟨0, work, .here work, Nat.zero_le _, fun _ => hlast⟩
    · simp only [Last, not_forall, not_le] at hlast
      obtain ⟨itc, hitc, hage⟩ := hlast
      obtain ⟨depth, work', hleads, hle, hlast⟩ := ih itc.name
      exact ⟨depth + 1, work', .next hitc hage hleads, Nat.succ_le_succ hle,
        fun h => hlast (Nat.lt_of_succ_lt_succ h)⟩

theorem EndsWith.unique {turn : Turn} {most depth depth' : ℕ} {work work' work'' : Name}
    (h : EndsWith turn most depth work work') (h' : EndsWith turn most depth' work work'') :
    work' = work'' ∧ (0 < depth ↔ 0 < depth') := by
  -- Both are what the function computes.
  have heq := (followCnames_leads false h).symm.trans (followCnames_leads false h')
  obtain ⟨hwork, hdepth⟩ := Prod.mk.inj heq
  exact ⟨hwork, by simpa using hdepth⟩

theorem asks_cons_iff {turn : Turn} {turns : List Turn} {depth : ℕ} {work work' asked : Name}
    {sendReq : Bool} (hend : EndsWith turn 8 depth work work') :
    Asks (turn :: turns) work sendReq asked ↔ lookup turn work' = none ∧
      ((sendReq = true ∨ 0 < depth) ∧ asked = work' ∨ Asks turns work' false asked) := by
  constructor
  · intro h
    cases h with
    | now hend' hnone hsend =>
      obtain ⟨rfl, hdepth⟩ := hend.unique hend'
      exact ⟨hnone, .inl ⟨hsend.imp_right hdepth.mpr, rfl⟩⟩
    | later hend' hnone h =>
      obtain ⟨rfl, -⟩ := hend.unique hend'
      exact ⟨hnone, .inr h⟩
  · rintro ⟨hnone, ⟨hsend, rfl⟩ | h⟩
    · exact .now hend hnone hsend
    · exact .later hend hnone h

/-! ## The requests of a query -/

theorem built_nothing (a : Option AnyAddr) : Built (some ([], a)) := ⟨[], a, rfl, nofun⟩

theorem built_send_iff (work : Name) (result : Option (List Sent × Option AnyAddr)) :
    (Built do
        let buffer ← request work
        let (sent, a) ← result
        some (⟨work, buffer⟩ :: sent, a)) ↔ Encodable work ∧ Built result := by
  rw [← questionIs_iff]
  constructor
  · rintro ⟨all, address, hresult, hall⟩
    obtain ⟨buffer, hbuffer, hresult⟩ := Option.bind_eq_some_iff.mp hresult
    obtain ⟨⟨sent, a⟩, rfl, heq⟩ := Option.bind_eq_some_iff.mp hresult
    obtain ⟨rfl, rfl⟩ := Prod.mk.inj (Option.some.inj heq)
    obtain ⟨hfirst, hothers⟩ := List.forall_mem_cons.mp hall
    exact ⟨⟨buffer, hbuffer, hfirst⟩, sent, a, rfl, hothers⟩
  · rintro ⟨⟨buffer, hbuffer, hfirst⟩, sent, a, rfl, hothers⟩
    refine ⟨⟨work, buffer⟩ :: sent, a, ?_, List.forall_mem_cons.mpr ⟨hfirst, hothers⟩⟩
    rw [hbuffer]
    rfl

theorem queryLoop_iff (turns : List Turn) (work : Name) (sendReq : Bool) :
    Built (queryLoop turns work sendReq) ↔
      ∀ asked, Asks turns work sendReq asked → Encodable asked := by
  induction turns generalizing work sendReq with
  | nil => exact iff_of_true (built_nothing none) nofun
  | cons turn turns ih =>
    obtain ⟨depth, work', hend⟩ := exists_endsWith turn 8 work
    simp only [asks_cons_iff hend, queryLoop, followCnames_leads sendReq hend]
    cases hlookup : lookup turn work' with
    | some a => exact iff_of_true (built_nothing (some a)) nofun
    | none =>
      dsimp only
      by_cases hsend : (sendReq || decide (0 < depth)) = true
      · rw [if_pos hsend, built_send_iff, ih]
        simp only [Bool.or_eq_true, decide_eq_true_iff] at hsend
        simp [hsend, or_imp, forall_and]
      · rw [if_neg hsend, ih]
        simp only [Bool.or_eq_true, decide_eq_true_iff] at hsend
        simp [hsend]

/-- In every query each request is built inside the buffer, with a question for the name in lower case,
exactly if each name that is asked for can be. -/
theorem built_query_iff (name : Name) (turns : List Turn) :
    Built (query name turns) ↔
      ∀ asked, Asks turns (strTolower name) true asked → Encodable asked :=
  queryLoop_iff turns (strTolower name) true

def Target (turn : Turn) (work : Name) : Prop :=
  ∃ name itc, turn.dns.cnameCache name = some itc ∧ work = itc.name

theorem Leads.eq_or_target {turn : Turn} {depth : ℕ} {work work' : Name}
    (h : Leads turn depth work work') : work' = work ∨ Target turn work' := by
  induction h with
  | here work => exact .inl rfl
  | @next _ work _ itc hitc _ _ ih =>
    rcases ih with rfl | htarget
    · exact .inr ⟨work, itc, hitc, rfl⟩
    · exact .inr htarget

theorem Asks.eq_or_target {turns : List Turn} {work asked : Name} {sendReq : Bool}
    (h : Asks turns work sendReq asked) : asked = work ∨ ∃ turn ∈ turns, Target turn asked := by
  induction h with
  | now hend _ _ =>
    exact hend.leads.eq_or_target.imp_right fun htarget => ⟨_, List.mem_cons_self, htarget⟩
  | later hend _ _ ih =>
    rcases ih with rfl | ⟨turn, hturn, htarget⟩
    · exact hend.leads.eq_or_target.imp_right fun htarget => ⟨_, List.mem_cons_self, htarget⟩
    · exact .inr ⟨turn, List.mem_cons_of_mem _ hturn, htarget⟩

/-- It is enough that the name of the query and the targets of all records can be asked for. -/
theorem built_query_of_encodable {name : Name} {turns : List Turn}
    (hname : Encodable (strTolower name))
    (htargets : ∀ turn ∈ turns, ∀ work, Target turn work → Encodable work) :
    Built (query name turns) := by
  refine (queryLoop_iff turns (strTolower name) true).mpr fun asked hasked => ?_
  rcases hasked.eq_or_target with rfl | ⟨turn, hturn, htarget⟩
  · exact hname
  · exact htargets turn hturn asked htarget

/-! ## Names from outside -/

/-- `get_0x00_terminated_string` (`socks_proxy.cpp`), for all that the client sends before it is done. -/
def get0x00TerminatedString : List Byte → Name
  | [] => []
  | buffer :: fd => if buffer = 0 then [] else buffer :: get0x00TerminatedString fd

/-- A client can have any name resolved in which there is no zero byte. -/
theorem get0x00TerminatedString_append {name : Name} (h : 0 ∉ name) (fd : List Byte) :
    get0x00TerminatedString (name ++ 0 :: fd) = name := by
  induction name with
  | nil => rfl
  | cons c name ih =>
    rw [List.mem_cons, not_or] at h
    rw [List.cons_append, get0x00TerminatedString, if_neg (Ne.symm h.1), ih h.2]

namespace Sample

def longHost : List Byte := List.replicate 239 0x61 ++ [0]

def turn : Turn := ⟨⟨.ipv4 192 0 2 53, fun _ => none, fun _ => none⟩, 0⟩

end Sample

/-- For that the buffer is a byte too short. -/
theorem not_built_query :
    ¬Built (query (get0x00TerminatedString Sample.longHost) [Sample.turn]) := by
  rintro ⟨sent, a, h, -⟩
  have hnone : (query (get0x00TerminatedString Sample.longHost) [Sample.turn]).isNone := by
    decide +kernel
  rw [h] at hnone
  cases hnone

end MyIp.Dns
