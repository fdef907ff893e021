import MyIp.Tcp.LayerSteps

/-! # A pass of `tcp::session_cleaner`

The pass holds `sessions_lock` for itself from its first to its last turn, so that the table changes
only by its own hand, and `in_init`, which is only cleared under that lock, does not change at all.
`cleanerLoop` is the `for` loop over the iterator; it tells which sessions it looked at. -/

namespace MyIp.Tcp
open Bytes EventMachine
set_option autoImplicit false

variable {κ : Type}

/-- The removal of a session, when the queue has room for it. -/
def toEnding (t : Layer κ) (key : BitVec 64) (obj : ℕ) (ts : TcpSession) : Layer κ :=
  { t with
    tcpClients := if ts.isClient then t.tcpClients.erase (portNr ts.myPort) else t.tcpClients
    endingSessions := t.endingSessions ++ [obj]
    sessions := t.sessions.erase key }

/-- The loop with `it` at the first entry of the list: the keys of the sessions that were looked at,
one for each turn, and the layer after it. `none`: it is not left within `fuel` turns. For a session
with `in_init` the iterator is not moved. -/
def cleanerLoop (now : BitVec 64) :
    (fuel : ℕ) → List (BitVec 64 × ℕ) → Layer κ → Option (List (BitVec 64) × Layer κ)
  | _, [], t => some ([], t)
  | 0, _ :: _, _ => none
  | fuel + 1, (key, obj) :: rest, t =>
    match t.objects obj with
    | none => none
    | some ts =>
      (if ts.inInit then cleanerLoop now fuel ((key, obj) :: rest) t
        else if expired now ts then cleanerLoop now fuel rest (toEnding t key obj ts)
        else cleanerLoop now fuel rest t).map fun r => (key :: r.1, r.2)

def cleanerPass (now : BitVec 64) (fuel : ℕ) (t : Layer κ) :
    Option (List (BitVec 64) × Layer κ) :=
  cleanerLoop now fuel t.sessions.toList t

def isExpired (now : BitVec 64) (objects : ℕ → Option TcpSession) (obj : ℕ) : Bool :=
  match objects obj with
  | none => false
  | some ts => expired now ts

/-- The session at `obj` is being connected. -/
def isConnecting (objects : ℕ → Option TcpSession) (obj : ℕ) : Bool :=
  match objects obj with
  | none => false
  | some ts => ts.inInit

/-- What the turn for one entry does to the layer. -/
def sweepEntry (now : BitVec 64) (t : Layer κ) (e : BitVec 64 × ℕ) : Layer κ :=
  match t.objects e.2 with
  | none => t
  | some ts => if expired now ts then toEnding t e.1 e.2 ts else t

/-- The whole table, entry by entry. -/
def sweepTable (now : BitVec 64) (rest : List (BitVec 64 × ℕ)) (t : Layer κ) : Layer κ :=
  rest.foldl (sweepEntry now) t

theorem sweepEntry_objects (now : BitVec 64) (t : Layer κ) (e : BitVec 64 × ℕ) :
    (sweepEntry now t e).objects = t.objects := by
  unfold sweepEntry
  split
  · rfl
  · split <;> rfl

theorem cleanerLoop_eq_sweep {now : BitVec 64} {fuel : ℕ} {rest : List (BitVec 64 × ℕ)}
    {t : Layer κ} (alive : ∀ e ∈ rest, (t.objects e.2).isSome)
    (connected : ∀ e ∈ rest, isConnecting t.objects e.2 = false) (enough : rest.length ≤ fuel) :
    cleanerLoop now fuel rest t = some (rest.map (·.1), sweepTable now rest t) := by
  induction rest generalizing fuel t with
  | nil =>
    rw [cleanerLoop]
    rfl
  | cons e rest ih =>
    obtain ⟨key, obj⟩ := e
    cases fuel with
    | zero => simp at enough
    | succ fuel =>
      obtain ⟨ts, hobj⟩ := Option.isSome_iff_exists.mp (alive _ (List.mem_cons_self ..))
      have hinit : ts.inInit = false := by
        simpa [isConnecting, hobj] using connected _ (List.mem_cons_self ..)
      have hlen : rest.length ≤ fuel := by simpa using enough
      have hrest : ∀ t' : Layer κ, t'.objects = t.objects →
          cleanerLoop now fuel rest t' = some (rest.map (·.1), sweepTable now rest t') := by
        intro t' ho
        refine ih ?_ ?_ hlen
        · intro e he
          rw [ho]
          exact alive e (List.mem_cons_of_mem _ he)
        · intro e he
          rw [ho]
          exact connected e (List.mem_cons_of_mem _ he)
      have hentry : sweepEntry now t (key, obj) =
          if expired now ts then toEnding t key obj ts else t := by
        simp only [sweepEntry, hobj]
      rw [cleanerLoop, hobj]
      simp only [hinit, Bool.false_eq_true, if_false, List.map_cons, sweepTable, List.foldl_cons,
        hentry]
      split
      · rw [hrest (toEnding t key obj ts) rfl]
        rfl
      · rw [hrest t rfl]
        rfl

theorem sweepEntry_ending (now : BitVec 64) (t : Layer κ) (e : BitVec 64 × ℕ) :
    (sweepEntry now t e).endingSessions =
      t.endingSessions ++ if isExpired now t.objects e.2 then [e.2] else [] := by
  unfold sweepEntry isExpired
  cases t.objects e.2 with
  | none => simp
  | some ts =>
    dsimp only
    split
    · rfl
    · simp

theorem sweepEntry_sessions (now : BitVec 64) (t : Layer κ) (e : BitVec 64 × ℕ) (key : BitVec 64) :
    (sweepEntry now t e).sessions[key]? =
      if e.1 = key ∧ isExpired now t.objects e.2 then none else t.sessions[key]? := by
  unfold sweepEntry isExpired
  cases t.objects e.2 with
  | none => simp
  | some ts =>
    dsimp only
    by_cases hexp : expired now ts
    · rw [if_pos hexp, toEnding, Std.TreeMap.getElem?_erase]
      by_cases hk : e.1 = key
      · simp [hk, hexp]
      · simp [hk]
    · simp [hexp]

/-- With room in the queue, the turn for a session is the visit of the cleaner thread. -/
theorem cleanerVisit_eq_sweep {now : BitVec 64} {t : Layer κ} {key : BitVec 64} {obj : ℕ}
    (listed : t.sessions[key]? = some obj) (alive : (t.objects obj).isSome)
    (connected : isConnecting t.objects obj = false) (room : t.endingSessions.length < 256) :
    cleanerVisit t key now = some (sweepEntry now t (key, obj), []) := by
  obtain ⟨ts, hobj⟩ := Option.isSome_iff_exists.mp alive
  have hinit : ts.inInit = false := by simpa [isConnecting, hobj] using connected
  simp only [cleanerVisit, listed, hobj, hinit, Bool.false_eq_true, if_false, sweepEntry]
  split
  · simp only [endObject, room, if_true, toEnding]
  · rfl

/-- A pass over distinct sessions is a run of the layer, visit after visit. -/
theorem sweepTable_run (now : BitVec 64) {rest : List (BitVec 64 × ℕ)} {t : Layer κ}
    (runs : (t.crashed || t.stopped) = false) (distinct : (rest.map (·.1)).Nodup)
    (listed : ∀ e ∈ rest, t.sessions[e.1]? = some e.2) (alive : ∀ e ∈ rest, (t.objects e.2).isSome)
    (connected : ∀ e ∈ rest, isConnecting t.objects e.2 = false)
    (room : t.endingSessions.length + rest.length ≤ 256) :
    ∃ tr : List (LayerMove κ), Run layerStep t tr (sweepTable now rest t) ∧
      tr.map (·.event) = rest.map fun e => .cleanerVisit e.1 now := by
  induction rest generalizing t with
  | nil => exact ⟨[], Run.nil, rfl⟩
  | cons e rest ih =>
    simp only [List.map_cons, List.nodup_cons] at distinct
    simp only [List.length_cons] at room
    have hstep : layerStep t (.cleanerVisit e.1 now) = some (sweepEntry now t e, []) := by
      rw [layerStep, runs]
      exact cleanerVisit_eq_sweep (listed e (List.mem_cons_self ..))
        (alive e (List.mem_cons_self ..))
        (connected e (List.mem_cons_self ..)) (by omega)
    have hobj := sweepEntry_objects now t e
    have hruns : ((sweepEntry now t e).crashed || (sweepEntry now t e).stopped) = false := by
      rw [← runs]
      unfold sweepEntry
      split
      · rfl
      · split <;> rfl
    have hlisted : ∀ e' ∈ rest, (sweepEntry now t e).sessions[e'.1]? = some e'.2 := by
      intro e' he
      have hne : e.1 ≠ e'.1 := fun h => distinct.1 (h ▸ List.mem_map_of_mem he)
      rw [sweepEntry_sessions, if_neg (fun h => hne h.1)]
      exact listed e' (List.mem_cons_of_mem _ he)
    have hroom : (sweepEntry now t e).endingSessions.length + rest.length ≤ 256 := by
      rw [sweepEntry_ending, List.length_append]
      split
      · simp only [List.length_singleton]
        omega
      · simp only [List.length_nil]
        omega
    obtain ⟨tr, hrun, hev⟩ := ih hruns distinct.2 hlisted
      (fun e' he => by rw [hobj]; exact alive e' (List.mem_cons_of_mem _ he))
      (fun e' he => by rw [hobj]; exact connected e' (List.mem_cons_of_mem _ he)) hroom
    exact ⟨_ :: tr, (Run.single hstep).trans hrun, by simp [hev]⟩

/-! ## One pass -/

section Pass
variable {now : BitVec 64} {t : Layer κ} (inv : LayerInv t)

theorem mem_table {e : BitVec 64 × ℕ} (h : e ∈ t.sessions.toList) : t.sessions[e.1]? = some e.2 :=
  Std.TreeMap.mem_toList_iff_getElem?_eq_some.mp h

include inv

theorem LayerInv.alive {e : BitVec 64 × ℕ} (h : e ∈ t.sessions.toList) :
    (t.objects e.2).isSome := by
  obtain ⟨ts, hobj, -⟩ := inv.table _ _ (mem_table h)
  rw [hobj]
  rfl

theorem cleanerPass_connected (h : ∀ obj ∈ t.tableObjects, isConnecting t.objects obj = false) :
    cleanerPass now t.sessions.toList.length t =
      some (t.sessions.keys, sweepTable now t.sessions.toList t) := by
  rw [cleanerPass, ← Std.TreeMap.map_fst_toList_eq_keys]
  exact cleanerLoop_eq_sweep (fun _ => inv.alive)
    (fun e he => h e.2 (List.mem_map_of_mem he)) le_rfl

/-- With room for all of them in the queue, the pass is a run of the layer that visits session after
session. -/
theorem cleanerPass_run (h : ∀ obj ∈ t.tableObjects, isConnecting t.objects obj = false)
    (runs : (t.crashed || t.stopped) = false)
    (room : t.endingSessions.length + t.sessions.size ≤ 256) :
    ∃ (tr : List (LayerMove κ)) (t' : Layer κ),
      cleanerPass now t.sessions.toList.length t = some (t.sessions.keys, t') ∧
      Run layerStep t tr t' ∧ tr.map (·.event) = t.sessions.keys.map (.cleanerVisit · now) := by
  have hdistinct : (t.sessions.toList.map (·.1)).Nodup := by
    rw [Std.TreeMap.map_fst_toList_eq_keys]
    exact Std.TreeMap.nodup_keys
  obtain ⟨tr, hrun, hev⟩ := sweepTable_run now runs hdistinct (fun _ => mem_table)
    (fun _ => inv.alive) (fun e he => h e.2 (List.mem_map_of_mem he))
    (by rw [Std.TreeMap.length_toList]; exact room)
  refine ⟨tr, _, cleanerPass_connected inv h, hrun, ?_⟩
  rw [hev, ← Std.TreeMap.map_fst_toList_eq_keys, List.map_map]
  rfl

end Pass

end MyIp.Tcp
