import MyIp.Tcp.LayerRuns

/-! # The end of a session

Sessions that were taken out of the table go through the queue of the ender thread, whoever took
them out. It invokes `session_closed_2`, and `free_tcp_session`, which it calls then, invokes
`session_closed_1` and `session_closed_2` (`close_notifications_never`). The destructor ends before
it comes to any session. -/

namespace MyIp.Tcp
open Bytes EventMachine
set_option autoImplicit false

variable {κ : Type}

theorem sessionEvent_ne_segment {t : Layer κ} {e : LayerEvent κ} {obj : ℕ} {c : Call κ} :
    e.sessionEvent t ≠ some (obj, .segment c) := by
  intro h
  cases e with
  | unackedVisit key now us rc =>
    simp only [LayerEvent.sessionEvent] at h
    split at h <;> simp at h
  | _ => simp [LayerEvent.sessionEvent] at h

/-! ## The notifications of the end of a session -/

def Act.isSessionClosed1 : Act κ → Bool
  | .sessionClosed1 _ => true
  | _ => false

def Act.isSessionClosed2 : Act κ → Bool
  | .sessionClosed2 _ => true
  | _ => false

/-- Only segments make the layer call the application on behalf of a session. -/
theorem sessionStep_callback {ts ts' : TcpSession} {e : SessionEvent κ} {acts : List (Act κ)}
    (made : sessionStep ts e = some (ts', acts)) {a : Act κ} (ha : a ∈ acts)
    (hcall : a.isCallback = true) :
    ∃ c tsEcr, e = .segment c ∧ acts = (processSegment c tsEcr ts).acts := by
  cases sessionStep_change made with
  | segment c tsEcr _ => exact ⟨c, tsEcr, rfl, rfl⟩
  | append => simp at ha
  | fin idev us last seq new _ replies =>
    rcases List.mem_append.mp ha with ha | ha
    · rw [(replies a ha).not_callback] at hcall
      cases hcall
    · obtain rfl := List.mem_singleton.mp ha
      cases hcall
  | visit idev now us rc _ _ visited =>
    obtain ⟨off, n, -, -, us', rfl⟩ := unackedVisit_acts visited a ha
    cases hcall
  | wait idev us counter last inInit _ _ resends =>
    obtain ⟨⟨us', ackTo, seq, tsEcr, rfl⟩, -⟩ := resends a ha
    cases hcall
  | quiet => simp at ha

theorem processSegment_closed2 {c : Call κ} {tsEcr : BitVec 32} {ts : TcpSession} :
    ∀ a ∈ (processSegment c tsEcr ts).acts, a.isSessionClosed2 = false := by
  intro a ha
  by_contra hclosed
  obtain ⟨cb, rfl⟩ : ∃ cb, a = .sessionClosed2 cb := by
    cases a <;> simp_all [Act.isSessionClosed2]
  cases processSegment_acts c tsEcr ts _ ha with
  | flag _ h =>
    obtain ⟨cb', rc, he⟩ := h.callback rfl
    cases he
  | reply _ _ h => cases h.not_callback

theorem session_run_closed2 {s0 s : TcpSession} {str : List (SessionMove κ)}
    (run : Run sessionStep s0 str s) : ∀ a ∈ actsOf str, a.isSessionClosed2 = false := by
  intro a ha
  obtain ⟨m, hm, ha⟩ := List.mem_flatMap.mp ha
  obtain ⟨pre, post, u, -, -, made⟩ := run.move_origin m hm
  by_contra hclosed
  have hcall : a.isCallback = true := by
    cases a <;> simp_all [Act.isSessionClosed2, Act.isCallback]
  obtain ⟨c, tsEcr, -, hacts⟩ := sessionStep_callback made ha hcall
  rw [hacts] at ha
  exact hclosed (processSegment_closed2 a ha)

theorem alive_closed2 {t : Layer κ} {tr : List (LayerMove κ)} (run : Run layerStep {} tr t)
    (runs : t.crashed = false) {obj : ℕ} {ts : TcpSession} (alive : t.objects obj = some ts) :
    (log tr obj).countP Act.isSessionClosed2 = 0 := by
  have proj := layer_run_projects run
  obtain ⟨s0, s, acts0, str, closing, hp⟩ := proj.projects obj (proj.lt_next alive)
  have hnone : closing = [] := (hp.now ts alive).2.resolve_right (by simp [runs])
  have hopen : ∀ a ∈ acts0, a.isSessionClosed2 = false := by
    cases hp.opened with
    | server => simp
    | client => simp [openClientSession, sendSegment, Act.isSessionClosed2]
  rw [hp.history, hnone, List.append_nil, List.countP_eq_zero]
  intro a ha
  rcases List.mem_append.mp ha with ha | ha
  · simp [hopen a ha]
  · simp [session_run_closed2 hp.run a ha]

def HasClosed2 (listeners : Std.TreeMap ℤ (PortHandler κ)) (ts : TcpSession) : Prop :=
  ∃ handler cb, listeners[portNr ts.myPort]? = some handler ∧ handler.sessionClosed2 = some cb

theorem enderCalls_closed2 (listeners : Std.TreeMap ℤ (PortHandler κ)) (ts : TcpSession) :
    (enderCalls listeners ts).countP Act.isSessionClosed2 = 1 ↔ HasClosed2 listeners ts := by
  rw [enderCalls, HasClosed2]
  cases listeners[portNr ts.myPort]? with
  | none => simp
  | some handler => cases h : handler.sessionClosed2 <;> simp [h, Act.isSessionClosed2]

theorem enderCalls_closed2_le (listeners : Std.TreeMap ℤ (PortHandler κ)) (ts : TcpSession) :
    (enderCalls listeners ts).countP Act.isSessionClosed2 ≤ 1 := by
  rw [enderCalls]
  cases listeners[portNr ts.myPort]? with
  | none => simp
  | some handler => cases h : handler.sessionClosed2 <;> simp [h, Act.isSessionClosed2]

theorem closeCalls_closed2 (listeners : Std.TreeMap ℤ (PortHandler κ)) (ts : TcpSession) :
    (closeCalls listeners ts).countP Act.isSessionClosed2 =
      (enderCalls listeners ts).countP Act.isSessionClosed2 := by
  rw [closeCalls, enderCalls]
  cases listeners[portNr ts.myPort]? with
  | none => rfl
  | some handler =>
    cases h1 : handler.sessionClosed1 <;> cases h2 : handler.sessionClosed2 <;>
      simp [h1, h2, Act.isSessionClosed2]

/-- Whenever a session is given back, in whatever run, it is by the ender thread, and
`session_closed_2` was invoked for it twice, or not at all if its port has no handler with one:
never exactly once. -/
theorem close_notifications_never {t t' : Layer κ} {tr : List (LayerMove κ)} {e : LayerEvent κ}
    {acts : List (LayerAct κ)} (run : Run layerStep {} tr t)
    (made : layerStep t e = some (t', acts)) {obj : ℕ} {ts : TcpSession}
    (alive : t.objects obj = some ts) (gone : t'.objects obj = none) :
    ¬((log (tr ++ [⟨t, e, acts⟩]) obj).countP Act.isSessionClosed2 = 1 ∧
      (log (tr ++ [⟨t, e, acts⟩]) obj).countP Act.isSessionClosed1 ≤ 1) ∧
    ((log (tr ++ [⟨t, e, acts⟩]) obj).countP Act.isSessionClosed2 = 2 ↔
      HasClosed2 t.listeners ts) := by
  have hzero := alive_closed2 run (layerStep_change made).1 alive
  have hender := enderCalls_closed2 t.listeners ts
  have hle := enderCalls_closed2_le t.listeners ts
  rw [log_snoc, List.countP_append, List.countP_append, hzero, Nat.zero_add, ← hender]
  have hc := layerStep_object made obj
  generalize actsOn obj acts = objActs at hc
  cases hc with
  | still same => cases (same.symm.trans gone).symm.trans alive
  | segment _ _ _ _ _ _ _ _ _ _ _ _ alive' => cases gone.symm.trans alive'
  | session _ _ _ _ _ _ _ alive' => cases gone.symm.trans alive'
  | created _ _ _ _ _ alive' => cases gone.symm.trans alive'
  | failed _ _ alive' => cases gone.symm.trans alive'
  | ended s queued hs =>
    obtain rfl := Option.some.inj (alive.symm.trans hs)
    rw [List.countP_append, closeCalls_closed2]
    constructor
    · rintro ⟨htwice, -⟩
      omega
    · omega

/-- A handshake and a RST from one peer, up to the step that gives the session back. -/
theorem exists_reset_run :
    ∃ (tr : List (LayerMove Unit)) (t t' : Layer Unit) (acts : List (LayerAct Unit))
      (ts : TcpSession), Run layerStep {} tr t ∧ layerStep t .sessionEnder = some (t', acts) ∧
      t.objects 0 = some ts ∧ ts.isClient = false ∧ t'.objects 0 = none ∧
      (log (tr ++ [⟨t, .sessionEnder, acts⟩]) 0).countP Act.isSessionClosed2 = 2 := by
  let events : List (LayerEvent Unit) :=
    Sample.service ++ Sample.receive 1 (Sample.packet 1000 0 flagSyn 100 []) ++
      Sample.receive 2 (Sample.packet 1001 501 flagAck 100 []) ++
      Sample.receive 3 (Sample.packet 1001 501 flagRst 100 []) ++ [.removePacket 0]
  obtain ⟨tr, t, run, hts, hstep⟩ := exists_run_of_exec layerStep {} events
    (fun tr t => (t.objects 0).map (·.isClient) = some false ∧
      (layerStep t .sessionEnder).map (fun r => ((r.1.objects 0).isNone,
        (log (tr ++ [⟨t, .sessionEnder, r.2⟩]) 0).countP Act.isSessionClosed2)) = some (true, 2))
    (by decide +kernel)
  obtain ⟨ts, alive, hclient⟩ := Option.map_eq_some_iff.mp hts
  obtain ⟨⟨t', acts⟩, made, hend⟩ := Option.map_eq_some_iff.mp hstep
  obtain ⟨hgone, hcount⟩ := Prod.mk.inj hend
  exact ⟨tr, t, t', acts, ts, run, made, alive, hclient, Option.isNone_iff_eq_none.mp hgone,
    hcount⟩

/-- The session goes through the queue and the ender thread, and `session_closed_2` is invoked twice
for it. -/
theorem reset_session_closed_twice :
    ∃ (tr : List (LayerMove Unit)) (t t' : Layer Unit) (acts : List (LayerAct Unit))
      (ts : TcpSession), Run layerStep {} tr t ∧ layerStep t .sessionEnder = some (t', acts) ∧
      t.objects 0 = some ts ∧ ts.isClient = false ∧ t'.objects 0 = none ∧
      (log (tr ++ [⟨t, .sessionEnder, acts⟩]) 0).countP Act.isSessionClosed2 = 2 :=
  exists_reset_run

/-- Its handler is that of the listener. -/
theorem close_notifications_never_reset :
    ∃ (t : Layer Unit) (ts : TcpSession), t.objects 0 = some ts ∧ HasClosed2 t.listeners ts := by
  obtain ⟨tr, t, t', acts, ts, run, made, alive, -, gone, htwice⟩ := exists_reset_run
  exact ⟨t, ts, alive, (close_notifications_never run made alive gone).2.mp htwice⟩

end MyIp.Tcp
