import MyIp.Tcp.LayerSteps
import MyIp.Tcp.LifeCycle

/-! # Sessions inside the TCP layer

The layer is many sessions side by side: in every run of the layer, what was done on behalf of one
session object is what a run of that session alone does, followed by the notifications of its end
(`layer_run_projects`). Results about one session thereby hold for every session object of the
layer, under every interleaving of its threads; the life cycle is the first of them. -/

namespace MyIp.Tcp
open Bytes EventMachine
set_option autoImplicit false

variable {κ : Type}

/-! ## What was done for one object -/

def LayerAct.onObject (obj : ℕ) : LayerAct κ → Option (Act κ)
  | .onSession o a => if o = obj then some a else none
  | _ => none

def actsOn (obj : ℕ) (acts : List (LayerAct κ)) : List (Act κ) := acts.filterMap (·.onObject obj)

/-- What a run did on behalf of one object, oldest first. -/
def log (tr : List (LayerMove κ)) (obj : ℕ) : List (Act κ) :=
  tr.flatMap fun m => actsOn obj m.output

theorem log_snoc (tr : List (LayerMove κ)) (m : LayerMove κ) (obj : ℕ) :
    log (tr ++ [m]) obj = log tr obj ++ actsOn obj m.output := by
  simp [log]

theorem actsOn_append (obj : ℕ) (l l' : List (LayerAct κ)) :
    actsOn obj (l ++ l') = actsOn obj l ++ actsOn obj l' :=
  List.filterMap_append

theorem actsOn_eq_nil {obj : ℕ} {l : List (LayerAct κ)} (h : ∀ a ∈ l, a.onObject obj = none) :
    actsOn obj l = [] :=
  List.filterMap_eq_nil_iff.mpr h

theorem actsOn_plain {obj : ℕ} {l : List (LayerAct κ)} (h : ∀ a ∈ l, a.isPlain = true) :
    actsOn obj l = [] := by
  apply actsOn_eq_nil
  intro a ha
  have hp := h a ha
  cases a with
  | rstForPort => rfl
  | init => rfl
  | _ => simp [LayerAct.isPlain] at hp

theorem actsOn_map_self (obj : ℕ) (acts : List (Act κ)) :
    actsOn obj (acts.map (.onSession obj)) = acts := by
  simp [actsOn, LayerAct.onObject]

theorem actsOn_map_of_ne {obj o : ℕ} (h : o ≠ obj) (acts : List (Act κ)) :
    actsOn obj (acts.map (.onSession o)) = [] := by
  apply actsOn_eq_nil
  intro a ha
  obtain ⟨b, -, rfl⟩ := List.mem_map.mp ha
  simp [LayerAct.onObject, h]

/-! ## What a step does to one object -/

theorem actsOn_freeTcpSession_self (listeners : Std.TreeMap ℤ (PortHandler κ)) (obj : ℕ)
    (ts : TcpSession) : actsOn obj (freeTcpSession listeners obj ts) = closeCalls listeners ts := by
  rw [freeTcpSession_eq, actsOn_append, actsOn_map_self]
  exact List.append_nil _

theorem actsOn_freeTcpSession_of_ne {listeners : Std.TreeMap ℤ (PortHandler κ)} {o obj : ℕ}
    {ts : TcpSession} (h : obj ≠ o) : actsOn obj (freeTcpSession listeners o ts) = [] := by
  rw [freeTcpSession_eq, actsOn_append, actsOn_map_of_ne h.symm]
  rfl

/-- What a step of the layer for `e` does to the object `obj`, with the acts on its behalf. -/
inductive ObjectChange (t : Layer κ) (e : LayerEvent κ) (t' : Layer κ) (obj : ℕ) :
    List (Act κ) → Prop
  | still (same : t'.objects obj = t.objects obj) (known : obj < t'.next → obj < t.next) :
      ObjectChange t e t' obj []
  | segment (i : ℕ) (us : BitVec 64) (newSessionRc newDataRc : Bool) (pkt : Packet)
      (ts : TcpSession) (tsEcr : BitVec 32) (event : e = .processPacket i us newSessionRc newDataRc)
      (inWork : t.handling[i]? = some pkt) (found : t.sessions[pkt.key]? = some obj)
      (alive : t.objects obj = some ts) (options : optionsTSecr pkt = some tsEcr)
      (alive' : t'.objects obj =
        some (processSegment (t.call pkt us newSessionRc newDataRc) tsEcr ts).session) :
      ObjectChange t e t' obj (processSegment (t.call pkt us newSessionRc newDataRc) tsEcr ts).acts
  | session (ts ts' : TcpSession) (se : SessionEvent κ) (acts : List (Act κ))
      (source : e.sessionEvent t = some (obj, se)) (alive : t.objects obj = some ts)
      (made : sessionStep ts se = some (ts', acts)) (alive' : t'.objects obj = some ts') :
      ObjectChange t e t' obj acts
  | created (ts : TcpSession) (acts : List (Act κ)) (new : obj = t.next) (known : obj < t'.next)
      (opened : Opened ts acts) (alive' : t'.objects obj = some ts) : ObjectChange t e t' obj acts
  | ended (ts : TcpSession) (queued : obj ∈ t.endingSessions) (alive : t.objects obj = some ts)
      (gone : t'.objects obj = none) :
      ObjectChange t e t' obj (enderCalls t.listeners ts ++ closeCalls t.listeners ts)
  | failed (ts : TcpSession) (alive : t.objects obj = some ts) (alive' : t'.objects obj = some ts)
      (crashed : t'.crashed = true) : ObjectChange t e t' obj [.badFunctionCall .sessionClosed2]

theorem layerStep_next {t t' : Layer κ} {e : LayerEvent κ} {acts : List (LayerAct κ)}
    (made : layerStep t e = some (t', acts)) : t.next ≤ t'.next := by
  cases (layerStep_change made).2.2 with
  | server => exact Nat.le_succ _
  | client => exact Nat.le_succ _
  | _ => exact le_refl _

theorem objectChange_created {t t' : Layer κ} {e : LayerEvent κ} {ts : TcpSession}
    {acts : List (Act κ)} (opened : Opened ts acts)
    (hobj : t'.objects = Function.update t.objects t.next (some ts)) (hnext : t'.next = t.next + 1)
    (obj : ℕ) :
    ObjectChange t e t' obj (actsOn obj (.created t.next :: acts.map (.onSession t.next))) := by
  have hacts : actsOn obj (.created t.next :: acts.map (.onSession t.next)) =
      actsOn obj (acts.map (.onSession t.next)) := rfl
  rw [hacts]
  by_cases heq : obj = t.next
  · subst heq
    rw [actsOn_map_self]
    exact .created ts acts rfl (by omega) opened (by rw [hobj, Function.update_self])
  · rw [actsOn_map_of_ne (Ne.symm heq)]
    exact .still (by rw [hobj, Function.update_of_ne heq]) (by omega)

theorem layerStep_object {t t' : Layer κ} {e : LayerEvent κ} {acts : List (LayerAct κ)}
    (made : layerStep t e = some (t', acts)) (obj : ℕ) :
    ObjectChange t e t' obj (actsOn obj acts) := by
  cases (layerStep_change made).2.2 with
  | quiet _ idev listeners handling _ _ _ plain =>
    rw [actsOn_plain plain]
    exact .still rfl id
  | notRemoved => exact .still rfl id
  | ending => exact .still rfl id
  | process i us rs rd pkt o ts tsEcr w inWork found alive options work =>
    by_cases heq : obj = o
    · subst heq
      subst work
      rw [actsOn_map_self]
      exact .segment i us rs rd pkt ts tsEcr rfl inWork found alive options
        (Function.update_self ..)
    · rw [actsOn_map_of_ne (Ne.symm heq)]
      exact .still (Function.update_of_ne heq ..) id
  | session _ o ts ts' se acts source alive hstep =>
    by_cases heq : obj = o
    · subst heq
      rw [actsOn_map_self]
      exact .session ts ts' se acts source alive hstep (Function.update_self ..)
    · rw [actsOn_map_of_ne (Ne.symm heq)]
      exact .still (Function.update_of_ne heq ..) id
  | server pkt isn => exact objectChange_created (.server pkt pkt.key isn) rfl rfl obj
  | client idev us newData closed2 dstAddr dstPort localPort random ts acts _ opens =>
    have hopened := Opened.client (κ := κ) idev us (hashAddress dstAddr localPort dstPort) dstAddr
      dstPort localPort random
    rw [opens] at hopened
    exact objectChange_created hopened rfl rfl obj
  | freeing o rest ts queue alive =>
    by_cases heq : obj = o
    · subst heq
      rw [actsOn_append, actsOn_map_self, actsOn_freeTcpSession_self]
      exact .ended ts (by rw [queue]; exact List.mem_cons_self) alive (Function.update_self ..)
    · rw [actsOn_append, actsOn_map_of_ne (Ne.symm heq), actsOn_freeTcpSession_of_ne heq]
      exact .still (Function.update_of_ne heq ..) id
  | crash o rest ts handler _ alive =>
    by_cases heq : obj = o
    · subst heq
      rw [show actsOn obj [(.onSession obj (.badFunctionCall .sessionClosed2) : LayerAct κ)] = _
        from actsOn_map_self obj [.badFunctionCall .sessionClosed2]]
      exact .failed ts alive alive rfl
    · rw [show actsOn obj [(.onSession o (.badFunctionCall .sessionClosed2) : LayerAct κ)] = []
        from actsOn_map_of_ne (Ne.symm heq) [.badFunctionCall .sessionClosed2]]
      exact .still rfl id
  | stop => exact .still rfl id

theorem layerStep_identity {t t' : Layer κ} {e : LayerEvent κ} {acts : List (LayerAct κ)}
    (made : layerStep t e = some (t', acts)) {obj : ℕ} (known : obj < t.next) {ts' : TcpSession}
    (alive' : t'.objects obj = some ts') :
    ∃ ts, t.objects obj = some ts ∧ ts'.identity = ts.identity := by
  have hc := layerStep_object made obj
  generalize actsOn obj acts = objActs at hc
  cases hc with
  | still same => exact ⟨ts', same ▸ alive', rfl⟩
  | segment i us rs rd pkt ts tsEcr _ _ _ alive _ hnew =>
    obtain rfl := Option.some.inj (hnew.symm.trans alive')
    exact ⟨ts, alive, processSegment_identity _ tsEcr ts⟩
  | session ts _ se _ _ alive hstep hnew =>
    obtain rfl := Option.some.inj (hnew.symm.trans alive')
    exact ⟨ts, alive, sessionStep_identity hstep⟩
  | created ts _ new => omega
  | ended _ _ _ gone => cases gone.symm.trans alive'
  | failed ts alive hnew =>
    obtain rfl := Option.some.inj (hnew.symm.trans alive')
    exact ⟨ts, alive, rfl⟩

/-! ## Projection -/

/-- A notification of the end of a session, or the attempt of one. -/
def Act.isClosing : Act κ → Bool
  | .sessionClosed1 _ => true
  | .sessionClosed2 _ => true
  | .badFunctionCall _ => true
  | _ => false

theorem closeCalls_closing (listeners : Std.TreeMap ℤ (PortHandler κ)) (ts : TcpSession) :
    ∀ a ∈ closeCalls listeners ts, a.isClosing = true := by
  rw [closeCalls]
  split
  · simp
  · next handler _ =>
    cases handler.sessionClosed1 <;> cases handler.sessionClosed2 <;> simp [Act.isClosing]

theorem enderCalls_closing (listeners : Std.TreeMap ℤ (PortHandler κ)) (ts : TcpSession) :
    ∀ a ∈ enderCalls listeners ts, a.isClosing = true := by
  rw [enderCalls]
  split
  · simp
  · next handler _ => cases handler.sessionClosed2 <;> simp [Act.isClosing]

/-- The history of one object is a run of a session from its opening on, followed by the
notifications of its end; as long as the object exists and nothing crashed, there are none. -/
structure Projects (tr : List (LayerMove κ)) (t : Layer κ) (obj : ℕ) (s0 s : TcpSession)
    (acts0 : List (Act κ)) (str : List (SessionMove κ)) (closing : List (Act κ)) : Prop where
  opened : Opened s0 acts0
  run : Run sessionStep s0 str s
  history : log tr obj = acts0 ++ actsOf str ++ closing
  closings : ∀ a ∈ closing, a.isClosing = true
  now : ∀ ts, t.objects obj = some ts → ts = s ∧ (closing = [] ∨ t.crashed = true)

section
variable {tr : List (LayerMove κ)} {t t' : Layer κ} {obj : ℕ} {s0 s : TcpSession}
  {acts0 closing : List (Act κ)} {str : List (SessionMove κ)} {m : LayerMove κ}

theorem Projects.extend (h : Projects tr t obj s0 s acts0 str closing) {ts ts' : TcpSession}
    {e : SessionEvent κ} (alive : t.objects obj = some ts) (runs : t.crashed = false)
    (made : sessionStep ts e = some (ts', actsOn obj m.output))
    (alive' : t'.objects obj = some ts') :
    Projects (tr ++ [m]) t' obj s0 ts' acts0 (str ++ [⟨ts, e, actsOn obj m.output⟩]) [] := by
  obtain ⟨rfl, hclosing⟩ := h.now ts alive
  have hnone : closing = [] := by
    rcases hclosing with hc | hc
    · exact hc
    · rw [runs] at hc
      cases hc
  refine ⟨h.opened, Run.snoc h.run made, ?_, by simp, ?_⟩
  · rw [log_snoc, h.history, hnone, actsOf_snoc]
    simp
  · intro s hs
    rw [alive'] at hs
    exact ⟨(Option.some.inj hs).symm, .inl rfl⟩

theorem Projects.close (h : Projects tr t obj s0 s acts0 str closing) (runs : t.crashed = false)
    (hlog : ∀ a ∈ actsOn obj m.output, a.isClosing = true)
    (hobj : ∀ ts, t'.objects obj = some ts → t.objects obj = some ts ∧
      (actsOn obj m.output = [] ∨ t'.crashed = true)) :
    Projects (tr ++ [m]) t' obj s0 s acts0 str (closing ++ actsOn obj m.output) := by
  refine ⟨h.opened, h.run, ?_, ?_, ?_⟩
  · rw [log_snoc, h.history, List.append_assoc]
  · intro a ha
    rcases List.mem_append.mp ha with ha | ha
    · exact h.closings a ha
    · exact hlog a ha
  · intro ts hts
    obtain ⟨hold, hnew⟩ := hobj ts hts
    obtain ⟨h1, h2⟩ := h.now ts hold
    refine ⟨h1, ?_⟩
    rcases h2 with h2 | h2
    · rcases hnew with hnew | hnew
      · exact .inl (by rw [h2, hnew]; rfl)
      · exact .inr hnew
    · rw [runs] at h2
      cases h2

end

theorem sessionStep_segment (c : Call κ) (ts : TcpSession) {tsEcr : BitVec 32}
    (options : optionsTSecr c.pkt = some tsEcr) :
    sessionStep ts (.segment c) =
      some ((processSegment c tsEcr ts).session, (processSegment c tsEcr ts).acts) := by
  rw [sessionStep, options]

/-- Every object that was ever created projects, the others have no history. -/
structure Projected (tr : List (LayerMove κ)) (t : Layer κ) : Prop where
  fresh : ∀ obj, t.next ≤ obj → t.objects obj = none ∧ log tr obj = []
  projects : ∀ obj, obj < t.next →
    ∃ s0 s acts0 str closing, Projects tr t obj s0 s acts0 str closing

theorem Projected.lt_next {tr : List (LayerMove κ)} {t : Layer κ} (h : Projected tr t) {obj : ℕ}
    {ts : TcpSession} (alive : t.objects obj = some ts) : obj < t.next := by
  by_contra hge
  rw [(h.fresh obj (by omega)).1] at alive
  cases alive

theorem Projected.step {tr : List (LayerMove κ)} {t t' : Layer κ} (h : Projected tr t)
    {e : LayerEvent κ} {acts : List (LayerAct κ)} (made : layerStep t e = some (t', acts)) :
    Projected (tr ++ [⟨t, e, acts⟩]) t' := by
  have hcrash := (layerStep_change made).1
  have hnext := layerStep_next made
  constructor
  · intro obj hge
    obtain ⟨hnone, hlog⟩ := h.fresh obj (by omega)
    rw [log_snoc, hlog, List.nil_append]
    have hc := layerStep_object made obj
    generalize actsOn obj acts = objActs at hc
    cases hc with
    | still same => exact ⟨same.trans hnone, rfl⟩
    | created ts _ _ known => omega
    | segment i us rs rd pkt ts tsEcr _ _ _ alive => cases hnone.symm.trans alive
    | session ts ts' se _ _ alive => cases hnone.symm.trans alive
    | ended ts _ alive => cases hnone.symm.trans alive
    | failed ts alive => cases hnone.symm.trans alive
  · intro obj hlt
    have hc := layerStep_object made obj
    generalize hacts : actsOn obj acts = objActs at hc
    cases hc with
    | created ts _ new _ opened alive' =>
      refine ⟨ts, ts, actsOn obj acts, [], [], hacts ▸ opened, Run.nil, ?_, by simp, ?_⟩
      · rw [log_snoc, (h.fresh obj (by omega)).2]
        simp [actsOf]
      · intro s hs
        rw [alive'] at hs
        exact ⟨(Option.some.inj hs).symm, .inl rfl⟩
    | segment i us rs rd pkt ts tsEcr _ _ _ alive options alive' =>
      obtain ⟨s0, s, acts0, str, closing, hp⟩ := h.projects obj (h.lt_next alive)
      have hstep := sessionStep_segment (t.call pkt us rs rd) ts options
      exact ⟨s0, _, acts0, _, [], hp.extend alive hcrash (hacts ▸ hstep) alive'⟩
    | session ts ts' se _ _ alive hstep alive' =>
      obtain ⟨s0, s, acts0, str, closing, hp⟩ := h.projects obj (h.lt_next alive)
      exact ⟨s0, ts', acts0, _, [], hp.extend alive hcrash (hacts ▸ hstep) alive'⟩
    | still same known =>
      obtain ⟨s0, s, acts0, str, closing, hp⟩ := h.projects obj (known hlt)
      refine ⟨s0, s, acts0, str, _, hp.close hcrash (by simp [hacts]) fun ts hts => ?_⟩
      exact ⟨same ▸ hts, .inl hacts⟩
    | ended ts _ alive gone =>
      obtain ⟨s0, s, acts0, str, closing, hp⟩ := h.projects obj (h.lt_next alive)
      refine ⟨s0, s, acts0, str, _, hp.close hcrash ?_ fun ts hts => by cases gone.symm.trans hts⟩
      rw [hacts, List.forall_mem_append]
      exact ⟨enderCalls_closing t.listeners ts, closeCalls_closing t.listeners ts⟩
    | failed ts alive alive' crashed =>
      obtain ⟨s0, s, acts0, str, closing, hp⟩ := h.projects obj (h.lt_next alive)
      refine ⟨s0, s, acts0, str, _, hp.close hcrash (by simp [hacts, Act.isClosing])
        fun s hs => ⟨?_, .inr crashed⟩⟩
      rw [alive, ← alive', hs]

/-- Every session object of the layer goes through a run of a session, whatever happens to the
others meanwhile. -/
theorem layer_run_projects {t : Layer κ} {tr : List (LayerMove κ)} (run : Run layerStep {} tr t) :
    Projected tr t := by
  refine Run.history_invariant (fun _ => True) Projected ?_ ?_ run (fun _ _ => trivial)
  · exact ⟨fun _ _ => ⟨rfl, rfl⟩, fun obj h => absurd h (Nat.not_lt_zero obj)⟩
  · intro tr a e b o ih _ made
    exact ih.step made

/-! ## The life cycle -/

theorem Act.isClosing.quiet {a : Act κ} (h : a.isClosing = true) :
    a.change = none ∧ a.isNewSession = false := by
  cases a <;> simp_all [Act.isClosing, Act.change, Act.isNewSession]

/-- All changes of state of an object, from its creation on. -/
theorem layer_run_walk {t : Layer κ} {tr : List (LayerMove κ)} (run : Run layerStep {} tr t)
    {obj : ℕ} (created : obj < t.next) :
    ∃ s0 s, (s0 = TcpState.listen ∨ s0 = .synSent) ∧ Walk s0 (log tr obj) s ∧
      Announced (log tr obj) ∧ ∀ ts, t.objects obj = some ts → ts.state = s := by
  obtain ⟨s0, s, acts0, str, closing, hp⟩ := (layer_run_projects run).projects obj created
  obtain ⟨hs0, hw0, hn0⟩ := hp.opened.begin
  obtain ⟨hw, hn⟩ := session_run_walk hp.opened.group hp.run
  have hquiet := fun a ha => Act.isClosing.quiet (hp.closings a ha)
  refine ⟨s0.state, s.state, hs0, ?_, ?_, fun ts hts => by rw [(hp.now ts hts).1]⟩
  · rw [hp.history]
    exact (hw0.append hw).append (Walk.still fun a ha => (hquiet a ha).1)
  · rw [hp.history]
    exact (hn0.append hn).append (Announced.silent fun a ha => (hquiet a ha).2)

theorem layer_run_group {t : Layer κ} {tr : List (LayerMove κ)} (run : Run layerStep {} tr t)
    {obj : ℕ} {ts : TcpSession} (alive : t.objects obj = some ts) : ts.state.group ≠ none := by
  have hlt := (layer_run_projects run).lt_next alive
  obtain ⟨s0, s, hs0, hw, -, hnow⟩ := layer_run_walk run hlt
  obtain ⟨_, _, -, hj, -⟩ := Path.forward hw (group_begin hs0)
  rw [hnow ts alive]
  simp [hj]

theorem layer_run_walk_between {t u : Layer κ} {tr tr' : List (LayerMove κ)}
    (run : Run layerStep {} tr t) (later : Run layerStep t tr' u) {obj : ℕ} {ts ts' : TcpSession}
    (alive : t.objects obj = some ts) (alive' : u.objects obj = some ts') :
    Walk ts.state (log tr' obj) ts'.state := by
  have hlt := (layer_run_projects run).lt_next alive
  suffices obj < u.next ∧
      ∀ ts', u.objects obj = some ts' → Walk ts.state (log tr' obj) ts'.state from
    this.2 ts' alive'
  clear alive'
  induction later with
  | nil =>
    refine ⟨hlt, fun ts' h => ?_⟩
    obtain rfl := Option.some.inj (alive.symm.trans h)
    rfl
  | @snoc tr' v u e acts before made ih =>
    refine ⟨ih.1.trans_le (layerStep_next made), fun s' hs' => ?_⟩
    rw [log_snoc]
    have hc := layerStep_object made obj
    generalize actsOn obj acts = objActs at hc
    cases hc with
    | still same => exact (ih.2 s' (same ▸ hs')).append rfl
    | segment i us rs rd pkt s tsEcr _ _ _ hs _ hnew =>
      obtain rfl := Option.some.inj (hnew.symm.trans hs')
      have hgroup := layer_run_group (run.trans before) hs
      exact (ih.2 s hs).append (processSegment_passage (v.call pkt us rs rd) tsEcr s hgroup).1
    | session s _ _ _ _ hs hstep hnew =>
      obtain rfl := Option.some.inj (hnew.symm.trans hs')
      have hgroup := layer_run_group (run.trans before) hs
      exact (ih.2 s hs).append (sessionStep_walk hstep hgroup).1
    | created _ _ new => exact absurd new (Nat.ne_of_lt ih.1)
    | ended _ _ _ gone => cases gone.symm.trans hs'
    | failed s hs hs'' =>
      obtain rfl := Option.some.inj (hs''.symm.trans hs')
      exact (ih.2 s hs).append rfl

def LayerEvent.inWork (t : Layer κ) : LayerEvent κ → Option Packet
  | .processPacket i _ _ _ => t.handling[i]?
  | _ => none

/-- The handler that a step finds for its packet. -/
def LayerEvent.listener (t : Layer κ) (e : LayerEvent κ) : Option (PortHandler κ) :=
  (e.inWork t).bind fun pkt => t.listeners[portNr (Segment.dstPort pkt.data)]?

/-- Whenever a session becomes established by a handshake, its handler is told at once. -/
theorem layerStep_answered {t t' : Layer κ} {e : LayerEvent κ} {acts : List (LayerAct κ)}
    (group : ∀ obj ts, t.objects obj = some ts → ts.state.group ≠ none)
    (made : layerStep t e = some (t', acts)) (obj : ℕ) :
    Answered ((e.listener t).bind (·.newSession)) (actsOn obj acts) := by
  have hnone : e.inWork t = none →
      ∀ l : List (Act κ), Answered ((e.listener t).bind (·.newSession)) l := by
    intro he l cb hcb
    rw [LayerEvent.listener, he] at hcb
    cases hcb
  have hnil : Answered ((e.listener t).bind (·.newSession)) ([] : List (Act κ)) :=
    Answered.unchanged (by simp)
  have hclosing : ∀ l : List (Act κ), (∀ a ∈ l, a.isClosing = true) →
      Answered ((e.listener t).bind (·.newSession)) l := by
    intro l hl
    exact Answered.unchanged fun a ha => by simp [(Act.isClosing.quiet (hl a ha)).1]
  have hc := layerStep_object made obj
  generalize actsOn obj acts = objActs at hc
  cases hc with
  | still => exact hnil
  | segment i us rs rd pkt ts tsEcr event inWork _ alive =>
    obtain ⟨-, -, hans⟩ := processSegment_passage (t.call pkt us rs rd) tsEcr ts
      (group obj ts alive)
    rw [LayerEvent.listener, event, LayerEvent.inWork, inWork]
    exact hans
  | session ts ts' se _ source =>
    refine hnone ?_ _
    cases e with
    | processPacket => cases source
    | _ => rfl
  | created ts _ _ _ opened =>
    refine Answered.unchanged ?_
    cases opened with
    | server => simp
    | client => simp [openClientSession, sendSegment, Act.change]
  | ended ts =>
    exact (hclosing _ (enderCalls_closing _ ts)).append (hclosing _ (closeCalls_closing _ ts))
  | failed => exact hclosing _ (by simp [Act.isClosing])

/-- The life cycle of a session object, in every run of the layer: it begins in `tcp_listen` or in
`tcp_syn_sent`, every change of its state is forward through the groups, from any point of the run
to any later one, and `new_session` is invoked at most once for it, directly after the change from
`tcp_syn_rcvd` to `tcp_established` and after every such change, if there is a `new_session`. -/
theorem session_life_cycle {t u : Layer κ} {tr tr' : List (LayerMove κ)}
    (run : Run layerStep {} tr t) (later : Run layerStep t tr' u) (obj : ℕ) :
    (∀ ts, t.objects obj = some ts →
      ∃ s0, (s0 = TcpState.listen ∨ s0 = .synSent) ∧ Walk s0 (log tr obj) ts.state) ∧
    (∀ ts ts', t.objects obj = some ts → u.objects obj = some ts' →
      Walk ts.state (log tr' obj) ts'.state ∧ Forward ts.state ts'.state) ∧
    (log tr obj).countP Act.isNewSession ≤ 1 ∧ Announced (log tr obj) ∧
    ∀ m ∈ tr, Answered ((m.event.listener m.before).bind (·.newSession)) (actsOn obj m.output) := by
  refine ⟨?_, ?_, ?_, ?_, ?_⟩
  · intro ts alive
    obtain ⟨s0, s, hs0, hw, -, hnow⟩ :=
      layer_run_walk run ((layer_run_projects run).lt_next alive)
    exact ⟨s0, hs0, by rw [hnow ts alive]; exact hw⟩
  · intro ts ts' alive alive'
    have hw := layer_run_walk_between run later alive alive'
    exact ⟨hw, Path.forward hw (layer_run_group run alive)⟩
  · by_cases hlt : obj < t.next
    · obtain ⟨s0, s, hs0, hw, hn, -⟩ := layer_run_walk run hlt
      exact (Announced.count_le _ hn).trans (Path.count_established hw (group_begin hs0)).1
    · rw [((layer_run_projects run).fresh obj (by omega)).2]
      simp
  · by_cases hlt : obj < t.next
    · obtain ⟨s0, s, -, -, hn, -⟩ := layer_run_walk run hlt
      exact hn
    · rw [((layer_run_projects run).fresh obj (by omega)).2]
      exact Announced.silent (by simp)
  · intro m hm
    obtain ⟨pre, post, v, -, hpre, made⟩ := run.move_origin m hm
    exact layerStep_answered (fun o ts alive => layer_run_group hpre alive) made obj

/-- A server session from its handshake to the `end_session` of its application. -/
theorem session_life_cycle_ended :
    ∃ (tr tr' : List (LayerMove Unit)) (t u : Layer Unit) (ts ts' : TcpSession),
      Run layerStep {} tr t ∧ Run layerStep t tr' u ∧ t.objects 0 = some ts ∧
      u.objects 0 = some ts' ∧ ts.state = .established ∧ ts'.state = .finWait1 ∧
      (log tr 0).countP Act.isNewSession = 1 ∧ Forward ts.state ts'.state := by
  let events : List (LayerEvent Unit) :=
    Sample.service ++ Sample.receive 1 (Sample.packet 1000 0 flagSyn 100 []) ++
      Sample.receive 2 (Sample.packet 1001 501 flagAck 100 [])
  have run := exec_get_run layerStep {} events (by decide +kernel)
  have later := exec_get_run layerStep ((exec layerStep {} events).get (by decide +kernel)).2
    [.endSession 0 3] (by decide +kernel)
  have hts : (((exec layerStep {} events).get (by decide +kernel)).2.objects 0).map (·.state) =
      some .established := by decide +kernel
  have hts' : (((exec layerStep ((exec layerStep {} events).get (by decide +kernel)).2
      [.endSession 0 3]).get (by decide +kernel)).2.objects 0).map (·.state) = some .finWait1 := by
    decide +kernel
  obtain ⟨ts, alive, hs⟩ := Option.map_eq_some_iff.mp hts
  obtain ⟨ts', alive', hs'⟩ := Option.map_eq_some_iff.mp hts'
  exact ⟨_, _, _, _, ts, ts', run, later, alive, alive', hs, hs', by decide +kernel,
    ((session_life_cycle run later 0).2.1 ts ts' alive alive').2⟩

end MyIp.Tcp
