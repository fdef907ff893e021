import MyIp.Tcp.Layer

/-! # What a step of the TCP layer can do

`LayerChange` lists the kinds of steps once, with the guards under which they happen. `LayerInv` is
what every reachable state of the layer satisfies: the table, the queue and the objects fit
together, every session stands under the key of its own end points, and every server session has a
listener. -/

namespace MyIp.Tcp
open Bytes EventMachine
set_option autoImplicit false

variable {κ : Type}

/-! ## Kinds of steps -/

/-- The session event that a step of the layer consists of, with its object. -/
def LayerEvent.sessionEvent (t : Layer κ) : LayerEvent κ → Option (ℕ × SessionEvent κ)
  | .unackedVisit key now us rc =>
    match t.sessions[key]?, t.idev with
    | some obj, some idev => some (obj, .unackedVisit idev now us rc)
    | _, _ => none
  | .closeClientSession port us => (t.clientObject port).map fun obj => (obj, .endSession t.idev us)
  | .clientSessionSendData port data => (t.clientObject port).map fun obj => (obj, .sendData data)
  | .waitTurn obj us counter => some (obj, .waitTurn t.idev us counter)
  | .sendData obj data => some (obj, .sendData data)
  | .endSession obj us => some (obj, .endSession t.idev us)
  | .setIsTerminating obj => some (obj, .setIsTerminating)
  | .setSessionTimeout obj duration => some (obj, .setSessionTimeout duration)
  | _ => none

def LayerAct.isPlain : LayerAct κ → Bool
  | .rstForPort _ _ _ => true
  | .init _ => true
  | _ => false

/-- What `free_tcp_session` calls. -/
def closeCalls (listeners : Std.TreeMap ℤ (PortHandler κ)) (ts : TcpSession) : List (Act κ) :=
  match listeners[portNr ts.myPort]? with
  | none => []
  | some handler =>
    (handler.sessionClosed1.map .sessionClosed1).toList ++
      (handler.sessionClosed2.map .sessionClosed2).toList

/-- What the ender thread calls before that. -/
def enderCalls (listeners : Std.TreeMap ℤ (PortHandler κ)) (ts : TcpSession) : List (Act κ) :=
  match listeners[portNr ts.myPort]? with
  | none => []
  | some handler => (handler.sessionClosed2.map .sessionClosed2).toList

theorem freeTcpSession_eq (listeners : Std.TreeMap ℤ (PortHandler κ)) (obj : ℕ) (ts : TcpSession) :
    freeTcpSession listeners obj ts =
      (closeCalls listeners ts).map (.onSession obj) ++ [.freed obj] := by
  rw [freeTcpSession, closeCalls]
  cases listeners[portNr ts.myPort]? with
  | none => rfl
  | some handler =>
    cases h1 : handler.sessionClosed1 <;> cases h2 : handler.sessionClosed2 <;> simp [h1, h2]

theorem map_onSession_mem {obj obj' : ℕ} {a : Act κ} {acts : List (Act κ)}
    (h : LayerAct.onSession obj a ∈ acts.map (LayerAct.onSession obj')) :
    obj = obj' ∧ a ∈ acts := by
  obtain ⟨b, hb, he⟩ := List.mem_map.mp h
  cases he
  exact ⟨rfl, hb⟩

/-- The step takes the session under `key` out of the table and leaves `removing` to do. -/
inductive EndedBy (t : Layer κ) (key : BitVec 64) (removing : List Packet) : LayerEvent κ → Prop
  | handler (i : ℕ) (pkt : Packet) (due : t.removing[i]? = some pkt) (here : pkt.key = key)
      (rest : removing = t.removing.eraseIdx i) : EndedBy t key removing (.removePacket i)
  | cleaner (now : BitVec 64) (rest : removing = t.removing) :
      EndedBy t key removing (.cleanerVisit key now)

inductive LayerChange (t : Layer κ) : LayerEvent κ → Layer κ → List (LayerAct κ) → Prop
  | quiet (e : LayerEvent κ) (idev : Option Idev) (listeners : Std.TreeMap ℤ (PortHandler κ))
      (handling : List Packet) (acts : List (LayerAct κ))
      (grows : ∀ (port : ℤ) (handler : PortHandler κ), t.listeners[port]? = some handler →
        listeners[port]? = some handler)
      (arrived : ∀ pkt ∈ handling, pkt ∈ t.handling ∨ ∃ isn, e = .arrivePacket pkt isn)
      (plain : ∀ a ∈ acts, a.isPlain = true) :
      LayerChange t e { t with idev := idev, listeners := listeners, handling := handling } acts
  | notRemoved (i : ℕ) (pkt : Packet) (due : t.removing[i]? = some pkt)
      (kept : ∀ obj ts, t.sessions[pkt.key]? = some obj → t.objects obj = some ts →
        ts.inInit = true) :
      LayerChange t (.removePacket i) { t with removing := t.removing.eraseIdx i } []
  | process (i : ℕ) (us : BitVec 64) (newSessionRc newDataRc : Bool) (pkt : Packet) (obj : ℕ)
      (ts : TcpSession) (tsEcr : BitVec 32) (w : Work κ) (inWork : t.handling[i]? = some pkt)
      (found : t.sessions[pkt.key]? = some obj) (alive : t.objects obj = some ts)
      (options : optionsTSecr pkt = some tsEcr)
      (work : w = processSegment (t.call pkt us newSessionRc newDataRc) tsEcr ts) :
      LayerChange t (.processPacket i us newSessionRc newDataRc)
        { t with
          handling := t.handling.eraseIdx i
          objects := Function.update t.objects obj (some w.session)
          removing := if w.deleteEntry && !w.thrown then t.removing ++ [pkt] else t.removing
          crashed := w.thrown } (w.acts.map (.onSession obj))
  | session (e : LayerEvent κ) (obj : ℕ) (ts ts' : TcpSession) (se : SessionEvent κ)
      (acts : List (Act κ)) (source : e.sessionEvent t = some (obj, se))
      (alive : t.objects obj = some ts) (made : sessionStep ts se = some (ts', acts)) :
      LayerChange t e { t with objects := Function.update t.objects obj (some ts') }
        (acts.map (.onSession obj))
  | server (pkt : Packet) (isn : BitVec 32) (handler : PortHandler κ)
      (syn : Segment.hasSyn pkt.data = true)
      (listens : t.listeners[portNr (Segment.dstPort pkt.data)]? = some handler)
      (new : t.sessions[pkt.key]? = none) :
      LayerChange t (.arrivePacket pkt isn)
        { t with
          handling := t.handling ++ [pkt]
          next := t.next + 1
          objects := Function.update t.objects t.next (some (newServerSession pkt pkt.key isn))
          sessions := t.sessions.insertIfNew pkt.key t.next } [.created t.next]
  | client (idev : Idev) (us : BitVec 64) (newData sessionClosed2 : κ) (dstAddr : AnyAddr)
      (dstPort localPort : BitVec 16) (random : BitVec 32) (ts : TcpSession) (acts : List (Act κ))
      (device : t.idev = some idev)
      (opens : openClientSession idev us (hashAddress dstAddr localPort dstPort) dstAddr dstPort
        localPort random = (ts, acts)) :
      LayerChange t
        (.allocateClientSession us newData sessionClosed2 dstAddr dstPort localPort random)
        { t with
          next := t.next + 1
          objects := Function.update t.objects t.next (some ts)
          tcpClients := t.tcpClients.insertIfNew (portNr localPort)
            (hashAddress dstAddr localPort dstPort)
          sessions := t.sessions.insertIfNew (hashAddress dstAddr localPort dstPort) t.next
          listeners := t.listeners.insertIfNew (portNr localPort)
            (clientHandler newData sessionClosed2) }
        (.created t.next :: acts.map (.onSession t.next))
  | ending (e : LayerEvent κ) (key : BitVec 64) (obj : ℕ) (ts : TcpSession) (removing : List Packet)
      (tcpClients : Std.TreeMap ℤ (BitVec 64)) (found : t.sessions[key]? = some obj)
      (alive : t.objects obj = some ts) (connected : ts.inInit = false)
      (ended : EndedBy t key removing e) :
      LayerChange t e
        { t with
          removing := removing
          tcpClients := tcpClients
          endingSessions := t.endingSessions ++ [obj]
          sessions := t.sessions.erase key } []
  | freeing (obj : ℕ) (rest : List ℕ) (ts : TcpSession) (queue : t.endingSessions = obj :: rest)
      (alive : t.objects obj = some ts) :
      LayerChange t .sessionEnder
        { t with endingSessions := rest, objects := Function.update t.objects obj none }
        ((enderCalls t.listeners ts).map (.onSession obj) ++ freeTcpSession t.listeners obj ts)
  | crash (obj : ℕ) (rest : List ℕ) (ts : TcpSession) (handler : PortHandler κ)
      (queue : t.endingSessions = obj :: rest) (alive : t.objects obj = some ts)
      (listens : t.listeners[portNr ts.myPort]? = some handler)
      (empty : handler.sessionClosed2 = none) :
      LayerChange t .sessionEnder { t with endingSessions := rest, crashed := true }
        [.onSession obj (.badFunctionCall .sessionClosed2)]
  | stop : LayerChange t .destruct { t with crashed := true, stopped := true } []

theorem sendRstForPort_plain (idev : Option Idev) (pkt : Packet) :
    ∀ a ∈ sendRstForPort (κ := κ) idev pkt, a.isPlain = true := by
  cases idev with
  | none => simp [sendRstForPort]
  | some d => simp [sendRstForPort, LayerAct.isPlain]

theorem listeners_insertIfNew_grows (m : Std.TreeMap ℤ (PortHandler κ)) (p : ℤ)
    (tph : PortHandler κ) (port : ℤ) (handler : PortHandler κ) (h : m[port]? = some handler) :
    (m.insertIfNew p tph)[port]? = some handler := by
  have hmem : port ∈ m := Std.TreeMap.mem_iff_isSome_getElem?.mpr (by simp [h])
  rw [Std.TreeMap.getElem?_insertIfNew, if_neg, h]
  rintro ⟨he, hn⟩
  exact hn (by rwa [Std.LawfulEqCmp.eq_of_compare he])

theorem onObject_change {t t' : Layer κ} {e : LayerEvent κ} {obj : ℕ} {se : SessionEvent κ}
    {acts : List (LayerAct κ)} (source : e.sessionEvent t = some (obj, se))
    (h : onObject t obj se = some (t', acts)) : LayerChange t e t' acts := by
  unfold onObject at h
  split at h
  · cases h
  · next ts alive =>
    split at h
    · cases h
    · next ts' acts' made =>
      simp only [Option.some.injEq, Prod.mk.injEq] at h
      obtain ⟨rfl, rfl⟩ := h
      exact .session e obj ts ts' se acts' source alive made

theorem onClient_change {t t' : Layer κ} {e : LayerEvent κ} {port : ℤ} {se : SessionEvent κ}
    {acts : List (LayerAct κ)}
    (source : e.sessionEvent t = (t.clientObject port).map fun obj => (obj, se))
    (h : onClient t port se = some (t', acts)) : LayerChange t e t' acts := by
  unfold onClient at h
  split at h
  · simp only [Option.some.injEq, Prod.mk.injEq] at h
    obtain ⟨rfl, rfl⟩ := h
    exact .quiet e t.idev t.listeners t.handling [] (fun _ _ h => h) (fun _ h => .inl h) (by simp)
  · next obj hobj => exact onObject_change (by rw [source, hobj]; rfl) h

theorem arrivePacket_change {t t' : Layer κ} {pkt : Packet} {isn : BitVec 32}
    {acts : List (LayerAct κ)} (h : arrivePacket t pkt isn = (t', acts)) :
    LayerChange t (.arrivePacket pkt isn) t' acts := by
  have hquiet : ∀ (acts : List (LayerAct κ)), (∀ a ∈ acts, a.isPlain = true) →
      LayerChange t (.arrivePacket pkt isn) t acts := fun acts hp =>
    .quiet _ t.idev t.listeners t.handling acts (fun _ _ h => h) (fun _ h => .inl h) hp
  have harrive : LayerChange t (.arrivePacket pkt isn)
      { t with handling := t.handling ++ [pkt] } [] := by
    refine .quiet _ t.idev t.listeners _ [] (fun _ _ h => h) (fun p hp => ?_) (by simp)
    rcases List.mem_append.mp hp with hp | hp
    · exact .inl hp
    · obtain rfl := List.mem_singleton.mp hp
      exact .inr ⟨isn, rfl⟩
  unfold arrivePacket at h
  split at h
  · cases h
    exact hquiet [] (by simp)
  · split at h
    · next syn =>
      split at h
      · cases h
        exact hquiet _ (sendRstForPort_plain t.idev pkt)
      · next handler listens =>
        split at h
        · cases h
          exact hquiet [] (by simp)
        · split at h
          · cases h
            exact harrive
          · next hnew =>
            cases h
            have hnone : t.sessions[pkt.key]? = none := by
              rw [Std.TreeMap.mem_iff_isSome_getElem?] at hnew
              simpa using hnew
            exact .server pkt isn handler syn listens hnone
    · cases h
      exact harrive

theorem endObject_change {t t1 t' : Layer κ} {e : LayerEvent κ} {key : BitVec 64} {obj : ℕ}
    {ts : TcpSession} {removing : List Packet} {tcpClients : Std.TreeMap ℤ (BitVec 64)}
    {acts : List (LayerAct κ)} (found : t.sessions[key]? = some obj)
    (alive : t.objects obj = some ts) (connected : ts.inInit = false)
    (ended : EndedBy t key removing e)
    (h1 : t1 = { t with removing := removing, tcpClients := tcpClients })
    (h : endObject t1 key obj = some (t', acts)) : LayerChange t e t' acts := by
  unfold endObject at h
  split at h
  · simp only [Option.some.injEq, Prod.mk.injEq] at h
    obtain ⟨rfl, rfl⟩ := h
    subst h1
    exact .ending e key obj ts removing tcpClients found alive connected ended
  · cases h

/-- Every step of the layer is of one of these kinds. -/
theorem layerStep_change {t t' : Layer κ} {e : LayerEvent κ} {acts : List (LayerAct κ)}
    (made : layerStep t e = some (t', acts)) :
    t.crashed = false ∧ t.stopped = false ∧ LayerChange t e t' acts := by
  unfold layerStep at made
  split at made
  · cases made
  · next hrun =>
    have hlive : t.crashed = false ∧ t.stopped = false := by simpa using hrun
    refine ⟨hlive.1, hlive.2, ?_⟩
    cases e with
    | registerIp idev =>
      simp only [runningStep, Option.some.injEq, Prod.mk.injEq] at made
      obtain ⟨rfl, rfl⟩ := made
      exact .quiet _ (some idev) t.listeners t.handling [] (fun _ _ h => h) (fun _ h => .inl h)
        (by simp)
    | arrivePacket pkt isn => exact arrivePacket_change (Option.some.inj made)
    | processPacket i us newSessionRc newDataRc =>
      simp only [runningStep, processPacket] at made
      split at made
      · cases made
      · next pkt inWork =>
        split at made
        · simp only [Option.some.injEq, Prod.mk.injEq] at made
          obtain ⟨rfl, rfl⟩ := made
          exact .quiet _ t.idev t.listeners _ _ (fun _ _ h => h)
            (fun _ h => .inl (List.mem_of_mem_eraseIdx h)) (sendRstForPort_plain t.idev pkt)
        · next obj found =>
          split at made
          · next ts tsEcr alive options =>
            simp only [Option.some.injEq, Prod.mk.injEq] at made
            obtain ⟨rfl, rfl⟩ := made
            exact .process i us newSessionRc newDataRc pkt obj ts tsEcr _ inWork found alive
              options rfl
          · cases made
    | removePacket i =>
      simp only [runningStep, removePacket] at made
      split at made
      · cases made
      · next pkt due =>
        split at made
        · next hnone =>
          simp only [Option.some.injEq, Prod.mk.injEq] at made
          obtain ⟨rfl, rfl⟩ := made
          refine .notRemoved i pkt due ?_
          intro obj ts found
          rw [hnone] at found
          cases found
        · next obj found =>
          split at made
          · cases made
          · next ts alive =>
            split at made
            · next hinit =>
              simp only [Option.some.injEq, Prod.mk.injEq] at made
              obtain ⟨rfl, rfl⟩ := made
              refine .notRemoved i pkt due ?_
              intro obj' ts' found' alive'
              rw [found] at found'
              cases found'
              rw [alive] at alive'
              cases alive'
              exact hinit
            · next hinit =>
              exact endObject_change found alive (by simpa using hinit)
                (.handler i pkt due rfl rfl) rfl made
    | unackedVisit key now us rc =>
      simp only [runningStep] at made
      split at made
      · next obj idev found device =>
        exact onObject_change (by simp only [LayerEvent.sessionEvent, found, device]) made
      · cases made
    | cleanerVisit key now =>
      simp only [runningStep, cleanerVisit] at made
      split at made
      · cases made
      · next obj found =>
        split at made
        · cases made
        · next ts alive =>
          split at made
          · cases made
          · next hinit =>
            split at made
            · exact endObject_change found alive (by simpa using hinit) (.cleaner now rfl) rfl made
            · simp only [Option.some.injEq, Prod.mk.injEq] at made
              obtain ⟨rfl, rfl⟩ := made
              exact .quiet _ t.idev t.listeners t.handling [] (fun _ _ h => h)
                (fun _ h => .inl h) (by simp)
    | sessionEnder =>
      simp only [runningStep, sessionEnder] at made
      split at made
      · cases made
      · next obj rest queue =>
        split at made
        · cases made
        · next ts alive =>
          split at made
          · next hnone =>
            have hcalls : enderCalls t.listeners ts = [] := by simp [enderCalls, hnone]
            have hc := LayerChange.freeing obj rest ts queue alive
            rw [hcalls] at hc
            simp only [Option.some.injEq, Prod.mk.injEq] at made
            obtain ⟨rfl, rfl⟩ := made
            exact hc
          · next handler hl =>
            split at made
            · next empty =>
              simp only [Option.some.injEq, Prod.mk.injEq] at made
              obtain ⟨rfl, rfl⟩ := made
              exact .crash obj rest ts handler queue alive hl empty
            · next cb hc =>
              have hcalls : enderCalls t.listeners ts = [.sessionClosed2 cb] := by
                simp [enderCalls, hl, hc]
              have hchange := LayerChange.freeing obj rest ts queue alive
              rw [hcalls] at hchange
              simp only [Option.some.injEq, Prod.mk.injEq] at made
              obtain ⟨rfl, rfl⟩ := made
              exact hchange
    | addHandler port tph =>
      simp only [runningStep, addHandler, Option.some.injEq, Prod.mk.injEq] at made
      obtain ⟨rfl, rfl⟩ := made
      refine .quiet _ t.idev _ t.handling _ (listeners_insertIfNew_grows t.listeners port tph)
        (fun _ h => .inl h) ?_
      intro a ha
      cases hi : tph.init with
      | none => simp [hi] at ha
      | some cb =>
        simp only [hi, Option.map_some, Option.toList_some, List.mem_singleton] at ha
        rw [ha]
        rfl
    | allocateClientSession us newData sessionClosed2 dstAddr dstPort localPort random =>
      simp only [runningStep, allocateClientSession] at made
      split at made
      · cases made
      · next idev device =>
        split at made
        · simp only [Option.some.injEq, Prod.mk.injEq] at made
          obtain ⟨rfl, rfl⟩ := made
          exact .client idev us newData sessionClosed2 dstAddr dstPort localPort random _ _
            device rfl
        · cases made
    | closeClientSession port us => exact onClient_change rfl made
    | clientSessionSendData port data => exact onClient_change rfl made
    | waitTurn obj us counter => exact onObject_change rfl made
    | sendData obj data => exact onObject_change rfl made
    | endSession obj us => exact onObject_change rfl made
    | setIsTerminating obj => exact onObject_change rfl made
    | setSessionTimeout obj duration => exact onObject_change rfl made
    | destruct =>
      simp only [runningStep, destruct] at made
      split at made
      · simp only [Option.some.injEq, Prod.mk.injEq] at made
        obtain ⟨rfl, rfl⟩ := made
        exact .stop
      · cases made

theorem layerStep_listeners {t t' : Layer κ} {e : LayerEvent κ} {acts : List (LayerAct κ)}
    (made : layerStep t e = some (t', acts)) {port : ℤ} {handler : PortHandler κ}
    (h : t.listeners[port]? = some handler) : t'.listeners[port]? = some handler := by
  cases (layerStep_change made).2.2 with
  | quiet _ _ _ _ _ grows => exact grows port handler h
  | client => exact listeners_insertIfNew_grows _ _ _ port handler h
  | _ => exact h

/-! ## The invariant of the layer -/

def TcpSession.key (ts : TcpSession) : BitVec 64 :=
  hashAddress ts.theirAddr ts.myPort ts.theirPort

theorem key_of_identity {ts ts' : TcpSession} (h : ts'.identity = ts.identity) :
    ts'.key = ts.key ∧ ts'.myPort = ts.myPort ∧ ts'.isClient = ts.isClient := by
  simp only [TcpSession.identity, Prod.mk.injEq] at h
  obtain ⟨-, h2, h3, h4, h5, -⟩ := h
  exact ⟨by rw [TcpSession.key, TcpSession.key, h2, h3, h4], h2, h5⟩

structure LayerInv (t : Layer κ) : Prop where
  fresh : ∀ obj, t.next ≤ obj → t.objects obj = none
  table : ∀ key obj, t.sessions[key]? = some obj → ∃ ts, t.objects obj = some ts ∧ key = ts.key
  apart : ∀ (key : BitVec 64) obj, t.sessions[key]? = some obj → obj ∉ t.endingSessions
  queue : ∀ obj ∈ t.endingSessions, ∃ ts, t.objects obj = some ts
  nodup : t.endingSessions.Nodup
  listens : ∀ obj ts, t.objects obj = some ts → ts.isClient = false →
    ∃ handler, t.listeners[portNr ts.myPort]? = some handler
  connected : ∀ obj ts, t.objects obj = some ts → ts.isClient = false → ts.inInit = false

namespace LayerInv
variable {t : Layer κ}

theorem lt_next (h : LayerInv t) {obj : ℕ} {ts : TcpSession} (alive : t.objects obj = some ts) :
    obj < t.next := by
  by_contra hge
  rw [h.fresh obj (by omega)] at alive
  cases alive

theorem quiet (h : LayerInv t) {t' : Layer κ} (hnext : t'.next = t.next)
    (hobj : t'.objects = t.objects) (htable : t'.sessions = t.sessions)
    (hqueue : t'.endingSessions = t.endingSessions)
    (grows : ∀ (port : ℤ) (handler : PortHandler κ), t.listeners[port]? = some handler →
      t'.listeners[port]? = some handler) : LayerInv t' := by
  refine ⟨?_, ?_, ?_, ?_, ?_, ?_, ?_⟩
  · rw [hnext, hobj]
    exact h.fresh
  · rw [htable, hobj]
    exact h.table
  · rw [htable, hqueue]
    exact h.apart
  · rw [hqueue, hobj]
    exact h.queue
  · rw [hqueue]
    exact h.nodup
  · intro obj ts alive hs
    rw [hobj] at alive
    obtain ⟨handler, hl⟩ := h.listens obj ts alive hs
    exact ⟨handler, grows _ _ hl⟩
  · rw [hobj]
    exact h.connected

theorem update (h : LayerInv t) {obj : ℕ} {ts ts' : TcpSession} (alive : t.objects obj = some ts)
    (hid : ts'.identity = ts.identity) (hinit : ts'.inInit = true → ts.inInit = true) :
    LayerInv { t with objects := Function.update t.objects obj (some ts') } := by
  obtain ⟨hkey, hport, hclient⟩ := key_of_identity hid
  have hback : ∀ o s, Function.update t.objects obj (some ts') o = some s →
      ∃ s', t.objects o = some s' ∧ s.isClient = s'.isClient ∧ s.myPort = s'.myPort ∧
        (s.inInit = true → s'.inInit = true) := by
    intro o s ho
    by_cases heq : o = obj
    · subst heq
      simp only [Function.update_self, Option.some.injEq] at ho
      subst ho
      exact ⟨ts, alive, hclient, hport, hinit⟩
    · rw [Function.update_of_ne heq] at ho
      exact ⟨s, ho, rfl, rfl, id⟩
  have hforth : ∀ o s, t.objects o = some s →
      ∃ s', Function.update t.objects obj (some ts') o = some s' ∧ s'.key = s.key := by
    intro o s ho
    by_cases heq : o = obj
    · subst heq
      rw [alive] at ho
      cases ho
      exact ⟨ts', by simp, hkey⟩
    · exact ⟨s, by rw [Function.update_of_ne heq, ho], rfl⟩
  refine ⟨?_, ?_, h.apart, ?_, h.nodup, ?_, ?_⟩
  · intro o ho
    have hlt := h.lt_next alive
    simp only at ho ⊢
    rw [Function.update_of_ne (Nat.ne_of_gt (hlt.trans_le ho))]
    exact h.fresh o ho
  · intro key o ho
    obtain ⟨s, hs, hk⟩ := h.table key o ho
    obtain ⟨s', hs', hk'⟩ := hforth o s hs
    exact ⟨s', hs', by rw [hk, hk']⟩
  · intro o ho
    obtain ⟨s, hs⟩ := h.queue o ho
    obtain ⟨s', hs', -⟩ := hforth o s hs
    exact ⟨s', hs'⟩
  · intro o s ho hs
    obtain ⟨s', hs', h1, h2, -⟩ := hback o s ho
    obtain ⟨handler, hl⟩ := h.listens o s' hs' (h1 ▸ hs)
    exact ⟨handler, by rw [h2]; exact hl⟩
  · intro o s ho hs
    obtain ⟨s', hs', h1, -, h3⟩ := hback o s ho
    have hfalse := h.connected o s' hs' (h1 ▸ hs)
    cases hin : s.inInit with
    | false => rfl
    | true => exact absurd (h3 hin) (by simp [hfalse])

theorem create (h : LayerInv t) (ts : TcpSession) (listeners : Std.TreeMap ℤ (PortHandler κ))
    (tcpClients : Std.TreeMap ℤ (BitVec 64)) (handling : List Packet)
    (grows : ∀ (port : ℤ) (handler : PortHandler κ), t.listeners[port]? = some handler →
      listeners[port]? = some handler)
    (hl : ts.isClient = false → (∃ handler, listeners[portNr ts.myPort]? = some handler) ∧
      ts.inInit = false) :
    LayerInv { t with
      next := t.next + 1
      objects := Function.update t.objects t.next (some ts)
      sessions := t.sessions.insertIfNew ts.key t.next
      listeners := listeners
      tcpClients := tcpClients
      handling := handling } := by
  have hold : ∀ o s, t.objects o = some s →
      Function.update t.objects t.next (some ts) o = some s := by
    intro o s ho
    have hlt := h.lt_next ho
    rw [Function.update_of_ne (by omega), ho]
  have hback : ∀ o s, Function.update t.objects t.next (some ts) o = some s →
      (o = t.next ∧ s = ts) ∨ t.objects o = some s := by
    intro o s ho
    by_cases heq : o = t.next
    · subst heq
      simp only [Function.update_self, Option.some.injEq] at ho
      exact .inl ⟨rfl, ho.symm⟩
    · rw [Function.update_of_ne heq] at ho
      exact .inr ho
  have htable : ∀ (key : BitVec 64) o, (t.sessions.insertIfNew ts.key t.next)[key]? = some o →
      (key = ts.key ∧ o = t.next) ∨ t.sessions[key]? = some o := by
    intro key o ho
    rw [Std.TreeMap.getElem?_insertIfNew] at ho
    split at ho
    · next hk =>
      exact .inl ⟨(Std.LawfulEqCmp.eq_of_compare hk.1).symm, (Option.some.inj ho).symm⟩
    · exact .inr ho
  refine ⟨?_, ?_, ?_, ?_, h.nodup, ?_, ?_⟩
  · intro o ho
    simp only at ho ⊢
    rw [Function.update_of_ne (Nat.ne_of_gt ho)]
    exact h.fresh o (Nat.le_of_succ_le ho)
  · intro key o ho
    rcases htable key o ho with ⟨rfl, rfl⟩ | ho
    · exact ⟨ts, by simp, rfl⟩
    · obtain ⟨s, hs, hk⟩ := h.table key o ho
      exact ⟨s, hold o s hs, hk⟩
  · intro key o ho hq
    rcases htable key o ho with ⟨rfl, rfl⟩ | ho
    · obtain ⟨s, hs⟩ := h.queue t.next hq
      exact absurd (h.lt_next hs) (by omega)
    · exact h.apart key o ho hq
  · intro o ho
    obtain ⟨s, hs⟩ := h.queue o ho
    exact ⟨s, hold o s hs⟩
  · intro o s ho hs
    rcases hback o s ho with ⟨-, rfl⟩ | ho
    · exact (hl hs).1
    · obtain ⟨handler, hh⟩ := h.listens o s ho hs
      exact ⟨handler, grows _ _ hh⟩
  · intro o s ho hs
    rcases hback o s ho with ⟨-, rfl⟩ | ho
    · exact (hl hs).2
    · exact h.connected o s ho hs

theorem toQueue (h : LayerInv t) {key : BitVec 64} {obj : ℕ} {removing : List Packet}
    {tcpClients : Std.TreeMap ℤ (BitVec 64)} (found : t.sessions[key]? = some obj) :
    LayerInv { t with
      removing := removing
      tcpClients := tcpClients
      endingSessions := t.endingSessions ++ [obj]
      sessions := t.sessions.erase key } := by
  have htable : ∀ (k : BitVec 64) o, (t.sessions.erase key)[k]? = some o →
      k ≠ key ∧ t.sessions[k]? = some o := by
    intro k o ho
    rw [Std.TreeMap.getElem?_erase] at ho
    split at ho
    · cases ho
    · next hk => exact ⟨fun he => hk (by rw [he]; exact Std.ReflCmp.compare_self), ho⟩
  obtain ⟨ts, hts, hkey⟩ := h.table key obj found
  refine ⟨h.fresh, ?_, ?_, ?_, ?_, h.listens, h.connected⟩
  · intro k o ho
    exact h.table k o (htable k o ho).2
  · intro k o ho hq
    obtain ⟨hne, hold⟩ := htable k o ho
    rcases List.mem_append.mp hq with hq | hq
    · exact h.apart k o hold hq
    · obtain rfl := List.mem_singleton.mp hq
      obtain ⟨ts', hts', hkey'⟩ := h.table k o hold
      rw [hts] at hts'
      cases hts'
      exact hne (hkey'.trans hkey.symm)
  · intro o ho
    rcases List.mem_append.mp ho with ho | ho
    · exact h.queue o ho
    · obtain rfl := List.mem_singleton.mp ho
      exact ⟨ts, hts⟩
  · rw [List.nodup_append]
    refine ⟨h.nodup, List.nodup_singleton obj, ?_⟩
    intro a ha b hb hab
    obtain rfl := List.mem_singleton.mp hb
    exact h.apart key a (hab ▸ found) ha

theorem ofQueue (h : LayerInv t) {obj : ℕ} {rest : List ℕ} (queue : t.endingSessions = obj :: rest)
    {crashed : Bool} {objects : ℕ → Option TcpSession}
    (hobj : ∀ o, objects o = t.objects o ∨ (o = obj ∧ objects o = none)) :
    LayerInv { t with endingSessions := rest, objects := objects, crashed := crashed } := by
  have hnodup := h.nodup
  rw [queue, List.nodup_cons] at hnodup
  have hold : ∀ o s, t.objects o = some s → o ≠ obj → objects o = some s := by
    intro o s ho hne
    rcases hobj o with he | ⟨he, -⟩
    · rw [he, ho]
    · exact absurd he hne
  have hback : ∀ o s, objects o = some s → t.objects o = some s := by
    intro o s ho
    rcases hobj o with he | ⟨-, he⟩
    · rwa [he] at ho
    · rw [he] at ho
      cases ho
  refine ⟨?_, ?_, ?_, ?_, hnodup.2, ?_, ?_⟩
  · intro o ho
    rcases hobj o with he | ⟨-, he⟩
    · simp only [he]
      exact h.fresh o ho
    · exact he
  · intro k o ho
    obtain ⟨s, hs, hk⟩ := h.table k o ho
    refine ⟨s, hold o s hs ?_, hk⟩
    rintro rfl
    exact h.apart k o ho (by rw [queue]; exact List.mem_cons_self)
  · intro k o ho hq
    exact h.apart k o ho (by rw [queue]; exact List.mem_cons_of_mem _ hq)
  · intro o ho
    obtain ⟨s, hs⟩ := h.queue o (by rw [queue]; exact List.mem_cons_of_mem _ ho)
    refine ⟨s, hold o s hs ?_⟩
    rintro rfl
    exact hnodup.1 ho
  · intro o s ho
    exact h.listens o s (hback o s ho)
  · intro o s ho
    exact h.connected o s (hback o s ho)

theorem step (h : LayerInv t) {t' : Layer κ} {e : LayerEvent κ} {acts : List (LayerAct κ)}
    (made : layerStep t e = some (t', acts)) (runs : t'.stopped = false) : LayerInv t' := by
  obtain ⟨-, -, hc⟩ := layerStep_change made
  cases hc with
  | quiet _ idev listeners handling _ grows => exact h.quiet rfl rfl rfl rfl grows
  | notRemoved => exact h.quiet rfl rfl rfl rfl (fun _ _ hl => hl)
  | process i us rs rd pkt obj ts tsEcr w _ found alive _ work =>
    have hid : w.session.identity = ts.identity := by
      rw [work]
      exact processSegment_identity _ tsEcr ts
    have hinit : w.session.inInit = ts.inInit := by
      rw [work]
      exact congrArg (·.2.1) (processSegment_fixed _ tsEcr ts)
    have hupd := h.update alive hid (fun hi => hinit ▸ hi)
    exact hupd.quiet rfl rfl rfl rfl (fun _ _ hl => hl)
  | session _ obj ts ts' se acts _ alive hstep =>
    exact h.update alive (sessionStep_identity hstep) (sessionStep_inInit hstep)
  | server pkt isn handler _ listens _ =>
    exact h.create (newServerSession pkt pkt.key isn) t.listeners t.tcpClients
      (t.handling ++ [pkt]) (fun _ _ hl => hl) (fun _ => ⟨⟨handler, listens⟩, rfl⟩)
  | client idev us newData closed2 dstAddr dstPort localPort random ts acts device opens =>
    have hts : ts.isClient = true ∧ ts.key = hashAddress dstAddr localPort dstPort := by
      rw [openClientSession, Prod.mk.injEq] at opens
      rw [← opens.1]
      exact ⟨rfl, rfl⟩
    have hnew := h.create ts
      (t.listeners.insertIfNew (portNr localPort) (clientHandler newData closed2))
      (t.tcpClients.insertIfNew (portNr localPort) (hashAddress dstAddr localPort dstPort))
      t.handling (listeners_insertIfNew_grows _ _ _) (fun hs => by rw [hts.1] at hs; cases hs)
    rw [hts.2] at hnew
    exact hnew
  | ending _ key obj ts removing tcpClients found => exact h.toQueue found
  | freeing obj rest ts queue =>
    refine h.ofQueue queue (fun o => ?_)
    by_cases heq : o = obj
    · exact .inr ⟨heq, by rw [heq, Function.update_self]⟩
    · exact .inl (Function.update_of_ne heq _ _)
  | crash obj rest ts handler queue => exact h.ofQueue queue (fun o => .inl rfl)
  | stop => cases runs

end LayerInv

theorem layerInv_init (κ : Type) : LayerInv ({} : Layer κ) := by
  refine ⟨fun _ _ => rfl, ?_, ?_, by simp, List.nodup_nil, ?_, ?_⟩
  · intro key obj h
    simp at h
  · intro key obj h
    simp at h
  · intro obj ts h
    cases h
  · intro obj ts h
    cases h

/-- Every reachable state of the layer satisfies the invariant, as long as it was not destructed. -/
theorem layer_run_inv {t : Layer κ} {tr : List (LayerMove κ)} (run : Run layerStep {} tr t)
    (runs : t.stopped = false) : LayerInv t := by
  refine Run.invariant (fun t => t.stopped = false → LayerInv t) (fun _ => layerInv_init κ) ?_ run
    runs
  intro a e b o ih made hb
  exact (ih (layerStep_change made).2.1).step made hb

end MyIp.Tcp
