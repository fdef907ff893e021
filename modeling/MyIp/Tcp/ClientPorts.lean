import MyIp.Tcp.LayerSteps

/-! # The ports of the client sessions

`tcp_clients` maps the local ports of client sessions to the keys under which they stand in
`sessions`. Two of the three kinds of steps that touch these tables keep them together: the cleaner
releases the port of a client session that it removes, and `allocate_client_session` takes a free
one. The handler threads remove sessions without looking at `tcp_clients`, and a key that is in
the table already is not replaced (`client_ports_iff`). -/

namespace MyIp.Tcp
open Bytes EventMachine
set_option autoImplicit false

variable {κ : Type}

/-- Every entry of `tcp_clients` refers to a client session in the table that has this port. -/
def ClientPortsKnown (t : Layer κ) : Prop :=
  ∀ (port : ℤ) (id : BitVec 64), t.tcpClients[port]? = some id →
    ∃ obj ts, t.sessions[id]? = some obj ∧ t.objects obj = some ts ∧ ts.isClient = true ∧
      portNr ts.myPort = port

def LayerEvent.removes (t : Layer κ) : LayerEvent κ → Option Packet
  | .removePacket i => t.removing[i]?
  | _ => none

/-- The port and the key of a new client session. -/
def LayerEvent.claims : LayerEvent κ → Option (BitVec 16 × BitVec 64)
  | .allocateClientSession _ _ _ dstAddr dstPort localPort _ =>
    some (localPort, hashAddress dstAddr localPort dstPort)
  | _ => none

/-- What is asked of a step: a session that a handler thread removes has no entry in `tcp_clients`
any more, and a key that is in the table when a client session is allocated belongs to a client
session with the same port. -/
def ReleasesPort (m : LayerMove κ) : Prop :=
  (∀ pkt ∈ m.event.removes m.before, ∀ obj ∈ m.before.sessions[pkt.key]?,
    ∀ ts ∈ m.before.objects obj, ts.inInit = false →
      m.before.tcpClients[portNr ts.myPort]? ≠ some pkt.key) ∧
  ∀ c ∈ m.event.claims, ∀ obj ∈ m.before.sessions[c.2]?, ∀ ts ∈ m.before.objects obj,
    ts.isClient = true ∧ ts.myPort = c.1

-- the claims are an option of a finite type: they are looked at, the type is not enumerated
instance (m : LayerMove κ) : Decidable (ReleasesPort m) :=
  have : Decidable (∀ c ∈ m.event.claims, ∀ obj ∈ m.before.sessions[c.2]?,
      ∀ ts ∈ m.before.objects obj, ts.isClient = true ∧ ts.myPort = c.1) :=
    Option.decidableForallMem _
  inferInstanceAs (Decidable (
    (∀ pkt ∈ m.event.removes m.before, ∀ obj ∈ m.before.sessions[pkt.key]?,
      ∀ ts ∈ m.before.objects obj, ts.inInit = false →
        m.before.tcpClients[portNr ts.myPort]? ≠ some pkt.key) ∧
    ∀ c ∈ m.event.claims, ∀ obj ∈ m.before.sessions[c.2]?, ∀ ts ∈ m.before.objects obj,
      ts.isClient = true ∧ ts.myPort = c.1))

/-! ## What happens to `tcp_clients` -/

theorem endObject_tcpClients {t t' : Layer κ} {key : BitVec 64} {obj : ℕ}
    {acts : List (LayerAct κ)} (h : endObject t key obj = some (t', acts)) :
    t'.tcpClients = t.tcpClients := by
  unfold endObject at h
  split at h
  · cases h
    rfl
  · cases h

theorem endObject_sessions {t t' : Layer κ} {key : BitVec 64} {obj : ℕ}
    {acts : List (LayerAct κ)} (h : endObject t key obj = some (t', acts)) :
    t'.sessions = t.sessions.erase key := by
  unfold endObject at h
  split at h
  · cases h
    rfl
  · cases h

theorem removePacket_tables {t t' : Layer κ} {i : ℕ} {acts : List (LayerAct κ)}
    (made : layerStep t (.removePacket i) = some (t', acts)) :
    t'.tcpClients = t.tcpClients ∧ ∃ pkt, t.removing[i]? = some pkt ∧
      ((t'.sessions = t.sessions ∧ ∀ obj ts, t.sessions[pkt.key]? = some obj →
          t.objects obj = some ts → ts.inInit = true) ∨
        ∃ obj ts, t.sessions[pkt.key]? = some obj ∧ t.objects obj = some ts ∧ ts.inInit = false ∧
          t'.sessions = t.sessions.erase pkt.key) := by
  unfold layerStep at made
  split at made
  · cases made
  · simp only [runningStep, removePacket] at made
    split at made
    · cases made
    · next pkt due =>
      split at made
      · next hnone =>
        cases made
        refine ⟨rfl, pkt, due, .inl ⟨rfl, fun obj ts found => ?_⟩⟩
        cases hnone.symm.trans found
      · next obj found =>
        split at made
        · cases made
        · next ts alive =>
          split at made
          · next hinit =>
            cases made
            refine ⟨rfl, pkt, due, .inl ⟨rfl, fun obj' ts' found' alive' => ?_⟩⟩
            obtain rfl := Option.some.inj (found.symm.trans found')
            obtain rfl := Option.some.inj (alive.symm.trans alive')
            exact hinit
          · next hinit =>
            have hclients := endObject_tcpClients made
            have hsessions := endObject_sessions made
            exact ⟨hclients, pkt, due,
              .inr ⟨obj, ts, found, alive, by simpa using hinit, hsessions⟩⟩

theorem cleanerVisit_tables {t t' : Layer κ} {key now : BitVec 64} {acts : List (LayerAct κ)}
    (made : layerStep t (.cleanerVisit key now) = some (t', acts)) :
    t' = t ∨ ∃ obj ts, t.sessions[key]? = some obj ∧ t.objects obj = some ts ∧
      t'.sessions = t.sessions.erase key ∧ t'.tcpClients =
        if ts.isClient then t.tcpClients.erase (portNr ts.myPort) else t.tcpClients := by
  unfold layerStep at made
  split at made
  · cases made
  · simp only [runningStep, cleanerVisit] at made
    split at made
    · cases made
    · next obj found =>
      split at made
      · cases made
      · next ts alive =>
        split at made
        · cases made
        · split at made
          · have hsessions := endObject_sessions made
            have hclients := endObject_tcpClients made
            exact .inr ⟨obj, ts, found, alive, hsessions, hclients⟩
          · cases made
            exact .inl rfl

theorem allocate_tables {t t' : Layer κ} {us : BitVec 64} {newData sessionClosed2 : κ}
    {dstAddr : AnyAddr} {dstPort localPort : BitVec 16} {random : BitVec 32}
    {acts : List (LayerAct κ)} (made : layerStep t (.allocateClientSession us newData sessionClosed2
      dstAddr dstPort localPort random) = some (t', acts)) :
    portNr localPort ∉ t.tcpClients ∧
    t'.tcpClients = t.tcpClients.insertIfNew (portNr localPort)
      (hashAddress dstAddr localPort dstPort) ∧
    t'.sessions = t.sessions.insertIfNew (hashAddress dstAddr localPort dstPort) t.next ∧
    ∃ ts, t'.objects = Function.update t.objects t.next (some ts) ∧ ts.isClient = true ∧
      ts.myPort = localPort := by
  unfold layerStep at made
  split at made
  · cases made
  · simp only [runningStep, allocateClientSession] at made
    split at made
    · cases made
    · split at made
      · next hfree =>
        cases made
        exact ⟨hfree.2.2, rfl, rfl, _, rfl, rfl, rfl⟩
      · cases made

/-- The events that take a session out of the table or a port into `tcp_clients`. -/
def LayerEvent.movesPorts : LayerEvent κ → Bool
  | .removePacket _ => true
  | .cleanerVisit _ _ => true
  | .allocateClientSession _ _ _ _ _ _ _ => true
  | _ => false

theorem sessions_insertIfNew_grows {m : Std.TreeMap (BitVec 64) ℕ} {key k : BitVec 64} {o obj : ℕ}
    (h : m[k]? = some obj) : (m.insertIfNew key o)[k]? = some obj := by
  have hmem : k ∈ m := Std.TreeMap.mem_iff_isSome_getElem?.mpr (by simp [h])
  rw [Std.TreeMap.getElem?_insertIfNew, if_neg, h]
  rintro ⟨he, hn⟩
  exact hn (by rwa [Std.LawfulEqCmp.eq_of_compare he])

theorem other_tables {t t' : Layer κ} {e : LayerEvent κ} {acts : List (LayerAct κ)}
    (made : layerStep t e = some (t', acts)) (other : e.movesPorts = false) :
    t'.tcpClients = t.tcpClients ∧
      ∀ (id : BitVec 64) obj, t.sessions[id]? = some obj → t'.sessions[id]? = some obj := by
  cases (layerStep_change made).2.2 with
  | server => exact ⟨rfl, fun _ _ h => sessions_insertIfNew_grows h⟩
  | client => cases other
  | ending _ _ _ _ _ _ _ _ _ ended =>
    cases ended with
    | handler => cases other
    | cleaner => cases other
  | _ => exact ⟨rfl, fun _ _ h => h⟩

theorem tcpClients_erase {m : Std.TreeMap ℤ (BitVec 64)} {port p : ℤ} {id : BitVec 64}
    (h : (m.erase port)[p]? = some id) : p ≠ port ∧ m[p]? = some id := by
  rw [Std.TreeMap.getElem?_erase] at h
  split at h
  · cases h
  · next hp => exact ⟨fun he => hp (by rw [he]; exact Std.ReflCmp.compare_self), h⟩

theorem sessions_erase_of_ne {m : Std.TreeMap (BitVec 64) ℕ} {key k : BitVec 64} (h : k ≠ key) :
    (m.erase key)[k]? = m[k]? := by
  rw [Std.TreeMap.getElem?_erase, if_neg]
  exact fun hk => h (Std.LawfulEqCmp.eq_of_compare hk).symm

/-! ## One step -/

/-- A session in the table is there after the step too, as the same kind with the same port, as
long as the layer was not destructed. -/
theorem table_object_kept {t t' : Layer κ} {e : LayerEvent κ} {acts : List (LayerAct κ)}
    (inv : LayerInv t) (made : layerStep t e = some (t', acts)) (runs : t'.stopped = false)
    {key : BitVec 64} {obj : ℕ} {ts : TcpSession} (found : t.sessions[key]? = some obj)
    (alive : t.objects obj = some ts) :
    ∃ ts', t'.objects obj = some ts' ∧ ts'.isClient = ts.isClient ∧ ts'.myPort = ts.myPort := by
  have hupdate : ∀ o s s', t.objects o = some s → s'.identity = s.identity →
      ∃ ts', Function.update t.objects o (some s') obj = some ts' ∧
        ts'.isClient = ts.isClient ∧ ts'.myPort = ts.myPort := by
    intro o s s' hs hid
    by_cases heq : obj = o
    · subst heq
      obtain rfl := Option.some.inj (alive.symm.trans hs)
      obtain ⟨-, hport, hclient⟩ := key_of_identity hid
      exact ⟨s', Function.update_self .., hclient, hport⟩
    · exact ⟨ts, by rw [Function.update_of_ne heq, alive], rfl, rfl⟩
  have hcreate : ∀ s, ∃ ts', Function.update t.objects t.next (some s) obj = some ts' ∧
      ts'.isClient = ts.isClient ∧ ts'.myPort = ts.myPort := by
    intro s
    have hlt := inv.lt_next alive
    exact ⟨ts, by rw [Function.update_of_ne (by omega), alive], rfl, rfl⟩
  cases (layerStep_change made).2.2 with
  | quiet => exact ⟨ts, alive, rfl, rfl⟩
  | notRemoved => exact ⟨ts, alive, rfl, rfl⟩
  | process i us rs rd pkt o s tsEcr w _ _ hs _ work =>
    refine hupdate o s w.session hs ?_
    rw [work]
    exact processSegment_identity _ tsEcr s
  | session _ o s s' se acts _ hs hstep => exact hupdate o s s' hs (sessionStep_identity hstep)
  | server => exact hcreate _
  | client => exact hcreate _
  | ending => exact ⟨ts, alive, rfl, rfl⟩
  | freeing o rest s queue =>
    have hne : obj ≠ o := by
      rintro rfl
      exact inv.apart key obj found (by rw [queue]; exact List.mem_cons_self)
    exact ⟨ts, by simp only [Function.update_of_ne hne, alive], rfl, rfl⟩
  | crash => exact ⟨ts, alive, rfl, rfl⟩
  | stop => cases runs

theorem ClientPortsKnown.keep {t t' : Layer κ} {e : LayerEvent κ} {acts : List (LayerAct κ)}
    (h : ClientPortsKnown t) (inv : LayerInv t) (made : layerStep t e = some (t', acts))
    (runs : t'.stopped = false) {port : ℤ} {id : BitVec 64} (entry : t.tcpClients[port]? = some id)
    (stays : ∀ obj, t.sessions[id]? = some obj → t'.sessions[id]? = some obj) :
    ∃ obj ts, t'.sessions[id]? = some obj ∧ t'.objects obj = some ts ∧ ts.isClient = true ∧
      portNr ts.myPort = port := by
  obtain ⟨obj, ts, found, alive, hclient, hport⟩ := h port id entry
  obtain ⟨ts', alive', hc, hp⟩ := table_object_kept inv made runs found alive
  exact ⟨obj, ts', stays obj found, alive', hc.trans hclient, by rw [hp, hport]⟩

theorem known_after_removePacket {t t' : Layer κ} {i : ℕ} {acts : List (LayerAct κ)}
    (h : ClientPortsKnown t) (inv : LayerInv t)
    (made : layerStep t (.removePacket i) = some (t', acts)) (runs : t'.stopped = false) :
    ClientPortsKnown t' ↔ ReleasesPort ⟨t, .removePacket i, acts⟩ := by
  obtain ⟨hclients, pkt, due, hcase⟩ := removePacket_tables made
  constructor
  · intro hknown
    refine ⟨?_, by simp [LayerEvent.claims]⟩
    intro pkt' hp obj found ts alive hinit hentry
    obtain rfl := Option.some.inj (due.symm.trans hp)
    rcases hcase with ⟨-, hall⟩ | ⟨-, -, -, -, -, herase⟩
    · rw [hall obj ts found alive] at hinit
      cases hinit
    · obtain ⟨o, -, hgone, -⟩ := hknown _ _ (hclients ▸ hentry)
      rw [herase, Std.TreeMap.getElem?_erase_self] at hgone
      cases hgone
  · rintro ⟨hok, -⟩ port id hentry
    rw [hclients] at hentry
    refine h.keep inv made runs hentry (fun obj hfound => ?_)
    rcases hcase with ⟨hsame, -⟩ | ⟨o, ts, found, alive, hinit, herase⟩
    · rw [hsame, hfound]
    · rw [herase, sessions_erase_of_ne, hfound]
      rintro rfl
      obtain ⟨o', ts', found', alive', -, hport⟩ := h port pkt.key hentry
      obtain rfl := Option.some.inj (found.symm.trans found')
      obtain rfl := Option.some.inj (alive.symm.trans alive')
      exact hok pkt due o found ts alive hinit (hport ▸ hentry)

theorem known_after_cleanerVisit {t t' : Layer κ} {key now : BitVec 64} {acts : List (LayerAct κ)}
    (h : ClientPortsKnown t) (inv : LayerInv t)
    (made : layerStep t (.cleanerVisit key now) = some (t', acts)) (runs : t'.stopped = false) :
    ClientPortsKnown t' := by
  rcases cleanerVisit_tables made with rfl | ⟨o, ts, found, alive, herase, hclients⟩
  · exact h
  · intro port id hentry
    have hold : t.tcpClients[port]? = some id ∧ (ts.isClient = true → port ≠ portNr ts.myPort) := by
      rw [hclients] at hentry
      split at hentry
      · exact ⟨(tcpClients_erase hentry).2, fun _ => (tcpClients_erase hentry).1⟩
      · next hc => exact ⟨hentry, fun hc' => absurd hc' hc⟩
    refine h.keep inv made runs hold.1 (fun obj hfound => ?_)
    rw [herase, sessions_erase_of_ne, hfound]
    -- the entry of the removed session itself was erased with it
    rintro rfl
    obtain ⟨o', ts', found', alive', hc, hport⟩ := h port id hold.1
    obtain rfl := Option.some.inj (found.symm.trans found')
    obtain rfl := Option.some.inj (alive.symm.trans alive')
    exact hold.2 hc hport.symm

theorem known_after_allocate {t t' : Layer κ} {us : BitVec 64} {newData sessionClosed2 : κ}
    {dstAddr : AnyAddr} {dstPort localPort : BitVec 16} {random : BitVec 32}
    {acts : List (LayerAct κ)} (h : ClientPortsKnown t) (inv : LayerInv t)
    (made : layerStep t (.allocateClientSession us newData sessionClosed2 dstAddr dstPort localPort
      random) = some (t', acts)) (runs : t'.stopped = false) :
    ClientPortsKnown t' ↔ ReleasesPort ⟨t, .allocateClientSession us newData sessionClosed2 dstAddr
      dstPort localPort random, acts⟩ := by
  obtain ⟨hfree, hclients, hsessions, ts, hobjects, hclient, hport⟩ := allocate_tables made
  have hnew : t'.tcpClients[portNr localPort]? = some (hashAddress dstAddr localPort dstPort) := by
    rw [hclients, Std.TreeMap.getElem?_insertIfNew, if_pos ⟨Std.ReflCmp.compare_self, hfree⟩]
  constructor
  · intro hknown
    refine ⟨by simp [LayerEvent.removes], ?_⟩
    intro c hc obj found s alive
    obtain rfl := Option.some.inj hc
    obtain ⟨obj', s', found', alive', hc', hp'⟩ := hknown _ _ hnew
    rw [hsessions, sessions_insertIfNew_grows found] at found'
    obtain rfl := Option.some.inj found'
    have hlt := inv.lt_next alive
    rw [hobjects, Function.update_of_ne (by omega), alive] at alive'
    obtain rfl := Option.some.inj alive'
    refine ⟨hc', BitVec.eq_of_toNat_eq ?_⟩
    simpa [portNr] using hp'
  · rintro ⟨-, hok⟩ port id hentry
    by_cases hp : port = portNr localPort
    · subst hp
      obtain rfl := Option.some.inj (hnew.symm.trans hentry)
      cases hfound : t.sessions[hashAddress dstAddr localPort dstPort]? with
      | some obj =>
        obtain ⟨s, alive, -⟩ := inv.table _ _ hfound
        obtain ⟨hc', hp'⟩ := hok _ rfl obj hfound s alive
        have hlt := inv.lt_next alive
        refine ⟨obj, s, ?_, ?_, hc', by rw [hp']⟩
        · rw [hsessions]
          exact sessions_insertIfNew_grows hfound
        · rw [hobjects, Function.update_of_ne (by omega), alive]
      | none =>
        have hmem : hashAddress dstAddr localPort dstPort ∉ t.sessions := by
          rw [Std.TreeMap.mem_iff_isSome_getElem?, hfound]
          simp
        refine ⟨t.next, ts, ?_, by rw [hobjects, Function.update_self], hclient, by rw [hport]⟩
        rw [hsessions, Std.TreeMap.getElem?_insertIfNew, if_pos ⟨Std.ReflCmp.compare_self, hmem⟩]
    · have hold : t.tcpClients[port]? = some id := by
        rw [hclients, Std.TreeMap.getElem?_insertIfNew, if_neg] at hentry
        · exact hentry
        · rintro ⟨he, -⟩
          exact hp (Std.LawfulEqCmp.eq_of_compare he).symm
      refine h.keep inv made runs hold (fun obj hfound => ?_)
      rw [hsessions]
      exact sessions_insertIfNew_grows hfound

theorem ClientPortsKnown.step_iff {t t' : Layer κ} {e : LayerEvent κ} {acts : List (LayerAct κ)}
    (h : ClientPortsKnown t) (inv : LayerInv t) (made : layerStep t e = some (t', acts))
    (runs : t'.stopped = false) : ClientPortsKnown t' ↔ ReleasesPort ⟨t, e, acts⟩ := by
  have hother : e.movesPorts = false → e.removes t = none → e.claims = none →
      (ClientPortsKnown t' ↔ ReleasesPort ⟨t, e, acts⟩) := by
    intro hmoves hremoves hclaims
    obtain ⟨hclients, hsessions⟩ := other_tables made hmoves
    refine iff_of_true (fun port id hentry => ?_) ⟨by simp [hremoves], by simp [hclaims]⟩
    rw [hclients] at hentry
    exact h.keep inv made runs hentry (hsessions id)
  cases e with
  | removePacket i => exact known_after_removePacket h inv made runs
  | cleanerVisit key now =>
    exact iff_of_true (known_after_cleanerVisit h inv made runs)
      ⟨by simp [LayerEvent.removes], by simp [LayerEvent.claims]⟩
  | allocateClientSession => exact known_after_allocate h inv made runs
  | _ => exact hother rfl rfl rfl

/-! ## Runs -/

/-- In a run of the layer every entry of `tcp_clients` refers to its client session at all times if
and only if no handler thread removes a session that still has one, and no client session is
allocated under the key of another one. -/
theorem client_ports_iff {t : Layer κ} {tr : List (LayerMove κ)} (run : Run layerStep {} tr t)
    (runs : t.stopped = false) :
    ((∀ m ∈ tr, ClientPortsKnown m.before) ∧ ClientPortsKnown t) ↔ ∀ m ∈ tr, ReleasesPort m := by
  induction run with
  | nil =>
    refine iff_of_true ⟨by simp, fun port id h => ?_⟩ (by simp)
    simp at h
  | @snoc tr t t' e acts run made ih =>
    have hlive := (layerStep_change made).2.1
    have inv := layer_run_inv run hlive
    have hbefore := ih hlive
    simp only [List.mem_append, List.mem_singleton, or_imp, forall_and, forall_eq]
    constructor
    · rintro ⟨⟨hall, ht⟩, ht'⟩
      exact ⟨hbefore.mp ⟨hall, ht⟩, (ht.step_iff inv made runs).mp ht'⟩
    · rintro ⟨hall, hlast⟩
      obtain ⟨hold, ht⟩ := hbefore.mpr hall
      exact ⟨⟨hold, ht⟩, (ht.step_iff inv made runs).mpr hlast⟩

/-- A client session from port 5900 that its peer accepts and that its user waited for. -/
def Sample.connectedClient : List (LayerEvent Unit) :=
  let synAck : Packet := ⟨peer, host, bareSegment 0 80 5900 700 1 (flagSyn ||| flagAck) 100 [], []⟩
  [.registerIp device, .allocateClientSession 1 () () peer 80 5900 0] ++
    receive 2 synAck ++ [.waitTurn 0 3 0]

/-- The user closes the session and the cleaner removes it: the port is free again. -/
theorem client_ports_released :
    ∃ (tr : List (LayerMove Unit)) (t : Layer Unit), Run layerStep {} tr t ∧ t.stopped = false ∧
      (∀ m ∈ tr, ReleasesPort m) ∧ ClientPortsKnown t ∧ t.tcpClients.isEmpty = true := by
  let events : List (LayerEvent Unit) := Sample.connectedClient ++
    [.closeClientSession 5900 4, .cleanerVisit (hashAddress Sample.peer 5900 80) 5]
  have run := exec_get_run layerStep {} events (by decide +kernel)
  have runs : ((exec layerStep {} events).get (by decide +kernel)).2.stopped = false := by
    decide +kernel
  have ok : ∀ m ∈ ((exec layerStep {} events).get (by decide +kernel)).1, ReleasesPort m := by
    decide +kernel
  exact ⟨_, _, run, runs, ok, ((client_ports_iff run runs).mpr ok).2, by decide +kernel⟩

/-- The peer resets the session: it is gone from the table and its port is still taken. -/
theorem client_port_kept_after_reset :
    ∃ (tr : List (LayerMove Unit)) (t : Layer Unit), Run layerStep {} tr t ∧ t.stopped = false ∧
      t.tcpClients[portNr 5900]? = some (hashAddress Sample.peer 5900 80) ∧
      t.sessions[hashAddress Sample.peer 5900 80]? = none ∧ ¬ClientPortsKnown t := by
  let reset : Packet :=
    ⟨Sample.peer, Sample.host, bareSegment 0 80 5900 701 1 flagRst 100 [], []⟩
  let events : List (LayerEvent Unit) :=
    Sample.connectedClient ++ Sample.receive 4 reset ++ [.removePacket 0]
  have run := exec_get_run layerStep {} events (by decide +kernel)
  have hentry : ((exec layerStep {} events).get (by decide +kernel)).2.tcpClients[portNr 5900]? =
      some (hashAddress Sample.peer 5900 80) := by decide +kernel
  have hgone : ((exec layerStep {} events).get (by decide +kernel)).2.sessions[hashAddress
      Sample.peer 5900 80]? = none := by decide +kernel
  refine ⟨_, _, run, by decide +kernel, hentry, hgone, fun h => ?_⟩
  obtain ⟨obj, ts, found, -⟩ := h _ _ hentry
  cases hgone.symm.trans found

end MyIp.Tcp
