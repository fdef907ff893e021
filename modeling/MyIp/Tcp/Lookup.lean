import MyIp.Tcp.LayerSteps

/-! # Which session a packet reaches

The table of sessions is searched by a 64 bit key only: the hash of the peer's address, with the two
ports combined into its upper half. The lower half is the address alone. So two peers can be taken
for one another, with suitable ports, exactly if the lower halves of their hashes agree
(`keys_injective_iff`); among peers where they do not, a segment affects the session of its own
connection only (`packet_affects_own_session`). -/

namespace MyIp.Tcp
open Bytes EventMachine
set_option autoImplicit false

variable {κ : Type}

/-! ## Keys -/

def lowHash (a : AnyAddr) : BitVec 32 := a.getHash.setWidth 32

section Bits
variable (a : AnyAddr) (l r : BitVec 16)

theorem hashAddress_low {i : ℕ} (h : i < 32) :
    (hashAddress a l r).getLsbD i = a.getHash.getLsbD i := by
  have h48 : i < 48 := by omega
  simp [hashAddress, h, h48]

theorem hashAddress_local {i : ℕ} (h : i < 16) :
    (hashAddress a l r).getLsbD (32 + i) = (a.getHash.getLsbD (32 + i) ^^ l.getLsbD i) := by
  have h48 : 32 + i < 48 := by omega
  have h64 : 32 + i < 64 := by omega
  simp [hashAddress, h48, h64]

theorem hashAddress_peer {i : ℕ} (h : i < 16) :
    (hashAddress a l r).getLsbD (48 + i) = (a.getHash.getLsbD (48 + i) ^^ r.getLsbD i) := by
  have h64 : 48 + i < 64 := by omega
  have hsub : 48 + i - 32 = 16 + i := by omega
  simp [hashAddress, h64, hsub]

end Bits

theorem lowHash_of_key {a b : AnyAddr} {l r l' r' : BitVec 16}
    (h : hashAddress a l r = hashAddress b l' r') : lowHash a = lowHash b := by
  apply BitVec.eq_of_getLsbD_eq
  intro i hi
  have hbit := congrArg (fun x => BitVec.getLsbD x i) h
  simp only [hashAddress_low _ _ _ hi] at hbit
  simp [lowHash, hi, hbit]

theorem ports_of_key {a : AnyAddr} {l r l' r' : BitVec 16}
    (h : hashAddress a l r = hashAddress a l' r') : l = l' ∧ r = r' := by
  constructor
  · apply BitVec.eq_of_getLsbD_eq
    intro i hi
    have hbit := congrArg (fun x => BitVec.getLsbD x (32 + i)) h
    simp only [hashAddress_local _ _ _ hi] at hbit
    simpa using hbit
  · apply BitVec.eq_of_getLsbD_eq
    intro i hi
    have hbit := congrArg (fun x => BitVec.getLsbD x (48 + i)) h
    simp only [hashAddress_peer _ _ _ hi] at hbit
    simpa using hbit

/-- Any difference of the upper halves is made up for by the ports. -/
theorem key_clash {a b : AnyAddr} (h : lowHash a = lowHash b) (l r : BitVec 16) :
    hashAddress a l r = hashAddress b
      (l ^^^ ((a.getHash ^^^ b.getHash) >>> 32).setWidth 16)
      (r ^^^ ((a.getHash ^^^ b.getHash) >>> 48).setWidth 16) := by
  apply BitVec.eq_of_getLsbD_eq
  intro i hi
  rcases Nat.lt_or_ge i 32 with hlow | hlow
  · have hbit := congrArg (fun x => BitVec.getLsbD x i) h
    simp only [lowHash, BitVec.getLsbD_setWidth, hlow, decide_true, Bool.true_and] at hbit
    rw [hashAddress_low _ _ _ hlow, hashAddress_low _ _ _ hlow, hbit]
  · rcases Nat.lt_or_ge i 48 with hmid | hmid
    · obtain ⟨j, rfl⟩ := Nat.exists_eq_add_of_le hlow
      have hj : j < 16 := by omega
      rw [hashAddress_local _ _ _ hj, hashAddress_local _ _ _ hj]
      simp [hj]
      cases a.getHash.getLsbD (32 + j) <;> cases b.getHash.getLsbD (32 + j) <;> simp
    · obtain ⟨j, rfl⟩ := Nat.exists_eq_add_of_le hmid
      have hj : j < 16 := by omega
      rw [hashAddress_peer _ _ _ hj, hashAddress_peer _ _ _ hj]
      simp [hj]
      cases a.getHash.getLsbD (48 + j) <;> cases b.getHash.getLsbD (48 + j) <;> simp

/-- No two of the addresses agree in the lower halves of their hashes. -/
def Separated (P : AnyAddr → Prop) : Prop := ∀ a b, P a → P b → lowHash a = lowHash b → a = b

/-- The keys of the addresses tell connections apart. -/
def KeysInjective (P : AnyAddr → Prop) : Prop :=
  ∀ a b, P a → P b → ∀ l r l' r', hashAddress a l r = hashAddress b l' r' →
    a = b ∧ l = l' ∧ r = r'

theorem keysInjective_iff (P : AnyAddr → Prop) : KeysInjective P ↔ Separated P := by
  constructor
  · intro hk a b ha hb hlow
    exact (hk a b ha hb 0 0 _ _ (key_clash hlow 0 0)).1
  · intro hs a b ha hb l r l' r' hkey
    obtain rfl := hs a b ha hb (lowHash_of_key hkey)
    exact ⟨rfl, ports_of_key hkey⟩

/-! ## Runs among separated peers -/

def LayerEvent.peer : LayerEvent κ → Option AnyAddr
  | .arrivePacket pkt _ => some pkt.srcAddr
  | .allocateClientSession _ _ _ dstAddr _ _ _ => some dstAddr
  | _ => none

/-- All packets in work and all sessions are of peers in `P`. -/
structure PeersIn (P : AnyAddr → Prop) (t : Layer κ) : Prop where
  handling : ∀ pkt ∈ t.handling, P pkt.srcAddr
  removing : ∀ pkt ∈ t.removing, P pkt.srcAddr
  sessions : ∀ obj ts, t.objects obj = some ts → P ts.theirAddr

theorem PeersIn.update {P : AnyAddr → Prop} {t : Layer κ} (h : PeersIn P t) {obj o : ℕ}
    {ts s : TcpSession} (hts : P ts.theirAddr)
    (ho : Function.update t.objects obj (some ts) o = some s) : P s.theirAddr := by
  by_cases heq : o = obj
  · subst heq
    simp only [Function.update_self, Option.some.injEq] at ho
    exact ho ▸ hts
  · rw [Function.update_of_ne heq] at ho
    exact h.sessions o s ho

theorem PeersIn.step {P : AnyAddr → Prop} {t t' : Layer κ} (h : PeersIn P t) {e : LayerEvent κ}
    {acts : List (LayerAct κ)} (peer : ∀ a, e.peer = some a → P a)
    (made : layerStep t e = some (t', acts)) : PeersIn P t' := by
  obtain ⟨-, -, hc⟩ := layerStep_change made
  have hsame : ∀ {ts ts' : TcpSession}, P ts.theirAddr → ts'.identity = ts.identity →
      P ts'.theirAddr := by
    intro ts ts' hts hid
    rwa [show ts'.theirAddr = ts.theirAddr from congrArg (·.2.2.1) hid]
  cases hc with
  | quiet _ idev listeners handling _ _ arrived =>
    refine ⟨fun pkt hp => ?_, h.removing, h.sessions⟩
    rcases arrived pkt hp with hp | ⟨isn, rfl⟩
    · exact h.handling pkt hp
    · exact peer _ rfl
  | notRemoved i pkt =>
    exact ⟨h.handling, fun p hp => h.removing p (List.mem_of_mem_eraseIdx hp), h.sessions⟩
  | process i us rs rd pkt obj ts tsEcr w inWork found alive _ work =>
    refine ⟨fun p hp => h.handling p (List.mem_of_mem_eraseIdx hp), fun p hp => ?_,
      fun o s ho => ?_⟩
    · simp only at hp
      split at hp
      · rcases List.mem_append.mp hp with hp | hp
        · exact h.removing p hp
        · obtain rfl := List.mem_singleton.mp hp
          exact h.handling _ (List.mem_of_getElem? inWork)
      · exact h.removing p hp
    · refine h.update (hsame (h.sessions obj ts alive) ?_) ho
      rw [work]
      exact processSegment_identity _ tsEcr ts
  | session _ obj ts ts' se acts _ alive hstep =>
    exact ⟨h.handling, h.removing, fun o s ho =>
      h.update (hsame (h.sessions obj ts alive) (sessionStep_identity hstep)) ho⟩
  | server pkt isn =>
    refine ⟨fun p hp => ?_, h.removing, fun o s ho => ?_⟩
    · rcases List.mem_append.mp hp with hp | hp
      · exact h.handling p hp
      · obtain rfl := List.mem_singleton.mp hp
        exact peer _ rfl
    · have hts : P (newServerSession pkt pkt.key isn).theirAddr := peer _ rfl
      exact h.update hts ho
  | client idev us newData closed2 dstAddr dstPort localPort random ts acts _ opens =>
    have hts : ts.theirAddr = dstAddr := by
      rw [openClientSession, Prod.mk.injEq] at opens
      rw [← opens.1]
      rfl
    exact ⟨h.handling, h.removing, fun o s ho => h.update (hts ▸ peer _ rfl) ho⟩
  | ending _ key obj ts removing tcpClients _ _ _ ended =>
    refine ⟨h.handling, fun p hp => ?_, h.sessions⟩
    cases ended with
    | handler i pkt _ _ rest =>
      simp only [rest] at hp
      exact h.removing p (List.mem_of_mem_eraseIdx hp)
    | cleaner now rest =>
      simp only [rest] at hp
      exact h.removing p hp
  | freeing obj rest ts =>
    refine ⟨h.handling, h.removing, fun o s ho => ?_⟩
    by_cases heq : o = obj
    · simp [heq] at ho
    · simp only [Function.update_of_ne heq] at ho
      exact h.sessions o s ho
  | crash => exact ⟨h.handling, h.removing, h.sessions⟩
  | stop => exact ⟨h.handling, h.removing, h.sessions⟩

def LayerEvent.packet (t : Layer κ) : LayerEvent κ → Option Packet
  | .arrivePacket pkt _ => some pkt
  | .processPacket i _ _ _ => t.handling[i]?
  | .removePacket i => t.removing[i]?
  | _ => none

/-- The step changes the object, takes it out of the table or does something on its behalf. -/
def Affects (t t' : Layer κ) (acts : List (LayerAct κ)) (obj : ℕ) : Prop :=
  t'.objects obj ≠ t.objects obj ∨
    (∃ key : BitVec 64, t.sessions[key]? = some obj ∧ t'.sessions[key]? ≠ some obj) ∨
    ∃ a, .onSession obj a ∈ acts

/-- The session is the one of the packet's connection. -/
def Owns (ts : TcpSession) (pkt : Packet) : Prop :=
  ts.theirAddr = pkt.srcAddr ∧ ts.myPort = Segment.dstPort pkt.data ∧
    ts.theirPort = Segment.srcPort pkt.data

theorem Owns.congr {ts ts' : TcpSession} {pkt : Packet} (h : Owns ts pkt)
    (hid : ts'.identity = ts.identity) : Owns ts' pkt := by
  simp only [TcpSession.identity, Prod.mk.injEq] at hid
  obtain ⟨-, h2, h3, h4, -⟩ := hid
  exact ⟨h3.trans h.1, h2.trans h.2.1, h4.trans h.2.2⟩

theorem found_owns {P : AnyAddr → Prop} {t : Layer κ} {pkt : Packet} {obj : ℕ} {ts : TcpSession}
    (keys : KeysInjective P) (inv : LayerInv t) (peers : PeersIn P t) (src : P pkt.srcAddr)
    (found : t.sessions[pkt.key]? = some obj) (alive : t.objects obj = some ts) : Owns ts pkt := by
  obtain ⟨ts', alive', hkey⟩ := inv.table _ _ found
  rw [alive] at alive'
  cases alive'
  obtain ⟨h1, h2, h3⟩ := keys _ _ src (peers.sessions obj ts alive) _ _ _ _ hkey
  exact ⟨h1.symm, h2.symm, h3.symm⟩

/-- The object that is affected, if a step leaves all others and their places in the table. -/
theorem Affects.eq_of_only {t t' : Layer κ} {acts : List (LayerAct κ)} {obj o : ℕ}
    (haff : Affects t t' acts obj) (hobjects : obj ≠ o → t'.objects obj = t.objects obj)
    (htable : ∀ key : BitVec 64, obj ≠ o → t.sessions[key]? = some obj →
      t'.sessions[key]? = some obj)
    (hacts : ∀ a, .onSession obj a ∈ acts → obj = o) : obj = o := by
  by_contra hne
  rcases haff with hobj | ⟨key, hin, hout⟩ | ⟨a, ha⟩
  · exact hobj (hobjects hne)
  · exact hout (htable key hne hin)
  · exact hne (hacts a ha)

theorem packet_step_owns {P : AnyAddr → Prop} {t t' : Layer κ} {e : LayerEvent κ}
    {acts : List (LayerAct κ)} {pkt : Packet} {obj : ℕ} (keys : KeysInjective P)
    (inv : LayerInv t) (peers : PeersIn P t) (made : layerStep t e = some (t', acts))
    (hpkt : e.packet t = some pkt) (haff : Affects t t' acts obj) :
    ∃ ts, t'.objects obj = some ts ∧ Owns ts pkt := by
  obtain ⟨-, -, hc⟩ := layerStep_change made
  have hplain : t'.objects = t.objects → t'.sessions = t.sessions →
      (∀ a ∈ acts, a.isPlain = true) → False := by
    rintro h1 h2 h3
    rcases haff with hobj | ⟨key, hin, hout⟩ | ⟨a, ha⟩
    · exact hobj (by rw [h1])
    · exact hout (by rw [h2, hin])
    · exact absurd (h3 _ ha) (by simp [LayerAct.isPlain])
  cases hc with
  | quiet _ _ _ _ _ _ _ plain => exact (hplain rfl rfl plain).elim
  | notRemoved => exact (hplain rfl rfl (by simp)).elim
  | process i us rs rd p o ts tsEcr w inWork found alive _ work =>
    have hp : p = pkt := Option.some.inj (inWork.symm.trans hpkt)
    subst hp
    obtain rfl : obj = o := haff.eq_of_only (fun hne => Function.update_of_ne hne _ _)
      (fun _ _ hin => hin) fun a ha => (map_onSession_mem ha).1
    have hpeer := peers.handling p (List.mem_of_getElem? inWork)
    have hown := found_owns keys inv peers hpeer found alive
    refine ⟨w.session, by simp, hown.congr ?_⟩
    rw [work]
    exact processSegment_identity _ tsEcr ts
  | session _ o ts ts' se acts source alive hstep =>
    -- a step with a packet is none with a session event
    cases e with
    | arrivePacket => cases source
    | processPacket => cases source
    | removePacket => cases source
    | _ => cases hpkt
  | server p isn handler =>
    have hp : p = pkt := Option.some.inj hpkt
    subst hp
    have heq : obj = t.next := by
      refine haff.eq_of_only (fun hne => Function.update_of_ne hne _ _) (fun key _ hin => ?_)
        fun a ha => by simp at ha
      simp only
      rw [Std.TreeMap.getElem?_insertIfNew, if_neg]
      · exact hin
      · rintro ⟨hk, hn⟩
        rw [Std.LawfulEqCmp.eq_of_compare hk] at hn
        exact hn (Std.TreeMap.mem_iff_isSome_getElem?.mpr (by simp [hin]))
    subst heq
    exact ⟨newServerSession p p.key isn, by simp, rfl, rfl, rfl⟩
  | client => cases hpkt
  | ending _ key o ts removing tcpClients found alive _ ended =>
    cases ended with
    | cleaner now => cases hpkt
    | handler i p due here rest =>
      have hp : p = pkt := Option.some.inj (due.symm.trans hpkt)
      subst hp
      subst here
      have heq : obj = o := by
        refine haff.eq_of_only (fun _ => rfl) (fun key hne hin => ?_) fun a ha => by simp at ha
        simp only
        rw [Std.TreeMap.getElem?_erase, if_neg]
        · exact hin
        · intro hk
          rw [← Std.LawfulEqCmp.eq_of_compare hk, found] at hin
          exact hne (Option.some.inj hin).symm
      subst heq
      exact ⟨ts, alive, found_owns keys inv peers (peers.removing p (List.mem_of_getElem? due))
        found alive⟩
  | freeing => cases hpkt
  | crash => cases hpkt
  | stop => cases hpkt

theorem layer_run_peers {P : AnyAddr → Prop} {t : Layer κ} {tr : List (LayerMove κ)}
    (run : Run layerStep {} tr t) (peers : ∀ m ∈ tr, ∀ a, m.event.peer = some a → P a) :
    PeersIn P t :=
  Run.history_invariant (fun m => ∀ a, m.event.peer = some a → P a) (fun _ t => PeersIn P t)
    ⟨by simp, by simp, fun _ _ h => by cases h⟩ (fun _ _ _ _ _ h ok made => h.step ok made) run
    peers

/-- The keys tell the connections of some peers apart exactly if the lower halves of their hashes
do; and then, in every run with these peers, whatever a packet does to a session is done to the
session of its own connection. -/
theorem packet_affects_own_session (P : AnyAddr → Prop) :
    (KeysInjective P ↔ Separated P) ∧
    (Separated P → ∀ (tr : List (LayerMove κ)) (t : Layer κ), Run layerStep {} tr t →
      (∀ m ∈ tr, ∀ a, m.event.peer = some a → P a) →
      ∀ e t' acts pkt, layerStep t e = some (t', acts) → e.packet t = some pkt →
        ∀ obj, Affects t t' acts obj → ∃ ts, t'.objects obj = some ts ∧ Owns ts pkt) := by
  refine ⟨keysInjective_iff P, ?_⟩
  intro sep tr t run peers e t' acts pkt made hpkt obj haff
  have inv := layer_run_inv run (layerStep_change made).2.1
  have keys := (keysInjective_iff P).mpr sep
  exact packet_step_owns keys inv (layer_run_peers run peers) made hpkt haff

/-- Something done for the object `obj`. -/
def LayerAct.isFor (obj : ℕ) : LayerAct κ → Bool
  | .onSession o _ => o == obj
  | _ => false

theorem affects_of_any {t t' : Layer κ} {acts : List (LayerAct κ)} {obj : ℕ}
    (h : acts.any (LayerAct.isFor obj) = true) : Affects t t' acts obj := by
  obtain ⟨a, ha, hfor⟩ := List.any_eq_true.mp h
  unfold LayerAct.isFor at hfor
  split at hfor
  · obtain rfl := beq_iff_eq.mp hfor
    exact .inr (.inr ⟨_, ha⟩)
  · cases hfor

/-- One peer is separated from itself: its SYN affects the session it creates, and no other. -/
theorem packet_affects_own_session_single_peer :
    ∃ (tr : List (LayerMove Unit)) (t t' : Layer Unit) (acts : List (LayerAct Unit)),
      Run layerStep {} tr t ∧ layerStep t (.processPacket 0 1 true true) = some (t', acts) ∧
      Affects t t' acts 0 ∧
      ∃ ts, t'.objects 0 = some ts ∧ Owns ts (Sample.packet 1000 0 flagSyn 100 []) := by
  let events : List (LayerEvent Unit) :=
    Sample.service ++ [.arrivePacket (Sample.packet 1000 0 flagSyn 100 []) 500]
  have run := exec_get_run layerStep {} events (by decide +kernel)
  have hstep : (layerStep ((exec layerStep {} events).get (by decide +kernel)).2
      (.processPacket 0 1 true true)).map (fun r => r.2.any (LayerAct.isFor 0)) = some true := by
    decide +kernel
  obtain ⟨⟨t', acts⟩, made, hany⟩ := Option.map_eq_some_iff.mp hstep
  have haff : Affects ((exec layerStep {} events).get (by decide +kernel)).2 t' acts 0 :=
    affects_of_any hany
  refine ⟨_, _, t', acts, run, made, haff, ?_⟩
  refine (packet_affects_own_session (· = Sample.peer)).2 ?_ _ _ run ?_ _ t' acts _ made rfl 0 haff
  · rintro a b rfl rfl -
    rfl
  · decide +kernel

/-- The lower halves of the hashes of 10.0.251.94 and 10.1.129.141 agree. A segment of the second
peer, a RST, resets the session of the first. -/
theorem foreign_reset_closes_session :
    ∃ (tr : List (LayerMove Unit)) (t : Layer Unit), Run layerStep {} tr t ∧
      ∃ (pkt : Packet) (t' : Layer Unit) (acts : List (LayerAct Unit)) (ts : TcpSession),
        (LayerEvent.processPacket 0 2 true true : LayerEvent Unit).packet t = some pkt ∧
        layerStep t (.processPacket 0 2 true true) = some (t', acts) ∧ Affects t t' acts 0 ∧
        t'.objects 0 = some ts ∧ ts.state = .closing ∧
        ts.theirAddr = AnyAddr.ipv4 10 0 251 94 ∧ pkt.srcAddr = AnyAddr.ipv4 10 1 129 141 ∧
        ¬Owns ts pkt := by
  let first : Packet := ⟨AnyAddr.ipv4 10 0 251 94, Sample.host,
    bareSegment 0 4000 80 1000 0 flagSyn 100 [], []⟩
  let second : Packet := ⟨AnyAddr.ipv4 10 1 129 141, Sample.host,
    bareSegment 0 (4000 ^^^ 0x8ab7) (80 ^^^ 0x4f13) 7 0 flagRst 100 [], []⟩
  let events : List (LayerEvent Unit) :=
    Sample.service ++ Sample.receive 1 first ++ [.arrivePacket second 0]
  have run := exec_get_run layerStep {} events (by decide +kernel)
  have hstep : (layerStep ((exec layerStep {} events).get (by decide +kernel)).2
      (.processPacket 0 2 true true)).bind (fun r => r.1.objects 0 |>.map fun ts =>
        (ts.state, ts.theirAddr, r.2.any (LayerAct.isFor 0))) =
      some (.closing, AnyAddr.ipv4 10 0 251 94, true) := by
    decide +kernel
  obtain ⟨⟨t', acts⟩, made, hts⟩ := Option.bind_eq_some_iff.mp hstep
  obtain ⟨ts, alive, heq⟩ := Option.map_eq_some_iff.mp hts
  simp only [Prod.mk.injEq] at heq
  obtain ⟨hstate, haddr, hany⟩ := heq
  have haff : Affects ((exec layerStep {} events).get (by decide +kernel)).2 t' acts 0 :=
    affects_of_any hany
  refine ⟨_, _, run, second, t', acts, ts, by decide +kernel, made, haff, alive, hstate, haddr,
    rfl, ?_⟩
  rintro ⟨h, -⟩
  rw [haddr] at h
  exact absurd h (by decide)

end MyIp.Tcp
