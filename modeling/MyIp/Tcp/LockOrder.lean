import MyIp.Foundations.Locks

/-! # The locks of the TCP layer

Each operation of the TCP layer, and of the echo application on top of it, as the sequence of its
acquisitions and releases of `sessions_lock`, of the `session_lock` of a session and of the
application's `r_lock`, one for each way through it. A wait for a condition variable releases its
lock and takes it again.

Almost everywhere the locks are taken in the order `sessions_lock`, `session_lock`, `r_lock`. There
are two exceptions. `client_session_send_data` calls `send_data` with `sessions_lock` held, which
then takes it again; and the echo thread calls `send_data` with `r_lock` held, while the packet
handler takes `r_lock` with the session's lock held. Apart from these no thread requests a lock it
has, and there is no cycle of waits (`lock_discipline`). -/

namespace MyIp.Tcp.Locking
open Locks EventMachine
set_option autoImplicit false

inductive Lock (σ : Type)
  | sessionsLock
  | sessionLock (s : σ)
  | rLock (s : σ)
  deriving DecidableEq

section Programs
variable {σ : Type}

/-- `std::unique_lock<std::shared_mutex> lck(sessions_lock)` for a short scope. -/
def lockSessions : List (Action (Lock σ)) :=
  [.acquire .sessionsLock .exclusive, .release .sessionsLock]

def lockSession (s : σ) : List (Action (Lock σ)) :=
  [.acquire (.sessionLock s) .exclusive, .release (.sessionLock s)]

/-- What becomes of a packet: it is dropped before the lookup, its session is not there, or it is
processed. `deliver` is a call of the echo application's `new_data` with data. -/
inductive PacketPath (σ : Type)
  | dropped
  | unknown
  | found (s : σ) (deliver deleteEntry notifyUnackedCv : Bool)

/-- `new_data` of the echo application. -/
def echoNewData (s : σ) : List (Action (Lock σ)) :=
  [.acquire (.rLock s) .exclusive, .release (.rLock s)]

/-- `tcp::packet_handler`; `syn` for a SYN to a port with a listener. -/
def packetHandler (syn : Bool) (path : PacketPath σ) : List (Action (Lock σ)) :=
  (if syn then lockSessions else []) ++
  match path with
  | .dropped => []
  | .unknown => [.acquire .sessionsLock .shared, .release .sessionsLock]
  | .found s deliver deleteEntry notifyUnackedCv =>
    [.acquire .sessionsLock .shared, .acquire (.sessionLock s) .exclusive] ++
      (if deliver then echoNewData s else []) ++
      [.release (.sessionLock s), .release .sessionsLock] ++
      (if deleteEntry then lockSessions else []) ++
      (if notifyUnackedCv then lockSessions else [])

/-- `tcp::send_data`, which waits `waits` times for room in the buffer. -/
def sendData (s : σ) (waits : ℕ) (appended : Bool) : List (Action (Lock σ)) :=
  (List.range (waits + 1)).flatMap (fun _ => lockSession s) ++
    (if appended then lockSessions else [])

/-- `tcp::client_session_send_data`; without a session it returns at once. -/
def clientSessionSendData : Option (σ × ℕ × Bool) → List (Action (Lock σ))
  | none => [.acquire .sessionsLock .shared, .release .sessionsLock]
  | some (s, waits, appended) =>
    .acquire .sessionsLock .shared :: sendData s waits appended ++ [.release .sessionsLock]

def closeClientSession : Option σ → List (Action (Lock σ))
  | none => [.acquire .sessionsLock .shared, .release .sessionsLock]
  | some s => .acquire .sessionsLock .shared :: lockSession s ++ [.release .sessionsLock]

/-- `tcp::wait_for_client_connected_state`: each turn of its loop takes the session's lock once, or
twice when it waits for `state_changed`. -/
def waitForClientConnectedState : Option (σ × ℕ) → List (Action (Lock σ))
  | none => [.acquire .sessionsLock .shared, .release .sessionsLock]
  | some (s, n) =>
    [.acquire .sessionsLock .shared, .release .sessionsLock] ++
      (List.range n).flatMap (fun _ => lockSession s) ++
      [.acquire .sessionsLock .shared, .release .sessionsLock]

/-- `tcp::unacked_sender`: each entry is a wait for `unacked_cv` and the sessions visited after
it. -/
def unackedSender (passes : List (List σ)) : List (Action (Lock σ)) :=
  .acquire .sessionsLock .shared ::
    passes.flatMap (fun visited =>
      [.release .sessionsLock, .acquire .sessionsLock .shared] ++ visited.flatMap lockSession) ++
    [.release .sessionsLock]

def sessionCleaner (passes : List (List σ)) : List (Action (Lock σ)) :=
  passes.flatMap fun visited =>
    .acquire .sessionsLock .exclusive :: visited.flatMap lockSession ++ [.release .sessionsLock]

/-- `echo_thread`: each turn of its loop sends what `new_data` left for it, if anything, and waits
for `r_cond`. -/
def echoThread (s : σ) (turns : List (Option (ℕ × Bool))) : List (Action (Lock σ)) :=
  .acquire (.rLock s) .exclusive ::
    turns.flatMap (fun sends =>
      (match sends with
        | none => []
        | some (waits, appended) => sendData s waits appended) ++
      [.release (.rLock s), .acquire (.rLock s) .exclusive]) ++
    [.release (.rLock s)]

inductive Operation (σ : Type)
  | packetHandler (syn : Bool) (path : PacketPath σ)
  | sendData (s : σ) (waits : ℕ) (appended : Bool)
  | clientSessionSendData (found : Option (σ × ℕ × Bool))
  | closeClientSession (found : Option σ)
  | waitForClientConnectedState (found : Option (σ × ℕ))
  | unackedSender (passes : List (List σ))
  | sessionCleaner (passes : List (List σ))
  | echoThread (s : σ) (turns : List (Option (ℕ × Bool)))

def Operation.locks : Operation σ → List (Action (Lock σ))
  | .packetHandler syn path => Locking.packetHandler syn path
  | .sendData s waits appended => Locking.sendData s waits appended
  | .clientSessionSendData found => Locking.clientSessionSendData found
  | .closeClientSession found => Locking.closeClientSession found
  | .waitForClientConnectedState found => Locking.waitForClientConnectedState found
  | .unackedSender passes => Locking.unackedSender passes
  | .sessionCleaner passes => Locking.sessionCleaner passes
  | .echoThread s turns => Locking.echoThread s turns

/-- `client_session_send_data` for an established session with room in its buffer. -/
def Operation.relocks : Operation σ → Bool
  | .clientSessionSendData (some (_, _, appended)) => appended
  | _ => false

end Programs

/-! ## The order of the locks -/

section Order
variable {σ : Type}

def Lock.rank : Lock σ → ℕ
  | sessionsLock => 0
  | sessionLock _ => 1
  | rLock _ => 2

/-- A lock is requested only if it is not held, and with lower ones held, except that `r_lock` may
be held for any request. `r_lock` itself is requested with the session's lock held, or with none.
Only `sessions_lock` is shared. -/
structure Allowed (held : List (Lock σ × Mode)) (l : Lock σ) (mode : Mode) : Prop where
  fresh : ∀ h ∈ held, h.1 ≠ l
  above : ∀ h ∈ held, h.1.rank < l.rank ∨ ∃ s, h.1 = .rLock s
  inside : ∀ s, l = .rLock s → held = [] ∨ ∃ mode', (.sessionLock s, mode') ∈ held
  shares : mode = .shared → l = .sessionsLock

theorem allowed_sessionsLock (mode : Mode) :
    Allowed ([] : List (Lock σ × Mode)) .sessionsLock mode :=
  ⟨by simp, by simp, by simp, fun _ => rfl⟩

theorem allowed_sessionLock {held : List (Lock σ × Mode)} (s : σ)
    (h : ∀ h ∈ held, h.1 = .sessionsLock ∨ ∃ s', h.1 = .rLock s') :
    Allowed held (.sessionLock s) .exclusive := by
  refine ⟨fun x hx => ?_, fun x hx => ?_, by simp, by simp⟩
  · rcases h x hx with he | ⟨s', he⟩
    · simp [he]
    · simp [he]
  · rcases h x hx with he | hr
    · exact .inl (by simp [he, Lock.rank])
    · exact .inr hr

variable [DecidableEq σ]

theorem lockSession_balanced {held : List (Lock σ × Mode)} (s : σ)
    (h : ∀ h ∈ held, h.1 = .sessionsLock ∨ ∃ s', h.1 = .rLock s') :
    Balanced Allowed held (lockSession s) :=
  .scope (b := []) (allowed_sessionLock s h) (allowed_sessionLock s h).fresh (.nil _)

theorem lockSessions_balanced {held : List (Lock σ × Mode)}
    (h : ∀ h ∈ held, ∃ s, h.1 = .rLock s) : Balanced Allowed held lockSessions := by
  have hfresh : ∀ x ∈ held, x.1 ≠ .sessionsLock := by
    intro x hx
    obtain ⟨s, he⟩ := h x hx
    simp [he]
  exact .scope (b := []) ⟨hfresh, fun x hx => .inr (h x hx), by simp, fun _ => rfl⟩ hfresh
    (.nil _)

theorem shared_balanced {b : List (Action (Lock σ))}
    (h : Balanced Allowed [(.sessionsLock, .shared)] b) :
    Balanced Allowed [] (.acquire .sessionsLock .shared :: b ++ [.release .sessionsLock]) :=
  .scope (allowed_sessionsLock .shared) (by simp) h

theorem sendData_balanced {held : List (Lock σ × Mode)} (s : σ) (waits : ℕ) {appended : Bool}
    (h : ∀ h ∈ held, h.1 = .sessionsLock ∨ ∃ s', h.1 = .rLock s')
    (hfree : appended = true → ∀ h ∈ held, ∃ s', h.1 = .rLock s') :
    Balanced Allowed held (sendData s waits appended) := by
  refine (Balanced.flatMap (fun _ => lockSession_balanced s h) _).append ?_
  cases happ : appended with
  | false => exact .nil _
  | true => exact lockSessions_balanced (hfree happ)

theorem echoNewData_balanced (s : σ) :
    Balanced Allowed [(.sessionLock s, .exclusive), (.sessionsLock, .shared)]
      (echoNewData s) := by
  refine .scope (b := []) ⟨by simp, ?_, ?_, by simp⟩ (by simp) (.nil _)
  · simp [Lock.rank]
  · intro s' he
    cases he
    exact .inr ⟨.exclusive, by simp⟩

theorem packetHandler_balanced (syn : Bool) (path : PacketPath σ) :
    Balanced Allowed [] (packetHandler syn path) := by
  have hsessions : ∀ b : Bool, Balanced Allowed ([] : List (Lock σ × Mode))
      (if b then lockSessions else []) := by
    intro b
    cases b with
    | false => exact .nil _
    | true => exact lockSessions_balanced (by simp)
  refine (hsessions syn).append ?_
  cases path with
  | dropped => exact .nil _
  | unknown => exact shared_balanced (b := []) (.nil _)
  | found s deliver deleteEntry notifyUnackedCv =>
    refine Balanced.append (Balanced.append ?_ (hsessions deleteEntry)) (hsessions notifyUnackedCv)
    have hdeliver : Balanced Allowed [(.sessionLock s, .exclusive), (.sessionsLock, .shared)]
        (if deliver then echoNewData s else []) := by
      cases deliver with
      | false => exact .nil _
      | true => exact echoNewData_balanced s
    have hbody : Balanced Allowed [(.sessionsLock, .shared)]
        (.acquire (.sessionLock s) .exclusive :: (if deliver then echoNewData s else []) ++
          [.release (.sessionLock s)]) :=
      .scope (allowed_sessionLock s (by simp)) (by simp) hdeliver
    simpa using shared_balanced hbody

theorem echoThread_balanced (s : σ) (turns : List (Option (ℕ × Bool))) :
    Balanced Allowed [] (echoThread s turns) := by
  have hlock : Allowed ([] : List (Lock σ × Mode)) (.rLock s) .exclusive :=
    ⟨by simp, by simp, fun _ _ => .inl rfl, by simp⟩
  refine .scope hlock (by simp) (Balanced.flatMap (fun sends => ?_) turns)
  refine Balanced.append ?_ (.pause hlock)
  cases sends with
  | none => exact .nil _
  | some p => exact sendData_balanced s p.1 (by simp) (by simp)

/-- Every operation but the one that takes `sessions_lock` twice. -/
theorem locks_balanced {op : Operation σ} (h : op.relocks = false) :
    Balanced Allowed [] op.locks := by
  have hlookup : Balanced Allowed ([] : List (Lock σ × Mode))
      [.acquire .sessionsLock .shared, .release .sessionsLock] :=
    shared_balanced (b := []) (.nil _)
  have hsession : ∀ s : σ, ∀ mode : Mode,
      Balanced Allowed [(.sessionsLock, mode)] (lockSession s) := fun s _ =>
    lockSession_balanced s (by simp)
  cases op with
  | packetHandler syn path => exact packetHandler_balanced syn path
  | sendData s waits appended => exact sendData_balanced s waits (by simp) (by simp)
  | clientSessionSendData found =>
    cases found with
    | none => exact hlookup
    | some p =>
      obtain ⟨s, waits, appended⟩ := p
      refine shared_balanced (sendData_balanced s waits (by simp) fun happ => ?_)
      rw [Operation.relocks, happ] at h
      cases h
  | closeClientSession found =>
    cases found with
    | none => exact hlookup
    | some s => exact shared_balanced (hsession s .shared)
  | waitForClientConnectedState found =>
    cases found with
    | none => exact hlookup
    | some p =>
      exact (hlookup.append (.flatMap (fun _ => lockSession_balanced p.1 (by simp)) _)).append
        hlookup
  | unackedSender passes =>
    refine shared_balanced (.flatMap (fun visited => ?_) passes)
    exact (Balanced.pause (allowed_sessionsLock .shared)).append
      (.flatMap (fun s => hsession s .shared) visited)
  | sessionCleaner passes =>
    refine .flatMap (fun visited => ?_) passes
    exact .scope (allowed_sessionsLock .exclusive) (by simp)
      (.flatMap (fun s => hsession s .exclusive) visited)
  | echoThread s turns => exact echoThread_balanced s turns

end Order

/-! ## All interleavings -/

section Runs
variable {σ : Type} [DecidableEq σ]

/-- The thread has `r_lock` of the session and calls `send_data` before it gives it back. -/
def Sends (s : σ) (t : Thread (Lock σ)) : Prop := t.nests (.rLock s) fun _ => true

/-- The thread has the lock of the session and calls `new_data` before it gives it back. -/
def Delivers (s : σ) (t : Thread (Lock σ)) : Prop := t.nests (.sessionLock s) (· == .rLock s)

/-- The step is no start of the operation that takes `sessions_lock` twice, no thread takes `r_lock`
of a session to send while a packet handler that will deliver to the session has its lock, and no
packet handler takes the lock to deliver while a thread sends under `r_lock`. -/
def KeepsApart (threads : List (Thread (Lock σ))) : Event (Operation σ) → Prop
  | .start op => op.relocks = false
  | .turn i => ∀ t, threads[i]? = some t → ∀ s mode,
      (t.request = some (.rLock s, mode) → nestsIn (fun _ => true) (.rLock s) t.todo.tail = true →
        ∀ t' ∈ threads, ¬Delivers s t') ∧
      (t.request = some (.sessionLock s, mode) →
        nestsIn (· == .rLock s) (.sessionLock s) t.todo.tail = true →
        ∀ t' ∈ threads, ¬Sends s t')

instance (s : σ) (t : Thread (Lock σ)) : Decidable (Sends s t) :=
  inferInstanceAs (Decidable (t.nests (.rLock s) fun _ => true))

instance (s : σ) (t : Thread (Lock σ)) : Decidable (Delivers s t) :=
  inferInstanceAs (Decidable (t.nests (.sessionLock s) (· == .rLock s)))

instance [Fintype σ] (threads : List (Thread (Lock σ))) (e : Event (Operation σ)) :
    Decidable (KeepsApart threads e) :=
  match e with
  | .start op => inferInstanceAs (Decidable (op.relocks = false))
  | .turn i => decidable_of_iff (∀ t ∈ threads[i]?, ∀ s mode,
      (t.request = some (.rLock s, mode) → nestsIn (fun _ => true) (.rLock s) t.todo.tail = true →
        ∀ t' ∈ threads, ¬Delivers s t') ∧
      (t.request = some (.sessionLock s, mode) →
        nestsIn (· == .rLock s) (.sessionLock s) t.todo.tail = true →
        ∀ t' ∈ threads, ¬Sends s t')) Iff.rfl

structure LockInv (threads : List (Thread (Lock σ))) : Prop where
  ordered : ∀ t ∈ threads, t.Ordered Allowed
  apart : ∀ s, ∀ t ∈ threads, ∀ t' ∈ threads, Sends s t → ¬Delivers s t'

theorem not_nests_start {l : Lock σ} {p : Lock σ → Bool} {program : List (Action (Lock σ))} :
    ¬(⟨[], program⟩ : Thread (Lock σ)).nests l p := by
  rintro ⟨⟨mode, hmem⟩, -⟩
  simp at hmem

theorem LockInv.step {threads threads' : List (Thread (Lock σ))} {e : Event (Operation σ)}
    {o : Unit} (h : LockInv threads) (ok : KeepsApart threads e)
    (made : step Operation.locks threads e = some (threads', o)) : LockInv threads' := by
  refine ⟨step_ordered h.ordered ?_ made, ?_⟩
  · rintro op rfl
    exact (locks_balanced ok).1
  · intro s t ht t' ht' hsends hdelivers
    rcases step_cases made with ⟨op, -, rfl⟩ | ⟨i, u, rfl, hu, -, -, rfl⟩
    · have hold : ∀ {x : Thread (Lock σ)} {l : Lock σ} {p : Lock σ → Bool},
          x ∈ threads ++ [⟨[], op.locks⟩] → x.nests l p → x ∈ threads := by
        intro x l p hx hn
        rcases List.mem_append.mp hx with hx | hx
        · exact hx
        · obtain rfl := List.mem_singleton.mp hx
          exact absurd hn not_nests_start
      exact h.apart s t (hold ht hsends) t' (hold ht' hdelivers) hsends hdelivers
    · -- a thread that sends or delivers now did so before, or takes the lock for it in this step
      have hmem := List.mem_of_getElem? hu
      have hs : (∃ x ∈ threads, Sends s x) ∨
          (∃ mode, u.request = some (.rLock s, mode)) ∧ ∀ x ∈ threads, ¬Delivers s x := by
        rcases List.mem_or_eq_of_mem_set ht with ht | rfl
        · exact .inl ⟨t, ht, hsends⟩
        · rcases Thread.nests_advance hsends with hn | ⟨mode, hreq, hn⟩
          · exact .inl ⟨u, hmem, hn⟩
          · exact .inr ⟨⟨mode, hreq⟩, (ok u hu s mode).1 hreq hn⟩
      have hd : (∃ x ∈ threads, Delivers s x) ∨
          (∃ mode, u.request = some (.sessionLock s, mode)) ∧ ∀ x ∈ threads, ¬Sends s x := by
        rcases List.mem_or_eq_of_mem_set ht' with ht' | rfl
        · exact .inl ⟨t', ht', hdelivers⟩
        · rcases Thread.nests_advance hdelivers with hn | ⟨mode, hreq, hn⟩
          · exact .inl ⟨u, hmem, hn⟩
          · exact .inr ⟨⟨mode, hreq⟩, (ok u hu s mode).2 hreq hn⟩
      rcases hs with ⟨x, hx, hxs⟩ | ⟨⟨mode, hreq⟩, hnone⟩
      · rcases hd with ⟨y, hy, hyd⟩ | ⟨-, hnone⟩
        · exact h.apart s x hx y hy hxs hyd
        · exact hnone x hx hxs
      · rcases hd with ⟨y, hy, hyd⟩ | ⟨⟨mode', hreq'⟩, -⟩
        · exact hnone y hy hyd
        · rw [hreq] at hreq'
          cases hreq'

/-- A wait that has another one behind it leads to a higher lock: the one exception, `r_lock`, is
requested by a packet handler that delivers while its holder sends. -/
theorem LockInv.rises {threads : List (Thread (Lock σ))} (h : LockInv threads) {i j k : ℕ}
    {t t' : Thread (Lock σ)} {l l' : Lock σ} {mode mode' mode'' : Mode}
    (hij : Waits threads i j) (hj : threads[j]? = some t) (hk : threads[k]? = some t')
    (hreq : t.request = some (l, mode)) (hheld : (l, mode') ∈ t'.held)
    (hreq' : t'.request = some (l', mode'')) : l.rank < l'.rank := by
  have ht := List.mem_of_getElem? hj
  have ht' := List.mem_of_getElem? hk
  rcases ((h.ordered t' ht').request hreq').above (l, mode') hheld with hlt | ⟨s, hs⟩
  · exact hlt
  · obtain rfl : l = .rLock s := hs
    exfalso
    rcases ((h.ordered t ht).request hreq).inside s rfl with hnil | ⟨mode1, hmem⟩
    · -- nobody waits for a thread that has nothing and wants an exclusive lock
      obtain ⟨x, y, l0, mode0, hx, hy, hxreq, hwait⟩ := hij
      obtain rfl := Option.some.inj (hj.symm.trans hy)
      rcases hwait with ⟨mode2, hmem, -⟩ | ⟨rfl, hreq0⟩
      · rw [hnil] at hmem
        simp at hmem
      · have hshared := ((h.ordered x (List.mem_of_getElem? hx)).request hxreq).shares rfl
        rw [hreq, hshared] at hreq0
        cases hreq0
    · exact h.apart s t' ht' t ht (Thread.nests_of_request hheld hreq' rfl)
        (Thread.nests_of_request hmem hreq (by simp))

theorem lock_run_inv {threads : List (Thread (Lock σ))}
    {tr : List (Move (List (Thread (Lock σ))) (Event (Operation σ)) Unit)}
    (run : Run (step Operation.locks) [] tr threads) (ok : ∀ m ∈ tr, KeepsApart m.before m.event) :
    LockInv threads :=
  Run.history_invariant (fun m => KeepsApart m.before m.event) (fun _ threads => LockInv threads)
    ⟨by simp, by simp⟩ (fun _ _ _ _ _ h ok made => h.step ok made) run ok

/-- In every interleaving of any number of these operations, as long as no
`client_session_send_data` appends data and no packet handler delivers to a session while its echo
thread sends: no thread requests a lock that it has, and no threads wait for each other. -/
theorem lock_discipline {threads : List (Thread (Lock σ))}
    {tr : List (Move (List (Thread (Lock σ))) (Event (Operation σ)) Unit)}
    (run : Run (step Operation.locks) [] tr threads)
    (ok : ∀ m ∈ tr, KeepsApart m.before m.event) :
    (∀ t ∈ threads, ∀ l mode, t.request = some (l, mode) → ∀ mode', (l, mode') ∉ t.held) ∧
      ∀ i, ¬Relation.TransGen (Waits threads) i i := by
  have inv := lock_run_inv run ok
  refine ⟨?_, ?_⟩
  · intro t ht l mode hreq mode' hmem
    exact ((inv.ordered t ht).request hreq).fresh (l, mode') hmem rfl
  · apply no_wait_cycle Lock.rank
    intro i j k t t' l l' mode mode' mode'' hij _ hj hk hreq hheld hreq'
    exact inv.rises hij hj hk hreq hheld hreq'

/-- A packet handler delivers a byte to the one session, and after that its echo thread sends it
back: in the middle of that it has `r_lock` and requests `sessions_lock`. -/
theorem lock_discipline_echo :
    ∃ (tr : List (Move (List (Thread (Lock Unit))) (Event (Operation Unit)) Unit))
      (threads : List (Thread (Lock Unit))),
      Run (step Operation.locks) [] tr threads ∧
      (∃ t ∈ threads, t.request = some (.sessionsLock, .exclusive) ∧
        t.held = [(.rLock (), .exclusive)]) ∧
      (∀ t ∈ threads, ∀ l mode, t.request = some (l, mode) → ∀ mode', (l, mode') ∉ t.held) ∧
      ∀ i, ¬Relation.TransGen (Waits threads) i i := by
  let events : List (Event (Operation Unit)) :=
    [.start (.packetHandler false (.found () true false false)),
      .start (.echoThread () [some (0, true)]), .turn 0, .turn 0, .turn 0, .turn 0, .turn 0,
      .turn 0, .turn 1, .turn 1, .turn 1]
  have run := exec_get_run (step (Operation.locks (σ := Unit))) [] events (by decide)
  exact ⟨_, _, run, by decide +kernel, lock_discipline run (by decide +kernel)⟩

/-- `client_session_send_data` requests the `sessions_lock` it has; and an echo thread that sends
and a packet handler that delivers to its session wait for each other. -/
theorem lock_discipline_broken :
    (∃ (tr : List (Move (List (Thread (Lock Unit))) (Event (Operation Unit)) Unit))
      (threads : List (Thread (Lock Unit))),
      Run (step Operation.locks) [] tr threads ∧
      ∃ t ∈ threads, t.request = some (.sessionsLock, .exclusive) ∧
        (.sessionsLock, .shared) ∈ t.held) ∧
    ∃ (tr : List (Move (List (Thread (Lock Unit))) (Event (Operation Unit)) Unit))
      (threads : List (Thread (Lock Unit))),
      Run (step Operation.locks) [] tr threads ∧ Relation.TransGen (Waits threads) 0 0 := by
  let sending : List (Event (Operation Unit)) :=
    [.start (.clientSessionSendData (some ((), 0, true))), .turn 0, .turn 0, .turn 0]
  let echoing : List (Event (Operation Unit)) :=
    [.start (.echoThread () [some (0, true)]),
      .start (.packetHandler false (.found () true false false)), .turn 0, .turn 1, .turn 1]
  have run := exec_get_run (step (Operation.locks (σ := Unit))) [] sending (by decide)
  have run' := exec_get_run (step (Operation.locks (σ := Unit))) [] echoing (by decide)
  refine ⟨⟨_, _, run, by decide +kernel⟩, _, _, run', ?_⟩
  have hecho : Waits ((exec (step (Operation.locks (σ := Unit))) [] echoing).get
      (by decide)).2 0 1 :=
    ⟨_, _, .sessionLock (), .exclusive, rfl, rfl, rfl, .inl ⟨.exclusive, by decide, rfl⟩⟩
  have hhandler : Waits ((exec (step (Operation.locks (σ := Unit))) [] echoing).get
      (by decide)).2 1 0 :=
    ⟨_, _, .rLock (), .exclusive, rfl, rfl, rfl, .inl ⟨.exclusive, by decide, rfl⟩⟩
  exact .tail (.single hecho) hhandler

end Runs

end MyIp.Tcp.Locking
