import MyIp.Arp.AddressCache

/-! # Resolving a MAC address

`mac_resolver::get_mac` (`mac_resolver.cpp`) sends a request, puts an entry into `work` and waits for
`arp::operator()` (`arp.cpp`) to fill it in. Any number of threads is inside `get_mac`; what one of
them or the ARP thread does with `work_lock` held is one event, and the events come in any order,
with whatever the clocks show. -/

namespace MyIp.Arp.MacResolver
set_option autoImplicit false

open Bytes EventMachine

/-- Where a call of `get_mac` is. -/
inductive Phase
  | idle
  /-- The request is sent, `work_lock` is not yet taken. -/
  | sent (ip : AnyAddr) (interface : ℕ)
  /-- In `wait_for`. -/
  | waiting (ip : AnyAddr) (interface : ℕ) (startTs : BitVec 64) (repeated : Bool)
  | returned (interface : ℕ) (result : Option (ℕ × AnyAddr))
  deriving DecidableEq

structure State where
  cache : AddressCache
  work : AnyAddr → Option (Option AnyAddr)
  calls : ℕ → Phase
  stopFlag : Bool

def State.init : State := ⟨.empty, fun _ => none, fun _ => .idle, false⟩

/-- What the subclass and the devices provide. -/
structure Resolver where
  getPhysType : ℕ → AddrFamily
  checkSpecialIpAddresses : AnyAddr → AddrFamily → Option AnyAddr

/-- What the clocks show in one turn of the loop: `get_ms` in its condition and in the test for a
second request, `get_us` in `update_cache`. -/
structure Clock where
  loop : BitVec 64
  again : BitVec 64
  us : BitVec 64

inductive Event
  /-- `get_mac` up to the request, which the device takes or not. -/
  | getMac (c : ℕ) (interface : ℕ) (ip : AnyAddr) (sends : Bool)
  /-- The lock is taken, the entry inserted and the first turn of the loop made. -/
  | insert (c : ℕ) (startTs : BitVec 64) (clock : Clock)
  /-- `wait_for` comes back, for whatever reason, and the next turn is made. -/
  | wake (c : ℕ) (clock : Clock)
  /-- The ARP thread gets to the end of a reply with these addresses. -/
  | reply (etherType : BitVec 16) (sha : Vector Byte 7) (spa : Vector Byte 4)
  | cache (e : Arp.Event)
  | stop

/-- `work_mac`; for another ether type it is not set. -/
def workMac (etherType : BitVec 16) (sha : Vector Byte 7) : Option AnyAddr :=
  if etherType = 0x0800 then some ⟨.mac, sha.toList.take 6, by simp [AddrFamily.size]⟩
  else if etherType = 0x08ff ∨ etherType = 0x00cc then
    some ⟨.ax25, sha.toList, by simp [AddrFamily.size]⟩
  else none

def workIp (spa : Vector Byte 4) : AnyAddr := ⟨.ipv4, spa.toList, by simp [AddrFamily.size]⟩

def State.setCall (s : State) (c : ℕ) (phase : Phase) : State :=
  { s with calls := Function.update s.calls c phase }

/-- The condition of the loop. -/
def State.inTime (s : State) (startTs : BitVec 64) (clock : Clock) : Bool :=
  !s.stopFlag && (clock.loop - startTs).toNat < 1000

/-- One turn of the loop of `get_mac`, and what comes after it. -/
def turn (s : State) (c : ℕ) (ip : AnyAddr) (interface : ℕ) (startTs : BitVec 64)
    (repeated : Bool) (clock : Clock) : Option State :=
  if s.inTime startTs clock then
    match s.work ip with
    | none => some (s.setCall c (.returned interface none))
    | some (some mac) =>
      (Arp.step s.cache (.updateCache mac ip interface false clock.us)).map fun updated =>
        { s.setCall c (.returned interface (some (interface, mac))) with
          cache := updated.1
          work := Function.update s.work ip none }
    | some none =>
      some (s.setCall c (.waiting ip interface startTs
        (repeated || 500 ≤ (clock.again - startTs).toNat)))
  else
    some { s.setCall c (.returned interface none) with work := Function.update s.work ip none }

/-- The state after `work.insert({ ip, { } })`, which leaves an entry that is there. -/
def State.insertWork (s : State) (ip : AnyAddr) : State :=
  if s.work ip = none then { s with work := Function.update s.work ip (some none) } else s

/-- The reply is put into an entry that is there. -/
def State.fillWork (s : State) (ip mac : AnyAddr) : State :=
  if s.work ip = none then s else { s with work := Function.update s.work ip (some (some mac)) }

/-- `get_mac` up to the request. -/
def getMac (r : Resolver) (s : State) (interface : ℕ) (ip : AnyAddr) (sends : Bool) : Phase :=
  match r.checkSpecialIpAddresses ip (r.getPhysType interface) with
  | some mac => .returned interface (some (interface, mac))
  | none =>
    match s.cache.queryCache ip false with
    | some found => .returned interface (some found)
    | none => if sends then .sent ip interface else .returned interface none

def step (r : Resolver) (s : State) : Event → Option (State × Unit)
  | .getMac c interface ip sends =>
    match s.calls c with
    | .idle => some (s.setCall c (getMac r s interface ip sends), ())
    | _ => none
  | .insert c startTs clock =>
    match s.calls c with
    | .sent ip interface =>
      (turn (s.insertWork ip) c ip interface startTs false clock).map (·, ())
    | _ => none
  | .wake c clock =>
    match s.calls c with
    | .waiting ip interface startTs repeated =>
      (turn s c ip interface startTs repeated clock).map (·, ())
    | _ => none
  | .reply etherType sha spa =>
    match workMac etherType sha with
    | some mac => some (s.fillWork (workIp spa) mac, ())
    -- the address is not set, and copying it into an entry fails an assertion
    | none => if s.work (workIp spa) = none then some (s, ()) else none
  | .cache e => (Arp.step s.cache e).map fun updated => ({ s with cache := updated.1 }, ())
  | .stop => some ({ s with stopFlag := true }, ())

/-! ## Replies -/

/-- The address that a call has asked for and not yet returned. -/
def Phase.pending : Phase → Option AnyAddr
  | idle => none
  | sent ip _ => some ip
  | waiting ip _ _ _ => some ip
  | returned _ _ => none

/-- Whose address a reply gives, and the address. -/
def Event.replied : Event → Option (AnyAddr × AnyAddr)
  | reply etherType sha spa => (workMac etherType sha).map (workIp spa, ·)
  | _ => none

/-- What a move answers to the call `c`: the reply comes after its request and before it returns. -/
def answered (c : ℕ) (m : Move State Event Unit) : Option AnyAddr :=
  m.event.replied.bind fun reply =>
    if (m.before.calls c).pending = some reply.1 then some reply.2 else none

/-- The last reply for the call `c`. -/
def answer (tr : List (Move State Event Unit)) (c : ℕ) : Option AnyAddr :=
  (tr.filterMap (answered c)).getLast?

/-- A turn of the loop that takes nothing from another call and does not come too late. -/
structure Safe (s : State) (c : ℕ) (ip : AnyAddr) (startTs : BitVec 64) (clock : Clock) : Prop where
  /-- If another call waits for the same entry, it stays. -/
  alone : ∀ d interface startTs' repeated, d ≠ c →
    s.calls d = .waiting ip interface startTs' repeated →
    s.inTime startTs clock = true ∧ s.work ip = some none
  /-- An answer is seen before the time is over. -/
  prompt : ∀ mac, s.work ip = some (some mac) → s.inTime startTs clock = true

/-- No reply comes between the request of a call and its entry, and every turn is safe. -/
def NoLoss (m : Move State Event Unit) : Prop :=
  match m.event with
  | .reply _ _ spa => ∀ c interface, m.before.calls c ≠ .sent (workIp spa) interface
  | .insert c startTs clock => ∀ ip interface, m.before.calls c = .sent ip interface →
      Safe (m.before.insertWork ip) c ip startTs clock
  | .wake c clock => ∀ ip interface startTs repeated,
      m.before.calls c = .waiting ip interface startTs repeated →
      Safe m.before c ip startTs clock
  | _ => True

/-- What `update_cache` asserts. -/
def Addresses (mac ip : AnyAddr) : Prop :=
  (mac.af = .mac ∨ mac.af = .ax25) ∧ (ip.af = .ipv4 ∨ ip.af = .ipv6)

/-- A call in the phase given, with the reply it had, has lost nothing. -/
def Kept (work : AnyAddr → Option (Option AnyAddr)) (reply : Option AnyAddr) : Phase → Prop
  | .idle => reply = none
  | .sent _ _ => reply = none
  | .waiting ip _ _ _ => ∃ entry, work ip = some entry ∧
      ∀ mac, reply = some mac → entry = some mac ∧ Addresses mac ip
  | .returned interface result => ∀ mac, reply = some mac → result = some (interface, mac)

theorem answer_snoc_none {tr : List (Move State Event Unit)} {m : Move State Event Unit} {c : ℕ}
    (h : answered c m = none) : answer (tr ++ [m]) c = answer tr c := by
  rw [answer, List.filterMap_append, List.filterMap_cons_none h, List.filterMap_nil,
    List.append_nil, answer]

theorem answer_snoc_some {tr : List (Move State Event Unit)} {m : Move State Event Unit} {c : ℕ}
    {mac : AnyAddr} (h : answered c m = some mac) : answer (tr ++ [m]) c = some mac := by
  rw [answer, List.filterMap_append, List.filterMap_cons_some h, List.filterMap_nil,
    List.getLast?_concat]

theorem Kept.of_work {work work' : AnyAddr → Option (Option AnyAddr)} {reply : Option AnyAddr}
    {phase : Phase} (h : Kept work reply phase)
    (hwork : ∀ ip interface startTs repeated, phase = .waiting ip interface startTs repeated →
      work' ip = work ip) : Kept work' reply phase := by
  cases phase with
  | idle => exact h
  | sent ip interface => exact h
  | returned interface result => exact h
  | waiting ip interface startTs repeated =>
    obtain ⟨entry, hentry, hreply⟩ := h
    exact ⟨entry, (hwork ip interface startTs repeated rfl).trans hentry, hreply⟩

theorem turn_cases {s t : State} {c : ℕ} {ip : AnyAddr} {interface : ℕ} {startTs : BitVec 64}
    {repeated : Bool} {clock : Clock} (h : turn s c ip interface startTs repeated clock = some t) :
    ∃ phase, t.calls = Function.update s.calls c phase ∧
      ((s.inTime startTs clock = true ∧ s.work ip = none ∧ t.work = s.work ∧
        phase = .returned interface none) ∨
      (s.inTime startTs clock = true ∧ s.work ip = some none ∧ t.work = s.work ∧
        ∃ repeated', phase = .waiting ip interface startTs repeated') ∨
      (∃ mac, s.inTime startTs clock = true ∧ s.work ip = some (some mac) ∧
        t.work = Function.update s.work ip none ∧
        phase = .returned interface (some (interface, mac))) ∨
      (s.inTime startTs clock = false ∧ t.work = Function.update s.work ip none ∧
        phase = .returned interface none)) := by
  rw [turn] at h
  split_ifs at h with htime
  · cases hwork : s.work ip with
    | none =>
      rw [hwork] at h
      obtain rfl := Option.some.inj h
      exact ⟨_, rfl, .inl ⟨htime, rfl, rfl, rfl⟩⟩
    | some entry =>
      rw [hwork] at h
      cases entry with
      | none =>
        obtain rfl := Option.some.inj h
        exact ⟨_, rfl, .inr (.inl ⟨htime, rfl, rfl, _, rfl⟩)⟩
      | some mac =>
        obtain ⟨updated, -, rfl⟩ := Option.map_eq_some_iff.mp h
        exact ⟨_, rfl, .inr (.inr (.inl ⟨mac, htime, rfl, rfl, rfl⟩))⟩
  · obtain rfl := Option.some.inj h
    exact ⟨_, rfl, .inr (.inr (.inr ⟨Bool.eq_false_of_not_eq_true htime, rfl, rfl⟩))⟩

/-- A safe turn of a call whose reply, if it had one, is in its entry. -/
theorem turn_kept {s t : State} {c : ℕ} {ip : AnyAddr} {interface : ℕ} {startTs : BitVec 64}
    {repeated : Bool} {clock : Clock} {reply : ℕ → Option AnyAddr}
    (hothers : ∀ d, d ≠ c → Kept s.work (reply d) (s.calls d)) {entry : Option AnyAddr}
    (hentry : s.work ip = some entry)
    (hreply : ∀ mac, reply c = some mac → entry = some mac ∧ Addresses mac ip)
    (safe : Safe s c ip startTs clock)
    (h : turn s c ip interface startTs repeated clock = some t) (d : ℕ) :
    Kept t.work (reply d) (t.calls d) := by
  obtain ⟨phase, hcalls, hcases⟩ := turn_cases h
  rw [hcalls]
  by_cases hd : d = c
  · subst hd
    rw [Function.update_self]
    obtain ⟨-, hnone, -⟩ | ⟨-, hwork, ht, repeated', rfl⟩ | ⟨mac, -, hwork, -, rfl⟩ |
      ⟨htime, -, rfl⟩ := hcases
    · rw [hentry] at hnone
      cases hnone
    · exact ⟨entry, by rw [ht, hentry], hreply⟩
    · intro mac' hmac'
      rw [hentry, (hreply mac' hmac').1] at hwork
      rw [Option.some.inj (Option.some.inj hwork)]
    · intro mac hmac
      have hlate := safe.prompt mac (by rw [hentry, (hreply mac hmac).1])
      rw [htime] at hlate
      cases hlate
  · rw [Function.update_of_ne hd]
    refine (hothers d hd).of_work fun ip' interface' startTs' repeated' hwaiting => ?_
    by_cases hip : ip' = ip
    · subst hip
      -- another call waits for this entry, so the turn does not end the call
      have hstays := safe.alone d interface' startTs' repeated' hd hwaiting
      obtain ⟨-, -, ht, -⟩ | ⟨-, -, ht, -⟩ | ⟨mac, -, hwork, -⟩ | ⟨htime, -⟩ := hcases
      · rw [ht]
      · rw [ht]
      · rw [hstays.2] at hwork
        cases hwork
      · rw [hstays.1] at htime
        cases htime
    · obtain ⟨-, -, ht, -⟩ | ⟨-, -, ht, -⟩ | ⟨mac, -, -, ht, -⟩ | ⟨-, ht, -⟩ := hcases
      · rw [ht]
      · rw [ht]
      · rw [ht, Function.update_of_ne hip]
      · rw [ht, Function.update_of_ne hip]

theorem insertWork_work (s : State) (ip ip' : AnyAddr) :
    (s.insertWork ip).work ip' =
      if s.work ip = none ∧ ip' = ip then some none else s.work ip' := by
  rw [State.insertWork]
  by_cases hnone : s.work ip = none
  · simp [hnone, Function.update_apply]
  · simp [hnone]

theorem fillWork_work (s : State) (ip mac ip' : AnyAddr) :
    (s.fillWork ip mac).work ip' =
      if s.work ip ≠ none ∧ ip' = ip then some (some mac) else s.work ip' := by
  rw [State.fillWork]
  by_cases hnone : s.work ip = none
  · simp [hnone]
  · simp [hnone, Function.update_apply]

theorem insertWork_calls (s : State) (ip : AnyAddr) : (s.insertWork ip).calls = s.calls := by
  rw [State.insertWork]
  split_ifs <;> rfl

theorem fillWork_calls (s : State) (ip mac : AnyAddr) : (s.fillWork ip mac).calls = s.calls := by
  rw [State.fillWork]
  split_ifs <;> rfl

theorem reply_kept {s : State} {ip mac : AnyAddr} {reply reply' : Option AnyAddr} {phase : Phase}
    (haddresses : Addresses mac ip) (h : Kept s.work reply phase)
    (hpending : phase.pending = some ip → reply' = some mac)
    (hother : phase.pending ≠ some ip → reply' = reply)
    (hsent : ∀ interface, phase ≠ .sent ip interface) :
    Kept (s.fillWork ip mac).work reply' phase := by
  cases phase with
  | idle => exact (hother (by simp [Phase.pending])).trans h
  | sent ip' interface =>
    refine (hother ?_).trans h
    rintro hip
    obtain rfl := Option.some.inj hip
    exact hsent interface rfl
  | returned interface result =>
    rw [hother (by simp [Phase.pending])]
    exact h
  | waiting ip' interface startTs repeated =>
    obtain ⟨entry, hentry, hreply⟩ := h
    rw [Kept, fillWork_work]
    by_cases hip : ip' = ip
    · subst hip
      refine ⟨some mac, if_pos ⟨by rw [hentry]; simp, rfl⟩, fun mac' hmac' => ?_⟩
      rw [hpending rfl] at hmac'
      obtain rfl := Option.some.inj hmac'
      exact ⟨rfl, haddresses⟩
    · refine ⟨entry, by rw [if_neg fun h => hip h.2, hentry], ?_⟩
      rw [hother fun h => hip (Option.some.inj h)]
      exact hreply

theorem workMac_addresses {etherType : BitVec 16} {sha : Vector Byte 7} {spa : Vector Byte 4}
    {mac : AnyAddr} (h : workMac etherType sha = some mac) : Addresses mac (workIp spa) := by
  rw [workMac] at h
  split_ifs at h with hether hax25
  · obtain rfl := Option.some.inj h
    exact ⟨.inl rfl, .inl rfl⟩
  · obtain rfl := Option.some.inj h
    exact ⟨.inr rfl, .inl rfl⟩

theorem getMac_kept (r : Resolver) (s : State) (interface : ℕ) (ip : AnyAddr) (sends : Bool)
    (work : AnyAddr → Option (Option AnyAddr)) : Kept work none (getMac r s interface ip sends) := by
  rw [getMac]
  cases r.checkSpecialIpAddresses ip (r.getPhysType interface) with
  | some mac => simp [Kept]
  | none =>
    cases s.cache.queryCache ip false with
    | some found => simp [Kept]
    | none => cases sends <;> simp [Kept]

theorem Kept.insertWork {s : State} {reply : Option AnyAddr} {phase : Phase}
    (h : Kept s.work reply phase) (ip : AnyAddr) : Kept (s.insertWork ip).work reply phase := by
  refine h.of_work fun ip' interface startTs repeated hphase => ?_
  subst hphase
  obtain ⟨entry, hentry, -⟩ := h
  rw [insertWork_work, if_neg]
  rintro ⟨hnone, rfl⟩
  rw [hentry] at hnone
  cases hnone

theorem step_kept {r : Resolver} {tr : List (Move State Event Unit)} {s t : State} {e : Event}
    {o : Unit} (h : ∀ c, Kept s.work (answer tr c) (s.calls c)) (ok : NoLoss ⟨s, e, o⟩)
    (made : step r s e = some (t, o)) (c : ℕ) :
    Kept t.work (answer (tr ++ [⟨s, e, o⟩]) c) (t.calls c) := by
  cases e with
  | getMac c' interface ip sends =>
    rw [answer_snoc_none rfl]
    cases hphase : s.calls c' with
    | idle =>
      simp only [step, hphase, Option.some.injEq, Prod.mk.injEq] at made
      obtain ⟨rfl, -⟩ := made
      change Kept s.work (answer tr c) (Function.update s.calls c' _ c)
      by_cases hc : c = c'
      · subst hc
        have hnone := h c
        rw [hphase] at hnone
        rw [hnone, Function.update_self]
        exact getMac_kept r s interface ip sends s.work
      · rw [Function.update_of_ne hc]
        exact h c
    | _ => simp [step, hphase] at made
  | insert c' startTs clock =>
    rw [answer_snoc_none rfl]
    cases hphase : s.calls c' with
    | sent ip interface =>
      simp only [step, hphase, Option.map_eq_some_iff, Prod.mk.injEq] at made
      obtain ⟨t', hturn, rfl, -⟩ := made
      have hnone := h c'
      rw [hphase] at hnone
      obtain ⟨entry, hentry⟩ : ∃ entry, (s.insertWork ip).work ip = some entry := by
        rw [insertWork_work]
        cases hwork : s.work ip with
        | none => exact ⟨none, by simp⟩
        | some entry => exact ⟨entry, by simp⟩
      refine turn_kept (fun d _ => ?_) hentry (fun mac hmac => ?_) (ok ip interface hphase) hturn c
      · rw [insertWork_calls]
        exact (h d).insertWork ip
      · rw [hnone] at hmac
        cases hmac
    | _ => simp [step, hphase] at made
  | wake c' clock =>
    rw [answer_snoc_none rfl]
    cases hphase : s.calls c' with
    | waiting ip interface startTs repeated =>
      simp only [step, hphase, Option.map_eq_some_iff, Prod.mk.injEq] at made
      obtain ⟨t', hturn, rfl, -⟩ := made
      have hwaiting := h c'
      rw [hphase] at hwaiting
      obtain ⟨entry, hentry, hreply⟩ := hwaiting
      exact turn_kept (fun d _ => h d) hentry hreply (ok ip interface startTs repeated hphase) hturn c
    | _ => simp [step, hphase] at made
  | reply etherType sha spa =>
    cases hmac : workMac etherType sha with
    | none =>
      have hanswered : answered c ⟨s, .reply etherType sha spa, o⟩ = none := by
        rw [answered, Event.replied, hmac]
        rfl
      simp only [step, hmac] at made
      split at made
      · simp only [Option.some.injEq, Prod.mk.injEq] at made
        obtain ⟨rfl, -⟩ := made
        rw [answer_snoc_none hanswered]
        exact h c
      · cases made
    | some mac =>
      simp only [step, hmac, Option.some.injEq, Prod.mk.injEq] at made
      obtain ⟨rfl, -⟩ := made
      have hanswered : answered c ⟨s, .reply etherType sha spa, o⟩ =
          if (s.calls c).pending = some (workIp spa) then some mac else none := by
        rw [answered, Event.replied, hmac]
        rfl
      rw [fillWork_calls]
      refine reply_kept (workMac_addresses hmac) (h c) (fun hpending => ?_) (fun hpending => ?_)
        (ok c)
      · exact answer_snoc_some (hanswered.trans (if_pos hpending))
      · exact answer_snoc_none (hanswered.trans (if_neg hpending))
  | cache e =>
    simp only [step, Option.map_eq_some_iff, Prod.mk.injEq] at made
    obtain ⟨updated, -, rfl, -⟩ := made
    rw [answer_snoc_none rfl]
    exact h c
  | stop =>
    simp only [step, Option.some.injEq, Prod.mk.injEq] at made
    obtain ⟨rfl, -⟩ := made
    rw [answer_snoc_none rfl]
    exact h c

theorem run_kept {r : Resolver} {tr : List (Move State Event Unit)} {t : State}
    (run : Run (step r) .init tr t) (ok : ∀ m ∈ tr, NoLoss m) (c : ℕ) :
    Kept t.work (answer tr c) (t.calls c) :=
  Run.history_invariant NoLoss (fun tr s => ∀ c, Kept s.work (answer tr c) (s.calls c))
    (fun c => by exact (rfl : answer [] c = none))
    (fun _ _ _ _ _ h hok made => step_kept h hok made) run ok c

theorem turn_answered {s : State} {ip mac : AnyAddr} {startTs : BitVec 64} {clock : Clock}
    (c : ℕ) (interface : ℕ) (repeated : Bool) (htime : s.inTime startTs clock = true)
    (hentry : s.work ip = some (some mac))
    (haddresses : Addresses mac ip) :
    ∃ t, turn s c ip interface startTs repeated clock = some t ∧
      t.calls c = .returned interface (some (interface, mac)) := by
  have hupdate : Arp.step s.cache (.updateCache mac ip interface false clock.us) =
      some (s.cache.updateCache mac ip interface false clock.us, .done) := if_pos haddresses
  rw [turn, if_pos htime, hentry]
  simp only [hupdate, Option.map_some]
  exact ⟨_, rfl, Function.update_self c _ s.calls⟩

/-- A call that had a reply returns it: if it has returned, with that address, and if it still
waits, in its next turn. -/
theorem getMac_returns_reply (r : Resolver) (tr : List (Move State Event Unit)) (t : State)
    (run : Run (step r) .init tr t) (ok : ∀ m ∈ tr, NoLoss m) (c : ℕ) (mac : AnyAddr)
    (hreply : answer tr c = some mac) :
    (∃ interface, t.calls c = .returned interface (some (interface, mac))) ∨
    ∃ ip interface startTs repeated, t.calls c = .waiting ip interface startTs repeated ∧
      ∀ clock, NoLoss ⟨t, .wake c clock, ()⟩ → ∃ u, step r t (.wake c clock) = some (u, ()) ∧
        u.calls c = .returned interface (some (interface, mac)) := by
  have hkept := run_kept run ok c
  rw [hreply] at hkept
  cases hphase : t.calls c with
  | idle =>
    rw [hphase] at hkept
    cases hkept
  | sent ip interface =>
    rw [hphase] at hkept
    cases hkept
  | returned interface result =>
    rw [hphase] at hkept
    exact .inl ⟨interface, by rw [hkept mac rfl]⟩
  | waiting ip interface startTs repeated =>
    rw [hphase] at hkept
    obtain ⟨entry, hentry, hmac⟩ := hkept
    obtain ⟨rfl, haddresses⟩ := hmac mac rfl
    refine .inr ⟨ip, interface, startTs, repeated, rfl, fun clock hok => ?_⟩
    have htime := (hok ip interface startTs repeated hphase).prompt mac hentry
    obtain ⟨u, hturn, hu⟩ := turn_answered c interface repeated htime hentry haddresses
    exact ⟨u, by simp only [step, hphase, hturn, Option.map_some], hu⟩

namespace Sample

/-- Ethernet devices, and an address that is not special. -/
def resolver : Resolver := ⟨fun _ => .mac, fun _ _ => none⟩

def sha : Vector Byte 7 := #v[2, 0, 0, 0, 6, 1, 10]

def spa : Vector Byte 4 := #v[10, 0, 0, 8]

def ip : AnyAddr := workIp spa

def mac : AnyAddr := ⟨.mac, [2, 0, 0, 0, 6, 1], rfl⟩

def reply : Event := .reply 0x0800 sha spa

def clockAt (ms : BitVec 64) : Clock := ⟨ms, ms, ms * 1000⟩

/-- A single call whose reply comes while it waits. -/
def single : List Event :=
  [.getMac 0 0 ip true, .insert 0 5000 (clockAt 5000), reply, .wake 0 (clockAt 5010)]

def requested : State := State.init.setCall 0 (.sent ip 0)

def pending : State := (requested.insertWork ip).setCall 0 (.waiting ip 0 5000 false)

def filled : State := pending.fillWork ip mac

def singleRun : List (Move State Event Unit) × State := (exec (step resolver) .init single).get rfl

/-- The reply is faster than the entry. -/
def early : List Event :=
  [.getMac 0 0 ip true, reply, .insert 0 5000 (clockAt 5000), .wake 0 (clockAt 6000)]

/-- Two calls for one address. -/
def shared : List Event :=
  [.getMac 0 0 ip true, .getMac 1 0 ip true, .insert 0 5000 (clockAt 5000),
    .insert 1 5000 (clockAt 5000),
    reply, .wake 0 (clockAt 5010), .wake 1 (clockAt 5011)]

/-- The thread is woken when the second is over. -/
def late : List Event :=
  [.getMac 0 0 ip true, .insert 0 5000 (clockAt 5000), reply, .wake 0 (clockAt 6000)]

end Sample

theorem getMac_returns_reply_single :
    answer Sample.singleRun.1 0 = some Sample.mac ∧
    ((∃ interface, Sample.singleRun.2.calls 0 =
        .returned interface (some (interface, Sample.mac))) ∨
      ∃ ip interface startTs repeated,
        Sample.singleRun.2.calls 0 = .waiting ip interface startTs repeated ∧
        ∀ clock, NoLoss ⟨Sample.singleRun.2, .wake 0 clock, ()⟩ →
          ∃ u, step Sample.resolver Sample.singleRun.2 (.wake 0 clock) = some (u, ()) ∧
            u.calls 0 = .returned interface (some (interface, Sample.mac))) := by
  have hmoves : Sample.singleRun.1 = [⟨.init, .getMac 0 0 Sample.ip true, ()⟩,
      ⟨Sample.requested, .insert 0 5000 (Sample.clockAt 5000), ()⟩, ⟨Sample.pending, Sample.reply, ()⟩,
      ⟨Sample.filled, .wake 0 (Sample.clockAt 5010), ()⟩] := rfl
  have hrequested : ∀ d, d ≠ 0 → Sample.requested.calls d = .idle := by
    intro d hd
    exact Function.update_of_ne hd _ _
  have hpending : ∀ d, d ≠ 0 → Sample.pending.calls d = .idle := by
    intro d hd
    exact (Function.update_of_ne hd _ _).trans (hrequested d hd)
  have hinsert : NoLoss ⟨Sample.requested, .insert 0 5000 (Sample.clockAt 5000), ()⟩ := by
    intro ip interface hphase
    obtain ⟨rfl, rfl⟩ := Phase.sent.inj hphase
    refine ⟨fun d interface startTs repeated hd hwaiting => ?_, fun mac _ => by decide +kernel⟩
    exact absurd ((hrequested d hd).symm.trans hwaiting) (by simp)
  have hwake : NoLoss ⟨Sample.filled, .wake 0 (Sample.clockAt 5010), ()⟩ := by
    intro ip interface startTs repeated hphase
    obtain ⟨rfl, rfl, rfl, rfl⟩ := Phase.waiting.inj hphase
    refine ⟨fun d interface startTs repeated hd hwaiting => ?_, fun mac _ => by decide +kernel⟩
    exact absurd ((hpending d hd).symm.trans hwaiting) (by simp)
  have hreply : NoLoss ⟨Sample.pending, Sample.reply, ()⟩ := by
    intro c interface hphase
    by_cases hc : c = 0
    · subst hc
      cases hphase
    · exact absurd ((hpending c hc).symm.trans hphase) (by simp)
  have ok : ∀ m ∈ Sample.singleRun.1, NoLoss m := by
    rw [hmoves]
    simp only [List.forall_mem_cons]
    exact ⟨trivial, hinsert, hreply, hwake, by simp⟩
  have hanswer : answer Sample.singleRun.1 0 = some Sample.mac := by decide +kernel
  exact ⟨hanswer, getMac_returns_reply Sample.resolver _ _
    (exec_get_run (step Sample.resolver) .init Sample.single rfl) ok 0 Sample.mac hanswer⟩

/-- A call can lose its reply in three ways: the reply comes before the entry, another call for the
same address takes the entry away, or the thread is woken too late. -/
theorem getMac_loses_reply :
    (∃ tr t, Run (step Sample.resolver) .init tr t ∧ tr.map (·.event) = Sample.early ∧
      answer tr 0 = some Sample.mac ∧ t.calls 0 = .returned 0 none) ∧
    (∃ tr t, Run (step Sample.resolver) .init tr t ∧ tr.map (·.event) = Sample.shared ∧
      answer tr 1 = some Sample.mac ∧ t.calls 1 = .returned 0 none) ∧
    ∃ tr t, Run (step Sample.resolver) .init tr t ∧ tr.map (·.event) = Sample.late ∧
      answer tr 0 = some Sample.mac ∧ t.calls 0 = .returned 0 none := by
  refine ⟨⟨_, _, exec_get_run (step Sample.resolver) .init Sample.early rfl, rfl, ?_, ?_⟩,
    ⟨_, _, exec_get_run (step Sample.resolver) .init Sample.shared rfl, rfl, ?_, ?_⟩,
    ⟨_, _, exec_get_run (step Sample.resolver) .init Sample.late rfl, rfl, ?_, ?_⟩⟩
  all_goals decide +kernel

end MyIp.Arp.MacResolver
