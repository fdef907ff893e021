import MyIp.Foundations.Run
import MyIp.Net.AnyAddr

/-! # The address cache

`address_cache.cpp`: `cache` from IP addresses to MAC addresses and devices, `mac_cache` from MAC
addresses to devices. The two tables are shared by all instances, each with a cleaner thread of its
own; a pass of a cleaner is one event here, with the time that it read before it got the lock. -/

namespace MyIp.Arp
set_option autoImplicit false

open EventMachine

/-- `address_entry_t`; a time of 0 marks a static entry. -/
structure AddressEntry where
  ts : BitVec 64
  addr : AnyAddr
  interface : ℕ
  deriving DecidableEq

structure AddressCache where
  cache : AnyAddr → Option AddressEntry
  macCache : AnyAddr → Option ℕ

namespace AddressCache

def empty : AddressCache := ⟨fun _ => none, fun _ => none⟩

/-- The entry of `ip` may be written: there is none, or it is not a static one. -/
def writable (s : AddressCache) (ip : AnyAddr) : Bool := (s.cache ip).all fun e => e.ts ≠ 0#64

/-- `update_cache`, where `get_us` returns `now`. -/
def updateCache (s : AddressCache) (mac ip : AnyAddr) (interface : ℕ) (staticEntry : Bool)
    (now : BitVec 64) : AddressCache where
  cache :=
    if s.writable ip then
      Function.update s.cache ip (some ⟨if staticEntry then 0#64 else now, mac, interface⟩)
    else s.cache
  macCache :=
    if s.macCache mac = none then Function.update s.macCache mac (some interface) else s.macCache

/-- `query_cache` -/
def queryCache (s : AddressCache) (ip : AnyAddr) (staticEntry : Bool) : Option (ℕ × AnyAddr) :=
  match s.cache ip with
  | none => none
  | some e => if staticEntry && e.ts ≠ 0#64 then none else some (e.interface, e.addr)

/-- `query_mac_cache`, and `get_phys_by_mac` of the resolvers. -/
def queryMacCache (s : AddressCache) (mac : AnyAddr) : Option ℕ := s.macCache mac

/-- The age at which the cleaner forgets an entry, in microseconds. -/
def hour : ℕ := 3600000000

/-- Whether a pass of the cleaner forgets an entry; the age is an unsigned difference. -/
def forgets (now : BitVec 64) (e : AddressEntry) : Bool :=
  e.ts ≠ 0#64 && hour ≤ (now - e.ts).toNat

/-- A pass of `cache_cleaner`. -/
def cacheCleaner (s : AddressCache) (now : BitVec 64) : AddressCache where
  cache := fun ip => (s.cache ip).filter fun e => !forgets now e
  macCache := s.macCache

theorem updateCache_cache (s : AddressCache) (mac ip : AnyAddr) (interface : ℕ) (staticEntry : Bool)
    (now : BitVec 64) (ip' : AnyAddr) :
    (s.updateCache mac ip interface staticEntry now).cache ip' =
      if s.writable ip = true ∧ ip' = ip then
        some ⟨if staticEntry then 0#64 else now, mac, interface⟩
      else s.cache ip' := by
  by_cases hwritable : s.writable ip = true
  · simp [updateCache, hwritable, Function.update_apply]
  · simp [updateCache, hwritable]

theorem updateCache_macCache (s : AddressCache) (mac ip : AnyAddr) (interface : ℕ)
    (staticEntry : Bool) (now : BitVec 64) (mac' : AnyAddr) :
    (s.updateCache mac ip interface staticEntry now).macCache mac' =
      if s.macCache mac = none ∧ mac' = mac then some interface else s.macCache mac' := by
  by_cases hnone : s.macCache mac = none
  · simp [updateCache, hnone, Function.update_apply]
  · simp [updateCache, hnone]

end AddressCache

inductive Event
  | updateCache (mac ip : AnyAddr) (interface : ℕ) (staticEntry : Bool) (now : BitVec 64)
  | queryCache (ip : AnyAddr) (staticEntry : Bool)
  | queryMacCache (mac : AnyAddr)
  | cacheCleaner (now : BitVec 64)

inductive Answer
  | done
  | neighbour (found : Option (ℕ × AnyAddr))
  | device (found : Option ℕ)

/-- One call, or one pass of a cleaner. Addresses of the wrong kind fail an assertion. -/
def step (s : AddressCache) : Event → Option (AddressCache × Answer)
  | .updateCache mac ip interface staticEntry now =>
    if (mac.af = .mac ∨ mac.af = .ax25) ∧ (ip.af = .ipv4 ∨ ip.af = .ipv6) then
      some (s.updateCache mac ip interface staticEntry now, .done)
    else none
  | .queryCache ip staticEntry => some (s, .neighbour (s.queryCache ip staticEntry))
  | .queryMacCache mac => some (s, .device (s.queryMacCache mac))
  | .cacheCleaner now => some (s.cacheCleaner now, .done)

theorem step_cases {s t : AddressCache} {e : Event} {o : Answer} (h : step s e = some (t, o)) :
    (∃ mac ip interface staticEntry now, e = .updateCache mac ip interface staticEntry now ∧
      t = s.updateCache mac ip interface staticEntry now) ∨
    (∃ now, e = .cacheCleaner now ∧ t = s.cacheCleaner now) ∨
    ((∃ ip staticEntry, e = .queryCache ip staticEntry) ∨ ∃ mac, e = .queryMacCache mac) ∧ t = s := by
  cases e with
  | updateCache mac ip interface staticEntry now =>
    simp only [step, Option.ite_none_right_eq_some, Option.some.injEq, Prod.mk.injEq] at h
    exact .inl ⟨mac, ip, interface, staticEntry, now, rfl, h.2.1.symm⟩
  | queryCache ip staticEntry =>
    simp only [step, Option.some.injEq, Prod.mk.injEq] at h
    exact .inr (.inr ⟨.inl ⟨ip, staticEntry, rfl⟩, h.1.symm⟩)
  | queryMacCache mac =>
    simp only [step, Option.some.injEq, Prod.mk.injEq] at h
    exact .inr (.inr ⟨.inr ⟨mac, rfl⟩, h.1.symm⟩)
  | cacheCleaner now =>
    simp only [step, Option.some.injEq, Prod.mk.injEq] at h
    exact .inr (.inl ⟨now, rfl, h.1.symm⟩)

/-! ## Static entries -/

/-- Neither an update nor a pass of the cleaner touches a static entry. -/
theorem step_static {s t : AddressCache} {e : Event} {o : Answer} {ip : AnyAddr}
    {entry : AddressEntry} (hentry : s.cache ip = some entry) (hts : entry.ts = 0#64)
    (h : step s e = some (t, o)) : t.cache ip = some entry := by
  obtain ⟨mac, ip', interface, staticEntry, now, -, rfl⟩ | ⟨now, -, rfl⟩ | ⟨-, rfl⟩ := step_cases h
  · rw [AddressCache.updateCache_cache, if_neg, hentry]
    rintro ⟨hwritable, rfl⟩
    simp [AddressCache.writable, hentry, hts] at hwritable
  · simp [AddressCache.cacheCleaner, AddressCache.forgets, hentry, hts]
  · exact hentry

theorem queryCache_static {s : AddressCache} {ip : AnyAddr} {entry : AddressEntry}
    (hentry : s.cache ip = some entry) (hts : entry.ts = 0#64) (staticEntry : Bool) :
    s.queryCache ip staticEntry = some (entry.interface, entry.addr) := by
  rw [AddressCache.queryCache, hentry]
  simp [hts]

/-! ## Dynamic entries -/

/-- What is known of a neighbour; a static entry has no time of its last update. -/
structure Known where
  mac : AnyAddr
  interface : ℕ
  updated : Option (BitVec 64)

def Known.isStatic (k : Known) : Bool := k.updated.isNone

def Known.outdated (now : BitVec 64) (k : Known) : Bool :=
  k.updated.any fun t => t.toNat + AddressCache.hour ≤ now.toNat

/-- What the cache is for: the last that was heard of each address, unless it is fixed, until it is
an hour old. -/
def idealStep (known : AnyAddr → Option Known) : Event → AnyAddr → Option Known
  | .updateCache mac ip interface staticEntry now =>
    if (known ip).any Known.isStatic then known
    else Function.update known ip
      (some ⟨mac, interface, if staticEntry then none else some now⟩)
  | .cacheCleaner now => fun ip => (known ip).filter fun k => !k.outdated now
  | .queryCache _ _ => known
  | .queryMacCache _ => known

def ideal (events : List Event) : AnyAddr → Option Known := events.foldl idealStep fun _ => none

/-- The times of an event are in order: the clock is past 0, and a pass of a cleaner does not work
with a time from before the last update of an entry. -/
def Timely (m : Move AddressCache Event Answer) : Prop :=
  match m.event with
  | .updateCache _ _ _ staticEntry now => staticEntry = true ∨ now ≠ 0#64
  | .cacheCleaner now => ∀ ip e, m.before.cache ip = some e → e.ts.toNat ≤ now.toNat
  | _ => True

def AddressEntry.known (e : AddressEntry) : Known :=
  ⟨e.addr, e.interface, if e.ts = 0#64 then none else some e.ts⟩

theorem known_isStatic (e : AddressEntry) : e.known.isStatic = !decide (e.ts ≠ 0#64) := by
  by_cases hts : e.ts = 0#64 <;> simp [AddressEntry.known, Known.isStatic, hts]

/-- Without a wrap the cleaner forgets what is outdated. -/
theorem forgets_eq_outdated {now : BitVec 64} {e : AddressEntry} (h : e.ts.toNat ≤ now.toNat) :
    AddressCache.forgets now e = e.known.outdated now := by
  by_cases hts : e.ts = 0#64
  · simp [AddressCache.forgets, AddressEntry.known, Known.outdated, hts]
  · have hage : (now - e.ts).toNat = now.toNat - e.ts.toNat := by
      have hnow := now.isLt
      rw [BitVec.toNat_sub]
      omega
    rw [AddressCache.forgets, AddressEntry.known, Known.outdated, if_neg hts, Option.any_some, hage,
      decide_eq_true hts, Bool.true_and, decide_eq_decide]
    omega

theorem step_ideal {s t : AddressCache} {e : Event} {o : Answer} {known : AnyAddr → Option Known}
    (h : ∀ ip, known ip = (s.cache ip).map AddressEntry.known) (timely : Timely ⟨s, e, o⟩)
    (made : step s e = some (t, o)) (ip : AnyAddr) :
    idealStep known e ip = (t.cache ip).map AddressEntry.known := by
  obtain ⟨mac, ip', interface, staticEntry, now, rfl, rfl⟩ | ⟨now, rfl, rfl⟩ | ⟨hquery, rfl⟩ :=
    step_cases made
  · have hstatic : (known ip').any Known.isStatic = !s.writable ip' := by
      rw [h, AddressCache.writable]
      cases s.cache ip' with
      | none => rfl
      | some e => exact known_isStatic e
    have hknown : AddressEntry.known ⟨if staticEntry then 0#64 else now, mac, interface⟩ =
        ⟨mac, interface, if staticEntry then none else some now⟩ := by
      rcases timely with rfl | hnow
      · rfl
      · cases staticEntry with
        | true => rfl
        | false => exact congrArg (Known.mk mac interface) (if_neg hnow)
    rw [idealStep, hstatic, AddressCache.updateCache_cache]
    by_cases hwritable : s.writable ip' = true
    · by_cases hip : ip = ip'
      · simp [hwritable, hip, hknown]
      · simp [hwritable, hip, h]
    · simp [hwritable, h]
  · change (known ip).filter _ = ((s.cache ip).filter _).map _
    rw [h]
    cases hentry : s.cache ip with
    | none => rfl
    | some e =>
      have hforgets := forgets_eq_outdated (timely ip e hentry)
      cases hold : e.known.outdated now <;> simp [Option.filter, hforgets, hold]
  · obtain ⟨ip', staticEntry, rfl⟩ | ⟨mac, rfl⟩ := hquery
    · exact h ip
    · exact h ip

theorem run_ideal {tr : List (Move AddressCache Event Answer)} {t : AddressCache}
    (run : Run step .empty tr t) (timely : ∀ m ∈ tr, Timely m) (ip : AnyAddr) :
    ideal (tr.map (·.event)) ip = (t.cache ip).map AddressEntry.known := by
  refine Run.history_invariant Timely
    (fun tr s => ∀ ip, ideal (tr.map (·.event)) ip = (s.cache ip).map AddressEntry.known)
    (fun _ => rfl) (fun tr a e b o hinv hok made ip => ?_) run timely ip
  rw [List.map_append, ideal, List.foldl_append]
  exact step_ideal hinv hok made ip

/-- What a query returns after a run: the static entry that was there at any earlier time, and, if
all times are in order, the last that was heard of the address until it is an hour old. -/
theorem queryCache_after_run (pre post : List (Move AddressCache Event Answer))
    (s t : AddressCache) (run : Run step .empty pre s) (run' : Run step s post t) :
    (∀ ip entry, s.cache ip = some entry → entry.ts = 0#64 → ∀ staticEntry,
      t.queryCache ip staticEntry = some (entry.interface, entry.addr)) ∧
    ((∀ m ∈ pre ++ post, Timely m) → ∀ ip, t.queryCache ip false =
      (ideal ((pre ++ post).map (·.event)) ip).map fun k => (k.interface, k.mac)) := by
  constructor
  · intro ip entry hentry hts staticEntry
    have hkept : t.cache ip = some entry := Run.invariant (fun u => u.cache ip = some entry) hentry
      (fun a e b o ha made => step_static ha hts made) run'
    exact queryCache_static hkept hts staticEntry
  · intro timely ip
    rw [run_ideal (run.trans run') timely ip, AddressCache.queryCache]
    cases t.cache ip <;> rfl

namespace Sample

def mac : AnyAddr := ⟨.mac, [2, 0, 0, 0, 5, 1], rfl⟩

def ip : AnyAddr := .ipv4 10 0 0 7

/-- A station is heard, asked for, and looked at by a cleaner a second later. -/
def heard : List Event :=
  [.updateCache mac ip 0 false 1000000, .queryCache ip false, .cacheCleaner 2000000]

def heardRun : List (Move AddressCache Event Answer) × AddressCache :=
  (exec step .empty heard).get rfl

def known : AddressCache := AddressCache.empty.updateCache mac ip 0 false 1000000

/-- The cleaner reads the time, then the station is heard, then the cleaner gets the lock. -/
def overtaken : List Event := [.updateCache mac ip 0 false 1000001, .cacheCleaner 1000000]

/-- The station is heard on another device. -/
def moved : List Event := [.updateCache mac ip 0 false 1000000, .updateCache mac ip 1 false 2000000]

end Sample

theorem queryCache_after_run_heard :
    Sample.heardRun.2.queryCache Sample.ip false = some (0, Sample.mac) := by
  have hmoves : Sample.heardRun.1 ++ [] =
      [⟨.empty, .updateCache Sample.mac Sample.ip 0 false 1000000, .done⟩,
        ⟨Sample.known, .queryCache Sample.ip false, .neighbour (some (0, Sample.mac))⟩,
        ⟨Sample.known, .cacheCleaner 2000000, .done⟩] := rfl
  have hclean : Timely ⟨Sample.known, .cacheCleaner 2000000, .done⟩ := by
    intro ip e he
    rw [Sample.known, AddressCache.updateCache_cache] at he
    by_cases hip : AddressCache.empty.writable Sample.ip = true ∧ ip = Sample.ip
    · rw [if_pos hip] at he
      obtain rfl := Option.some.inj he
      decide
    · rw [if_neg hip] at he
      cases he
  have timely : ∀ m ∈ Sample.heardRun.1 ++ [], Timely m := by
    rw [hmoves]
    simp only [List.forall_mem_cons]
    exact ⟨.inr (by decide), trivial, hclean, by simp⟩
  exact (queryCache_after_run _ [] _ _ (exec_get_run step .empty Sample.heard rfl) .nil).2 timely
    Sample.ip

/-- A cleaner that was overtaken by an update forgets a station that was heard a microsecond ago. -/
theorem overtaken_cleaner_forgets :
    ∃ tr t, Run step .empty tr t ∧ tr.map (·.event) = Sample.overtaken ∧
      t.queryCache Sample.ip false = none ∧
      (ideal Sample.overtaken Sample.ip).map (fun k => (k.interface, k.mac)) =
        some (0, Sample.mac) :=
  ⟨_, _, exec_get_run step .empty Sample.overtaken rfl, rfl, by decide +kernel, by decide +kernel⟩

/-! ## The two tables -/

/-- The MAC address and device that a move wrote into `cache`. -/
def stored (m : Move AddressCache Event Answer) : Option (AnyAddr × ℕ) :=
  match m.event with
  | .updateCache mac ip interface _ _ =>
    if m.before.writable ip then some (mac, interface) else none
  | _ => none

/-- The device of the most recent entry for a MAC address. -/
def latest (tr : List (Move AddressCache Event Answer)) (mac : AnyAddr) : Option ℕ :=
  ((tr.filterMap stored).filter (·.1 = mac)).getLast?.map (·.2)

/-- For every neighbour that `cache` knows, `mac_cache` has the device of the most recent entry for
its MAC address, and it is the same device. -/
def Agree (tr : List (Move AddressCache Event Answer)) (s : AddressCache) : Prop :=
  ∀ ip interface mac, s.queryCache ip false = some (interface, mac) →
    s.queryMacCache mac = latest tr mac ∧ s.queryMacCache mac = some interface

/-- An entry that is written names the device with which its MAC address was first seen. -/
def SameDevice (m : Move AddressCache Event Answer) : Prop :=
  ∀ mac interface, stored m = some (mac, interface) →
    m.before.macCache mac = none ∨ m.before.macCache mac = some interface

theorem queryCache_eq_some {s : AddressCache} {ip mac : AnyAddr} {interface : ℕ} :
    s.queryCache ip false = some (interface, mac) ↔
      ∃ e, s.cache ip = some e ∧ e.interface = interface ∧ e.addr = mac := by
  rw [AddressCache.queryCache]
  cases s.cache ip with
  | none => simp
  | some e => simp

theorem latest_snoc_stored {tr : List (Move AddressCache Event Answer)}
    {m : Move AddressCache Event Answer} {mac : AnyAddr} {interface : ℕ}
    (h : stored m = some (mac, interface)) (mac' : AnyAddr) :
    latest (tr ++ [m]) mac' = if mac = mac' then some interface else latest tr mac' := by
  rw [latest, List.filterMap_append, List.filter_append, List.filterMap_cons_some h,
    List.filterMap_nil]
  by_cases hmac : mac = mac' <;> simp [hmac, latest]

theorem latest_snoc_none {tr : List (Move AddressCache Event Answer)}
    {m : Move AddressCache Event Answer} (h : stored m = none) (mac : AnyAddr) :
    latest (tr ++ [m]) mac = latest tr mac := by
  rw [latest, List.filterMap_append, List.filterMap_cons_none h, List.filterMap_nil,
    List.append_nil, latest]

/-- The entries of `cache` in terms of `mac_cache` and of the history. -/
def Mirrored (tr : List (Move AddressCache Event Answer)) (s : AddressCache) : Prop :=
  ∀ ip e, s.cache ip = some e →
    s.macCache e.addr = some e.interface ∧ latest tr e.addr = some e.interface

theorem step_mirrored {tr : List (Move AddressCache Event Answer)} {s t : AddressCache} {e : Event}
    {o : Answer} (h : Mirrored tr s) (ok : SameDevice ⟨s, e, o⟩) (made : step s e = some (t, o)) :
    Mirrored (tr ++ [⟨s, e, o⟩]) t := by
  obtain ⟨mac, ip, interface, staticEntry, now, rfl, rfl⟩ | ⟨now, rfl, rfl⟩ | ⟨hquery, rfl⟩ :=
    step_cases made
  · intro ip' entry hentry
    rw [AddressCache.updateCache_cache] at hentry
    rw [AddressCache.updateCache_macCache]
    by_cases hwritable : s.writable ip = true
    · have hstored : stored ⟨s, .updateCache mac ip interface staticEntry now, o⟩ =
          some (mac, interface) := if_pos hwritable
      rw [latest_snoc_stored hstored]
      have hdevice : s.macCache mac = none ∨ s.macCache mac = some interface :=
        ok mac interface hstored
      by_cases hnew : s.writable ip = true ∧ ip' = ip
      · rw [if_pos hnew] at hentry
        obtain rfl := Option.some.inj hentry
        rcases hdevice with hnone | hsome
        · simp [hnone]
        · simp [hsome]
      · rw [if_neg hnew] at hentry
        obtain ⟨hmac, hlatest⟩ := h ip' entry hentry
        by_cases haddr : mac = entry.addr
        · -- the same station under another address
          subst haddr
          rcases hdevice with hnone | hsome
          · rw [hnone] at hmac
            cases hmac
          · rw [hmac] at hsome
            simp [hmac, hsome]
        · simp [haddr, Ne.symm haddr, hmac, hlatest]
    · have hstored : stored ⟨s, .updateCache mac ip interface staticEntry now, o⟩ = none :=
        if_neg hwritable
      rw [if_neg fun hnew => hwritable hnew.1] at hentry
      obtain ⟨hmac, hlatest⟩ := h ip' entry hentry
      rw [latest_snoc_none hstored]
      refine ⟨?_, hlatest⟩
      rw [if_neg, hmac]
      rintro ⟨hnone, rfl⟩
      rw [hnone] at hmac
      cases hmac
  · intro ip entry hentry
    rw [latest_snoc_none rfl]
    exact h ip entry (Option.filter_eq_some_iff.mp hentry).1
  · intro ip entry hentry
    have hstored : stored ⟨t, e, o⟩ = none := by
      obtain ⟨ip', staticEntry, rfl⟩ | ⟨mac, rfl⟩ := hquery <;> rfl
    rw [latest_snoc_none hstored]
    exact h ip entry hentry

/-- An entry on another device than the one its MAC address was first seen with sets the tables
apart at once. -/
theorem Agree.sameDevice {tr : List (Move AddressCache Event Answer)} {s t : AddressCache}
    {e : Event} {o : Answer} (made : step s e = some (t, o)) (h : Agree (tr ++ [⟨s, e, o⟩]) t) :
    SameDevice ⟨s, e, o⟩ := by
  intro mac interface hstored
  obtain ⟨mac', ip, interface', staticEntry, now, rfl, rfl⟩ | ⟨now, rfl, rfl⟩ | ⟨hquery, rfl⟩ :=
    step_cases made
  · simp only [stored, Option.ite_none_right_eq_some, Option.some.injEq, Prod.mk.injEq] at hstored
    obtain ⟨hwritable, rfl, rfl⟩ := hstored
    have hentry : (s.updateCache mac' ip interface' staticEntry now).queryCache ip false =
        some (interface', mac') := queryCache_eq_some.mpr
      ⟨_, by rw [AddressCache.updateCache_cache, if_pos ⟨hwritable, rfl⟩], rfl, rfl⟩
    have hdevice := (h ip interface' mac' hentry).2
    rw [AddressCache.queryMacCache, AddressCache.updateCache_macCache] at hdevice
    split_ifs at hdevice with hnone
    · exact .inl hnone.1
    · exact .inr hdevice
  · cases hstored
  · obtain ⟨ip', staticEntry, rfl⟩ | ⟨mac', rfl⟩ := hquery <;> cases hstored

/-- The tables agree all through a run exactly if each entry that is written names the device with
which its MAC address was first seen. -/
theorem agree_iff_sameDevice (tr : List (Move AddressCache Event Answer)) (t : AddressCache)
    (run : Run step .empty tr t) :
    (∀ pre post s, tr = pre ++ post → Run step .empty pre s → Agree pre s) ↔
      ∀ m ∈ tr, SameDevice m := by
  constructor
  · intro h m hm
    obtain ⟨pre, post, u, htr, hpre, hmade⟩ := run.move_origin m hm
    exact Agree.sameDevice hmade
      (h (pre ++ [m]) post u (by rw [htr]; simp) (hpre.snoc hmade))
  · rintro h pre post s rfl hpre ip interface mac hquery
    have hmirrored : Mirrored pre s := Run.history_invariant SameDevice Mirrored
      (fun ip e he => by cases he) (fun tr a e b o hinv hok made => step_mirrored hinv hok made)
      hpre fun m hm => h m (List.mem_append_left _ hm)
    obtain ⟨e, he, rfl, rfl⟩ := queryCache_eq_some.mp hquery
    obtain ⟨hmac, hlatest⟩ := hmirrored ip e he
    exact ⟨hmac.trans hlatest.symm, hmac⟩

theorem agree_iff_sameDevice_heard :
    (∀ pre post s, Sample.heardRun.1 = pre ++ post → Run step .empty pre s → Agree pre s) ↔
      ∀ m ∈ Sample.heardRun.1, SameDevice m :=
  agree_iff_sameDevice _ _ (exec_get_run step .empty Sample.heard rfl)

/-- After a station moved, `mac_cache` still names the old device. -/
theorem moved_not_agree :
    ∃ tr t, Run step .empty tr t ∧ tr.map (·.event) = Sample.moved ∧ ¬Agree tr t := by
  refine ⟨_, _, exec_get_run step .empty Sample.moved rfl, rfl, fun h => ?_⟩
  have hdevice := (h Sample.ip 1 Sample.mac (by decide +kernel)).2
  revert hdevice
  decide +kernel

end MyIp.Arp
