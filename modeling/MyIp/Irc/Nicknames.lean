import MyIp.Foundations.Naming
import MyIp.Foundations.Run
import MyIp.Net.Str

/-! # Nicknames

`irc.cpp`: every session has a thread that handles its lines one by one (`process_line`) and takes
its nickname out of the shared map at its end. What a thread does with `nicknames_lock` held is one
event; only the renaming of a user has two, as the lock is given up before the others are told and
the session learns its new name after that. Of the transmissions only counts whether they succeed. -/

namespace MyIp.Irc
set_option autoImplicit false

open CText Net EventMachine

/-- `person` -/
structure Person where
  realName : Text
  channels : Finset Text
  tcpSession : ℕ
  deriving DecidableEq

/-- Where the thread of a session is. -/
inductive Phase
  | absent
  /-- Between two lines. -/
  | idle
  /-- In a `NICK`, with the map changed and the others being told. -/
  | announcing (newNick : Text)
  /-- Out of the loop. -/
  | leaving
  | ended
  deriving DecidableEq

/-- `irc_session_data` and the variables of `irc_thread`. -/
structure Session where
  nick : Text
  username : Text
  seenNick : Bool
  seenUser : Bool
  phase : Phase

structure State where
  nicknames : Text → Option Person
  topicnames : Text → Option Text
  sessions : ℕ → Session

def State.init : State := ⟨fun _ => none, fun _ => none, fun _ => ⟨[], [], false, false, .absent⟩⟩

/-- What `process_line` returns: a line that is not handled to its end ends the thread. -/
def State.finish (s : State) (c : ℕ) (ok : Bool) : State :=
  if ok then s
  else { s with sessions := Function.update s.sessions c { s.sessions c with phase := .leaving } }

def newNick (parts : List Text) : Option Text :=
  match parts with
  | command :: nick :: _ => if command = "NICK".toList then some (strTolower nick) else none
  | _ => none

/-- `NICK`, up to where the others are told. -/
def nickLine (s : State) (c : ℕ) (newNick : Text) (sent : Bool) : State :=
  let isd := s.sessions c
  if s.nicknames newNick = none then
    match s.nicknames isd.nick with
    | some person =>
      { s with
        nicknames := Function.update (Function.update s.nicknames isd.nick none) newNick (some person)
        sessions := Function.update s.sessions c { isd with phase := .announcing newNick } }
    | none =>
      { s with
        nicknames := Function.update s.nicknames newNick (some ⟨[], ∅, c⟩)
        sessions := Function.update s.sessions c { isd with nick := newNick, seenNick := true } }
  else s.finish c sent

def afterColon (line : Text) : Text := (line.dropWhile (· ≠ ':')).drop 1

def userLine (s : State) (c : ℕ) (line username : Text) (sent : Bool) : State :=
  let isd := s.sessions c
  match s.nicknames isd.nick with
  | none => s.finish c sent
  | some person =>
    State.finish
      { s with
        nicknames := Function.update s.nicknames isd.nick
          (some { person with realName := afterColon line })
        sessions := Function.update s.sessions c { isd with username := username, seenUser := true } }
      c sent

/-- The change that `JOIN` and `PART` make to the channels of the session, for each channel of the
line; there is no next state if the entry is not there, as the iterator is used all the same. -/
def editChannels (s : State) (c : ℕ) (channels : List Text)
    (edit : Finset Text → Text → Finset Text) : Option State :=
  if channels = [] then some s
  else (s.nicknames (s.sessions c).nick).map fun person =>
    let channels := channels.foldl (fun cs channel => edit cs (strTolower channel)) person.channels
    { s with
      nicknames := Function.update s.nicknames (s.sessions c).nick
        (some { person with channels := channels }) }

/-- `process_line`; `sent` says whether what it transmits to its own client gets through. -/
def processLine (s : State) (c : ℕ) (line : Text) (sent : Bool) : Option State :=
  let parts := split line ' '
  let command := parts.getD 0 []
  let argument := parts.getD 1 []
  let isd := s.sessions c
  match newNick parts with
  | some newNick => some (nickLine s c newNick sent)
  | none =>
    if command = "USER".toList ∧ 5 ≤ parts.length then some (userLine s c line argument sent)
    else if isd.seenUser = false ∨ isd.seenNick = false then some s
    else if command = "JOIN".toList ∧ 2 ≤ parts.length then
      let channels := split argument ','
      (editChannels s c channels fun cs channel => insert channel cs).map
        (·.finish c (channels.isEmpty || sent))
    else if command = "PART".toList ∧ 2 ≤ parts.length then
      editChannels s c (split argument ',') Finset.erase
    else if command = "PRIVMSG".toList ∨ command = "NOTICE".toList then some s
    else if command = "PING".toList then some (s.finish c sent)
    else if command = "TOPIC".toList ∧ 3 ≤ parts.length then
      some (State.finish
        { s with topicnames := Function.update s.topicnames argument (some (afterColon line)) } c sent)
    else if command = "LIST".toList then some (s.finish c sent)
    else if command = "QUIT".toList then some (s.finish c false)
    else some s

inductive Event
  | connect (c : ℕ)
  | line (c : ℕ) (line : Text) (sent : Bool)
  /-- The others were told of a new name, or the transmission to one of them failed. -/
  | announced (c : ℕ) (sent : Bool)
  /-- The client is gone, or silent for too long. -/
  | disconnect (c : ℕ)
  /-- The end of `irc_thread`. -/
  | exit (c : ℕ)

def step (s : State) : Event → Option (State × Unit)
  | .connect c =>
    if (s.sessions c).phase = .absent then
      some ({ s with sessions := Function.update s.sessions c ⟨[], [], false, false, .idle⟩ }, ())
    else none
  | .line c line sent =>
    if (s.sessions c).phase = .idle then (processLine s c line sent).map (·, ()) else none
  | .announced c sent =>
    match (s.sessions c).phase with
    | .announcing newNick =>
      if sent then
        some ({ s with
          sessions := Function.update s.sessions c
            { s.sessions c with nick := newNick, seenNick := true, phase := .idle } }, ())
      else some (s.finish c false, ())
    | _ => none
  | .disconnect c => if (s.sessions c).phase = .idle then some (s.finish c false, ()) else none
  | .exit c =>
    if (s.sessions c).phase = .leaving then
      some ({ s with
        nicknames := Function.update s.nicknames (s.sessions c).nick none
        sessions := Function.update s.sessions c { s.sessions c with phase := .ended } }, ())
    else none

/-! ## Who owns a nickname -/

def Session.live (x : Session) : Prop := x.phase ≠ .absent ∧ x.phase ≠ .ended

instance (x : Session) : Decidable x.live := inferInstanceAs (Decidable (_ ∧ _))

/-- The nickname of a session; while the others are told of a new one, it is that. -/
def Session.current (x : Session) : Text :=
  match x.phase with
  | .announcing newNick => newNick
  | _ => x.nick

/-- Whose entry a nickname is. -/
def State.owner (s : State) (n : Text) : Option ℕ := (s.nicknames n).map Person.tcpSession

/-- Every live session with a nickname owns its entry, no session owns two, and no entry is left
behind by a thread that has ended. -/
structure Owned (s : State) : Prop where
  owns : ∀ c, (s.sessions c).live → (s.sessions c).seenNick = true →
    s.owner (s.sessions c).current = some c
  single : ∀ n n' c, s.owner n = some c → s.owner n' = some c → n = n'
  live : ∀ n c, s.owner n = some c → (s.sessions c).live

/-- A session that has no nickname yet takes no entry away, and a renaming is told to all. -/
def Regular (m : Move State Event Unit) : Prop :=
  match m.event with
  | .line c line _ => ∀ newNick, Irc.newNick (split line ' ') = some newNick →
      m.before.nicknames newNick = none → (m.before.sessions c).seenNick = false →
      m.before.nicknames (m.before.sessions c).nick = none
  | .exit c => (m.before.sessions c).seenNick = false →
      m.before.nicknames (m.before.sessions c).nick = none
  | .announced _ sent => sent = true
  | _ => True

/-! ## What a step does to the names -/

/-- The nickname of a session that is live and has one. -/
def Session.goesBy (x : Session) : Option Text :=
  if x.live ∧ x.seenNick = true then some x.current else none

structure Inv (s : State) : Prop where
  consistent : Naming.Consistent s.owner fun c => (s.sessions c).goesBy
  announcing : ∀ c n, (s.sessions c).phase = .announcing n →
    (s.sessions c).seenNick = true ∧ (s.sessions c).nick ≠ n

theorem goesBy_eq_some {x : Session} {n : Text} :
    x.goesBy = some n ↔ x.live ∧ x.seenNick = true ∧ x.current = n := by
  rw [Session.goesBy]
  split_ifs with h
  · simp [h.1, h.2]
  · simp only [false_iff]
    exact fun h' => h ⟨h'.1, h'.2.1⟩

theorem goesBy_update (sessions : ℕ → Session) (c : ℕ) (x : Session) :
    (fun d => (Function.update sessions c x d).goesBy) =
      Function.update (fun d => (sessions d).goesBy) c x.goesBy :=
  Function.comp_update Session.goesBy sessions c x

theorem owner_update (nicknames : Text → Option Person) (n : Text) (p : Option Person) :
    (fun m => (Function.update nicknames n p m).map Person.tcpSession) =
      Function.update (fun m => (nicknames m).map Person.tcpSession) n (p.map Person.tcpSession) :=
  Function.comp_update (Option.map Person.tcpSession) nicknames n p

theorem Inv.owned {s : State} (h : Inv s) : Owned s where
  owns c hlive hseen := (h.consistent _ c).mpr (goesBy_eq_some.mpr ⟨hlive, hseen, rfl⟩)
  single n n' c hn hn' :=
    Option.some.inj (((h.consistent n c).mp hn).symm.trans ((h.consistent n' c).mp hn'))
  live n c hn := (goesBy_eq_some.mp ((h.consistent n c).mp hn)).1

theorem Inv.update {s t : State} (h : Inv s) {c : ℕ} {x : Session}
    (hsessions : t.sessions = Function.update s.sessions c x)
    (hconsistent : Naming.Consistent t.owner
      (Function.update (fun d => (s.sessions d).goesBy) c x.goesBy))
    (hx : ∀ n, x.phase = .announcing n → x.seenNick = true ∧ x.nick ≠ n) : Inv t := by
  constructor
  · rwa [hsessions, goesBy_update]
  · intro d n hd
    rw [hsessions] at hd ⊢
    by_cases hdc : d = c
    · subst hdc
      rw [Function.update_self] at hd ⊢
      exact hx n hd
    · rw [Function.update_of_ne hdc] at hd ⊢
      exact h.announcing d n hd

/-- A step that leaves the owners and the name of the one session it changes. -/
theorem Inv.frame {s t : State} (h : Inv s) {c : ℕ} {x : Session} (howner : t.owner = s.owner)
    (hsessions : t.sessions = Function.update s.sessions c x)
    (hname : x.goesBy = (s.sessions c).goesBy) (hphase : ∀ n, x.phase ≠ .announcing n) : Inv t := by
  refine h.update hsessions ?_ fun n hn => absurd hn (hphase n)
  have hsame : Function.update (fun d => (s.sessions d).goesBy) c (s.sessions c).goesBy =
      fun d => (s.sessions d).goesBy := Function.update_eq_self c _
  rw [howner, hname, hsame]
  exact h.consistent

/-- The session changes neither its name nor the owners, and is between lines or leaves. -/
def Quiet (s t : State) (c : ℕ) : Prop :=
  t.owner = s.owner ∧ ∃ x, t.sessions = Function.update s.sessions c x ∧
    x.nick = (s.sessions c).nick ∧ x.seenNick = (s.sessions c).seenNick ∧
    (x.phase = .idle ∨ x.phase = .leaving)

theorem Quiet.refl {s : State} {c : ℕ} (h : (s.sessions c).phase = .idle) : Quiet s s c :=
  ⟨rfl, s.sessions c, (Function.update_eq_self c s.sessions).symm, rfl, rfl, .inl h⟩

theorem Quiet.finish {s t : State} {c : ℕ} (h : Quiet s t c) (ok : Bool) :
    Quiet s (t.finish c ok) c := by
  obtain ⟨howner, x, hsessions, hnick, hseen, hphase⟩ := h
  rw [State.finish]
  split_ifs
  · exact ⟨howner, x, hsessions, hnick, hseen, hphase⟩
  · refine ⟨howner, { x with phase := .leaving }, ?_, hnick, hseen, .inr rfl⟩
    rw [hsessions, Function.update_self, Function.update_idem]

theorem owner_rewrite {s : State} {n : Text} {p p' : Person} (hp : s.nicknames n = some p)
    (hsession : p'.tcpSession = p.tcpSession) :
    (fun m => (Function.update s.nicknames n (some p') m).map Person.tcpSession) = s.owner := by
  rw [owner_update, Option.map_some, hsession]
  have hself : some p.tcpSession = (fun m => (s.nicknames m).map Person.tcpSession) n := by
    change _ = (s.nicknames n).map Person.tcpSession
    rw [hp]
    rfl
  rw [hself]
  exact Function.update_eq_self n _

theorem userLine_quiet {s : State} {c : ℕ} (h : (s.sessions c).phase = .idle)
    (line username : Text) (sent : Bool) : Quiet s (userLine s c line username sent) c := by
  rw [userLine]
  cases hp : s.nicknames (s.sessions c).nick with
  | none => exact (Quiet.refl h).finish sent
  | some person =>
    refine Quiet.finish ?_ sent
    exact ⟨owner_rewrite hp rfl, _, rfl, rfl, rfl, .inl h⟩

theorem editChannels_quiet {s t : State} {c : ℕ} (h : (s.sessions c).phase = .idle)
    {channels : List Text} {edit : Finset Text → Text → Finset Text}
    (ht : editChannels s c channels edit = some t) : Quiet s t c := by
  rw [editChannels] at ht
  split_ifs at ht
  · obtain rfl := Option.some.inj ht
    exact Quiet.refl h
  · obtain ⟨person, hp, rfl⟩ := Option.map_eq_some_iff.mp ht
    exact ⟨owner_rewrite hp rfl, s.sessions c, (Function.update_eq_self c s.sessions).symm, rfl,
      rfl, .inl h⟩

theorem elim_ite {t : State} {P q : Prop} [Decidable q] {x y : Option State}
    (ht : (if q then x else y) = some t) (hx : x = some t → P) (hy : y = some t → P) : P := by
  by_cases hq : q
  · exact hx ((if_pos hq).symm.trans ht)
  · exact hy ((if_neg hq).symm.trans ht)

/-- Only `NICK` changes names. -/
theorem processLine_quiet {s t : State} {c : ℕ} (h : (s.sessions c).phase = .idle) {line : Text}
    {sent : Bool} (hline : newNick (split line ' ') = none)
    (ht : processLine s c line sent = some t) : Quiet s t c := by
  simp only [processLine, hline] at ht
  -- one case for each command, in the order of the source
  refine elim_ite ht (fun ht => ?_) fun ht => ?_
  · obtain rfl := Option.some.inj ht
    exact userLine_quiet h line _ sent
  refine elim_ite ht (fun ht => ?_) fun ht => ?_
  · obtain rfl := Option.some.inj ht
    exact Quiet.refl h
  refine elim_ite ht (fun ht => ?_) fun ht => ?_
  · obtain ⟨u, hu, rfl⟩ := Option.map_eq_some_iff.mp ht
    exact (editChannels_quiet h hu).finish _
  refine elim_ite ht (fun ht => editChannels_quiet h ht) fun ht => ?_
  refine elim_ite ht (fun ht => ?_) fun ht => ?_
  · obtain rfl := Option.some.inj ht
    exact Quiet.refl h
  refine elim_ite ht (fun ht => ?_) fun ht => ?_
  · obtain rfl := Option.some.inj ht
    exact (Quiet.refl h).finish sent
  refine elim_ite ht (fun ht => ?_) fun ht => ?_
  · obtain rfl := Option.some.inj ht
    refine Quiet.finish ?_ sent
    exact ⟨rfl, s.sessions c, (Function.update_eq_self c s.sessions).symm, rfl, rfl, .inl h⟩
  refine elim_ite ht (fun ht => ?_) fun ht => ?_
  · obtain rfl := Option.some.inj ht
    exact (Quiet.refl h).finish sent
  refine elim_ite ht (fun ht => ?_) fun ht => ?_
  · obtain rfl := Option.some.inj ht
    exact (Quiet.refl h).finish false
  · obtain rfl := Option.some.inj ht
    exact Quiet.refl h

theorem goesBy_of_phase {x : Session} (h : x.phase = .idle ∨ x.phase = .leaving) :
    x.goesBy = if x.seenNick = true then some x.nick else none := by
  rcases h with h | h <;> simp [Session.goesBy, Session.live, Session.current, h]

theorem Inv.quiet {s t : State} {c : ℕ} (h : Inv s)
    (hphase : (s.sessions c).phase = .idle ∨ (s.sessions c).phase = .leaving)
    (hq : Quiet s t c) : Inv t := by
  obtain ⟨howner, x, hsessions, hnick, hseen, hx⟩ := hq
  refine h.frame howner hsessions ?_ ?_
  · rw [goesBy_of_phase hx, goesBy_of_phase hphase, hnick, hseen]
  · rintro n hn
    rcases hx with hx | hx <;> rw [hx] at hn <;> cases hn

/-- A free name, with an entry under the old one: that entry is renamed, whoever owns it. -/
theorem nickLine_rename {s : State} {c : ℕ} {n : Text} {person : Person} (sent : Bool)
    (hfree : s.nicknames n = none) (hold : s.nicknames (s.sessions c).nick = some person) :
    nickLine s c n sent =
      { s with
        nicknames := Function.update (Function.update s.nicknames (s.sessions c).nick none) n
          (some person)
        sessions := Function.update s.sessions c
          { s.sessions c with phase := .announcing n } } := by
  simp only [nickLine, if_pos hfree, hold]

theorem rename_inv {s : State} {c : ℕ} {n : Text} {person : Person} (h : Inv s)
    (hphase : (s.sessions c).phase = .idle) (hfree : s.nicknames n = none)
    (hold : s.nicknames (s.sessions c).nick = some person)
    (hseen : (s.sessions c).seenNick = true) (sent : Bool) : Inv (nickLine s c n sent) := by
  have hname := goesBy_of_phase (.inl hphase)
  rw [if_pos hseen] at hname
  have hown := (h.consistent _ c).mpr hname
  have hsession : some person.tcpSession = some c := by rw [← hown, State.owner, hold]; rfl
  have hn : s.owner n = none := by rw [State.owner, hfree]; rfl
  have hne : (s.sessions c).nick ≠ n := by
    rintro hn'
    rw [hn', hfree] at hold
    cases hold
  rw [nickLine_rename sent hfree hold]
  refine h.update rfl ?_ ?_
  · change Naming.Consistent (fun m => (Function.update (Function.update s.nicknames _ none) n
      (some person) m).map Person.tcpSession) _
    rw [owner_update, owner_update, Option.map_some, hsession]
    have hnew : ({ s.sessions c with phase := .announcing n } : Session).goesBy = some n :=
      goesBy_eq_some.mpr ⟨⟨by simp, by simp⟩, hseen, rfl⟩
    rw [hnew]
    exact h.consistent.rename hown hn
  · rintro m hm
    cases hm
    exact ⟨hseen, hne⟩

theorem newUser_inv {s : State} {c : ℕ} {n : Text} (h : Inv s)
    (hphase : (s.sessions c).phase = .idle) (hfree : s.nicknames n = none)
    (hold : s.nicknames (s.sessions c).nick = none) (sent : Bool) :
    Inv (nickLine s c n sent) := by
  have hname := goesBy_of_phase (.inl hphase)
  have hseen : (s.sessions c).seenNick = false := by
    by_contra hseen
    rw [if_pos (by simpa using hseen)] at hname
    have hown := (h.consistent _ c).mpr hname
    rw [State.owner, hold] at hown
    cases hown
  rw [if_neg (by simp [hseen])] at hname
  have hn : s.owner n = none := by rw [State.owner, hfree]; rfl
  simp only [nickLine, if_pos hfree, hold]
  refine h.update rfl ?_ ?_
  · change Naming.Consistent (fun m => (Function.update s.nicknames n _ m).map Person.tcpSession) _
    rw [owner_update]
    have hnew : ({ s.sessions c with nick := n, seenNick := true } : Session).goesBy = some n :=
      goesBy_of_phase (.inl hphase)
    rw [hnew]
    exact h.consistent.take hn hname
  · intro m hm
    cases hphase.symm.trans hm

theorem nickLine_inv {s : State} {c : ℕ} {n : Text} {sent : Bool} (h : Inv s)
    (hphase : (s.sessions c).phase = .idle)
    (regular : s.nicknames n = none → (s.sessions c).seenNick = false →
      s.nicknames (s.sessions c).nick = none) : Inv (nickLine s c n sent) := by
  by_cases hfree : s.nicknames n = none
  · cases hold : s.nicknames (s.sessions c).nick with
    | some person =>
      -- the entry is the session's own, as it has a nickname
      have hseen : (s.sessions c).seenNick = true := by
        by_contra hseen
        rw [regular hfree (Bool.eq_false_of_not_eq_true hseen)] at hold
        cases hold
      exact rename_inv h hphase hfree hold hseen sent
    | none => exact newUser_inv h hphase hfree hold sent
  · rw [nickLine, if_neg hfree]
    exact h.quiet (.inl hphase) ((Quiet.refl hphase).finish sent)

theorem exit_inv {s : State} {c : ℕ} (h : Inv s) (hphase : (s.sessions c).phase = .leaving)
    (regular : (s.sessions c).seenNick = false → s.nicknames (s.sessions c).nick = none) :
    Inv { s with
      nicknames := Function.update s.nicknames (s.sessions c).nick none
      sessions := Function.update s.sessions c { s.sessions c with phase := .ended } } := by
  have hname := goesBy_of_phase (.inr hphase)
  have hended : ({ s.sessions c with phase := .ended } : Session).goesBy = none := by
    simp [Session.goesBy, Session.live]
  cases hseen : (s.sessions c).seenNick with
  | false =>
    -- nothing is erased
    rw [if_neg (by simp [hseen])] at hname
    have hsame : Function.update s.nicknames (s.sessions c).nick none = s.nicknames := by
      rw [← regular hseen]
      exact Function.update_eq_self _ _
    rw [hsame]
    refine h.frame rfl rfl (hended.trans hname.symm) ?_
    rintro n hn
    cases hn
  | true =>
    rw [if_pos hseen] at hname
    have hown := (h.consistent _ c).mpr hname
    refine h.update rfl ?_ ?_
    · change Naming.Consistent
        (fun m => (Function.update s.nicknames _ none m).map Person.tcpSession) _
      rw [owner_update, hended]
      exact h.consistent.release hown
    · rintro m hm
      cases hm

theorem step_inv {s t : State} {e : Event} {o : Unit} (h : Inv s) (regular : Regular ⟨s, e, o⟩)
    (made : step s e = some (t, o)) : Inv t := by
  cases e with
  | connect c =>
    simp only [step, Option.ite_none_right_eq_some, Option.some.injEq, Prod.mk.injEq] at made
    obtain ⟨habsent, rfl, -⟩ := made
    refine h.frame rfl rfl ?_ ?_
    · simp [Session.goesBy, Session.live, habsent]
    · rintro n hn
      cases hn
  | line c line sent =>
    simp only [step, Option.ite_none_right_eq_some, Option.map_eq_some_iff, Prod.mk.injEq] at made
    obtain ⟨hphase, t', ht, rfl, -⟩ := made
    cases hnick : newNick (split line ' ') with
    | none => exact h.quiet (.inl hphase) (processLine_quiet hphase hnick ht)
    | some n =>
      simp only [processLine, hnick, Option.some.injEq] at ht
      obtain rfl := ht
      exact nickLine_inv h hphase (regular n hnick)
  | announced c sent =>
    obtain rfl : sent = true := regular
    cases hphase : (s.sessions c).phase with
    | announcing n =>
      simp only [step, hphase, if_true, Option.some.injEq, Prod.mk.injEq] at made
      obtain ⟨rfl, -⟩ := made
      have hseen := (h.announcing c n hphase).1
      refine h.frame rfl rfl ?_ ?_
      · rw [goesBy_of_phase (.inl rfl)]
        exact (goesBy_eq_some.mpr ⟨by simp [Session.live, hphase], hseen,
          by simp [Session.current, hphase]⟩).symm
      · rintro m hm
        cases hm
    | _ => simp [step, hphase] at made
  | disconnect c =>
    simp only [step, Option.ite_none_right_eq_some, Option.some.injEq, Prod.mk.injEq] at made
    obtain ⟨hphase, rfl, -⟩ := made
    exact h.quiet (.inl hphase) ((Quiet.refl hphase).finish false)
  | exit c =>
    simp only [step, Option.ite_none_right_eq_some, Option.some.injEq, Prod.mk.injEq] at made
    obtain ⟨hphase, rfl, -⟩ := made
    exact exit_inv h hphase regular

/-- A session with a nickname finds its entry, so `JOIN` and `PART` have a next state. -/
theorem editChannels_defined {s : State} {c : ℕ} (h : Inv s) (hphase : (s.sessions c).phase = .idle)
    (hseen : (s.sessions c).seenNick = true) (channels : List Text)
    (edit : Finset Text → Text → Finset Text) : ∃ t, editChannels s c channels edit = some t := by
  have hname := goesBy_of_phase (.inl hphase)
  rw [if_pos hseen] at hname
  obtain ⟨person, hp, -⟩ := Option.map_eq_some_iff.mp ((h.consistent _ c).mpr hname)
  rw [editChannels, hp]
  by_cases hnil : channels = []
  · exact ⟨s, if_pos hnil⟩
  · exact ⟨_, if_neg hnil⟩

theorem exists_of_ite {q : Prop} [Decidable q] {x y : Option State} (hx : q → ∃ t, x = some t)
    (hy : ¬q → ∃ t, y = some t) : ∃ t, (if q then x else y) = some t := by
  by_cases hq : q
  · rw [if_pos hq]
    exact hx hq
  · rw [if_neg hq]
    exact hy hq

/-- In the states of a regular run every line of every session has a next state. -/
theorem processLine_defined {s : State} {c : ℕ} (h : Inv s) (hphase : (s.sessions c).phase = .idle)
    (line : Text) (sent : Bool) : ∃ t, processLine s c line sent = some t := by
  cases hline : newNick (split line ' ') with
  | some n => exact ⟨nickLine s c n sent, by simp only [processLine, hline]⟩
  | none =>
    simp only [processLine, hline]
    refine exists_of_ite (fun _ => ⟨_, rfl⟩) fun _ => ?_
    refine exists_of_ite (fun _ => ⟨_, rfl⟩) fun hnamed => ?_
    have hseen : (s.sessions c).seenNick = true :=
      Bool.eq_true_of_not_eq_false (not_or.mp hnamed).2
    refine exists_of_ite (fun _ => ?_) fun _ => ?_
    · obtain ⟨t, ht⟩ := editChannels_defined h hphase hseen
        (split ((split line ' ').getD 1 []) ',') fun cs channel => insert channel cs
      exact ⟨_, congrArg (Option.map _) ht⟩
    refine exists_of_ite (fun _ => editChannels_defined h hphase hseen _ _) fun _ => ?_
    refine exists_of_ite (fun _ => ⟨_, rfl⟩) fun _ => ?_
    refine exists_of_ite (fun _ => ⟨_, rfl⟩) fun _ => ?_
    refine exists_of_ite (fun _ => ⟨_, rfl⟩) fun _ => ?_
    refine exists_of_ite (fun _ => ⟨_, rfl⟩) fun _ => ?_
    exact exists_of_ite (fun _ => ⟨_, rfl⟩) fun _ => ⟨_, rfl⟩

theorem inv_init : Inv State.init where
  consistent n c := by simp [State.owner, State.init, Session.goesBy, Session.live]
  announcing c n hphase := by cases hphase

/-! ## What goes wrong -/

/-- The owner of an entry that is under the name of a session without a nickname is another, live
session. -/
theorem Inv.other_owner {s : State} {c : ℕ} (h : Inv s) (hseen : (s.sessions c).seenNick = false)
    {p : Person} (hp : s.nicknames (s.sessions c).nick = some p) :
    p.tcpSession ≠ c ∧ (s.sessions p.tcpSession).live ∧
      (s.sessions p.tcpSession).seenNick = true ∧
      (s.sessions p.tcpSession).current = (s.sessions c).nick := by
  have howner : s.owner (s.sessions c).nick = some p.tcpSession := by rw [State.owner, hp]; rfl
  have hname := goesBy_eq_some.mp ((h.consistent _ _).mp howner)
  refine ⟨?_, hname⟩
  rintro rfl
  rw [hname.2.1] at hseen
  cases hseen

theorem not_owned_of_not_regular {s t : State} {e : Event} {o : Unit} (h : Inv s)
    (irregular : ¬Regular ⟨s, e, o⟩) (made : step s e = some (t, o)) : ¬Owned t := by
  intro howned
  cases e with
  | connect c => exact irregular trivial
  | disconnect c => exact irregular trivial
  | line c line sent =>
    simp only [step, Option.ite_none_right_eq_some, Option.map_eq_some_iff, Prod.mk.injEq] at made
    obtain ⟨hphase, t', ht, rfl, -⟩ := made
    refine irregular fun n hnick hfree hseen => ?_
    by_contra hold
    obtain ⟨p, hp⟩ := Option.ne_none_iff_exists'.mp hold
    obtain ⟨hother, hlive, hnamed, hcurrent⟩ := h.other_owner hseen hp
    have hne : (s.sessions c).nick ≠ n := by
      rintro hn
      exact hold (by rw [hn]; exact hfree)
    -- the other session loses its entry to this one
    simp only [processLine, hnick, Option.some.injEq, nickLine_rename sent hfree hp] at ht
    obtain rfl := ht
    have howns := howned.owns p.tcpSession
    simp only [Function.update_of_ne hother, State.owner, hcurrent, Function.update_of_ne hne,
      Function.update_self] at howns
    cases howns hlive hnamed
  | announced c sent =>
    have hsent : sent = false := Bool.eq_false_of_not_eq_true irregular
    subst hsent
    cases hphase : (s.sessions c).phase with
    | announcing n =>
      simp only [step, hphase, Bool.false_eq_true, if_false, Option.some.injEq, Prod.mk.injEq] at made
      obtain ⟨rfl, -⟩ := made
      obtain ⟨hseen, hne⟩ := h.announcing c n hphase
      have howns := howned.owns c
      simp only [State.finish, Bool.false_eq_true, if_false, Function.update_self] at howns
      have hown : s.owner (s.sessions c).nick = some c := howns ⟨by simp, by simp⟩ hseen
      have hname := (goesBy_eq_some.mp ((h.consistent _ c).mp hown)).2.2
      simp only [Session.current, hphase] at hname
      exact hne hname.symm
    | _ => simp [step, hphase] at made
  | exit c =>
    simp only [step, Option.ite_none_right_eq_some, Option.some.injEq, Prod.mk.injEq] at made
    obtain ⟨hphase, rfl, -⟩ := made
    refine irregular fun hseen => ?_
    by_contra hold
    obtain ⟨p, hp⟩ := Option.ne_none_iff_exists'.mp hold
    obtain ⟨hother, hlive, hnamed, hcurrent⟩ := h.other_owner hseen hp
    have howns := howned.owns p.tcpSession
    simp only [Function.update_of_ne hother, State.owner, hcurrent, Function.update_self] at howns
    cases howns hlive hnamed

theorem run_inv {tr : List (Move State Event Unit)} {t : State} (run : Run step .init tr t)
    (regular : ∀ m ∈ tr, Regular m) : Inv t :=
  Run.history_invariant Regular (fun _ s => Inv s) inv_init
    (fun _ _ _ _ _ h hregular made => step_inv h hregular made) run regular

/-- Nicknames are owned as they should be all through a run exactly if all its steps are regular. -/
theorem owned_iff_regular (tr : List (Move State Event Unit)) (t : State)
    (run : Run step .init tr t) :
    (∀ pre post s, tr = pre ++ post → Run step .init pre s → Owned s) ↔ ∀ m ∈ tr, Regular m := by
  constructor
  · intro h
    induction run with
    | nil => simp
    | @snoc tr s u e o run made ih =>
      have hregular : ∀ m ∈ tr, Regular m := ih fun pre post s' htr hpre =>
        h pre (post ++ [⟨s, e, o⟩]) s' (by rw [htr, List.append_assoc]) hpre
      have howned : Owned u := h _ [] u (List.append_nil _).symm (run.snoc made)
      have hlast : Regular ⟨s, e, o⟩ := by
        by_contra hirregular
        exact not_owned_of_not_regular (run_inv run hregular) hirregular made howned
      intro m hm
      rcases List.mem_append.mp hm with hm | hm
      · exact hregular m hm
      · rw [List.mem_singleton.mp hm]
        exact hlast
  · rintro h pre post s rfl hpre
    exact (run_inv hpre fun m hm => h m (List.mem_append_left _ hm)).owned

namespace Sample

/-- A user that changes its nickname and leaves. -/
def visit : List Event :=
  [.connect 0, .line 0 "NICK Ann".toList true, .line 0 "NICK bob".toList true, .announced 0 true,
    .disconnect 0, .exit 0]

/-- A user takes the empty nickname, and then another one asks for its first. -/
def emptyNick : List Event :=
  [.connect 0, .connect 1, .line 0 "NICK ".toList true, .line 1 "NICK bob".toList true]

/-- A user changes its nickname while one of the others cannot be told. -/
def untold : List Event :=
  [.connect 0, .line 0 "NICK ann".toList true, .line 0 "NICK bob".toList true, .announced 0 false,
    .exit 0]

def visitRun : List (Move State Event Unit) × State := (exec step .init visit).get (by decide +kernel)

end Sample

theorem owned_iff_regular_visit :
    (∀ pre post s, Sample.visitRun.1 = pre ++ post → Run step .init pre s → Owned s) ↔
      ∀ m ∈ Sample.visitRun.1, Regular m :=
  owned_iff_regular _ _ (exec_get_run step .init Sample.visit (by decide +kernel))

/-- The first user loses its entry to the second; and the entry of the one that could not tell its
new nickname stays behind. -/
theorem not_owned :
    (∃ tr t, Run step .init tr t ∧ tr.map (·.event) = Sample.emptyNick ∧ ¬Owned t) ∧
    ∃ tr t, Run step .init tr t ∧ tr.map (·.event) = Sample.untold ∧ ¬Owned t := by
  constructor
  · refine ⟨_, _, exec_get_run step .init Sample.emptyNick (by decide +kernel), rfl, fun h => ?_⟩
    have howns := h.owns 0 (by decide +kernel) (by decide +kernel)
    revert howns
    decide +kernel
  · refine ⟨_, _, exec_get_run step .init Sample.untold (by decide +kernel), rfl, fun h => ?_⟩
    have hlive := h.live "bob".toList 0 (by decide +kernel)
    revert hlive
    decide +kernel

end MyIp.Irc
