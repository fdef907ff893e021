import MyIp.Foundations.Inevitable
import MyIp.Mqtt.Broker
import MyIp.Tcp.SendData

/-! # The locks around the input of an MQTT session

`mqtt_get_bytes` takes `w_lock`, sends what publishers left in `msgs_out`, and then takes its bytes
or waits. For that `send_data` asks for the lock of the TCP session, and for `sessions_lock` when it
appended the data. `packet_handler` has both when it calls `mqtt_new_data`, which asks for `w_lock`.

While the thread does not send under `w_lock` with a packet handler on its way to `mqtt_new_data`
the input is that of `inputStep`, and all threads that are under way come through
(`framing_independent_of_cuts`). Otherwise each of the two may wait for the other, and no message
is extracted any more (`framing_deadlocks`). -/

namespace MyIp.Mqtt.Locking
set_option autoImplicit false

open Bytes EventMachine
open Broker (Action handle)
open Tcp (TcpSession appends sendDataTurn)

/-- Where `mqtt_recv_thread` is. -/
inductive Place
  /-- In `mqtt_get_bytes`, before it has `w_lock`. -/
  | asks
  /-- In `w_cond.wait`. -/
  | waits
  /-- With `w_lock`, and what is left of `msgs_out`. When a message was `appended` it needs
  `sessions_lock` to go on. -/
  | flushes (left : List (List Byte)) (appended : Bool)
  /-- Behind a message, with what is left of its branch. -/
  | acts (todo : List Action) (appended : Bool)
  deriving DecidableEq

/-- A thread that comes with `sessions_lock` for the lock of the TCP session, and what it gives to
`mqtt_new_data`, if it calls that. -/
abbrev Caller := Option (List Byte)

structure State where
  input : Input
  msgsOut : List (List Byte)
  place : Place
  ts : TcpSession
  /-- Who has `sessions_lock` and asks for `session_lock`. -/
  arriving : List Caller
  /-- Who has both, and what it has still to give. -/
  inside : Option Caller
  /-- How many of the other threads have `sessions_lock`. -/
  sessionsLock : ℕ
  /-- How many of them have `topic_lck` or the `w_lock` of another subscriber. -/
  topicLck : ℕ

inductive Event
  /-- The thread goes on; if that is in `publish`, `own` is what it queues for its own session. -/
  | turn (own : List (List Byte))
  /-- A thread has `sessions_lock`. -/
  | arrive (caller : Caller)
  /-- The `i`-th of those has `session_lock`. -/
  | enter (i : ℕ)
  | newData
  /-- It gives both locks back, with the TCP session as it left it. -/
  | leave (ts : TcpSession)
  /-- A publisher queues a message. -/
  | push (msg : List Byte)
  /-- A spurious wake-up. -/
  | wake
  | others (sessionsLock topicLck : ℕ)

def Place.hasWLock : Place → Bool
  | .flushes _ _ => true
  | _ => false

/-- `w_cond.notify_one` -/
def Place.notified : Place → Place
  | .waits => .asks
  | place => place

/-- "any data?": the thread takes its bytes or waits, and gives `w_lock` back. There is no answer if
the assertion fails, or the branch for the message is not defined. -/
def takeBytes (logDebug : Bool) (s : State) : Option (State × List Message) :=
  if s.input.wants.need ≤ s.input.data.length then
    (inputStep s.input .recv).bind fun r => (r.2.mapM (handle logDebug)).map fun todo =>
      ({ s with input := r.1, msgsOut := [], place := .acts todo.flatten false }, r.2)
  else some ({ s with msgsOut := [], place := .waits }, [])

/-- The part of `send_data` under `session_lock`. -/
def sendLocked (s : State) (data : List Byte) (next : Bool → Place) :
    Option (State × List Message) :=
  if s.inside = none then
    (sendDataTurn s.ts data).map fun r => ({ s with ts := r.2, place := next (appends s.ts) }, [])
  else none

/-- The part of `send_data` under `sessions_lock`, which is not shared there. -/
def notifyUnacked (s : State) (next : Place) : Option (State × List Message) :=
  if s.arriving = [] ∧ s.inside = none ∧ s.sessionsLock = 0 then some ({ s with place := next }, [])
  else none

/-- The thread, as long as `terminate` is not set. -/
def turn (logDebug : Bool) (s : State) (own : List (List Byte)) : Option (State × List Message) :=
  match s.place with
  | .asks => some ({ s with place := .flushes s.msgsOut false }, [])
  | .waits => none
  | .flushes left true => notifyUnacked s (.flushes left false)
  | .flushes (msg :: left) false => sendLocked s msg (.flushes left)
  | .flushes [] false => takeBytes logDebug s
  | .acts todo true => notifyUnacked s (.acts todo false)
  | .acts [] false => some ({ s with place := .asks }, [])
  | .acts (.send bytes :: todo) false => sendLocked s bytes (.acts todo)
  | .acts (.publish _ _ :: todo) false =>
    if s.topicLck = 0 then
      some ({ s with msgsOut := s.msgsOut ++ own, place := .acts todo false }, [])
    else none
  | .acts (_ :: todo) false =>
    if s.topicLck = 0 then some ({ s with place := .acts todo false }, []) else none

def step (logDebug : Bool) (s : State) : Event → Option (State × List Message)
  | .turn own => turn logDebug s own
  | .arrive caller => some ({ s with arriving := s.arriving ++ [caller] }, [])
  | .enter i =>
    match s.inside, s.arriving[i]? with
    | none, some caller =>
      some ({ s with arriving := s.arriving.eraseIdx i, inside := some caller }, [])
    | _, _ => none
  | .newData =>
    match s.inside with
    | some (some data) =>
      -- without data it only notifies, and does not ask for `w_lock`
      if data = [] ∨ s.place.hasWLock = false then
        (inputStep s.input (.newData data)).map fun r =>
          ({ s with input := r.1, place := s.place.notified, inside := some none }, [])
      else none
    | _ => none
  | .leave ts =>
    if s.inside = some none then some ({ s with ts := ts, inside := none }, []) else none
  | .push msg =>
    if s.place.hasWLock then none
    else some ({ s with msgsOut := s.msgsOut ++ [msg], place := s.place.notified }, [])
  | .wake => if s.place = .waits then some ({ s with place := .asks }, []) else none
  | .others sessionsLock topicLck =>
    some ({ s with sessionsLock := sessionsLock, topicLck := topicLck }, [])

/-! ## When the locks are kept apart -/

def Caller.brings (caller : Caller) : Bool := caller.any (!·.isEmpty)

def State.callers (s : State) : List Caller := s.arriving ++ s.inside.toList

/-- A packet handler with data for the session has `sessions_lock`. -/
def State.Delivers (s : State) : Prop := ∃ caller ∈ s.callers, caller.brings = true

/-- The thread has `w_lock` and something to send. -/
def Place.Sends : Place → Prop
  | .flushes left appended => left ≠ [] ∨ appended = true
  | _ => False

/-- The message that the thread takes, if its bytes are there, has a branch that reads inside the
array. -/
def Handled (logDebug : Bool) (s : Input) : Prop :=
  match s.wants with
  | .body control len => len.toNat ≤ s.data.length →
    len.toNat < 2 ^ 31 ∧ ReadsInside logDebug control (s.data.take len.toNat)
  | _ => True

def Takes (logDebug : Bool) (s : Input) : Prop := Manageable s ∧ Handled logDebug s

/-- The thread does not begin to send under `w_lock` while a packet handler with data has
`sessions_lock`, and none takes it while the thread sends. What the thread takes can be taken. And
the session is not on its way to its end. -/
def Sound (logDebug : Bool) (s : State) : Event → Prop
  | .turn _ => (s.place = .asks → s.msgsOut ≠ [] → ¬s.Delivers) ∧
    (s.place = .flushes [] false → Takes logDebug s.input)
  | .arrive caller => caller.brings = true → ¬s.place.Sends
  | .leave ts => ts.isTerminating = false
  | _ => True

/-- The step of a thread that is under way. -/
def Event.Own : Event → Prop
  | .turn _ | .enter _ | .newData | .leave _ => True
  | _ => False

/-! ## What a turn of the thread does -/

/-- What the thread has to do before it takes bytes the next time. -/
def State.work (s : State) : ℕ ×ₗ ℕ :=
  match s.place with
  | .asks => toLex (0, 2 * s.msgsOut.length + 2)
  | .waits => toLex (0, 0)
  | .flushes left appended => toLex (0, 2 * left.length + 1 + appended.toNat)
  | .acts todo appended => toLex (2 * todo.length + 1 + appended.toNat, 0)

/-- A turn in which the thread goes on to `place`, takes bytes, or begins to wait. -/
inductive Turned (s : State) : State → List Message → Prop
  | moves {msgsOut : List (List Byte)} {place : Place} {ts : TcpSession} (awake : place ≠ .waits)
      (sends : place.Sends → s.place.Sends ∨ s.place = .asks ∧ s.msgsOut ≠ [])
      (alive : ts.isTerminating = s.ts.isTerminating)
      (less : State.work { s with msgsOut := msgsOut, place := place, ts := ts } < s.work) :
      Turned s { s with msgsOut := msgsOut, place := place, ts := ts } []
  | takes {input : Input} {todo : List Action} {out : List Message}
      (flushed : s.place = .flushes [] false) (enough : s.input.wants.need ≤ s.input.data.length)
      (taken : inputStep s.input .recv = some (input, out)) :
      Turned s { s with input := input, msgsOut := [], place := .acts todo false } out
  | rests (flushed : s.place = .flushes [] false)
      (few : s.input.data.length < s.input.wants.need) :
      Turned s { s with msgsOut := [], place := .waits } []

theorem sendDataTurn_isTerminating {ts ts' : TcpSession} {data : List Byte} {rc : Bool}
    (h : sendDataTurn ts data = some (rc, ts')) : ts'.isTerminating = ts.isTerminating := by
  rcases Tcp.sendDataTurn_cases ts data with
    ⟨-, -, he⟩ | ⟨-, he⟩ | ⟨-, -, -, he⟩ | ⟨-, he⟩
  all_goals cases he.symm.trans h
  all_goals rfl

section Turns
variable {logDebug : Bool} {s s' : State} {out : List Message}

/-- The thread is at `next` when it sent, with less to do. -/
theorem Turned.of_sendLocked {data : List Byte} {next : Bool → Place}
    (made : sendLocked s data next = some (s', out)) (awake : ∀ b, next b ≠ .waits)
    (sends : ∀ b, (next b).Sends → s.place.Sends)
    (less : ∀ b ts, State.work { s with place := next b, ts := ts } < s.work) :
    Turned s s' out := by
  obtain ⟨-, made⟩ := Option.ite_none_right_eq_some.mp made
  obtain ⟨⟨rc, ts⟩, hturn, he⟩ := Option.map_eq_some_iff.mp made
  cases he
  exact .moves (awake _) (fun h => .inl (sends _ h)) (sendDataTurn_isTerminating hturn) (less _ _)

theorem Turned.of_notifyUnacked {next : Place} (made : notifyUnacked s next = some (s', out))
    (awake : next ≠ .waits) (sends : next.Sends → s.place.Sends)
    (less : State.work { s with place := next } < s.work) : Turned s s' out := by
  obtain ⟨-, he⟩ := Option.ite_none_right_eq_some.mp made
  cases he
  exact .moves awake (fun h => .inl (sends h)) rfl less

theorem Turned.of_takeBytes (made : takeBytes logDebug s = some (s', out))
    (flushed : s.place = .flushes [] false) : Turned s s' out := by
  rw [takeBytes] at made
  split at made
  · next enough =>
    obtain ⟨⟨input, ms⟩, taken, made⟩ := Option.bind_eq_some_iff.mp made
    obtain ⟨todo, -, he⟩ := Option.map_eq_some_iff.mp made
    cases he
    exact .takes flushed enough taken
  · next few =>
    cases made
    exact .rests flushed (not_le.mp few)

theorem turn_turned {own : List (List Byte)} (made : turn logDebug s own = some (s', out)) :
    Turned s s' out := by
  have hwork : ∀ {place : Place}, s.place = place → s.work = { s with place := place }.work := by
    rintro place rfl
    rfl
  have hfirst : ∀ {a a' b b' : ℕ}, a < a' → toLex (a, b) < toLex (a', b') :=
    fun h => Prod.Lex.toLex_lt_toLex.mpr (.inl h)
  have hsecond : ∀ {a b b' : ℕ}, b < b' → toLex (a, b) < toLex (a, b') :=
    fun h => Prod.Lex.toLex_lt_toLex.mpr (.inr ⟨rfl, h⟩)
  unfold turn at made
  split at made
  · next hplace =>
    cases made
    refine .moves (by simp) (fun h => .inr ⟨hplace, ?_⟩) rfl ?_
    · simpa [Place.Sends] using h
    · rw [hwork hplace]
      exact hsecond (by simp)
  · cases made
  · next left hplace =>
    refine .of_notifyUnacked made (by simp) (fun _ => by simp [hplace, Place.Sends]) ?_
    rw [hwork hplace]
    exact hsecond (by simp)
  · next msg left hplace =>
    refine .of_sendLocked made (by simp) (fun _ _ => by simp [hplace, Place.Sends]) fun b ts => ?_
    rw [hwork hplace]
    refine hsecond ?_
    have := b.toNat_le
    simp only [List.length_cons, Bool.toNat_false]
    omega
  · next hplace => exact .of_takeBytes made hplace
  · next todo hplace =>
    refine .of_notifyUnacked made (by simp) (by simp [Place.Sends]) ?_
    rw [hwork hplace]
    exact hfirst (by simp)
  · next hplace =>
    cases made
    refine .moves (by simp) (by simp [Place.Sends]) rfl ?_
    rw [hwork hplace]
    exact hfirst (by simp)
  · next bytes todo hplace =>
    refine .of_sendLocked made (by simp) (by simp [Place.Sends]) fun b ts => ?_
    rw [hwork hplace]
    refine hfirst ?_
    have := b.toNat_le
    simp only [List.length_cons, Bool.toNat_false]
    omega
  · next topic data todo hplace =>
    obtain ⟨-, he⟩ := Option.ite_none_right_eq_some.mp made
    cases he
    refine .moves (by simp) (by simp [Place.Sends]) rfl ?_
    rw [hwork hplace]
    exact hfirst (by simp)
  · next action todo _ _ hplace =>
    obtain ⟨-, he⟩ := Option.ite_none_right_eq_some.mp made
    cases he
    refine .moves (by simp) (by simp [Place.Sends]) rfl ?_
    rw [hwork hplace]
    exact hfirst (by simp)

theorem exists_sendLocked (free : s.inside = none) (alive : s.ts.isTerminating = false)
    (data : List Byte) (next : Bool → Place) : ∃ s', sendLocked s data next = some (s', []) := by
  rw [sendLocked, if_pos free]
  cases hturn : sendDataTurn s.ts data with
  | none =>
    obtain ⟨-, -, hterminating⟩ := (Tcp.sendDataTurn_none_iff s.ts data).mp hturn
    rw [alive] at hterminating
    cases hterminating
  | some r => exact ⟨_, rfl⟩

/-- What can be taken is taken, and its branch is defined. -/
theorem exists_takeBytes (h : Takes logDebug s.input) :
    ∃ s' out, takeBytes logDebug s = some (s', out) := by
  obtain ⟨manageable, handled⟩ := h
  rw [takeBytes]
  rcases recv_cases manageable with ⟨few, -⟩ | ⟨w, out, enough, hreceived, hstep⟩
  · rw [if_neg (not_le.mpr few)]
    exact ⟨_, _, rfl⟩
  rw [if_pos enough, hstep, Option.bind_some]
  cases hw : s.input.wants with
  | control =>
    rw [hw] at hreceived
    cases hreceived
    exact ⟨_, _, rfl⟩
  | length control len =>
    rw [hw] at hreceived
    cases hreceived
    exact ⟨_, _, rfl⟩
  | body control len =>
    rw [hw] at hreceived enough
    obtain ⟨-, hout⟩ := Option.ite_none_right_eq_some.mp hreceived
    cases hout
    rw [Handled, hw] at handled
    obtain ⟨hlen, hreads⟩ := handled enough
    have htake : (s.input.data.take len.toNat).length = len.toNat := List.length_take_of_le enough
    have hshort : (s.input.data.take len.toNat).length < 2 ^ 31 := htake.trans_lt hlen
    obtain ⟨todo, htodo⟩ := Option.isSome_iff_exists.mp
      ((Broker.handle_isSome_iff logDebug (m := (control, _)) hshort).mpr hreads)
    change ∃ s' out, ([(control, s.input.data.take len.toNat)].mapM (handle logDebug)).map _ = _
    rw [List.mapM_cons, htodo]
    exact ⟨_, _, rfl⟩

/-- When nobody else has a lock, the thread goes on unless it waits. -/
theorem exists_turn (arriving : s.arriving = []) (inside : s.inside = none)
    (sessions : s.sessionsLock = 0) (topics : s.topicLck = 0) (alive : s.ts.isTerminating = false)
    (awake : s.place ≠ .waits) (takes : s.place = .flushes [] false → Takes logDebug s.input) :
    ∃ s' out, turn logDebug s [] = some (s', out) := by
  have hnotify : ∀ next, ∃ s', notifyUnacked s next = some (s', []) := fun next =>
    ⟨_, if_pos ⟨arriving, inside, sessions⟩⟩
  have hsend : ∀ data next, ∃ s', sendLocked s data next = some (s', []) :=
    exists_sendLocked inside alive
  unfold turn
  split
  · exact ⟨_, _, rfl⟩
  · next hplace => exact absurd hplace awake
  · next left hplace =>
    obtain ⟨s', made⟩ := hnotify (.flushes left false)
    exact ⟨s', [], made⟩
  · next msg left hplace =>
    obtain ⟨s', made⟩ := hsend msg (.flushes left)
    exact ⟨s', [], made⟩
  · next hplace => exact exists_takeBytes (takes hplace)
  · next todo hplace =>
    obtain ⟨s', made⟩ := hnotify (.acts todo false)
    exact ⟨s', [], made⟩
  · exact ⟨_, _, rfl⟩
  · next bytes todo hplace =>
    obtain ⟨s', made⟩ := hsend bytes (.acts todo)
    exact ⟨s', [], made⟩
  · exact ⟨_, _, if_pos topics⟩
  · exact ⟨_, _, if_pos topics⟩

/-! ### The threads that come for the lock -/

theorem enter_iff {i : ℕ} : step logDebug s (.enter i) = some (s', out) ↔
    s.inside = none ∧ ∃ caller, s.arriving[i]? = some caller ∧
      s' = { s with arriving := s.arriving.eraseIdx i, inside := some caller } ∧ out = [] := by
  rw [step]
  split
  · next caller hinside hat =>
    refine ⟨fun h => ?_, ?_⟩
    · cases h
      exact ⟨hinside, caller, hat, rfl, rfl⟩
    · rintro ⟨-, c, hc, rfl, rfl⟩
      obtain rfl := Option.some.inj (hat.symm.trans hc)
      rfl
  · next hnot =>
    refine iff_of_false (by simp) ?_
    rintro ⟨hinside, caller, hat, -⟩
    exact hnot caller hinside hat

theorem newData_iff : step logDebug s .newData = some (s', out) ↔
    ∃ data, s.inside = some (some data) ∧ (data = [] ∨ s.place.hasWLock = false) ∧
      s' = { s with
        input := ⟨s.input.data ++ data, s.input.wants⟩
        place := s.place.notified
        inside := some none } ∧ out = [] := by
  rw [step]
  split
  · next data hinside =>
    refine ⟨fun h => ?_, ?_⟩
    · obtain ⟨hfree, h⟩ := Option.ite_none_right_eq_some.mp h
      cases h
      exact ⟨data, hinside, hfree, rfl, rfl⟩
    · rintro ⟨d, hd, hfree, rfl, rfl⟩
      obtain rfl := Option.some.inj (Option.some.inj (hinside.symm.trans hd))
      exact if_pos hfree
  · next hnot =>
    refine iff_of_false (by simp) ?_
    rintro ⟨data, hinside, -⟩
    exact hnot data hinside

end Turns

/-! ## Runs -/

/-- The bytes that `mqtt_new_data` is given by a move. -/
def given (m : Move State Event (List Message)) : List Byte :=
  match m.event, m.before.inside with
  | .newData, some (some data) => data
  | _, _ => []

def stream (tr : List (Move State Event (List Message))) : List Byte := tr.flatMap given

/-- The messages that the thread has got. -/
def got (tr : List (Move State Event (List Message))) : List Message := tr.flatMap (·.output)

/-- A new session of MQTT, with whatever threads are there. -/
structure Fresh (s : State) : Prop where
  input : s.input = .start
  place : s.place = .asks
  alive : s.ts.isTerminating = false

structure Inv (tr : List (Move State Event (List Message))) (s : State) : Prop where
  follows : TakenOver (stream tr) (got tr) s.input
  rests : s.place = .waits → s.input.AtRest
  apart : s.place.Sends → ¬s.Delivers
  alive : s.ts.isTerminating = false

section Runs
variable {logDebug : Bool} {s s' : State} {e : Event} {out : List Message}
  {tr : List (Move State Event (List Message))}

theorem stream_snoc (m : Move State Event (List Message)) :
    stream (tr ++ [m]) = stream tr ++ given m := by
  simp [stream]

theorem got_snoc (m : Move State Event (List Message)) :
    got (tr ++ [m]) = got tr ++ m.output := by
  simp [got]

theorem Fresh.inv (h : Fresh s) : Inv [] s := by
  refine ⟨h.input ▸ takenOver_start, ?_, ?_, h.alive⟩
  · intro hplace
    cases h.place.symm.trans hplace
  · rw [h.place]
    exact False.elim

/-- A step that leaves the input alone. -/
theorem Inv.same (h : Inv tr s) (input : s'.input = s.input) (quiet : given ⟨s, e, []⟩ = [])
    (rests : s'.place = .waits → s'.input.AtRest) (apart : s'.place.Sends → ¬s'.Delivers)
    (alive : s'.ts.isTerminating = false) : Inv (tr ++ [⟨s, e, []⟩]) s' := by
  refine ⟨?_, rests, apart, alive⟩
  rw [stream_snoc, quiet, List.append_nil, got_snoc, List.append_nil, input]
  exact h.follows

theorem Inv.turned {own : List (List Byte)} (h : Inv tr s) (ok : Sound logDebug s (.turn own))
    (made : Turned s s' out) : Inv (tr ++ [⟨s, .turn own, out⟩]) s' := by
  cases made with
  | moves awake sends alive less =>
    refine h.same rfl rfl (fun hplace => absurd hplace awake) (fun hsends => ?_)
      (alive.trans h.alive)
    rcases sends hsends with hsends | ⟨hplace, hmsgs⟩
    · exact h.apart hsends
    · exact ok.1 hplace hmsgs
  | takes flushed enough taken =>
    refine ⟨?_, ?_, False.elim, h.alive⟩
    · rw [stream_snoc, given, List.append_nil, got_snoc]
      exact h.follows.recv (ok.2 flushed).1 taken
    · intro hplace
      cases hplace
  | rests flushed few =>
    exact h.same rfl rfl (fun _ => few) False.elim h.alive

theorem State.Delivers.mono (h : s'.Delivers)
    (sub : ∀ c ∈ s'.callers, c.brings = true → c ∈ s.callers) : s.Delivers := by
  obtain ⟨c, hc, hbrings⟩ := h
  exact ⟨c, sub c hc hbrings, hbrings⟩

theorem notified_ne_waits (place : Place) : place.notified ≠ .waits := by
  cases place <;> simp [Place.notified]

theorem sends_of_notified {place : Place} (h : place.notified.Sends) : place.Sends := by
  cases place with
  | waits => cases h
  | _ => exact h

theorem Inv.step (h : Inv tr s) (ok : Sound logDebug s e)
    (made : step logDebug s e = some (s', out)) : Inv (tr ++ [⟨s, e, out⟩]) s' := by
  cases e with
  | turn own => exact h.turned ok (turn_turned made)
  | arrive caller =>
    cases made
    refine h.same rfl rfl h.rests (fun hsends => ?_) h.alive
    rintro ⟨c, hc, hbrings⟩
    have hmem : c ∈ s.callers ∨ c = caller := by
      simp only [State.callers, List.mem_append, List.mem_singleton] at hc ⊢
      tauto
    rcases hmem with hold | rfl
    · exact h.apart hsends ⟨c, hold, hbrings⟩
    · exact ok hbrings hsends
  | enter i =>
    obtain ⟨hinside, caller, hat, rfl, rfl⟩ := enter_iff.mp made
    refine h.same rfl rfl h.rests (fun hsends hdelivers => ?_) h.alive
    refine h.apart hsends (hdelivers.mono fun c hc _ => ?_)
    rcases List.mem_append.mp hc with hc | hc
    · exact List.mem_append_left _ (List.mem_of_mem_eraseIdx hc)
    · obtain rfl := Option.some.inj (Option.mem_toList.mp hc)
      exact List.mem_append_left _ (List.mem_of_getElem? hat)
  | newData =>
    obtain ⟨data, hinside, -, rfl, rfl⟩ := newData_iff.mp made
    have hgiven : given ⟨s, .newData, []⟩ = data := by simp [given, hinside]
    refine ⟨?_, ?_, ?_, h.alive⟩
    · rw [stream_snoc, hgiven, got_snoc, List.append_nil]
      exact h.follows.newData data
    · intro hplace
      exact absurd hplace (notified_ne_waits _)
    · intro hsends hdelivers
      refine h.apart (sends_of_notified hsends) (hdelivers.mono fun c hc hbrings => ?_)
      rcases List.mem_append.mp hc with hc | hc
      · exact List.mem_append_left _ hc
      · obtain rfl := Option.some.inj (Option.mem_toList.mp hc)
        cases hbrings
  | leave ts =>
    obtain ⟨hinside, he⟩ := Option.ite_none_right_eq_some.mp made
    cases he
    refine h.same rfl (by simp [given]) h.rests (fun hsends hdelivers => ?_) ok
    refine h.apart hsends (hdelivers.mono fun c hc _ => ?_)
    rw [State.callers, Option.toList_none, List.append_nil] at hc
    exact List.mem_append_left _ hc
  | push msg =>
    obtain ⟨-, he⟩ := Option.ite_none_left_eq_some.mp made
    cases he
    exact h.same rfl rfl (fun hplace => absurd hplace (notified_ne_waits _))
      (fun hsends => h.apart (sends_of_notified hsends)) h.alive
  | wake =>
    obtain ⟨-, he⟩ := Option.ite_none_right_eq_some.mp made
    cases he
    refine h.same rfl rfl (fun hplace => ?_) False.elim h.alive
    cases hplace
  | others sessionsLock topicLck =>
    cases made
    exact h.same rfl rfl h.rests h.apart h.alive

theorem Inv.gets (h : Inv tr s) :
    got tr <+: packets (stream tr) ∧ (s.place = .waits → got tr = packets (stream tr)) := by
  obtain ⟨hfirst, hrest⟩ := h.follows.extracts
  exact ⟨hfirst, fun hplace => hrest (h.rests hplace)⟩

theorem run_inv (run : Run (step logDebug) s tr s') (fresh : Fresh s)
    (ok : ∀ m ∈ tr, Sound logDebug m.before m.event) : Inv tr s' :=
  Run.history_invariant (fun m => Sound logDebug m.before m.event) Inv fresh.inv
    (fun _ _ _ _ _ h ok made => h.step ok made) run ok

end Runs

/-! ## All come through -/

/-- The steps of a thread that comes for the lock, once it has it; delivered bytes count for the
turns that the receive thread takes for them. -/
def Caller.weight : Caller → ℕ
  | none => 1
  | some data => 2 * data.length + 2

def State.toGo (s : State) : ℕ :=
  s.input.toGo + (s.arriving.map fun c => c.weight + 1).sum + (s.inside.map Caller.weight).getD 0

def State.rank (s : State) : ℕ ×ₗ ℕ ×ₗ ℕ := toLex (s.toGo, s.work)

/-- The thread waits, or comes to bytes that it cannot take. -/
def State.Done (logDebug : Bool) (s : State) : Prop :=
  s.place = .waits ∨ s.place = .flushes [] false ∧ ¬Takes logDebug s.input

/-- The other threads have none of the locks that the thread asks for. -/
structure State.Alone (s : State) : Prop where
  sessions : s.sessionsLock = 0
  topics : s.topicLck = 0

section Progress
variable {logDebug : Bool} {s s' : State} {e : Event} {out : List Message}
  {tr : List (Move State Event (List Message))}

theorem not_delivers (arriving : s.arriving = []) (inside : s.inside = none) : ¬s.Delivers := by
  rintro ⟨c, hc, -⟩
  rw [State.callers, arriving, inside] at hc
  cases hc

/-- The thread inside `session_lock` goes on, else one that comes for it, else the receive
thread. -/
theorem Inv.goes (h : Inv tr s) (alone : s.Alone) (busy : ¬s.Done logDebug) :
    ∃ e s' out, (e.Own ∧ Sound logDebug s e) ∧ Locking.step logDebug s e = some (s', out) := by
  have takes : s.place = .flushes [] false → Takes logDebug s.input := fun hplace => by
    by_contra hnot
    exact busy (.inr ⟨hplace, hnot⟩)
  rcases hinside : s.inside with _ | _ | data
  · rcases harriving : s.arriving with _ | ⟨caller, rest⟩
    · obtain ⟨s', out, made⟩ := exists_turn harriving hinside alone.sessions alone.topics h.alive
        (fun hplace => busy (.inl hplace)) takes
      exact ⟨.turn [], s', out, ⟨trivial, fun _ _ => not_delivers harriving hinside, takes⟩, made⟩
    · refine ⟨.enter 0, _, _, ⟨trivial, trivial⟩, enter_iff.mpr ⟨hinside, caller, ?_, rfl, rfl⟩⟩
      rw [harriving]
      rfl
  · exact ⟨.leave s.ts, _, [], ⟨trivial, h.alive⟩, if_pos hinside⟩
  · by_cases hfree : data = [] ∨ s.place.hasWLock = false
    · exact ⟨.newData, _, _, ⟨trivial, trivial⟩,
        newData_iff.mpr ⟨data, hinside, hfree, rfl, rfl⟩⟩
    -- `w_lock` is taken, so by `apart` there is nothing to send, and the thread takes its bytes
    · obtain ⟨hdata, hlock⟩ := not_or.mp hfree
      have hdelivers : s.Delivers := by
        refine ⟨some data, by simp [State.callers, hinside], ?_⟩
        simpa [Caller.brings] using hdata
      have hplace : s.place = .flushes [] false := by
        have hquiet := fun hsends => h.apart hsends hdelivers
        cases hp : s.place with
        | flushes left appended =>
          rw [hp] at hquiet
          obtain ⟨hleft, happended⟩ := not_or.mp hquiet
          rw [not_not.mp hleft, eq_false_of_ne_true happended]
        | _ => simp [hp, Place.hasWLock] at hlock
      obtain ⟨s', out, made⟩ := exists_takeBytes (takes hplace)
      refine ⟨.turn [], s', out, ⟨trivial, fun hasks => ?_, takes⟩, ?_⟩
      · cases hplace.symm.trans hasks
      · rw [Locking.step, turn, hplace]
        exact made

theorem arriving_sum {arriving : List Caller} {i : ℕ} {caller : Caller}
    (h : arriving[i]? = some caller) :
    caller.weight + 1 + ((arriving.eraseIdx i).map fun c => c.weight + 1).sum =
      (arriving.map fun c => c.weight + 1).sum := by
  obtain ⟨hi, rfl⟩ := List.getElem?_eq_some_iff.mp h
  have hperm := (List.getElem_cons_eraseIdx_perm hi).map fun c => c.weight + 1
  rw [← hperm.sum_eq, List.map_cons, List.sum_cons]

theorem rank_lt (own : e.Own) (ok : Sound logDebug s e)
    (made : step logDebug s e = some (s', out)) : s'.rank < s.rank := by
  have hfirst : s'.toGo < s.toGo → s'.rank < s.rank := fun hless =>
    Prod.Lex.toLex_lt_toLex.mpr (.inl hless)
  cases e with
  | turn own =>
    cases turn_turned made with
    | moves _ _ _ less => exact Prod.Lex.toLex_lt_toLex.mpr (.inr ⟨rfl, less⟩)
    | takes flushed enough taken =>
      obtain ⟨manageable, -⟩ := ok.2 flushed
      rcases recv_cases manageable with ⟨few, -⟩ | ⟨w, out', -, hreceived, hstep⟩
      · exact absurd enough (not_le.mpr few)
      · cases hstep.symm.trans taken
        refine hfirst ?_
        have := toGo_received enough hreceived
        simp only [State.toGo]
        omega
    | rests flushed few =>
      refine Prod.Lex.toLex_lt_toLex.mpr (.inr ⟨rfl, ?_⟩)
      rw [State.work, State.work, flushed]
      exact Prod.Lex.toLex_lt_toLex.mpr (.inr ⟨rfl, by simp⟩)
  | enter i =>
    obtain ⟨hinside, caller, hat, rfl, rfl⟩ := enter_iff.mp made
    refine hfirst ?_
    have hsum := arriving_sum hat
    simp only [State.toGo, hinside, Option.map_some, Option.map_none, Option.getD_some,
      Option.getD_none]
    omega
  | newData =>
    obtain ⟨data, hinside, -, rfl, rfl⟩ := newData_iff.mp made
    refine hfirst ?_
    simp only [State.toGo, hinside, Option.map_some, Option.getD_some, Input.toGo,
      List.length_append, Caller.weight]
    omega
  | leave ts =>
    obtain ⟨hinside, he⟩ := Option.ite_none_right_eq_some.mp made
    cases he
    refine hfirst ?_
    rw [State.toGo, State.toGo, hinside]
    exact Nat.lt_succ_self _
  | _ => exact own.elim

theorem State.Alone.step (h : s.Alone) (own : e.Own) (made : step logDebug s e = some (s', out)) :
    s'.Alone := by
  cases e with
  | turn own => cases turn_turned made <;> exact ⟨h.sessions, h.topics⟩
  | enter i =>
    obtain ⟨-, caller, -, rfl, -⟩ := enter_iff.mp made
    exact ⟨h.sessions, h.topics⟩
  | newData =>
    obtain ⟨data, -, -, rfl, -⟩ := newData_iff.mp made
    exact ⟨h.sessions, h.topics⟩
  | leave ts =>
    obtain ⟨-, he⟩ := Option.ite_none_right_eq_some.mp made
    cases he
    exact ⟨h.sessions, h.topics⟩
  | _ => exact own.elim

theorem Inv.inevitable (h : Inv tr s) (alone : s.Alone) :
    Inevitable (Locking.step logDebug) (fun s e => e.Own ∧ Sound logDebug s e) (State.Done logDebug)
      s := by
  refine inevitable_of_rank State.rank (fun s => (∃ tr, Inv tr s) ∧ s.Alone) ?_ ?_ ⟨⟨tr, h⟩, alone⟩
  · rintro s ⟨⟨tr, h⟩, alone⟩ busy
    exact h.goes alone busy
  · rintro s e s' out ⟨⟨tr, h⟩, alone⟩ - ⟨own, ok⟩ made
    exact ⟨⟨⟨_, h.step ok made⟩, alone.step own made⟩, rank_lt own ok made⟩

end Progress

/-- However the stream is cut, and in whatever order the threads have their turns: in the runs in
which the locks are kept apart the thread gets the messages of the stream, the same ones in all of
them. The others once out of the way, it comes to all of them, whoever is next. -/
theorem framing_independent_of_cuts {logDebug : Bool} {s₁ s₂ t₁ t₂ : State}
    {tr₁ tr₂ : List (Move State Event (List Message))}
    (run₁ : Run (step logDebug) s₁ tr₁ t₁) (run₂ : Run (step logDebug) s₂ tr₂ t₂)
    (fresh₁ : Fresh s₁) (fresh₂ : Fresh s₂)
    (ok₁ : ∀ m ∈ tr₁, Sound logDebug m.before m.event)
    (ok₂ : ∀ m ∈ tr₂, Sound logDebug m.before m.event) (same : stream tr₁ = stream tr₂) :
    (t₁.place = .waits → t₂.place = .waits → got tr₁ = got tr₂) ∧
    got tr₁ <+: packets (stream tr₁) ∧
    (t₁.place = .waits → got tr₁ = packets (stream tr₁)) ∧
    (t₁.Alone → Inevitable (step logDebug) (fun s e => e.Own ∧ Sound logDebug s e)
      (State.Done logDebug) t₁) := by
  have h₁ := run_inv run₁ fresh₁ ok₁
  obtain ⟨hfirst, hrest⟩ := h₁.gets
  refine ⟨fun hw₁ hw₂ => ?_, hfirst, hrest, fun alone => h₁.inevitable alone⟩
  rw [hrest hw₁, (run_inv run₂ fresh₂ ok₂).gets.2 hw₂, same]

/-! ## Both wait for each other -/

/-- The thread sends under `w_lock`, and a packet handler with data has `session_lock`. -/
def State.Deadlocked (s : State) : Prop :=
  s.place.Sends ∧ ∃ data, data ≠ [] ∧ s.inside = some (some data)

section Deadlock
variable {logDebug : Bool} {s s' : State} {e : Event} {out : List Message}
  {tr : List (Move State Event (List Message))}

theorem hasWLock_of_sends {place : Place} (h : place.Sends) : place.hasWLock = true := by
  cases place with
  | flushes left appended => rfl
  | _ => exact h.elim

/-- Neither of the two can go on, and whatever the others do, they stay where they are. -/
theorem State.Deadlocked.step (h : s.Deadlocked) (made : step logDebug s e = some (s', out)) :
    s'.Deadlocked ∧ given ⟨s, e, out⟩ = [] ∧ out = [] := by
  obtain ⟨hsends, data, hdata, hinside⟩ := h
  have hlock := hasWLock_of_sends hsends
  have hbusy : s.inside ≠ none := by simp [hinside]
  cases e with
  | turn own =>
    exfalso
    rw [Locking.step, turn] at made
    split at made
    · next hplace => exact (hplace ▸ hsends : Place.asks.Sends)
    · cases made
    · exact hbusy (Option.ite_none_right_eq_some.mp made).1.2.1
    · exact hbusy (Option.ite_none_right_eq_some.mp made).1
    · next hplace => simp [hplace, Place.Sends] at hsends
    all_goals next hplace => exact (hplace ▸ hsends : (Place.acts _ _).Sends)
  | arrive caller =>
    cases made
    exact ⟨⟨hsends, data, hdata, hinside⟩, rfl, rfl⟩
  | enter i => exact absurd (enter_iff.mp made).1 hbusy
  | newData =>
    obtain ⟨d, hd, hfree, -⟩ := newData_iff.mp made
    obtain rfl := Option.some.inj (Option.some.inj (hinside.symm.trans hd))
    rw [hlock] at hfree
    exact absurd hfree (by simpa using hdata)
  | leave ts =>
    obtain ⟨hdone, -⟩ := Option.ite_none_right_eq_some.mp made
    cases hinside.symm.trans hdone
  | push msg => exact absurd hlock (Option.ite_none_left_eq_some.mp made).1
  | wake =>
    obtain ⟨hplace, -⟩ := Option.ite_none_right_eq_some.mp made
    exact (hplace ▸ hsends : Place.waits.Sends).elim
  | others sessionsLock topicLck =>
    cases made
    exact ⟨⟨hsends, data, hdata, hinside⟩, rfl, rfl⟩

/-- From there on no bytes are taken over, and no message is extracted. -/
theorem State.Deadlocked.forever (h : s.Deadlocked) (run : Run (Locking.step logDebug) s tr s') :
    s'.Deadlocked ∧ stream tr = [] ∧ got tr = [] := by
  refine run.history_invariant (fun _ => True)
    (fun tr t => t.Deadlocked ∧ stream tr = [] ∧ got tr = []) ⟨h, rfl, rfl⟩ ?_ fun _ _ => trivial
  rintro tr t e u out ⟨ht, hstream, hgot⟩ - made
  obtain ⟨hu, hgiven, rfl⟩ := ht.step made
  refine ⟨hu, ?_, ?_⟩
  · rw [stream_snoc, hstream, hgiven]
    rfl
  · rw [got_snoc, hgot]
    rfl

end Deadlock

/-! ## Two streams -/

section Decidable
variable {logDebug : Bool}

instance (s : State) : Decidable s.Delivers :=
  inferInstanceAs (Decidable (∃ caller ∈ s.callers, caller.brings = true))

instance : DecidablePred Place.Sends
  | .flushes left appended => inferInstanceAs (Decidable (left ≠ [] ∨ appended = true))
  | .asks | .waits | .acts _ _ => .isFalse id

instance : DecidablePred (Handled logDebug)
  | ⟨data, .body control len⟩ =>
    if hthere : len.toNat ≤ data.length then
      if hshort : len.toNat < 2 ^ 31 then
        decidable_of_iff ((handle logDebug (control, data.take len.toNat)).isSome) (by
          rw [Broker.handle_isSome_iff logDebug (by rwa [List.length_take_of_le hthere])]
          exact ⟨fun h _ => ⟨hshort, h⟩, fun h => (h hthere).2⟩)
      else .isFalse fun h => hshort (h hthere).1
    else .isTrue fun h => absurd h hthere
  | ⟨_, .control⟩ | ⟨_, .length _ _⟩ => .isTrue trivial

instance : DecidablePred (Takes logDebug) := fun s =>
  inferInstanceAs (Decidable (Manageable s ∧ Handled logDebug s))

instance (s : State) : DecidablePred (Sound logDebug s)
  | .turn _ => inferInstanceAs (Decidable ((s.place = .asks → s.msgsOut ≠ [] → ¬s.Delivers) ∧
      (s.place = .flushes [] false → Takes logDebug s.input)))
  | .arrive caller => inferInstanceAs (Decidable (caller.brings = true → ¬s.place.Sends))
  | .leave ts => inferInstanceAs (Decidable (ts.isTerminating = false))
  | .enter _ | .newData | .push _ | .wake | .others _ _ => .isTrue trivial

end Decidable

namespace Sample

def established : TcpSession := { Tcp.Sample.session 120 with state := .established }

def fresh : State := ⟨.start, [], .asks, established, [], none, 0, 0⟩

/-- A subscription to a topic. -/
def subscribe : List Byte := [0x82, 6, 0, 1, 0, 1, 0x61, 0]

def ping : List Byte := [0xc0, 0]

/-- A packet handler brings the data. -/
def segment (data : List Byte) : List Event :=
  [.arrive (some data), .enter 0, .newData, .leave established]

def turns (n : ℕ) : List Event := List.replicate n (.turn [])

/-- What another session publishes to the topic. -/
def published : List Byte := [0x30, 4, 0, 1, 0x61, 0x78]

/-- The subscription and two more messages at once. -/
def whole : List Event := segment (subscribe ++ ping ++ ping) ++ turns 36

/-- The same in three pieces, with a message for the session that is sent in between. -/
def pieces : List Event :=
  segment (subscribe.take 3) ++ turns 8 ++ segment (subscribe.drop 3 ++ ping) ++ turns 6 ++
    .push published :: turns 15 ++ segment ping ++ turns 13

/-- The same in two pieces: the second one comes when the message for the session is to be sent. -/
def crossed : List Event :=
  segment (subscribe ++ ping) ++ turns 12 ++
    [.push published, .arrive (some ping), .enter 0, .turn []]

/-- The messages. -/
def messages : List Message := [(0x82, [0, 1, 0, 1, 0x61, 0]), (0xc0, []), (0xc0, [])]

end Sample

theorem fresh_sample : Fresh Sample.fresh := ⟨rfl, rfl, rfl⟩

theorem framing_independent_of_cuts_three :
    ∃ (tr₁ tr₂ : List (Move State Event (List Message))) (t₁ t₂ : State),
      Run (step true) Sample.fresh tr₁ t₁ ∧ Run (step true) Sample.fresh tr₂ t₂ ∧
      stream tr₁ = Sample.subscribe ++ Sample.ping ++ Sample.ping ∧ stream tr₂ = stream tr₁ ∧
      got tr₁ = got tr₂ ∧ got tr₁ = Sample.messages ∧
      Inevitable (step true) (fun s e => e.Own ∧ Sound true s e) (State.Done true) t₁ := by
  have run₁ := exec_get_run (step true) Sample.fresh Sample.whole (by decide +kernel)
  have run₂ := exec_get_run (step true) Sample.fresh Sample.pieces (by decide +kernel)
  have h := framing_independent_of_cuts run₁ run₂ fresh_sample fresh_sample (by decide +kernel)
    (by decide +kernel) (by decide +kernel)
  exact ⟨_, _, _, _, run₁, run₂, by decide +kernel, by decide +kernel,
    h.1 (by decide +kernel) (by decide +kernel), by decide +kernel,
    h.2.2.2 ⟨by decide +kernel, by decide +kernel⟩⟩

/-- A stream that comes at once is cut into its three messages. In two pieces, with the second one
on its way when the thread begins to send under `w_lock`, only the first message is ever extracted,
although the bytes of the second are there. -/
theorem framing_deadlocks :
    (∃ tr t, Run (step true) Sample.fresh tr t ∧
      stream tr = Sample.subscribe ++ Sample.ping ++ Sample.ping ∧ t.place = .waits ∧
      got tr = Sample.messages) ∧
    ∃ tr t, Run (step true) Sample.fresh tr t ∧ stream tr = Sample.subscribe ++ Sample.ping ∧
      t.inside = some (some Sample.ping) ∧ packets (stream tr) = Sample.messages.take 2 ∧
      ∀ tr' t', Run (step true) t tr' t' →
        got (tr ++ tr') = Sample.messages.take 1 ∧ t'.place ≠ .waits := by
  constructor
  · exact exists_run_of_exec (step true) Sample.fresh Sample.whole _ (by decide +kernel)
  · obtain ⟨tr, t, run, hstream, hinside, hgot, hsends⟩ :=
      exists_run_of_exec (step true) Sample.fresh Sample.crossed
        (fun tr t => stream tr = Sample.subscribe ++ Sample.ping ∧
          t.inside = some (some Sample.ping) ∧ got tr = Sample.messages.take 1 ∧ t.place.Sends)
        (by decide +kernel)
    refine ⟨tr, t, run, hstream, hinside, ?_, fun tr' t' run' => ?_⟩
    -- a run in which they are got
    · obtain ⟨tr₁, t₁, run₁, ok₁, hstream₁, hplace, hgot₁⟩ :=
        exists_run_of_exec (step true) Sample.fresh
          (Sample.segment (Sample.subscribe ++ Sample.ping) ++ Sample.turns 25)
          (fun tr t => (∀ m ∈ tr, Sound true m.before m.event) ∧
            stream tr = Sample.subscribe ++ Sample.ping ∧ t.place = .waits ∧
            got tr = Sample.messages.take 2) (by decide +kernel)
      rw [hstream, ← hstream₁, ← (run_inv run₁ fresh_sample ok₁).gets.2 hplace, hgot₁]
    · have hdead : t.Deadlocked := ⟨hsends, Sample.ping, by decide, hinside⟩
      obtain ⟨⟨hsends', -⟩, -, hnone⟩ := hdead.forever run'
      refine ⟨?_, ?_⟩
      · rw [got, List.flatMap_append]
        change got tr ++ got tr' = _
        rw [hgot, hnone, List.append_nil]
      · intro hplace
        exact (hplace ▸ hsends' : Place.waits.Sends)

end MyIp.Mqtt.Locking
