import MyIp.Foundations.PubSub
import MyIp.Mqtt.Input
import MyIp.Mqtt.Reads
import MyIp.Mqtt.Topics

/-! # The MQTT broker as a whole

Any number of sessions, each with a thread of its own in `mqtt_recv_thread` (`mqtt.cpp`). The
threads share the subscriptions, under `topic_lck`; a publisher keeps that lock while it queues a
message for one subscriber after the other. A session that is closed makes its thread leave,
wherever that is in its input, and is then freed. Calls of `send_data` come back here; what its
locks can do to a thread is in the module on the locks.

The broker does what its calls do one after the other, in the order in which they get the lock
(`broker_keeps_order`): of each session come the calls that its stream of bytes means, however that
was cut, and to each session go the messages that it is owed for them. -/

namespace MyIp.Mqtt.Broker
set_option autoImplicit false

open Bytes EventMachine Subscriptions

/-! ## What a message makes the thread do -/

inductive Action
  | register (topic : List Byte)
  | unregister (topic : List Byte)
  | publish (topic data : List Byte)
  | unregisterAll
  | send (bytes : List Byte)
  | endSession
  deriving DecidableEq

/-- No entry from the offset `o` on is longer than the message; `qosLogged` is whether the byte
behind a topic is read. -/
def entriesFit (msg : List Byte) (extra : ℕ) (qosLogged : Bool) : ℕ → ℕ → Bool
  | 0, _ => true
  | turns + 1, o =>
    if o < msg.length then
      decide (o + 1 + lengthAt msg o + qosLogged.toNat ≤ msg.length) &&
        entriesFit msg extra qosLogged turns (o + 2 + lengthAt msg o + extra)
    else true

/-- What the branch of `mqtt_recv_thread` for a message does, one after the other. There is no
answer if a topic throws, or something is read that is not in the array. -/
def handle (logDebug : Bool) (m : Message) : Option (List Action) :=
  let control := m.1
  let msg := m.2
  if control >>> 4 = 1 then some [.send [0x20, 0x02, 0x00, 0x00]]
  else if control >>> 4 = 3 then
    let o := 2 + lengthAt msg 0
    let withId := (control >>> 1) &&& 3 ≠ 0
    let msgId := if withId then be16 (msg.getD o 0) (msg.getD (o + 1) 0) else 0
    let payload := msg.drop (if withId then o + 2 else o)
    if msg.length < 2 ^ 31 ∧ lengthAt msg 0 < msg.length ∧
        (withId → lengthAt msg 0 + 3 ≤ msg.length) then
      some ((if payload = [] then [] else [.publish (readAt msg 2 (lengthAt msg 0)) payload]) ++
        [.send (4 <<< 4 :: 2 :: be16Bytes msgId)])
    else none
  else if control >>> 4 = 8 then
    if msg.length < 2 ^ 31 + 2 ∧ 1 ≤ msg.length ∧ entriesFit msg 1 logDebug msg.length 2 = true then
      some ((subscribeTopics msg).map .register ++ [.send (subAck msg)])
    else none
  else if control >>> 4 = 10 then
    if msg.length < 2 ^ 31 + 2 ∧ 1 ≤ msg.length ∧ entriesFit msg 0 false msg.length 2 = true then
      some ((unsubscribeTopics msg).map .unregister ++ [.send (unsubAck msg)])
    else none
  else if control >>> 4 = 12 then some [.send [13 <<< 4, 0]]
  else some []

section Reads
variable {msg : List Byte} {extra : ℕ} {qosLogged : Bool}

theorem entryAt_fits {o : ℕ} (h : EntryAt msg extra o)
    (hfit : entriesFit msg extra qosLogged msg.length 2 = true) :
    o + 1 + lengthAt msg o + qosLogged.toNat ≤ msg.length ∧
      ∃ turns, msg.length ≤ turns + 1 + o ∧
        entriesFit msg extra qosLogged turns (o + 2 + lengthAt msg o + extra) = true := by
  have hstep : ∀ {turns o : ℕ}, o < msg.length →
      entriesFit msg extra qosLogged (turns + 1) o = true →
      o + 1 + lengthAt msg o + qosLogged.toNat ≤ msg.length ∧
        entriesFit msg extra qosLogged turns (o + 2 + lengthAt msg o + extra) = true := by
    intro turns o ho h
    rw [entriesFit, if_pos ho, Bool.and_eq_true, decide_eq_true_eq] at h
    exact h
  induction h with
  | first h =>
    obtain ⟨turns, hturns⟩ : ∃ turns, msg.length = turns + 1 := ⟨msg.length - 1, by omega⟩
    rw [hturns] at hfit
    have hnow := hstep h hfit
    exact ⟨hnow.1, turns, by omega, hnow.2⟩
  | @next o before h ih =>
    obtain ⟨-, turns, hturns, hrest⟩ := ih
    obtain ⟨turns, rfl⟩ : ∃ k, turns = k + 1 := ⟨turns - 1, by omega⟩
    have hnow := hstep h hrest
    exact ⟨hnow.1, turns, by omega, hnow.2⟩

theorem entriesFit_of_entryAt (hfit : ∀ o, EntryAt msg extra o →
    o + 1 + lengthAt msg o + qosLogged.toNat ≤ msg.length) (turns : ℕ) {o : ℕ}
    (ho : o < msg.length → EntryAt msg extra o) :
    entriesFit msg extra qosLogged turns o = true := by
  induction turns generalizing o with
  | zero => rfl
  | succ turns ih =>
    rw [entriesFit]
    split
    · next hlt =>
      rw [decide_eq_true (hfit o (ho hlt)), Bool.true_and]
      exact ih fun h => .next (ho hlt) h
    · rfl

theorem entriesFit_iff :
    (1 ≤ msg.length ∧ entriesFit msg extra qosLogged msg.length 2 = true) ↔
      EntriesFit msg extra qosLogged := by
  refine and_congr_right fun _ => ⟨fun h o ho => (entryAt_fits ho h).1, fun h => ?_⟩
  exact entriesFit_of_entryAt h _ fun hlt => .first hlt

/-- What the thread does is defined if and only if all that it reads is in the array. -/
theorem handle_isSome_iff (logDebug : Bool) {m : Message} (h : m.2.length < 2 ^ 31) :
    (handle logDebug m).isSome ↔ ReadsInside logDebug m.1 m.2 := by
  have h32 : m.2.length < 2 ^ 32 := by omega
  have hne : m.2.length ≠ 2 ^ 32 - 1 := by omega
  have hlong : m.2.length < 2 ^ 31 + 2 := by omega
  rw [ReadsInside, handle]
  by_cases h3 : m.1 >>> 4 = 3
  · rw [if_neg (by rw [h3]; decide), if_pos h3, if_pos h3, publish_inside_iff _ h32,
      Option.isSome_ite]
    simp only [h, hne, ne_eq, not_false_eq_true, true_and, true_implies]
  · rw [if_neg h3, if_neg h3]
    by_cases h8 : m.1 >>> 4 = 8
    · rw [if_neg (by rw [h8]; decide), if_pos h8, if_pos h8, loop_inside_iff h32 le_rfl,
        Option.isSome_ite, entriesFit_iff]
      simp only [hlong, hne, ne_eq, not_false_eq_true, true_and, true_implies]
    · rw [if_neg h8, if_neg h8]
      by_cases h10 : m.1 >>> 4 = 10
      · rw [if_neg (by rw [h10]; decide), if_pos h10, if_pos h10,
          loop_inside_iff h32 zero_le_one, Option.isSome_ite, entriesFit_iff]
        simp only [hlong, hne, ne_eq, not_false_eq_true, true_and, true_implies]
      · rw [if_neg h10, if_neg h10]
        split_ifs <;> simp

end Reads

/-! ## The broker -/

/-- `mqtt_session_data` and its thread, which has `todo` to do before it goes on reading. -/
structure Session where
  input : Input
  msgsOut : List (List Byte)
  terminate : Bool
  todo : List Action
  /-- The loop is left, and the rest of the thread is in `todo`. -/
  leaving : Bool

def Session.start : Session := ⟨.start, [], false, [], false⟩

/-- The message lengths with which a thread that waits can go on when it sees `terminate`: the bytes
that it asked for are then not written, and those of an array are whatever was in the memory. -/
def announced : Wants → List ℕ
  | .control => [0]
  | .length _ len => [len.toNat, (len <<< 7).toNat]
  | .body _ len => [len.toNat]

/-- The message that it then has. -/
def lastMessage : Wants → List Byte → Message
  | .control, bytes => (0, bytes)
  | .length control _, bytes => (control, bytes)
  | .body control _, bytes => (control, bytes)

section Broker
variable {σ : Type}

/-- `publishing` is the owner of `topic_lck` in `publish`, and what it has still to queue. -/
structure State (σ : Type) where
  sessions : σ → Option Session
  subscriptions : Subscriptions σ
  publishing : Option (σ × List (σ × List Byte))

def start : State σ := ⟨fun _ => none, .empty, none⟩

inductive Event (σ : Type)
  /-- `mqtt_new_session`, at an address where there is no other session. -/
  | newSession (s : σ)
  | newData (s : σ) (chunk : List Byte)
  /-- A turn of the loop in `mqtt_get_bytes`. -/
  | recv (s : σ)
  /-- The thread does the next thing of a message. -/
  | act (s : σ)
  /-- The publisher queues the next message, or gives the lock back. -/
  | push
  /-- `mqtt_close_session_2` sets `terminate`. -/
  | close (s : σ)
  /-- The thread sees it; `bytes` is the memory of the array. -/
  | leave (s : σ) (bytes : List Byte)
  /-- `mqtt_close_session_2` has joined the thread. -/
  | delete (s : σ)

variable [LinearOrder σ]

/-- The messages that `publish` queues, in its order. -/
def pushes (subs : Subscriptions σ) (topic data : List Byte) : List (σ × List Byte) :=
  let msg := publishMessage topic data
  let all := fun sessions : Finset σ => (Registry.inOrder sessions).map fun s => (s, msg)
  (subs.topicSubscriptions.toList.flatMap fun e => if e.1 ≠ topic then [] else all e.2) ++
    subs.topicWcSubscriptions.flatMap fun e =>
      let wc := e.1.idxOf hash
      if topic.take wc ≠ e.1.take wc then [] else all e.2

def State.set (st : State σ) (s : σ) (x : Option Session) : State σ :=
  { st with sessions := Function.update st.sessions s x }

theorem State.set_sessions (st : State σ) (s : σ) (x : Option Session) :
    (st.set s x).sessions = Function.update st.sessions s x :=
  rfl

/-- The thread of `s` is in `publish`. -/
def State.publishes (st : State σ) (s : σ) : Bool := st.publishing.any fun p => p.1 = s

/-- What the thread of `s` does next. -/
def act (st : State σ) (s : σ) (x : Session) : Option (State σ × List (σ × List Byte)) :=
  match x.todo with
  | [] => none
  | .send bytes :: rest => some (st.set s (some { x with todo := rest }), [(s, bytes)])
  | .endSession :: rest => some (st.set s (some { x with todo := rest }), [])
  | .register topic :: rest =>
    if st.publishing = none then
      some ({ st.set s (some { x with todo := rest }) with
        subscriptions := st.subscriptions.registerTopic topic s }, [])
    else none
  | .unregister topic :: rest =>
    if st.publishing = none then
      some ({ st.set s (some { x with todo := rest }) with
        subscriptions := st.subscriptions.unregisterTopic topic s }, [])
    else none
  | .unregisterAll :: rest =>
    if st.publishing = none then
      some ({ st.set s (some { x with todo := rest }) with
        subscriptions := st.subscriptions.unregisterAllTopics s }, [])
    else none
  | .publish topic data :: rest =>
    if st.publishing = none then
      some ({ st.set s (some { x with todo := rest }) with
        publishing := some (s, pushes st.subscriptions topic data) }, [])
    else none

/-- An event, and the calls of `send_data` for the sessions. There is no next state if it cannot
happen, or is not defined. -/
def step (logDebug : Bool) (st : State σ) : Event σ → Option (State σ × List (σ × List Byte))
  | .newSession s =>
    match st.sessions s with
    | none => some (st.set s (some .start), [])
    | some _ => none
  | .newData s chunk =>
    match st.sessions s with
    | none => some (st, [])
    | some x => (inputStep x.input (.newData chunk)).map fun r =>
        (st.set s (some { x with input := r.1 }), [])
  | .recv s =>
    match st.sessions s with
    | none => none
    | some x =>
      if x.terminate ∨ x.leaving ∨ x.todo ≠ [] ∨ st.publishes s then none
      else do
        let r ← inputStep x.input .recv
        let todo ← r.2.mapM (handle logDebug)
        return (st.set s (some { x with input := r.1, msgsOut := [], todo := todo.flatten }),
          x.msgsOut.map (s, ·))
  | .act s =>
    match st.sessions s with
    | none => none
    | some x => if st.publishes s then none else act st s x
  | .push =>
    match st.publishing with
    | none => none
    | some (_, []) => some ({ st with publishing := none }, [])
    | some (s, (dst, msg) :: rest) =>
      match st.sessions dst with
      | none => none
      | some y => some ({ st.set dst (some { y with msgsOut := y.msgsOut ++ [msg] }) with
          publishing := some (s, rest) }, [])
  | .close s =>
    match st.sessions s with
    | none => none
    | some x => some (st.set s (some { x with terminate := true }), [])
  | .leave s bytes =>
    match st.sessions s with
    | none => none
    | some x =>
      if x.terminate = true ∧ x.leaving = false ∧ x.todo = [] ∧ st.publishes s = false ∧
          bytes.length ∈ announced x.input.wants then
        (handle logDebug (lastMessage x.input.wants bytes)).map fun acts =>
          (st.set s (some { x with
            todo := acts ++ [.unregisterAll, .endSession], leaving := true }), [])
      else none
  | .delete s =>
    match st.sessions s with
    | none => none
    | some x =>
      if x.leaving = true ∧ x.todo = [] ∧ st.publishes s = false then some (st.set s none, [])
      else none

/-! ## What happens in a run -/

abbrev Happening (σ : Type) := Move (State σ) (Event σ) (List (σ × List Byte))

/-- A call of the thread of `s` that takes `topic_lck`. -/
def Action.call (s : σ) : Action → Option (PubSub.Call (List Byte) (List Byte) σ (List Byte))
  | .register topic => some (.update (.join topic s))
  | .unregister topic => some (.update (.leave topic s))
  | .publish topic data => some (.publish s topic (publishMessage topic data))
  | .unregisterAll => some (.update (.leaveAll s))
  | .send _ => none
  | .endSession => none

/-- What the thread of `s` does next. -/
def State.next (st : State σ) (s : σ) : Option Action := (st.sessions s).bind (·.todo.head?)

/-- The bytes that come for `s`. -/
def bytesOf (s : σ) (m : Happening σ) : List Byte :=
  match m.event with
  | .newData s' chunk => if s' = s then chunk else []
  | _ => []

/-- What the thread of `s` does. -/
def doneOf (s : σ) (m : Happening σ) : List Action :=
  match m.event with
  | .act s' => if s' = s then (m.before.next s).toList else []
  | _ => []

/-- The queued messages that are sent to `s`. -/
def flushedOf (s : σ) (m : Happening σ) : List (List Byte) :=
  match m.event with
  | .recv s' => if s' = s then m.output.map Prod.snd else []
  | _ => []

def callOf (m : Happening σ) : Option (PubSub.Call (List Byte) (List Byte) σ (List Byte)) :=
  match m.event with
  | .act s => (m.before.next s).bind (Action.call s)
  | _ => none

def bytesTo (s : σ) (tr : List (Happening σ)) : List Byte := tr.flatMap (bytesOf s)

def done (s : σ) (tr : List (Happening σ)) : List Action := tr.flatMap (doneOf s)

def flushed (s : σ) (tr : List (Happening σ)) : List (List Byte) := tr.flatMap (flushedOf s)

/-- All calls, in the order in which they get the lock. -/
def log (tr : List (Happening σ)) : List (PubSub.Call (List Byte) (List Byte) σ (List Byte)) :=
  tr.filterMap callOf

/-- What the publisher has still to queue for `s`. -/
def pending (s : σ) (publishing : Option (σ × List (σ × List Byte))) : List (List Byte) :=
  match publishing with
  | none => []
  | some (_, ps) => (ps.filter fun p => p.1 = s).map Prod.snd

/-- The part of a run since the session that is now at `s` came. -/
def Since (s : σ) (tr pre post : List (Happening σ)) : Prop :=
  ∃ m, tr = pre ++ m :: post ∧ m.event = .newSession s ∧ ∀ m' ∈ post, m'.event ≠ .newSession s

/-- What the thread does when it has left its loop: something for a message of which the bytes were
not there, and the end. -/
def Ending (logDebug : Bool) (x : Session) (ending : List Action) : Prop :=
  if x.leaving then
    ∃ bytes acts, bytes.length ∈ announced x.input.wants ∧
      handle logDebug (lastMessage x.input.wants bytes) = some acts ∧
      ending = acts ++ [.unregisterAll, .endSession]
  else ending = []

/-- The session whose thread takes bytes. -/
def takes (m : Happening σ) : Option Session :=
  match m.event with
  | .recv s => m.before.sessions s
  | _ => none

/-- A thread that takes bytes finds fewer than 2^31 behind them. -/
def Fine (m : Happening σ) : Prop := ∀ x ∈ takes m, Manageable x.input

instance : DecidablePred (Fine (σ := σ)) := fun m =>
  inferInstanceAs (Decidable (∀ x ∈ takes m, Manageable x.input))

section Histories
variable {s : σ} {tr : List (Happening σ)} {m : Happening σ}

theorem bytesTo_snoc : bytesTo s (tr ++ [m]) = bytesTo s tr ++ bytesOf s m := by
  simp [bytesTo]

theorem done_snoc : done s (tr ++ [m]) = done s tr ++ doneOf s m := by
  simp [done]

theorem flushed_snoc : flushed s (tr ++ [m]) = flushed s tr ++ flushedOf s m := by
  simp [flushed]

omit [LinearOrder σ] in
theorem log_snoc : log (tr ++ [m]) = log tr ++ (callOf m).toList := by
  cases h : callOf m <;> simp [log, h]

omit [LinearOrder σ] in
theorem log_quiet (h : callOf m = none) : log (tr ++ [m]) = log tr := by
  rw [log_snoc, h, Option.toList_none, List.append_nil]

omit [LinearOrder σ] in
theorem Since.snoc {pre post : List (Happening σ)} (h : Since s tr pre post)
    (hm : m.event ≠ .newSession s) : Since s (tr ++ [m]) pre (post ++ [m]) := by
  obtain ⟨m', rfl, hfirst, hafter⟩ := h
  refine ⟨m', by simp, hfirst, ?_⟩
  intro m'' hm''
  obtain hm'' | hm'' := List.mem_append.mp hm''
  · exact hafter m'' hm''
  · obtain rfl := List.mem_singleton.mp hm''
    exact hm

omit [LinearOrder σ] in
/-- A new session calls nothing. -/
theorem Since.log {pre post : List (Happening σ)} (h : Since s tr pre post) :
    log tr = log pre ++ log post := by
  obtain ⟨m, rfl, hm, -⟩ := h
  have hnone : callOf m = none := by rw [callOf, hm]
  rw [Broker.log, List.filterMap_append, List.filterMap_cons_none hnone]
  rfl

end Histories

/-! ## One publication -/

section Pushes
variable (subs : Subscriptions σ) (topic data : List Byte)

/-- The two loops are one over all entries. -/
theorem pushes_eq : pushes subs topic data = subs.entries.flatMap fun e =>
    if Covers e.1 topic then
      (Registry.inOrder e.2).map fun s => (s, publishMessage topic data) else [] := by
  rw [pushes, entries, List.flatMap_append]
  congr 1
  · refine List.flatMap_congr fun e he => ?_
    have hplain : hash ∉ e.1 := subs.plain e.1 (by
      rw [← Std.TreeMap.mem_keys, ← Std.TreeMap.map_fst_toList_eq_keys]
      exact List.mem_map_of_mem he)
    by_cases h : e.1 = topic
    · rw [if_neg (not_not.mpr h), if_pos ((covers_plain hplain topic).mpr h)]
    · rw [if_pos h, if_neg fun hc => h ((covers_plain hplain topic).mp hc)]
  · refine List.flatMap_congr fun e he => ?_
    have hwild := covers_wild (subs.wild e.1 (List.mem_map_of_mem he)) topic
    by_cases h : topic.take (e.1.idxOf hash) = e.1.take (e.1.idxOf hash)
    · rw [if_neg (not_not.mpr h), if_pos (hwild.mpr h)]
    · rw [if_pos h, if_neg fun hc => h (hwild.mp hc)]

theorem mem_pushes {p : σ × List Byte} (h : p ∈ pushes subs topic data) :
    ∃ filter, subs.Holds filter p.1 := by
  rw [pushes_eq, List.mem_flatMap] at h
  obtain ⟨e, he, hp⟩ := h
  split at hp
  · obtain ⟨s, hs, rfl⟩ := List.mem_map.mp hp
    exact ⟨e.1, e.2, he, Registry.mem_inOrder.mp hs⟩
  · cases hp

/-- The messages for `s` are one for each of its filters that cover the topic. -/
theorem pending_pushes (owner s : σ) :
    pending s (some (owner, pushes subs topic data)) =
      List.replicate (Registry.memberKeys (fun filter => decide (Covers filter topic))
        subs.entries s).length (publishMessage topic data) := by
  rw [pending, pushes_eq]
  induction subs.entries with
  | nil => rfl
  | cons e es ih =>
    have hone : (((Registry.inOrder e.2).map fun s => (s, publishMessage topic data)).filter
        fun p => p.1 = s).map Prod.snd = if s ∈ e.2 then [publishMessage topic data] else [] := by
      rw [List.filter_map, List.map_map]
      have hcount : (Registry.inOrder e.2).filter (fun a => decide (a = s)) =
          if s ∈ e.2 then [s] else [] := by
        rw [List.filter_eq, (Registry.inOrder_nodup _).count]
        simp only [Registry.mem_inOrder]
        split <;> rfl
      simp only [Function.comp_def, hcount]
      split <;> rfl
    have hkeys : Registry.memberKeys (fun filter => decide (Covers filter topic)) (e :: es) s =
        (if Covers e.1 topic ∧ s ∈ e.2 then [e.1] else []) ++
          Registry.memberKeys (fun filter => decide (Covers filter topic)) es s := by
      rw [Registry.memberKeys, List.filter_cons]
      by_cases h : Covers e.1 topic ∧ s ∈ e.2
      · rw [if_pos (by simp [h]), if_pos h]
        rfl
      · rw [if_neg (by simpa using h), if_neg h]
        rfl
    rw [List.flatMap_cons, List.filter_append, List.map_append, ih, hkeys, List.length_append,
      List.replicate_add]
    congr 1
    by_cases hc : Covers e.1 topic
    · rw [if_pos hc, hone]
      by_cases hs : s ∈ e.2 <;> simp [hc, hs]
    · simp [hc]

end Pushes

/-! ## What a step can do -/

/-- What an action of the thread of `s` does to what the threads share. -/
inductive Effect (s : σ) (a : Action) (st st' : State σ) : Prop
  | quiet (call : a.call s = none) (subs : st'.subscriptions = st.subscriptions)
      (lock : st'.publishing = st.publishing)
  | update (e : Registry.Event (List Byte) σ) (call : a.call s = some (.update e))
      (free : st.publishing = none) (subs : st'.subscriptions = st.subscriptions.step e)
      (lock : st'.publishing = none)
  | publish (topic data : List Byte) (action : a = .publish topic data)
      (free : st.publishing = none) (subs : st'.subscriptions = st.subscriptions)
      (lock : st'.publishing = some (s, pushes st.subscriptions topic data))

inductive Change (logDebug : Bool) (st : State σ) : Event σ → State σ → List (σ × List Byte) → Prop
  | born {s : σ} (absent : st.sessions s = none) :
      Change logDebug st (.newSession s) (st.set s (some .start)) []
  | nobody {s : σ} {chunk : List Byte} (absent : st.sessions s = none) :
      Change logDebug st (.newData s chunk) st []
  | received {s : σ} {chunk : List Byte} {x : Session} (there : st.sessions s = some x) :
      Change logDebug st (.newData s chunk)
        (st.set s (some { x with input := ⟨x.input.data ++ chunk, x.input.wants⟩ })) []
  | took {s : σ} {x : Session} {input : Input} {ms : List Message} {plan : List (List Action)}
      (there : st.sessions s = some x) (inside : x.leaving = false) (idle : x.todo = [])
      (taken : inputStep x.input .recv = some (input, ms))
      (planned : ms.mapM (handle logDebug) = some plan) :
      Change logDebug st (.recv s)
        (st.set s (some { x with input := input, msgsOut := [], todo := plan.flatten }))
        (x.msgsOut.map (s, ·))
  | acted {s : σ} {x : Session} {a : Action} {rest : List Action} {st' : State σ}
      {o : List (σ × List Byte)} (there : st.sessions s = some x) (todo : x.todo = a :: rest)
      (sessions : st'.sessions = Function.update st.sessions s (some { x with todo := rest }))
      (effect : Effect s a st st') : Change logDebug st (.act s) st' o
  | queued {owner dst : σ} {msg : List Byte} {rest : List (σ × List Byte)} {y : Session}
      (lock : st.publishing = some (owner, (dst, msg) :: rest)) (there : st.sessions dst = some y) :
      Change logDebug st .push { st.set dst (some { y with msgsOut := y.msgsOut ++ [msg] }) with
        publishing := some (owner, rest) } []
  | unlocked {owner : σ} (lock : st.publishing = some (owner, [])) :
      Change logDebug st .push { st with publishing := none } []
  | closed {s : σ} {x : Session} (there : st.sessions s = some x) :
      Change logDebug st (.close s) (st.set s (some { x with terminate := true })) []
  | left {s : σ} {x : Session} {bytes : List Byte} {acts : List Action}
      (there : st.sessions s = some x) (inside : x.leaving = false) (idle : x.todo = [])
      (length : bytes.length ∈ announced x.input.wants)
      (handled : handle logDebug (lastMessage x.input.wants bytes) = some acts) :
      Change logDebug st (.leave s bytes) (st.set s (some { x with
        todo := acts ++ [.unregisterAll, .endSession], leaving := true })) []
  | deleted {s : σ} {x : Session} (there : st.sessions s = some x) (outside : x.leaving = true)
      (idle : x.todo = []) : Change logDebug st (.delete s) (st.set s none) []

theorem act_change {logDebug : Bool} {st st' : State σ} {s : σ} {x : Session}
    {o : List (σ × List Byte)} (there : st.sessions s = some x) (h : act st s x = some (st', o)) :
    Change logDebug st (.act s) st' o := by
  cases htodo : x.todo with
  | nil => simp [act, htodo] at h
  | cons a rest =>
    rw [act, htodo] at h
    cases a with
    | send bytes =>
      obtain ⟨rfl, -⟩ := Prod.mk.inj (Option.some.inj h)
      exact .acted there htodo rfl (.quiet rfl rfl rfl)
    | endSession =>
      obtain ⟨rfl, -⟩ := Prod.mk.inj (Option.some.inj h)
      exact .acted there htodo rfl (.quiet rfl rfl rfl)
    | register topic =>
      obtain ⟨free, h⟩ := Option.ite_none_right_eq_some.mp h
      obtain ⟨rfl, -⟩ := Prod.mk.inj (Option.some.inj h)
      exact .acted there htodo rfl (.update _ rfl free rfl free)
    | unregister topic =>
      obtain ⟨free, h⟩ := Option.ite_none_right_eq_some.mp h
      obtain ⟨rfl, -⟩ := Prod.mk.inj (Option.some.inj h)
      exact .acted there htodo rfl (.update _ rfl free rfl free)
    | unregisterAll =>
      obtain ⟨free, h⟩ := Option.ite_none_right_eq_some.mp h
      obtain ⟨rfl, -⟩ := Prod.mk.inj (Option.some.inj h)
      exact .acted there htodo rfl (.update _ rfl free rfl free)
    | publish topic data =>
      obtain ⟨free, h⟩ := Option.ite_none_right_eq_some.mp h
      obtain ⟨rfl, -⟩ := Prod.mk.inj (Option.some.inj h)
      exact .acted there htodo rfl (.publish topic data rfl free rfl rfl)

theorem step_change {logDebug : Bool} {st st' : State σ} {e : Event σ} {o : List (σ × List Byte)}
    (h : step logDebug st e = some (st', o)) : Change logDebug st e st' o := by
  cases e with
  | newSession s =>
    cases hs : st.sessions s with
    | none =>
      simp only [step, hs] at h
      obtain ⟨rfl, rfl⟩ := Prod.mk.inj (Option.some.inj h)
      exact .born hs
    | some x => simp [step, hs] at h
  | newData s chunk =>
    cases hs : st.sessions s with
    | none =>
      simp only [step, hs] at h
      obtain ⟨rfl, rfl⟩ := Prod.mk.inj (Option.some.inj h)
      exact .nobody hs
    | some x =>
      simp only [step, hs, inputStep, Option.map_some] at h
      obtain ⟨rfl, rfl⟩ := Prod.mk.inj (Option.some.inj h)
      exact .received hs
  | recv s =>
    cases hs : st.sessions s with
    | none => simp [step, hs] at h
    | some x =>
      simp only [step, hs] at h
      split at h
      · cases h
      · next hready =>
        simp only [not_or, Bool.not_eq_true, ne_eq, not_not] at hready
        obtain ⟨⟨input, ms⟩, taken, h⟩ := Option.bind_eq_some_iff.mp h
        obtain ⟨plan, planned, h⟩ := Option.bind_eq_some_iff.mp h
        obtain ⟨rfl, rfl⟩ := Prod.mk.inj (Option.some.inj h)
        exact .took hs hready.2.1 hready.2.2.1 taken planned
  | act s =>
    cases hs : st.sessions s with
    | none => simp [step, hs] at h
    | some x =>
      simp only [step, hs] at h
      split at h
      · cases h
      · exact act_change hs h
  | push =>
    cases hlock : st.publishing with
    | none => simp [step, hlock] at h
    | some p =>
      obtain ⟨owner, ps⟩ := p
      cases ps with
      | nil =>
        simp only [step, hlock] at h
        obtain ⟨rfl, rfl⟩ := Prod.mk.inj (Option.some.inj h)
        exact .unlocked hlock
      | cons q rest =>
        cases hs : st.sessions q.1 with
        | none => simp [step, hlock, hs] at h
        | some y =>
          simp only [step, hlock, hs] at h
          obtain ⟨rfl, rfl⟩ := Prod.mk.inj (Option.some.inj h)
          exact .queued hlock hs
  | close s =>
    cases hs : st.sessions s with
    | none => simp [step, hs] at h
    | some x =>
      simp only [step, hs] at h
      obtain ⟨rfl, rfl⟩ := Prod.mk.inj (Option.some.inj h)
      exact .closed hs
  | leave s bytes =>
    cases hs : st.sessions s with
    | none => simp [step, hs] at h
    | some x =>
      simp only [step, hs] at h
      obtain ⟨⟨-, inside, idle, -, hlength⟩, h⟩ := Option.ite_none_right_eq_some.mp h
      obtain ⟨acts, handled, h⟩ := Option.map_eq_some_iff.mp h
      obtain ⟨rfl, rfl⟩ := Prod.mk.inj h
      exact .left hs inside idle hlength handled
  | delete s =>
    cases hs : st.sessions s with
    | none => simp [step, hs] at h
    | some x =>
      simp only [step, hs] at h
      obtain ⟨⟨outside, idle, -⟩, h⟩ := Option.ite_none_right_eq_some.mp h
      obtain ⟨rfl, rfl⟩ := Prod.mk.inj (Option.some.inj h)
      exact .deleted hs outside idle

/-! ## What every step keeps -/

/-- The session `s` is there, and if its thread has left the loop, it has still to unregister. -/
def Registered (st : State σ) (s : σ) : Prop :=
  ∃ x, st.sessions s = some x ∧ (x.leaving = true → .unregisterAll ∈ x.todo)

/-- The thread of `x` has done what the messages mean that it took, and still has `todo` to do. -/
structure Acts (logDebug : Bool) (s : σ) (post : List (Happening σ)) (x : Session)
    (got : List Message) (plan : List (List Action)) (ending : List Action) : Prop where
  framing : TakenOver (bytesTo s post) got x.input
  planned : got.mapM (handle logDebug) = some plan
  last : Ending logDebug x ending
  order : done s post ++ x.todo = plan.flatten ++ ending

/-- What came to `s` and what is on its way is what it is owed. -/
def Queued (s : σ) (pre post : List (Happening σ)) (x : Session)
    (publishing : Option (σ × List (σ × List Byte))) : Prop :=
  flushed s post ++ x.msgsOut ++ pending s publishing =
    PubSub.owed Covers s (PubSub.updates (log pre)) (log post)

def Life (logDebug : Bool) (tr : List (Happening σ)) (st : State σ) (s : σ) (x : Session) : Prop :=
  ∃ pre post, Since s tr pre post ∧
    (∃ got plan ending, Acts logDebug s post x got plan ending) ∧ Queued s pre post x st.publishing

structure Inv (logDebug : Bool) (tr : List (Happening σ)) (st : State σ) : Prop where
  store : st.subscriptions = Subscriptions.after (PubSub.updates (log tr))
  members : ∀ filter s, st.subscriptions.Holds filter s → Registered st s
  targets : ∀ owner ps, st.publishing = some (owner, ps) → ∀ p ∈ ps, Registered st p.1
  lives : ∀ s x, st.sessions s = some x → Life logDebug tr st s x

section Steps
variable {logDebug : Bool} {tr pre post : List (Happening σ)} {st st' : State σ} {s : σ}
  {x : Session} {m : Happening σ}

theorem Queued.snoc {publishing publishing' : Option (σ × List (σ × List Byte))} {x' : Session}
    (h : Queued s pre post x publishing)
    (now : flushedOf s m ++ x'.msgsOut ++ pending s publishing' =
      x.msgsOut ++ pending s publishing ++ (callOf m).toList.flatMap
        (PubSub.share Covers s (PubSub.updates (log pre) ++ PubSub.updates (log post)))) :
    Queued s pre (post ++ [m]) x' publishing' := by
  rw [Queued] at h ⊢
  have hcall : PubSub.owed Covers s (PubSub.updates (log pre)) (log (post ++ [m])) =
      PubSub.owed Covers s (PubSub.updates (log pre)) (log post) ++ (callOf m).toList.flatMap
        (PubSub.share Covers s (PubSub.updates (log pre) ++ PubSub.updates (log post))) := by
    rw [log_snoc]
    cases callOf m with
    | none => simp
    | some c => simpa using PubSub.owed_snoc Covers s (PubSub.updates (log pre)) (log post) c
  rw [flushed_snoc, hcall, ← h]
  simpa only [List.append_assoc, List.append_cancel_left_eq] using now

theorem Acts.same {got : List Message} {plan : List (List Action)} {ending : List Action}
    {x' : Session} (h : Acts logDebug s post x got plan ending) (input : x'.input = x.input)
    (todo : x'.todo = x.todo) (leaving : x'.leaving = x.leaving) (hbytes : bytesOf s m = [])
    (hdone : doneOf s m = []) : Acts logDebug s (post ++ [m]) x' got plan ending := by
  obtain ⟨framing, planned, last, order⟩ := h
  refine ⟨?_, planned, ?_, ?_⟩
  · rw [bytesTo_snoc, hbytes, List.append_nil, input]
    exact framing
  · rw [Ending, leaving, input]
    exact last
  · rw [done_snoc, hdone, List.append_nil, todo, order]

theorem Life.snoc {x' : Session} (h : Life logDebug tr st s x) (notNew : m.event ≠ .newSession s)
    (hacts : ∀ post got plan ending, Acts logDebug s post x got plan ending →
      ∃ got' plan' ending', Acts logDebug s (post ++ [m]) x' got' plan' ending')
    (hqueued : flushedOf s m ++ x'.msgsOut ++ pending s st'.publishing =
      x.msgsOut ++ pending s st.publishing ++
        (callOf m).toList.flatMap (PubSub.share Covers s (PubSub.updates (log tr)))) :
    Life logDebug (tr ++ [m]) st' s x' := by
  obtain ⟨pre, post, since, ⟨got, plan, ending, h⟩, hq⟩ := h
  rw [since.log, PubSub.updates_append] at hqueued
  exact ⟨pre, post ++ [m], since.snoc notNew, hacts post got plan ending h, hq.snoc hqueued⟩

/-- The session that an event is about. -/
def Event.session : Event σ → Option σ
  | .newSession s => some s
  | .newData s _ => some s
  | .recv s => some s
  | .act s => some s
  | .push => none
  | .close s => some s
  | .leave s _ => some s
  | .delete s => some s

omit [LinearOrder σ] in
theorem notNew_of_session (h : m.event.session ≠ some s) : m.event ≠ .newSession s := by
  intro hm
  rw [hm] at h
  exact h rfl

theorem nothing_of_session (h : m.event.session ≠ some s) :
    bytesOf s m = [] ∧ doneOf s m = [] ∧ flushedOf s m = [] := by
  obtain ⟨before, e, o⟩ := m
  cases e <;> simp_all [bytesOf, doneOf, flushedOf, Event.session]

/-- Something that `s` has no part in. -/
theorem Life.other (h : Life logDebug tr st s x) (elsewhere : m.event.session ≠ some s)
    (hpending : pending s st'.publishing = pending s st.publishing ++
      (callOf m).toList.flatMap (PubSub.share Covers s (PubSub.updates (log tr)))) :
    Life logDebug (tr ++ [m]) st' s x := by
  obtain ⟨hbytes, hdone, hflushed⟩ := nothing_of_session elsewhere
  refine h.snoc (notNew_of_session elsewhere) ?_ ?_
  · intro post got plan ending hacts
    exact ⟨got, plan, ending, hacts.same rfl rfl rfl hbytes hdone⟩
  · rw [hflushed, hpending, List.nil_append, List.append_assoc]

/-- What is registered stays so, if a thread that has left its loop does not lose sight of it. -/
theorem Registered.of_update {s' : σ} {x' : Session} (h : Registered st s')
    (there : st.sessions s = some x)
    (sessions : st'.sessions = Function.update st.sessions s (some x'))
    (keeps : s' = s → (x.leaving = true → .unregisterAll ∈ x.todo) →
      x'.leaving = true → .unregisterAll ∈ x'.todo) : Registered st' s' := by
  obtain ⟨y, hy, hleaving⟩ := h
  by_cases hs : s' = s
  · subst hs
    obtain rfl := Option.some.inj (hy.symm.trans there)
    exact ⟨x', by rw [sessions, Function.update_self], keeps rfl hleaving⟩
  · exact ⟨y, by rw [sessions, Function.update_of_ne hs, hy], hleaving⟩

/-- The rule for a step that changes one session and, of what is shared, nothing. -/
theorem Inv.one {x' : Session} (h : Inv logDebug tr st) (there : st.sessions s = some x)
    (sessions : st'.sessions = Function.update st.sessions s (some x'))
    (subs : st'.subscriptions = st.subscriptions) (lock : st'.publishing = st.publishing)
    (about : m.event.session = some s) (call : callOf m = none)
    (keeps : (x.leaving = true → .unregisterAll ∈ x.todo) →
      x'.leaving = true → .unregisterAll ∈ x'.todo)
    (life : Life logDebug tr st s x → Life logDebug (tr ++ [m]) st' s x') :
    Inv logDebug (tr ++ [m]) st' := by
  constructor
  · rw [subs, log_snoc, call, Option.toList_none, List.append_nil, h.store]
  · intro filter s' hholds
    rw [subs] at hholds
    exact (h.members filter s' hholds).of_update there sessions fun _ => keeps
  · intro owner ps hps p hp
    rw [lock] at hps
    exact (h.targets owner ps hps p hp).of_update there sessions fun _ => keeps
  · intro s' y hy
    rw [sessions] at hy
    by_cases hs : s' = s
    · subst hs
      rw [Function.update_self] at hy
      obtain rfl := Option.some.inj hy
      exact life (h.lives s' x there)
    · rw [Function.update_of_ne hs] at hy
      refine (h.lives s' y hy).other ?_ ?_
      · rw [about]
        exact fun he => hs (Option.some.inj he).symm
      · rw [lock, call, Option.toList_none, List.flatMap_nil, List.append_nil]

/-! ### Actions -/

/-- A thread that has left its loop unregisters last, and ends. -/
theorem Acts.unregisters {got : List Message} {plan : List (List Action)}
    {ending rest : List Action} {a : Action} (h : Acts logDebug s post x got plan ending)
    (todo : x.todo = a :: rest) (ha : a ≠ .unregisterAll) (ha' : a ≠ .endSession)
    (outside : x.leaving = true) : .unregisterAll ∈ rest := by
  have hlast := h.last
  rw [Ending, if_pos outside] at hlast
  obtain ⟨bytes, acts, -, -, rfl⟩ := hlast
  have horder := h.order
  rw [todo, ← List.append_assoc,
    show [Action.unregisterAll, .endSession] = [.unregisterAll] ++ [.endSession] from rfl,
    ← List.append_assoc] at horder
  obtain rfl | ⟨front, last, rfl⟩ := List.eq_nil_or_concat rest
  · exact absurd (List.singleton_inj.mp (List.append_inj' horder rfl).2) ha'
  · rw [List.concat_eq_append, ← List.cons_append, ← List.append_assoc] at horder
    have hfront := (List.append_inj' horder rfl).1
    obtain rfl | ⟨front, last', rfl⟩ := List.eq_nil_or_concat front
    · exact absurd (List.singleton_inj.mp (List.append_inj' hfront rfl).2) ha
    · rw [List.concat_eq_append, ← List.cons_append, ← List.append_assoc] at hfront
      obtain rfl := List.singleton_inj.mp (List.append_inj' hfront rfl).2
      simp

theorem Acts.did {got : List Message} {plan : List (List Action)} {ending rest : List Action}
    {a : Action} (h : Acts logDebug s post x got plan ending) (todo : x.todo = a :: rest)
    (hbytes : bytesOf s m = []) (hdone : doneOf s m = [a]) :
    Acts logDebug s (post ++ [m]) { x with todo := rest } got plan ending := by
  obtain ⟨framing, planned, last, order⟩ := h
  refine ⟨?_, planned, last, ?_⟩
  · rw [bytesTo_snoc, hbytes, List.append_nil]
    exact framing
  · rw [done_snoc, hdone, List.append_assoc, ← order, todo]
    rfl

/-- What a call adds to what is on its way. -/
theorem Effect.pending {a : Action} (h : Inv logDebug tr st) (effect : Effect s a st st') (s' : σ) :
    pending s' st'.publishing = pending s' st.publishing ++
      (a.call s).toList.flatMap (PubSub.share Covers s' (PubSub.updates (log tr))) := by
  cases effect with
  | quiet call subs lock => rw [lock, call, Option.toList_none, List.flatMap_nil, List.append_nil]
  | update e call free subs lock =>
    rw [lock, free, call]
    rfl
  | publish topic data action free subs lock =>
    subst action
    have hholds : ∀ filter, Registry.Held st.subscriptions.entries filter s' ↔
        Registry.Current (PubSub.updates (log tr)) filter s' := by
      intro filter
      rw [h.store]
      exact holds_after _ filter s'
    have hcopies : PubSub.copies Covers (PubSub.updates (log tr)) s' topic =
        (Registry.memberKeys (fun filter => decide (Covers filter topic))
          st.subscriptions.entries s').length :=
      PubSub.copies_eq_length (fun filter => decide_eq_true_iff)
        st.subscriptions.nodup_keys_entries hholds
    rw [lock, free, pending_pushes, ← hcopies]
    simp [Action.call, PubSub.share, Broker.pending]

theorem Effect.store {a : Action} (h : Inv logDebug tr st) (effect : Effect s a st st')
    (hcall : callOf m = a.call s) :
    st'.subscriptions = Subscriptions.after (PubSub.updates (log (tr ++ [m]))) := by
  rw [log_snoc, PubSub.updates_append, hcall]
  cases effect with
  | quiet call subs lock => rw [subs, h.store, call]; simp [PubSub.updates]
  | update e call free subs lock =>
    rw [subs, h.store, call]
    simp [PubSub.updates, Subscriptions.after, PubSub.Call.event]
  | publish topic data action free subs lock =>
    subst action
    rw [subs, h.store]
    show _ = Subscriptions.after (PubSub.updates (log tr) ++ [])
    rw [List.append_nil]

/-- Whoever is in the containers is there. -/
theorem Effect.members {a : Action} {rest : List Action} (h : Inv logDebug tr st)
    (effect : Effect s a st st') (there : st.sessions s = some x) (todo : x.todo = a :: rest)
    (sessions : st'.sessions = Function.update st.sessions s (some { x with todo := rest }))
    {filter : List Byte} {s' : σ} (holds : st'.subscriptions.Holds filter s') :
    Registered st' s' := by
  have hkeeps : a ≠ .unregisterAll → Registered st s' → Registered st' s' := by
    intro ha hreg
    refine hreg.of_update there sessions fun _ hleaving outside => ?_
    have hmem := hleaving outside
    rw [todo] at hmem
    exact (List.mem_cons.mp hmem).resolve_left (Ne.symm ha)
  cases effect with
  | quiet call subs lock =>
    rw [subs] at holds
    exact hkeeps (by rintro rfl; cases call) (h.members filter s' holds)
  | publish topic data action free subs lock =>
    rw [subs] at holds
    exact hkeeps (by rw [action]; simp) (h.members filter s' holds)
  | update e call free subs lock =>
    rw [subs, holds_step] at holds
    obtain rfl | ⟨holds, -, hall⟩ := holds
    · -- the session registers itself, and still has to unregister if it leaves
      have hregister : a = .register filter ∧ s' = s := by
        cases a <;> simp_all [Action.call]
      obtain ⟨rfl, rfl⟩ := hregister
      obtain ⟨pre, post, -, ⟨got, plan, ending, hacts⟩, -⟩ := h.lives s' x there
      refine ⟨{ x with todo := rest }, by rw [sessions, Function.update_self], fun outside => ?_⟩
      exact hacts.unregisters todo (by simp) (by simp) outside
    · by_cases ha : a = .unregisterAll
      · subst ha
        have hs : s' ≠ s := by
          rintro rfl
          obtain rfl := PubSub.Call.update.inj (Option.some.inj call)
          exact hall rfl
        exact (h.members filter s' holds).of_update there sessions fun hs' => absurd hs' hs
      · exact hkeeps ha (h.members filter s' holds)

theorem Effect.targets {a : Action} {rest : List Action} (h : Inv logDebug tr st)
    (effect : Effect s a st st') (there : st.sessions s = some x) (todo : x.todo = a :: rest)
    (sessions : st'.sessions = Function.update st.sessions s (some { x with todo := rest }))
    {owner : σ} {ps : List (σ × List Byte)} (lock : st'.publishing = some (owner, ps))
    {p : σ × List Byte} (hp : p ∈ ps) : Registered st' p.1 := by
  cases effect with
  | quiet call subs lock' =>
    rw [lock'] at lock
    refine (h.targets owner ps lock p hp).of_update there sessions fun _ hleaving outside => ?_
    have hmem := hleaving outside
    rw [todo] at hmem
    refine (List.mem_cons.mp hmem).resolve_left ?_
    rintro rfl
    cases call
  | update e call free subs lock' =>
    rw [lock'] at lock
    cases lock
  | publish topic data action free subs lock' =>
    rw [lock'] at lock
    obtain ⟨rfl, rfl⟩ := Prod.mk.inj (Option.some.inj lock)
    obtain ⟨filter, holds⟩ := mem_pushes _ _ _ hp
    rw [← subs] at holds
    exact (Effect.publish topic data action free subs lock').members h there todo sessions holds

theorem Inv.acted {a : Action} {rest : List Action} (h : Inv logDebug tr st)
    (there : st.sessions s = some x) (todo : x.todo = a :: rest)
    (sessions : st'.sessions = Function.update st.sessions s (some { x with todo := rest }))
    (effect : Effect s a st st') (o : List (σ × List Byte)) :
    Inv logDebug (tr ++ [⟨st, .act s, o⟩]) st' := by
  have hnext : st.next s = some a := by
    rw [State.next, there, Option.bind_some, todo]
    rfl
  have hcall : callOf ⟨st, .act s, o⟩ = a.call s := congrArg (·.bind (Action.call s)) hnext
  refine ⟨effect.store h hcall, fun filter s' => effect.members h there todo sessions,
    fun owner ps lock p => effect.targets h there todo sessions lock, ?_⟩
  intro s' y hy
  rw [sessions] at hy
  have hpending := effect.pending h s'
  by_cases hs : s' = s
  · subst hs
    rw [Function.update_self] at hy
    obtain rfl := Option.some.inj hy
    refine (h.lives s' x there).snoc (by simp) ?_ ?_
    · intro post got plan ending hacts
      exact ⟨got, plan, ending, hacts.did todo rfl (by simp [doneOf, hnext])⟩
    · rw [hcall, hpending]
      simp [flushedOf]
  · rw [Function.update_of_ne hs] at hy
    refine (h.lives s' y hy).other ?_ (hcall ▸ hpending)
    simpa [Event.session] using Ne.symm hs

/-! ### The other steps -/

theorem Inv.born (h : Inv logDebug tr st) (absent : st.sessions s = none)
    (o : List (σ × List Byte)) :
    Inv logDebug (tr ++ [⟨st, .newSession s, o⟩]) (st.set s (some .start)) := by
  have hlog : log (tr ++ [⟨st, .newSession s, o⟩]) = log tr := log_quiet rfl
  have hkeeps : ∀ {s'}, Registered st s' → Registered (st.set s (some .start)) s' := by
    rintro s' ⟨y, hy, hleaving⟩
    have hs : s' ≠ s := by
      rintro rfl
      rw [absent] at hy
      cases hy
    exact ⟨y, by rw [State.set_sessions, Function.update_of_ne hs, hy], hleaving⟩
  refine ⟨by rw [hlog]; exact h.store, fun filter s' holds => hkeeps (h.members filter s' holds),
    fun owner ps lock p hp => hkeeps (h.targets owner ps lock p hp), ?_⟩
  intro s' y hy
  rw [State.set_sessions] at hy
  by_cases hs : s' = s
  · subst hs
    rw [Function.update_self] at hy
    obtain rfl := Option.some.inj hy
    have hnone : pending s' st.publishing = [] := by
      cases hlock : st.publishing with
      | none => rfl
      | some p =>
        rw [pending, List.map_eq_nil_iff, List.filter_eq_nil_iff]
        intro q hq hdst
        obtain ⟨z, hz, -⟩ := h.targets p.1 p.2 hlock q hq
        rw [of_decide_eq_true hdst, absent] at hz
        cases hz
    refine ⟨tr, [], ⟨_, rfl, rfl, by simp⟩,
      ⟨[], [], [], takenOver_start, rfl, ?_, rfl⟩, ?_⟩
    · rw [Ending, if_neg (by simp [Session.start])]
    · show [] ++ [] ++ pending s' st.publishing = []
      rw [hnone]
      rfl
  · rw [Function.update_of_ne hs] at hy
    refine (h.lives s' y hy).other ?_ (List.append_nil _).symm
    simpa [Event.session] using Ne.symm hs

theorem Inv.received (h : Inv logDebug tr st) (there : st.sessions s = some x) (chunk : List Byte)
    (o : List (σ × List Byte)) : Inv logDebug (tr ++ [⟨st, .newData s chunk, o⟩])
      (st.set s (some { x with input := ⟨x.input.data ++ chunk, x.input.wants⟩ })) := by
  refine h.one there rfl rfl rfl rfl rfl id fun life => life.snoc (by simp) ?_ ?_
  · rintro post got plan ending ⟨framing, planned, last, order⟩
    have hbytes : bytesOf s ⟨st, .newData s chunk, o⟩ = chunk := by simp [bytesOf]
    refine ⟨got, plan, ending, ?_, planned, last, ?_⟩
    · rw [bytesTo_snoc, hbytes]
      exact framing.newData chunk
    · rw [done_snoc]
      simpa [doneOf] using order
  · simp [flushedOf, callOf, State.set]

theorem Inv.took {input : Input} {ms : List Message} {plan : List (List Action)}
    (h : Inv logDebug tr st) (there : st.sessions s = some x) (inside : x.leaving = false)
    (idle : x.todo = []) (manageable : Manageable x.input)
    (taken : inputStep x.input .recv = some (input, ms))
    (planned : ms.mapM (handle logDebug) = some plan) :
    Inv logDebug (tr ++ [⟨st, .recv s, x.msgsOut.map (s, ·)⟩])
      (st.set s (some { x with input := input, msgsOut := [], todo := plan.flatten })) := by
  refine h.one there rfl rfl rfl rfl rfl ?_ fun life => life.snoc (by simp) ?_ ?_
  · intro _ outside
    rw [inside] at outside
    cases outside
  · rintro post got before ending ⟨framing, hbefore, last, order⟩
    rw [Ending, if_neg (by rw [inside]; simp)] at last
    subst last
    refine ⟨got ++ ms, before ++ plan, [], ?_, ?_, ?_, ?_⟩
    · rw [bytesTo_snoc, bytesOf, List.append_nil]
      exact framing.recv manageable taken
    · rw [List.mapM_append, hbefore, planned]
      rfl
    · rw [Ending, if_neg (by rw [inside]; simp)]
    · rw [idle] at order
      rw [done_snoc, List.flatten_append, List.append_nil]
      simpa [doneOf] using order
  · simp [flushedOf, callOf, State.set, Function.comp_def]

theorem Inv.queued {owner dst : σ} {msg : List Byte} {rest : List (σ × List Byte)} {y : Session}
    (h : Inv logDebug tr st) (lock : st.publishing = some (owner, (dst, msg) :: rest))
    (there : st.sessions dst = some y) (o : List (σ × List Byte)) :
    Inv logDebug (tr ++ [⟨st, .push, o⟩])
      { st.set dst (some { y with msgsOut := y.msgsOut ++ [msg] }) with
        publishing := some (owner, rest) } := by
  have hlog : log (tr ++ [⟨st, .push, o⟩]) = log tr := log_quiet rfl
  refine ⟨by rw [hlog]; exact h.store, ?_, ?_, ?_⟩
  · intro filter s' holds
    exact (h.members filter s' holds).of_update there rfl fun _ => id
  · intro owner' ps lock' p hp
    obtain ⟨rfl, rfl⟩ := Prod.mk.inj (Option.some.inj lock')
    exact (h.targets _ _ lock p (List.mem_cons_of_mem _ hp)).of_update there rfl fun _ => id
  · intro s' z hz
    dsimp only [State.set] at hz
    by_cases hs : s' = dst
    · subst hs
      rw [Function.update_self] at hz
      obtain rfl := Option.some.inj hz
      refine (h.lives s' y there).snoc (by simp) ?_ ?_
      · intro post got plan ending hacts
        exact ⟨got, plan, ending, hacts.same rfl rfl rfl rfl rfl⟩
      · simp [flushedOf, callOf, lock, pending]
    · rw [Function.update_of_ne hs] at hz
      refine (h.lives s' z hz).other (by simp [Event.session]) ?_
      simp [callOf, lock, pending, Ne.symm hs]

theorem Inv.unlocked {owner : σ} (h : Inv logDebug tr st) (lock : st.publishing = some (owner, []))
    (o : List (σ × List Byte)) :
    Inv logDebug (tr ++ [⟨st, .push, o⟩]) { st with publishing := none } := by
  have hlog : log (tr ++ [⟨st, .push, o⟩]) = log tr := log_quiet rfl
  refine ⟨by rw [hlog]; exact h.store, h.members, ?_, ?_⟩
  · intro owner' ps lock'
    cases lock'
  · intro s' z hz
    refine (h.lives s' z hz).other (by simp [Event.session]) ?_
    simp [callOf, lock, pending]

theorem Inv.left {bytes : List Byte} {acts : List Action} (h : Inv logDebug tr st)
    (there : st.sessions s = some x) (inside : x.leaving = false) (idle : x.todo = [])
    (length : bytes.length ∈ announced x.input.wants)
    (handled : handle logDebug (lastMessage x.input.wants bytes) = some acts)
    (o : List (σ × List Byte)) : Inv logDebug (tr ++ [⟨st, .leave s bytes, o⟩])
      (st.set s (some { x with
        todo := acts ++ [.unregisterAll, .endSession], leaving := true })) := by
  refine h.one there rfl rfl rfl rfl rfl ?_ fun life => life.snoc (by simp) ?_ ?_
  · intro _ _
    simp
  · rintro post got plan ending ⟨framing, planned, last, order⟩
    rw [Ending, if_neg (by rw [inside]; simp)] at last
    subst last
    refine ⟨got, plan, _, ?_, planned, (if_pos rfl).mpr ⟨bytes, acts, length, handled, rfl⟩, ?_⟩
    · rw [bytesTo_snoc, bytesOf, List.append_nil]
      exact framing
    · rw [idle] at order
      rw [done_snoc, ← List.append_nil plan.flatten, ← order]
      simp [doneOf]
  · simp [flushedOf, callOf, State.set]

theorem Inv.deleted (h : Inv logDebug tr st) (there : st.sessions s = some x)
    (outside : x.leaving = true) (idle : x.todo = []) (o : List (σ × List Byte)) :
    Inv logDebug (tr ++ [⟨st, .delete s, o⟩]) (st.set s none) := by
  have hlog : log (tr ++ [⟨st, .delete s, o⟩]) = log tr := log_quiet rfl
  have hkeeps : ∀ {s'}, Registered st s' → Registered (st.set s none) s' := by
    rintro s' ⟨y, hy, hleaving⟩
    have hs : s' ≠ s := by
      rintro rfl
      obtain rfl := Option.some.inj (hy.symm.trans there)
      have hmem := hleaving outside
      rw [idle] at hmem
      cases hmem
    exact ⟨y, by rw [State.set_sessions, Function.update_of_ne hs, hy], hleaving⟩
  refine ⟨by rw [hlog]; exact h.store, fun filter s' holds => hkeeps (h.members filter s' holds),
    fun owner ps lock p hp => hkeeps (h.targets owner ps lock p hp), ?_⟩
  intro s' y hy
  rw [State.set_sessions] at hy
  by_cases hs : s' = s
  · subst hs
    rw [Function.update_self] at hy
    cases hy
  · rw [Function.update_of_ne hs] at hy
    refine (h.lives s' y hy).other ?_ (List.append_nil _).symm
    simpa [Event.session] using Ne.symm hs

theorem Inv.nobody (h : Inv logDebug tr st) (absent : st.sessions s = none) (chunk : List Byte)
    (o : List (σ × List Byte)) : Inv logDebug (tr ++ [⟨st, .newData s chunk, o⟩]) st := by
  have hlog : log (tr ++ [⟨st, .newData s chunk, o⟩]) = log tr := log_quiet rfl
  refine ⟨by rw [hlog]; exact h.store, h.members, h.targets, ?_⟩
  intro s' y hy
  refine (h.lives s' y hy).other ?_ (List.append_nil _).symm
  rintro he
  obtain rfl := Option.some.inj he
  rw [absent] at hy
  cases hy

theorem Inv.step {e : Event σ} {o : List (σ × List Byte)} (h : Inv logDebug tr st)
    (ok : Fine ⟨st, e, o⟩) (made : step logDebug st e = some (st', o)) :
    Inv logDebug (tr ++ [⟨st, e, o⟩]) st' := by
  cases step_change made with
  | born absent => exact h.born absent _
  | nobody absent => exact h.nobody absent _ _
  | received there => exact h.received there _ _
  | took there inside idle taken planned =>
    exact h.took there inside idle (ok _ there) taken planned
  | acted there todo sessions effect => exact h.acted there todo sessions effect _
  | queued lock there => exact h.queued lock there _
  | unlocked lock => exact h.unlocked lock _
  | closed there =>
    refine h.one there rfl rfl rfl rfl rfl id fun life => life.snoc (by simp) ?_ ?_
    · intro post got plan ending hacts
      exact ⟨got, plan, ending, hacts.same rfl rfl rfl rfl rfl⟩
    · simp [flushedOf, callOf, State.set]
  | left there inside idle length handled => exact h.left there inside idle length handled _
  | deleted there outside idle => exact h.deleted there outside idle _

theorem start_inv : Inv logDebug [] (start : State σ) := by
  refine ⟨rfl, ?_, ?_, ?_⟩
  · intro filter s holds
    exact absurd holds (not_holds_empty filter s)
  · intro owner ps lock
    cases lock
  · intro s x hx
    cases hx

end Steps

/-- The calls of a session are those of what its thread has done. -/
theorem log_filter (s : σ) (tr : List (Happening σ)) :
    (log tr).filter (fun c => c.caller = s) = (done s tr).filterMap (Action.call s) := by
  have hcaller : ∀ {s' : σ} {a : Action} {c}, a.call s' = some c → c.caller = s' := by
    intro s' a c hc
    cases a <;> cases hc <;> rfl
  induction tr with
  | nil => rfl
  | cons m tr ih =>
    have hone : (callOf m).toList.filter (fun c => c.caller = s) =
        (doneOf s m).filterMap (Action.call s) := by
      obtain ⟨before, e, o⟩ := m
      cases e with
      | act s' =>
        have hcall : callOf ⟨before, .act s', o⟩ = (before.next s').bind (Action.call s') := rfl
        have hdone : doneOf s ⟨before, .act s', o⟩ =
            if s' = s then (before.next s).toList else [] := rfl
        rw [hcall, hdone]
        by_cases hs : s' = s
        · subst hs
          rw [if_pos rfl]
          cases before.next s' with
          | none => rfl
          | some a =>
            cases hc : a.call s' with
            | none => simp [hc]
            | some c => simp [hc, hcaller hc]
        · rw [if_neg hs]
          cases before.next s' with
          | none => rfl
          | some a =>
            cases hc : a.call s' with
            | none => simp [hc]
            | some c => simp [hc, hcaller hc, hs]
      | _ => rfl
    have hlog : log (m :: tr) = (callOf m).toList ++ log tr := by
      cases h : callOf m <;> simp [log, h]
    rw [hlog, List.filter_append, hone, ih]
    simp [done]

/-- In every run the broker does what its calls do one after the other. Each session that is there
has made, in the order of its messages, the calls that they mean, whatever came in between; it got,
or is about to get, what it is owed for all calls since it came. And whoever holds the lock finds
every session that it has still to queue something for. -/
theorem broker_keeps_order {logDebug : Bool} {tr : List (Happening σ)} {st : State σ}
    (run : Run (step logDebug) start tr st) (ok : ∀ m ∈ tr, Fine m) :
    (∀ s x, st.sessions s = some x → ∃ pre post, Since s tr pre post ∧
      (∃ got plan ending, got <+: packets (bytesTo s post) ∧
        (x.input.AtRest → got = packets (bytesTo s post)) ∧
        got.mapM (handle logDebug) = some plan ∧ Ending logDebug x ending ∧
        done s post ++ x.todo = plan.flatten ++ ending) ∧
      (log post).filter (fun c => c.caller = s) = (done s post).filterMap (Action.call s) ∧
      flushed s post ++ x.msgsOut ++ pending s st.publishing =
        PubSub.owed Covers s (PubSub.updates (log pre)) (log post)) ∧
    (st.publishing ≠ none → (step logDebug st .push).isSome) := by
  have h : Inv logDebug tr st := Run.history_invariant Fine (Inv logDebug) start_inv
    (fun _ _ _ _ _ h ok made => h.step ok made) run ok
  constructor
  · intro s x hx
    obtain ⟨pre, post, since, ⟨got, plan, ending, hacts⟩, hqueued⟩ := h.lives s x hx
    obtain ⟨framing, planned, last, order⟩ := hacts
    obtain ⟨hfirst, hrest⟩ := framing.extracts
    exact ⟨pre, post, since, ⟨got, plan, ending, hfirst, hrest, planned, last, order⟩,
      log_filter s post, hqueued⟩
  · intro hlock
    cases hp : st.publishing with
    | none => exact absurd hp hlock
    | some p =>
      obtain ⟨owner, ps⟩ := p
      cases ps with
      | nil => simp [step, hp]
      | cons q rest =>
        obtain ⟨y, hy, -⟩ := h.targets owner _ hp q List.mem_cons_self
        simp [step, hp, hy]

end Broker

namespace Sample

/-- A subscriber whose request comes in two pieces, and a publisher whose message is queued before
the answer to the request is sent. -/
def events : List (Event ℕ) :=
  [.newSession 1, .newSession 2, .newData 1 [0x82, 6, 0, 1], .recv 1, .recv 1, .recv 1,
    .newData 1 [0, 1, 0x61, 0], .recv 1, .newData 2 [0x30, 4, 0, 1, 0x61, 0x78], .recv 2, .recv 2,
    .recv 2, .act 1, .act 2, .push, .act 1, .push, .act 2, .recv 1]

end Sample

theorem broker_keeps_order_two :
    ∃ (tr : List (Happening ℕ)) (st : State ℕ), Run (step true) start tr st ∧
      flushed 1 tr = [[0x30, 4, 0, 1, 0x61, 0x78]] ∧
      ∃ pre post, Since 1 tr pre post ∧ ∃ x, st.sessions 1 = some x ∧
        flushed 1 post ++ x.msgsOut ++ pending 1 st.publishing =
          PubSub.owed Covers 1 (PubSub.updates (log pre)) (log post) := by
  have run := exec_get_run (step true) start Sample.events (by decide +kernel)
  have ok : ∀ m ∈ ((exec (step true) start Sample.events).get (by decide +kernel)).1, Fine m := by
    decide +kernel
  obtain ⟨hsessions, -⟩ := broker_keeps_order run ok
  obtain ⟨x, hx⟩ := Option.isSome_iff_exists.mp
    (show (((exec (step true) start Sample.events).get (by decide +kernel)).2.sessions 1).isSome by
      decide +kernel)
  obtain ⟨pre, post, since, -, -, hqueued⟩ := hsessions 1 x hx
  exact ⟨_, _, run, by decide +kernel, pre, post, since, x, hx, hqueued⟩

end MyIp.Mqtt.Broker
