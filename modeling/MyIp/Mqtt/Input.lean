import MyIp.Foundations.Run
import MyIp.Mqtt.RemainingLength

/-! # How the MQTT broker cuts its input into messages

The TCP layer appends what it receives to the buffer of the session (`mqtt_new_data`), the thread of
the session takes bytes from its front (`mqtt_get_bytes`): one for the control byte, one for each
byte of the length, and then as many as the length says. Both hold the lock of the session while
they do so; `step` is what one of them does with it.

What else the thread does under that lock, it sends what publishers queued, leaves the buffer alone
and is not part of the step: see the module on the locks.

`packets` is what a stream of bytes means. In all runs the messages are those of the bytes received
so far (`Agrees`, kept by every step), however these were cut; that is, as long as not too many
bytes wait, since the number that is left behind is computed as an `int`. -/

namespace MyIp.Mqtt
set_option autoImplicit false

open Bytes EventMachine

/-- What the thread waits for, with what it has read of the message. -/
inductive Wants
  | control
  | length (control : Byte) (len : BitVec 32)
  | body (control : Byte) (len : BitVec 32)
  deriving DecidableEq

/-- The number of bytes that `mqtt_get_bytes` is called with. -/
def Wants.need : Wants → ℕ
  | .control => 1
  | .length _ _ => 1
  | .body _ len => len.toNat

/-- The buffer, up to `data_len`, and the thread. -/
structure Input where
  data : List Byte
  wants : Wants

def Input.start : Input := ⟨[], .control⟩

inductive InputEvent
  /-- `mqtt_new_data` with these bytes. -/
  | newData (chunk : List Byte)
  /-- The thread is in `mqtt_get_bytes`, has the lock and nothing more to send. -/
  | recv
  deriving DecidableEq

abbrev Message := Byte × List Byte

/-- The buffer after `n` bytes were taken off: `move_n` of the others are moved to the front. There
is no answer if the assertion fails. -/
def takeOff (data : List Byte) (n : ℕ) : Option (List Byte) :=
  let moveN := (BitVec.ofNat 32 (data.length - n)).toInt
  if moveN < 0 then none
  else some ((moveWithin data 0 n moveN.toNat).take (data.length - n))

/-- What the thread does with the bytes that it asked for. The array for a message has `len + 1`
bytes, in 32 bits, so the longest message does not fit into it. -/
def received : Wants → List Byte → Option (Wants × List Message)
  | .control, bytes => some (.length (bytes.getD 0 0) 0, [])
  | .length control len, bytes =>
    let b := bytes.getD 0 0
    let len := len <<< 7 ||| (b &&& 127).setWidth 32
    some (if b &&& 128 = 0 then .body control len else .length control len, [])
  | .body control len, bytes =>
    if bytes.length < (len + 1).toNat then some (.control, [(control, bytes)]) else none

def inputStep (s : Input) : InputEvent → Option (Input × List Message)
  | .newData chunk => some ({ s with data := s.data ++ chunk }, [])
  | .recv =>
    if s.wants.need ≤ s.data.length then
      (takeOff s.data s.wants.need).bind fun data =>
        (received s.wants (s.data.take s.wants.need)).map fun r => (⟨data, r.1⟩, r.2)
    else some (s, [])

/-! ## What a stream means -/

theorem recvLength_length {len len' : BitVec 32} {bytes rest : List Byte}
    (h : recvLength len bytes = some (len', rest)) : rest.length < bytes.length := by
  induction bytes generalizing len with
  | nil => cases h
  | cons b bytes ih =>
    rw [recvLength] at h
    split at h
    · cases h
      exact Nat.lt_succ_self _
    · exact (ih h).trans (Nat.lt_succ_self _)

/-- The messages in a stream of bytes, as far as they are complete. -/
def packets (stream : List Byte) : List Message :=
  match stream with
  | [] => []
  | control :: rest =>
    match _h : recvLength 0 rest with
    | none => []
    | some (len, rest) =>
      if len.toNat ≤ rest.length then
        (control, rest.take len.toNat) :: packets (rest.drop len.toNat)
      else []
termination_by stream.length
decreasing_by
  have := recvLength_length _h
  rw [List.length_drop, List.length_cons]
  omega

/-- The messages from the body of one on. -/
def fromBody (control : Byte) (len : BitVec 32) (data : List Byte) : List Message :=
  if len.toNat ≤ data.length then
    (control, data.take len.toNat) :: packets (data.drop len.toNat)
  else []

/-- The messages that the thread gets from here on, if the bytes `data` come. -/
def messages : Wants → List Byte → List Message
  | .control, data => packets data
  | .length control len, data =>
    match recvLength len data with
    | none => []
    | some (len, rest) => fromBody control len rest
  | .body control len, data => fromBody control len data

theorem packets_cons (control : Byte) (rest : List Byte) :
    packets (control :: rest) = messages (.length control 0) rest := by
  rw [packets, messages]
  split
  · rename_i hlen
    rw [hlen]
  · rename_i len rest' hlen
    rw [hlen]
    rfl

/-- The bytes that the thread asked for lead to where it goes on. -/
theorem messages_received {w w' : Wants} {bytes : List Byte} {out : List Message}
    (hlen : bytes.length = w.need) (h : received w bytes = some (w', out)) (more : List Byte) :
    messages w (bytes ++ more) = out ++ messages w' more := by
  cases w with
  | control =>
    obtain ⟨b, rfl⟩ := List.length_eq_one_iff.mp hlen
    cases h
    exact packets_cons b more
  | length control len =>
    obtain ⟨b, rfl⟩ := List.length_eq_one_iff.mp hlen
    obtain ⟨rfl, rfl⟩ := Prod.mk.inj (Option.some.inj h)
    rw [List.singleton_append, List.nil_append, messages, recvLength]
    change _ = messages (if b &&& 128 = 0 then _ else _) more
    by_cases hb : b &&& 128 = 0
    · rw [if_pos hb, if_pos hb]
      rfl
    · rw [if_neg hb, if_neg hb]
      rfl
  | body control len =>
    have hlen' : bytes.length = len.toNat := hlen
    obtain ⟨-, hout⟩ := Option.ite_none_right_eq_some.mp h
    cases hout
    have hle : len.toNat ≤ (bytes ++ more).length := by
      rw [List.length_append]
      omega
    change fromBody control len (bytes ++ more) = _
    rw [fromBody, if_pos hle, ← hlen', List.take_left, List.drop_left]
    rfl

/-- A thread that waits has no message to get from what is there. -/
theorem messages_waiting {w : Wants} {data : List Byte} (h : data.length < w.need) :
    messages w data = [] := by
  cases w with
  | control =>
    obtain rfl := List.length_eq_zero_iff.mp (Nat.lt_one_iff.mp h)
    rw [messages, packets]
  | length control len =>
    obtain rfl := List.length_eq_zero_iff.mp (Nat.lt_one_iff.mp h)
    rfl
  | body control len =>
    rw [messages, fromBody]
    exact if_neg (not_le.mpr h)

/-! ## Runs -/

/-- The bytes that were given to `mqtt_new_data`, in order. -/
def InputEvent.bytes : InputEvent → List Byte
  | .newData chunk => chunk
  | .recv => []

def streamOf (tr : List (Move Input InputEvent (List Message))) : List Byte :=
  tr.flatMap (·.event.bytes)

/-- The messages that the thread has got. -/
def extracted (tr : List (Move Input InputEvent (List Message))) : List Message :=
  tr.flatMap (·.output)

/-- Whatever comes now, the messages of the stream are those got and those that are to be got. -/
def Agrees (tr : List (Move Input InputEvent (List Message))) (s : Input) : Prop :=
  ∀ more, packets (streamOf tr ++ more) = extracted tr ++ messages s.wants (s.data ++ more)

/-- There are fewer than 2^31 bytes behind those that the thread takes, and there is an array for
the message. -/
def Manageable (s : Input) : Prop :=
  s.wants.need ≤ s.data.length →
    s.data.length < s.wants.need + 2 ^ 31 ∧ ∀ control, s.wants ≠ .body control (BitVec.allOnes 32)

theorem takeOff_eq {data : List Byte} {n : ℕ} (hn : n ≤ data.length)
    (h : data.length < n + 2 ^ 31) : takeOff data n = some (data.drop n) := by
  have hmove : (BitVec.ofNat 32 (data.length - n)).toInt = (data.length - n : ℕ) := by
    rw [BitVec.toInt_eq_toNat_of_lt (by rw [BitVec.toNat_ofNat]; omega), BitVec.toNat_ofNat,
      Nat.mod_eq_of_lt (by omega)]
  have hall : n + (data.length - n) = data.length := by omega
  rw [takeOff, hmove, if_neg (by omega), Int.toNat_natCast, take_moveWithin_zero (by omega), hall,
    List.take_length]

theorem received_isSome {w : Wants} {bytes : List Byte} (hlen : bytes.length = w.need)
    (h : ∀ control, w ≠ .body control (BitVec.allOnes 32)) :
    ∃ w' out, received w bytes = some (w', out) := by
  cases w with
  | control => exact ⟨_, _, rfl⟩
  | length control len => exact ⟨_, _, rfl⟩
  | body control len =>
    have hlen' : bytes.length = len.toNat := hlen
    have hne : len.toNat ≠ 2 ^ 32 - 1 := by
      intro he
      refine h control (congrArg _ (BitVec.eq_of_toNat_eq ?_))
      rw [he, BitVec.toNat_allOnes]
    have hroom : bytes.length < (len + 1).toNat := by
      have := len.isLt
      rw [BitVec.toNat_add, hlen', show (1 : BitVec 32).toNat = 1 from rfl]
      omega
    exact ⟨.control, [(control, bytes)], if_pos hroom⟩

/-- In a manageable state the thread waits, or takes what it asked for and goes on. -/
theorem recv_cases {s : Input} (h : Manageable s) :
    (s.data.length < s.wants.need ∧ inputStep s .recv = some (s, [])) ∨
    ∃ w out, s.wants.need ≤ s.data.length ∧
      received s.wants (s.data.take s.wants.need) = some (w, out) ∧
      inputStep s .recv = some (⟨s.data.drop s.wants.need, w⟩, out) := by
  rw [inputStep]
  by_cases hneed : s.wants.need ≤ s.data.length
  · obtain ⟨hfew, hbody⟩ := h hneed
    obtain ⟨w, out, hreceived⟩ := received_isSome (List.length_take_of_le hneed) hbody
    refine Or.inr ⟨w, out, hneed, hreceived, ?_⟩
    rw [if_pos hneed, takeOff_eq hneed hfew, Option.bind_some, hreceived, Option.map_some]
  · exact Or.inl ⟨not_le.mp hneed, if_neg hneed⟩

theorem agrees_start : Agrees [] .start := fun _ => rfl

theorem streamOf_snoc (tr : List (Move Input InputEvent (List Message)))
    (m : Move Input InputEvent (List Message)) :
    streamOf (tr ++ [m]) = streamOf tr ++ m.event.bytes := by
  simp [streamOf]

theorem extracted_snoc (tr : List (Move Input InputEvent (List Message)))
    (m : Move Input InputEvent (List Message)) :
    extracted (tr ++ [m]) = extracted tr ++ m.output := by
  simp [extracted]

theorem Agrees.step {tr : List (Move Input InputEvent (List Message))} {s s' : Input}
    {e : InputEvent} {out : List Message} (h : Agrees tr s) (ok : e = .recv → Manageable s)
    (made : inputStep s e = some (s', out)) : Agrees (tr ++ [⟨s, e, out⟩]) s' := by
  intro more
  rw [streamOf_snoc, extracted_snoc]
  cases e with
  | newData chunk =>
    cases made
    have hmore := h (chunk ++ more)
    rw [← List.append_assoc, ← List.append_assoc] at hmore
    rw [List.append_nil]
    exact hmore
  | recv =>
    have hmore := h more
    rw [show InputEvent.recv.bytes = [] from rfl, List.append_nil, hmore, List.append_assoc]
    congr 1
    rcases recv_cases (ok rfl) with ⟨-, hstep⟩ | ⟨w, out', hneed, hreceived, hstep⟩
    · obtain ⟨rfl, rfl⟩ := Prod.mk.inj (Option.some.inj (hstep.symm.trans made))
      rfl
    · obtain ⟨rfl, rfl⟩ := Prod.mk.inj (Option.some.inj (hstep.symm.trans made))
      have hbytes := messages_received (List.length_take_of_le hneed) hreceived
        (s.data.drop s.wants.need ++ more)
      rwa [← List.append_assoc, List.take_append_drop] at hbytes

theorem run_agrees {tr : List (Move Input InputEvent (List Message))} {s : Input}
    (run : Run inputStep .start tr s) (ok : ∀ m ∈ tr, m.event = .recv → Manageable m.before) :
    Agrees tr s :=
  Run.history_invariant (fun m => m.event = .recv → Manageable m.before) Agrees agrees_start
    (fun _ _ _ _ _ h ok made => h.step ok made) run ok

/-- The thread waits for more bytes. -/
def Input.AtRest (s : Input) : Prop := s.data.length < s.wants.need

/-- The turns that the thread has to go: two for each byte, since after a byte of the length a
message of no bytes may be taken. -/
def Input.toGo (s : Input) : ℕ :=
  2 * s.data.length + match s.wants with
    | .body _ _ => 1
    | _ => 0

theorem toGo_received {s : Input} {w : Wants} {out : List Message}
    (hneed : s.wants.need ≤ s.data.length)
    (h : received s.wants (s.data.take s.wants.need) = some (w, out)) :
    Input.toGo ⟨s.data.drop s.wants.need, w⟩ < s.toGo := by
  have hle : Input.toGo ⟨s.data.drop s.wants.need, w⟩ ≤
      2 * (s.data.length - s.wants.need) + 1 := by
    rw [Input.toGo, List.length_drop]
    split <;> omega
  obtain ⟨data, wants⟩ := s
  cases wants with
  | control =>
    change _ ≤ 2 * (data.length - 1) + 1 at hle
    change 1 ≤ data.length at hneed
    change _ < 2 * data.length + 0
    omega
  | length control len =>
    change _ ≤ 2 * (data.length - 1) + 1 at hle
    change 1 ≤ data.length at hneed
    change _ < 2 * data.length + 0
    omega
  | body control len =>
    obtain ⟨-, hout⟩ := Option.ite_none_right_eq_some.mp h
    cases hout
    change 2 * (data.drop len.toNat).length + 0 < 2 * data.length + 1
    rw [List.length_drop]
    omega

/-- The messages got so far are the first ones of the stream, and when the thread waits they are all
of them. -/
theorem run_extracts {tr : List (Move Input InputEvent (List Message))} {s : Input}
    (run : Run inputStep .start tr s) (ok : ∀ m ∈ tr, m.event = .recv → Manageable m.before) :
    extracted tr <+: packets (streamOf tr) ∧ (s.AtRest → extracted tr = packets (streamOf tr)) := by
  have hnow := run_agrees run ok []
  rw [List.append_nil, List.append_nil] at hnow
  refine ⟨hnow ▸ List.prefix_append _ _, fun hrest => ?_⟩
  rw [hnow, messages_waiting hrest, List.append_nil]

/-- The input took over `bytes`, in manageable states, and the thread got `ms` of them. -/
def TakenOver (bytes : List Byte) (ms : List Message) (s : Input) : Prop :=
  ∃ tr, Run inputStep .start tr s ∧ (∀ m ∈ tr, m.event = .recv → Manageable m.before) ∧
    streamOf tr = bytes ∧ extracted tr = ms

section TakenOver
variable {bytes : List Byte} {ms : List Message} {s : Input}

theorem takenOver_start : TakenOver [] [] .start := ⟨[], .nil, by simp, rfl, rfl⟩

theorem TakenOver.newData (h : TakenOver bytes ms s) (chunk : List Byte) :
    TakenOver (bytes ++ chunk) ms ⟨s.data ++ chunk, s.wants⟩ := by
  obtain ⟨tr, run, ok, rfl, rfl⟩ := h
  refine ⟨tr ++ [⟨s, .newData chunk, []⟩], run.snoc rfl, ?_, ?_, ?_⟩
  · refine List.forall_mem_append.mpr ⟨ok, List.forall_mem_singleton.mpr fun he => ?_⟩
    cases he
  · rw [streamOf_snoc, InputEvent.bytes]
  · rw [extracted_snoc, List.append_nil]

theorem TakenOver.recv {s' : Input} {out : List Message} (h : TakenOver bytes ms s)
    (manageable : Manageable s) (taken : inputStep s .recv = some (s', out)) :
    TakenOver bytes (ms ++ out) s' := by
  obtain ⟨tr, run, ok, rfl, rfl⟩ := h
  refine ⟨tr ++ [⟨s, .recv, out⟩], run.snoc taken, ?_, ?_, extracted_snoc tr _⟩
  · exact List.forall_mem_append.mpr ⟨ok, List.forall_mem_singleton.mpr fun _ => manageable⟩
  · rw [streamOf_snoc, InputEvent.bytes, List.append_nil]

theorem TakenOver.extracts (h : TakenOver bytes ms s) :
    ms <+: packets bytes ∧ (s.AtRest → ms = packets bytes) := by
  obtain ⟨tr, run, ok, rfl, rfl⟩ := h
  exact run_extracts run ok

end TakenOver

instance : DecidablePred Manageable := fun s =>
  inferInstanceAs (Decidable (s.wants.need ≤ s.data.length →
    s.data.length < s.wants.need + 2 ^ 31 ∧
      ∀ control, s.wants ≠ .body control (BitVec.allOnes 32)))

/-! ## Too many bytes -/

theorem recv_aborts {s : Input} (hneed : s.wants.need ≤ s.data.length)
    (h : (BitVec.ofNat 32 (s.data.length - s.wants.need)).toInt < 0) :
    inputStep s .recv = none := by
  rw [inputStep, if_pos hneed, takeOff, if_pos h, Option.bind_none]

/-- Chunks that all come before the thread has its turn. -/
theorem exists_run_newData (s : Input) (chunks : List (List Byte)) :
    ∃ tr, Run inputStep s tr { s with data := s.data ++ chunks.flatten } ∧
      streamOf tr = chunks.flatten ∧ extracted tr = [] := by
  induction chunks generalizing s with
  | nil =>
    refine ⟨[], ?_, rfl, rfl⟩
    rw [List.flatten_nil, List.append_nil]
    exact Run.nil
  | cons chunk chunks ih =>
    obtain ⟨tr, run, hstream, hextracted⟩ := ih { s with data := s.data ++ chunk }
    refine ⟨⟨s, .newData chunk, []⟩ :: tr, ?_, ?_, hextracted⟩
    · rw [List.flatten_cons, ← List.append_assoc]
      exact (Run.single rfl).trans run
    · rw [List.flatten_cons, ← hstream]
      rfl

theorem packets_zeros (n : ℕ) : packets (List.replicate (n + 2) 0) ≠ [] := by
  rw [List.replicate_succ, List.replicate_succ, packets_cons]
  change fromBody 0 0 (List.replicate n 0) ≠ []
  have hempty : (0 : BitVec 32).toNat ≤ (List.replicate n (0 : Byte)).length := Nat.zero_le _
  rw [fromBody, if_pos hempty]
  exact List.cons_ne_nil _ _

/-- 2^31 and some bytes, in chunks of 1024, wait when the thread takes the first: the assertion
fails, and none of the messages is got. -/
theorem framing_aborts :
    ∃ tr s, Run inputStep .start tr s ∧
      streamOf tr = (List.replicate (2 ^ 21 + 1) (List.replicate 1024 0)).flatten ∧
      extracted tr = [] ∧ packets (streamOf tr) ≠ [] ∧ inputStep s .recv = none := by
  obtain ⟨n, hn⟩ : ∃ n, n = 2 ^ 21 + 1 := ⟨_, rfl⟩
  obtain ⟨tr, run, hstream, hextracted⟩ :=
    exists_run_newData .start (List.replicate n (List.replicate 1024 0))
  have hflat : (List.replicate n (List.replicate 1024 (0 : Byte))).flatten =
      List.replicate (n * 1024) 0 := List.flatten_replicate_replicate
  refine ⟨tr, _, run, hn ▸ hstream, hextracted, ?_, ?_⟩
  · rw [hstream, hflat, show n * 1024 = n * 1024 - 2 + 2 by omega]
    exact packets_zeros _
  · have hlen : ([] ++ (List.replicate n (List.replicate 1024 (0 : Byte))).flatten).length =
        2 ^ 31 + 1024 := by
      rw [List.nil_append, hflat, List.length_replicate]
      omega
    refine recv_aborts ?_ ?_
    · change 1 ≤ ([] ++ _ : List Byte).length
      omega
    · change (BitVec.ofNat 32 (([] ++ _ : List Byte).length - 1)).toInt < 0
      rw [hlen]
      decide

end MyIp.Mqtt
