import MyIp.Fifo
import MyIp.Mqtt.Packets
import MyIp.Tcp.ClientSend

/-! # The MQTT client: messages from the broker

`mqtt_client::process_command` puts the payload of a PUBLISH into the queue of its topic and answers
with a PUBACK. It treats the two bytes after the topic as a message id: they are echoed in the
PUBACK, a packet with nothing behind them is refused, and they are nevertheless part of what is
queued. The PUBACK goes to `client_session_send_data`, which for an established session with room
does not come back. `runningTurn` is one turn of the thread in the state `mc_running`. -/

namespace MyIp.Mqtt
set_option autoImplicit false

open Bytes Tcp

variable {κ : Type}

/-- `topics`: the queue of each topic, for 128 messages. -/
abbrev Topics := List Byte → Option (Fifo (List Byte) 128)

/-- The members of `mqtt_client` that `process_command` uses. -/
structure Client (κ : Type) where
  topics : Topics
  t : Layer κ
  srcPort : ℤ

structure Outcome where
  topics : Topics
  /-- The PUBACK it hands to `client_session_send_data`. -/
  pubAck : Option (List Byte)
  /-- What `process_command` returns, or that it does not: nothing while the PUBACK still waits for
  room. -/
  answer : Option ClientSend

/-- `process_command`; `view` and `fuel` are those of `client_session_send_data`. -/
def processCommand (client : Client κ) (view : ℕ → ℕ → TcpSession) (fuel : ℕ) (cmd : Byte)
    (payload : List Byte) : Outcome :=
  if cmd = 0x30 ∧ payload.length ≥ 4 then
    let topicNameLen := (be16 (payload.getD 0 0) (payload.getD 1 0)).toNat
    if topicNameLen + 4 ≥ payload.length then ⟨client.topics, none, some (.returned false)⟩
    else
      let topicName := readAt payload 2 topicNameLen
      match client.topics topicName with
      | none => ⟨client.topics, none, some (.returned false)⟩
      | some queue =>
        let data := readAt payload (2 + topicNameLen) (payload.length - (2 + topicNameLen))
        let b := [0x40, 0x02, payload.getD (2 + topicNameLen + 0) 0,
          payload.getD (2 + topicNameLen + 1) 0]
        -- it returns what `client_session_send_data` returned
        ⟨Function.update client.topics topicName (some (queue.tryPut data).1), some b,
          clientSessionSendData client.t client.srcPort view b fuel⟩
  else ⟨client.topics, none, some (.returned true)⟩

/-- A turn of the running client on the bytes that came in: the outcome of one command and the bytes
after it, or nothing if it has to wait for more. -/
def runningTurn (client : Client κ) (view : ℕ → ℕ → TcpSession) (fuel : ℕ) (bytes : List Byte) :
    Option (Outcome × List Byte) :=
  match bytes with
  | [] => none
  | cmd :: rest =>
    match getVariableLength rest with
    | none => none
    | some (plLen, rest) =>
      if rest.length < plLen.toNat then none
      else some (processCommand client view fuel cmd (rest.take plLen.toNat),
        rest.drop plLen.toNat)

theorem lengthBytes_be16 {s : List Byte} (h : s.length < 2 ^ 16) (rest : List Byte) :
    (be16 ((lengthBytes s ++ rest).getD 0 0) ((lengthBytes s ++ rest).getD 1 0)).toNat =
      s.length := by
  have h255 : (255 : ℕ) = 2 ^ 8 - 1 := rfl
  change (be16 (BitVec.ofNat 8 (s.length >>> 8)) (BitVec.ofNat 8 (s.length &&& 255))).toNat = _
  rw [be16_toNat, BitVec.toNat_ofNat, BitVec.toNat_ofNat, h255, Nat.and_two_pow_sub_one_eq_mod,
    Nat.shiftRight_eq_div_pow]
  omega

/-- A packet of at most 127 bytes has a length of one byte, which the client reads as is meant. -/
theorem runningTurn_publish (client : Client κ) (view : ℕ → ℕ → TcpSession) (fuel : ℕ)
    {topic data : List Byte} (hlen : 2 + topic.length + data.length ≤ 127) (rest : List Byte) :
    runningTurn client view fuel (publishMessage topic data ++ rest) =
      some (processCommand client view fuel 0x30 (lengthBytes topic ++ topic ++ data), rest) := by
  have hbody := publishBody_length topic data
  have hval : (BitVec.ofNat 32 (2 + topic.length + data.length)).toNat =
      2 + topic.length + data.length :=
    toNat_ofNat_of_lt (by omega)
  have hdigits : Nat.digits 128 (2 + topic.length + data.length) =
      [2 + topic.length + data.length] := Nat.digits_of_lt _ _ (by omega) (by omega)
  have hfield : publishLength 5 (BitVec.ofNat 32 (2 + topic.length + data.length)) =
      Base128.marked [2 + topic.length + data.length] := by
    rw [publishLength_ofNat (by omega), hdigits]
    rfl
  have hbytes : publishMessage topic data ++ rest = 0x30 ::
      (Base128.marked [2 + topic.length + data.length] ++
        (lengthBytes topic ++ topic ++ data ++ rest)) := by
    simp [publishMessage, hfield]
  have hsum : highFirst 0 [2 + topic.length + data.length] = 2 + topic.length + data.length := by
    simp [highFirst]
  have hget : getVariableLength (Base128.marked [2 + topic.length + data.length] ++
      (lengthBytes topic ++ topic ++ data ++ rest)) =
      some (BitVec.ofNat 32 (2 + topic.length + data.length),
        lengthBytes topic ++ topic ++ data ++ rest) := by
    have hread : getLength (BitVec.ofNat 32 0) (Base128.marked [2 + topic.length + data.length] ++
        (lengthBytes topic ++ topic ++ data ++ rest)) = _ :=
      getLength_marked (by simp) (by simp; omega) 0 _
    rw [hsum] at hread
    exact hread
  rw [hbytes, runningTurn, hget]
  dsimp only
  rw [hval, ← hbody, if_neg (by rw [List.length_append]; omega), List.take_left, List.drop_left]

/-- What the client makes of the message: below three bytes of payload it takes it for malformed, or
for no PUBLISH at all. -/
theorem processCommand_publish {client : Client κ} (view : ℕ → ℕ → TcpSession) (fuel : ℕ)
    {topic data : List Byte} {queue : Fifo (List Byte) 128}
    (subscribed : client.topics topic = some queue)
    (hlen : 2 + topic.length + data.length ≤ 127) :
    processCommand client view fuel 0x30 (lengthBytes topic ++ topic ++ data) =
      if 3 ≤ data.length then
        ⟨Function.update client.topics topic (some (queue.tryPut data).1),
          some [0x40, 0x02, data.getD 0 0, data.getD 1 0],
          clientSessionSendData client.t client.srcPort view
            [0x40, 0x02, data.getD 0 0, data.getD 1 0] fuel⟩
      else ⟨client.topics, none,
        some (.returned (decide (topic.length + data.length < 2)))⟩ := by
  have hbody := publishBody_length topic data
  have hname := lengthBytes_be16 (s := topic) (by omega) (topic ++ data)
  rw [← List.append_assoc] at hname
  have htwo : (lengthBytes topic).length = 2 := rfl
  have htopic : readAt (lengthBytes topic ++ topic ++ data) 2 topic.length = topic := by
    rw [readAt_inside (by omega), List.append_assoc, ← htwo, List.drop_left, List.take_left]
  have hfront : (lengthBytes topic ++ topic).length = 2 + topic.length := by
    rw [List.length_append, htwo]
  have hdata : readAt (lengthBytes topic ++ topic ++ data) (2 + topic.length)
      (2 + topic.length + data.length - (2 + topic.length)) = data := by
    rw [readAt_inside (by omega), ← hfront, List.drop_left, Nat.add_sub_cancel_left,
      List.take_length]
  have hbyte : ∀ i, (lengthBytes topic ++ topic ++ data).getD (2 + topic.length + i) 0 =
      data.getD i 0 := by
    intro i
    rw [List.getD_append_right _ _ _ _ (by omega), hfront, Nat.add_sub_cancel_left]
  rw [processCommand, hbody]
  dsimp only
  rw [hname, htopic, subscribed, hdata, hbyte, hbyte]
  by_cases hthree : 3 ≤ data.length
  · rw [if_pos hthree, if_pos ⟨rfl, by omega⟩, if_neg (by omega)]
  · rw [if_neg hthree]
    by_cases hfour : topic.length + data.length < 2
    · rw [if_neg (by omega), decide_eq_true hfour]
    · rw [if_pos ⟨rfl, by omega⟩, if_pos (by omega), decide_eq_false hfour]

/-- The client takes the message, `process_command` returns true, and the queue of the topic gets
exactly the payload. -/
def Delivers (client : Client κ) (view : ℕ → ℕ → TcpSession) (queue : Fifo (List Byte) 128)
    (topic data : List Byte) : Prop :=
  ∀ rest, ∃ fuel out,
    runningTurn client view fuel (publishMessage topic data ++ rest) = some (out, rest) ∧
      out.answer = some (.returned true) ∧
      out.topics = Function.update client.topics topic (some (queue.add data))

theorem Delivers.answer {client : Client κ} {view : ℕ → ℕ → TcpSession}
    {queue : Fifo (List Byte) 128} {topic data : List Byte}
    (h : Delivers client view queue topic data) (hlen : 2 + topic.length + data.length ≤ 127) :
    ∃ fuel, (processCommand client view fuel 0x30 (lengthBytes topic ++ topic ++ data)).answer =
      some (.returned true) := by
  obtain ⟨fuel, out, hturn, hanswer, -⟩ := h []
  rw [runningTurn_publish client view fuel hlen, Option.some.injEq, Prod.mk.injEq] at hturn
  rw [← hturn.1] at hanswer
  exact ⟨fuel, hanswer⟩

/-- A message for a topic that the client is subscribed to, in whose queue there is room, is
delivered exactly if its payload has at least three bytes and the session takes nothing of the
PUBACK: for one that does, the call locks itself. -/
theorem delivers_iff {client : Client κ} (view : ℕ → ℕ → TcpSession) {topic data : List Byte}
    {queue : Fifo (List Byte) 128} (subscribed : client.topics topic = some queue)
    (room : queue.full = false) (hlen : 2 + topic.length + data.length ≤ 127) :
    Delivers client view queue topic data ↔
      3 ≤ data.length ∧ TakesNothing client.t client.srcPort view := by
  have hput : (queue.tryPut data).1 = queue.add data := by
    rw [Fifo.tryPut, room, if_neg Bool.false_ne_true]
  have hcommand := fun fuel => processCommand_publish view fuel subscribed hlen
  constructor
  · intro h
    by_cases hthree : 3 ≤ data.length
    · obtain ⟨fuel, hanswer⟩ := h.answer hlen
      rw [hcommand, if_pos hthree] at hanswer
      exact ⟨hthree, (client_session_send_data_true_iff ..).mp ⟨fuel, hanswer⟩⟩
    -- nothing was put, but the queue would be longer
    · obtain ⟨fuel, out, hturn, -, htopics⟩ := h []
      rw [runningTurn_publish client view fuel hlen, hcommand, if_neg hthree, Option.some.injEq,
        Prod.mk.injEq] at hturn
      rw [← hturn.1] at htopics
      have hqueue : client.topics topic =
          Function.update client.topics topic (some (queue.add data)) topic :=
        congrFun htopics topic
      rw [subscribed, Function.update_self, Option.some.injEq] at hqueue
      have hcount : queue.nIn = queue.nIn + 1 := congrArg Fifo.nIn hqueue
      omega
  · rintro ⟨hthree, hsend⟩ rest
    obtain ⟨fuel, hanswer⟩ := (client_session_send_data_true_iff client.t client.srcPort view
      [0x40, 0x02, data.getD 0 0, data.getD 1 0]).mpr hsend
    refine ⟨fuel, _, runningTurn_publish client view fuel hlen rest, ?_⟩
    rw [hcommand, if_pos hthree, hput]
    exact ⟨hanswer, rfl⟩

namespace Sample

/-- A client with a session that is subscribed to the topic `t` and has no messages yet. -/
def subscribedToT : Client Unit where
  topics topic := if topic = [0x74] then some (Fifo.new fun _ => []) else none
  t := { sessions := {(7, 0)}, tcpClients := {(40000, 7)} }
  srcPort := 40000

/-- Its session, in the state `state`, with an empty buffer. -/
def inState (state : TcpState) (_ _ : ℕ) : TcpSession := { Tcp.Sample.session 120 with state }

end Sample

theorem delivers_three_bytes :
    Delivers Sample.subscribedToT (Sample.inState .closeWait) (Fifo.new fun _ => []) [0x74]
      [1, 2, 3] :=
  (delivers_iff (Sample.inState .closeWait) rfl rfl (by decide)).mpr
    ⟨by decide, 0, 0, by decide, by simp, Or.inl (by decide)⟩

/-- A message with two bytes of payload is refused as malformed, and the PUBACK of one with three
bytes makes the thread of an established session wait for itself. -/
theorem not_delivers_two_bytes :
    ¬Delivers Sample.subscribedToT (Sample.inState .established) (Fifo.new fun _ => []) [0x74]
      [0x6f, 0x6e] ∧
    ¬Delivers Sample.subscribedToT (Sample.inState .established) (Fifo.new fun _ => []) [0x74]
      [0x6f, 0x66, 0x66] := by
  constructor
  · intro h
    obtain ⟨fuel, hanswer⟩ := h.answer (by decide)
    rw [processCommand_publish _ fuel rfl (by decide), if_neg (by decide)] at hanswer
    exact absurd hanswer (by decide)
  · intro h
    obtain ⟨fuel, hanswer⟩ := h.answer (by decide)
    rw [processCommand_publish _ fuel rfl (by decide), if_pos (by decide)] at hanswer
    obtain ⟨obj, n, -, -, hstate | ⟨hfull, -⟩⟩ :=
      (client_session_send_data_true_iff Sample.subscribedToT.t 40000 (Sample.inState .established)
        [0x40, 0x02, 0x6f, 0x66]).mp ⟨fuel, hanswer⟩
    · exact hstate rfl
    · have hempty : (Sample.inState .established obj n).unackedSize.toNat = 0 := rfl
      omega

end MyIp.Mqtt
