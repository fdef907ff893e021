import Mathlib.Data.List.GetD
import MyIp.Mqtt.RemainingLength

/-! # MQTT packets and their framing

The packets that the broker (`mqtt.cpp`) and the client (`mqtt_client.cpp`) put together: `publish`,
the answers to SUBSCRIBE and UNSUBSCRIBE, `create_subscribe_message` and
`create_unsubscribe_message`. Strings are lists of bytes. `Framed` is the rule of the protocol: the
Remaining Length, read as it says, is the number of bytes that follow.

The requests that the broker answers are read by a loop over the topics (`topicsFrom`), which for a
request with a list of topics finds that list (`topicsFrom_request`). -/

namespace MyIp.Mqtt
set_option autoImplicit false

open Bytes

/-! ## The broker -/

/-- The loop of `publish` over `rem_len`; a positive `int` takes at most 5 turns. -/
def publishLength : ℕ → BitVec 32 → List Byte
  | 0, _ => []
  | turns + 1, remLen =>
    if 0 < remLen.toInt then
      (if 127 < remLen.toInt then 127 ||| 128 else remLen.setWidth 8) ::
        publishLength turns (remLen.sshiftRight 7)
    else []

/-- The length of a string as two bytes, the upper bits cut off. -/
def lengthBytes (s : List Byte) : List Byte :=
  [BitVec.ofNat 8 (s.length >>> 8), BitVec.ofNat 8 (s.length &&& 255)]

/-- `publish`: the message `msg` that is queued for the subscribers. -/
def publishMessage (topic data : List Byte) : List Byte :=
  let varHeaderLen := 2 + topic.length
  let remLen := BitVec.ofNat 32 (varHeaderLen + data.length)
  (3 <<< 4) :: (publishLength 5 remLen ++ lengthBytes topic ++ topic ++ data)

/-- The loop over the topics of a SUBSCRIBE or UNSUBSCRIBE, from the offset `o` on; `extra` is what
follows each topic. Every turn moves on by at least two bytes; what is read past the end, where
`mqtt_msg` has a zero byte, is 0. -/
def topicsFrom (msg : List Byte) (extra : ℕ) : ℕ → ℕ → List (List Byte)
  | 0, _ => []
  | turns + 1, o =>
    if o < msg.length then
      let topicLen := min (be16 (msg.getD o 0) (msg.getD (o + 1) 0)).toNat (msg.length - o)
      readAt msg (o + 2) topicLen :: topicsFrom msg extra turns (o + 2 + topicLen + extra)
    else []

/-- The topics of a SUBSCRIBE, each with a QoS after it. -/
def subscribeTopics (msg : List Byte) : List (List Byte) := topicsFrom msg 1 msg.length 2

def unsubscribeTopics (msg : List Byte) : List (List Byte) := topicsFrom msg 0 msg.length 2

/-- `reply`, with its length put in at the end. -/
def ackReply (control : Byte) (msg : List Byte) (codes : List Byte) : List Byte :=
  let reply := [control, 0, msg.getD 0 0, msg.getD 1 0] ++ codes
  reply.set 1 (BitVec.ofNat 8 (reply.length - 2))

/-- The SUBACK for the SUBSCRIBE `msg`. -/
def subAck (msg : List Byte) : List Byte :=
  ackReply (0x9 <<< 4) msg ((subscribeTopics msg).map fun _ => 2)

/-- The UNSUBACK for the UNSUBSCRIBE `msg`. -/
def unsubAck (msg : List Byte) : List Byte :=
  ackReply (11 <<< 4) msg ((unsubscribeTopics msg).map fun _ => 0)

/-! ## The client -/

/-- A topic in `create_subscribe_message`, with its QoS. -/
def subscribeEntry (topic : List Byte) : List Byte :=
  BitVec.ofNat 8 (topic.length >>> 8) :: BitVec.ofNat 8 topic.length :: topic ++ [1]

/-- `create_subscribe_message`: `topics` are the keys of the map, for a call without a topic. -/
def createSubscribeMessage (msgId : BitVec 16) (topics : List (List Byte))
    (topic : Option (List Byte)) : List Byte :=
  let payload := be16Bytes msgId ++ (match topic with
    | some topic => subscribeEntry topic
    | none => topics.flatMap subscribeEntry)
  (0x80 :: putVariableLength (BitVec.ofNat 32 payload.length)) ++ payload

/-- `create_unsubscribe_message`: the payload is measured, but not added. -/
def createUnsubscribeMessage (msgId : BitVec 16) (topic : List Byte) : List Byte :=
  let payload := be16Bytes msgId ++
    BitVec.ofNat 8 (topic.length >>> 8) :: BitVec.ofNat 8 topic.length :: topic
  0xa0 :: putVariableLength (BitVec.ofNat 32 payload.length)

/-! ## Framing -/

/-- After the control byte comes a Remaining Length, and after that as many bytes as it says. -/
def Framed : List Byte → Prop
  | [] => False
  | _ :: rest => ∃ len body, readLength 4 rest = some (len, body) ∧ body.length = len

theorem framed_of_readLength {control : Byte} {field body : List Byte} {len : ℕ}
    (h : readLength 4 (field ++ body) = some (len, body)) :
    Framed (control :: (field ++ body)) ↔ body.length = len := by
  constructor
  · rintro ⟨len', body', hread, hlen⟩
    rw [h, Option.some.injEq, Prod.mk.injEq] at hread
    rw [hread.1, hread.2]
    exact hlen
  · exact fun hlen => ⟨len, body, h, hlen⟩

/-- A field takes at least one and at most so many bytes. -/
theorem readLength_length {n len : ℕ} {bytes body : List Byte}
    (h : readLength n bytes = some (len, body)) :
    body.length + 1 ≤ bytes.length ∧ bytes.length ≤ body.length + n := by
  induction n generalizing bytes len with
  | zero => cases h
  | succ n ih =>
    cases bytes with
    | nil => cases h
    | cons b rest =>
      rw [readLength] at h
      split at h
      · cases h
        rw [List.length_cons]
        omega
      · obtain ⟨⟨len', body'⟩, hrest, he⟩ := Option.map_eq_some_iff.mp h
        obtain ⟨-, rfl⟩ := Prod.mk.inj he
        have := ih hrest
        rw [List.length_cons]
        omega

/-! ### PUBLISH -/

/-- All groups but the last replaced by 127. -/
def saturated : List ℕ → List ℕ
  | [] => []
  | [d] => [d]
  | _ :: ds => 127 :: saturated ds

theorem saturated_cons {ds : List ℕ} (d : ℕ) (h : ds ≠ []) :
    saturated (d :: ds) = 127 :: saturated ds := by
  cases ds with
  | nil => exact absurd rfl h
  | cons d' ds => rfl

theorem saturated_length (ds : List ℕ) : (saturated ds).length = ds.length := by
  induction ds with
  | nil => rfl
  | cons d ds ih =>
    by_cases h : ds = []
    · subst h
      rfl
    · rw [saturated_cons d h, List.length_cons, List.length_cons, ih]

theorem saturated_lt {ds : List ℕ} (h : ∀ d ∈ ds, d < 128) : ∀ d ∈ saturated ds, d < 128 := by
  induction ds with
  | nil => exact h
  | cons d ds ih =>
    by_cases hnil : ds = []
    · subst hnil
      exact h
    · rw [saturated_cons d hnil]
      intro e he
      rcases List.mem_cons.mp he with rfl | he
      · decide
      · exact ih (fun e' he' => h e' (List.mem_cons_of_mem _ he')) e he

theorem saturated_eq_iff (ds : List ℕ) : saturated ds = ds ↔ ∀ d ∈ ds.dropLast, d = 127 := by
  induction ds with
  | nil => simp [saturated]
  | cons d ds ih =>
    by_cases hnil : ds = []
    · subst hnil
      simp [saturated]
    · rw [saturated_cons d hnil, List.dropLast_cons_of_ne_nil hnil, List.forall_mem_cons,
        List.cons.injEq, ih, eq_comm]

theorem publishLength_eq {turns : ℕ} {remLen : BitVec 32} (hint : remLen.toNat < 2 ^ 31)
    (hturns : remLen.toNat < 128 ^ turns) :
    publishLength turns remLen = Base128.marked (saturated (Nat.digits 128 remLen.toNat)) := by
  induction turns generalizing remLen with
  | zero =>
    have h0 : remLen.toNat = 0 := by simpa using hturns
    rw [publishLength, h0, Nat.digits_zero]
    rfl
  | succ turns ih =>
    have hsigned : remLen.toInt = remLen.toNat := BitVec.toInt_eq_toNat_of_lt (by omega)
    have hshift : (remLen.sshiftRight 7).toNat = remLen.toNat / 128 := by
      rw [BitVec.sshiftRight_eq_of_msb_false (BitVec.msb_eq_false_iff_two_mul_lt.mpr (by omega)),
        BitVec.toNat_ushiftRight, Nat.shiftRight_eq_div_pow]
    rw [publishLength, hsigned]
    by_cases hpos : 0 < remLen.toNat
    · have hrest : publishLength turns (remLen.sshiftRight 7) =
          Base128.marked (saturated (Nat.digits 128 (remLen.sshiftRight 7).toNat)) :=
        ih (by rw [hshift]; omega) (by
          rw [hshift]
          rw [pow_succ] at hturns
          omega)
      rw [if_pos (by omega), hrest, hshift, Nat.digits_def' (by decide) hpos]
      by_cases hbig : 127 < remLen.toNat
      · have hne : Nat.digits 128 (remLen.toNat / 128) ≠ [] := by
          rw [Nat.digits_ne_nil_iff_ne_zero]
          omega
        have hne' : saturated (Nat.digits 128 (remLen.toNat / 128)) ≠ [] := by
          rw [← List.length_pos_iff, saturated_length]
          exact List.length_pos_iff.mpr hne
        rw [if_pos (by omega), saturated_cons _ hne, Base128.marked_cons _ hne']
        rfl
      · have hsmall : remLen.toNat % 128 = remLen.toNat := by omega
        rw [if_neg (by omega), show remLen.toNat / 128 = 0 by omega, Nat.digits_zero, hsmall,
          ← BitVec.ofNat_toNat]
        rfl
    · have h0 : remLen.toNat = 0 := by omega
      rw [if_neg (by omega), h0, Nat.digits_zero]
      rfl

/-- Five turns of the loop are enough for every length that MQTT allows. -/
theorem publishLength_ofNat {len : ℕ} (h : len < 2 ^ 28) :
    publishLength 5 (BitVec.ofNat 32 len) = Base128.marked (saturated (Nat.digits 128 len)) := by
  have hval : (BitVec.ofNat 32 len).toNat = len := toNat_ofNat_of_lt (by omega)
  have hfield : publishLength 5 (BitVec.ofNat 32 len) =
      Base128.marked (saturated (Nat.digits 128 (BitVec.ofNat 32 len).toNat)) :=
    publishLength_eq (by omega) (by
      rw [hval]
      norm_num
      omega)
  rw [hfield, hval]

/-- The field that the loop of `publish` writes for `len` is read as `len` exactly if all groups but
the last are 127. -/
theorem framed_publishLength_iff {control : Byte} {body : List Byte} {len : ℕ}
    (hbody : body.length = len) (hpos : 0 < len) (h : len < 2 ^ 28) :
    Framed (control :: (publishLength 5 (BitVec.ofNat 32 len) ++ body)) ↔
      ∀ d ∈ (Nat.digits 128 len).dropLast, d = 127 := by
  have hne : saturated (Nat.digits 128 len) ≠ [] := by
    rw [← List.length_pos_iff, saturated_length, List.length_pos_iff,
      Nat.digits_ne_nil_iff_ne_zero]
    omega
  have hshort : (saturated (Nat.digits 128 len)).length ≤ 4 := by
    rw [saturated_length]
    exact (Nat.digits_length_le_iff (by decide) _).mpr (by norm_num; omega)
  have hlt := saturated_lt (digits_lt len)
  rw [publishLength_ofNat h, framed_of_readLength (readLength_marked hne hshort hlt body),
    ← saturated_eq_iff, hbody]
  constructor
  · intro he
    refine Nat.ofDigits_inj_of_len_eq (b := 128) (by decide) (saturated_length _) hlt
      (digits_lt len) ?_
    rw [← he, Nat.ofDigits_digits]
  · intro he
    rw [he, Nat.ofDigits_digits]

theorem publishBody_length (topic data : List Byte) :
    (lengthBytes topic ++ topic ++ data).length = 2 + topic.length + data.length := by
  simp [lengthBytes]
  omega

theorem framed_publish_iff {topic data : List Byte}
    (h : 2 + topic.length + data.length < 2 ^ 28) :
    Framed (publishMessage topic data) ↔
      ∀ d ∈ (Nat.digits 128 (2 + topic.length + data.length)).dropLast, d = 127 := by
  have hframed : Framed (3 <<< 4 :: (publishLength 5
      (BitVec.ofNat 32 (2 + topic.length + data.length)) ++ (lengthBytes topic ++ topic ++ data))) ↔
      ∀ d ∈ (Nat.digits 128 (2 + topic.length + data.length)).dropLast, d = 127 :=
    framed_publishLength_iff (publishBody_length topic data) (by omega) h
  rw [← List.append_assoc, ← List.append_assoc] at hframed
  exact hframed

/-! ### SUBACK and UNSUBACK -/

/-- The length of these is a single byte, whatever it is. -/
theorem framed_ackReply_iff (control : Byte) (msg codes : List Byte) :
    Framed (ackReply control msg codes) ↔ codes.length ≤ 125 := by
  have hbytes : ackReply control msg codes = control :: BitVec.ofNat 8 (codes.length + 2) ::
      msg.getD 0 0 :: msg.getD 1 0 :: codes := by
    simp [ackReply]
  rw [hbytes]
  have hval : (BitVec.ofNat 8 (codes.length + 2)).toNat = (codes.length + 2) % 256 := by
    rw [BitVec.toNat_ofNat]
  constructor
  · rintro ⟨len, body, hread, hlen⟩
    rw [readLength, hval] at hread
    split at hread
    · obtain ⟨rfl, rfl⟩ := Prod.mk.inj (Option.some.inj hread)
      rw [List.length_cons, List.length_cons] at hlen
      omega
    -- the value is the length modulo 128, but a part of the body counts as length
    · obtain ⟨⟨len', body'⟩, hrest, he⟩ := Option.map_eq_some_iff.mp hread
      obtain ⟨rfl, rfl⟩ := Prod.mk.inj he
      obtain ⟨hone, hthree⟩ := readLength_length hrest
      dsimp only at hlen
      simp only [List.length_cons] at hone hthree
      omega
  · intro hle
    refine ⟨codes.length + 2, msg.getD 0 0 :: msg.getD 1 0 :: codes, ?_, rfl⟩
    rw [readLength, hval, if_pos (by omega), Nat.mod_eq_of_lt (by omega)]

/-- A topic in a request: its length in front, and something after it. -/
def requestEntry (e : List Byte × List Byte) : List Byte :=
  be16Bytes (BitVec.ofNat 16 e.1.length) ++ (e.1 ++ e.2)

/-- What the broker reads of a request. -/
def request (msgId : BitVec 16) (entries : List (List Byte × List Byte)) : List Byte :=
  be16Bytes msgId ++ entries.flatMap requestEntry

theorem requestEntry_length (e : List Byte × List Byte) :
    (requestEntry e).length = 2 + e.1.length + e.2.length := by
  rw [requestEntry, List.length_append, be16Bytes_length, List.length_append, Nat.add_assoc]

/-- At the offset of an entry the loop finds its topic. -/
theorem entry_topic {e : List Byte × List Byte} (hshort : e.1.length < 2 ^ 16)
    (done more : List Byte) :
    let msg := done ++ (requestEntry e ++ more)
    min (be16 (msg.getD done.length 0) (msg.getD (done.length + 1) 0)).toNat
        (msg.length - done.length) = e.1.length ∧
      readAt msg (done.length + 2) e.1.length = e.1 := by
  intro msg
  have hmsg : msg = done ++ (requestEntry e ++ more) := rfl
  have hlen : be16 (msg.getD done.length 0) (msg.getD (done.length + 1) 0) =
      BitVec.ofNat 16 e.1.length := by
    have h0 : msg.getD done.length 0 = (BitVec.ofNat 16 e.1.length >>> 8).setWidth 8 := by
      rw [hmsg, List.getD_append_right _ _ _ _ le_rfl, Nat.sub_self]
      rfl
    have h1 : msg.getD (done.length + 1) 0 = (BitVec.ofNat 16 e.1.length).setWidth 8 := by
      rw [hmsg, List.getD_append_right _ _ _ _ (Nat.le_add_right _ 1), Nat.add_sub_cancel_left]
      rfl
    rw [h0, h1, be16_be16Bytes]
  have hto : (BitVec.ofNat 16 e.1.length).toNat = e.1.length := by
    rw [BitVec.toNat_ofNat, Nat.mod_eq_of_lt hshort]
  have htotal : msg.length = done.length + (2 + e.1.length + e.2.length + more.length) := by
    rw [hmsg, List.length_append, List.length_append, requestEntry_length]
  refine ⟨?_, ?_⟩
  · rw [hlen, hto, htotal]
    omega
  · have hsplit : msg = (done ++ be16Bytes (BitVec.ofNat 16 e.1.length)) ++
        (e.1 ++ (e.2 ++ more)) := by
      simp [hmsg, requestEntry]
    have hfront : (done ++ be16Bytes (BitVec.ofNat 16 e.1.length)).length = done.length + 2 := by
      rw [List.length_append, be16Bytes_length]
    rw [readAt_inside (by omega), hsplit, ← hfront, List.drop_left, List.take_left]

/-- The loop of the broker finds the topics of a request. -/
theorem topicsFrom_request {extra turns : ℕ} {entries : List (List Byte × List Byte)}
    (hentries : ∀ e ∈ entries, e.1.length < 2 ^ 16 ∧ e.2.length = extra)
    (hturns : entries.length ≤ turns) (done : List Byte) :
    topicsFrom (done ++ entries.flatMap requestEntry) extra turns done.length =
      entries.map Prod.fst := by
  induction entries generalizing turns done with
  | nil =>
    cases turns with
    | zero => rfl
    | succ turns => simp [topicsFrom]
  | cons e entries ih =>
    obtain ⟨hshort, htail⟩ := hentries e List.mem_cons_self
    obtain ⟨turns, rfl⟩ : ∃ k, turns = k + 1 :=
      Nat.exists_eq_succ_of_ne_zero (by rw [List.length_cons] at hturns; omega)
    have hrest := ih (fun e' he' => hentries e' (List.mem_cons_of_mem _ he'))
      (Nat.le_of_succ_le_succ hturns) (done ++ requestEntry e)
    obtain ⟨hmin, hread⟩ := entry_topic hshort done (entries.flatMap requestEntry)
    have hinside : done.length <
        (done ++ (requestEntry e ++ entries.flatMap requestEntry)).length := by
      rw [List.length_append, List.length_append, requestEntry_length]
      omega
    have hnext : done.length + 2 + e.1.length + extra = (done ++ requestEntry e).length := by
      rw [List.length_append, requestEntry_length, htail]
      omega
    rw [List.append_assoc] at hrest
    rw [List.flatMap_cons, topicsFrom, if_pos hinside]
    dsimp only
    rw [hmin, hread, hnext, hrest, List.map_cons]

theorem entries_length_le (entries : List (List Byte × List Byte)) :
    entries.length ≤ (entries.flatMap requestEntry).length := by
  induction entries with
  | nil => exact Nat.zero_le _
  | cons e entries ih =>
    rw [List.flatMap_cons, List.length_append, requestEntry_length, List.length_cons]
    omega

theorem topicsFrom_request_start {extra : ℕ} {msgId : BitVec 16}
    {entries : List (List Byte × List Byte)}
    (hentries : ∀ e ∈ entries, e.1.length < 2 ^ 16 ∧ e.2.length = extra) :
    topicsFrom (request msgId entries) extra (request msgId entries).length 2 =
      entries.map Prod.fst := by
  have hle := entries_length_le entries
  refine topicsFrom_request hentries ?_ (be16Bytes msgId)
  rw [request, List.length_append]
  omega

/-! ### All packets -/

/-- A packet that is sent, by what it is made from. -/
inductive Emission
  /-- The broker passes on a message. -/
  | publish (topic data : List Byte)
  /-- The broker answers a SUBSCRIBE for topics, each with a QoS. -/
  | subAck (msgId : BitVec 16) (topics : List (List Byte × Byte))
  /-- The broker answers an UNSUBSCRIBE. -/
  | unsubAck (msgId : BitVec 16) (topics : List (List Byte))
  /-- The client subscribes to a topic, or to all that it knows. -/
  | subscribe (msgId : BitVec 16) (topics : List (List Byte)) (topic : Option (List Byte))
  /-- The client unsubscribes. -/
  | unsubscribe (msgId : BitVec 16) (topic : List Byte)

def Emission.bytes : Emission → List Byte
  | .publish topic data => publishMessage topic data
  | .subAck msgId topics => Mqtt.subAck (request msgId (topics.map fun t => (t.1, [t.2])))
  | .unsubAck msgId topics => Mqtt.unsubAck (request msgId (topics.map fun t => (t, [])))
  | .subscribe msgId topics topic => createSubscribeMessage msgId topics topic
  | .unsubscribe msgId topic => createUnsubscribeMessage msgId topic

/-- What goes into the packet is below 2^28 bytes, and a topic in a request fits its length. -/
def Emission.Sized : Emission → Prop
  | .publish topic data => 2 + topic.length + data.length < 2 ^ 28
  | .subAck _ topics => ∀ t ∈ topics, t.1.length < 2 ^ 16
  | .unsubAck _ topics => ∀ t ∈ topics, t.length < 2 ^ 16
  | .subscribe _ topics topic =>
    match topic with
    | some topic => 2 + (subscribeEntry topic).length < 2 ^ 28
    | none => 2 + (topics.flatMap subscribeEntry).length < 2 ^ 28
  | .unsubscribe _ topic => 4 + topic.length < 2 ^ 28

/-- When the framing is right. -/
def Emission.Good : Emission → Prop
  | .publish topic data =>
    ∀ d ∈ (Nat.digits 128 (2 + topic.length + data.length)).dropLast, d = 127
  | .subAck _ topics => topics.length ≤ 125
  | .unsubAck _ topics => topics.length ≤ 125
  | .subscribe _ _ _ => True
  | .unsubscribe _ _ => False

theorem framed_put_iff {control : Byte} {body rest : List Byte} (hpos : body ≠ [])
    (h : body.length < 2 ^ 28) :
    Framed (control :: (putVariableLength (BitVec.ofNat 32 body.length) ++ rest)) ↔
      rest.length = body.length := by
  have hval : (BitVec.ofNat 32 body.length).toNat = body.length := toNat_ofNat_of_lt (by omega)
  have hne : BitVec.ofNat 32 body.length ≠ 0 := by
    intro h0
    rw [h0] at hval
    exact hpos (List.length_eq_zero_iff.mp hval.symm)
  have hread := readLength_put hne (by omega) rest
  rw [hval] at hread
  exact framed_of_readLength hread

theorem framed_subscribe {msgId : BitVec 16} {topics : List (List Byte)}
    {topic : Option (List Byte)} (h : (Emission.subscribe msgId topics topic).Sized) :
    Framed (createSubscribeMessage msgId topics topic) := by
  cases topic with
  | some topic =>
    refine (framed_put_iff (by simp [be16Bytes]) ?_).mpr rfl
    rw [List.length_append, be16Bytes_length]
    exact h
  | none =>
    refine (framed_put_iff (by simp [be16Bytes]) ?_).mpr rfl
    rw [List.length_append, be16Bytes_length]
    exact h

theorem not_framed_unsubscribe {msgId : BitVec 16} {topic : List Byte}
    (h : 4 + topic.length < 2 ^ 28) : ¬Framed (createUnsubscribeMessage msgId topic) := by
  have hlen : (be16Bytes msgId ++
      BitVec.ofNat 8 (topic.length >>> 8) :: BitVec.ofNat 8 topic.length :: topic).length =
      4 + topic.length := by
    rw [List.length_append, be16Bytes_length, List.length_cons, List.length_cons]
    omega
  intro hframed
  rw [createUnsubscribeMessage, ← List.append_nil (putVariableLength _)] at hframed
  have he := (framed_put_iff (by simp [be16Bytes]) (by rw [hlen]; exact h)).mp hframed
  rw [hlen, List.length_nil] at he
  omega

/-- Which of the packets that are sent are framed as the protocol wants it. -/
theorem emitted_framed_iff (e : Emission) (h : e.Sized) : Framed e.bytes ↔ e.Good := by
  cases e with
  | publish topic data => exact framed_publish_iff h
  | subAck msgId topics =>
    have htopics : subscribeTopics (request msgId (topics.map fun t => (t.1, [t.2]))) =
        (topics.map fun t => (t.1, [t.2])).map Prod.fst := by
      refine topicsFrom_request_start fun e he => ?_
      obtain ⟨t, ht, rfl⟩ := List.mem_map.mp he
      exact ⟨h t ht, rfl⟩
    rw [Emission.bytes, Mqtt.subAck, framed_ackReply_iff, htopics]
    simp only [List.length_map]
    rfl
  | unsubAck msgId topics =>
    have htopics : unsubscribeTopics (request msgId (topics.map fun t => (t, []))) =
        (topics.map fun t => (t, ([] : List Byte))).map Prod.fst := by
      refine topicsFrom_request_start fun e he => ?_
      obtain ⟨t, ht, rfl⟩ := List.mem_map.mp he
      exact ⟨h t ht, rfl⟩
    rw [Emission.bytes, Mqtt.unsubAck, framed_ackReply_iff, htopics]
    simp only [List.length_map]
    rfl
  | subscribe msgId topics topic => exact iff_of_true (framed_subscribe h) trivial
  | unsubscribe msgId topic => exact iff_of_false (not_framed_unsubscribe h) id

theorem emitted_framed_publish_127 :
    Framed (Emission.publish [0x74] (List.replicate 124 0)).bytes :=
  (emitted_framed_iff (.publish [0x74] (List.replicate 124 0)) (by
    rw [Emission.Sized, List.length_replicate]
    decide)).mpr (by
    rw [Emission.Good, List.length_replicate]
    decide)

/-- A message of 128 bytes after the header is announced as 255. -/
theorem emitted_not_framed_publish_128 :
    (Emission.publish [0x74] (List.replicate 125 0)).Sized ∧
      ¬Framed (Emission.publish [0x74] (List.replicate 125 0)).bytes := by
  have hsized : 2 + [(0x74 : Byte)].length + (List.replicate 125 (0 : Byte)).length < 2 ^ 28 := by
    rw [List.length_replicate]
    decide
  refine ⟨hsized, fun h => ?_⟩
  have hgood := (framed_publish_iff hsized).mp h
  rw [List.length_replicate] at hgood
  exact absurd hgood (by decide)

end MyIp.Mqtt
