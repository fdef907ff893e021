import MyIp.Foundations.TurnLoop
import MyIp.Mqtt.Packets

/-! # What the MQTT broker reads of a message

For a message of `len` bytes `mqtt_recv_thread` allocates `len + 1` and sets the last one to 0. The
branches for PUBLISH, SUBSCRIBE and UNSUBSCRIBE are here as the indices that they read, with the
loops over the topics as loops on the offset `o`. A topic is cut to the bytes that are left, but the
two bytes of its length are not subtracted, so a topic that is cut ends two bytes behind the end of
the message.

The loops end for all messages (`topic_loops_end`); `message_reads_iff` says for which messages all
indices are inside the array. -/

namespace MyIp.Mqtt
set_option autoImplicit false

open Bytes TurnLoop StateTransition

/-- `len` -/
def lenOf (msg : List Byte) : BitVec 32 := BitVec.ofNat 32 msg.length

/-- The size of the array, `len + 1` in 32 bits. -/
def allocated (msg : List Byte) : ℕ := (lenOf msg + 1).toNat

/-- The two bytes at an offset as a number; behind the message comes the 0 that was added to it. -/
def lengthAt (msg : List Byte) (o : ℕ) : ℕ := (be16 (msg.getD o 0) (msg.getD (o + 1) 0)).toNat

/-! ## PUBLISH -/

/-- The payload from the offset `o` on, which `publish` reads if there is any. -/
def payloadReads (msg : List Byte) (o : ℕ) : List ℕ :=
  let payloadLen := (lenOf msg - BitVec.ofNat 32 o).toInt
  if 0 < payloadLen then List.range' o payloadLen.toNat else []

/-- The indices that are read for a PUBLISH. A topic of negative length throws. -/
def publishReads (control : Byte) (msg : List Byte) : List ℕ :=
  let topicLen : ℤ := min (lengthAt msg 0 : ℤ) (lenOf msg).toInt
  [0, 1] ++
    if topicLen < 0 then []
    else
      let o := 2 + topicLen.toNat
      List.range' 2 topicLen.toNat ++
        if (control >>> 1) &&& 3 ≠ 0 then [o, o + 1] ++ payloadReads msg (o + 2)
        else payloadReads msg o

/-! ## SUBSCRIBE and UNSUBSCRIBE -/

/-- `topic_len` at an offset. -/
def topicLenAt (msg : List Byte) (o : BitVec 32) : ℤ :=
  min (lengthAt msg o.toNat : ℤ) (lenOf msg - o).toInt

/-- A turn of the loop over the topics, with `extra` bytes behind each; it is left at the end of the
message, and by the exception for a negative length. -/
def topicTurn (msg : List Byte) (extra : ℕ) (o : BitVec 32) : Option (BitVec 32) :=
  if o < lenOf msg then
    if topicLenAt msg o < 0 then none
    else some (o + (2 + BitVec.ofInt 32 (topicLenAt msg o)) + BitVec.ofNat 32 extra)
  else none

/-- The indices that a turn reads: the length, the topic, and in a SUBSCRIBE the QoS, if it is
logged. -/
def turnReads (msg : List Byte) (qosLogged : Bool) (o : BitVec 32) : List ℕ :=
  if o < lenOf msg then
    [o.toNat, o.toNat + 1] ++
      if topicLenAt msg o < 0 then []
      else
        List.range' (o.toNat + 2) (topicLenAt msg o).toNat ++
          if qosLogged then [o.toNat + 2 + (topicLenAt msg o).toNat] else []
  else []

/-! ## The branches -/

/-- All reads of the branch for the message are inside the array. -/
def ReadsInside (logDebug : Bool) (control : Byte) (msg : List Byte) : Prop :=
  if control >>> 4 = 3 then ∀ i ∈ publishReads control msg, i < allocated msg
  else if control >>> 4 = 8 then
    (∀ i ∈ [0, 1], i < allocated msg) ∧ ∀ o, Reaches (topicTurn msg 1) 2 o →
      ∀ i ∈ turnReads msg logDebug o, i < allocated msg
  else if control >>> 4 = 10 then
    (∀ i ∈ [0, 1], i < allocated msg) ∧ ∀ o, Reaches (topicTurn msg 0) 2 o →
      ∀ i ∈ turnReads msg false o, i < allocated msg
  else True

/-- The offsets of the entries, if each is as long as it says. -/
inductive EntryAt (msg : List Byte) (extra : ℕ) : ℕ → Prop
  | first (h : 2 < msg.length) : EntryAt msg extra 2
  | next {o : ℕ} (before : EntryAt msg extra o)
      (h : o + 2 + lengthAt msg o + extra < msg.length) :
      EntryAt msg extra (o + 2 + lengthAt msg o + extra)

/-- There is a byte, and every entry ends at most one byte behind the message; not even that if the
byte behind its topic is read. -/
def EntriesFit (msg : List Byte) (extra : ℕ) (qosLogged : Bool) : Prop :=
  1 ≤ msg.length ∧ ∀ o, EntryAt msg extra o →
    o + 1 + lengthAt msg o + qosLogged.toNat ≤ msg.length

/-- When the reads are inside: for a length that is no `int` the topic throws at once. -/
def Readable (logDebug : Bool) (control : Byte) (msg : List Byte) : Prop :=
  if control >>> 4 = 3 then
    msg.length ≠ 2 ^ 32 - 1 ∧ (msg.length < 2 ^ 31 → lengthAt msg 0 < msg.length ∧
      ((control >>> 1) &&& 3 ≠ 0 → lengthAt msg 0 + 3 ≤ msg.length))
  else if control >>> 4 = 8 then
    msg.length ≠ 2 ^ 32 - 1 ∧ (msg.length < 2 ^ 31 + 2 → EntriesFit msg 1 logDebug)
  else if control >>> 4 = 10 then
    msg.length ≠ 2 ^ 32 - 1 ∧ (msg.length < 2 ^ 31 + 2 → EntriesFit msg 0 false)
  else True

section Proofs
variable {msg : List Byte}

theorem lenOf_toNat (h : msg.length < 2 ^ 32) : (lenOf msg).toNat = msg.length :=
  toNat_ofNat_of_lt h

theorem allocated_eq (h : msg.length < 2 ^ 32 - 1) : allocated msg = msg.length + 1 := by
  rw [allocated, BitVec.toNat_add, lenOf_toNat (by omega), show (1 : BitVec 32).toNat = 1 from rfl]
  omega

/-- The sum is 0 in 32 bits. -/
theorem allocated_max (h : msg.length = 2 ^ 32 - 1) : allocated msg = 0 := by
  rw [allocated, BitVec.toNat_add, lenOf_toNat (by omega), h]
  rfl

/-- The rest of the message as an `int`. -/
theorem rest_toInt (h : msg.length < 2 ^ 32) {o : BitVec 32} (ho : o.toNat ≤ msg.length) :
    (lenOf msg - o).toInt = if msg.length - o.toNat < 2 ^ 31 then ((msg.length - o.toNat : ℕ) : ℤ)
      else (msg.length - o.toNat : ℕ) - 2 ^ 32 := by
  have hsub : (lenOf msg - o).toNat = msg.length - o.toNat := by
    have := o.isLt
    rw [BitVec.toNat_sub, lenOf_toNat h]
    omega
  rw [BitVec.toInt_eq_toNat_cond, hsub]
  split_ifs <;> omega

theorem payload_inside (h : msg.length < 2 ^ 31) {o : ℕ} (ho : o < 2 ^ 30) :
    ∀ i ∈ payloadReads msg o, i < msg.length := by
  intro i hi
  unfold payloadReads at hi
  dsimp only at hi
  have hsub : (lenOf msg - BitVec.ofNat 32 o).toInt = msg.length - o := by
    rw [BitVec.toInt_sub, lenOf, BitVec.toInt_ofNat', BitVec.toInt_ofNat', Int.bmod_def,
      Int.bmod_def, Int.bmod_def]
    omega
  rw [hsub] at hi
  split at hi
  · rw [List.mem_range'_1] at hi
    omega
  · cases hi

theorem lengthAt_lt (msg : List Byte) (o : ℕ) : lengthAt msg o < 2 ^ 16 := BitVec.isLt _

/-- A message of 2^31 bytes or more: the topic throws before it is read. -/
theorem publishReads_long (control : Byte) (h : msg.length < 2 ^ 32) (hlong : 2 ^ 31 ≤ msg.length) :
    publishReads control msg = [0, 1] := by
  have hneg : (lenOf msg).toInt < 0 := by
    rw [BitVec.toInt_eq_toNat_cond, lenOf_toNat h]
    split_ifs <;> omega
  rw [publishReads]
  dsimp only
  rw [if_pos (lt_of_le_of_lt (min_le_right _ _) hneg), List.append_nil]

theorem topic_len_eq (h : msg.length < 2 ^ 31) :
    min (lengthAt msg 0 : ℤ) (lenOf msg).toInt = (min (lengthAt msg 0) msg.length : ℕ) := by
  have hint : (lenOf msg).toInt = msg.length := by
    rw [BitVec.toInt_eq_toNat_of_lt (by rw [lenOf_toNat (by omega)]; omega),
      lenOf_toNat (by omega)]
  rw [hint, Nat.cast_min]

/-- The reads of a shorter message: the length, the topic, the message id and the payload. -/
theorem mem_publishReads_iff (control : Byte) (h : msg.length < 2 ^ 31) {i : ℕ} :
    let topicLen := min (lengthAt msg 0) msg.length
    i ∈ publishReads control msg ↔ i < 2 + topicLen ∨
      if (control >>> 1) &&& 3 ≠ 0 then i = 2 + topicLen ∨ i = 3 + topicLen ∨
        i ∈ payloadReads msg (4 + topicLen)
      else i ∈ payloadReads msg (2 + topicLen) := by
  intro topicLen
  rw [publishReads]
  dsimp only
  rw [topic_len_eq h, if_neg (by omega), Int.toNat_natCast]
  change i ∈ [0, 1] ++ (List.range' 2 topicLen ++ _) ↔ _
  rw [List.mem_append, List.mem_append, List.mem_range'_1]
  have hstart : i ∈ [0, 1] ↔ i < 2 := by
    simp only [List.mem_cons, List.not_mem_nil, or_false]
    omega
  rw [hstart, ← or_assoc]
  refine or_congr (by omega) ?_
  split
  · rw [List.mem_append, show 2 + topicLen + 2 = 4 + topicLen by omega]
    simp only [List.mem_cons, List.not_mem_nil, or_false, or_assoc]
    rw [show 2 + topicLen + 1 = 3 + topicLen by omega]
  · rfl

theorem publish_inside_iff (control : Byte) (h : msg.length < 2 ^ 32) :
    (∀ i ∈ publishReads control msg, i < allocated msg) ↔
      msg.length ≠ 2 ^ 32 - 1 ∧ (msg.length < 2 ^ 31 → lengthAt msg 0 < msg.length ∧
        ((control >>> 1) &&& 3 ≠ 0 → lengthAt msg 0 + 3 ≤ msg.length)) := by
  have hL := lengthAt_lt msg 0
  by_cases hmax : msg.length = 2 ^ 32 - 1
  · rw [allocated_max hmax, publishReads_long control h (by omega)]
    exact iff_of_false (fun h' => absurd (h' 0 List.mem_cons_self) (by omega)) fun h' => h'.1 hmax
  rw [and_iff_right hmax, allocated_eq (by omega)]
  by_cases hlong : 2 ^ 31 ≤ msg.length
  · rw [publishReads_long control h hlong]
    refine iff_of_true ?_ fun h' => by omega
    intro i hi
    simp only [List.mem_cons, List.not_mem_nil, or_false] at hi
    omega
  have hshort : msg.length < 2 ^ 31 := by omega
  rw [imp_iff_right hshort]
  simp only [mem_publishReads_iff control hshort]
  constructor
  · intro h'
    have htopic := h' (1 + min (lengthAt msg 0) msg.length) (Or.inl (by omega))
    refine ⟨by omega, fun hqos => ?_⟩
    have hid := h' (3 + min (lengthAt msg 0) msg.length)
      (Or.inr (by rw [if_pos hqos]; exact Or.inr (Or.inl rfl)))
    omega
  · rintro ⟨htopic, hid⟩ i (hi | hi)
    · omega
    · split at hi
      · rename_i hqos
        have hid := hid hqos
        rcases hi with rfl | rfl | hi
        · omega
        · omega
        · have := payload_inside hshort (by omega) i hi
          omega
      · have := payload_inside hshort (by omega) i hi
        omega

/-! ## The loops over the topics -/

/-- A topic as it is cut. -/
def cutLength (msg : List Byte) (o : ℕ) : ℕ := min (lengthAt msg o) (msg.length - o)

theorem topicLenAt_eq (h : msg.length < 2 ^ 32) {o : BitVec 32} (ho : o.toNat < msg.length)
    (hrest : msg.length - o.toNat < 2 ^ 31) : topicLenAt msg o = cutLength msg o.toNat := by
  rw [topicLenAt, rest_toInt h (by omega), if_pos hrest, cutLength, Nat.cast_min]

theorem topicLenAt_neg (h : msg.length < 2 ^ 32) {o : BitVec 32} (ho : o.toNat < msg.length)
    (hrest : 2 ^ 31 ≤ msg.length - o.toNat) : topicLenAt msg o < 0 := by
  rw [topicLenAt, rest_toInt h (by omega), if_neg (by omega)]
  exact lt_of_le_of_lt (min_le_right _ _) (by omega)

theorem lt_lenOf_iff (h : msg.length < 2 ^ 32) (o : BitVec 32) :
    o < lenOf msg ↔ o.toNat < msg.length := by
  rw [BitVec.lt_def, lenOf_toNat h]

/-- One turn, as long as the offset stays below 2^32. -/
theorem topicTurn_eq {extra : ℕ} (hshort : msg.length < 2 ^ 31 + 2) (hextra : extra ≤ 1)
    {o : BitVec 32} (ho : o.toNat < msg.length) (hrest : msg.length - o.toNat < 2 ^ 31) :
    ∃ t, topicTurn msg extra o = some t ∧
      t.toNat = o.toNat + 2 + cutLength msg o.toNat + extra := by
  have hcut : cutLength msg o.toNat ≤ msg.length - o.toNat := min_le_right _ _
  have hint : BitVec.ofInt 32 (cutLength msg o.toNat) = BitVec.ofNat 32 (cutLength msg o.toNat) :=
    BitVec.ofInt_natCast 32 _
  refine ⟨o + (2 + BitVec.ofNat 32 (cutLength msg o.toNat)) + BitVec.ofNat 32 extra, ?_, ?_⟩
  · rw [topicTurn, if_pos ((lt_lenOf_iff (by omega) o).mpr ho), topicLenAt_eq (by omega) ho hrest,
      if_neg (by omega), hint]
  · rw [BitVec.toNat_add, BitVec.toNat_add, BitVec.toNat_add, BitVec.toNat_ofNat,
      BitVec.toNat_ofNat, show (2 : BitVec 32).toNat = 2 from rfl]
    omega

theorem topicTurn_some {extra : ℕ} (hshort : msg.length < 2 ^ 31 + 2) (hextra : extra ≤ 1)
    {o t : BitVec 32} (h : topicTurn msg extra o = some t) :
    o.toNat < msg.length ∧ msg.length - o.toNat < 2 ^ 31 ∧
      t.toNat = o.toNat + 2 + cutLength msg o.toNat + extra := by
  have hturn := h
  unfold topicTurn at hturn
  obtain ⟨ho, hturn⟩ := Option.ite_none_right_eq_some.mp hturn
  rw [lt_lenOf_iff (by omega)] at ho
  have hrest : msg.length - o.toNat < 2 ^ 31 := by
    by_contra hlong
    rw [if_pos (topicLenAt_neg (by omega) ho (by omega))] at hturn
    cases hturn
  obtain ⟨t', ht', hval⟩ := topicTurn_eq hshort hextra ho hrest
  obtain rfl := Option.some.inj (ht'.symm.trans h)
  exact ⟨ho, hrest, hval⟩

/-- A message of more than 2^31 + 1 bytes: the first topic throws. -/
theorem topicTurn_long {extra : ℕ} (h : msg.length < 2 ^ 32) (hlong : 2 ^ 31 + 2 ≤ msg.length) :
    topicTurn msg extra 2 = none := by
  have htwo : (2 : BitVec 32).toNat = 2 := rfl
  rw [topicTurn, if_pos ((lt_lenOf_iff h 2).mpr (by omega)),
    if_pos (topicLenAt_neg h (by omega) (by omega))]

/-- Every turn moves on by two bytes or more, so the loops over the topics end. -/
theorem topic_loops_end {extra : ℕ} (h : msg.length < 2 ^ 32) (hextra : extra ≤ 1) :
    Ends (topicTurn msg extra) 2 := by
  by_cases hlong : 2 ^ 31 + 2 ≤ msg.length
  · exact ends_of_left (topicTurn_long h hlong)
  · have hmove : ∀ o t, topicTurn msg extra o = some t →
        msg.length - t.toNat < msg.length - o.toNat := by
      intro o t ht
      obtain ⟨ho, -, hval⟩ := topicTurn_some (by omega) hextra ht
      omega
    rw [ends_iff_moves (fun o => msg.length - o.toNat) fun o t ht => Or.inl (hmove o t ht)]
    intro o _ hstill
    exact absurd (hmove o o hstill) (lt_irrefl _)

/-- The offsets that the loop comes to are not in the header. -/
theorem two_le_of_reaches {extra : ℕ} (hshort : msg.length < 2 ^ 31 + 2) (hextra : extra ≤ 1)
    {o : BitVec 32} (h : Reaches (topicTurn msg extra) 2 o) : 2 ≤ o.toNat := by
  induction h with
  | refl => exact le_rfl
  | tail _ made ih =>
    have := (topicTurn_some hshort hextra made).2.2
    omega

theorem mem_turnReads_iff (hshort : msg.length < 2 ^ 31 + 2) {qosLogged : Bool} {o : BitVec 32}
    (h2 : 2 ≤ o.toNat) {i : ℕ} :
    i ∈ turnReads msg qosLogged o ↔ o.toNat < msg.length ∧ o.toNat ≤ i ∧
      i < o.toNat + 2 + cutLength msg o.toNat + qosLogged.toNat := by
  unfold turnReads
  have hlt := lt_lenOf_iff (show msg.length < 2 ^ 32 by omega) o
  by_cases ho : o.toNat < msg.length
  · rw [if_pos (hlt.mpr ho), topicLenAt_eq (by omega) ho (by omega), if_neg (by omega),
      Int.toNat_natCast, and_iff_right ho]
    cases qosLogged with
    | false =>
      rw [if_neg Bool.false_ne_true, List.append_nil]
      simp only [List.mem_append, List.mem_cons, List.not_mem_nil, or_false,
        List.mem_range'_1, Bool.toNat_false]
      omega
    | true =>
      rw [if_pos rfl]
      simp only [List.mem_append, List.mem_cons, List.not_mem_nil, or_false,
        List.mem_range'_1, Bool.toNat_true]
      omega
  · rw [if_neg (mt hlt.mp ho)]
    exact iff_of_false (by simp) fun h => ho h.1

/-- The reads of a turn are inside exactly if its topic is not cut, and ends in time. -/
theorem turn_inside_iff (hshort : msg.length < 2 ^ 31 + 2) {qosLogged : Bool} {o : BitVec 32}
    (h2 : 2 ≤ o.toNat) (ho : o.toNat < msg.length) :
    (∀ i ∈ turnReads msg qosLogged o, i < msg.length + 1) ↔
      o.toNat + 1 + lengthAt msg o.toNat + qosLogged.toNat ≤ msg.length := by
  simp only [mem_turnReads_iff hshort h2, cutLength]
  have hlog : qosLogged.toNat ≤ 1 := Bool.toNat_le qosLogged
  constructor
  · intro h
    have hlast := h (o.toNat + 1 + min (lengthAt msg o.toNat) (msg.length - o.toNat) +
      qosLogged.toNat) ⟨ho, by omega, by omega⟩
    omega
  · rintro h i ⟨-, -, hi⟩
    omega

/-- As long as no topic is cut, the loop comes to the entries. -/
theorem entryAt_of_reaches {extra : ℕ} {qosLogged : Bool} (hshort : msg.length < 2 ^ 31 + 2)
    (hextra : extra ≤ 1) (hfit : ∀ o, EntryAt msg extra o →
      o + 1 + lengthAt msg o + qosLogged.toNat ≤ msg.length) {o : BitVec 32}
    (h : Reaches (topicTurn msg extra) 2 o) (ho : o.toNat < msg.length) :
    EntryAt msg extra o.toNat := by
  induction h with
  | refl => exact EntryAt.first ho
  | @tail o t _ made ih =>
    obtain ⟨hlt, -, hval⟩ := topicTurn_some hshort hextra made
    have hentry := ih hlt
    have hbound := hfit _ hentry
    have huncut : cutLength msg o.toNat = lengthAt msg o.toNat := min_eq_left (by omega)
    rw [huncut] at hval
    rw [hval] at ho ⊢
    exact EntryAt.next hentry ho

theorem entryAt_lt {extra o : ℕ} (h : EntryAt msg extra o) : 2 ≤ o ∧ o < msg.length := by
  induction h with
  | first h => exact ⟨le_rfl, h⟩
  | next _ h ih => exact ⟨by omega, h⟩

theorem reaches_of_entryAt {extra : ℕ} {qosLogged : Bool} (hshort : msg.length < 2 ^ 31 + 2)
    (hextra : extra ≤ 1) (hinside : ∀ o, Reaches (topicTurn msg extra) 2 o →
      ∀ i ∈ turnReads msg qosLogged o, i < msg.length + 1) {o : ℕ} (h : EntryAt msg extra o) :
    ∃ b, Reaches (topicTurn msg extra) 2 b ∧ b.toNat = o := by
  induction h with
  | first h => exact ⟨2, Relation.ReflTransGen.refl, rfl⟩
  | @next o before hlt ih =>
    obtain ⟨b, hreach, rfl⟩ := ih
    obtain ⟨h2, ho⟩ := entryAt_lt before
    have hbound := (turn_inside_iff hshort h2 ho).mp (hinside b hreach)
    obtain ⟨t, ht, hval⟩ := topicTurn_eq hshort hextra ho (by omega)
    have huncut : cutLength msg b.toNat = lengthAt msg b.toNat := min_eq_left (by omega)
    exact ⟨t, hreach.tail ht, by rw [hval, huncut]⟩

theorem loop_inside_iff {extra : ℕ} {qosLogged : Bool} (h : msg.length < 2 ^ 32)
    (hextra : extra ≤ 1) :
    ((∀ i ∈ [0, 1], i < allocated msg) ∧ ∀ o, Reaches (topicTurn msg extra) 2 o →
        ∀ i ∈ turnReads msg qosLogged o, i < allocated msg) ↔
      msg.length ≠ 2 ^ 32 - 1 ∧ (msg.length < 2 ^ 31 + 2 → EntriesFit msg extra qosLogged) := by
  by_cases hmax : msg.length = 2 ^ 32 - 1
  · rw [allocated_max hmax]
    exact iff_of_false (fun h' => absurd (h'.1 0 List.mem_cons_self) (by omega)) fun h' => h'.1 hmax
  rw [and_iff_right hmax, allocated_eq (by omega)]
  by_cases hlong : 2 ^ 31 + 2 ≤ msg.length
  · refine iff_of_true ⟨fun i hi => ?_, fun o hreach i hi => ?_⟩ fun h' => by omega
    · simp only [List.mem_cons, List.not_mem_nil, or_false] at hi
      omega
    -- the loop does not get behind its first turn, which reads the length only
    · obtain rfl : o = 2 := by
        rcases Relation.ReflTransGen.cases_head hreach with rfl | ⟨t, ht, -⟩
        · rfl
        · rw [Option.mem_def, topicTurn_long h hlong] at ht
          cases ht
      have htwo : (2 : BitVec 32).toNat = 2 := rfl
      rw [turnReads, if_pos ((lt_lenOf_iff h 2).mpr (by omega)),
        if_pos (topicLenAt_neg h (by omega) (by omega)), htwo] at hi
      simp only [List.append_nil, List.mem_cons, List.not_mem_nil, or_false] at hi
      omega
  have hshort : msg.length < 2 ^ 31 + 2 := by omega
  rw [imp_iff_right hshort, EntriesFit]
  refine and_congr ?_ ?_
  · simp only [List.mem_cons, List.not_mem_nil, or_false, forall_eq_or_imp, forall_eq]
    omega
  · constructor
    · intro hinside o hentry
      obtain ⟨b, hreach, rfl⟩ := reaches_of_entryAt hshort hextra hinside hentry
      obtain ⟨h2, ho⟩ := entryAt_lt hentry
      exact (turn_inside_iff hshort h2 ho).mp (hinside b hreach)
    · intro hfit o hreach
      have h2 := two_le_of_reaches hshort hextra hreach
      by_cases ho : o.toNat < msg.length
      · exact (turn_inside_iff hshort h2 ho).mpr
          (hfit _ (entryAt_of_reaches hshort hextra hfit hreach ho))
      · intro i hi
        exact absurd ((mem_turnReads_iff hshort h2).mp hi).1 ho

end Proofs

/-- The reads of the broker are inside the array if and only if the lengths in the message fit into
it, and its loops end for every message. -/
theorem message_reads_iff (logDebug : Bool) (control : Byte) (msg : List Byte)
    (h : msg.length < 2 ^ 32) :
    (ReadsInside logDebug control msg ↔ Readable logDebug control msg) ∧
      Ends (topicTurn msg 1) 2 ∧ Ends (topicTurn msg 0) 2 := by
  refine ⟨?_, topic_loops_end h le_rfl, topic_loops_end h zero_le_one⟩
  unfold ReadsInside Readable
  split
  · exact publish_inside_iff control h
  · split
    · exact loop_inside_iff h le_rfl
    · split
      · exact loop_inside_iff h zero_le_one
      · exact Iff.rfl

/-- A PUBLISH to a topic of one byte, without a message id. -/
theorem message_reads_publish : ReadsInside true 0x30 [0, 1, 0x61, 0x62] := by
  refine (message_reads_iff true 0x30 [0, 1, 0x61, 0x62] (by decide)).1.mpr ?_
  rw [Readable, if_pos (by decide)]
  decide +kernel

/-- A PUBLISH of two bytes that announces a topic of 256, a SUBSCRIBE without content, and an
UNSUBSCRIBE whose only topic is longer than what is left. -/
theorem message_reads_outside :
    ¬ ReadsInside false 0x30 [1, 0] ∧ ¬ ReadsInside false 0x82 [] ∧
      ¬ ReadsInside false 0xa2 [0, 7, 0, 9] := by
  refine ⟨fun h => ?_, fun h => ?_, fun h => ?_⟩
  · rw [ReadsInside, if_pos (by decide)] at h
    exact absurd (h 3 (by decide +kernel)) (by decide +kernel)
  · rw [ReadsInside, if_neg (by decide), if_pos (by decide)] at h
    exact absurd (h.1 1 (by decide)) (by decide +kernel)
  · rw [ReadsInside, if_neg (by decide), if_neg (by decide), if_pos (by decide)] at h
    exact absurd (h.2 2 Relation.ReflTransGen.refl 5 (by decide +kernel)) (by decide +kernel)

end MyIp.Mqtt
