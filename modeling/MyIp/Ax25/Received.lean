import MyIp.Ax25.Packet

/-! # Packets that were received

What a packet is that the constructor has read from the bytes of a frame and found valid
(`Received`): its addresses are such as can be written again, it has at most two repeaters, and its
frame is as long as the bytes it was read from. From a frame cut short nothing is read, or a packet
that is valid too: the same with less data if the cut is behind the control bytes. -/

namespace MyIp.Ax25.Ax25Packet
set_option autoImplicit false

open Bytes

/-- Written back and read again, an address is the same. -/
def Settled (a : Ax25Address) : Prop := a.Encodable ∧ asRead a = a

theorem settled_ofBytes {bytes : List Byte} (h : (Ax25Address.ofBytes bytes).valid = true) :
    Settled (.ofBytes bytes) :=
  ⟨Ax25Address.ofBytes_encodable h, (Ax25Address.ofBytes_eq_ofCallsign h).symm⟩

/-! ## The loop over the repeaters -/

/-- One turn of the loop that does not end it. -/
theorem repeatersFrom_turn {input : List Byte} {turns offset : ℕ} {found : List Ax25Address}
    {r : Option String × List Ax25Address × ℕ}
    (h : repeatersFrom input (turns + 1) offset false found = some r) :
    offset + 7 ≤ input.length ∧
      (let a := Ax25Address.ofBytes ((input.drop offset).take 7)
       (a.valid = true ∧ repeatersFrom input turns (offset + 7) a.endMark (found ++ [a]) = some r) ∨
       (a.valid = false ∧ r = (some ("via invalid: " ++ a.invalidReason), found, offset + 7))) := by
  rw [repeatersFrom, if_neg (by simp)] at h
  split at h
  · exact absurd h (by simp)
  · rename_i hlen
    refine ⟨Nat.le_of_not_lt hlen, ?_⟩
    simp only at h
    split at h
    · rename_i hvalid
      exact .inl ⟨hvalid, h⟩
    · rename_i hvalid
      exact .inr ⟨by simpa using hvalid, (Option.some.inj h).symm⟩

theorem repeatersFrom_end (input : List Byte) (turns offset : ℕ) (found : List Ax25Address) :
    repeatersFrom input turns offset true found = some (none, found, offset) := by
  cases turns <;> simp [repeatersFrom]

/-- What a complete loop has read: at most `turns` addresses of seven bytes each, and one at least
if the first end mark was not set. -/
theorem repeatersFrom_spec {input : List Byte} {turns offset : ℕ} {endMark : Bool}
    {found repeaters : List Ax25Address} {last : ℕ}
    (h : repeatersFrom input turns offset endMark found = some (none, repeaters, last)) :
    ∃ more, repeaters = found ++ more ∧ more.length ≤ turns ∧ last = offset + 7 * more.length ∧
      (∀ a ∈ more, Settled a) ∧ (more = [] → 0 < turns → endMark = true) := by
  induction turns generalizing offset endMark found with
  | zero =>
    obtain ⟨rfl, rfl⟩ : found = repeaters ∧ offset = last := by simpa [repeatersFrom] using h
    exact ⟨[], by simp⟩
  | succ turns ih =>
    cases endMark with
    | true =>
      rw [repeatersFrom_end] at h
      obtain ⟨rfl, rfl⟩ : found = repeaters ∧ offset = last := by simpa using h
      exact ⟨[], by simp⟩
    | false =>
      obtain ⟨-, ⟨hvalid, hnext⟩ | ⟨-, hr⟩⟩ := repeatersFrom_turn h
      · obtain ⟨more, rfl, hlen, rfl, hsettled, -⟩ := ih hnext
        refine ⟨_ :: more, by rw [List.append_assoc, List.singleton_append], ?_, ?_, ?_, by simp⟩
        · rw [List.length_cons]
          omega
        · rw [List.length_cons]
          omega
        · intro a ha
          rcases List.mem_cons.mp ha with rfl | ha
          · exact settled_ofBytes hvalid
          · exact hsettled a ha
      · exact absurd hr (by simp)

/-- If the loop ends inside the first `n` bytes, it does the same with what follows them. -/
theorem repeatersFrom_take {input : List Byte} {n turns offset : ℕ} {endMark : Bool}
    {found : List Ax25Address} {r : Option String × List Ax25Address × ℕ}
    (h : repeatersFrom (input.take n) turns offset endMark found = some r) :
    repeatersFrom input turns offset endMark found = some r := by
  induction turns generalizing offset endMark found with
  | zero => exact h
  | succ turns ih =>
    cases endMark with
    | true => rwa [repeatersFrom_end] at h ⊢
    | false =>
      obtain ⟨hlen, hcases⟩ := repeatersFrom_turn h
      rw [List.length_take] at hlen
      have hsame : ((input.take n).drop offset).take 7 = (input.drop offset).take 7 := by
        rw [List.drop_take, List.take_take, Nat.min_eq_left (by omega)]
      rw [hsame] at hcases
      rw [repeatersFrom, if_neg (by simp), if_neg (by omega)]
      rcases hcases with ⟨hvalid, hnext⟩ | ⟨hvalid, rfl⟩
      · simp only [hvalid, if_true]
        exact ih hnext
      · simp [hvalid]

/-- What ends inside the first `n` bytes is read from them alone. -/
theorem repeatersFrom_of_le {input : List Byte} {n turns offset last : ℕ} {endMark : Bool}
    {found repeaters : List Ax25Address}
    (h : repeatersFrom input turns offset endMark found = some (none, repeaters, last))
    (hn : last ≤ n) :
    repeatersFrom (input.take n) turns offset endMark found = some (none, repeaters, last) := by
  induction turns generalizing offset endMark found with
  | zero => exact h
  | succ turns ih =>
    cases endMark with
    | true => rwa [repeatersFrom_end] at h ⊢
    | false =>
      obtain ⟨hlen, ⟨hvalid, hnext⟩ | ⟨-, hr⟩⟩ := repeatersFrom_turn h
      · obtain ⟨more, -, -, hlast, -⟩ := repeatersFrom_spec hnext
        have hlen' : ¬(input.take n).length < offset + 7 := by
          rw [List.length_take]
          omega
        have hsame : ((input.take n).drop offset).take 7 = (input.drop offset).take 7 := by
          rw [List.drop_take, List.take_take, Nat.min_eq_left (by omega)]
        rw [repeatersFrom, if_neg Bool.false_ne_true, if_neg hlen', hsame]
        simp only [hvalid, if_true]
        exact ih hnext
      · cases hr

/-! ## A valid packet -/

/-- The packet `p` was read from `input`, `offset` bytes of which are its addresses. -/
structure Received (input : List Byte) (offset : ℕ) (p : Ax25Packet) : Prop where
  long_enough : 14 ≤ input.length
  to_eq : p.toAddr = .ofBytes (input.take 7)
  to_valid : p.toAddr.valid = true
  from_eq : p.fromAddr = .ofBytes ((input.drop 7).take 7)
  from_valid : p.fromAddr.valid = true
  repeaters_eq : repeatersFrom input 2 14 p.fromAddr.endMark [] = some (none, p.repeaters, offset)
  rest_eq : readRest input offset
    { toAddr := p.toAddr, fromAddr := p.fromAddr, repeaters := p.repeaters } = some p

theorem readRest_fields {input : List Byte} {offset : ℕ} {p q : Ax25Packet}
    (h : readRest input offset p = some q) :
    q.valid = true ∧ q.toAddr = p.toAddr ∧ q.fromAddr = p.fromAddr ∧ q.repeaters = p.repeaters ∧
      q.type = frameType q.control ∧ input[offset]? = some q.control ∧
      (hasPid q.control = true → input[offset + 1]? = q.pid ∧ q.pid.isSome = true ∧
        q.data = .ofBytes (input.drop (offset + 2))) ∧
      (hasPid q.control = false → q.pid = p.pid ∧ q.data = .ofBytes (input.drop (offset + 1))) := by
  unfold readRest at h
  cases hcontrol : input[offset]? with
  | none => simp [hcontrol] at h
  | some control =>
    simp only [hcontrol, Option.bind_eq_bind, Option.bind_some] at h
    split at h
    · rename_i hpid
      cases hnext : input[offset + 1]? with
      | none => simp [hnext] at h
      | some pid =>
        simp only [hnext, Option.bind_some, Option.pure_def, Option.some.injEq] at h
        subst h
        simp [hpid]
    · rename_i hpid
      simp only [Option.pure_def, Option.some.injEq] at h
      subst h
      simp [hpid]

theorem received {input : List Byte} {p : Ax25Packet} (h : ofBytes input = some p)
    (hvalid : p.valid = true) : ∃ offset, Received input offset p := by
  unfold ofBytes at h
  split at h
  · obtain rfl := Option.some.inj h
    exact absurd hvalid (by simp)
  rename_i hlen
  simp only at h
  split at h
  · obtain rfl := Option.some.inj h
    exact absurd hvalid (by simp)
  rename_i hto
  split at h
  · obtain rfl := Option.some.inj h
    exact absurd hvalid (by simp)
  rename_i hfrom
  split at h
  · exact absurd h (by simp)
  · obtain rfl := Option.some.inj h
    exact absurd hvalid (by simp)
  · rename_i repeaters offset hrepeaters
    obtain ⟨-, hto', hfrom', hrep', -⟩ := readRest_fields h
    simp only at hto' hfrom' hrep'
    refine ⟨offset, Nat.le_of_not_lt hlen, hto', ?_, hfrom', ?_, ?_, ?_⟩
    · rw [hto']
      simpa using hto
    · rw [hfrom']
      simpa using hfrom
    · rw [hfrom', hrep']
      exact hrepeaters
    · rw [hto', hfrom', hrep']
      exact h

namespace Received

variable {input : List Byte} {offset : ℕ} {p : Ax25Packet}

theorem repeaters_spec (h : Received input offset p) :
    p.repeaters.length ≤ 2 ∧ offset = 14 + 7 * p.repeaters.length ∧
      (∀ a ∈ p.repeaters, Settled a) ∧ (p.repeaters = [] → p.fromAddr.endMark = true) := by
  obtain ⟨more, heq, hlen, hoffset, hsettled, hend⟩ := repeatersFrom_spec h.repeaters_eq
  rw [List.nil_append] at heq
  rw [heq]
  exact ⟨hlen, hoffset, hsettled, fun hnil => hend hnil (by simp)⟩

theorem to_settled (h : Received input offset p) : Settled p.toAddr := by
  rw [h.to_eq]
  exact settled_ofBytes (by rw [← h.to_eq]; exact h.to_valid)

theorem from_settled (h : Received input offset p) : Settled p.fromAddr := by
  rw [h.from_eq]
  exact settled_ofBytes (by rw [← h.from_eq]; exact h.from_valid)

/-- The number of bytes between the addresses and the data. -/
def controlSize (control : Byte) : ℕ := if hasPid control then 2 else 1

theorem rest_spec (h : Received input offset p) :
    offset + controlSize p.control ≤ input.length ∧
      p.data = .ofBytes (input.drop (offset + controlSize p.control)) ∧
      p.pid = (if hasPid p.control then some (p.pid.getD 0) else none) ∧
      p.type = frameType p.control := by
  obtain ⟨-, -, -, -, htype, hcontrol, hwith, hwithout⟩ := readRest_fields h.rest_eq
  obtain ⟨hoffset, -⟩ := List.getElem?_eq_some_iff.mp hcontrol
  cases hpid : hasPid p.control with
  | true =>
    obtain ⟨hnext, hsome, hdata⟩ := hwith hpid
    obtain ⟨pid, hp⟩ := Option.isSome_iff_exists.mp hsome
    rw [hp] at hnext
    obtain ⟨hoffset', -⟩ := List.getElem?_eq_some_iff.mp hnext
    refine ⟨?_, ?_, ?_, htype⟩
    · simp only [controlSize, hpid, if_true]
      omega
    · simpa only [controlSize, hpid, if_true] using hdata
    · simp [hp]
  | false =>
    obtain ⟨hp, hdata⟩ := hwithout hpid
    refine ⟨?_, ?_, ?_, htype⟩
    · simp only [controlSize, hpid, Bool.false_eq_true, if_false]
      omega
    · simpa only [controlSize, hpid, Bool.false_eq_true, if_false] using hdata
    · simpa using hp

end Received

theorem header_length (p : Ax25Packet) :
    p.header.length = 14 + 7 * p.repeaters.length + Received.controlSize p.control := by
  have hvia := markEnd_bytes_length p.repeaters
  rw [header, List.length_append, List.length_append, List.length_append,
    Ax25Address.generateAddress_length, Ax25Address.generateAddress_length, hvia,
    Received.controlSize, List.length_cons]
  split <;> rfl

/-- The frame of a packet is as long as the one it was read from. -/
theorem Received.frame_length {input : List Byte} {offset : ℕ} {p : Ax25Packet}
    (h : Received input offset p) :
    ∃ frame p', p.generatePacket = .ok (frame, p') ∧ frame.length = input.length := by
  obtain ⟨hle, hdata, -⟩ := h.rest_spec
  obtain ⟨-, hoffset, -⟩ := h.repeaters_spec
  obtain ⟨p', hgenerated⟩ := generatePacket_unread hdata
  refine ⟨_, p', hgenerated, ?_⟩
  rw [List.length_append, header_length, List.length_drop]
  omega

theorem readRest_take {input : List Byte} {offset n : ℕ} {p q : Ax25Packet}
    (h : readRest input offset p = some q) (hn : offset + Received.controlSize q.control ≤ n) :
    readRest (input.take n) offset p = some { q with
      data := .ofBytes ((input.take n).drop (offset + Received.controlSize q.control)) } := by
  have htake : ∀ {k : ℕ} {b : Byte}, input[k]? = some b → k < n → (input.take n)[k]? = some b :=
    fun hb hk => by rw [List.getElem?_take_of_lt hk, hb]
  unfold readRest at h
  cases hcontrol : input[offset]? with
  | none => simp [hcontrol] at h
  | some control =>
    simp only [hcontrol, Option.bind_eq_bind, Option.bind_some] at h
    split at h
    · rename_i hpid
      cases hnext : input[offset + 1]? with
      | none => simp [hnext] at h
      | some pid =>
        simp only [hnext, Option.bind_some, Option.pure_def, Option.some.injEq] at h
        subst h
        simp only [Received.controlSize, hpid, if_true] at hn
        simp [readRest, Received.controlSize, hpid, htake hcontrol (by omega),
          htake hnext (by omega)]
    · rename_i hpid
      simp only [Option.pure_def, Option.some.injEq] at h
      subst h
      simp only [Received.controlSize, hpid, Bool.false_eq_true, if_false] at hn
      simp [readRest, Received.controlSize, hpid, htake hcontrol (by omega)]

/-- A valid frame that is cut behind its control bytes has the same packet with less data. -/
theorem Received.shorten {input : List Byte} {offset n : ℕ} {p : Ax25Packet}
    (h : Received input offset p) (hn : offset + controlSize p.control ≤ n) :
    ofBytes (input.take n) = some { p with
      data := .ofBytes ((input.take n).drop (offset + controlSize p.control)) } := by
  obtain ⟨-, hoffset, -⟩ := h.repeaters_spec
  have hlen : ¬(input.take n).length < 14 := by
    have := h.long_enough
    rw [List.length_take]
    omega
  have hto : (input.take n).take 7 = input.take 7 := by
    rw [List.take_take, Nat.min_eq_left (by omega)]
  have hfrom : ((input.take n).drop 7).take 7 = (input.drop 7).take 7 := by
    rw [List.drop_take, List.take_take, Nat.min_eq_left (by omega)]
  have hrepeaters := repeatersFrom_of_le h.repeaters_eq (show offset ≤ n by omega)
  rw [ofBytes, if_neg hlen]
  simp only [hto, hfrom, ← h.to_eq, ← h.from_eq, h.to_valid, h.from_valid, Bool.true_eq_false,
    if_false, hrepeaters]
  exact readRest_take h.rest_eq hn

/-- If the first `n` bytes of a valid frame can be read at all, they are a valid frame. -/
theorem Received.take {input : List Byte} {offset n : ℕ} {p q : Ax25Packet}
    (h : Received input offset p) (hn : 14 ≤ n) (hq : ofBytes (input.take n) = some q) :
    q.valid = true := by
  have hlen : 14 ≤ (input.take n).length := by
    have := h.long_enough
    rw [List.length_take]
    omega
  have hto : (input.take n).take 7 = input.take 7 := by
    rw [List.take_take, Nat.min_eq_left (by omega)]
  have hfrom : ((input.take n).drop 7).take 7 = (input.drop 7).take 7 := by
    rw [List.drop_take, List.take_take, Nat.min_eq_left (by omega)]
  unfold ofBytes at hq
  rw [if_neg (by omega)] at hq
  simp only [hto, hfrom, ← h.to_eq, ← h.from_eq, h.to_valid, h.from_valid, Bool.true_eq_false,
    if_false] at hq
  split at hq
  · exact absurd hq (by simp)
  · rename_i hrepeaters
    have := repeatersFrom_take hrepeaters
    rw [h.repeaters_eq] at this
    exact absurd this (by simp)
  · exact (readRest_fields hq).1

end MyIp.Ax25.Ax25Packet
