import MyIp.Ax25.Received

/-! # Frames that were cut short

The constructor of `ax25_packet` (`ax25.cpp`) looks at the length of a frame once: 14 bytes, for the
two addresses. How many addresses follow is said by their end marks, and whether there is a pid by
the control byte. `CutShort` says of the bytes alone that the one or the other is not there; the
constructor then reads behind the end. -/

namespace MyIp.Ax25.Ax25Packet
set_option autoImplicit false

open Bytes

/-- The address in place `k` of a frame. -/
def addressAt (input : List Byte) (k : ℕ) : Ax25Address :=
  .ofBytes ((input.drop (7 * k)).take 7)

/-- The addresses before place `k` are valid, and none of them after the first two is the last one,
nor is the source. -/
structure OpenUpTo (input : List Byte) (k : ℕ) : Prop where
  valid : ∀ j < k, (addressAt input j).valid = true
  goes_on : ∀ j, 1 ≤ j → j < k → (addressAt input j).endMark = false

/-- The frame has `n` addresses: the last one has the end mark, or two repeaters were read. -/
structure Addresses (input : List Byte) (n : ℕ) : Prop where
  two_le : 2 ≤ n
  le_four : n ≤ 4
  valid : ∀ j < n, (addressAt input j).valid = true
  goes_on : ∀ j, 1 ≤ j → j + 1 < n → (addressAt input j).endMark = false
  last : n = 4 ∨ (addressAt input (n - 1)).endMark = true

/-- A frame with valid addresses that ends inside the list of the repeaters, before the control byte
or before the pid. -/
inductive CutShort (input : List Byte) : Prop
  | repeater (k : ℕ) (two_le : 2 ≤ k) (lt_four : k < 4) (before : OpenUpTo input k)
      (missing : input.length < 7 * k + 7)
  | control (n : ℕ) (addresses : Addresses input n) (missing : input.length ≤ 7 * n)
  | pid (n : ℕ) (addresses : Addresses input n) (control : hasPid (input.getD (7 * n) 0) = true)
      (missing : input.length ≤ 7 * n + 1)

/-- Nothing is read behind the end, and a frame that was cut short is not valid. -/
def ReadsInside (input : List Byte) : Prop :=
  ∃ p, ofBytes input = some p ∧ (input.length < 14 ∨ CutShort input → p.valid = false)

/-! ## The repeaters -/

theorem repeatersFrom_next {input : List Byte} {k : ℕ} (hlen : 7 * k + 7 ≤ input.length)
    (hvalid : (addressAt input k).valid = true) (turns : ℕ) (found : List Ax25Address) :
    repeatersFrom input (turns + 1) (7 * k) false found =
      repeatersFrom input turns (7 * (k + 1)) (addressAt input k).endMark
        (found ++ [addressAt input k]) := by
  rw [repeatersFrom, if_neg (by simp), if_neg (by omega)]
  exact if_pos hvalid

theorem length_of_valid {input : List Byte} {k : ℕ} (h : (addressAt input k).valid = true) :
    7 * k + 7 ≤ input.length := by
  by_contra hc
  have hshort : ((input.drop (7 * k)).take 7).length < 7 := by
    rw [List.length_take, List.length_drop]
    omega
  rw [addressAt, Ax25Address.ofBytes, if_pos hshort] at h
  cases h

/-- The loop gets to every place that is open. -/
theorem repeatersFrom_open {input : List Byte} {k : ℕ} (h2 : 2 ≤ k) (h4 : k ≤ 4)
    (h : OpenUpTo input k) :
    ∃ found, repeatersFrom input 2 14 false [] =
      repeatersFrom input (4 - k) (7 * k) false found := by
  induction k, h2 using Nat.le_induction with
  | base => exact ⟨[], rfl⟩
  | succ k hk ih =>
    have hvalid := h.valid k (by omega)
    obtain ⟨found, hfound⟩ := ih (by omega)
      ⟨fun j hj => h.valid j (by omega), fun j hj hlt => h.goes_on j hj (by omega)⟩
    obtain ⟨turns, hturns⟩ : ∃ turns, 4 - k = turns + 1 := ⟨3 - k, by omega⟩
    have hrest : 4 - (k + 1) = turns := by omega
    refine ⟨found ++ [addressAt input k], ?_⟩
    rw [hfound, hturns, repeatersFrom_next (length_of_valid hvalid) hvalid, hrest,
      h.goes_on k (by omega) (by omega)]

/-- The loop leaves a complete list of addresses behind. -/
theorem repeatersFrom_addresses {input : List Byte} {n : ℕ} (h : Addresses input n) :
    ∃ found, repeatersFrom input 2 14 (addressAt input 1).endMark [] =
      some (none, found, 7 * n) := by
  have htwo := h.two_le
  have hfour := h.le_four
  by_cases hn : n = 2
  · subst hn
    refine ⟨[], ?_⟩
    rw [h.last.resolve_left (by decide), repeatersFrom_end]
  · have hopen : OpenUpTo input (n - 1) :=
      ⟨fun j hj => h.valid j (by omega), fun j hj hlt => h.goes_on j hj (by omega)⟩
    have hvalid := h.valid (n - 1) (by omega)
    obtain ⟨found, hfound⟩ := repeatersFrom_open (by omega) (by omega) hopen
    obtain ⟨turns, hturns⟩ : ∃ turns, 4 - (n - 1) = turns + 1 := ⟨4 - n, by omega⟩
    have hplace : 7 * (n - 1 + 1) = 7 * n := by omega
    rw [h.goes_on 1 (by omega) (by omega), hfound, hturns,
      repeatersFrom_next (length_of_valid hvalid) hvalid, hplace]
    rcases h.last with hlast | hlast
    · have hzero : turns = 0 := by omega
      rw [hzero]
      exact ⟨_, rfl⟩
    · rw [hlast, repeatersFrom_end]
      exact ⟨_, rfl⟩

/-- From an open place on the loop comes to the end of the addresses, to one that is not valid, or
to one that is not there. -/
theorem repeatersFrom_cases {input : List Byte} {turns k : ℕ} (hturns : k + turns = 4) (h2 : 2 ≤ k)
    (hvalid : ∀ j < k, (addressAt input j).valid = true)
    (hgoes : ∀ j, 1 ≤ j → j + 1 < k → (addressAt input j).endMark = false)
    (found : List Ax25Address) :
    (repeatersFrom input turns (7 * k) (addressAt input (k - 1)).endMark found = none ∧
        CutShort input) ∨
      (∃ reason repeaters offset,
        repeatersFrom input turns (7 * k) (addressAt input (k - 1)).endMark found =
          some (some reason, repeaters, offset)) ∨
      ∃ n repeaters, Addresses input n ∧
        repeatersFrom input turns (7 * k) (addressAt input (k - 1)).endMark found =
          some (none, repeaters, 7 * n) := by
  induction turns generalizing k found with
  | zero => exact .inr (.inr ⟨k, found, ⟨h2, by omega, hvalid, hgoes, .inl (by omega)⟩, rfl⟩)
  | succ turns ih =>
    cases hend : (addressAt input (k - 1)).endMark with
    | true =>
      exact .inr (.inr ⟨k, found, ⟨h2, by omega, hvalid, hgoes, .inr hend⟩,
        repeatersFrom_end input _ _ found⟩)
    | false =>
      have hopen : ∀ j, 1 ≤ j → j < k → (addressAt input j).endMark = false := by
        intro j hj hlt
        by_cases hlast : j = k - 1
        · rw [hlast, hend]
        · exact hgoes j hj (by omega)
      by_cases hlen : input.length < 7 * k + 7
      · refine .inl ⟨?_, .repeater k h2 (by omega) ⟨hvalid, hopen⟩ hlen⟩
        rw [repeatersFrom, if_neg (by simp), if_pos hlen]
      · by_cases hnext : (addressAt input k).valid = true
        · rw [repeatersFrom_next (by omega) hnext]
          refine ih (by omega) (by omega) ?_ (fun j hj hlt => hopen j hj (by omega)) _
          intro j hj
          by_cases hlast : j = k
          · rw [hlast, hnext]
          · exact hvalid j (by omega)
        · refine .inr (.inl ⟨"via invalid: " ++ (addressAt input k).invalidReason, found,
            7 * k + 7, ?_⟩)
          rw [repeatersFrom, if_neg (by simp), if_neg hlen]
          exact if_neg hnext

/-! ## The frame -/

/-- The control byte, or the pid that it asks for, is behind the end. -/
def RestMissing (input : List Byte) (offset : ℕ) : Prop :=
  input.length ≤ offset ∨ (hasPid (input.getD offset 0) = true ∧ input.length ≤ offset + 1)

theorem readRest_eq_none_iff (input : List Byte) (offset : ℕ) (p : Ax25Packet) :
    readRest input offset p = none ↔ RestMissing input offset := by
  rw [readRest, RestMissing]
  cases hget : input[offset]? with
  | none => exact iff_of_true rfl (.inl (List.getElem?_eq_none_iff.mp hget))
  | some control =>
    have hlt : offset < input.length := (List.getElem?_eq_some_iff.mp hget).1
    have hcontrol : input.getD offset 0 = control := by
      rw [List.getD_eq_getElem?_getD, hget]
      rfl
    rw [hcontrol]
    by_cases hpid : hasPid control = true
    · cases hnext : input[offset + 1]? with
      | none =>
        have hle := List.getElem?_eq_none_iff.mp hnext
        exact iff_of_true (by simp [hpid]) (.inr ⟨hpid, hle⟩)
      | some pid =>
        have hmore : offset + 1 < input.length := (List.getElem?_eq_some_iff.mp hnext).1
        exact iff_of_false (by simp [hpid]) (by omega)
    · refine iff_of_false (by simp [hpid]) ?_
      rintro (hle | ⟨hc, -⟩)
      · omega
      · exact hpid hc

/-- The constructor for a frame whose first two addresses are valid. -/
theorem ofBytes_eq_none_iff {input : List Byte} (hto : (addressAt input 0).valid = true)
    (hfrom : (addressAt input 1).valid = true) :
    ofBytes input = none ↔
      repeatersFrom input 2 14 (addressAt input 1).endMark [] = none ∨
        ∃ repeaters offset, repeatersFrom input 2 14 (addressAt input 1).endMark [] =
          some (none, repeaters, offset) ∧ RestMissing input offset := by
  have hlen := length_of_valid hfrom
  have hto' : (Ax25Address.ofBytes (input.take 7)).valid = true := hto
  have hfrom' : (Ax25Address.ofBytes ((input.drop 7).take 7)).valid = true := hfrom
  have haddress : addressAt input 1 = Ax25Address.ofBytes ((input.drop 7).take 7) := rfl
  rw [ofBytes, if_neg (by omega)]
  simp only [hto', hfrom', Bool.true_eq_false, if_false, haddress]
  cases hvia : repeatersFrom input 2 14
      (Ax25Address.ofBytes ((input.drop 7).take 7)).endMark [] with
  | none => simp
  | some r =>
    obtain ⟨reason, repeaters, offset⟩ := r
    cases reason with
    | some reason => simp
    | none => simp [readRest_eq_none_iff]

theorem CutShort.two_valid {input : List Byte} (h : CutShort input) :
    (addressAt input 0).valid = true ∧ (addressAt input 1).valid = true := by
  cases h with
  | repeater k h2 h4 before => exact ⟨before.valid 0 (by omega), before.valid 1 (by omega)⟩
  | control n addresses =>
    have htwo := addresses.two_le
    exact ⟨addresses.valid 0 (by omega), addresses.valid 1 (by omega)⟩
  | pid n addresses =>
    have htwo := addresses.two_le
    exact ⟨addresses.valid 0 (by omega), addresses.valid 1 (by omega)⟩

theorem ofBytes_of_cutShort {input : List Byte} (h : CutShort input) : ofBytes input = none := by
  obtain ⟨hto, hfrom⟩ := h.two_valid
  rw [ofBytes_eq_none_iff hto hfrom]
  cases h with
  | repeater k h2 h4 before missing =>
    obtain ⟨found, hfound⟩ := repeatersFrom_open h2 (by omega) before
    obtain ⟨turns, hturns⟩ : ∃ turns, 4 - k = turns + 1 := ⟨3 - k, by omega⟩
    have hnone : repeatersFrom input (turns + 1) (7 * k) false found = none := by
      rw [repeatersFrom, if_neg (by simp), if_pos missing]
    exact .inl (by rw [before.goes_on 1 (by omega) (by omega), hfound, hturns, hnone])
  | control n addresses missing =>
    obtain ⟨found, hfound⟩ := repeatersFrom_addresses addresses
    exact .inr ⟨found, 7 * n, hfound, .inl missing⟩
  | pid n addresses control missing =>
    obtain ⟨found, hfound⟩ := repeatersFrom_addresses addresses
    exact .inr ⟨found, 7 * n, hfound, .inr ⟨control, missing⟩⟩

theorem ofBytes_none_cutShort {input : List Byte} (h : ofBytes input = none) : CutShort input := by
  by_cases hto : (addressAt input 0).valid = true
  · by_cases hfrom : (addressAt input 1).valid = true
    · have hvalid : ∀ j < 2, (addressAt input j).valid = true := by
        intro j hj
        interval_cases j
        · exact hto
        · exact hfrom
      have hcases := repeatersFrom_cases (show 2 + 2 = 4 from rfl) (Nat.le_refl 2) hvalid
        (fun j hj hlt => absurd hlt (by omega)) []
      obtain hnone | ⟨repeaters, offset, hsome, hmissing⟩ :=
        (ofBytes_eq_none_iff hto hfrom).mp h
      · obtain ⟨-, hcut⟩ | ⟨reason, repeaters, offset, hsome⟩ | ⟨n, repeaters, -, hsome⟩ := hcases
        · exact hcut
        · exact absurd (hnone.symm.trans hsome) (by simp)
        · exact absurd (hnone.symm.trans hsome) (by simp)
      · obtain ⟨hnone, -⟩ | ⟨reason, repeaters', offset', hsome'⟩ | ⟨n, repeaters', ha, hsome'⟩ :=
          hcases
        · exact absurd (hsome.symm.trans hnone) (by simp)
        · exact absurd (hsome.symm.trans hsome') (by simp)
        · obtain rfl : offset = 7 * n := by
            have hsame := Option.some.inj (hsome.symm.trans hsome')
            exact congrArg (fun r => r.2.2) hsame
          obtain hcontrol | ⟨hpid, hpidMissing⟩ := hmissing
          · exact .control n ha hcontrol
          · exact .pid n ha hpid hpidMissing
    · exfalso
      have hto' : (Ax25Address.ofBytes (input.take 7)).valid = true := hto
      have hfrom' : (Ax25Address.ofBytes ((input.drop 7).take 7)).valid = false :=
        Bool.eq_false_of_not_eq_true hfrom
      rw [ofBytes] at h
      simp only [hto', hfrom', Bool.true_eq_false, if_false, if_true] at h
      split at h
      · cases h
      · cases h
  · exfalso
    have hto' : (Ax25Address.ofBytes (input.take 7)).valid = false :=
      Bool.eq_false_of_not_eq_true hto
    rw [ofBytes] at h
    simp only [hto', if_true] at h
    split at h
    · cases h
    · cases h

/-- The constructor reads inside the frame exactly if it was not cut short behind the first two
addresses. -/
theorem readsInside_iff (input : List Byte) : ReadsInside input ↔ ¬CutShort input := by
  constructor
  · rintro ⟨p, hp, -⟩ hcut
    rw [ofBytes_of_cutShort hcut] at hp
    cases hp
  · intro hcut
    cases hp : ofBytes input with
    | none => exact absurd (ofBytes_none_cutShort hp) hcut
    | some p =>
      refine ⟨p, hp, fun h => ?_⟩
      rcases h with hshort | h
      · rw [ofBytes, if_pos hshort] at hp
        obtain rfl := Option.some.inj hp
        rfl
      · exact absurd h hcut

namespace Sample

/-- A frame from PI1ABC-7 to QST, without an end mark or with it, that ends with the addresses. -/
def addressesOnly (endMark : Bool) : List Byte :=
  (Ax25Address.ofCallsign [0x51, 0x53, 0x54] 0 false false).generateAddress ++
    (Ax25Address.ofCallsign [0x50, 0x49, 0x31, 0x41, 0x42, 0x43] 7 endMark false).generateAddress

end Sample

/-- Frames that end with the addresses, inside the first repeater and before the pid: the
constructor reads behind each of them. -/
theorem not_readsInside :
    ofBytes (Sample.addressesOnly true) = none ∧
      ofBytes (Sample.addressesOnly false ++ [0xa0, 0xa2]) = none ∧
      ofBytes (Sample.addressesOnly true ++ [0x03]) = none ∧
      ¬ReadsInside (Sample.addressesOnly true) ∧
      ¬ReadsInside (Sample.addressesOnly false ++ [0xa0, 0xa2]) ∧
      ¬ReadsInside (Sample.addressesOnly true ++ [0x03]) := by
  have hcontrol : ofBytes (Sample.addressesOnly true) = none := by decide +kernel
  have hrepeater : ofBytes (Sample.addressesOnly false ++ [0xa0, 0xa2]) = none := by
    decide +kernel
  have hpid : ofBytes (Sample.addressesOnly true ++ [0x03]) = none := by decide +kernel
  have hreads : ∀ input, ofBytes input = none → ¬ReadsInside input := by
    rintro input hnone ⟨p, hp, -⟩
    rw [hnone] at hp
    cases hp
  exact ⟨hcontrol, hrepeater, hpid, hreads _ hcontrol, hreads _ hrepeater, hreads _ hpid⟩

end MyIp.Ax25.Ax25Packet
