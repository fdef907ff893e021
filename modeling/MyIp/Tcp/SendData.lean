import MyIp.Tcp.Stages

/-! # What `tcp::send_data` answers

The loop of `send_data` looks at the session, under its lock, until one of its four exits is taken.
While it waits for `unacked_sent_cv` the lock is free and the other threads change the session, so a
call is told by the session that each turn finds: `view k` for the `k`-th. -/

namespace MyIp.Tcp
open Bytes
set_option autoImplicit false

/-- One turn: what is returned and the session then, `none` when the turn ends in waiting. -/
def sendDataTurn (ts : TcpSession) (data : List Byte) : Option (Bool × TcpSession) :=
  if ts.unackedSize.toNat < 1024 * 1024 then
    if ts.state = .established then some (true, appendUnacked ts data) else some (true, ts)
  else if ts.state ≠ .established then some (true, ts)
  else if ts.isTerminating = false then some (true, ts)
  else none

/-- The call from its `k`-th turn on: in which turn it returned, what, and the session then. -/
def sendDataCall (view : ℕ → TcpSession) (data : List Byte) :
    (fuel k : ℕ) → Option (ℕ × Bool × TcpSession)
  | 0, _ => none
  | fuel + 1, k =>
    match sendDataTurn (view k) data with
    | some r => some (k, r)
    | none => sendDataCall view data fuel (k + 1)

/-- A turn does to the session what the machine of one session says. -/
theorem sendData_eq_turn (ts : TcpSession) (data : List Byte) :
    sendData ts data = ((sendDataTurn ts data).map (·.2)).getD ts := by
  unfold sendData appends sendDataTurn
  by_cases hroom : ts.unackedSize.toNat < 1024 * 1024
  · by_cases hs : ts.state = .established <;> simp [hroom, hs]
  · by_cases hs : ts.state = .established <;> by_cases ht : ts.isTerminating = false <;>
      simp [hroom, hs, ht]

/-! ## The exits -/

/-- The buffer is full, the session established and on its way to its end. -/
def waitsForRoom (ts : TcpSession) : Prop :=
  1024 * 1024 ≤ ts.unackedSize.toNat ∧ ts.state = .established ∧ ts.isTerminating = true

instance (ts : TcpSession) : Decidable (waitsForRoom ts) :=
  inferInstanceAs (Decidable (1024 * 1024 ≤ ts.unackedSize.toNat ∧ ts.state = .established ∧
    ts.isTerminating = true))

theorem sendDataTurn_cases (ts : TcpSession) (data : List Byte) :
    (ts.unackedSize.toNat < 1024 * 1024 ∧ ts.state = .established ∧
      sendDataTurn ts data = some (true, appendUnacked ts data)) ∨
    (ts.state ≠ .established ∧ sendDataTurn ts data = some (true, ts)) ∨
    (1024 * 1024 ≤ ts.unackedSize.toNat ∧ ts.state = .established ∧ ts.isTerminating = false ∧
      sendDataTurn ts data = some (true, ts)) ∨
    (waitsForRoom ts ∧ sendDataTurn ts data = none) := by
  unfold sendDataTurn
  by_cases hroom : ts.unackedSize.toNat < 1024 * 1024
  · by_cases hs : ts.state = .established
    · exact .inl ⟨hroom, hs, by rw [if_pos hroom, if_pos hs]⟩
    · exact .inr (.inl ⟨hs, by rw [if_pos hroom, if_neg hs]⟩)
  · have hfull : 1024 * 1024 ≤ ts.unackedSize.toNat := by omega
    by_cases hs : ts.state = .established
    · have hs' : ¬ ts.state ≠ .established := not_not_intro hs
      by_cases ht : ts.isTerminating = false
      · exact .inr (.inr (.inl ⟨hfull, hs, ht, by rw [if_neg hroom, if_neg hs', if_pos ht]⟩))
      · refine .inr (.inr (.inr ⟨⟨hfull, hs, by simpa using ht⟩, ?_⟩))
        rw [if_neg hroom, if_neg hs', if_neg ht]
    · exact .inr (.inl ⟨hs, by rw [if_neg hroom, if_pos hs]⟩)

theorem sendDataTurn_none_iff (ts : TcpSession) (data : List Byte) :
    sendDataTurn ts data = none ↔ waitsForRoom ts := by
  rcases sendDataTurn_cases ts data with
    ⟨hroom, hs, he⟩ | ⟨hs, he⟩ | ⟨hfull, hs, ht, he⟩ | ⟨hw, he⟩
  · simp only [he, reduceCtorEq, false_iff]
    intro hw
    have := hw.1
    omega
  · simp only [he, reduceCtorEq, false_iff]
    exact fun hw => hs hw.2.1
  · simp only [he, reduceCtorEq, false_iff]
    intro hw
    have := hw.2.2
    simp [ht] at this
  · simp [he, hw]

/-- A call that returns waited in all turns but the last. -/
theorem sendDataCall_iff (view : ℕ → TcpSession) (data : List Byte) (n : ℕ) (r : Bool × TcpSession)
    (k : ℕ) :
    (∃ fuel, sendDataCall view data fuel k = some (n, r)) ↔
      k ≤ n ∧ (∀ j, k ≤ j → j < n → waitsForRoom (view j)) ∧
        sendDataTurn (view n) data = some r := by
  constructor
  · rintro ⟨fuel, h⟩
    induction fuel generalizing k with
    | zero => cases h
    | succ fuel ih =>
      rw [sendDataCall] at h
      cases hturn : sendDataTurn (view k) data with
      | some r' =>
        rw [hturn] at h
        cases h
        exact ⟨le_rfl, fun j _ _ => by omega, hturn⟩
      | none =>
        rw [hturn] at h
        obtain ⟨hle, hwait, hlast⟩ := ih (k + 1) h
        refine ⟨by omega, ?_, hlast⟩
        intro j hk hj
        rcases Nat.eq_or_lt_of_le hk with rfl | hlt
        · exact (sendDataTurn_none_iff _ data).mp hturn
        · exact hwait j hlt hj
  · rintro ⟨hle, hwait, hlast⟩
    obtain ⟨d, rfl⟩ := Nat.exists_eq_add_of_le hle
    induction d generalizing k with
    | zero => exact ⟨1, by rw [sendDataCall]; simp only [Nat.add_zero] at hlast; rw [hlast]; rfl⟩
    | succ d ih =>
      have he : k + (d + 1) = k + 1 + d := by omega
      rw [he] at hwait hlast ⊢
      obtain ⟨fuel, h⟩ := ih (k + 1) (by omega) (fun j h1 h2 => hwait j (by omega) h2) hlast
      refine ⟨fuel + 1, ?_⟩
      rw [sendDataCall, (sendDataTurn_none_iff _ data).mpr (hwait k le_rfl (by omega))]
      exact h

/-! ## The answer -/

/-- All of the data is at the end of the buffer. -/
def Appended (ts : TcpSession) (data : List Byte) (ts' : TcpSession) : Prop :=
  ts'.unackedSize.toNat = ts.unackedSize.toNat + data.length ∧
    readAt ts'.unacked ts.unackedSize.toNat data.length = data

/-- The buffer is as it was. -/
def SameBuffer (ts ts' : TcpSession) : Prop :=
  ts'.unacked = ts.unacked ∧ ts'.unackedSize = ts.unackedSize ∧
    ts'.unackedStartSeqNr = ts.unackedStartSeqNr

/-- Every return of the call tells what became of the data, and no return comes from a turn that
found the buffer of an established session full that is not on its way to its end. -/
def TellsTheTruth (view : ℕ → TcpSession) (data : List Byte) : Prop :=
  ∀ fuel n rc ts', sendDataCall view data fuel 0 = some (n, rc, ts') →
    (if rc then Appended (view n) data ts' else SameBuffer (view n) ts') ∧
      ¬ (1024 * 1024 ≤ (view n).unackedSize.toNat ∧ (view n).state = .established ∧
        (view n).isTerminating = false)

/-- There is room for the data in the buffer of an established session, or there is nothing to
append. -/
def TakesData (data : List Byte) (ts : TcpSession) : Prop :=
  if ts.state = .established then
    ts.unackedSize.toNat < 1024 * 1024 ∧ ts.unackedSize.toNat + data.length < 2 ^ 64
  else data = []

theorem appended_iff (ts : TcpSession) (data : List Byte) :
    Appended ts data (appendUnacked ts data) ↔ ts.unackedSize.toNat + data.length < 2 ^ 64 := by
  have hsum : (ts.unackedSize + BitVec.ofNat 64 data.length).toNat =
      (ts.unackedSize.toNat + data.length) % 2 ^ 64 := by
    rw [BitVec.toNat_add, BitVec.toNat_ofNat]
    omega
  unfold Appended appendUnacked
  dsimp only
  rw [hsum]
  constructor
  · intro h
    have := Nat.mod_lt (ts.unackedSize.toNat + data.length) (show 0 < 2 ^ 64 by decide)
    omega
  · intro h
    rw [Nat.mod_eq_of_lt h]
    refine ⟨rfl, ?_⟩
    have hlen : ((resize ts.unacked (ts.unackedSize.toNat + data.length)).take
        ts.unackedSize.toNat).length = ts.unackedSize.toNat := by
      rw [List.length_take, resize_length]
      omega
    rw [readAt_inside (by rw [writeAt_length (by rw [resize_length]), resize_length]), writeAt,
      List.append_assoc, List.drop_append_of_le_length (by omega),
      List.drop_of_length_le (by omega),
      List.nil_append, List.take_append_of_le_length le_rfl, List.take_length]

theorem appended_self_iff (ts : TcpSession) (data : List Byte) :
    Appended ts data ts ↔ data = [] := by
  unfold Appended
  constructor
  · rintro ⟨h, -⟩
    exact List.eq_nil_of_length_eq_zero (by omega)
  · rintro rfl
    exact ⟨by simp, List.eq_nil_of_length_eq_zero (readAt_length ..)⟩

/-- The last turn of a call tells the truth if and only if it takes the data. -/
theorem turn_truth_iff {ts ts' : TcpSession} {data : List Byte} {rc : Bool}
    (h : sendDataTurn ts data = some (rc, ts')) :
    ((if rc then Appended ts data ts' else SameBuffer ts ts') ∧
      ¬ (1024 * 1024 ≤ ts.unackedSize.toNat ∧ ts.state = .established ∧
        ts.isTerminating = false)) ↔ TakesData data ts := by
  unfold TakesData
  rcases sendDataTurn_cases ts data with
    ⟨hroom, hs, he⟩ | ⟨hs, he⟩ | ⟨hfull, hs, ht, he⟩ | ⟨hw, he⟩
  · rw [h] at he
    cases he
    rw [if_pos rfl, if_pos hs, appended_iff]
    constructor
    · exact fun hp => ⟨hroom, hp.1⟩
    · intro hp
      refine ⟨hp.2, ?_⟩
      rintro ⟨hfull, -⟩
      omega
  · rw [h] at he
    cases he
    rw [if_pos rfl, if_neg hs, appended_self_iff]
    constructor
    · exact fun hp => hp.1
    · exact fun hp => ⟨hp, fun hx => hs hx.2.1⟩
  · rw [if_pos hs]
    constructor
    · exact fun hp => absurd ⟨hfull, hs, ht⟩ hp.2
    · intro hp
      omega
  · rw [h] at he
    cases he

/-- A call of `send_data` tells the truth if and only if every turn that it comes to waits or takes
the data. -/
theorem send_data_truth_iff (view : ℕ → TcpSession) (data : List Byte) :
    TellsTheTruth view data ↔
      ∀ n, (∀ j < n, waitsForRoom (view j)) → waitsForRoom (view n) ∨ TakesData data (view n) := by
  constructor
  · intro h n hbefore
    cases hturn : sendDataTurn (view n) data with
    | none => exact .inl ((sendDataTurn_none_iff _ data).mp hturn)
    | some r =>
      obtain ⟨rc, ts'⟩ := r
      obtain ⟨fuel, hcall⟩ := (sendDataCall_iff view data n (rc, ts') 0).mpr
        ⟨Nat.zero_le n, fun j _ hj => hbefore j hj, hturn⟩
      exact .inr ((turn_truth_iff hturn).mp (h fuel n rc ts' hcall))
  · intro h fuel n rc ts' hcall
    obtain ⟨-, hwait, hturn⟩ := (sendDataCall_iff view data n (rc, ts') 0).mp ⟨fuel, hcall⟩
    refine (turn_truth_iff hturn).mpr ?_
    rcases h n (fun j hj => hwait j (Nat.zero_le j) hj) with hw | ht
    · rw [(sendDataTurn_none_iff _ data).mpr hw] at hturn
      cases hturn
    · exact ht

/-- The byte that an application sends when its peer has closed already is lost, and so is what it
sends when a megabyte waits. -/
theorem send_data_drops :
    ¬ TellsTheTruth (fun _ => { Sample.session 120 with state := .closeWait }) [65] ∧
    ¬ TellsTheTruth (fun _ => { Sample.session 120 with
      state := .established, unackedSize := 1024 * 1024 }) [66] := by
  constructor
  · intro h
    have hcall : sendDataCall (fun _ => { Sample.session 120 with state := .closeWait }) [65] 1 0 =
        some (0, true, { Sample.session 120 with state := .closeWait }) := rfl
    have hlost := (h 1 0 true _ hcall).1
    rw [if_pos rfl, appended_self_iff] at hlost
    cases hlost
  · intro h
    have hcall : sendDataCall (fun _ => { Sample.session 120 with
        state := .established, unackedSize := 1024 * 1024 }) [66] 1 0 =
        some (0, true, { Sample.session 120 with
          state := .established, unackedSize := 1024 * 1024 }) := rfl
    exact (h 1 0 true _ hcall).2 (by decide)

end MyIp.Tcp
