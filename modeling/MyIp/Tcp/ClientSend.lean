import MyIp.Tcp.Layer
import MyIp.Tcp.LockOrder
import MyIp.Tcp.SendData

/-! # Sending for a client session

`tcp::client_session_send_data` looks the session of a local port up and calls `send_data` with
`sessions_lock` held. When `send_data` appends the data it requests that lock again, so that the
thread gets no answer: the call returns true only for data that goes nowhere
(`client_session_send_data_true_iff`). -/

namespace MyIp.Tcp
open Bytes
set_option autoImplicit false

variable {κ : Type}

/-- What a thread gets from the call. -/
inductive ClientSend
  | returned (rc : Bool)
  /-- It requests a lock that it holds. -/
  | locksItself
  deriving DecidableEq, Repr

/-- `tcp::client_session_send_data`; the `k`-th turn of `send_data` finds the session object `obj`
as `view obj k`. Nothing if it still waits for room after `fuel` turns. -/
def clientSessionSendData (t : Layer κ) (localPort : ℤ) (view : ℕ → ℕ → TcpSession)
    (data : List Byte) (fuel : ℕ) : Option ClientSend :=
  match t.clientObject localPort with
  | none => some (.returned false)
  | some obj =>
    (sendDataCall (view obj) data fuel 0).map fun (n, rc, _) =>
      let locks := Locking.Operation.clientSessionSendData (some (obj, n, appends (view obj n)))
      if locks.relocks then .locksItself else .returned rc

/-- The port has a session, and the first turn that does not wait for room finds it not established,
or with its buffer full and not on its way to its end. -/
def TakesNothing (t : Layer κ) (localPort : ℤ) (view : ℕ → ℕ → TcpSession) : Prop :=
  ∃ obj n, t.clientObject localPort = some obj ∧ (∀ j < n, waitsForRoom (view obj j)) ∧
    ((view obj n).state ≠ .established ∨
      1024 * 1024 ≤ (view obj n).unackedSize.toNat ∧ (view obj n).isTerminating = false)

theorem sendDataTurn_keeps_iff (ts : TcpSession) (data : List Byte) :
    ((∃ ts', sendDataTurn ts data = some (true, ts')) ∧ appends ts = false) ↔
      ts.state ≠ .established ∨ 1024 * 1024 ≤ ts.unackedSize.toNat ∧ ts.isTerminating = false := by
  rcases sendDataTurn_cases ts data with
    ⟨hroom, hs, he⟩ | ⟨hs, he⟩ | ⟨hfull, hs, ht, he⟩ | ⟨hw, he⟩
  · simp [he, appends, hs, hroom]
  · simp [he, appends, hs]
  · simp [he, appends, hs, hfull, ht]
  · simp [he, hw.1, hw.2.1, hw.2.2]

/-- The call returns true exactly if `send_data` takes nothing of the data. -/
theorem client_session_send_data_true_iff (t : Layer κ) (localPort : ℤ)
    (view : ℕ → ℕ → TcpSession) (data : List Byte) :
    (∃ fuel, clientSessionSendData t localPort view data fuel = some (.returned true)) ↔
      TakesNothing t localPort view := by
  constructor
  · rintro ⟨fuel, h⟩
    rw [clientSessionSendData] at h
    cases hobj : t.clientObject localPort with
    | none =>
      rw [hobj] at h
      cases h
    | some obj =>
      rw [hobj] at h
      obtain ⟨⟨n, rc, ts'⟩, hcall, hanswer⟩ := Option.map_eq_some_iff.mp h
      obtain ⟨-, hwaits, hturn⟩ := (sendDataCall_iff (view obj) data n (rc, ts') 0).mp ⟨fuel, hcall⟩
      dsimp only at hanswer
      split at hanswer
      · cases hanswer
      · next hlock =>
        cases hanswer
        exact ⟨obj, n, hobj, fun j hj => hwaits j (Nat.zero_le j) hj,
          (sendDataTurn_keeps_iff (view obj n) data).mp ⟨⟨ts', hturn⟩, eq_false_of_ne_true hlock⟩⟩
  · rintro ⟨obj, n, hobj, hwaits, hlast⟩
    obtain ⟨⟨ts', hturn⟩, hkeeps⟩ := (sendDataTurn_keeps_iff (view obj n) data).mpr hlast
    obtain ⟨fuel, hcall⟩ := (sendDataCall_iff (view obj) data n (true, ts') 0).mpr
      ⟨Nat.zero_le n, fun j _ hj => hwaits j hj, hturn⟩
    refine ⟨fuel, ?_⟩
    rw [clientSessionSendData, hobj]
    simp [hcall, Locking.Operation.relocks, hkeeps]

end MyIp.Tcp
