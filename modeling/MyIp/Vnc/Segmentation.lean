import MyIp.Foundations.Segments
import MyIp.Vnc.NextCommand

/-! # How the bytes of a VNC client are cut

What `vnc_thread` executes of a stream does not depend on the pieces that it comes in, if there is
enough further work (the requests for an update) to get through all of it. The blocks of a pass are
a reader that takes a number of bytes at a time. -/

namespace MyIp.Vnc
set_option autoImplicit false

open Bytes Segments

/-! ## What is executed -/

/-- A step of the handshake, or (a part of) a command, with the bytes it takes and what else of the
session it depends on. -/
structure Step where
  state : VncState
  runningCmd : ℤ
  parameters : List Byte
  depth : Byte
  encodings : List ℤ
  deriving DecidableEq

/-- A block that waits for more bytes has not been executed. -/
def progress (vs vs' : Session) : List Step :=
  if vs'.state = vs.state ∧ vs'.rc = vs.rc then []
  else [{ state := vs.state
          runningCmd := vs.runningCmd
          parameters := vs.buffer.take (vs.buffer.length - vs'.buffer.length)
          depth := vs.depth
          encodings := vs.encodings }]

def executedBlocks : List (VncState × (Session → Option Session)) → Session → List Step
  | [], _ => []
  | (state, block) :: blocks, vs =>
    if vs.state = state then
      match block vs with
      | none => []
      | some vs' => progress vs vs' ++ executedBlocks blocks vs'
    else executedBlocks blocks vs

def executedPass (vs : Session) (data : List Byte) : List Step :=
  let asked := data.isEmpty && vs.continuousUpdates
  let received := { vs with buffer := vs.buffer ++ data }
  executedBlocks handshakeBlocks received ++
    match runBlocks handshakeBlocks received with
    | none => []
    | some vs' => executedBlocks commandBlocks (updateFrame vs' asked)

def executedWork (vs : Session) : Option (List Byte) → List Step
  | none => []
  | some data => if vs.state = .terminate then [] else executedPass vs data

/-- A session with all that has been executed in it. -/
def recordWork (p : Session × List Step) (work : Option (List Byte)) :
    Option (Session × List Step) :=
  (handle p.1 work).map fun vs => (vs, p.2 ++ executedWork p.1 work)

def recorded (works : List (Option (List Byte))) : Option (Session × List Step) :=
  (pass .init []).bind fun vs => works.foldlM recordWork (vs, executedPass .init [])

def executed (works : List (Option (List Byte))) : Option (List Step) :=
  (recorded works).map Prod.snd

/-- The pieces of a stream, and after them requests for an update. -/
def works (chunks : List (List Byte)) (n : ℕ) : List (Option (List Byte)) :=
  (chunks ++ List.replicate n []).map some

/-! ## The reader -/

/-- A session without what it sent and what it has not read, over once it is to end. -/
def Session.bare (vs : Session) : Session :=
  { vs with buffer := [], sent := [], state := if vs.rc then vs.state else .terminate }

def blockOf : VncState → Session → Option Session
  | .initialHandshakeServerSend => handshakeServerSend
  | .initialHandshakeClientResp => handshakeClientResp
  | .securityHandshakeServer => securityServer
  | .securityHandshakeClientResp => securityClientResp
  | .clientInit => clientInitialises
  | .serverInit => serverInitialises
  | .runningWaitingCmd => waitingCmd
  | .runningWaitingData => waitingData
  | .runningWaitingDataIgnore => dataIgnore
  | .runningWaitingDataExtra => dataExtra
  | .terminate => some

/-- The bytes after the first one that a command waits for. -/
def argumentLength (cmd : ℤ) : ℕ :=
  if cmd = 0 then 19
  else if cmd = 2 then 3
  else if cmd = 3 then 9
  else if cmd = 4 then 7
  else if cmd = 5 then 5
  else if cmd = 6 then 7
  else 0

def wants (vs : Session) : Option ℕ :=
  match vs.state with
  | .initialHandshakeServerSend | .securityHandshakeServer | .serverInit => some 0
  | .initialHandshakeClientResp => some 12
  | .securityHandshakeClientResp | .clientInit | .runningWaitingCmd => some 1
  | .runningWaitingData => some (argumentLength vs.runningCmd)
  | .runningWaitingDataIgnore => if 0 < vs.ignoreDataN then some vs.ignoreDataN.toNat else none
  | .runningWaitingDataExtra => some (if vs.runningCmd = 2 then vs.nEncodings.toNat * 4 else 0)
  | .terminate => none

def reader : Segments.Reader Session Byte Step where
  wants := wants
  read vs data :=
    (((blockOf vs.state { vs with buffer := data }).getD vs).bare,
      ⟨vs.state, vs.runningCmd, data, vs.depth, vs.encodings⟩)

/-- What a block does is what the reader does next, if that does anything. -/
def Agrees (vs vs' : Session) : Prop :=
  vs' = vs ∧ reader.next (vs.bare, vs.buffer) = none ∨
    ∃ e, progress vs vs' = [e] ∧ reader.next (vs.bare, vs.buffer) = some (e, vs'.bare, vs'.buffer) ∧
      (vs'.rc = true ∨ vs'.state = vs.state)

theorem bare_of_rc {vs : Session} (hrc : vs.rc = true) :
    vs.bare = { vs with buffer := [], sent := [] } := by
  simp [Session.bare, hrc]

/-- A block takes `n` bytes or waits for them. With them the session goes on from where it is or
ends, whatever else there is in the buffer and was sent before. -/
structure TakesNext (n : ℕ) (block : Session → Option Session) (vs : Session) : Prop where
  waits : vs.buffer.length < n → block vs = some vs
  moves : ∀ data : List Byte, data.length = n → ∃ t : Session,
    (∀ b s, ∃ s', block { vs with buffer := data ++ b, sent := s } =
      some { t with buffer := b, sent := s' }) ∧
    ¬(t.state = vs.state ∧ t.rc = vs.rc) ∧ (t.rc = true ∨ t.state = vs.state)

theorem TakesNext.agrees {vs vs' : Session} {n : ℕ} (h : TakesNext n (blockOf vs.state) vs)
    (hrc : vs.rc = true) (hwants : wants vs = some n) (hblock : blockOf vs.state vs = some vs') :
    Agrees vs vs' := by
  have hbare := bare_of_rc hrc
  have hwants' : reader.wants vs.bare = some n := by
    rw [hbare]
    exact hwants
  by_cases hlength : n ≤ vs.buffer.length
  · have htake : (vs.buffer.take n).length = n := by
      rw [List.length_take]
      omega
    obtain ⟨t, hact, hmoved, hend⟩ := h.moves (vs.buffer.take n) htake
    obtain ⟨sent, hown⟩ := hact (vs.buffer.drop n) vs.sent
    rw [List.take_append_drop] at hown
    obtain rfl := Option.some.inj (hblock.symm.trans hown)
    refine .inr ⟨_, if_neg hmoved, next_eq_some.mpr ⟨n, hwants', hlength, ?_, ?_⟩, hend⟩
    · have htaken : vs.buffer.length - (vs.buffer.drop n).length = n := by
        rw [List.length_drop]
        omega
      simp only [htaken, hbare, reader]
    · -- the same block, on a session that has just the bytes it takes
      obtain ⟨sent', halone⟩ := hact [] []
      rw [List.append_nil] at halone
      simp only [hbare, reader, halone, Option.getD_some]
      rfl
  · refine .inl ⟨?_, ?_⟩
    · exact Option.some.inj (hblock.symm.trans (h.waits (not_le.mp hlength)))
    · rw [Reader.next, hwants']
      exact if_neg hlength

theorem getFromBuffer_received (vs : Session) {data : List Byte} {n : ℕ} (hlength : data.length = n)
    (b : List Byte) (s : List Output) :
    getFromBuffer { vs with buffer := data ++ b, sent := s } n =
      some (data, { vs with buffer := b, sent := s }) :=
  getFromBuffer_append rfl hlength

theorem TakesNext.congr {n : ℕ} {block block' : Session → Option Session} {vs : Session}
    (h : TakesNext n block vs) (hsame : ∀ ws, ws.runningCmd = vs.runningCmd → block' ws = block ws) :
    TakesNext n block' vs where
  waits hlength := (hsame vs rfl).trans (h.waits hlength)
  moves data hlength := by
    obtain ⟨t, hact, hmoved⟩ := h.moves data hlength
    refine ⟨t, fun b s => ?_, hmoved⟩
    obtain ⟨s', hs'⟩ := hact b s
    exact ⟨s', (hsame { vs with buffer := data ++ b, sent := s } rfl).trans hs'⟩

theorem takesNext_ite (cmd : ℤ) {n m : ℕ} {block block' : Session → Option Session} {vs : Session}
    (h : TakesNext n block vs) (h' : TakesNext m block' vs) :
    TakesNext (if vs.runningCmd = cmd then n else m)
      (fun ws => if ws.runningCmd = cmd then block ws else block' ws) vs := by
  by_cases hcmd : vs.runningCmd = cmd
  · rw [if_pos hcmd]
    exact h.congr fun ws hws => if_pos (hws.trans hcmd)
  · rw [if_neg hcmd]
    exact h'.congr fun ws hws => if_neg (hws ▸ hcmd)

section Blocks

variable {vs : Session} (hrc : vs.rc = true)
include hrc

theorem handshakeServerSend_takesNext (hstate : vs.state = .initialHandshakeServerSend) :
    TakesNext 0 handshakeServerSend vs where
  waits hlength := absurd hlength (Nat.not_lt_zero _)
  moves data hlength := by
    obtain rfl := List.length_eq_zero_iff.mp hlength
    exact ⟨{ vs with state := .initialHandshakeClientResp }, fun b s => ⟨_, rfl⟩, by simp [hstate],
      .inl hrc⟩

theorem securityServer_takesNext (hstate : vs.state = .securityHandshakeServer) :
    TakesNext 0 securityServer vs where
  waits hlength := absurd hlength (Nat.not_lt_zero _)
  moves data hlength := by
    obtain rfl := List.length_eq_zero_iff.mp hlength
    exact ⟨{ vs with state := .securityHandshakeClientResp }, fun b s => ⟨_, rfl⟩, by simp [hstate],
      .inl hrc⟩

theorem serverInitialises_takesNext (hstate : vs.state = .serverInit) :
    TakesNext 0 serverInitialises vs where
  waits hlength := absurd hlength (Nat.not_lt_zero _)
  moves data hlength := by
    obtain rfl := List.length_eq_zero_iff.mp hlength
    exact ⟨{ vs with state := .runningWaitingCmd }, fun b s => ⟨_, rfl⟩, by simp [hstate], .inl hrc⟩

theorem refuses_takesNext : TakesNext 0 (fun ws => some { ws with rc := false }) vs where
  waits hlength := absurd hlength (Nat.not_lt_zero _)
  moves data hlength := by
    obtain rfl := List.length_eq_zero_iff.mp hlength
    exact ⟨{ vs with rc := false }, fun b s => ⟨s, rfl⟩, by simp [hrc], .inr rfl⟩

theorem handshakeClientResp_takesNext (hstate : vs.state = .initialHandshakeClientResp) :
    TakesNext 12 handshakeClientResp vs where
  waits hlength := by rw [handshakeClientResp, getFromBuffer, if_pos hlength]
  moves data hlength := by
    by_cases hrfb : data.take 3 = rfb
    · refine ⟨{ vs with state := .securityHandshakeServer }, fun b s => ⟨s, ?_⟩, by simp [hstate],
        .inl hrc⟩
      simp only [handshakeClientResp, getFromBuffer_received vs hlength, if_pos hrfb]
    · refine ⟨{ vs with rc := false }, fun b s => ⟨s, ?_⟩, by simp [hrc], .inr rfl⟩
      simp only [handshakeClientResp, getFromBuffer_received vs hlength, if_neg hrfb]

theorem securityClientResp_takesNext (hstate : vs.state = .securityHandshakeClientResp) :
    TakesNext 1 securityClientResp vs where
  waits hlength := by rw [securityClientResp, getFromBuffer, if_pos hlength]
  moves data hlength := by
    by_cases hsec : data = [1]
    · refine ⟨{ vs with state := .clientInit }, fun b s => ?_, by simp [hstate], .inl hrc⟩
      simp only [securityClientResp, getFromBuffer_received vs hlength, if_pos hsec]
      exact ⟨_, rfl⟩
    · refine ⟨{ vs with rc := false }, fun b s => ?_, by simp [hrc], .inr rfl⟩
      simp only [securityClientResp, getFromBuffer_received vs hlength, if_neg hsec]
      exact ⟨_, rfl⟩

theorem clientInitialises_takesNext (hstate : vs.state = .clientInit) :
    TakesNext 1 clientInitialises vs where
  waits hlength := by rw [clientInitialises, getFromBuffer, if_pos hlength]
  moves data hlength := by
    refine ⟨{ vs with state := .serverInit }, fun b s => ⟨s, ?_⟩, by simp [hstate], .inl hrc⟩
    simp only [clientInitialises, getFromBuffer_received vs hlength]

theorem waitingCmd_takesNext (hstate : vs.state = .runningWaitingCmd) :
    TakesNext 1 waitingCmd vs where
  waits hlength := by rw [waitingCmd, getFromBuffer, if_pos hlength]
  moves data hlength := by
    refine ⟨{ vs with runningCmd := (data.getD 0 0).toNat, state := .runningWaitingData },
      fun b s => ⟨s, ?_⟩, by simp [hstate], .inl hrc⟩
    simp only [waitingCmd, getFromBuffer_received vs hlength]

theorem ignoreCmd_takesNext (hstate : vs.state = .runningWaitingData) (n : ℕ) :
    TakesNext n (ignoreCmd · n) vs where
  waits hlength := by simp only [ignoreCmd, getFromBuffer, if_pos hlength]
  moves data hlength := by
    refine ⟨{ vs with state := .runningWaitingCmd, runningCmd := -1 }, fun b s => ⟨s, ?_⟩,
      by simp [hstate], .inl hrc⟩
    simp only [ignoreCmd, getFromBuffer_received vs hlength]

theorem setPixelFormat_takesNext (hstate : vs.state = .runningWaitingData) :
    TakesNext 19 setPixelFormat vs where
  waits hlength := by rw [setPixelFormat, getFromBuffer, if_pos hlength]
  moves data hlength := by
    refine ⟨{ vs with depth := data.getD 4 0, state := .runningWaitingCmd }, fun b s => ⟨s, ?_⟩,
      by simp [hstate], .inl hrc⟩
    simp only [setPixelFormat, getFromBuffer_received vs hlength]

theorem setEncodings_takesNext (hstate : vs.state = .runningWaitingData) :
    TakesNext 3 setEncodings vs where
  waits hlength := by rw [setEncodings, getFromBuffer, if_pos hlength]
  moves data hlength := by
    refine ⟨{ vs with
      nEncodings := (be16 (data.getD 1 0) (data.getD 2 0)).toNat
      state := .runningWaitingDataExtra }, fun b s => ⟨s, ?_⟩, by simp [hstate], .inl hrc⟩
    simp only [setEncodings, getFromBuffer_received vs hlength]

theorem framebufferUpdateRequest_takesNext (hstate : vs.state = .runningWaitingData) :
    TakesNext 9 framebufferUpdateRequest vs where
  waits hlength := by rw [framebufferUpdateRequest, getFromBuffer, if_pos hlength]
  moves data hlength := by
    refine ⟨{ vs with state := .runningWaitingCmd, runningCmd := -1 }, fun b s => ?_,
      by simp [hstate], .inl hrc⟩
    simp only [framebufferUpdateRequest, getFromBuffer_received vs hlength]
    exact ⟨_, rfl⟩

theorem clientCutText_takesNext (hstate : vs.state = .runningWaitingData) :
    TakesNext 7 clientCutText vs where
  waits hlength := by rw [clientCutText, getFromBuffer, if_pos hlength]
  moves data hlength := by
    refine ⟨{ vs with
      ignoreDataN := (be32 (data.getD 3 0) (data.getD 4 0) (data.getD 5 0) (data.getD 6 0)).toInt
      state := .runningWaitingDataIgnore }, fun b s => ⟨s, ?_⟩, by simp [hstate], .inl hrc⟩
    simp only [clientCutText, getFromBuffer_received vs hlength]

theorem dataIgnore_takesNext (hstate : vs.state = .runningWaitingDataIgnore)
    (hpos : 0 < vs.ignoreDataN) : TakesNext vs.ignoreDataN.toNat dataIgnore vs where
  waits hlength := by rw [dataIgnore, if_pos hpos, getFromBuffer, if_pos hlength]
  moves data hlength := by
    refine ⟨{ vs with state := .runningWaitingCmd, ignoreDataN := -1 }, fun b s => ⟨s, ?_⟩,
      by simp [hstate], .inl hrc⟩
    simp only [dataIgnore, if_pos hpos, getFromBuffer_received vs hlength]

theorem dataExtra_takesNext (hstate : vs.state = .runningWaitingDataExtra) :
    TakesNext (if vs.runningCmd = 2 then vs.nEncodings.toNat * 4 else 0) dataExtra vs := by
  by_cases hcmd : vs.runningCmd = 2
  · rw [if_pos hcmd]
    refine ⟨fun hlength => ?_, fun data hlength => ?_⟩
    · rw [dataExtra, if_pos hcmd, getFromBuffer, if_pos hlength]
    · refine ⟨{ vs with
        encodings := parseEncodings vs.nEncodings.toNat data
        continuousUpdates := (parseEncodings vs.nEncodings.toNat data).any (· = -313)
        nEncodings := -1
        state := .runningWaitingCmd }, fun b s => ⟨s, ?_⟩, by simp [hstate], .inl hrc⟩
      simp only [dataExtra, if_pos hcmd, getFromBuffer_received vs hlength]
  · rw [if_neg hcmd]
    refine (refuses_takesNext hrc).congr fun ws hws => ?_
    rw [dataExtra, if_neg (hws ▸ hcmd)]

theorem waitingData_takesNext (hstate : vs.state = .runningWaitingData) :
    TakesNext (argumentLength vs.runningCmd) waitingData vs := by
  apply takesNext_ite 0 (setPixelFormat_takesNext hrc hstate)
  apply takesNext_ite 2 (setEncodings_takesNext hrc hstate)
  apply takesNext_ite 3 (framebufferUpdateRequest_takesNext hrc hstate)
  apply takesNext_ite 4 (ignoreCmd_takesNext hrc hstate 7)
  apply takesNext_ite 5 (ignoreCmd_takesNext hrc hstate 5)
  exact takesNext_ite 6 (clientCutText_takesNext hrc hstate) (refuses_takesNext hrc)

/-- Every block reads what the session wants. -/
theorem blockOf_takesNext {n : ℕ} (hwants : wants vs = some n) :
    TakesNext n (blockOf vs.state) vs := by
  rw [wants] at hwants
  cases hstate : vs.state with
  | initialHandshakeServerSend =>
    rw [hstate] at hwants
    exact Option.some.inj hwants ▸ handshakeServerSend_takesNext hrc hstate
  | initialHandshakeClientResp =>
    rw [hstate] at hwants
    exact Option.some.inj hwants ▸ handshakeClientResp_takesNext hrc hstate
  | securityHandshakeServer =>
    rw [hstate] at hwants
    exact Option.some.inj hwants ▸ securityServer_takesNext hrc hstate
  | securityHandshakeClientResp =>
    rw [hstate] at hwants
    exact Option.some.inj hwants ▸ securityClientResp_takesNext hrc hstate
  | clientInit =>
    rw [hstate] at hwants
    exact Option.some.inj hwants ▸ clientInitialises_takesNext hrc hstate
  | serverInit =>
    rw [hstate] at hwants
    exact Option.some.inj hwants ▸ serverInitialises_takesNext hrc hstate
  | runningWaitingCmd =>
    rw [hstate] at hwants
    exact Option.some.inj hwants ▸ waitingCmd_takesNext hrc hstate
  | runningWaitingData =>
    rw [hstate] at hwants
    exact Option.some.inj hwants ▸ waitingData_takesNext hrc hstate
  | runningWaitingDataIgnore =>
    rw [hstate] at hwants
    obtain ⟨hpos, hn⟩ := Option.ite_none_right_eq_some.mp hwants
    exact Option.some.inj hn ▸ dataIgnore_takesNext hrc hstate hpos
  | runningWaitingDataExtra =>
    rw [hstate] at hwants
    exact Option.some.inj hwants ▸ dataExtra_takesNext hrc hstate
  | terminate =>
    rw [hstate] at hwants
    cases hwants

/-- A session that wants nothing is over, or its assertion fails. -/
theorem blockOf_agrees {vs' : Session} (hblock : blockOf vs.state vs = some vs')
    (hstate : vs.state ≠ .terminate) : Agrees vs vs' := by
  cases hwants : wants vs with
  | some n => exact (blockOf_takesNext hrc hwants).agrees hrc hwants hblock
  | none =>
    rw [wants] at hwants
    cases h : vs.state <;> rw [h] at hwants hblock <;> try cases hwants
    · have hpos : ¬0 < vs.ignoreDataN := fun hpos => by rw [if_pos hpos] at hwants; cases hwants
      rw [blockOf, dataIgnore, if_neg hpos] at hblock
      cases hblock
    · exact absurd h hstate

end Blocks

/-! ## A pass -/

/-- What the reader sees of a session. -/
def view (vs : Session) : Session × List Byte := (vs.bare, vs.buffer)

theorem executedBlocks_of_notMem {blocks : List (VncState × (Session → Option Session))}
    {vs : Session} (h : vs.state ∉ blocks.map Prod.fst) : executedBlocks blocks vs = [] := by
  induction blocks with
  | nil => rfl
  | cons p blocks ih =>
    rw [List.map_cons, List.mem_cons, not_or] at h
    rw [executedBlocks, if_neg h.1]
    exact ih h.2

/-- The blocks of a pass are those of their states. -/
def Blocks (blocks : List (VncState × (Session → Option Session))) : Prop :=
  (blocks.map Prod.fst).Nodup ∧ ∀ p ∈ blocks, p.2 = blockOf p.1 ∧ p.1 ≠ .terminate

theorem blocks_handshakeBlocks : Blocks handshakeBlocks :=
  ⟨by decide, by simp [handshakeBlocks, blockOf]⟩

theorem blocks_commandBlocks : Blocks commandBlocks :=
  ⟨by decide, by simp [commandBlocks, blockOf]⟩

theorem progress_self (vs : Session) : progress vs vs = [] := if_pos ⟨rfl, rfl⟩

theorem runBlocks_reads {blocks : List (VncState × (Session → Option Session))}
    (hblocks : Blocks blocks) {vs vs' : Session} (hrc : vs.rc = true)
    (hrun : runBlocks blocks vs = some vs') :
    Segments.Reads reader (view vs) (executedBlocks blocks vs) (view vs') ∧
      (vs'.rc = true ∨ vs'.state ∈ blocks.map Prod.fst) := by
  induction blocks generalizing vs with
  | nil =>
    obtain rfl := Option.some.inj hrun
    exact ⟨.nil _, .inl hrc⟩
  | cons p blocks ih =>
    obtain ⟨hnodup, hof⟩ := hblocks
    rw [List.map_cons, List.nodup_cons] at hnodup
    rw [List.forall_mem_cons] at hof
    have hlater : ∀ {vs}, vs.rc = true → runBlocks blocks vs = some vs' →
        Segments.Reads reader (view vs) (executedBlocks blocks vs) (view vs') ∧
          (vs'.rc = true ∨ vs'.state ∈ (p :: blocks).map Prod.fst) := by
      intro vs hrc hrun
      obtain ⟨hreads, hend⟩ := ih ⟨hnodup.2, hof.2⟩ hrc hrun
      exact ⟨hreads, hend.imp_right (List.mem_cons_of_mem p.1)⟩
    by_cases hstate : vs.state = p.1
    · rw [runBlocks, if_pos hstate] at hrun
      obtain ⟨vs₁, hblock, hrest⟩ := Option.bind_eq_some_iff.mp hrun
      rw [executedBlocks, if_pos hstate, hblock]
      rw [hof.1.1, ← hstate] at hblock
      obtain ⟨rfl, -⟩ | ⟨e, hprogress, hnext, hend⟩ :=
        blockOf_agrees hrc hblock (hstate ▸ hof.1.2)
      · simp only [progress_self, List.nil_append]
        exact hlater hrc hrest
      · simp only [hprogress, List.singleton_append]
        obtain hrc₁ | hstate₁ := hend
        · obtain ⟨hreads, hend⟩ := hlater hrc₁ hrest
          exact ⟨.cons hnext hreads, hend⟩
        · -- the session is to end, and no later block is for its state
          have hskip : vs₁.state ∉ blocks.map Prod.fst := by
            rw [hstate₁, hstate]
            exact hnodup.1
          rw [runBlocks_of_notMem hskip] at hrest
          obtain rfl := Option.some.inj hrest
          rw [executedBlocks_of_notMem hskip]
          refine ⟨.cons hnext (.nil _), .inr ?_⟩
          rw [hstate₁, hstate]
          exact List.mem_cons_self
    · rw [runBlocks, if_neg hstate] at hrun
      rw [executedBlocks, if_neg hstate]
      exact hlater hrc hrun

/-- If nothing is executed in a state of these blocks, the reader waits. -/
theorem next_eq_none_of_executedBlocks {blocks : List (VncState × (Session → Option Session))}
    (hblocks : Blocks blocks) {vs vs' : Session} (hrc : vs.rc = true)
    (hstate : vs.state ∈ blocks.map Prod.fst) (hrun : runBlocks blocks vs = some vs')
    (hnone : executedBlocks blocks vs = []) : reader.next (view vs) = none := by
  induction blocks with
  | nil => cases hstate
  | cons p blocks ih =>
    obtain ⟨hnodup, hof⟩ := hblocks
    rw [List.map_cons, List.nodup_cons] at hnodup
    rw [List.forall_mem_cons] at hof
    by_cases hp : vs.state = p.1
    · rw [runBlocks, if_pos hp] at hrun
      obtain ⟨vs₁, hblock, -⟩ := Option.bind_eq_some_iff.mp hrun
      rw [executedBlocks, if_pos hp, hblock] at hnone
      rw [hof.1.1, ← hp] at hblock
      obtain ⟨-, hnext⟩ | ⟨e, hprogress, -, -⟩ := blockOf_agrees hrc hblock (hp ▸ hof.1.2)
      · exact hnext
      · simp [hprogress] at hnone
    · rw [runBlocks, if_neg hp] at hrun
      rw [executedBlocks, if_neg hp] at hnone
      rw [List.map_cons, List.mem_cons] at hstate
      exact ih ⟨hnodup.2, hof.2⟩ (hstate.resolve_left hp) hrun hnone

theorem view_updateFrame (vs : Session) (asked : Bool) : view (updateFrame vs asked) = view vs := by
  cases asked <;> rfl

theorem mem_states {state : VncState} (h : state ≠ .terminate) :
    state ∈ handshakeBlocks.map Prod.fst ∨ state ∈ commandBlocks.map Prod.fst := by
  revert h
  cases state <;> decide

/-- The two halves of a pass. -/
theorem pass_cases {vs vs' : Session} {data : List Byte} (hpass : pass vs data = some vs') :
    ∃ vs₁ vs₂, runBlocks handshakeBlocks { vs with buffer := vs.buffer ++ data } = some vs₁ ∧
      runBlocks commandBlocks (updateFrame vs₁ (data.isEmpty && vs.continuousUpdates)) = some vs₂ ∧
      vs' = (if vs₂.rc then vs₂ else { vs₂ with state := .terminate }) ∧
      executedPass vs data = executedBlocks handshakeBlocks { vs with buffer := vs.buffer ++ data } ++
        executedBlocks commandBlocks (updateFrame vs₁ (data.isEmpty && vs.continuousUpdates)) := by
  simp only [pass, Option.bind_eq_bind, Option.bind_eq_some_iff, Option.pure_def,
    Option.some.injEq] at hpass
  obtain ⟨vs₁, hhandshake, vs₂, hcommand, hvs'⟩ := hpass
  refine ⟨vs₁, vs₂, hhandshake, hcommand, hvs'.symm, ?_⟩
  simp only [executedPass, hhandshake]

theorem view_end (vs : Session) :
    view (if vs.rc then vs else { vs with state := .terminate }) = view vs := by
  cases hrc : vs.rc <;> simp [view, Session.bare, hrc]

theorem pass_reads {vs vs' : Session} {data : List Byte} (hrc : vs.rc = true)
    (hstate : vs.state ≠ .terminate) (hpass : pass vs data = some vs') :
    Segments.Reads reader (feed (view vs) data) (executedPass vs data) (view vs') ∧
      (executedPass vs data = [] → reader.next (feed (view vs) data) = none) ∧
      (vs'.state ≠ .terminate → vs'.rc = true) := by
  obtain ⟨vs₁, vs₂, hhandshake, hcommand, rfl, hexecuted⟩ := pass_cases hpass
  have hfeed : feed (view vs) data = view { vs with buffer := vs.buffer ++ data } := rfl
  have hrc : ({ vs with buffer := vs.buffer ++ data } : Session).rc = true := hrc
  have hend : (if vs₂.rc then vs₂ else { vs₂ with state := .terminate }).state ≠ .terminate →
      (if vs₂.rc then vs₂ else { vs₂ with state := .terminate }).rc = true := by
    cases hrc₂ : vs₂.rc <;> simp [hrc₂]
  rw [view_end, hexecuted, hfeed]
  obtain ⟨hreads, hleft⟩ := runBlocks_reads blocks_handshakeBlocks hrc hhandshake
  have hsecond : Segments.Reads reader (view vs₁)
      (executedBlocks commandBlocks (updateFrame vs₁ (data.isEmpty && vs.continuousUpdates)))
      (view vs₂) := by
    rw [← view_updateFrame vs₁ (data.isEmpty && vs.continuousUpdates)]
    obtain hrc₁ | hstate₁ := hleft
    · exact (runBlocks_reads blocks_commandBlocks ((updateFrame_rc _ _).trans hrc₁) hcommand).1
    · -- refused in the handshake
      have hskip : (updateFrame vs₁ (data.isEmpty && vs.continuousUpdates)).state ∉
          commandBlocks.map Prod.fst := by
        rw [updateFrame_state]
        exact notMem_commandBlocks _ hstate₁
      rw [runBlocks_of_notMem hskip] at hcommand
      rw [executedBlocks_of_notMem hskip, Option.some.inj hcommand]
      exact .nil _
  refine ⟨hreads.trans hsecond, fun hnone => ?_, hend⟩
  obtain ⟨hfirst, hnone⟩ := List.append_eq_nil_iff.mp hnone
  have hstate : ({ vs with buffer := vs.buffer ++ data } : Session).state ≠ .terminate := hstate
  obtain hmem | hmem := mem_states hstate
  · exact next_eq_none_of_executedBlocks blocks_handshakeBlocks hrc hmem hhandshake hfirst
  · obtain rfl := Option.some.inj ((runBlocks_handshakeBlocks hmem).symm.trans hhandshake)
    rw [← view_updateFrame _ (data.isEmpty && vs.continuousUpdates)]
    refine next_eq_none_of_executedBlocks blocks_commandBlocks ?_ ?_ hcommand hnone
    · exact (updateFrame_rc _ _).trans hrc
    · rw [updateFrame_state]
      exact hmem

/-! ## A stream -/

/-- The reader is where the session is, or both are over. -/
def Tracks (vs : Session) (s : Session × List Byte) : Prop :=
  if vs.state = .terminate then reader.wants s.1 = none else vs.rc = true ∧ s = view vs

theorem tracks_view {vs : Session} (hrc : vs.state ≠ .terminate → vs.rc = true) :
    Tracks vs (view vs) := by
  rw [Tracks]
  split_ifs with hstate
  · have hbare : vs.bare.state = .terminate := by
      simp [Session.bare, hstate]
    change wants vs.bare = none
    rw [wants, hbare]
  · exact ⟨hrc hstate, rfl⟩

theorem next_eq_none_of_wants {s : Session × List Byte} (h : reader.wants s.1 = none) :
    reader.next s = none := by
  rw [Reader.next, h]

theorem recordWork_served {start s : Session × List Byte} {pieces : List (List Byte)}
    {steps steps' : List Step} {vs vs' : Session} {data : List Byte}
    (hserved : Segments.Served reader start pieces steps s) (htracks : Tracks vs s)
    (hwork : recordWork (vs, steps) (some data) = some (vs', steps')) :
    ∃ s', Segments.Served reader start (pieces ++ [data]) steps' s' ∧ Tracks vs' s' := by
  obtain ⟨vs₁, hhandle, hresult⟩ := Option.map_eq_some_iff.mp hwork
  obtain ⟨rfl, rfl⟩ := Prod.mk.inj hresult
  rw [Tracks] at htracks
  by_cases hstate : vs.state = .terminate
  · rw [if_pos hstate] at htracks
    rw [handle, if_pos hstate] at hhandle
    obtain rfl := Option.some.inj hhandle
    rw [executedWork, if_pos hstate]
    have hwaits : reader.next (feed s data) = none := next_eq_none_of_wants htracks
    exact ⟨_, hserved.snoc data (.nil _) fun _ => hwaits, (if_pos hstate).mpr htracks⟩
  · rw [if_neg hstate] at htracks
    obtain ⟨hrc, rfl⟩ := htracks
    rw [handle, if_neg hstate] at hhandle
    rw [executedWork, if_neg hstate]
    obtain ⟨hreads, hbusy, hend⟩ := pass_reads hrc hstate hhandle
    exact ⟨_, hserved.snoc data hreads hbusy, tracks_view hend⟩

theorem recorded_append (works : List (Option (List Byte))) (work : Option (List Byte)) :
    recorded (works ++ [work]) = (recorded works).bind (recordWork · work) := by
  simp only [recorded, List.foldlM_append, Option.bind_eq_bind, Option.bind_assoc,
    List.foldlM_cons, List.foldlM_nil]
  simp

/-- What is recorded is a service of the reader; the first pass has no work. -/
theorem recorded_served (datas : List (List Byte)) {vs : Session} {steps : List Step}
    (hrecorded : recorded (datas.map some) = some (vs, steps)) :
    ∃ s, Segments.Served reader (view .init) ([] :: datas) steps s ∧ Tracks vs s := by
  induction datas using List.reverseRecOn generalizing vs steps with
  | nil =>
    simp only [recorded, List.map_nil, List.foldlM_nil, Option.pure_def, Option.bind_eq_some_iff,
      Option.some.injEq, Prod.mk.injEq] at hrecorded
    obtain ⟨vs₁, hpass, rfl, rfl⟩ := hrecorded
    obtain ⟨hreads, hbusy, hend⟩ := pass_reads rfl (by decide) hpass
    exact ⟨_, Segments.Served.nil.snoc [] hreads hbusy, tracks_view hend⟩
  | append_singleton datas data ih =>
    rw [List.map_append, List.map_singleton, recorded_append] at hrecorded
    obtain ⟨⟨vs₁, steps₁⟩, hbefore, hwork⟩ := Option.bind_eq_some_iff.mp hrecorded
    obtain ⟨s, hserved, htracks⟩ := ih hbefore
    exact recordWork_served hserved htracks hwork

theorem foldlM_recordWork (works : List (Option (List Byte))) (vs : Session) (steps : List Step) :
    (works.foldlM recordWork (vs, steps)).map Prod.fst = works.foldlM handle vs := by
  induction works generalizing vs steps with
  | nil => rfl
  | cons work works ih =>
    rw [List.foldlM_cons, List.foldlM_cons, recordWork]
    cases handle vs work with
    | none => rfl
    | some vs' => exact ih vs' _

/-- Recording changes nothing. -/
theorem recorded_fst (works : List (Option (List Byte))) :
    (recorded works).map Prod.fst = session works := by
  simp only [recorded, session, Option.map_bind, Option.bind_eq_bind, Function.comp_def,
    foldlM_recordWork]

theorem wants_read {vs t : Session} (hblock : blockOf vs.state { vs with buffer := [] } = some t)
    (ht : t.rc = true → wants t ≠ some 0) : wants (reader.read vs []).1 ≠ some 0 := by
  have hread : (reader.read vs []).1 = t.bare := by
    simp only [reader, hblock, Option.getD_some]
  rw [hread]
  cases hrc : t.rc with
  | true =>
    rw [bare_of_rc hrc]
    exact ht hrc
  | false => simp [wants, Session.bare, hrc]

theorem waitingData_of_argumentLength {vs : Session} (h : argumentLength vs.runningCmd = 0) :
    waitingData vs = some { vs with rc := false } := by
  rw [argumentLength] at h
  rw [waitingData]
  split_ifs at h ⊢
  rfl

theorem dataExtra_of_wants {vs : Session}
    (h : (if vs.runningCmd = 2 then vs.nEncodings.toNat * 4 else 0) = 0) :
    ∃ t, dataExtra vs = some t ∧ (t.rc = true → t.state = .runningWaitingCmd) := by
  by_cases hcmd : vs.runningCmd = 2
  · rw [if_pos hcmd] at h
    simp [dataExtra, hcmd, getFromBuffer, h]
  · exact ⟨{ vs with rc := false }, by rw [dataExtra, if_neg hcmd], fun hrc => by cases hrc⟩

/-- The reader never reads nothing twice in a row. -/
theorem reader_advances : reader.Advances := by
  intro vs hwants
  change wants vs = some 0 at hwants
  rw [wants] at hwants
  cases hstate : vs.state with
  | initialHandshakeServerSend => exact wants_read (by rw [hstate]; rfl) fun _ => by simp [wants]
  | securityHandshakeServer => exact wants_read (by rw [hstate]; rfl) fun _ => by simp [wants]
  | serverInit => exact wants_read (by rw [hstate]; rfl) fun _ => by simp [wants]
  | runningWaitingData =>
    rw [hstate] at hwants
    have hblock : waitingData { vs with buffer := [] } = some { vs with buffer := [], rc := false } :=
      waitingData_of_argumentLength (Option.some.inj hwants)
    exact wants_read ((congrFun (congrArg blockOf hstate) _).trans hblock) fun hrc => by cases hrc
  | runningWaitingDataExtra =>
    rw [hstate] at hwants
    obtain ⟨t, hblock, ht⟩ : ∃ t, dataExtra { vs with buffer := [] } = some t ∧
        (t.rc = true → t.state = .runningWaitingCmd) := dataExtra_of_wants (Option.some.inj hwants)
    refine wants_read ((congrFun (congrArg blockOf hstate) _).trans hblock) fun hrc => ?_
    rw [wants, ht hrc]
    simp
  | runningWaitingDataIgnore =>
    rw [hstate] at hwants
    obtain ⟨hpos, hn⟩ := Option.ite_none_right_eq_some.mp hwants
    have hzero := Option.some.inj hn
    omega
  | _ => simp [hstate] at hwants

theorem received_works (chunks : List (List Byte)) (n : ℕ) :
    received (works chunks n) = chunks.flatten := by
  simp [received, works, List.flatMap_map]

theorem budget_init (stream : List Byte) :
    reader.budget (feed (view .init) stream) = 2 * stream.length + 1 := by
  simp [Reader.budget, feed, view, reader, wants, Session.bare, Session.init]

/-- All of a stream is read in the end. -/
theorem exists_served {chunks : List (List Byte)} {n : ℕ} (htexts : CutTexts chunks.flatten)
    (hn : 2 * chunks.flatten.length + 1 ≤ n) :
    ∃ steps s, executed (works chunks n) = some steps ∧ reader.next s = none ∧
      Segments.Served reader (view .init) ([] :: chunks ++ List.replicate n []) steps s := by
  rw [← received_works chunks n] at htexts
  obtain ⟨vs, hsession, -⟩ := session_serves htexts
  rw [← recorded_fst] at hsession
  obtain ⟨⟨vs, steps⟩, hrecorded, rfl⟩ := Option.map_eq_some_iff.mp hsession
  obtain ⟨s, hserved, -⟩ := recorded_served _ hrecorded
  refine ⟨steps, s, by rw [executed, hrecorded]; rfl, ?_, hserved⟩
  rw [← List.cons_append] at hserved
  refine Segments.Served.waits reader_advances hserved ?_
  rw [budget_init]
  exact hn

/-- However the bytes of a client are cut into pieces, and however many requests for an update are
among them, the same handshake steps and commands are executed, with the same parameters, if enough
such requests follow. -/
theorem executed_eq_of_cut {chunks chunks' : List (List Byte)} {n n' : ℕ}
    (htexts : CutTexts chunks.flatten) (hsame : chunks'.flatten = chunks.flatten)
    (hn : 2 * chunks.flatten.length + 1 ≤ n) (hn' : 2 * chunks.flatten.length + 1 ≤ n') :
    ∃ steps, executed (works chunks n) = some steps ∧ executed (works chunks' n') = some steps := by
  obtain ⟨steps, s, hexecuted, hwaits, hserved⟩ := exists_served htexts hn
  rw [← hsame] at htexts hn'
  obtain ⟨steps', s', hexecuted', hwaits', hserved'⟩ := exists_served htexts hn'
  obtain rfl := hserved.unique hserved' (by simp [hsame]) hwaits hwaits'
  exact ⟨steps, hexecuted, hexecuted'⟩

namespace Sample

/-- The handshake, `SetEncodings` with one encoding, a request for a frame, and a key. -/
def stream : List Byte :=
  initialMessage ++ [1, 1] ++ [2, 0, 0, 1, 0, 0, 0, 5] ++ [3, 1, 0, 0, 0, 0, 2, 128, 1, 224] ++
    [4, 1, 0, 0, 0, 0, 0, 65]

end Sample

/-- In one piece, and byte by byte. -/
theorem executed_eq_sample :
    ∃ steps, executed (works [Sample.stream] 81) = some steps ∧
      executed (works (Sample.stream.map ([·])) 90) = some steps :=
  executed_eq_of_cut (cutTexts_of_notMem (by decide)) (by decide) (by decide) (by decide)

end MyIp.Vnc
