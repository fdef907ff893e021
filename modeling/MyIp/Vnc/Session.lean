import Mathlib.Tactic
import MyIp.Foundations.Bytes

/-! # A VNC session

`vnc_thread` (`vnc.cpp`): each piece of work (a chunk of what the client sent, or the request for an
update) is one pass through a row of blocks, and a block runs if the session is in its state. Of a
frame that is sent there are the arguments of `calculate_fb_update`; `MyIp.Vnc.Updates` has the call. -/

namespace MyIp.Vnc
set_option autoImplicit false

open Bytes

/-- `vnc_state_t` -/
inductive VncState
  | initialHandshakeServerSend
  | initialHandshakeClientResp
  | securityHandshakeServer
  | securityHandshakeClientResp
  | clientInit
  | serverInit
  | runningWaitingCmd
  | runningWaitingData
  | runningWaitingDataExtra
  | runningWaitingDataIgnore
  | terminate
  deriving DecidableEq

/-- The arguments of a call of `calculate_fb_update`. -/
structure Update where
  encodings : List ℤ
  incremental : Bool
  x : BitVec 16
  y : BitVec 16
  w : BitVec 16
  h : BitVec 16
  depth : Byte
  deriving DecidableEq

inductive Output
  | bytes (data : List Byte)
  | framebufferUpdate (u : Update)
  deriving DecidableEq

/-- `vnc_session_data` and the variables of `vnc_thread`. -/
structure Session where
  state : VncState
  buffer : List Byte
  depth : Byte
  encodings : List ℤ
  nEncodings : ℤ
  continuousUpdates : Bool
  runningCmd : ℤ
  ignoreDataN : ℤ
  rc : Bool
  sent : List Output

def Session.init : Session where
  state := .initialHandshakeServerSend
  buffer := []
  depth := 32
  encodings := [0]
  nEncodings := -1
  continuousUpdates := false
  runningCmd := -1
  ignoreDataN := -1
  rc := true
  sent := []

/-- `get_from_buffer` -/
def getFromBuffer (vs : Session) (n : ℕ) : Option (List Byte × Session) :=
  if vs.buffer.length < n then none
  else some (vs.buffer.take n, { vs with buffer := vs.buffer.drop n })

def Session.send (vs : Session) (data : List Byte) : Session :=
  { vs with sent := vs.sent ++ [.bytes data] }

/-- `RFB` -/
def rfb : List Byte := [0x52, 0x46, 0x42]

/-- `RFB 003.008` and a line feed. -/
def initialMessage : List Byte := rfb ++ [0x20, 0x30, 0x30, 0x33, 0x2e, 0x30, 0x30, 0x38, 0x0a]

def handshakeServerSend (vs : Session) : Option Session :=
  some { vs.send initialMessage with state := .initialHandshakeClientResp }

def handshakeClientResp (vs : Session) : Option Session :=
  match getFromBuffer vs 12 with
  | none => some vs
  | some (handshake, vs) =>
    if handshake.take 3 = rfb then some { vs with state := .securityHandshakeServer }
    else some { vs with rc := false }

def securityServer (vs : Session) : Option Session :=
  some { vs.send [1, 1] with state := .securityHandshakeClientResp }

def securityClientResp (vs : Session) : Option Session :=
  match getFromBuffer vs 1 with
  | none => some vs
  | some (chosenSec, vs) =>
    if chosenSec = [1] then some { vs.send [0, 0, 0, 0] with state := .clientInit }
    else some { vs.send [0, 0, 0, 1] with rc := false }

def clientInitialises (vs : Session) : Option Session :=
  match getFromBuffer vs 1 with
  | none => some vs
  | some (_, vs) => some { vs with state := .serverInit }

/-- A frame buffer of 640 by 480, its format, and the name `MyIP`. -/
def serverInitMessage : List Byte :=
  [2, 128, 1, 224, 32, 24, 1, 1, 0, 255, 0, 255, 0, 255, 16, 8, 0, 0, 0, 0, 0, 0, 0, 4,
    0x4d, 0x79, 0x49, 0x50]

def serverInitialises (vs : Session) : Option Session :=
  some { vs.send serverInitMessage with state := .runningWaitingCmd }

def waitingCmd (vs : Session) : Option Session :=
  match getFromBuffer vs 1 with
  | none => some vs
  | some (cmd, vs) =>
    some { vs with runningCmd := (cmd.getD 0 0).toNat, state := .runningWaitingData }

/-- The end of a command of which `n` bytes are ignored. -/
def ignoreCmd (vs : Session) (n : ℕ) : Option Session :=
  match getFromBuffer vs n with
  | none => some vs
  | some (_, vs) => some { vs with state := .runningWaitingCmd, runningCmd := -1 }

def setPixelFormat (vs : Session) : Option Session :=
  match getFromBuffer vs 19 with
  | none => some vs
  | some (pf, vs) => some { vs with depth := pf.getD 4 0, state := .runningWaitingCmd }

def setEncodings (vs : Session) : Option Session :=
  match getFromBuffer vs 3 with
  | none => some vs
  | some (parameters, vs) =>
    some { vs with
      nEncodings := (be16 (parameters.getD 1 0) (parameters.getD 2 0)).toNat
      state := .runningWaitingDataExtra }

/-- The update that a `FramebufferUpdateRequest` asks for. -/
def requestedUpdate (encodings : List ℤ) (depth : Byte) (parameters : List Byte) : Update :=
  let short := fun i => be16 (parameters.getD i 0) (parameters.getD (i + 1) 0)
  ⟨encodings, parameters.getD 0 0 ≠ 0, short 1, short 3, short 5, short 7, depth⟩

def framebufferUpdateRequest (vs : Session) : Option Session :=
  match getFromBuffer vs 9 with
  | none => some vs
  | some (parameters, vs) =>
    some { vs with
      sent := vs.sent ++ [.framebufferUpdate (requestedUpdate vs.encodings vs.depth parameters)]
      state := .runningWaitingCmd
      runningCmd := -1 }

def clientCutText (vs : Session) : Option Session :=
  match getFromBuffer vs 7 with
  | none => some vs
  | some (parameters, vs) =>
    some { vs with
      ignoreDataN := (be32 (parameters.getD 3 0) (parameters.getD 4 0) (parameters.getD 5 0)
        (parameters.getD 6 0)).toInt
      state := .runningWaitingDataIgnore }

def waitingData (vs : Session) : Option Session :=
  if vs.runningCmd = 0 then setPixelFormat vs
  else if vs.runningCmd = 2 then setEncodings vs
  else if vs.runningCmd = 3 then framebufferUpdateRequest vs
  else if vs.runningCmd = 4 then ignoreCmd vs 7
  else if vs.runningCmd = 5 then ignoreCmd vs 5
  else if vs.runningCmd = 6 then clientCutText vs
  else some { vs with rc := false }

/-- The text of a `ClientCutText`; there is no next state if the assertion fails. -/
def dataIgnore (vs : Session) : Option Session :=
  if 0 < vs.ignoreDataN then
    match getFromBuffer vs vs.ignoreDataN.toNat with
    | none => some vs
    | some (_, vs) => some { vs with state := .runningWaitingCmd, ignoreDataN := -1 }
  else none

def parseEncodings : ℕ → List Byte → List ℤ
  | 0, _ => []
  | n + 1, bin =>
    (be32 (bin.getD 0 0) (bin.getD 1 0) (bin.getD 2 0) (bin.getD 3 0)).toInt ::
      parseEncodings n (bin.drop 4)

def dataExtra (vs : Session) : Option Session :=
  if vs.runningCmd = 2 then
    match getFromBuffer vs (vs.nEncodings.toNat * 4) with
    | none => some vs
    | some (encodingsBin, vs) =>
      let encodings := parseEncodings vs.nEncodings.toNat encodingsBin
      some { vs with
        encodings := encodings
        continuousUpdates := encodings.any (· = -313)
        nEncodings := -1
        state := .runningWaitingCmd }
  else some { vs with rc := false }

/-- The blocks before the frame that an update asks for, and those after it. -/
def handshakeBlocks : List (VncState × (Session → Option Session)) :=
  [(.initialHandshakeServerSend, handshakeServerSend),
    (.initialHandshakeClientResp, handshakeClientResp),
    (.securityHandshakeServer, securityServer),
    (.securityHandshakeClientResp, securityClientResp),
    (.clientInit, clientInitialises),
    (.serverInit, serverInitialises)]

def commandBlocks : List (VncState × (Session → Option Session)) :=
  [(.runningWaitingCmd, waitingCmd),
    (.runningWaitingData, waitingData),
    (.runningWaitingDataIgnore, dataIgnore),
    (.runningWaitingDataExtra, dataExtra)]

def runBlocks : List (VncState × (Session → Option Session)) → Session → Option Session
  | [], vs => some vs
  | (state, block) :: blocks, vs =>
    if vs.state = state then (block vs).bind (runBlocks blocks) else runBlocks blocks vs

def fullUpdate (encodings : List ℤ) : Update := ⟨encodings, false, 0, 0, 640, 480, 24⟩

/-- A full frame, if one is asked for. -/
def updateFrame (vs : Session) (asked : Bool) : Session :=
  if asked then { vs with sent := vs.sent ++ [.framebufferUpdate (fullUpdate vs.encodings)] } else vs

/-- One pass of the loop of `vnc_thread`; no data is the first pass or the request for an update. -/
def pass (vs : Session) (data : List Byte) : Option Session := do
  let asked := data.isEmpty && vs.continuousUpdates
  let vs ← runBlocks handshakeBlocks { vs with buffer := vs.buffer ++ data }
  let vs ← runBlocks commandBlocks (updateFrame vs asked)
  return if vs.rc then vs else { vs with state := .terminate }

/-- One piece of work; without any the thread is asked to end. -/
def handle (vs : Session) : Option (List Byte) → Option Session
  | none => some { vs with state := .terminate }
  | some data => if vs.state = .terminate then some vs else pass vs data

/-- The session after some pieces of work. -/
def session (works : List (Option (List Byte))) : Option Session := do
  let vs ← pass .init []
  works.foldlM handle vs

/-- What the client has sent. -/
def received (works : List (Option (List Byte))) : List Byte := works.flatMap (·.getD [])

end MyIp.Vnc
