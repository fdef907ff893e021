import MyIp.Foundations.Crc
import MyIp.Net.Buffer

/-! # The chunks of SCTP

The parts of `sctp.cpp` that read and write one chunk. The state of an association is a `Session`;
what the program is started with, and the functions of OpenSSL, are a `Config`.

The state cookie of an INIT ACK holds all that is needed to set up the association
(`generateStateCookie`); nothing is kept until it comes back in a COOKIE ECHO. -/

namespace MyIp.Sctp
set_option autoImplicit false

open Bytes

/-- `sctp_session` with the part of `session` that it uses. -/
structure Session where
  theirAddr : AnyAddr
  theirPort : BitVec 16
  myAddr : AnyAddr
  myPort : BitVec 16
  theirTsn : BitVec 32
  myTsn : BitVec 32
  myStreamSequenceNr : BitVec 16 := 0
  theirVerificationTag : BitVec 32
  deriving DecidableEq

/-- `session::get_hash` -/
def getHash (theirAddr : AnyAddr) (theirPort myPort : BitVec 16) : BitVec 64 :=
  murmurHash64A (theirAddr.addr ++ be16Bytes theirPort ++ be16Bytes myPort) 99194853094755497

/-- Which callbacks of a `port_handler_t` are set. -/
structure Listener where
  newSession : Bool
  newData : Bool

/-- The key of the cookies and the time it was made, HMAC-SHA3-224, and the listeners by port. -/
structure Config where
  stateCookieKey : List Byte
  stateCookieKeyTimestamp : BitVec 32
  hmac : List Byte → List Byte → List Byte
  hmac_length : ∀ key message, (hmac key message).length = 28
  listeners : BitVec 16 → Option Listener

/-- `generate_crc32c`: `crc_c` is the table of the polynomial, the bytes come in reverse order. -/
def generateCrc32c (buffer : List Byte) : BitVec 32 :=
  let result := ~~~(Crc.crc 0x82f63b78 0xffffffff buffer : BitVec 32)
  be32 (result.setWidth 8) ((result >>> 8).setWidth 8) ((result >>> 16).setWidth 8)
    ((result >>> 24).setWidth 8)

/-! ## Setting up an association -/

/-- `get_parameter` -/
def getParameter (chunkPayload : BufferIn) :
    Except String ((BitVec 16 × BufferIn) × BufferIn) := do
  let (type, chunkPayload) ← chunkPayload.getNetShort
  let (len, chunkPayload) ← chunkPayload.getNetShort
  -- len is including the header (excluding the padding)
  if len.toNat < 4 then throw "sctp::get_parameter"
  let (value, chunkPayload) ← chunkPayload.getSegment (len.toNat - 4)
  let padding := len.toNat % 4
  if padding ≠ 0 then
    let chunkPayload ← chunkPayload.seek (4 - padding)
    return ((type, value), chunkPayload)
  else return ((type, value), chunkPayload)

/-- The loop of `chunk_init` over the parameters; each takes four bytes at least. -/
def parameters : ℕ → BufferIn → Except String Unit
  | 0, _ => return ()
  | turns + 1, chunkPayload =>
    if chunkPayload.endReached then return ()
    else do
      let (_, chunkPayload) ← getParameter chunkPayload
      parameters turns chunkPayload

/-- The cookie without its hash. -/
def cookieFields (cfg : Config) (theirAddr : AnyAddr) (theirPort localPort : BitVec 16)
    (theirVerificationTag theirInitialTsn myInitialTsn : BitVec 32) : List Byte :=
  be32Bytes theirVerificationTag ++ be32Bytes theirInitialTsn ++ be32Bytes myInitialTsn ++
    BitVec.ofNat 8 theirAddr.addr.length :: theirAddr.addr ++ be16Bytes theirPort ++
    be16Bytes localPort ++ be32Bytes cfg.stateCookieKeyTimestamp

/-- `generate_state_cookie` -/
def generateStateCookie (cfg : Config) (theirAddr : AnyAddr) (theirPort localPort : BitVec 16)
    (theirVerificationTag theirInitialTsn myInitialTsn : BitVec 32) : List Byte :=
  let sc := cookieFields cfg theirAddr theirPort localPort theirVerificationTag theirInitialTsn
    myInitialTsn
  sc ++ cfg.hmac cfg.stateCookieKey sc

/-- The random numbers of an INIT ACK. -/
structure Draw where
  verificationTag : BitVec 32
  initialTsn : BitVec 32
  verificationTag_ne : verificationTag ≠ 0

/-- The INIT ACK chunk of `chunk_init`, with `buffer_size` 4096. -/
def initAck (draw : Draw) (stateCookie : List Byte) : List Byte :=
  let out := [2, 0] ++ be16Bytes 0 ++ be32Bytes draw.verificationTag ++ be32Bytes 4096 ++
    be16Bytes 1 ++ be16Bytes 1 ++ be32Bytes draw.initialTsn ++
    be16Bytes 7 ++ be16Bytes (BitVec.ofNat 16 (4 + stateCookie.length)) ++ stateCookie
  BufferOut.addPadding (BufferOut.addNetShortAt out (BitVec.ofNat 16 out.length) 2) 4

/-- What `chunk_init` reads. -/
structure Init where
  initiateTag : BitVec 32
  initialTsn : BitVec 32

def readInit (chunkPayload : BufferIn) : Except String Init := do
  let (initiateTag, chunkPayload) ← chunkPayload.getNetLong
  let (_aRwnd, chunkPayload) ← chunkPayload.getNetLong
  let (_nOutboundStreams, chunkPayload) ← chunkPayload.getNetShort
  let (_nInboundStreams, chunkPayload) ← chunkPayload.getNetShort
  let (theirInitialTsn, chunkPayload) ← chunkPayload.getNetLong
  parameters chunkPayload.getSize chunkPayload
  return ⟨initiateTag, theirInitialTsn⟩

/-- The cookie that `chunk_init` puts into the INIT ACK. -/
def initCookie (cfg : Config) (theirAddr : AnyAddr) (theirPort localPort : BitVec 16) (init : Init)
    (draw : Draw) : List Byte :=
  generateStateCookie cfg theirAddr theirPort localPort init.initiateTag init.initialTsn
    draw.initialTsn

/-- `chunk_cookie_echo`: whether the cookie is the one that would be made, and its first fields. -/
def chunkCookieEcho (cfg : Config) (theirAddr : AnyAddr) (theirPort localPort : BitVec 16)
    (chunkPayload : BufferIn) : Except String (Bool × BitVec 32 × BitVec 32 × BitVec 32) := do
  let (cookieData, _) ← chunkPayload.getSegment chunkPayload.getNBytesLeft
  let (theirVerificationTag, temp) ← cookieData.copy.getNetLong
  let (theirInitialTsn, temp) ← temp.getNetLong
  let (myInitialTsn, _) ← temp.getNetLong
  let stateCookie := generateStateCookie cfg theirAddr theirPort localPort theirVerificationTag
    theirInitialTsn myInitialTsn
  return (decide (stateCookie = cookieData.peek), theirVerificationTag, theirInitialTsn,
    myInitialTsn)

/-! ## The chunks of a reply -/

/-- `chunk_gen_abort` -/
def chunkGenAbort : List Byte := [6, 0] ++ be16Bytes 4

/-- `chunk_gen_shutdown` -/
def chunkGenShutdown : List Byte := [7, 0] ++ be16Bytes 4

/-- `chunk_gen_cookie_ack` -/
def chunkGenCookieAck : List Byte := [11, 0] ++ be16Bytes 4

/-- `chunk_heartbeat_request` -/
def chunkHeartbeatRequest (chunkPayload : BufferIn) : List Byte :=
  let out := [5, 0] ++ be16Bytes 4 ++ chunkPayload.left
  BufferOut.addPadding (BufferOut.addNetShortAt out (BitVec.ofNat 16 out.length) 2) 4

/-- The SACK of `chunk_data`. -/
def sack (tsn : BitVec 32) : List Byte :=
  let chunkOut := [3, 3] ++ be16Bytes 0 ++ be32Bytes tsn ++ be32Bytes 4096 ++ be16Bytes 0 ++
    be16Bytes 0
  BufferOut.addNetShortAt chunkOut (BitVec.ofNat 16 chunkOut.length) 2

/-! ## Data -/

/-- `sctp_data_handling_result_t` -/
inductive HandlingResult
  | close | abort | continue
  deriving DecidableEq, Repr

/-- The fields of a DATA chunk and what is left of it. -/
structure DataChunk where
  tsn : BitVec 32
  streamId : BitVec 16
  streamSeqNr : BitVec 16
  protocolIdentifier : BitVec 32
  rest : BufferIn

def readData (chunk : BufferIn) : Except String DataChunk := do
  let (tsn, chunk) ← chunk.getNetLong
  let (streamId, chunk) ← chunk.getNetShort
  let (streamSeqNr, chunk) ← chunk.getNetShort
  let (protocolIdentifier, chunk) ← chunk.getNetLong
  return ⟨tsn, streamId, streamSeqNr, protocolIdentifier, chunk⟩

/-- What `chunk_data` does: the chunk it returns, the association after it, and the data that it has
given to `new_data`, if any. -/
structure Handled where
  result : HandlingResult
  out : List Byte
  session : Session
  delivered : Option (List Byte)

/-- `chunk_data`; `newData` is the callback. -/
def chunkData (s : Session) (chunk : BufferIn) (newData : Session → List Byte → Bool) :
    Except String Handled := do
  let data ← readData chunk
  let tsnBefore := s.theirTsn
  if data.tsn = s.theirTsn then
    let session := { s with theirTsn := s.theirTsn + 1 }
    let rc := newData session data.rest.left
    return ⟨if rc then .continue else .close, sack tsnBefore, session, some data.rest.left⟩
  else return ⟨.continue, sack tsnBefore, s, none⟩

theorem readData_append {b : BufferIn} {tsn protocolIdentifier : BitVec 32}
    {streamId streamSeqNr : BitVec 16} {rest : List Byte}
    (hleft : b.left = be32Bytes tsn ++ (be16Bytes streamId ++ (be16Bytes streamSeqNr ++
      (be32Bytes protocolIdentifier ++ rest)))) :
    ∃ b', readData b = .ok ⟨tsn, streamId, streamSeqNr, protocolIdentifier, b'⟩ ∧
      b'.left = rest := by
  obtain ⟨b₁, h₁, hleft₁⟩ := BufferIn.getNetLong_append hleft
  obtain ⟨b₂, h₂, hleft₂⟩ := BufferIn.getNetShort_append hleft₁
  obtain ⟨b₃, h₃, hleft₃⟩ := BufferIn.getNetShort_append hleft₂
  obtain ⟨b₄, h₄, hleft₄⟩ := BufferIn.getNetLong_append hleft₃
  refine ⟨b₄, ?_, hleft₄⟩
  simp [readData, h₁, h₂, h₃, h₄]

theorem chunkData_error {s : Session} {chunk : BufferIn} {newData : Session → List Byte → Bool}
    {e : String} (h : readData chunk = .error e) : chunkData s chunk newData = .error e := by
  rw [chunkData, h]
  rfl

theorem chunkData_expected {s : Session} {chunk : BufferIn} {newData : Session → List Byte → Bool}
    {data : DataChunk} (h : readData chunk = .ok data) (htsn : data.tsn = s.theirTsn) :
    chunkData s chunk newData = .ok
      ⟨if newData { s with theirTsn := s.theirTsn + 1 } data.rest.left then .continue else .close,
        sack s.theirTsn, { s with theirTsn := s.theirTsn + 1 }, some data.rest.left⟩ := by
  rw [chunkData, h]
  exact if_pos htsn

theorem chunkData_other {s : Session} {chunk : BufferIn} {newData : Session → List Byte → Bool}
    {data : DataChunk} (h : readData chunk = .ok data) (htsn : data.tsn ≠ s.theirTsn) :
    chunkData s chunk newData = .ok ⟨.continue, sack s.theirTsn, s, none⟩ := by
  rw [chunkData, h]
  exact if_neg htsn

/-! ## A sample -/

/-- The association of a peer at 10.0.0.2, port 4000, with the echo service of 10.0.0.1. -/
def sampleSession : Session where
  theirAddr := .ipv4 10 0 0 2
  theirPort := 4000
  myAddr := .ipv4 10 0 0 1
  myPort := 7
  theirTsn := 7
  myTsn := 1
  theirVerificationTag := 0x11223344

/-- HMAC-SHA3-224 of the cookie fields of `sampleSession` under the key 0, 1, .., 31. -/
def sampleHmac (key message : List Byte) : List Byte :=
  if key = (List.range 32).map (BitVec.ofNat 8) ∧
      message =
        [17, 34, 51, 68, 0, 0, 0, 7, 0, 0, 0, 1, 4, 10, 0, 0, 2, 15, 160, 0, 7, 104, 0, 0, 0]
  then [194, 233, 169, 42, 170, 35, 57, 198, 180, 28, 128, 239, 108, 140, 33, 68, 153, 152, 143, 67,
    96, 98, 243, 95, 212, 90, 173, 247]
  else List.replicate 28 0

def sampleConfig : Config where
  stateCookieKey := (List.range 32).map (BitVec.ofNat 8)
  stateCookieKeyTimestamp := 0x68000000
  hmac := sampleHmac
  hmac_length := by
    intro key message
    rw [sampleHmac]
    split
    · rfl
    · rfl
  listeners := fun port => if port = 7 then some ⟨true, true⟩ else none

end MyIp.Sctp
