import MyIp.Sctp.Chunks

/-! # Receiving and sending

`sctp::operator()` for one packet (`receive`): a loop over its chunks, each of which may change the
table of the associations and adds to one reply. `std::out_of_range` ends the packet without a reply
and without `terminate_session` being looked at; what was done before stays.

`sendData` is `sctp::send_data`. -/

namespace MyIp.Sctp
set_option autoImplicit false

open Bytes

/-- A packet from the network. -/
structure Arrival where
  srcAddr : AnyAddr
  dstAddr : AnyAddr
  data : List Byte

/-- What a packet meets: the random numbers, by the offset of the chunk for which they are drawn,
and the answers of `new_data`. -/
structure Oracle where
  draw : ℕ → Draw
  newData : Session → List Byte → Bool

/-- What the application and the peer are told, besides the chunks of the reply. -/
inductive Action
  | newSession (s : Session)
  | newData (s : Session) (data : List Byte)
  /-- An INIT ACK with this cookie announces the verification tag. -/
  | announced (cookie : List Byte) (verificationTag : BitVec 32)
  deriving DecidableEq

abbrev Sessions := BitVec 64 → Option Session

def Sessions.set (sessions : Sessions) (hash : BitVec 64) (s : Option Session) : Sessions :=
  Function.update sessions hash s

@[simp] theorem Sessions.set_self (sessions : Sessions) (hash : BitVec 64) (s : Option Session) :
    sessions.set hash s hash = s := Function.update_self _ _ _

/-- The variables of `operator()` while it goes through the chunks. -/
structure Work where
  sessions : Sessions
  reply : List Byte
  sendReply : Bool := true
  terminateSession : Bool := false
  actions : List Action := []

/-- What comes after a chunk: the next one, the end of the loop, or the exception. -/
inductive Next
  | go | stop | thrown
  deriving DecidableEq, Repr

/-- What is the same for all chunks of a packet. -/
structure Ctx where
  cfg : Config
  oracle : Oracle
  theirAddr : AnyAddr
  myAddr : AnyAddr
  sourcePort : BitVec 16
  destinationPort : BitVec 16

namespace Ctx

def hash (ctx : Ctx) : BitVec 64 := getHash ctx.theirAddr ctx.sourcePort ctx.destinationPort

def listener (ctx : Ctx) : Option Listener := ctx.cfg.listeners ctx.destinationPort

/-- `new_data_handler` is set. -/
def hasNewData (ctx : Ctx) : Bool := ctx.listener.any fun l => l.newData

/-- `new_session_handler` is set. -/
def hasNewSession (ctx : Ctx) : Bool := ctx.listener.any fun l => l.newSession

end Ctx

namespace Work

def add (w : Work) (chunk : List Byte) : Work := { w with reply := w.reply ++ chunk }

/-- `reply.add_net_long(tag, their_verification_tag_offset)` -/
def setTag (w : Work) (tag : BitVec 32) : Work :=
  { w with reply := BufferOut.addNetLongAt w.reply tag 4 }

def terminate (w : Work) : Work := { w with terminateSession := true }

def act (w : Work) (a : Action) : Work := { w with actions := w.actions ++ [a] }

end Work

/-- The branch DATA. -/
def onData (ctx : Ctx) (chunk : BufferIn) (w : Work) : Work × Next :=
  if ctx.hasNewData then
    match w.sessions ctx.hash with
    | none => (w, .go)
    | some s =>
      match chunkData s chunk ctx.oracle.newData with
      | .error _ => (w, .thrown)
      | .ok handled =>
        let w := { w with sessions := w.sessions.set ctx.hash (some handled.session) }
        let w := match handled.delivered with
          | some data => w.act (.newData handled.session data)
          | none => w
        match handled.result with
        | .abort => ((w.terminate).add chunkGenAbort, .stop)
        | .close =>
          (((w.add handled.out).add chunkGenShutdown).setTag s.theirVerificationTag, .go)
        | .continue => ((w.add handled.out).setTag s.theirVerificationTag, .go)
  else ((w.add chunkGenAbort).terminate, .go)

/-- The branch INIT, for a chunk at `position`. -/
def onInit (ctx : Ctx) (position : ℕ) (chunk : BufferIn) (w : Work) : Work × Next :=
  match readInit chunk with
  | .error _ => (w, .thrown)
  | .ok init =>
    let draw := ctx.oracle.draw position
    let cookie := initCookie ctx.cfg ctx.theirAddr ctx.sourcePort ctx.destinationPort init draw
    let w := w.setTag init.initiateTag
    if ctx.listener.isSome then
      ((w.add (initAck draw cookie)).act (.announced cookie draw.verificationTag), .go)
    else ((w.add chunkGenAbort).terminate, .go)

/-- The branch COOKIE ECHO. -/
def onCookieEcho (ctx : Ctx) (chunk : BufferIn) (w : Work) : Work × Next :=
  match chunkCookieEcho ctx.cfg ctx.theirAddr ctx.sourcePort ctx.destinationPort chunk with
  | .error _ => (w, .thrown)
  | .ok (cookieOk, theirVerificationTag, theirInitialTsn, myInitialTsn) =>
    let w :=
      if cookieOk && ctx.hasNewSession then
        let w := match w.sessions ctx.hash with
          | some _ => w
          | none =>
            let s : Session :=
              { theirAddr := ctx.theirAddr, theirPort := ctx.sourcePort, myAddr := ctx.myAddr
                myPort := ctx.destinationPort, theirTsn := theirInitialTsn, myTsn := myInitialTsn
                theirVerificationTag := theirVerificationTag }
            { w with sessions := w.sessions.set ctx.hash (some s) }.act (.newSession s)
        w.add chunkGenCookieAck
      else (w.add chunkGenAbort).terminate
    (w.setTag theirVerificationTag, .go)

/-- One chunk of the loop in `operator()`. -/
def onChunk (ctx : Ctx) (position : ℕ) (type : Byte) (chunk : BufferIn) (w : Work) : Work × Next :=
  if type = 0 then onData ctx chunk w
  else if type = 1 then onInit ctx position chunk w
  else if type = 4 then (w.add (chunkHeartbeatRequest chunk), .go)
  else if type = 6 then ({ w with terminateSession := true, sendReply := false }, .stop)
  else if type = 10 then onCookieEcho ctx chunk w
  else ({ w with sendReply := false }, .go)

/-- The header of a chunk and, if its length is one, its payload. -/
def readChunk (b : BufferIn) : Except String (Byte × ℕ × Option BufferIn × BufferIn) := do
  let (type, b) ← b.getNetByte
  let (_flags, b) ← b.getNetByte
  let (len, b) ← b.getNetShort
  if len.toNat < 4 then return (type, len.toNat, none, b)
  else
    let (chunk, b) ← b.getSegment (len.toNat - 4)
    return (type, len.toNat, some chunk, b)

def skipPadding (len : ℕ) (b : BufferIn) : Except String BufferIn :=
  if len % 4 ≠ 0 then b.seek (4 - len % 4) else .ok b

/-- The loop over the chunks; `true` says that the exception was thrown. Each turn takes four bytes
at least, so that as many turns as there are bytes are enough (`chunkLoop_turns`). -/
def chunkLoop (ctx : Ctx) : ℕ → BufferIn → Work → Work × Bool
  | 0, _, w => (w, false)
  | turns + 1, b, w =>
    if b.endReached then (w, false)
    else
      match readChunk b with
      | .error _ => (w, true)
      | .ok (_, _, none, _) => (w.terminate, false)
      | .ok (type, len, some chunk, next) =>
        match onChunk ctx b.o type chunk w with
        | (w, .thrown) => (w, true)
        | (w, .stop) => (w, false)
        | (w, .go) =>
          match skipPadding len next with
          | .error _ => (w, true)
          | .ok next => chunkLoop ctx turns next w

structure Header where
  sourcePort : BitVec 16
  destinationPort : BitVec 16
  verificationTag : BitVec 32
  checksum : BitVec 32

def readHeader (b : BufferIn) : Except String (Header × BufferIn) := do
  let (sourcePort, b) ← b.getNetShort
  let (destinationPort, b) ← b.getNetShort
  let (verificationTag, b) ← b.getNetLong
  let (checksum, b) ← b.getNetLong
  return (⟨sourcePort, destinationPort, verificationTag, checksum⟩, b)

/-- The header of the reply, with place holders for the tag and the CRC. -/
def replyHeader (ctx : Ctx) : List Byte :=
  be16Bytes ctx.destinationPort ++ be16Bytes ctx.sourcePort ++ be32Bytes (-1) ++ be32Bytes 0

/-- The CRC in its place. -/
def withCrc (out : List Byte) : List Byte := BufferOut.addNetLongAt out (generateCrc32c out) 8

/-- What a packet does: the associations after it, the reply that is sent, and the actions. -/
structure Outcome where
  sessions : Sessions
  reply : Option (List Byte) := none
  actions : List Action := []

/-- The end of `operator()`, after the loop. -/
def finish (ctx : Ctx) (r : Work × Bool) : Outcome :=
  if r.2 then { sessions := r.1.sessions, actions := r.1.actions }
  else
    { sessions := if r.1.terminateSession then r.1.sessions.set ctx.hash none else r.1.sessions
      reply := if r.1.sendReply then some (withCrc r.1.reply) else none
      actions := r.1.actions }

def ctxOf (cfg : Config) (oracle : Oracle) (pkt : Arrival) (h : Header) : Ctx :=
  ⟨cfg, oracle, pkt.srcAddr, pkt.dstAddr, h.sourcePort, h.destinationPort⟩

/-- `sctp::operator()` for one packet. Several threads run it, and they share `sessions_lock`; here a
packet is handled to its end before the next one. -/
def receive (cfg : Config) (oracle : Oracle) (sessions : Sessions) (pkt : Arrival) : Outcome :=
  if pkt.data.length < 12 then { sessions := sessions }
  else
    match readHeader (.ofBytes pkt.data) with
    | .error _ => { sessions := sessions }
    | .ok (h, b) =>
      let ctx := ctxOf cfg oracle pkt h
      finish ctx
        (chunkLoop ctx pkt.data.length b { sessions := sessions, reply := replyHeader ctx })

/-- Packet after packet: the associations after them and all actions. -/
def receiveAll (cfg : Config) : Sessions → List (Oracle × Arrival) → Sessions × List Action
  | sessions, [] => (sessions, [])
  | sessions, (oracle, pkt) :: inputs =>
    let outcome := receive cfg oracle sessions pkt
    let r := receiveAll cfg outcome.sessions inputs
    (r.1, outcome.actions ++ r.2)

/-! ## The branch DATA -/

theorem Work.add_add (w : Work) (a b : List Byte) : (w.add a).add b = w.add (a ++ b) := by
  simp [Work.add]

/-- The chunk that is expected is delivered. -/
theorem onData_expected {ctx : Ctx} {chunk : BufferIn} {w : Work} {s : Session} {data : DataChunk}
    (hlistener : ctx.hasNewData = true) (hs : w.sessions ctx.hash = some s)
    (hread : readData chunk = .ok data) (htsn : data.tsn = s.theirTsn) :
    ∃ out, onData ctx chunk w =
      (((({ w with
        sessions := w.sessions.set ctx.hash (some { s with theirTsn := s.theirTsn + 1 }) }).act
          (.newData { s with theirTsn := s.theirTsn + 1 } data.rest.left)).add out).setTag
            s.theirVerificationTag, .go) := by
  rw [onData, if_pos hlistener, hs]
  simp only [chunkData_expected hread htsn, Work.add_add]
  cases ctx.oracle.newData { s with theirTsn := s.theirTsn + 1 } data.rest.left with
  | true => exact ⟨_, rfl⟩
  | false => exact ⟨_, rfl⟩

/-- Any other chunk is only answered. -/
theorem onData_other {ctx : Ctx} {chunk : BufferIn} {w : Work} {s : Session} {data : DataChunk}
    (hlistener : ctx.hasNewData = true) (hs : w.sessions ctx.hash = some s)
    (hread : readData chunk = .ok data) (htsn : data.tsn ≠ s.theirTsn) :
    ∃ out, onData ctx chunk w = ((w.add out).setTag s.theirVerificationTag, .go) := by
  have hset : w.sessions.set ctx.hash (some s) = w.sessions := by
    rw [Sessions.set, ← hs, Function.update_eq_self]
  rw [onData, if_pos hlistener, hs]
  simp only [chunkData_other hread htsn, hset]
  exact ⟨_, rfl⟩

/-! ## Reading chunks -/

theorem readHeader_append (b : BufferIn) {h : Header} {rest : List Byte}
    (hleft : b.left = be16Bytes h.sourcePort ++ (be16Bytes h.destinationPort ++
      (be32Bytes h.verificationTag ++ (be32Bytes h.checksum ++ rest)))) :
    ∃ b', readHeader b = .ok (h, b') ∧ b'.left = rest := by
  obtain ⟨b₁, h₁, hleft₁⟩ := BufferIn.getNetShort_append hleft
  obtain ⟨b₂, h₂, hleft₂⟩ := BufferIn.getNetShort_append hleft₁
  obtain ⟨b₃, h₃, hleft₃⟩ := BufferIn.getNetLong_append hleft₂
  obtain ⟨b₄, h₄, hleft₄⟩ := BufferIn.getNetLong_append hleft₃
  refine ⟨b₄, ?_, hleft₄⟩
  simp [readHeader, h₁, h₂, h₃, h₄]

/-- The bytes of a chunk without its padding. -/
def chunkBytes (type flags : Byte) (body : List Byte) : List Byte :=
  type :: flags :: be16Bytes (BitVec.ofNat 16 (body.length + 4)) ++ body

theorem readChunk_append {b : BufferIn} {type flags : Byte} {body rest : List Byte}
    (hlen : body.length + 4 < 65536) (hleft : b.left = chunkBytes type flags body ++ rest) :
    ∃ next, readChunk b = .ok (type, body.length + 4, some (.ofBytes body), next) ∧
      next.left = rest := by
  have hleft' : b.left = type :: flags :: (be16Bytes (BitVec.ofNat 16 (body.length + 4)) ++
      (body ++ rest)) := by
    rw [hleft, chunkBytes]
    simp
  have hsize : (BitVec.ofNat 16 (body.length + 4)).toNat = body.length + 4 :=
    toNat_ofNat_of_lt (by omega)
  obtain ⟨b₁, h₁, hleft₁⟩ := BufferIn.getNetByte_append hleft'
  obtain ⟨b₂, h₂, hleft₂⟩ := BufferIn.getNetByte_append hleft₁
  obtain ⟨b₃, h₃, hleft₃⟩ := BufferIn.getNetShort_append hleft₂
  obtain ⟨b₄, h₄, hleft₄⟩ := BufferIn.getSegment_append hleft₃
  refine ⟨b₄, ?_, hleft₄⟩
  simp [readChunk, h₁, h₂, h₃, h₄, hsize]

/-- What a chunk is that was read: its header and, unless the length is too small, its payload. -/
theorem readChunk_ok {b next : BufferIn} {type : Byte} {len : ℕ} {chunk : Option BufferIn}
    (h : readChunk b = .ok (type, len, chunk, next)) :
    next.left.length + 4 ≤ b.left.length ∧
      ∀ c, chunk = some c → c = .ofBytes c.left ∧ 4 ≤ len ∧ c.left.length = len - 4 := by
  obtain ⟨⟨type', b₁⟩, h₁, h⟩ := exists_of_bind_eq_ok h
  obtain ⟨⟨flags, b₂⟩, h₂, h⟩ := exists_of_bind_eq_ok h
  obtain ⟨⟨len', b₃⟩, h₃, h⟩ := exists_of_bind_eq_ok h
  have hleft : b.left.length = b₃.left.length + 4 := by
    rw [BufferIn.getNetByte_ok h₁, BufferIn.getNetByte_ok h₂, BufferIn.getNetShort_ok h₃]
    simp only [List.length_cons, List.length_append, be16Bytes_length]
    omega
  simp only at h
  split at h
  · simp only [pure_eq_ok, Except.ok.injEq, Prod.mk.injEq] at h
    obtain ⟨rfl, rfl, rfl, rfl⟩ := h
    exact ⟨by omega, by simp⟩
  · rename_i hlen
    obtain ⟨⟨segment, b₄⟩, h₄, h⟩ := exists_of_bind_eq_ok h
    obtain ⟨hseg, hseglen, hsegleft⟩ := BufferIn.getSegment_ok h₄
    simp only [pure_eq_ok, Except.ok.injEq, Prod.mk.injEq] at h
    obtain ⟨rfl, rfl, rfl, rfl⟩ := h
    have hsum := congrArg List.length hsegleft
    rw [List.length_append] at hsum
    refine ⟨by omega, ?_⟩
    intro c hc
    obtain rfl := Option.some.inj hc
    exact ⟨hseg, by omega, hseglen⟩

theorem skipPadding_ok {len : ℕ} {b b' : BufferIn} (h : skipPadding len b = .ok b') :
    b'.left.length ≤ b.left.length := by
  rw [skipPadding] at h
  split at h
  · obtain ⟨bs, -, hleft⟩ := BufferIn.seek_ok h
    rw [hleft, List.length_append]
    omega
  · obtain rfl := Except.ok.inj h
    exact Nat.le_refl _

/-- Any number of turns that is not below the number of bytes gives the same. -/
theorem chunkLoop_turns (ctx : Ctx) {turns turns' : ℕ} {b : BufferIn} (h : b.left.length ≤ turns)
    (h' : b.left.length ≤ turns') (w : Work) :
    chunkLoop ctx turns b w = chunkLoop ctx turns' b w := by
  have hnone : ∀ (n : ℕ) (b : BufferIn) (w : Work), b.left.length ≤ 0 →
      chunkLoop ctx n b w = (w, false) := by
    intro n b w hzero
    have hend : b.endReached = true :=
      b.endReached_iff.mpr (List.length_eq_zero_iff.mp (Nat.le_zero.mp hzero))
    cases n with
    | zero => rfl
    | succ n => rw [chunkLoop, if_pos hend]
  induction turns generalizing turns' b w with
  | zero => rw [hnone 0 b w h, hnone turns' b w h]
  | succ turns ih =>
    cases turns' with
    | zero => rw [hnone (turns + 1) b w h', hnone 0 b w h']
    | succ turns' =>
      rw [chunkLoop, chunkLoop]
      split
      · rfl
      · split
        · rfl
        · rfl
        · rename_i type len chunk next hread
          obtain ⟨hshorter, -⟩ := readChunk_ok hread
          split
          · rfl
          · rfl
          · split
            · rfl
            · rename_i next' hskip
              have hle := skipPadding_ok hskip
              exact ih (by omega) (by omega) _

/-- What every chunk keeps, and the end at a chunk that is too short, the loop keeps. -/
theorem chunkLoop_keeps {ctx : Ctx} {I : Work → Prop}
    (hterminate : ∀ w, I w → I w.terminate)
    (hchunk : ∀ position type chunk w, I w → I (onChunk ctx position type chunk w).1)
    (turns : ℕ) (b : BufferIn) {w : Work} (h : I w) : I (chunkLoop ctx turns b w).1 := by
  induction turns generalizing b w with
  | zero => exact h
  | succ turns ih =>
    rw [chunkLoop]
    split
    · exact h
    · split
      · exact h
      · exact hterminate w h
      · rename_i type len chunk next hread
        have hkept := hchunk b.o type chunk w h
        generalize onChunk ctx b.o type chunk w = r at hkept
        obtain ⟨w₁, after⟩ := r
        cases after with
        | thrown => exact hkept
        | stop => exact hkept
        | go =>
          simp only
          split
          · exact hkept
          · exact ih _ hkept

/-! ## Packets with one chunk -/

def Header.bytes (h : Header) : List Byte :=
  be16Bytes h.sourcePort ++ be16Bytes h.destinationPort ++ be32Bytes h.verificationTag ++
    be32Bytes h.checksum

@[simp] theorem Header.bytes_length (h : Header) : h.bytes.length = 12 := rfl

theorem replyHeader_eq (ctx : Ctx) :
    replyHeader ctx = Header.bytes ⟨ctx.destinationPort, ctx.sourcePort, -1, 0⟩ := rfl

/-- The tag and the CRC change only their own fields. -/
theorem addNetLongAt_header_tag (h : Header) (rest : List Byte) (tag : BitVec 32) :
    BufferOut.addNetLongAt (h.bytes ++ rest) tag 4 =
      Header.bytes { h with verificationTag := tag } ++ rest := rfl

theorem withCrc_header (h : Header) (rest : List Byte) :
    withCrc (h.bytes ++ rest) =
      Header.bytes { h with checksum := generateCrc32c (h.bytes ++ rest) } ++ rest := rfl

theorem readHeader_bytes (h : Header) (rest : List Byte) :
    ∃ b, readHeader (.ofBytes (h.bytes ++ rest)) = .ok (h, b) ∧ b.left = rest := by
  apply readHeader_append
  rw [BufferIn.ofBytes_left, Header.bytes]
  simp only [List.append_assoc]

/-- `padding` fills a chunk with this body up. -/
def IsPadding (body padding : List Byte) : Prop := padding.length = (4 - body.length % 4) % 4

/-- A packet whose only chunk has this type and this body. -/
def IsSingle (pkt : Arrival) (h : Header) (type : Byte) (body : List Byte) : Prop :=
  body.length + 4 < 65536 ∧ ∃ (flags : Byte) (padding : List Byte), IsPadding body padding ∧
    pkt.data = h.bytes ++ (chunkBytes type flags body ++ padding)

/-- A packet with a single chunk does what the chunk does. -/
theorem receive_single (cfg : Config) (oracle : Oracle) (sessions : Sessions) {pkt : Arrival}
    {h : Header} {type : Byte} {body : List Byte} (hpkt : IsSingle pkt h type body) :
    ∃ position, receive cfg oracle sessions pkt =
      finish (ctxOf cfg oracle pkt h)
        ((onChunk (ctxOf cfg oracle pkt h) position type (.ofBytes body)
            { sessions := sessions, reply := replyHeader (ctxOf cfg oracle pkt h) }).1,
          decide ((onChunk (ctxOf cfg oracle pkt h) position type (.ofBytes body)
            { sessions := sessions, reply := replyHeader (ctxOf cfg oracle pkt h) }).2 =
              .thrown)) := by
  obtain ⟨hlen, flags, padding, hpadding, hdata⟩ := hpkt
  obtain ⟨b, hheader, hb⟩ := readHeader_bytes h (chunkBytes type flags body ++ padding)
  rw [← hdata] at hheader
  obtain ⟨next, hread, hnext⟩ := readChunk_append hlen hb
  have hlength : 12 ≤ pkt.data.length := by
    rw [hdata, List.length_append, Header.bytes_length]
    omega
  have hnot : ¬ b.endReached = true := by
    rw [b.endReached_iff, hb, chunkBytes]
    simp
  -- the padding is all that is left
  obtain ⟨last, hskip, hlast⟩ : ∃ last, skipPadding (body.length + 4) next = .ok last ∧
      last.left = [] := by
    rw [IsPadding] at hpadding
    rw [skipPadding]
    split
    · rename_i hmod
      have hsize : 4 - (body.length + 4) % 4 = padding.length := by omega
      rw [hsize]
      exact BufferIn.seek_append (by rw [hnext, List.append_nil])
    · rename_i hmod
      refine ⟨next, rfl, ?_⟩
      rw [hnext]
      apply List.length_eq_zero_iff.mp
      omega
  obtain ⟨turns, hturns⟩ : ∃ turns, pkt.data.length = turns + 1 := ⟨pkt.data.length - 1, by omega⟩
  have hend : ∀ w, chunkLoop (ctxOf cfg oracle pkt h) turns last w = (w, false) := by
    intro w
    cases turns with
    | zero => rfl
    | succ n => rw [chunkLoop, if_pos (last.endReached_iff.mpr hlast)]
  refine ⟨b.o, ?_⟩
  rw [receive, if_neg (by omega), hheader]
  simp only [hturns, chunkLoop, if_neg hnot, hread]
  generalize onChunk (ctxOf cfg oracle pkt h) b.o type (.ofBytes body)
    { sessions := sessions, reply := replyHeader (ctxOf cfg oracle pkt h) } = r
  obtain ⟨w, after⟩ := r
  cases after with
  | go =>
    simp only [hskip, hend]
    rfl
  | stop => rfl
  | thrown => rfl

/-! ## Sending -/

/-- One packet of `send_data`, with `segment` as its data. -/
def dataPacket (s : Session) (segment : List Byte) : List Byte :=
  withCrc (BufferOut.addPadding (be16Bytes s.myPort ++ be16Bytes s.theirPort ++
    be32Bytes s.theirVerificationTag ++ be32Bytes 0 ++ [0, 3] ++
    be16Bytes (BitVec.ofNat 16 (segment.length + 16)) ++ be32Bytes s.myTsn ++ be16Bytes 0 ++
    be16Bytes s.myStreamSequenceNr ++ be32Bytes 0 ++ segment) 4)

/-- The counters after a packet. -/
def Session.sent (s : Session) : Session :=
  { s with myTsn := s.myTsn + 1, myStreamSequenceNr := s.myStreamSequenceNr + 1 }

/-- The loop of `send_data`, for a maximum packet size of more than 50 bytes: the packets that are
given to `transmit_packet`, of which the last may fail. Each takes a byte at least. -/
def sendLoop (maxPacketSize : ℕ) (transmit : List Byte → Bool) :
    ℕ → Session → List Byte → List (List Byte) × Session × Bool
  | 0, s, _ => ([], s, true)
  | turns + 1, s, payload =>
    if payload = [] then ([], s, true)
    else
      let nBytesToAdd := min payload.length (maxPacketSize - 50)
      let out := dataPacket s (payload.take nBytesToAdd)
      if transmit out then
        let r := sendLoop maxPacketSize transmit turns s.sent (payload.drop nBytesToAdd)
        (out :: r.1, r.2)
      else ([out], s.sent, false)

/-- `send_data` -/
def sendData (maxPacketSize : ℕ) (transmit : List Byte → Bool) (s : Session) (payload : List Byte) :
    List (List Byte) × Session × Bool :=
  sendLoop maxPacketSize transmit payload.length s payload

end MyIp.Sctp
