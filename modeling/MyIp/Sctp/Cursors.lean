import MyIp.Net.Cursor
import MyIp.Sctp.Partial

/-! # Receiving with cursors

The code of `operator()` from the header on, with the buffers as they are written. A range of bytes,
a position or a turn that is not as it should be would be seen in the notes, a loop that steps over
the end of its buffer would hang, and a callback that is not set would throw
`std::bad_function_call`.

It does what `receive` does (`readPacket_follows`), whose buffers cannot be anything but sound. -/

namespace MyIp.Sctp
set_option autoImplicit false

open Bytes Traced

/-! ## What the branches do after they have read

The ends of `onData`, `onInit` and `onCookieEcho`. -/

def afterData (ctx : Ctx) (s : Session) (handled : Handled) (w : Work) : Work × Next :=
  let w := { w with sessions := w.sessions.set ctx.hash (some handled.session) }
  let w := match handled.delivered with
    | some data => w.act (.newData handled.session data)
    | none => w
  match handled.result with
  | .abort => ((w.terminate).add chunkGenAbort, .stop)
  | .close => (((w.add handled.out).add chunkGenShutdown).setTag s.theirVerificationTag, .go)
  | .continue => ((w.add handled.out).setTag s.theirVerificationTag, .go)

def afterInit (ctx : Ctx) (position : ℕ) (init : Init) (w : Work) : Work × Next :=
  let draw := ctx.oracle.draw position
  let cookie := initCookie ctx.cfg ctx.theirAddr ctx.sourcePort ctx.destinationPort init draw
  let w := w.setTag init.initiateTag
  if ctx.listener.isSome then
    ((w.add (initAck draw cookie)).act (.announced cookie draw.verificationTag), .go)
  else ((w.add chunkGenAbort).terminate, .go)

/-- `chunk_heartbeat_request`, for the bytes of its buffer. -/
def heartbeatOf (left : List Byte) : List Byte :=
  let out := [5, 0] ++ be16Bytes 4 ++ left
  BufferOut.addPadding (BufferOut.addNetShortAt out (BitVec.ofNat 16 out.length) 2) 4

/-- What a COOKIE ECHO says: whether the cookie is one of the program, and its first fields. -/
abbrev Echo := Bool × BitVec 32 × BitVec 32 × BitVec 32

def afterCookieEcho (ctx : Ctx) (echo : Echo) (w : Work) : Work × Next :=
  let w :=
    if echo.1 && ctx.hasNewSession then
      let w := match w.sessions ctx.hash with
        | some _ => w
        | none =>
          let s : Session :=
            { theirAddr := ctx.theirAddr, theirPort := ctx.sourcePort, myAddr := ctx.myAddr
              myPort := ctx.destinationPort, theirTsn := echo.2.2.1, myTsn := echo.2.2.2
              theirVerificationTag := echo.2.1 }
          { w with sessions := w.sessions.set ctx.hash (some s) }.act (.newSession s)
      w.add chunkGenCookieAck
    else (w.add chunkGenAbort).terminate
  (w.setTag echo.2.1, .go)

section Branches
variable {ctx : Ctx} {chunk : BufferIn} (w : Work)

theorem onData_of_error {s : Session} (hlistener : ctx.hasNewData = true)
    (hs : w.sessions ctx.hash = some s) {what : String}
    (h : chunkData s chunk ctx.oracle.newData = .error what) :
    onData ctx chunk w = (w, .thrown) := by
  rw [onData, if_pos hlistener, hs]
  simp only [h]

theorem onData_of_ok {s : Session} (hlistener : ctx.hasNewData = true)
    (hs : w.sessions ctx.hash = some s) {handled : Handled}
    (h : chunkData s chunk ctx.oracle.newData = .ok handled) :
    onData ctx chunk w = afterData ctx s handled w := by
  rw [onData, if_pos hlistener, hs]
  simp only [h]
  rfl

theorem onInit_of_error (position : ℕ) {what : String} (h : readInit chunk = .error what) :
    onInit ctx position chunk w = (w, .thrown) := by
  rw [onInit, h]

theorem onInit_of_ok (position : ℕ) {init : Init} (h : readInit chunk = .ok init) :
    onInit ctx position chunk w = afterInit ctx position init w := by
  rw [onInit, h]
  rfl

theorem onCookieEcho_of_error {what : String}
    (h : chunkCookieEcho ctx.cfg ctx.theirAddr ctx.sourcePort ctx.destinationPort chunk =
      .error what) : onCookieEcho ctx chunk w = (w, .thrown) := by
  rw [onCookieEcho, h]

theorem onCookieEcho_of_ok {echo : Echo}
    (h : chunkCookieEcho ctx.cfg ctx.theirAddr ctx.sourcePort ctx.destinationPort chunk =
      .ok echo) : onCookieEcho ctx chunk w = afterCookieEcho ctx echo w := by
  obtain ⟨cookieOk, theirVerificationTag, theirInitialTsn, myInitialTsn⟩ := echo
  rw [onCookieEcho, h]
  rfl

end Branches

theorem afterData_ne (ctx : Ctx) (s : Session) (handled : Handled) (w : Work) :
    (afterData ctx s handled w).2 ≠ .thrown := by
  rw [afterData]
  cases handled.result with
  | abort => exact Next.noConfusion
  | close => exact Next.noConfusion
  | «continue» => exact Next.noConfusion

theorem afterInit_ne (ctx : Ctx) (position : ℕ) (init : Init) (w : Work) :
    (afterInit ctx position init w).2 ≠ .thrown := by
  rw [afterInit]
  split
  · exact Next.noConfusion
  · exact Next.noConfusion

/-! ## The code with cursors -/

namespace Cursors

/-- A call of a callback. -/
def call (isSet : Bool) : Scan Unit :=
  if isSet then pure () else Traced.throw .badFunctionCall

def skipPadding (len : ℕ) (b : Cursor) : Scan Cursor :=
  if len % 4 ≠ 0 then b.seek ((4 - len % 4 : ℕ) : ℤ) else pure b

section Chunks
variable (data : List Byte)

/-- `get_parameter` -/
def getParameter (chunkPayload : Cursor) : Scan ((BitVec 16 × Cursor) × Cursor) := do
  let (type, chunkPayload) ← chunkPayload.getNetShort data
  let (len, chunkPayload) ← chunkPayload.getNetShort data
  if len.toNat < 4 then Traced.throw (.outOfRange "sctp::get_parameter")
  else
    let (value, chunkPayload) ← chunkPayload.getSegment ((len.toNat : ℤ) - 4)
    let chunkPayload ← skipPadding len.toNat chunkPayload
    -- the pair has a copy
    let value ← value.copy
    return ((type, value), chunkPayload)

/-- A turn of the loop of `chunk_init`. -/
def parameterTurn (chunkPayload : Cursor) : Scan (Cursor ⊕ Unit) :=
  if chunkPayload.endReached then return .inr ()
  else do
    let (_, next) ← getParameter data chunkPayload
    note (.turn chunkPayload.o next.o)
    return .inl next

/-- What `chunk_init` reads. -/
def readInit (chunkPayload : Cursor) : Scan Init := do
  let (initiateTag, chunkPayload) ← chunkPayload.getNetLong data
  let (_aRwnd, chunkPayload) ← chunkPayload.getNetLong data
  let (_nOutboundStreams, chunkPayload) ← chunkPayload.getNetShort data
  let (_nInboundStreams, chunkPayload) ← chunkPayload.getNetShort data
  let (theirInitialTsn, chunkPayload) ← chunkPayload.getNetLong data
  loop (parameterTurn data) chunkPayload.size.toNat chunkPayload
  return ⟨initiateTag, theirInitialTsn⟩

/-- `chunk_cookie_echo` -/
def chunkCookieEcho (ctx : Ctx) (chunkPayload : Cursor) : Scan Echo := do
  let (cookieData, _) ← chunkPayload.getSegment chunkPayload.getNBytesLeft
  let temp ← cookieData.copy
  let (theirVerificationTag, temp) ← temp.getNetLong data
  let (theirInitialTsn, temp) ← temp.getNetLong data
  let (myInitialTsn, _) ← temp.getNetLong data
  let stateCookie := generateStateCookie ctx.cfg ctx.theirAddr ctx.sourcePort ctx.destinationPort
    theirVerificationTag theirInitialTsn myInitialTsn
  let peeked ← cookieData.peek data
  return (decide (stateCookie = peeked), theirVerificationTag, theirInitialTsn, myInitialTsn)

/-- The TSN of a DATA chunk and what is left of it. -/
def readData (chunk : Cursor) : Scan (BitVec 32 × Cursor) := do
  let (tsn, chunk) ← chunk.getNetLong data
  let (_streamId, chunk) ← chunk.getNetShort data
  let (_streamSeqNr, chunk) ← chunk.getNetShort data
  let (_protocolIdentifier, chunk) ← chunk.getNetLong data
  return (tsn, chunk)

/-- `chunk_data`; `newDataSet` says that the callback is set. -/
def chunkData (s : Session) (chunk : Cursor) (newDataSet : Bool)
    (newData : Session → List Byte → Bool) : Scan Handled := do
  let (tsn, chunk) ← readData data chunk
  let tsnBefore := s.theirTsn
  if tsn = s.theirTsn then
    let session := { s with theirTsn := s.theirTsn + 1 }
    let (segment, _) ← chunk.getSegment chunk.getNBytesLeft
    let temp ← segment.copy
    -- the callback gets a copy
    let temp ← temp.copy
    call newDataSet
    let content := bytesAt data temp.p temp.size
    let rc := newData session content
    return ⟨if rc then .continue else .close, sack tsnBefore, session, some content⟩
  else return ⟨.continue, sack tsnBefore, s, none⟩

variable (ctx : Ctx)

/-- The branch DATA. -/
def onData (chunk : Cursor) (w : Work) : Scan (Work × Next) :=
  if ctx.hasNewData then
    match w.sessions ctx.hash with
    | none => return (w, .go)
    | some s => do
      let handled ← chunkData data s chunk ctx.hasNewData ctx.oracle.newData
      return afterData ctx s handled w
  else return ((w.add chunkGenAbort).terminate, .go)

/-- The branch INIT. -/
def onInit (position : ℕ) (chunk : Cursor) (w : Work) : Scan (Work × Next) := do
  let init ← readInit data chunk
  return afterInit ctx position init w

/-- The branch HEARTBEAT. -/
def onHeartbeat (chunk : Cursor) (w : Work) : Scan (Work × Next) := do
  let (left, _) ← chunk.addBufferIn data chunk.getNBytesLeft.toNat []
  return (w.add (heartbeatOf left), .go)

/-- The branch COOKIE ECHO; the callback is called for a new association. -/
def onCookieEcho (chunk : Cursor) (w : Work) : Scan (Work × Next) := do
  let echo ← chunkCookieEcho data ctx chunk
  if (echo.1 && ctx.hasNewSession) && (w.sessions ctx.hash).isNone then call ctx.hasNewSession
  return afterCookieEcho ctx echo w

/-- One chunk of the loop in `operator()`. -/
def onChunk (position : ℕ) (type : Byte) (chunk : Cursor) (w : Work) : Scan (Work × Next) :=
  if type = 0 then onData data ctx chunk w
  else if type = 1 then onInit data ctx position chunk w
  else if type = 4 then onHeartbeat data chunk w
  else if type = 6 then return ({ w with terminateSession := true, sendReply := false }, .stop)
  else if type = 10 then onCookieEcho data ctx chunk w
  else return ({ w with sendReply := false }, .go)

/-- The header of a chunk and, if its length is one, its payload. -/
def readChunk (b : Cursor) : Scan (Byte × ℕ × Option Cursor × Cursor) := do
  let (type, b) ← b.getNetByte data
  let (_flags, b) ← b.getNetByte data
  let (len, b) ← b.getNetShort data
  if len.toNat < 4 then return (type, len.toNat, none, b)
  else
    let (chunk, b) ← b.getSegment ((len.toNat : ℤ) - 4)
    return (type, len.toNat, some chunk, b)

/-- A turn of the loop over the chunks. -/
def chunkTurn (s : Cursor × Work) : Scan ((Cursor × Work) ⊕ Work) :=
  if s.1.endReached then return .inr s.2
  else do
    let (type, len, chunk, b) ← readChunk data s.1
    match chunk with
    | none =>
      note (.turn s.1.o b.o)
      return .inr s.2.terminate
    | some chunk =>
      let (w, next) ← onChunk data ctx s.1.o.toNat type chunk s.2
      if next = .stop then
        note (.turn s.1.o b.o)
        return .inr w
      else
        let b ← skipPadding len b
        note (.turn s.1.o b.o)
        return .inl (b, w)

end Chunks

def readHeader (data : List Byte) (b : Cursor) : Scan (Header × Cursor) := do
  let (sourcePort, b) ← b.getNetShort data
  let (destinationPort, b) ← b.getNetShort data
  let (verificationTag, b) ← b.getNetLong data
  let (checksum, b) ← b.getNetLong data
  return (⟨sourcePort, destinationPort, verificationTag, checksum⟩, b)

/-- The `try` block of `operator()` up to the end of its loop. -/
def readPacket (cfg : Config) (oracle : Oracle) (sessions : Sessions) (pkt : Arrival) :
    Scan Work := do
  let b ← Cursor.make 0 pkt.data.length
  let (h, b) ← readHeader pkt.data b
  let ctx := ctxOf cfg oracle pkt h
  loop (chunkTurn pkt.data ctx) pkt.data.length
    (b, { sessions := sessions, reply := replyHeader ctx })

/-! ## Each function and its counterpart -/

section Refinement
variable {data : List Byte} {c : Cursor} {b : BufferIn}

theorem skipPadding_follows (len : ℕ) (h : Views data c b) :
    Follows data (Ahead data c 0) (skipPadding len c) (Sctp.skipPadding len b) := by
  rw [skipPadding, Sctp.skipPadding]
  by_cases hpadding : len % 4 ≠ 0
  · rw [if_pos hpadding, if_pos hpadding]
    apply (seek_follows (4 - len % 4) h).imp
    intro c' b' hahead
    exact hahead.mono (by omega)
  · rw [if_neg hpadding, if_neg hpadding]
    exact Refines.pure ⟨h, rfl, by omega⟩

theorem getParameter_follows (h : Views data c b) :
    Follows data (fun r r' => Ahead data c 4 r.2 r'.2) (getParameter data c)
      (Sctp.getParameter b) := by
  rw [getParameter, Sctp.getParameter]
  apply (getNetShort_follows h).bind
  rintro ⟨type, c₁⟩ ⟨_, b₁⟩ ⟨rfl, h₁⟩
  apply (getNetShort_follows h₁.views).bind
  rintro ⟨len, c₂⟩ ⟨_, b₂⟩ ⟨rfl, h₂⟩
  simp only
  by_cases hlen : len.toNat < 4
  · rw [if_pos hlen, if_pos hlen]
    exact Refines.throw _ ⟨_, rfl⟩
  · have hvalue : (len.toNat : ℤ) - 4 = (len.toNat - 4 : ℕ) := by omega
    rw [if_neg hlen, if_neg hlen, hvalue]
    apply (getSegment_follows (len.toNat - 4) h₂.views).bind
    rintro ⟨value, c₃⟩ ⟨value', b₃⟩ ⟨hsegment, h₃⟩
    have hskip : (if len.toNat % 4 ≠ 0 then do
          let b₄ ← b₃.seek (4 - len.toNat % 4)
          return ((type, value'), b₄)
        else return ((type, value'), b₃)) =
        (Sctp.skipPadding len.toNat b₃ >>= fun b₄ => .ok ((type, value'), b₄)) := by
      rw [Sctp.skipPadding]
      split
      · rfl
      · rfl
    simp only
    rw [hskip]
    apply (skipPadding_follows len.toNat h₃.views).bind
    intro c₄ b₄ h₄
    apply (copy_follows (δ := String) hsegment).bind_left
    intro value _
    apply Refines.pure
    exact (((h₁.trans h₂).trans h₃).trans h₄).mono (by omega)

theorem parameters_follows {n : ℕ} (h : Views data c b) (hn : b.left.length < n) :
    Follows data (fun _ _ => True) (loop (parameterTurn data) n c) (parameters n b) := by
  apply Refines.loop (I := Views data) (fun b => b.left.length) _ h hn
  intro n c b h ih
  rw [parameterTurn, parameters, h.endReached]
  by_cases hend : b.endReached = true
  · rw [if_pos hend, if_pos hend]
    exact Refines.pure trivial
  · rw [if_neg hend, if_neg hend]
    simp only [bind_assoc, pure_bind]
    apply (getParameter_follows h).bind
    rintro ⟨parameter, c'⟩ ⟨parameter', b'⟩ hahead
    exact Refines.note hahead.far (ih c' b' hahead.views (hahead.left_lt h (by omega)))

theorem readInit_follows (h : Views data c b) :
    Follows data Eq (readInit data c) (Sctp.readInit b) := by
  rw [readInit, Sctp.readInit]
  apply (getNetLong_follows h).bind
  rintro ⟨initiateTag, c₁⟩ ⟨_, b₁⟩ ⟨rfl, h₁⟩
  apply (getNetLong_follows h₁.views).bind
  rintro ⟨aRwnd, c₂⟩ ⟨_, b₂⟩ ⟨rfl, h₂⟩
  apply (getNetShort_follows h₂.views).bind
  rintro ⟨nOutboundStreams, c₃⟩ ⟨_, b₃⟩ ⟨rfl, h₃⟩
  apply (getNetShort_follows h₃.views).bind
  rintro ⟨nInboundStreams, c₄⟩ ⟨_, b₄⟩ ⟨rfl, h₄⟩
  apply (getNetLong_follows h₄.views).bind
  rintro ⟨theirInitialTsn, c₅⟩ ⟨_, b₅⟩ ⟨rfl, h₅⟩
  have hturns : c₅.size.toNat = b₅.getSize := by
    have hsize : c₅.size = b₅.p.length := h₅.views.size
    rw [hsize]
    rfl
  have hleft : b₅.left.length < b₅.getSize := by
    have hfar : c.o + (4 + 4 + 2 + 2 + 4) ≤ c₅.o :=
      ((((h₁.trans h₂).trans h₃).trans h₄).trans h₅).far
    have ho : c₅.o = b₅.o := h₅.views.o
    have hstart := h.inside.o_nonneg
    have hle := b₅.o_le
    rw [BufferIn.left_length, BufferIn.getSize]
    omega
  simp only
  rw [hturns]
  apply (parameters_follows h₅.views hleft).bind
  rintro _ _ _
  exact Refines.pure rfl

theorem chunkCookieEcho_follows (ctx : Ctx) (h : Views data c b) :
    Follows data Eq (chunkCookieEcho data ctx c)
      (Sctp.chunkCookieEcho ctx.cfg ctx.theirAddr ctx.sourcePort ctx.destinationPort b) := by
  rw [chunkCookieEcho, Sctp.chunkCookieEcho, h.getNBytesLeft]
  apply (getSegment_follows b.getNBytesLeft h).bind
  rintro ⟨cookieData, c₁⟩ ⟨cookieData', b₁⟩ ⟨hcookie, -⟩
  apply (copy_follows (δ := String) hcookie).bind_left
  intro temp htemp
  apply (getNetLong_follows htemp).bind
  rintro ⟨theirVerificationTag, c₂⟩ ⟨_, b₂⟩ ⟨rfl, h₂⟩
  apply (getNetLong_follows h₂.views).bind
  rintro ⟨theirInitialTsn, c₃⟩ ⟨_, b₃⟩ ⟨rfl, h₃⟩
  apply (getNetLong_follows h₃.views).bind
  rintro ⟨myInitialTsn, c₄⟩ ⟨_, b₄⟩ ⟨rfl, h₄⟩
  apply (peek_follows (δ := String) hcookie).bind_left
  rintro _ rfl
  exact Refines.pure rfl

theorem readData_follows (h : Views data c b) :
    Follows data (fun r r' => r.1 = r'.tsn ∧ Views data r.2 r'.rest) (readData data c)
      (Sctp.readData b) := by
  rw [readData, Sctp.readData]
  apply (getNetLong_follows h).bind
  rintro ⟨tsn, c₁⟩ ⟨_, b₁⟩ ⟨rfl, h₁⟩
  apply (getNetShort_follows h₁.views).bind
  rintro ⟨streamId, c₂⟩ ⟨_, b₂⟩ ⟨rfl, h₂⟩
  apply (getNetShort_follows h₂.views).bind
  rintro ⟨streamSeqNr, c₃⟩ ⟨_, b₃⟩ ⟨rfl, h₃⟩
  apply (getNetLong_follows h₃.views).bind
  rintro ⟨protocolIdentifier, c₄⟩ ⟨_, b₄⟩ ⟨rfl, h₄⟩
  exact Refines.pure ⟨rfl, h₄.views⟩

theorem chunkData_follows (s : Session) (newData : Session → List Byte → Bool)
    (h : Views data c b) :
    Follows data Eq (chunkData data s c true newData)
      (Sctp.chunkData s b newData) := by
  rw [chunkData, Sctp.chunkData]
  apply (readData_follows h).bind
  rintro ⟨tsn, c₁⟩ ⟨_, streamId, streamSeqNr, protocolIdentifier, b₁⟩ ⟨rfl, h₁⟩
  simp only
  by_cases htsn : tsn = s.theirTsn
  · rw [if_pos htsn, if_pos htsn]
    obtain ⟨b₂, hread, -⟩ := BufferIn.getSegment_append (List.append_nil b₁.left).symm
    have hsegment := getSegment_follows b₁.left.length h₁
    rw [hread, ← BufferIn.getNBytesLeft_eq, ← h₁.getNBytesLeft] at hsegment
    apply hsegment.bind_left
    rintro ⟨segment, c₂⟩ ⟨hviews, -⟩
    apply (copy_follows (δ := String) hviews).bind_left
    intro temp htemp
    apply (copy_follows (δ := String) htemp).bind_left
    intro temp' htemp'
    have hcontent : bytesAt data temp'.p temp'.size = b₁.left := htemp'.content
    rw [call, if_pos rfl, pure_bind]
    simp only [hcontent]
    exact Refines.pure rfl
  · rw [if_neg htsn, if_neg htsn]
    exact Refines.pure rfl

/-- What a chunk does, with the exception as an error. -/
def settled (r : Work × Next) : Except Unit (Work × Next) :=
  if r.2 = .thrown then .error () else .ok r

theorem settled_eq_ok {r r' : Work × Next} (h : settled r = .ok r') : r = r' ∧ r.2 ≠ .thrown := by
  rw [settled] at h
  split at h
  · cases h
  · rename_i hne
    exact ⟨Except.ok.inj h, hne⟩

theorem settled_eq_error {r : Work × Next} {d : Unit} (h : settled r = .error d) :
    r.2 = .thrown := by
  rw [settled] at h
  split at h
  · rename_i hthrown
    exact hthrown
  · cases h

theorem settled_of_ne {r : Work × Next} (h : r.2 ≠ .thrown) : settled r = .ok r := if_neg h

section OnChunk
variable (ctx : Ctx) (w : Work)

theorem onData_follows (h : Views data c b) :
    Follows data Eq (onData data ctx c w) (settled (Sctp.onData ctx b w)) := by
  rw [onData]
  by_cases hlistener : ctx.hasNewData = true
  · rw [if_pos hlistener]
    cases hs : w.sessions ctx.hash with
    | none =>
      rw [Sctp.onData, if_pos hlistener, hs]
      exact Refines.pure rfl
    | some s =>
      rw [hlistener]
      apply (chunkData_follows s ctx.oracle.newData h).andThen
      · rintro handled _ hok rfl
        rw [onData_of_ok w hlistener hs hok, settled_of_ne (afterData_ne ctx s handled w)]
        exact Refines.pure rfl
      · intro what herror
        rw [onData_of_error w hlistener hs herror]
        exact ⟨(), rfl⟩
  · rw [if_neg hlistener, Sctp.onData, if_neg hlistener]
    exact Refines.pure rfl

theorem onInit_follows (position : ℕ) (h : Views data c b) :
    Follows data Eq (onInit data ctx position c w) (settled (Sctp.onInit ctx position b w)) := by
  apply (readInit_follows h).andThen
  · rintro init _ hok rfl
    rw [onInit_of_ok w position hok, settled_of_ne (afterInit_ne ctx position init w)]
    exact Refines.pure rfl
  · intro what herror
    rw [onInit_of_error w position herror]
    exact ⟨(), rfl⟩

theorem onHeartbeat_follows (h : Views data c b) :
    Follows data Eq (onHeartbeat data c w)
      (settled (w.add (chunkHeartbeatRequest b), .go)) := by
  have hleft : b.left.length = c.getNBytesLeft.toNat := by
    rw [h.getNBytesLeft, BufferIn.getNBytesLeft_eq, Int.toNat_natCast]
  apply (addBufferIn_follows (δ := String) h hleft []).bind_left
  rintro ⟨left, c'⟩ hout
  obtain rfl : left = b.left := hout
  exact Refines.pure rfl

theorem onCookieEcho_follows (h : Views data c b) :
    Follows data Eq (onCookieEcho data ctx c w) (settled (Sctp.onCookieEcho ctx b w)) := by
  apply (chunkCookieEcho_follows ctx h).andThen
  · rintro echo _ hok rfl
    rw [onCookieEcho_of_ok w hok]
    -- the callback is called where it is set
    split
    · rename_i hcall
      have hset : ctx.hasNewSession = true :=
        (Bool.and_eq_true_iff.mp (Bool.and_eq_true_iff.mp hcall).1).2
      rw [call, if_pos hset, pure_bind]
      exact Refines.pure rfl
    · exact Refines.pure rfl
  · intro what herror
    rw [onCookieEcho_of_error w herror]
    exact ⟨(), rfl⟩

theorem onChunk_follows (position : ℕ) (type : Byte) (h : Views data c b) :
    Follows data Eq (onChunk data ctx position type c w)
      (settled (Sctp.onChunk ctx position type b w)) := by
  rw [onChunk, Sctp.onChunk]
  split
  · exact onData_follows ctx w h
  · split
    · exact onInit_follows ctx w position h
    · split
      · exact onHeartbeat_follows w h
      · split
        · exact Refines.pure rfl
        · split
          · exact onCookieEcho_follows ctx w h
          · exact Refines.pure rfl

end OnChunk

theorem readChunk_follows (h : Views data c b) :
    Follows data (fun r r' => r.1 = r'.1 ∧ r.2.1 = r'.2.1 ∧
        Option.Rel (Views data) r.2.2.1 r'.2.2.1 ∧ Ahead data c 4 r.2.2.2 r'.2.2.2)
      (readChunk data c) (Sctp.readChunk b) := by
  rw [readChunk, Sctp.readChunk]
  apply (getNetByte_follows h).bind
  rintro ⟨type, c₁⟩ ⟨_, b₁⟩ ⟨rfl, h₁⟩
  apply (getNetByte_follows h₁.views).bind
  rintro ⟨flags, c₂⟩ ⟨_, b₂⟩ ⟨rfl, h₂⟩
  apply (getNetShort_follows h₂.views).bind
  rintro ⟨len, c₃⟩ ⟨_, b₃⟩ ⟨rfl, h₃⟩
  have hheader := (h₁.trans h₂).trans h₃
  simp only
  by_cases hlen : len.toNat < 4
  · rw [if_pos hlen, if_pos hlen]
    exact Refines.pure ⟨rfl, rfl, .none, hheader.mono (by omega)⟩
  · have hvalue : (len.toNat : ℤ) - 4 = (len.toNat - 4 : ℕ) := by omega
    rw [if_neg hlen, if_neg hlen, hvalue]
    apply (getSegment_follows (len.toNat - 4) h₃.views).bind
    rintro ⟨chunk, c₄⟩ ⟨chunk', b₄⟩ ⟨hchunk, h₄⟩
    exact Refines.pure ⟨rfl, rfl, .some hchunk, (hheader.trans h₄).mono (by omega)⟩

/-- The loop over the chunks, with the exception as an error. -/
def loopSettled (ctx : Ctx) (turns : ℕ) (s : BufferIn × Work) : Except Unit Work :=
  if (chunkLoop ctx turns s.1 s.2).2 then .error () else .ok (chunkLoop ctx turns s.1 s.2).1

theorem chunkLoop_follows (ctx : Ctx) {n : ℕ} (h : Views data c b) (hn : b.left.length < n)
    (w : Work) :
    Follows data Eq (loop (chunkTurn data ctx) n (c, w)) (loopSettled ctx n (b, w)) := by
  apply Refines.loop (I := fun s t => Views data s.1 t.1 ∧ s.2 = t.2)
    (fun t => t.1.left.length) _ ⟨h, rfl⟩ hn
  rintro n ⟨c, w⟩ ⟨b, _⟩ ⟨h, rfl⟩ ih
  simp only at h
  have hposition : c.o.toNat = b.o := by
    rw [h.o]
    rfl
  simp only [chunkTurn, h.endReached, hposition]
  by_cases hend : b.endReached = true
  · rw [if_pos hend, loopSettled, chunkLoop, if_pos hend]
    exact Refines.pure rfl
  · rw [if_neg hend, bind_assoc, loopSettled, chunkLoop, if_neg hend]
    apply (readChunk_follows h).andThen
    · rintro ⟨type, len, chunk, c'⟩ ⟨_, _, chunk', b'⟩ hread ⟨rfl, rfl, hchunk, hahead⟩
      simp only at hchunk hahead
      simp only [hread]
      cases hchunk with
      | none =>
        simp only [bind_assoc]
        exact Refines.note hahead.far (Refines.pure rfl)
      | some hviews =>
        simp only [bind_assoc]
        apply (onChunk_follows ctx w b.o type hviews).andThen
        · rintro ⟨w', next⟩ _ hsettled rfl
          obtain ⟨honChunk, hne⟩ := settled_eq_ok hsettled
          simp only [honChunk]
          cases next with
          | thrown =>
            rw [honChunk] at hne
            exact absurd rfl hne
          | stop =>
            simp only [if_true, bind_assoc]
            exact Refines.note hahead.far (Refines.pure rfl)
          | go =>
            simp only [reduceCtorEq, if_false, bind_assoc]
            apply (skipPadding_follows len hahead.views).andThen
            · intro c'' b'' hskip hahead'
              have hturn := hahead.trans hahead'
              simp only [hskip]
              exact Refines.note (hturn.mono (by omega)).far
                (ih (c'', w') (b'', w') ⟨hturn.views, rfl⟩ (hturn.left_lt h (by omega)))
            · intro what hskip
              simp only [hskip]
              exact ⟨(), rfl⟩
        · intro d hsettled
          have hthrown := settled_eq_error hsettled
          generalize Sctp.onChunk ctx b.o type _ w = r at hthrown
          obtain ⟨w', next⟩ := r
          obtain rfl : next = .thrown := hthrown
          exact ⟨(), rfl⟩
    · intro what hread
      simp only [hread]
      exact ⟨(), rfl⟩

theorem readHeader_follows (h : Views data c b) :
    Follows data (fun r r' => r.1 = r'.1 ∧ Ahead data c 12 r.2 r'.2) (readHeader data c)
      (Sctp.readHeader b) := by
  rw [readHeader, Sctp.readHeader]
  apply (getNetShort_follows h).bind
  rintro ⟨sourcePort, c₁⟩ ⟨_, b₁⟩ ⟨rfl, h₁⟩
  apply (getNetShort_follows h₁.views).bind
  rintro ⟨destinationPort, c₂⟩ ⟨_, b₂⟩ ⟨rfl, h₂⟩
  apply (getNetLong_follows h₂.views).bind
  rintro ⟨verificationTag, c₃⟩ ⟨_, b₃⟩ ⟨rfl, h₃⟩
  apply (getNetLong_follows h₃.views).bind
  rintro ⟨checksum, c₄⟩ ⟨_, b₄⟩ ⟨rfl, h₄⟩
  exact Refines.pure ⟨rfl, (((h₁.trans h₂).trans h₃).trans h₄).mono (by omega)⟩

end Refinement

/-! ## A packet -/

section Packet
variable (cfg : Config) (oracle : Oracle) (sessions : Sessions) (pkt : Arrival)

/-- The loop of `receive` for a packet, with the exception as an error. -/
def packetSettled : Except Unit Work :=
  match Sctp.readHeader (.ofBytes pkt.data) with
  | .error _ => .error ()
  | .ok (h, b) =>
    let ctx := ctxOf cfg oracle pkt h
    loopSettled ctx pkt.data.length (b, { sessions := sessions, reply := replyHeader ctx })

theorem readPacket_follows :
    Follows pkt.data Eq (readPacket cfg oracle sessions pkt)
      (packetSettled cfg oracle sessions pkt) := by
  have hviews : Views pkt.data ⟨0, pkt.data.length, 0⟩ (.ofBytes pkt.data) :=
    ⟨⟨[], [], (List.append_nil _).symm, rfl⟩, rfl, rfl⟩
  rw [readPacket, packetSettled]
  apply (make_follows (δ := Unit) hviews).bind_left
  intro c hc
  apply (readHeader_follows hc).andThen
  · rintro ⟨h, c'⟩ ⟨_, b⟩ hread ⟨rfl, hahead⟩
    have hleft := hahead.left_lt hc (by omega)
    rw [BufferIn.ofBytes_left] at hleft
    simp only [hread]
    exact chunkLoop_follows _ hahead.views hleft _
  · intro what hread
    rw [hread]
    exact ⟨(), rfl⟩

/-- The exception comes out of the code with cursors exactly where it ends a packet. -/
theorem endsOutOfRange_iff {cfg : Config} {oracle : Oracle} {sessions : Sessions} {pkt : Arrival}
    (hlength : 12 ≤ pkt.data.length) :
    endsOutOfRange cfg oracle sessions pkt = true ↔
      ∃ e, (readPacket cfg oracle sessions pkt).result = .thrown e := by
  rw [(readPacket_follows cfg oracle sessions pkt).thrown_iff, endsOutOfRange, packetSettled,
    if_neg (by omega)]
  cases hheader : Sctp.readHeader (.ofBytes pkt.data) with
  | error what => simp
  | ok r =>
    obtain ⟨h, b⟩ := r
    simp only [loopSettled]
    split
    · rename_i hthrown
      simp [hthrown]
    · rename_i hthrown
      simp [hthrown]

end Packet

/-- What has to hold of a computation on a datagram. -/
structure Safe {α : Type} (length : ℕ) (x : Scan α) : Prop where
  /-- Buffers and reads stay inside, turns take four bytes. -/
  notes : ∀ n ∈ x.notes, n.Sound length
  ends : x.result ≠ .hangs
  thrown : ∀ e, x.result = .thrown e → e.IsOutOfRange

/-- Whatever a datagram contains, the code that reads it is safe. -/
theorem readPacket_safe (cfg : Config) (oracle : Oracle) (sessions : Sessions) (pkt : Arrival) :
    Safe pkt.data.length (readPacket cfg oracle sessions pkt) := by
  have hfollows := readPacket_follows cfg oracle sessions pkt
  exact ⟨hfollows.notes, hfollows.ends, fun e he => hfollows.thrown he⟩

end Cursors
end MyIp.Sctp
