import MyIp.Sctp.Receive

/-! # The four-way handshake

INIT, INIT ACK, COOKIE ECHO, COOKIE ACK. Between the INIT and the COOKIE ECHO the cookie is the only
place where the tag of the peer and both TSNs are. A COOKIE ECHO is checked by making the cookie
again from the fields that it contains (`onCookieEcho_valid`, `onCookieEcho_invalid`). -/

namespace MyIp.Sctp
set_option autoImplicit false

open Bytes

/-- A listener that takes new sessions. -/
def Config.listening (cfg : Config) (port : BitVec 16) : Bool :=
  (cfg.listeners port).any fun l => l.newSession

theorem Config.listeners_isSome {cfg : Config} {port : BitVec 16} (h : cfg.listening port = true) :
    (cfg.listeners port).isSome = true := by
  rw [Config.listening] at h
  cases hl : cfg.listeners port with
  | none => exact absurd h (by simp [hl])
  | some l => rfl

/-! ## INIT -/

/-- The body of an INIT chunk. -/
def initBody (initiateTag aRwnd : BitVec 32) (nOutbound nInbound : BitVec 16)
    (initialTsn : BitVec 32) (parameters : List Byte) : List Byte :=
  be32Bytes initiateTag ++ (be32Bytes aRwnd ++ (be16Bytes nOutbound ++ (be16Bytes nInbound ++
    (be32Bytes initialTsn ++ parameters))))

/-- A parameter with its padding. -/
def IsParameter (bytes : List Byte) : Prop :=
  ∃ (type : BitVec 16) (value padding : List Byte), value.length + 4 < 65536 ∧
    IsPadding value padding ∧
    bytes = be16Bytes type ++ (be16Bytes (BitVec.ofNat 16 (value.length + 4)) ++ (value ++ padding))

theorem getParameter_append {b : BufferIn} {bytes rest : List Byte} (hparam : IsParameter bytes)
    (hleft : b.left = bytes ++ rest) :
    ∃ r b', getParameter b = .ok (r, b') ∧ b'.left = rest := by
  obtain ⟨type, value, padding, hlen, hpadding, rfl⟩ := hparam
  have hsize : (BitVec.ofNat 16 (value.length + 4)).toNat = value.length + 4 :=
    toNat_ofNat_of_lt (by omega)
  simp only [List.append_assoc] at hleft
  obtain ⟨b₁, h₁, hleft₁⟩ := BufferIn.getNetShort_append hleft
  obtain ⟨b₂, h₂, hleft₂⟩ := BufferIn.getNetShort_append hleft₁
  obtain ⟨b₃, h₃, hleft₃⟩ := BufferIn.getSegment_append hleft₂
  rw [IsPadding] at hpadding
  by_cases hmod : value.length % 4 = 0
  · refine ⟨(type, .ofBytes value), b₃, ?_, ?_⟩
    · simp [getParameter, h₁, h₂, h₃, hsize, hmod]
    · obtain rfl : padding = [] := List.length_eq_zero_iff.mp (by omega)
      exact hleft₃
  · have hseek : 4 - value.length % 4 = padding.length := by omega
    obtain ⟨b₄, h₄, hleft₄⟩ := BufferIn.seek_append hleft₃
    refine ⟨(type, .ofBytes value), b₄, ?_, hleft₄⟩
    simp [getParameter, h₁, h₂, h₃, hsize, hmod, hseek, h₄]

theorem parameters_flatten {params : List (List Byte)} (hparams : ∀ p ∈ params, IsParameter p)
    (turns : ℕ) {b : BufferIn} (hleft : b.left = params.flatten) : parameters turns b = .ok () := by
  induction params generalizing turns b with
  | nil =>
    cases turns with
    | zero => rfl
    | succ turns =>
      rw [parameters, if_pos (b.endReached_iff.mpr hleft)]
      rfl
  | cons p params ih =>
    cases turns with
    | zero => rfl
    | succ turns =>
      rw [parameters]
      split
      · rfl
      · obtain ⟨r, b', hget, hleft'⟩ := getParameter_append (hparams p List.mem_cons_self) hleft
        rw [hget, ok_bind]
        exact ih (fun q hq => hparams q (List.mem_cons_of_mem p hq)) turns hleft'

/-- An INIT is read if and only if its parameters are. -/
theorem readInit_initBody (initiateTag aRwnd : BitVec 32) (nOutbound nInbound : BitVec 16)
    (initialTsn : BitVec 32) (params : List Byte) :
    ∃ turns b, b.left = params ∧
      readInit (.ofBytes (initBody initiateTag aRwnd nOutbound nInbound initialTsn params)) =
        (parameters turns b).map fun _ => ⟨initiateTag, initialTsn⟩ := by
  obtain ⟨b₁, h₁, hleft₁⟩ := BufferIn.getNetLong_append (BufferIn.ofBytes_left
    (initBody initiateTag aRwnd nOutbound nInbound initialTsn params))
  obtain ⟨b₂, h₂, hleft₂⟩ := BufferIn.getNetLong_append hleft₁
  obtain ⟨b₃, h₃, hleft₃⟩ := BufferIn.getNetShort_append hleft₂
  obtain ⟨b₄, h₄, hleft₄⟩ := BufferIn.getNetShort_append hleft₃
  obtain ⟨b₅, h₅, hleft₅⟩ := BufferIn.getNetLong_append hleft₄
  refine ⟨b₅.getSize, b₅, hleft₅, ?_⟩
  simp only [readInit, h₁, h₂, h₃, h₄, h₅, ok_bind, pure_eq_ok]
  cases parameters b₅.getSize b₅ with
  | error e => rfl
  | ok u => rfl

/-! ## INIT ACK -/

/-- What the peer takes from an INIT ACK. -/
structure InitAck where
  initiateTag : BitVec 32
  initialTsn : BitVec 32
  cookie : List Byte
  deriving DecidableEq

/-- How the peer reads a packet whose first chunk is an INIT ACK with the cookie as its first
parameter. -/
def readInitAck (packet : List Byte) : Except String InitAck := do
  let (_, b) ← readHeader (.ofBytes packet)
  let (type, _, chunk, _) ← readChunk b
  let some chunk := chunk | throw "too short"
  if type ≠ 2 then throw "not an INIT ACK"
  let (initiateTag, chunk) ← chunk.getNetLong
  let (_aRwnd, chunk) ← chunk.getNetLong
  let (_nOutboundStreams, chunk) ← chunk.getNetShort
  let (_nInboundStreams, chunk) ← chunk.getNetShort
  let (initialTsn, chunk) ← chunk.getNetLong
  let (parameter, chunk) ← chunk.getNetShort
  if parameter ≠ 7 then throw "not a state cookie"
  let (len, chunk) ← chunk.getNetShort
  let (cookie, _) ← chunk.getSegment (len.toNat - 4)
  return ⟨initiateTag, initialTsn, cookie.left⟩

/-- The body of the INIT ACK chunk. -/
def initAckBody (draw : Draw) (cookie : List Byte) : List Byte :=
  be32Bytes draw.verificationTag ++ (be32Bytes 4096 ++ (be16Bytes 1 ++ (be16Bytes 1 ++
    (be32Bytes draw.initialTsn ++ (be16Bytes 7 ++
      (be16Bytes (BitVec.ofNat 16 (4 + cookie.length)) ++ cookie))))))

theorem initAckBody_length (draw : Draw) (cookie : List Byte) :
    (initAckBody draw cookie).length = cookie.length + 20 := by
  simp only [initAckBody, List.length_append, be32Bytes_length, be16Bytes_length]
  omega

theorem initAck_eq (draw : Draw) (cookie : List Byte) :
    ∃ padding, initAck draw cookie = chunkBytes 2 0 (initAckBody draw cookie) ++ padding := by
  have hout : [2, 0] ++ be16Bytes 0 ++ be32Bytes draw.verificationTag ++ be32Bytes 4096 ++
      be16Bytes 1 ++ be16Bytes 1 ++ be32Bytes draw.initialTsn ++ be16Bytes 7 ++
      be16Bytes (BitVec.ofNat 16 (4 + cookie.length)) ++ cookie =
      [2, 0] ++ (be16Bytes 0 ++ initAckBody draw cookie) := by
    simp only [initAckBody, List.append_assoc]
  have hlength : ([2, 0] ++ (be16Bytes 0 ++ initAckBody draw cookie)).length =
      (initAckBody draw cookie).length + 4 := by
    simp only [List.length_append, List.length_cons, List.length_nil, be16Bytes_length]
    omega
  have hplaced : BufferOut.addNetShortAt ([2, 0] ++ (be16Bytes 0 ++ initAckBody draw cookie))
      (BitVec.ofNat 16 ((initAckBody draw cookie).length + 4)) 2 =
      chunkBytes 2 0 (initAckBody draw cookie) := rfl
  rw [initAck, hout, hlength, hplaced, BufferOut.addPadding_eq _ (by omega)]
  exact ⟨_, rfl⟩

theorem readInitAck_append (h : Header) (draw : Draw) {cookie : List Byte}
    (hcookie : cookie.length + 24 < 65536) :
    readInitAck (h.bytes ++ initAck draw cookie) =
      .ok ⟨draw.verificationTag, draw.initialTsn, cookie⟩ := by
  obtain ⟨padding, hack⟩ := initAck_eq draw cookie
  have hsize : (BitVec.ofNat 16 (4 + cookie.length)).toNat = cookie.length + 4 := by
    rw [toNat_ofNat_of_lt (by omega), Nat.add_comm]
  obtain ⟨b, hheader, hb⟩ := readHeader_bytes h (initAck draw cookie)
  rw [hack] at hb
  obtain ⟨next, hread, -⟩ := readChunk_append (by rw [initAckBody_length]; omega) hb
  obtain ⟨b₁, h₁, hleft₁⟩ := BufferIn.getNetLong_append (BufferIn.ofBytes_left
    (initAckBody draw cookie))
  obtain ⟨b₂, h₂, hleft₂⟩ := BufferIn.getNetLong_append hleft₁
  obtain ⟨b₃, h₃, hleft₃⟩ := BufferIn.getNetShort_append hleft₂
  obtain ⟨b₄, h₄, hleft₄⟩ := BufferIn.getNetShort_append hleft₃
  obtain ⟨b₅, h₅, hleft₅⟩ := BufferIn.getNetLong_append hleft₄
  obtain ⟨b₆, h₆, hleft₆⟩ := BufferIn.getNetShort_append hleft₅
  obtain ⟨b₇, h₇, hleft₇⟩ := BufferIn.getNetShort_append hleft₆
  obtain ⟨b₈, h₈, -⟩ := BufferIn.getSegment_append (hleft₇.trans
    (List.append_nil cookie).symm)
  simp [readInitAck, hheader, hread, h₁, h₂, h₃, h₄, h₅, h₆, h₇, h₈, hsize]

/-! ## COOKIE ECHO -/

/-- The cookie of the server for a packet of these addresses and ports. -/
def Ctx.cookie (ctx : Ctx) (theirVerificationTag theirInitialTsn myInitialTsn : BitVec 32) :
    List Byte :=
  generateStateCookie ctx.cfg ctx.theirAddr ctx.sourcePort ctx.destinationPort theirVerificationTag
    theirInitialTsn myInitialTsn

theorem Ctx.cookie_length (ctx : Ctx) (tag theirTsn myTsn : BitVec 32) :
    (ctx.cookie tag theirTsn myTsn).length = ctx.theirAddr.addr.length + 49 := by
  simp only [Ctx.cookie, generateStateCookie, cookieFields, List.length_append, List.length_cons,
    be32Bytes_length, be16Bytes_length, Config.hmac_length]
  omega

theorem Ctx.cookie_length_le (ctx : Ctx) (tag theirTsn myTsn : BitVec 32) :
    (ctx.cookie tag theirTsn myTsn).length ≤ 65 := by
  have hsize : ctx.theirAddr.addr.length ≤ 16 := by
    rw [ctx.theirAddr.addr_size]
    cases ctx.theirAddr.af with
    | ipv4 => decide
    | mac => decide
    | ax25 => decide
    | ipv6 => decide
  rw [Ctx.cookie_length]
  omega

theorem Ctx.cookie_append (ctx : Ctx) (tag theirTsn myTsn : BitVec 32) :
    ∃ rest, ctx.cookie tag theirTsn myTsn =
      be32Bytes tag ++ (be32Bytes theirTsn ++ (be32Bytes myTsn ++ rest)) :=
  ⟨(ctx.cookie tag theirTsn myTsn).drop 12, rfl⟩

theorem getSegment_all (content : List Byte) :
    ∃ b', (BufferIn.ofBytes content).getSegment (BufferIn.ofBytes content).getNBytesLeft =
      .ok (.ofBytes content, b') := by
  have hleft : (BufferIn.ofBytes content).left = content ++ [] := by
    rw [BufferIn.ofBytes_left, List.append_nil]
  obtain ⟨b', h, -⟩ := BufferIn.getSegment_append hleft
  refine ⟨b', ?_⟩
  rw [BufferIn.getNBytesLeft_eq, BufferIn.ofBytes_left]
  exact h

theorem chunkCookieEcho_cookie (ctx : Ctx) (tag theirTsn myTsn : BitVec 32) :
    chunkCookieEcho ctx.cfg ctx.theirAddr ctx.sourcePort ctx.destinationPort
      (.ofBytes (ctx.cookie tag theirTsn myTsn)) = .ok (true, tag, theirTsn, myTsn) := by
  obtain ⟨rest, hcookie⟩ := ctx.cookie_append tag theirTsn myTsn
  obtain ⟨b', hsegment⟩ := getSegment_all (ctx.cookie tag theirTsn myTsn)
  obtain ⟨b₁, h₁, hleft₁⟩ := BufferIn.getNetLong_append (b := (BufferIn.ofBytes
    (ctx.cookie tag theirTsn myTsn)).copy) ((BufferIn.ofBytes_left _).trans hcookie)
  obtain ⟨b₂, h₂, hleft₂⟩ := BufferIn.getNetLong_append hleft₁
  obtain ⟨b₃, h₃, -⟩ := BufferIn.getNetLong_append hleft₂
  simp only [chunkCookieEcho, hsegment, h₁, h₂, h₃, ok_bind, pure_eq_ok, BufferIn.peek,
    BufferIn.ofBytes_left, Except.ok.injEq, Prod.mk.injEq, and_true]
  exact decide_eq_true rfl

theorem chunkCookieEcho_ok {ctx : Ctx} {content : List Byte} {cookieOk : Bool}
    {tag theirTsn myTsn : BitVec 32}
    (h : chunkCookieEcho ctx.cfg ctx.theirAddr ctx.sourcePort ctx.destinationPort
      (.ofBytes content) = .ok (cookieOk, tag, theirTsn, myTsn)) :
    cookieOk = decide (ctx.cookie tag theirTsn myTsn = content) := by
  obtain ⟨b', hsegment⟩ := getSegment_all content
  simp only [chunkCookieEcho, hsegment, ok_bind] at h
  obtain ⟨r₁, h₁, h⟩ := exists_of_bind_eq_ok h
  obtain ⟨r₂, h₂, h⟩ := exists_of_bind_eq_ok h
  obtain ⟨r₃, h₃, h⟩ := exists_of_bind_eq_ok h
  simp only [pure_eq_ok, BufferIn.peek, BufferIn.ofBytes_left, Except.ok.injEq,
    Prod.mk.injEq] at h
  obtain ⟨rfl, rfl, rfl, rfl⟩ := h
  rfl

/-- What a valid cookie does to the associations: one that exists stays. -/
def opened (ctx : Ctx) (tag theirTsn myTsn : BitVec 32) (sessions : Sessions) : Sessions :=
  if (sessions ctx.hash).isSome then sessions
  else sessions.set ctx.hash (some
    { theirAddr := ctx.theirAddr, theirPort := ctx.sourcePort, myAddr := ctx.myAddr
      myPort := ctx.destinationPort, theirTsn := theirTsn, myTsn := myTsn
      theirVerificationTag := tag })

theorem opened_isSome (ctx : Ctx) (tag theirTsn myTsn : BitVec 32) (sessions : Sessions) :
    (opened ctx tag theirTsn myTsn sessions ctx.hash).isSome = true := by
  rw [opened]
  split
  · assumption
  · rw [Sessions.set, Function.update_self]
    rfl

theorem onCookieEcho_valid {ctx : Ctx} (hlistening : ctx.hasNewSession = true)
    (tag theirTsn myTsn : BitVec 32) (w : Work) :
    ∃ actions, onCookieEcho ctx (.ofBytes (ctx.cookie tag theirTsn myTsn)) w =
      ((({ w with sessions := opened ctx tag theirTsn myTsn w.sessions, actions := actions }).add
        chunkGenCookieAck).setTag tag, .go) := by
  rw [onCookieEcho, chunkCookieEcho_cookie]
  simp only [hlistening, Bool.and_self, if_true, opened]
  cases hs : w.sessions ctx.hash with
  | none => exact ⟨_, rfl⟩
  | some s => exact ⟨_, rfl⟩

/-- Any other content is refused, or the packet is dropped. -/
theorem onCookieEcho_invalid {ctx : Ctx} {content : List Byte}
    (h : ∀ tag theirTsn myTsn, content ≠ ctx.cookie tag theirTsn myTsn) (w : Work) :
    onCookieEcho ctx (.ofBytes content) w = (w, .thrown) ∨
      ∃ tag, onCookieEcho ctx (.ofBytes content) w =
        (((w.add chunkGenAbort).terminate).setTag tag, .go) := by
  rw [onCookieEcho]
  split
  · exact Or.inl rfl
  · rename_i cookieOk tag theirTsn myTsn hecho
    have hfalse : cookieOk = false := by
      rw [chunkCookieEcho_ok hecho]
      exact decide_eq_false fun heq => h tag theirTsn myTsn heq.symm
    subst hfalse
    exact Or.inr ⟨tag, rfl⟩

theorem setTag_drop {w : Work} (tag : BitVec 32) {n : ℕ} (hn : 8 ≤ n) (hlen : 8 ≤ w.reply.length) :
    (w.setTag tag).reply.drop n = w.reply.drop n := by
  have htake : (w.reply.take 4).length = 4 := by
    rw [List.length_take]
    omega
  rw [Work.setTag, BufferOut.addNetLongAt, writeAt, List.drop_append, List.drop_eq_nil_of_le,
    List.drop_drop]
  · simp only [List.length_append, htake, be32Bytes_length, List.nil_append]
    congr 1
    omega
  · simp only [List.length_append, htake, be32Bytes_length]
    omega

/-- The chunk is answered with a COOKIE ACK, and there is an association after it. -/
def Accepted (ctx : Ctx) (content : List Byte) (w : Work) : Prop :=
  (onCookieEcho ctx (.ofBytes content) w).2 = .go ∧
    (onCookieEcho ctx (.ofBytes content) w).1.reply.drop w.reply.length = chunkGenCookieAck ∧
    ((onCookieEcho ctx (.ofBytes content) w).1.sessions ctx.hash).isSome = true ∧
    (onCookieEcho ctx (.ofBytes content) w).1.terminateSession = w.terminateSession

theorem accepted_iff {ctx : Ctx} (hlistening : ctx.hasNewSession = true) (content : List Byte)
    {w : Work} (hreply : 12 ≤ w.reply.length) :
    Accepted ctx content w ↔
      ∃ tag theirTsn myTsn, content = ctx.cookie tag theirTsn myTsn := by
  constructor
  · rintro ⟨hgo, hack, -, -⟩
    by_contra hnone
    have hinvalid : ∀ tag theirTsn myTsn, content ≠ ctx.cookie tag theirTsn myTsn := by
      intro tag theirTsn myTsn heq
      exact hnone ⟨tag, theirTsn, myTsn, heq⟩
    rcases onCookieEcho_invalid hinvalid w with hthrown | ⟨tag, habort⟩
    · rw [hthrown] at hgo
      cases hgo
    · rw [habort, setTag_drop tag (by omega) (by simp [Work.add, Work.terminate]; omega)] at hack
      simp only [Work.terminate, Work.add, List.drop_left] at hack
      exact absurd hack (by decide)
  · rintro ⟨tag, theirTsn, myTsn, rfl⟩
    obtain ⟨actions, hvalid⟩ := onCookieEcho_valid hlistening tag theirTsn myTsn w
    rw [Accepted, hvalid, setTag_drop tag (by omega) (by simp [Work.add]; omega)]
    exact ⟨rfl, List.drop_left, opened_isSome ctx tag theirTsn myTsn w.sessions, rfl⟩

/-! ## Packets -/

theorem onChunk_init (ctx : Ctx) (position : ℕ) (chunk : BufferIn) (w : Work) :
    onChunk ctx position 1 chunk w = onInit ctx position chunk w := rfl

theorem onChunk_cookieEcho (ctx : Ctx) (position : ℕ) (chunk : BufferIn) (w : Work) :
    onChunk ctx position 10 chunk w = onCookieEcho ctx chunk w := rfl

/-- An INIT to a port with a listener is dropped or answered with an INIT ACK. -/
theorem receive_init (cfg : Config) (oracle : Oracle) (sessions : Sessions) {pkt : Arrival}
    {h : Header} {initiateTag aRwnd initialTsn : BitVec 32} {nOutbound nInbound : BitVec 16}
    {params : List Byte} (hlistening : cfg.listening h.destinationPort = true)
    (hpkt : IsSingle pkt h 1 (initBody initiateTag aRwnd nOutbound nInbound initialTsn params)) :
    ∃ turns b, b.left = params ∧
      ((∃ e, parameters turns b = .error e) ∧ (receive cfg oracle sessions pkt).reply = none ∨
        ∃ (draw : Draw) (h' : Header), (receive cfg oracle sessions pkt).reply =
          some (h'.bytes ++ initAck draw
            ((ctxOf cfg oracle pkt h).cookie initiateTag initialTsn draw.initialTsn))) := by
  obtain ⟨position, hreceive⟩ := receive_single cfg oracle sessions hpkt
  obtain ⟨turns, b, hleft, hread⟩ := readInit_initBody initiateTag aRwnd nOutbound nInbound
    initialTsn params
  refine ⟨turns, b, hleft, ?_⟩
  have hlistener : (ctxOf cfg oracle pkt h).listener.isSome = true :=
    Config.listeners_isSome hlistening
  rw [hreceive, onChunk_init, onInit, hread]
  cases hparams : parameters turns b with
  | error e => exact Or.inl ⟨⟨e, rfl⟩, rfl⟩
  | ok u =>
    have hsent := withCrc_header ⟨h.destinationPort, h.sourcePort, initiateTag, 0⟩
      (initAck (oracle.draw position) ((ctxOf cfg oracle pkt h).cookie initiateTag initialTsn
        (oracle.draw position).initialTsn))
    simp only [Except.map, hlistener, if_true]
    exact Or.inr ⟨oracle.draw position, _, congrArg some hsent⟩

/-- A packet with a valid cookie. -/
theorem receive_cookieEcho (cfg : Config) (oracle : Oracle) (sessions : Sessions) {pkt : Arrival}
    {h : Header} {tag theirTsn myTsn : BitVec 32}
    (hlistening : cfg.listening h.destinationPort = true)
    (hpkt : IsSingle pkt h 10 ((ctxOf cfg oracle pkt h).cookie tag theirTsn myTsn)) :
    (receive cfg oracle sessions pkt).sessions =
      opened (ctxOf cfg oracle pkt h) tag theirTsn myTsn sessions := by
  obtain ⟨position, hreceive⟩ := receive_single cfg oracle sessions hpkt
  have hnewSession : (ctxOf cfg oracle pkt h).hasNewSession = true := hlistening
  obtain ⟨actions, hvalid⟩ := onCookieEcho_valid hnewSession tag theirTsn myTsn
    { sessions := sessions, reply := replyHeader (ctxOf cfg oracle pkt h) }
  rw [hreceive, onChunk_cookieEcho, hvalid]
  rfl

/-- `echo` is a COOKIE ECHO with `cookie` from the address and the ports of `pkt`. -/
structure IsEcho (pkt : Arrival) (h : Header) (cookie : List Byte) (echo : Arrival) (h' : Header) :
    Prop where
  srcAddr : echo.srcAddr = pkt.srcAddr
  sourcePort : h'.sourcePort = h.sourcePort
  destinationPort : h'.destinationPort = h.destinationPort
  single : IsSingle echo h' 10 cookie

/-- The association that the handshake is for. -/
def handshakeSession (init : Arrival) (h : Header) (initiateTag initialTsn : BitVec 32)
    (ack : InitAck) (echo : Arrival) : Session where
  theirAddr := init.srcAddr
  theirPort := h.sourcePort
  myAddr := echo.dstAddr
  myPort := h.destinationPort
  theirTsn := initialTsn
  myTsn := ack.initialTsn
  theirVerificationTag := initiateTag

/-- The cookie of an INIT ACK, echoed at any later time. -/
theorem echo_opens {cfg : Config} {oracle : Oracle} {sessions : Sessions} {pkt : Arrival}
    {h : Header} {initiateTag aRwnd initialTsn : BitVec 32} {nOutbound nInbound : BitVec 16}
    {params reply : List Byte} (hlistening : cfg.listening h.destinationPort = true)
    (hpkt : IsSingle pkt h 1 (initBody initiateTag aRwnd nOutbound nInbound initialTsn params))
    (hreply : (receive cfg oracle sessions pkt).reply = some reply) :
    ∃ ack, readInitAck reply = .ok ack ∧
      ∀ (oracle' : Oracle) (sessions' : Sessions) (echo : Arrival) (h' : Header),
        IsEcho pkt h ack.cookie echo h' →
          (receive cfg oracle' sessions' echo).sessions =
            let hash := getHash pkt.srcAddr h.sourcePort h.destinationPort
            if (sessions' hash).isSome then sessions'
            else sessions'.set hash
              (some (handshakeSession pkt h initiateTag initialTsn ack echo)) := by
  obtain ⟨turns, b, -, ⟨-, hnone⟩ | ⟨draw, h₁, hsome⟩⟩ :=
    receive_init cfg oracle sessions hlistening hpkt
  · rw [hnone] at hreply
    cases hreply
  · obtain rfl : _ = reply := Option.some.inj (hsome.symm.trans hreply)
    have hle := (ctxOf cfg oracle pkt h).cookie_length_le initiateTag initialTsn draw.initialTsn
    refine ⟨_, readInitAck_append h₁ draw (by omega), ?_⟩
    intro oracle' sessions' echo h' hecho
    obtain ⟨hsrc, hsport, hdport, hsingle⟩ := hecho
    have hcookie : (ctxOf cfg oracle pkt h).cookie initiateTag initialTsn draw.initialTsn =
        (ctxOf cfg oracle' echo h').cookie initiateTag initialTsn draw.initialTsn := by
      rw [Ctx.cookie, Ctx.cookie]
      simp only [ctxOf, hsrc, hsport, hdport]
    rw [hcookie] at hsingle
    rw [receive_cookieEcho cfg oracle' sessions' (hdport ▸ hlistening) hsingle, opened, Ctx.hash]
    simp only [ctxOf, handshakeSession, hsrc, hsport, hdport]

/-- What the handshake of a server does. -/
structure Handshake (cfg : Config) : Prop where
  /-- An INIT with any parameters is answered. -/
  answered : ∀ (oracle : Oracle) (sessions : Sessions) (pkt : Arrival) (h : Header)
    (initiateTag aRwnd initialTsn : BitVec 32) (nOutbound nInbound : BitVec 16)
    (params : List (List Byte)), cfg.listening h.destinationPort = true →
    (∀ p ∈ params, IsParameter p) →
    IsSingle pkt h 1 (initBody initiateTag aRwnd nOutbound nInbound initialTsn params.flatten) →
    (receive cfg oracle sessions pkt).reply.isSome = true
  /-- The cookie of the answer opens the association that the INIT and the INIT ACK speak of, unless
  there is one, which then stays as it is. -/
  opens : ∀ (oracle : Oracle) (sessions : Sessions) (pkt : Arrival) (h : Header)
    (initiateTag aRwnd initialTsn : BitVec 32) (nOutbound nInbound : BitVec 16)
    (params reply : List Byte), cfg.listening h.destinationPort = true →
    IsSingle pkt h 1 (initBody initiateTag aRwnd nOutbound nInbound initialTsn params) →
    (receive cfg oracle sessions pkt).reply = some reply →
    ∃ ack, readInitAck reply = .ok ack ∧
      ∀ (oracle' : Oracle) (sessions' : Sessions) (echo : Arrival) (h' : Header),
        IsEcho pkt h ack.cookie echo h' →
          (receive cfg oracle' sessions' echo).sessions =
            let hash := getHash pkt.srcAddr h.sourcePort h.destinationPort
            if (sessions' hash).isSome then sessions'
            else sessions'.set hash (some (handshakeSession pkt h initiateTag initialTsn ack echo))
  /-- A COOKIE ECHO, at any place of a packet, is accepted if and only if it is the cookie that the
  server would make of its own fields. -/
  accepted : ∀ (ctx : Ctx) (content : List Byte) (w : Work), ctx.cfg = cfg →
    cfg.listening ctx.destinationPort = true → 12 ≤ w.reply.length →
    (Accepted ctx content w ↔ ∃ theirVerificationTag theirInitialTsn myInitialTsn,
      content = generateStateCookie cfg ctx.theirAddr ctx.sourcePort ctx.destinationPort
        theirVerificationTag theirInitialTsn myInitialTsn)
  /-- A valid cookie leaves an association that exists alone. -/
  replayed : ∀ (ctx : Ctx) (theirVerificationTag theirInitialTsn myInitialTsn : BitVec 32)
    (w : Work) (s : Session), ctx.cfg = cfg → cfg.listening ctx.destinationPort = true →
    w.sessions ctx.hash = some s →
    let r := onCookieEcho ctx (.ofBytes (generateStateCookie cfg ctx.theirAddr ctx.sourcePort
      ctx.destinationPort theirVerificationTag theirInitialTsn myInitialTsn)) w
    r.1.sessions = w.sessions ∧ r.1.terminateSession = w.terminateSession

theorem four_way_handshake (cfg : Config) : Handshake cfg where
  answered := by
    intro oracle sessions pkt h initiateTag aRwnd initialTsn nOutbound nInbound params hlistening
      hparams hpkt
    obtain ⟨turns, b, hleft, ⟨⟨e, herror⟩, -⟩ | ⟨draw, h₁, hsome⟩⟩ :=
      receive_init cfg oracle sessions hlistening hpkt
    · rw [parameters_flatten hparams turns hleft] at herror
      cases herror
    · rw [hsome]
      rfl
  opens := by
    intro oracle sessions pkt h initiateTag aRwnd initialTsn nOutbound nInbound params reply
      hlistening hpkt hreply
    exact echo_opens hlistening hpkt hreply
  accepted := by
    rintro ctx content w rfl hlistening hreply
    exact accepted_iff hlistening content hreply
  replayed := by
    rintro ctx tag theirTsn myTsn w s rfl hlistening hs
    have hnewSession : ctx.hasNewSession = true := hlistening
    obtain ⟨actions, hvalid⟩ := onCookieEcho_valid hnewSession tag theirTsn myTsn w
    have hopened : opened ctx tag theirTsn myTsn w.sessions = w.sessions := by
      rw [opened, hs]
      rfl
    rw [Ctx.cookie] at hvalid
    rw [hvalid, hopened]
    exact ⟨rfl, rfl⟩

/-! ## The sample -/

def sampleOracle : Oracle := ⟨fun _ => ⟨0x55667788, 1, by decide⟩, fun _ _ => true⟩

/-- An INIT without parameters. -/
def sampleInit : Arrival where
  srcAddr := .ipv4 10 0 0 2
  dstAddr := .ipv4 10 0 0 1
  data := Header.bytes ⟨4000, 7, 0, 0⟩ ++ (chunkBytes 1 0 (initBody 0x11223344 4096 1 1 7 []) ++ [])

/-- The COOKIE ECHO of the peer. -/
def sampleEcho : Arrival where
  srcAddr := .ipv4 10 0 0 2
  dstAddr := .ipv4 10 0 0 1
  data := Header.bytes ⟨4000, 7, 0x55667788, 0⟩ ++ (chunkBytes 10 0
    (generateStateCookie sampleConfig (.ipv4 10 0 0 2) 4000 7 0x11223344 7 1) ++ [0, 0, 0])

theorem sampleInit_isSingle :
    IsSingle sampleInit ⟨4000, 7, 0, 0⟩ 1 (initBody 0x11223344 4096 1 1 7 []) :=
  ⟨by decide, 0, [], rfl, rfl⟩

/-- The whole handshake, from no association to `sampleSession`. -/
theorem four_way_handshake_sample :
    ∃ reply ack, (receive sampleConfig sampleOracle (fun _ => none) sampleInit).reply = some reply ∧
      readInitAck reply = .ok ack ∧
      (receive sampleConfig sampleOracle (fun _ => none) sampleEcho).sessions
        (getHash (.ipv4 10 0 0 2) 4000 7) = some sampleSession := by
  obtain ⟨reply, hreply⟩ := Option.isSome_iff_exists.mp ((four_way_handshake sampleConfig).answered
    sampleOracle (fun _ => none) sampleInit _ 0x11223344 4096 7 1 1 [] rfl (by simp)
    sampleInit_isSingle)
  obtain ⟨ack, hack, hopens⟩ := (four_way_handshake sampleConfig).opens _ _ _ _ _ _ _ _ _ _ reply
    rfl sampleInit_isSingle hreply
  have hack' : ack = ⟨0x55667788, 1,
      generateStateCookie sampleConfig (.ipv4 10 0 0 2) 4000 7 0x11223344 7 1⟩ := by
    have hread : readInitAck
        ((receive sampleConfig sampleOracle (fun _ => none) sampleInit).reply.getD []) =
        .ok ⟨0x55667788, 1,
          generateStateCookie sampleConfig (.ipv4 10 0 0 2) 4000 7 0x11223344 7 1⟩ := by
      decide +kernel
    rw [hreply] at hread
    exact Except.ok.inj (hack.symm.trans hread)
  refine ⟨reply, ack, hreply, hack, ?_⟩
  subst hack'
  rw [hopens sampleOracle (fun _ => none) sampleEcho ⟨4000, 7, 0x55667788, 0⟩
    ⟨rfl, rfl, rfl, by decide, 0, [0, 0, 0], rfl, rfl⟩]
  simp only [Option.isSome_none, Bool.false_eq_true, if_false, Sessions.set]
  exact Function.update_self ..

end MyIp.Sctp
