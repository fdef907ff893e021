import MyIp.Tcp.PacketHandler

/-! # Sending data and ending sessions

The operations on one session that do not start from an incoming segment: `tcp::send_data`,
`tcp::end_session`, the visit that a pass of `tcp::unacked_sender` makes to a session, and one turn
of the loop in `tcp::wait_for_client_connected_state`. -/

namespace MyIp.Tcp
open Bytes
set_option autoImplicit false

variable {κ : Type}

/-! ## `tcp::send_data` -/

/-- The first test of the loop: there is room for more data and the session is established. -/
def appends (ts : TcpSession) : Bool :=
  ts.unackedSize.toNat < 1024 * 1024 && ts.state == .established

/-- The data goes behind the bytes that wait for an acknowledgement. -/
def appendUnacked (ts : TcpSession) (data : List Byte) : TcpSession :=
  { ts with
    unackedStartSeqNr := if ts.unackedSize = 0 then ts.mySeqNr else ts.unackedStartSeqNr
    unacked := writeAt (resize ts.unacked (ts.unackedSize + BitVec.ofNat 64 data.length).toNat)
      ts.unackedSize.toNat data
    unackedSize := ts.unackedSize + BitVec.ofNat 64 data.length
    rLastPktTs := 0 }

/-- One turn of the loop of `send_data`. A full buffer of an established session that is
terminating makes it wait and come back; in the other cases without room it returns at once. Either
way the session is untouched. -/
def sendData (ts : TcpSession) (data : List Byte) : TcpSession :=
  if appends ts then appendUnacked ts data else ts

/-! ## `tcp::end_session` -/

def endSession (idev : Option Idev) (us : BitVec 64) (ts : TcpSession) :
    TcpSession × List (Act κ) :=
  if ts.unackedSize = 0 then
    let sent : Sent κ := sendSegment idev us ts ts.myAddr ts.myPort ts.theirAddr ts.theirPort
      flagFin ts.theirSeqNr (some ts.mySeqNr) [] 0
    (setState us { sent.session with mySeqNr := sent.mySeqNr.getD ts.mySeqNr } .finWait1,
      sent.acts ++ [.stateChange ts.state .finWait1])
  else ({ ts with finAfterUnackedEmpty := true }, [])

/-! ## `tcp::unacked_sender` -/

/-- `to_send`: the difference and the minimum are taken on `size_t`, the result is an `int`. -/
def toSend (ts : TcpSession) : ℤ :=
  let window := ts.windowSize.setWidth 64 - ts.dataSinceLastAck
  ((if window < ts.unackedSize then window else ts.unackedSize).setWidth 32).toInt

/-- The `for` loop over `i`, with `resend_nr`: chunk after chunk of at most `packetSize` bytes until
`to_send` bytes went out or a transmission fails. `rc k` is what the `k`-th transmission returns.
The fuel covers the loop when every turn moves on. -/
def resendLoop (idev : Idev) (us : BitVec 64) (rc : ℕ → Bool) (packetSize toSend : ℕ) :
    (fuel k i : ℕ) → BitVec 32 → TcpSession → TcpSession × List (Act κ)
  | 0, _, _, _, ts => (ts, [])
  | fuel + 1, k, i, resendNr, ts =>
    if i < toSend then
      let sendN := min packetSize (toSend - i)
      let sent : Sent κ := sendSegment (some idev) us ts ts.myAddr ts.myPort ts.theirAddr
        ts.theirPort flagAck ts.theirSeqNr (some resendNr) (readAt ts.unacked i sendN) 0
      if rc k then
        let ts := { sent.session with
          dataSinceLastAck := ts.dataSinceLastAck + BitVec.ofNat 64 sendN }
        let rest := resendLoop idev us rc packetSize toSend fuel (k + 1) (i + packetSize)
          (sent.mySeqNr.getD resendNr) ts
        (rest.1, sent.acts ++ rest.2)
      else (sent.session, sent.acts)
    else (ts, [])

/-- What a pass that started at `now` does when it comes to this session. `none`: the device leaves
no room for data, so that the loop does not get anywhere. -/
def unackedVisit (idev : Idev) (now us : BitVec 64) (rc : ℕ → Bool) (ts : TcpSession) :
    Option (TcpSession × List (Act κ)) :=
  if 1000000 ≤ (now - ts.rLastPktTs).toNat ∧ 0 < toSend ts then
    if 0 < idev.maxPacketSize - 32 then
      let r := resendLoop idev us rc (idev.maxPacketSize - 32).toNat (toSend ts).toNat
        (toSend ts).toNat 0 0 ts.mySeqNr ts
      some ({ r.1 with rLastPktTs := now }, r.2)
    else none
  else some (ts, [])

/-! ## `tcp::wait_for_client_connected_state` -/

/-- One turn of the loop, with the local `counter`. When the loop is left, `in_init` is cleared;
every third turn before that sends the SYN again, from a copy of the sequence number and from the
peer's end point to the own one. -/
def waitTurn (idev : Option Idev) (us : BitVec 64) (counter : ℕ) (ts : TcpSession) :
    TcpSession × List (Act κ) :=
  if TcpState.established.rank ≤ ts.state.rank ∨ ts.stateSince + 30 ≤ time us then
    ({ ts with inInit := false }, [])
  else if counter + 1 = 3 then
    let sent : Sent κ := sendSegment idev us ts ts.theirAddr ts.theirPort ts.myAddr ts.myPort
      flagSyn ts.theirSeqNr (some ts.mySeqNr) [] 0
    (sent.session, sent.acts)
  else (ts, [])

/-! ## New sessions -/

/-- The session that `packet_handler` constructs for a SYN; `isn` is the random number. -/
def newServerSession (pkt : Packet) (id : BitVec 64) (isn : BitVec 32) : TcpSession where
  myAddr := pkt.dstAddr
  myPort := Segment.dstPort pkt.data
  theirAddr := pkt.srcAddr
  theirPort := Segment.srcPort pkt.data
  state := .listen
  mySeqNr := isn
  initialMySeqNr := isn
  initialTheirSeqNr := Segment.seqNr pkt.data
  theirSeqNr := Segment.seqNr pkt.data + 1
  id := id
  windowSize := Segment.winSize pkt.data

/-- The session that `allocate_client_session` constructs, before it sends its SYN. -/
def newClientSession (idev : Idev) (us : BitVec 64) (id : BitVec 64) (dstAddr : AnyAddr)
    (dstPort localPort : BitVec 16) (random : BitVec 32) : TcpSession where
  myAddr := idev.addr
  myPort := localPort
  theirAddr := dstAddr
  theirPort := dstPort
  state := .synSent
  stateSince := time us
  isClient := true
  inInit := true
  mySeqNr := random &&& 0x7fffffff
  initialMySeqNr := random &&& 0x7fffffff
  id := id
  windowSize := BitVec.ofInt 16 idev.maxPacketSize

/-- The client session after its SYN went out. -/
def openClientSession (idev : Idev) (us : BitVec 64) (id : BitVec 64) (dstAddr : AnyAddr)
    (dstPort localPort : BitVec 16) (random : BitVec 32) : TcpSession × List (Act κ) :=
  let ts := newClientSession idev us id dstAddr dstPort localPort random
  let sent : Sent κ := sendSegment (some idev) us ts ts.myAddr ts.myPort ts.theirAddr ts.theirPort
    flagSyn ts.theirSeqNr (some ts.mySeqNr) [] 0
  ({ sent.session with mySeqNr := sent.mySeqNr.getD ts.mySeqNr }, sent.acts)

/-- A session as the packet handler creates it for a SYN, or as `allocate_client_session` leaves it,
with what was sent so far. -/
inductive Opened : TcpSession → List (Act κ) → Prop
  | server (pkt : Packet) (id : BitVec 64) (isn : BitVec 32) :
      Opened (newServerSession pkt id isn) []
  | client (idev : Idev) (us id : BitVec 64) (dstAddr : AnyAddr) (dstPort localPort : BitVec 16)
      (random : BitVec 32) :
      Opened (openClientSession (κ := κ) idev us id dstAddr dstPort localPort random).1
        (openClientSession idev us id dstAddr dstPort localPort random).2

/-! ## One session as a machine -/

/-- Everything that can happen to a session object. The device is that of the TCP layer at the
time; for the sender thread it exists, the code does not ask. -/
inductive SessionEvent (κ : Type)
  | segment (c : Call κ)
  | sendData (data : List Byte)
  | endSession (idev : Option Idev) (us : BitVec 64)
  | unackedVisit (idev : Idev) (now us : BitVec 64) (rc : ℕ → Bool)
  | waitTurn (idev : Option Idev) (us : BitVec 64) (counter : ℕ)
  | setIsTerminating
  | setSessionTimeout (duration : ℤ)

/-- The session after the event and what was done meanwhile; `none` when the code does not come
back from it. -/
def sessionStep (ts : TcpSession) : SessionEvent κ → Option (TcpSession × List (Act κ))
  | .segment c =>
    match optionsTSecr c.pkt with
    | none => none
    | some tsEcr =>
      let w := processSegment c tsEcr ts
      some (w.session, w.acts)
  | .sendData data => some (sendData ts data, [])
  | .endSession idev us => some (endSession idev us ts)
  | .unackedVisit idev now us rc => unackedVisit idev now us rc ts
  | .waitTurn idev us counter => some (waitTurn idev us counter ts)
  | .setIsTerminating => some ({ ts with isTerminating := true }, [])
  | .setSessionTimeout duration => some ({ ts with sessionTimeout := duration }, [])

/-! ## A connection for examples

A peer at port 4000 and a service at port 80, whose sequence numbers start at 1000 and at 500. -/

namespace Sample

def host : AnyAddr := AnyAddr.ipv4 10 0 0 1

def peer : AnyAddr := AnyAddr.ipv4 10 0 0 2

def device : Idev := ⟨host, 1480⟩

def handler : PortHandler Unit where
  newSession := some ()
  newData := some ()
  sessionClosed1 := some ()
  sessionClosed2 := some ()

def packet (seq ackTo : BitVec 32) (flags : Byte) (window : BitVec 16) (data : List Byte) :
    Packet where
  srcAddr := peer
  dstAddr := host
  data := bareSegment 0 4000 80 seq ackTo flags window data

/-- That packet for the service, at time `us`. -/
def call (us : BitVec 64) (seq ackTo : BitVec 32) (flags : Byte) (window : BitVec 16)
    (data : List Byte) : Call Unit where
  pkt := packet seq ackTo flags window data
  listener := some handler
  idev := some device
  us := us

/-- The session that the peer's SYN creates. -/
def session (window : BitVec 16) : TcpSession :=
  newServerSession (packet 1000 0 flagSyn window []) 0 500

/-- The handshake with a peer whose window is `window`. -/
def handshake (window : BitVec 16) : List (SessionEvent Unit) :=
  [.segment (call 1 1000 0 flagSyn window []), .segment (call 2 1001 501 flagAck window [])]

end Sample

end MyIp.Tcp
