import MyIp.Tcp.Segment

/-! # What `tcp::packet_handler` does with one session

The body of the `do … while(0)` block of `tcp::packet_handler`, from the moment the session was
found: it runs under the session's lock and is a sequence of stages over the session, the local
variables `delete_entry`, `fail` and `notify_unacked_cv`, and what was done to the outside so far.
Each stage is one `if` of the source, in the source's order. -/

namespace MyIp.Tcp
open Bytes
set_option autoImplicit false

variable {κ : Type}

/-- The surroundings of one call: the packet, the handler registered for its destination port, the
network device, the clock, and what the application callbacks return if they are invoked. -/
structure Call (κ : Type) where
  pkt : Packet
  listener : Option (PortHandler κ)
  idev : Option Idev
  us : BitVec 64
  newSessionRc : Bool := true
  newDataRc : Bool := true

/-- The session and the local variables while a segment is processed. `thrown` is set when an
empty callback was called: nothing of the rest is executed. -/
structure Work (κ : Type) where
  session : TcpSession
  acts : List (Act κ) := []
  deleteEntry : Bool := false
  fail : Bool := false
  notifyUnackedCv : Bool := false
  thrown : Bool := false

/-- `set_state` on the current session. -/
def Work.setState (w : Work κ) (us : BitVec 64) (newState : TcpState) : Work κ :=
  { w with
    session := Tcp.setState us w.session newState
    acts := w.acts ++ [.stateChange w.session.state newState] }

/-- `send_segment` without data whose sequence number argument is `&cur_session->my_seq_nr`. -/
def Work.sendFromTo (w : Work κ) (c : Call κ) (tsEcr : BitVec 32) (myAddr : AnyAddr)
    (myPort : BitVec 16) (peerAddr : AnyAddr) (peerPort : BitVec 16) (flags : Byte)
    (ackTo : BitVec 32) : Work κ :=
  let sent : Sent κ := sendSegment c.idev c.us w.session myAddr myPort peerAddr peerPort flags ackTo
    (some w.session.mySeqNr) [] tsEcr
  { w with
    session := { sent.session with mySeqNr := sent.mySeqNr.getD w.session.mySeqNr }
    acts := w.acts ++ sent.acts }

/-- The same from `get_my_addr()`, `get_my_port()` to `get_their_addr()`, `get_their_port()`. -/
def Work.send (w : Work κ) (c : Call κ) (tsEcr : BitVec 32) (flags : Byte) (ackTo : BitVec 32) :
    Work κ :=
  w.sendFromTo c tsEcr w.session.myAddr w.session.myPort w.session.theirAddr w.session.theirPort
    flags ackTo

/-! ## The stages -/

/-- `if (flag_rst)`. -/
def receiveRst (c : Call κ) (w : Work κ) : Work κ :=
  if Segment.hasRst c.pkt.data ∧ TcpState.synRcvd.rank ≤ w.session.state.rank then
    { w.setState c.us .closing with deleteEntry := true }
  else w

/-- `if (flag_syn && !delete_entry)`. -/
def receiveSyn (c : Call κ) (tsEcr : BitVec 32) (w : Work κ) : Work κ :=
  if Segment.hasSyn c.pkt.data ∧ w.deleteEntry = false ∧
      (w.session.state = .listen ∨ w.session.state = .synRcvd) then
    (w.send c tsEcr (flagSyn ||| flagAck) w.session.theirSeqNr).setState c.us .synRcvd
  else w

/-- An ACK in `tcp_syn_sent`. The segment goes from the peer's end point to the own one. -/
def ackSynSent (c : Call κ) (tsEcr : BitVec 32) (w : Work κ) : Work κ :=
  let w := { w with session := { w.session with
    initialTheirSeqNr := Segment.seqNr c.pkt.data
    theirSeqNr := Segment.seqNr c.pkt.data + 1 } }
  (w.sendFromTo c tsEcr w.session.theirAddr w.session.theirPort w.session.myAddr w.session.myPort
    flagAck w.session.theirSeqNr).setState c.us .established

/-- An ACK in `tcp_syn_rcvd`: the application is told about the session. -/
def ackSynRcvd (c : Call κ) (w : Work κ) : Work κ :=
  let w := w.setState c.us .established
  match c.listener with
  | some handler =>
    match handler.newSession with
    | some cb =>
      { w with
        acts := w.acts ++ [.newSession cb c.newSessionRc]
        fail := w.fail || !c.newSessionRc }
    | none => w
  | none => { w with fail := true }

/-- How many bytes beyond `unacked_start_seq_nr` an ACK is, as an `int`. -/
def ackedBytes (ackTo : BitVec 32) (ts : TcpSession) : ℤ := (ackTo - ts.unackedStartSeqNr).toInt

/-- The number of bytes left in the buffer, as an `int`. -/
def leftBytes (ackN : ℤ) (ts : TcpSession) : ℤ :=
  ((ts.unackedSize - BitVec.ofInt 64 ackN).setWidth 32).toInt

/-- The acknowledged bytes are removed from the buffer and the sequence numbers move on. -/
def dropAcked (ackN : ℤ) (ts : TcpSession) : TcpSession :=
  { ts with
    unacked :=
      if 0 < leftBytes ackN ts then
        moveWithin ts.unacked 0 ackN.toNat (leftBytes ackN ts).toNat
      else ts.unacked
    unackedSize := ts.unackedSize - BitVec.ofInt 64 ackN
    unackedStartSeqNr := ts.unackedStartSeqNr + BitVec.ofInt 32 ackN
    mySeqNr := ts.mySeqNr + BitVec.ofInt 32 ackN }

/-- `if (unacked_size == 0 && fin_after_unacked_empty)`. -/
def sendDrainedFin (c : Call κ) (tsEcr : BitVec 32) (w : Work κ) : Work κ :=
  if w.session.unackedSize = 0 ∧ w.session.finAfterUnackedEmpty then
    (w.send c tsEcr (flagAck ||| flagFin) w.session.theirSeqNr).setState c.us .finWait1
  else w

/-- `if (unacked_size > 0) r_last_pkt_ts = 0`. -/
def forceSend (w : Work κ) : Work κ :=
  if w.session.unackedSize = 0 then w
  else { w with session := { w.session with rLastPktTs := 0 } }

/-- The part of the ACK branch up to the FIN. More bytes acknowledged than there are is a
failure. -/
def takeAcked (ackN : ℤ) (w : Work κ) : Work κ :=
  { w with
    session := dropAcked ackN w.session
    deleteEntry := w.deleteEntry || decide (leftBytes ackN w.session < 0)
    fail := w.fail || decide (leftBytes ackN w.session < 0) }

/-- An ACK in `tcp_established`. -/
def ackEstablished (c : Call κ) (tsEcr : BitVec 32) (w : Work κ) : Work κ :=
  let ackN := ackedBytes (Segment.ackNr c.pkt.data) w.session
  let w :=
    if 0 < ackN ∧ w.session.unackedSize ≠ 0 then
      forceSend (sendDrainedFin c tsEcr (takeAcked ackN w))
    else w
  { w with notifyUnackedCv := true }

/-- The branches of the ACK stage, by the session's state. -/
def ackByState (c : Call κ) (tsEcr : BitVec 32) (w : Work κ) : Work κ :=
  match w.session.state with
  | .synSent => ackSynSent c tsEcr w
  | .synRcvd => ackSynRcvd c w
  | .lastAck => { w.setState c.us .listen with deleteEntry := true }
  | .established => ackEstablished c tsEcr w
  | _ => w

/-- `if (flag_ack && !delete_entry)`. -/
def receiveAck (c : Call κ) (tsEcr : BitVec 32) (w : Work κ) : Work κ :=
  if Segment.hasAck c.pkt.data ∧ w.deleteEntry = false then
    let w := ackByState c tsEcr w
    { w with session := { w.session with dataSinceLastAck := 0 } }
  else w

/-- `if (flag_fin)`. -/
def receiveFin (c : Call κ) (w : Work κ) : Work κ :=
  if Segment.hasFin c.pkt.data ∧ w.session.state = .established then
    let w := { w with session := { w.session with
      seqForFinWhenAllReceived := Segment.seqNr c.pkt.data
      flagFinWhenAllReceived := true
      isTerminating := true } }
    w.setState c.us .finWait1
  else w

/-- `if (flag_fin_when_all_received && …)`: the peer's FIN is acknowledged with an own FIN. -/
def ackFin (c : Call κ) (tsEcr : BitVec 32) (w : Work κ) : Work κ :=
  if w.session.flagFinWhenAllReceived ∧
      w.session.seqForFinWhenAllReceived = w.session.theirSeqNr then
    { (w.send c tsEcr (flagAck ||| flagFin) (w.session.theirSeqNr + 1)).setState c.us .finWait2 with
      deleteEntry := true }
  else w

/-- The ack number of the reply to a segment with an unexpected sequence number. -/
def unexpectedAckTo (theirSeqNr expected : BitVec 32) : BitVec 32 :=
  if expected < theirSeqNr then expected else if theirSeqNr < expected then theirSeqNr else 0

/-- The payload goes to the application's `new_data`. -/
def deliver (c : Call κ) (w : Work κ) : Work κ :=
  match c.listener with
  | some handler =>
    match handler.newData with
    | some cb =>
      { w with
        acts := w.acts ++ [.newData cb (Segment.payload c.pkt.data) c.newDataRc]
        fail := !c.newDataRc }
    | none => { w with acts := w.acts ++ [.badFunctionCall .newData], thrown := true }
  | none => { w with fail := true }

/-- After a successful delivery. Otherwise the acknowledgement is left to the sender thread. -/
def acceptPayload (c : Call κ) (tsEcr : BitVec 32) (w : Work κ) : Work κ :=
  let w := { w with session := { w.session with
    theirSeqNr := w.session.theirSeqNr + BitVec.ofNat 32 (Segment.payload c.pkt.data).length } }
  if w.session.unackedSize = 0 then w.send c tsEcr flagAck w.session.theirSeqNr else w

/-- `if (data_len > 0 && fail == false)`. -/
def processPayload (c : Call κ) (tsEcr : BitVec 32) (w : Work κ) : Work κ :=
  if Segment.headerSize c.pkt.data < c.pkt.data.length ∧ w.fail = false then
    if Segment.seqNr c.pkt.data = w.session.theirSeqNr then
      let w := deliver c w
      if w.fail ∨ w.thrown then w else acceptPayload c tsEcr w
    else
      w.send c tsEcr flagAck (unexpectedAckTo (Segment.seqNr c.pkt.data) w.session.theirSeqNr)
  else w

/-- The RST of a failed session: its sequence number argument is `nullptr`. -/
def sendFailRst (c : Call κ) (tsEcr : BitVec 32) (w : Work κ) : Work κ :=
  let sent : Sent κ := sendSegment c.idev c.us w.session w.session.myAddr w.session.myPort
    w.session.theirAddr w.session.theirPort (flagRst ||| flagAck) (Segment.seqNr c.pkt.data + 1)
    none [] tsEcr
  { w with session := sent.session, acts := w.acts ++ sent.acts, deleteEntry := true }

/-- `if (fail)`. -/
def failSession (c : Call κ) (tsEcr : BitVec 32) (w : Work κ) : Work κ :=
  if w.fail then
    match c.listener with
    | some handler =>
      match handler.sessionClosed1 with
      | some cb => sendFailRst c tsEcr { w with acts := w.acts ++ [.sessionClosed1 cb] }
      | none => { w with acts := w.acts ++ [.badFunctionCall .sessionClosed1], thrown := true }
    | none => sendFailRst c tsEcr w
  else w

/-- `if (delete_entry) cur_session->set_is_terminating()`. -/
def markTerminating (w : Work κ) : Work κ :=
  if w.deleteEntry then { w with session := { w.session with isTerminating := true } } else w

/-! ## The whole block -/

/-- The clock, the window and the size check come first. -/
def beginSegment (c : Call κ) (ts : TcpSession) : Work κ where
  session := { ts with
    eLastPktTs := c.us
    windowSize := BitVec.ofNat 16 (max 1 (Segment.winSize c.pkt.data).toNat) }
  fail := c.pkt.data.length < Segment.headerSize c.pkt.data

/-- The flags of a segment whose header fits. -/
def processFlags (c : Call κ) (tsEcr : BitVec 32) (w : Work κ) : Work κ :=
  if w.fail then w
  else ackFin c tsEcr (receiveFin c (receiveAck c tsEcr (receiveSyn c tsEcr (receiveRst c w))))

/-- The end of the block, unless an empty callback was called before. -/
def endSegment (c : Call κ) (tsEcr : BitVec 32) (w : Work κ) : Work κ :=
  if w.thrown then w
  else
    let w := failSession c tsEcr w
    if w.thrown then w else markTerminating w

/-- One segment for a session, once the option loop has returned. -/
def processSegment (c : Call κ) (tsEcr : BitVec 32) (ts : TcpSession) : Work κ :=
  endSegment c tsEcr (processPayload c tsEcr (processFlags c tsEcr (beginSegment c ts)))

end MyIp.Tcp
