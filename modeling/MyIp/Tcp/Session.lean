import MyIp.Net.AnyAddr

/-! # The TCP session object and what happens on its behalf

`tcp_session` (`tcp.h`) with the fields it inherits from `session` (`session.h`). Sizes and
sequence numbers keep the width of the source's types. `unacked` is the block that `realloc`
manages, of which the first `unackedSize` bytes are in use. Callbacks are values of an arbitrary
type `κ`: the code only stores, compares with empty and invokes them. -/

namespace MyIp.Tcp
open Bytes
set_option autoImplicit false

inductive TcpState
  | closed | listen | synRcvd | synSent | established | finWait1 | finWait2 | closeWait | lastAck
  | closing | timeWait | rstAct
  deriving DecidableEq, Repr

/-- The value of the enumerator: states are compared with `>=` and `>`. -/
def TcpState.rank : TcpState → ℕ
  | closed => 0
  | listen => 1
  | synRcvd => 2
  | synSent => 3
  | established => 4
  | finWait1 => 5
  | finWait2 => 6
  | closeWait => 7
  | lastAck => 8
  | closing => 9
  | timeWait => 10
  | rstAct => 11

structure TcpSession where
  myAddr : AnyAddr
  myPort : BitVec 16
  theirAddr : AnyAddr
  theirPort : BitVec 16
  isTerminating : Bool := false
  sessionTimeout : ℤ := 300
  isClient : Bool := false
  inInit : Bool := false
  id : BitVec 64 := 0
  windowSize : BitVec 16 := 512
  state : TcpState := .closed
  stateSince : ℕ := 0
  eLastPktTs : BitVec 64 := 0
  rLastPktTs : BitVec 64 := 0
  mySeqNr : BitVec 32 := 0
  theirSeqNr : BitVec 32 := 0
  initialMySeqNr : BitVec 32 := 0
  initialTheirSeqNr : BitVec 32 := 0
  unacked : List Byte := []
  unackedStartSeqNr : BitVec 32 := 0
  dataSinceLastAck : BitVec 64 := 0
  unackedSize : BitVec 64 := 0
  finAfterUnackedEmpty : Bool := false
  seqForFinWhenAllReceived : BitVec 32 := 0
  flagFinWhenAllReceived : Bool := false

/-- `time(nullptr)` at a reading of the microsecond clock. -/
def time (us : BitVec 64) : ℕ := us.toNat / 1000000

def setState (us : BitVec 64) (session : TcpSession) (newState : TcpState) : TcpSession :=
  { session with state := newState, stateSince := time us }

/-- `port_handler_t` (`application.h`): a callback may be unset. `deinit` and `pd` are not used by
the TCP layer's own logic. -/
structure PortHandler (κ : Type) where
  init : Option κ := none
  newSession : Option κ := none
  newData : Option κ := none
  sessionClosed1 : Option κ := none
  sessionClosed2 : Option κ := none

/-- The callbacks that are invoked without a test for an empty `std::function`. -/
inductive Slot
  | newData | sessionClosed1 | sessionClosed2
  deriving DecidableEq, Repr

/-- What the TCP layer does to the outside on behalf of one session: a change of state, which
`set_state` announces to the threads that wait for it, `transmit_packet` with a destination, a
source and the bytes of a segment, an application callback with what it returned, or a call through
an empty `std::function`, which throws. -/
inductive Act (κ : Type)
  | stateChange (old new : TcpState)
  | segment (dst src : AnyAddr) (bytes : List Byte)
  | newSession (cb : κ) (rc : Bool)
  | newData (cb : κ) (data : List Byte) (rc : Bool)
  | sessionClosed1 (cb : κ)
  | sessionClosed2 (cb : κ)
  | badFunctionCall (slot : Slot)

/-- What the TCP layer uses of the network layer below it. -/
structure Idev where
  addr : AnyAddr
  maxPacketSize : ℤ

end MyIp.Tcp
