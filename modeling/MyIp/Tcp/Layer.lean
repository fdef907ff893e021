import MyIp.Tcp.Acts

/-! # The TCP layer

The class `tcp`: the table of sessions, the table of listeners, the ports of the client sessions and
the queue of ending sessions, with everything that the threads of the layer and its users do to
them. A step is one stretch of code under `sessions_lock`, or under the lock of one session; a
packet handler thread has three of them, so between the creation of a session for a SYN, the
processing of the segment and the removal of the session other threads get their turns.

Session objects have addresses that are never used again. A step without an answer is one that the
code does not come back from, that waits, or that cannot happen in the state. -/

namespace MyIp.Tcp
open Bytes EventMachine
set_option autoImplicit false

variable {κ : Type}

/-- `hash_address`. -/
def hashAddress (a : AnyAddr) (localPort peerPort : BitVec 16) : BitVec 64 :=
  a.getHash ^^^ (localPort.setWidth 64 <<< 32) ^^^ (peerPort.setWidth 64 <<< 48)

/-- The `id` that `packet_handler` computes for a packet. -/
def Packet.key (pkt : Packet) : BitVec 64 :=
  hashAddress pkt.srcAddr (Segment.dstPort pkt.data) (Segment.srcPort pkt.data)

/-- The number under which a port stands in `listeners` and `tcp_clients`. -/
def portNr (port : BitVec 16) : ℤ := port.toNat

/-- The state of the layer. `handling` are the packets whose segment a handler thread still has to
process, `removing` those whose session it still has to remove. `crashed` is set when the process
ends, by an exception that leaves a thread or a null pointer, `stopped` by the destructor. -/
structure Layer (κ : Type) where
  idev : Option Idev := none
  objects : ℕ → Option TcpSession := fun _ => none
  next : ℕ := 0
  sessions : Std.TreeMap (BitVec 64) ℕ := {}
  listeners : Std.TreeMap ℤ (PortHandler κ) := {}
  tcpClients : Std.TreeMap ℤ (BitVec 64) := {}
  endingSessions : List ℕ := []
  handling : List Packet := []
  removing : List Packet := []
  crashed : Bool := false
  stopped : Bool := false

/-- What the layer does: on behalf of a session object, the RST for a packet that belongs to none,
the `init` of a handler, and the creation and the release of session objects. -/
inductive LayerAct (κ : Type)
  | onSession (obj : ℕ) (a : Act κ)
  | rstForPort (dst src : AnyAddr) (bytes : List Byte)
  | init (cb : κ)
  | created (obj : ℕ)
  | freed (obj : ℕ)

abbrev Answer (κ : Type) := Option (Layer κ × List (LayerAct κ))

/-! ## Session objects -/

/-- A session event for the object at `obj`. -/
def onObject (t : Layer κ) (obj : ℕ) (e : SessionEvent κ) : Answer κ :=
  match t.objects obj with
  | none => none
  | some ts =>
    match sessionStep ts e with
    | none => none
    | some (ts', acts) =>
      some ({ t with objects := Function.update t.objects obj (some ts') },
        acts.map (.onSession obj))

/-- `tcp::free_tcp_session`. -/
def freeTcpSession (listeners : Std.TreeMap ℤ (PortHandler κ)) (obj : ℕ) (ts : TcpSession) :
    List (LayerAct κ) :=
  (match listeners[portNr ts.myPort]? with
    | none => []
    | some handler =>
      (handler.sessionClosed1.map fun cb => .onSession obj (.sessionClosed1 cb)).toList ++
        (handler.sessionClosed2.map fun cb => .onSession obj (.sessionClosed2 cb)).toList) ++
    [.freed obj]

/-- `ending_sessions->put(…)` and the removal from the table. The queue has 256 places; a thread
that finds it full waits. -/
def endObject (t : Layer κ) (key : BitVec 64) (obj : ℕ) : Answer κ :=
  if t.endingSessions.length < 256 then
    some ({ t with
      endingSessions := t.endingSessions ++ [obj]
      sessions := t.sessions.erase key }, [])
  else none

/-! ## `tcp::packet_handler` -/

/-- `tcp::send_rst_for_port`. -/
def sendRstForPort (idev : Option Idev) (pkt : Packet) : List (LayerAct κ) :=
  match idev with
  | none => []
  | some _ =>
    let temp := fun checksum => bareSegment checksum (Segment.dstPort pkt.data)
      (Segment.srcPort pkt.data) (Segment.ackNr pkt.data) (Segment.seqNr pkt.data + 1) flagRst 0 []
    [.rstForPort pkt.srcAddr pkt.dstAddr
      (temp (tcpUdpChecksum pkt.srcAddr pkt.dstAddr true (temp 0)))]

/-- Up to the end of `if (flag_syn)`: a SYN for a listening port gets a session, unless there are
too many or there is one already. `isn` is the random number. -/
def arrivePacket (t : Layer κ) (pkt : Packet) (isn : BitVec 32) : Layer κ × List (LayerAct κ) :=
  if pkt.data.length < 20 then (t, [])
  else if Segment.hasSyn pkt.data then
    match t.listeners[portNr (Segment.dstPort pkt.data)]? with
    | none => (t, sendRstForPort t.idev pkt)
    | some _ =>
      if 128 ≤ t.sessions.size then (t, [])
      else if pkt.key ∈ t.sessions then ({ t with handling := t.handling ++ [pkt] }, [])
      else
        ({ t with
            handling := t.handling ++ [pkt]
            next := t.next + 1
            objects := Function.update t.objects t.next (some (newServerSession pkt pkt.key isn))
            sessions := t.sessions.insertIfNew pkt.key t.next }, [.created t.next])
  else ({ t with handling := t.handling ++ [pkt] }, [])

/-- The surroundings of the segment's processing. -/
def Layer.call (t : Layer κ) (pkt : Packet) (us : BitVec 64) (newSessionRc newDataRc : Bool) :
    Call κ where
  pkt := pkt
  listener := t.listeners[portNr (Segment.dstPort pkt.data)]?
  idev := t.idev
  us := us
  newSessionRc := newSessionRc
  newDataRc := newDataRc

/-- The `do … while(0)` block for the `i`-th of the packets in work. -/
def processPacket (t : Layer κ) (i : ℕ) (us : BitVec 64) (newSessionRc newDataRc : Bool) :
    Answer κ :=
  match t.handling[i]? with
  | none => none
  | some pkt =>
    match t.sessions[pkt.key]? with
    | none => some ({ t with handling := t.handling.eraseIdx i }, sendRstForPort t.idev pkt)
    | some obj =>
      match t.objects obj, optionsTSecr pkt with
      | some ts, some tsEcr =>
        let w := processSegment (t.call pkt us newSessionRc newDataRc) tsEcr ts
        some ({ t with
          handling := t.handling.eraseIdx i
          objects := Function.update t.objects obj (some w.session)
          removing := if w.deleteEntry && !w.thrown then t.removing ++ [pkt] else t.removing
          crashed := w.thrown }, w.acts.map (.onSession obj))
      | _, _ => none

/-- `if (delete_entry)`, for the `i`-th of the packets whose session is to be removed. -/
def removePacket (t : Layer κ) (i : ℕ) : Answer κ :=
  match t.removing[i]? with
  | none => none
  | some pkt =>
    let t := { t with removing := t.removing.eraseIdx i }
    match t.sessions[pkt.key]? with
    | none => some (t, [])
    | some obj =>
      match t.objects obj with
      | none => none
      | some ts => if ts.inInit then some (t, []) else endObject t pkt.key obj

/-! ## The other threads -/

/-- The test of `session_cleaner`: the timeout is an `int` that is compared with an unsigned age. -/
def expired (now : BitVec 64) (ts : TcpSession) : Bool :=
  let age := (now - ts.eLastPktTs).toNat / 1000000
  (BitVec.ofInt 64 ts.sessionTimeout).toNat ≤ age || TcpState.established.rank < ts.state.rank ||
    (ts.state == .synRcvd && 5 ≤ age)

/-- What a pass of `tcp::session_cleaner` does when it comes to the session under `key`. It does not
get past a client session that is not connected yet. -/
def cleanerVisit (t : Layer κ) (key : BitVec 64) (now : BitVec 64) : Answer κ :=
  match t.sessions[key]? with
  | none => none
  | some obj =>
    match t.objects obj with
    | none => none
    | some ts =>
      if ts.inInit then none
      else if expired now ts then
        endObject { t with
          tcpClients := if ts.isClient then t.tcpClients.erase (portNr ts.myPort)
            else t.tcpClients } key obj
      else some (t, [])

/-- One turn of `tcp::session_ender`: `session_closed_2`, then `free_tcp_session`. -/
def sessionEnder (t : Layer κ) : Answer κ :=
  match t.endingSessions with
  | [] => none
  | obj :: rest =>
    match t.objects obj with
    | none => none
    | some ts =>
      let freed := { t with endingSessions := rest, objects := Function.update t.objects obj none }
      match t.listeners[portNr ts.myPort]? with
      | none => some (freed, freeTcpSession t.listeners obj ts)
      | some handler =>
        match handler.sessionClosed2 with
        | none => some ({ t with endingSessions := rest, crashed := true },
            [.onSession obj (.badFunctionCall .sessionClosed2)])
        | some cb => some (freed,
            .onSession obj (.sessionClosed2 cb) :: freeTcpSession t.listeners obj ts)

/-- The objects in the table, in its order. -/
def Layer.tableObjects (t : Layer κ) : List ℕ := t.sessions.toList.map (·.2)

/-- `tcp::~tcp`, once the packet handlers, the sender and the cleaner are joined. The threads in
`th_enders` are joined next, and `th_enders { nullptr }` begins with a null pointer: the process ends
here, before the loops that delete the sessions of the queue and of the table. -/
def destruct (t : Layer κ) : Answer κ :=
  if t.handling = [] ∧ t.removing = [] then some ({ t with crashed := true, stopped := true }, [])
  else none

/-! ## The users of the layer -/

/-- `tcp::add_handler`. An entry that is there already stays. -/
def addHandler (t : Layer κ) (port : ℤ) (tph : PortHandler κ) : Layer κ × List (LayerAct κ) :=
  ({ t with listeners := t.listeners.insertIfNew port tph }, (tph.init.map .init).toList)

/-- The handler that `allocate_client_session` registers. -/
def clientHandler (newData sessionClosed2 : κ) : PortHandler κ where
  newData := some newData
  sessionClosed2 := some sessionClosed2

/-- `tcp::allocate_client_session`, when the random local port is `localPort`. -/
def allocateClientSession (t : Layer κ) (us : BitVec 64) (newData sessionClosed2 : κ)
    (dstAddr : AnyAddr) (dstPort localPort : BitVec 16) (random : BitVec 32) : Answer κ :=
  match t.idev with
  | none => none
  | some idev =>
    if 1023 < localPort.toNat ∧ localPort.toNat < 65535 ∧ portNr localPort ∉ t.tcpClients then
      let id := hashAddress dstAddr localPort dstPort
      let opened := openClientSession idev us id dstAddr dstPort localPort random
      some ({ t with
        next := t.next + 1
        objects := Function.update t.objects t.next (some opened.1)
        tcpClients := t.tcpClients.insertIfNew (portNr localPort) id
        sessions := t.sessions.insertIfNew id t.next
        listeners := t.listeners.insertIfNew (portNr localPort)
          (clientHandler newData sessionClosed2) },
        .created t.next :: opened.2.map (.onSession t.next))
    else none

/-- The session object of a client port. -/
def Layer.clientObject (t : Layer κ) (port : ℤ) : Option ℕ :=
  (t.tcpClients[port]?).bind fun id => t.sessions[id]?

/-- The session event of `close_client_session` and of `client_session_send_data`, which do nothing
for a port that they do not find. -/
def onClient (t : Layer κ) (port : ℤ) (e : SessionEvent κ) : Answer κ :=
  match t.clientObject port with
  | none => some (t, [])
  | some obj => onObject t obj e

/-! ## The layer as a machine -/

/-- `wait_for_client_connected_state`, `send_data`, `end_session` and the setters get a pointer to
the session object; the sender and the cleaner thread come to a session by its key. -/
inductive LayerEvent (κ : Type)
  | registerIp (idev : Idev)
  | arrivePacket (pkt : Packet) (isn : BitVec 32)
  | processPacket (i : ℕ) (us : BitVec 64) (newSessionRc newDataRc : Bool)
  | removePacket (i : ℕ)
  | unackedVisit (key : BitVec 64) (now us : BitVec 64) (rc : ℕ → Bool)
  | cleanerVisit (key : BitVec 64) (now : BitVec 64)
  | sessionEnder
  | addHandler (port : ℤ) (tph : PortHandler κ)
  | allocateClientSession (us : BitVec 64) (newData sessionClosed2 : κ) (dstAddr : AnyAddr)
      (dstPort localPort : BitVec 16) (random : BitVec 32)
  | closeClientSession (port : ℤ) (us : BitVec 64)
  | clientSessionSendData (port : ℤ) (data : List Byte)
  | waitTurn (obj : ℕ) (us : BitVec 64) (counter : ℕ)
  | sendData (obj : ℕ) (data : List Byte)
  | endSession (obj : ℕ) (us : BitVec 64)
  | setIsTerminating (obj : ℕ)
  | setSessionTimeout (obj : ℕ) (duration : ℤ)
  | destruct

/-- A step of a layer that still runs. -/
def runningStep (t : Layer κ) : LayerEvent κ → Answer κ
  | .registerIp idev => some ({ t with idev := some idev }, [])
  | .arrivePacket pkt isn => some (arrivePacket t pkt isn)
  | .processPacket i us newSessionRc newDataRc => processPacket t i us newSessionRc newDataRc
  | .removePacket i => removePacket t i
  | .unackedVisit key now us rc =>
    match t.sessions[key]?, t.idev with
    | some obj, some idev => onObject t obj (.unackedVisit idev now us rc)
    | _, _ => none
  | .cleanerVisit key now => cleanerVisit t key now
  | .sessionEnder => sessionEnder t
  | .addHandler port tph => some (addHandler t port tph)
  | .allocateClientSession us newData sessionClosed2 dstAddr dstPort localPort random =>
    allocateClientSession t us newData sessionClosed2 dstAddr dstPort localPort random
  | .closeClientSession port us => onClient t port (.endSession t.idev us)
  | .clientSessionSendData port data => onClient t port (.sendData data)
  | .waitTurn obj us counter => onObject t obj (.waitTurn t.idev us counter)
  | .sendData obj data => onObject t obj (.sendData data)
  | .endSession obj us => onObject t obj (.endSession t.idev us)
  | .setIsTerminating obj => onObject t obj .setIsTerminating
  | .setSessionTimeout obj duration => onObject t obj (.setSessionTimeout duration)
  | .destruct => destruct t

def layerStep (t : Layer κ) (e : LayerEvent κ) : Answer κ :=
  if t.crashed || t.stopped then none else runningStep t e

abbrev LayerMove (κ : Type) := Move (Layer κ) (LayerEvent κ) (List (LayerAct κ))

/-! ## A layer for examples -/

namespace Sample

/-- A layer with a device and a service at port 80. -/
def service : List (LayerEvent Unit) := [.registerIp device, .addHandler 80 handler]

/-- A packet that arrives and whose segment is processed at once. -/
def receive (us : BitVec 64) (pkt : Packet) : List (LayerEvent Unit) :=
  [.arrivePacket pkt 500, .processPacket 0 us true true]

end Sample

end MyIp.Tcp
