import NtSocks.MonitorNet

/-!
# Requests of the library

A socket is created, bound, made a listener, connected, and closed on requests of the library, which
the monitor takes from one ring and handles one after the other. Requests about epoll instances are
not among them.
-/

namespace NtSocks.Ntm

/-- `connect` and `fin` send to another monitor, and `tcp` is what TCP does then. -/
inductive NtsRequest
  | newSock (msgId : ℕ) (sockType shmAddrlen : ℤ)
  | bind (msg : NtmMsg)
  | listen (msgId : ℕ) (sockid backlog : ℤ)
  | acceptAck (sockid shmAddrlen : ℤ)
  | connect (tcp : Tcp) (uninitialised : Option ℕ) (msg : NtmMsg)
  | close (msgId : ℕ) (sockid : ℤ)
  | fin (tcp : Tcp) (msg : NtmMsg)

def ntsResponse (msgId : ℕ) (msgType : NtsMsgType) (sockid : ℤ) (ntErrno : Option NtErrno) :
    NtsMsg where
  msgId := some msgId
  msgType := msgType
  sockid := sockid
  retval := some (if ntErrno.isSome then -1 else 0)
  ntErrno := ntErrno
  port := none

def ntMaxConnNum : ℤ := 65536

def backlogNtm (backlog : ℤ) : NtBacklogContext where
  mask := (if backlog ≤ 0 then 128 else backlog.toNat) - 1
  writeIndex := 0
  readIndex := 0
  data := fun _ =>
    { sockid := 0
      socktype := 0
      opts := 0
      state := .closed
      sinPort := 0
      sinAddr := 0
      sinFamily := 0 }

namespace NtmManager

variable (mgr : NtmManager)

def newSocketConn (i : ℕ) : NtsShmConn where
  sockid := NtSockContext.sockid i
  socket := i
  peerSinPort := 0
  peerSinAddr := 0
  port := 0
  addrlen := 0
  ip := 0
  ntsShmCtx := some []
  listener := none
  ntmConn := none

/-- `nts_shm_connect` asserts that the ring has a name. The field `retval` stays unassigned. -/
def handleMsgNtsNewSocket (msgId : ℕ) (sockType shmAddrlen : ℤ) : Option NtmManager :=
  match mgr.ntSockCtx.allocateSocket sockType with
  | none => none
  | some (i, sockCtx) =>
    if shmAddrlen ≤ 0 then none
    else
      let mgr' := { mgr with ntSockCtx := sockCtx }
      let mgr' := mgr'.newShmConn (newSocketConn i)
      let mgr' := mgr'.setState i .closed
      mgr'.ntsShmSend mgr.nextShmConn
        { ntsResponse msgId .newSock (NtSockContext.sockid i) none with retval := none }

def bindSocket (msg : NtmMsg) (c : ℕ) : NtmManager :=
  let mgr := mgr.modifyShmConn c fun conn =>
    { conn with port := msg.port, addrlen := msg.addrlen, ip := msg.address }
  mgr.modifySocket (mgr.shmConns c).socket fun socket =>
    { socket with
      saddr :=
        { sinFamily := afInet
          sinPort := htons (UInt16.ofInt msg.port)
          sinAddr := msg.address }
      state := .bound }

def handleMsgNtsBind (msg : NtmMsg) : Option NtmManager :=
  match mgr.ntsShmConnMap msg.sockid with
  | none => some mgr
  | some c =>
    let respond (mgr : NtmManager) (ntErrno : Option NtErrno) : Option NtmManager :=
      mgr.ntsShmSend c (ntsResponse msg.msgId .bind msg.sockid ntErrno)
    if (mgr.socket (mgr.shmConns c).socket).state ≠ .closed then
      respond mgr (some .requireClosedFirst)
    else if msg.addrlen ≤ 0 then respond mgr (some .invalidIp)
    else if msg.port < 0 ∨ (mgr.ntPortCtx.numPorts : ℤ) ≤ msg.port then
      respond mgr (some .invalidPort)
    else if mgr.ntPortCtx.status msg.port.toNat ≠ .unused then respond mgr (some .inusePort)
    else
      match mgr.ntPortCtx.allocateSpecifiedPort msg.port with
      | none => respond mgr (some .inusePort)
      | some (_, portCtx) =>
        respond ({ mgr with ntPortCtx := portCtx }.bindSocket msg c) none

/-- Makes the socket of a record a listener on its port. A record becomes a listener once, and its
wrapper has its index. -/
def newListener (c : ℕ) (backlog : ℤ) : NtmManager :=
  let conn := mgr.shmConns c
  let mgr := mgr.modifySocket conn.socket fun socket =>
    { socket with socktype := ntSockListener, state := .listening }
  let mgr := mgr.modifyWrapper c fun _ =>
    { socket := conn.socket
      backlogCtx := backlogNtm backlog
      acceptedConnMap := fun _ => none
      ntsShmConn := c }
  { mgr with listenerMap := Function.update mgr.listenerMap conn.port.toNat (some c) }

def handleMsgNtsListen (msgId : ℕ) (sockid backlog : ℤ) : Option NtmManager :=
  match mgr.ntsShmConnMap sockid with
  | none => some mgr
  | some c =>
    if (mgr.socket (mgr.shmConns c).socket).state ≠ .bound then
      mgr.ntsShmSend c (ntsResponse msgId .listen sockid (some .requireBindFirst))
    else
      (mgr.newListener c (if backlog > ntMaxConnNum then ntMaxConnNum else backlog)).ntsShmSend c
        (ntsResponse msgId .listen sockid none)

/-- The record of an accepted socket gets the ring of the library; what went through another ring
before still counts as sent. -/
def handleMsgNtsAcceptAck (sockid shmAddrlen : ℤ) : Option NtmManager :=
  match mgr.ntsShmConnMap sockid with
  | none => some mgr
  | some c =>
    if shmAddrlen ≤ 0 then none
    else some (mgr.modifyShmConn c fun conn =>
      { conn with ntsShmCtx := some (conn.ntsShmCtx.getD []) })

def removeListener (w : ℕ) (port : ℤ) : NtmManager :=
  let mgr := mgr.modifyWrapper w fun wrapper => { wrapper with acceptedConnMap := fun _ => none }
  let mgr := { mgr with listenerMap := Function.update mgr.listenerMap port.toNat none }
  let mgr := mgr.setPortSock port.toNat none
  { mgr with ntPortCtx := mgr.ntPortCtx.freePort port }

/-- A socket that listens without an entry in the map ends in a null pointer access. The state is
set through the freed record at last. -/
def handleMsgNtsClose (msgId : ℕ) (sockid : ℤ) : Option NtmManager :=
  if msgId = 0 ∨ sockid ≤ 0 then some mgr
  else
    match mgr.ntsShmConnMap sockid with
    | none => some mgr
    | some c =>
      let conn := mgr.shmConns c
      if (mgr.socket conn.socket).socktype ≠ ntSockListener ∧
          (mgr.socket conn.socket).state ≠ .listening then some mgr
      else
        let mgr := mgr.setState conn.socket .waitClose
        match mgr.listenerMap conn.port.toNat with
        | none => none
        | some w =>
          ((mgr.removeListener w conn.port).ntsShmSend c
            (ntsResponse msgId .close sockid none)).map fun mgr =>
            let mgr := mgr.setShmConn (NtSockContext.sockid conn.socket) none
            let mgr := { mgr with
              ntSockCtx := mgr.ntSockCtx.freeSocket (NtSockContext.sockid conn.socket) }
            mgr.setState conn.socket .closed

def releasePort (port : ℕ) : NtmManager :=
  let mgr := mgr.setPortSock port none
  { mgr with ntPortCtx := mgr.ntPortCtx.freePort port }

def releaseSocket (i c : ℕ) : NtmManager :=
  let sockid := NtSockContext.sockid i
  let mgr :=
    if (mgr.socket i).socktype = ntSockPipe then
      match (mgr.shmConns c).listener with
      | some w => mgr.setAccepted w sockid none
      | none => mgr
    else mgr
  let mgr := mgr.setShmConn sockid none
  { mgr with ntSockCtx := mgr.ntSockCtx.freeSocket sockid }

theorem destroyClientNtSocketConn_eq (i c boundPort : ℕ) :
    mgr.destroyClientNtSocketConn i c boundPort = (mgr.releasePort boundPort).releaseSocket i c :=
  rfl

/-- Releases what a socket holds, by its own port. The port 0 is kept. -/
def destroyClientNtSocketConnWithSock (i : ℕ) : NtmManager :=
  let sockid := NtSockContext.sockid i
  let boundPort := (ntohs (mgr.socket i).saddr.sinPort).toNat
  match mgr.ntsShmConnMap sockid with
  | some c =>
    if boundPort ≠ 0 then mgr.destroyClientNtSocketConn i c boundPort
    else mgr.releaseSocket i c
  | none =>
    let mgr := if boundPort > 0 then mgr.releasePort boundPort else mgr
    { mgr with ntSockCtx := mgr.ntSockCtx.freeSocket sockid }

def finAck (c : ℕ) : NtmSockMsg where
  srcAddr := (mgr.socket (mgr.shmConns c).socket).saddr.sinAddr
  dstAddr := (mgr.shmConns c).peerSinAddr
  sport := (mgr.socket (mgr.shmConns c).socket).saddr.sinPort
  dport := (mgr.shmConns c).peerSinPort.toUInt16
  sockid := 0
  type := .ntFinAck
  partitionId := 0

def handleMsgNtsFin (tcp : Tcp) (msg : NtmMsg) : NtmManager × List NtmSockMsg :=
  if msg.msgId = 0 ∨ msg.sockid ≤ 0 then (mgr, [])
  else
    match mgr.ntsShmConnMap msg.sockid with
    | none => (mgr, [])
    | some c =>
      let i := (mgr.shmConns c).socket
      if (mgr.socket i).state ≠ .established then (mgr, [])
      else
        let mgr := mgr.setState i .waitClose
        match (mgr.shmConns c).ntmConn.or (mgr.connMap msg.address) with
        | none => (mgr, [])
        | some _ =>
          if tcp.sends then
            ((mgr.setState i .closed).destroyClientNtSocketConnWithSock i, [mgr.finAck c])
          else (mgr, [])

/-- The requests other than those that send messages leave the peer alone. -/
def ntsShmHandleMsg : NtsRequest → Option (NtmManager × List NtmSockMsg)
  | .newSock msgId sockType shmAddrlen =>
    (mgr.handleMsgNtsNewSocket msgId sockType shmAddrlen).map fun mgr => (mgr, [])
  | .bind msg => (mgr.handleMsgNtsBind msg).map fun mgr => (mgr, [])
  | .listen msgId sockid backlog =>
    (mgr.handleMsgNtsListen msgId sockid backlog).map fun mgr => (mgr, [])
  | .acceptAck sockid shmAddrlen =>
    (mgr.handleMsgNtsAcceptAck sockid shmAddrlen).map fun mgr => (mgr, [])
  | .connect tcp uninitialised msg => mgr.handleMsgNtsConnect tcp msg uninitialised
  | .close msgId sockid => (mgr.handleMsgNtsClose msgId sockid).map fun mgr => (mgr, [])
  | .fin tcp msg => some (mgr.handleMsgNtsFin tcp msg)

end NtmManager

end NtSocks.Ntm
