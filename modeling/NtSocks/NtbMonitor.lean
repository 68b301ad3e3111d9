import NtSocks.NtmManager
import NtSocks.NtpCreateConn

/-!
# The handlers of the connection handshake

A connecting monitor sends `NT_SYN`; the accepting one creates a socket for the listener of the
port, has its proxy create the connection, and answers `NT_SYN_ACK`; the connecting one has its own
proxy create the connection and confirms with `NT_CLIENT_SYN_ACK`. A handler that needs the proxy is
given as the part before the request and the part after the answer. A handler without a result
(`none`) does not return: it fails an assertion, uses a null pointer, or waits for ever.
-/

namespace NtSocks.Ntm

/-- An answer to `msg`, with the fields that `memset` leaves zero. -/
def answer (msg : NtmSockMsg) (type : NtmSockMsgType) : NtmSockMsg where
  srcAddr := msg.dstAddr
  dstAddr := msg.srcAddr
  sport := 0
  dport := msg.sport
  sockid := 0
  type := type
  partitionId := 0

def createConnRequest (msg : NtmSockMsg) (partitionId : ℤ) : NtmNtpMsg where
  srcIp := msg.dstAddr.toUInt64
  dstIp := msg.srcAddr.toUInt64
  srcPort := msg.dport.toUInt64
  dstPort := msg.sport.toUInt64
  msgType := createConn
  partitionId := partitionId

structure SynPending where
  socket : ℕ
  port : ℕ
  wrapper : ℕ
  deriving DecidableEq, Repr

namespace NtmManager

variable (mgr : NtmManager) (ntmConn : NtmConn) (msg : NtmSockMsg)

/-- The listener of a port, or the answer that refuses it. The ports of a message are never
negative, so `NT_INVALID_PORT` is not among them. -/
def findListener (dport : ℕ) : Except NtmSockMsgType ℕ :=
  match mgr.listenerMap dport with
  | none => .error .ntListenerNotFound
  | some w =>
    if (mgr.socket (mgr.wrappers w).socket).state ≠ .listening then .error .ntListenerNotReady
    else .ok w

def findBacklog : Except NtmSockMsgType ℕ :=
  match mgr.findListener (ntohs msg.dport).toNat with
  | .error type => .error type
  | .ok w =>
    if (mgr.wrappers w).backlogCtx.backlogIsFull then .error .ntBacklogIsFull else .ok w

def allocateClient (w : ℕ) : Option (SynPending × NtmManager) :=
  match mgr.ntSockCtx.allocateSocket ntSockPipe with
  | none => none
  | some (i, sockCtx) =>
    match mgr.ntPortCtx.allocatePort with
    | none => none
    | some (p, portCtx) =>
      let mgr := { mgr with ntSockCtx := sockCtx, ntPortCtx := portCtx }
      let mgr := mgr.modifySocket i fun socket =>
        { socket with
          saddr :=
            { sinFamily := afInet
              sinPort := htons (NtPortContext.portId p)
              sinAddr := msg.dstAddr } }
      some ({ socket := i, port := p, wrapper := w },
        mgr.setPortSock (NtPortContext.portId p).toNat (some i))

def synRollback (pending : SynPending) : NtmManager :=
  let port := (NtPortContext.portId pending.port).toNat
  let sockid := NtSockContext.sockid pending.socket
  let mgr := mgr.setPortSock port none
  let mgr := { mgr with ntPortCtx := mgr.ntPortCtx.freePort port }
  let mgr := mgr.setState pending.socket .closed
  let mgr := mgr.setShmConn sockid none
  let mgr := mgr.setAccepted pending.wrapper sockid none
  { mgr with ntSockCtx := mgr.ntSockCtx.freeSocket sockid }

def acceptedConn (pending : SynPending) : NtsShmConn where
  sockid := NtSockContext.sockid pending.socket
  socket := pending.socket
  peerSinPort := msg.sport.toUInt32
  peerSinAddr := msg.srcAddr
  port := 0
  addrlen := 0
  ip := 0
  ntsShmCtx := none
  listener := some pending.wrapper
  ntmConn := some ntmConn

def notifyListener (w : ℕ) : NtmManager :=
  let c := (mgr.wrappers w).ntsShmConn
  let i := (mgr.shmConns c).socket
  if (mgr.socket i).epoll ≠ 0 ∧ (mgr.socket i).epoll &&& ntsEpollin ≠ 0 then
    { mgr with epIoQueue := mgr.epIoQueue ++
        [(c, { sockid := UInt32.ofNat (NtSockContext.sockid i)
               data := (UInt32.ofNat (NtSockContext.sockid i)).toUInt64
               events := ntsEpollin })] }
  else mgr

def synAck (pending : SynPending) (reply : NtpNtmMsg) : NtmSockMsg :=
  { answer msg .ntSynAck with
    sport := msg.dport
    sockid := NtSockContext.sockid pending.socket
    partitionId := UInt8.ofInt (reply.partitionId.getD 0) }

def synEnter (pending : SynPending) : NtmManager :=
  let mgr := mgr.newShmConn (acceptedConn ntmConn msg pending)
  let mgr := mgr.setState pending.socket .waitEstablished
  mgr.setAccepted pending.wrapper (NtSockContext.sockid pending.socket) (some pending.socket)

def setBacklog (w : ℕ) (backlog : NtBacklogContext) : NtmManager :=
  mgr.modifyWrapper w fun wrapper => { wrapper with backlogCtx := backlog }

/-- From the answer that the connection is created on. -/
def synFinish (pending : SynPending) (reply : NtpNtmMsg) : NtmManager × List NtmSockMsg :=
  let mgr := mgr.synEnter ntmConn msg pending
  match (mgr.wrappers pending.wrapper).backlogCtx.backlogPush
      (NtSockContext.sockid pending.socket) (mgr.socket pending.socket) with
  | none => (mgr.synRollback pending, [])
  | some backlog =>
    ((mgr.setBacklog pending.wrapper backlog).notifyListener pending.wrapper,
      [synAck msg pending reply])

/-- From any answer on. After an answer of another type `new_nts_shm_conn` is not initialised, and
the failure branch passes it to `free` unless it happens to be null. -/
def synAnswered (newShmConn : Option ℕ) (pending : SynPending) (reply : NtpNtmMsg) :
    Option (NtmManager × List NtmSockMsg) :=
  if reply.msgType ≠ createConn then
    if newShmConn.isSome then none else some (mgr.synRollback pending, [])
  else some (mgr.synFinish ntmConn msg pending reply)

def synAckSocket : Option ℕ := mgr.portSockMap (ntohs msg.dport).toNat

def clientSynAck : NtmSockMsg :=
  { answer msg .ntClientSynAck with
    sport := msg.dport
    sockid := msg.sockid }

def established (i : ℕ) : NtsMsg where
  msgId := none
  msgType := .establish
  sockid := NtSockContext.sockid i
  retval := some 0
  ntErrno := none
  port := none

def synAckFinish (i : ℕ) (reply : NtpNtmMsg) : Option (NtmManager × List NtmSockMsg) :=
  if reply.msgType ≠ createConn then some (mgr, [])
  else
    let mgr := mgr.setState i .established
    match mgr.ntsShmConnMap (NtSockContext.sockid i) with
    | none => some (mgr, [clientSynAck msg])
    | some c =>
      let mgr := mgr.modifyShmConn c fun conn =>
        { conn with peerSinPort := msg.sport.toUInt32, peerSinAddr := msg.srcAddr }
      (mgr.ntsShmSend c (established i)).map fun mgr => (mgr, [clientSynAck msg])

def ntsClientSynAck (sockid : ℤ) : NtsMsg where
  msgId := none
  msgType := .clientSynAck
  sockid := sockid
  retval := some 0
  ntErrno := none
  port := none

/-- That the message is not sent is only logged. -/
def handleNtClientSynAckMsg (sent : Bool) : Option (NtmManager × List NtmSockMsg) :=
  if msg.sockid ≤ 0 then none
  else
    match mgr.findListener (ntohs msg.dport).toNat with
    | .error type => some (mgr, [answer msg type])
    | .ok w =>
      match (mgr.wrappers w).acceptedConnMap msg.sockid with
      | none => none
      | some i =>
        ((mgr.setState i .established).ntsShmTrySend sent (mgr.wrappers w).ntsShmConn
          (ntsClientSynAck msg.sockid)).map fun mgr => (mgr, [])

def destroyClientNtSocketConn (i c boundPort : ℕ) : NtmManager :=
  let sockid := NtSockContext.sockid i
  let mgr := mgr.setPortSock boundPort none
  let mgr := { mgr with ntPortCtx := mgr.ntPortCtx.freePort boundPort }
  let mgr :=
    if (mgr.socket i).socktype = ntSockPipe then
      match (mgr.shmConns c).listener with
      | some w => mgr.setAccepted w sockid none
      | none => mgr
    else mgr
  let mgr := mgr.setShmConn sockid none
  { mgr with ntSockCtx := mgr.ntSockCtx.freeSocket sockid }

def closeMsg (i : ℕ) : NtsMsg where
  msgId := none
  msgType := .close
  sockid := NtSockContext.sockid i
  retval := none
  ntErrno := none
  port := none

def handleNtFinAckMsg : Option NtmManager :=
  let dport := (ntohs msg.dport).toNat
  match mgr.portSockMap dport with
  | none => some mgr
  | some i =>
    let mgr := mgr.setState i .waitClose
    match mgr.ntsShmConnMap (NtSockContext.sockid i) with
    | none => some mgr
    | some c =>
      (mgr.ntsShmSend c (closeMsg i)).map fun mgr =>
        (mgr.setState i .closed).destroyClientNtSocketConn i c dport

end NtmManager

structure Tcp where
  connects : Bool
  clientSock : ℕ
  sends : Bool
  deriving DecidableEq, Repr

namespace NtmManager

variable (tcp : Tcp) (mgr : NtmManager) (msg : NtmMsg)

def connectResponse (ntErrno : Option NtErrno) (port : Option ℤ) : NtsMsg where
  msgId := some msg.msgId
  msgType := .dispatched
  sockid := msg.sockid
  retval := some (if ntErrno.isSome then -1 else 0)
  ntErrno := ntErrno
  port := port

def connectFail (i : ℕ) (port : Option ℕ) : NtmManager :=
  if (mgr.socket i).state = .closed then
    match port with
    | some p =>
      let mgr := mgr.modifySocket i fun socket =>
        let saddr := socket.saddr
        { socket with saddr := { saddr with sinPort := htons 0 } }
      { mgr with ntPortCtx := mgr.ntPortCtx.freePort (NtPortContext.portId p).toNat }
    | none => mgr
  else mgr

def remoteMonitor (c : ℕ) : Option (NtmConn × NtmManager) :=
  let ip := (mgr.shmConns c).ip
  match mgr.connMap ip with
  | some conn => some (conn, mgr)
  | none =>
    if tcp.connects then
      let conn : NtmConn := { ip := ip, clientSock := tcp.clientSock }
      let mgr := { mgr with connMap := Function.update mgr.connMap ip (some conn) }
      some (conn, mgr.modifyShmConn c fun record => { record with ntmConn := some conn })
    else none

/-- The variable `port`, which stays unassigned for a bound socket. -/
def allocateSourcePort (i : ℕ) : Option (Option ℕ × NtmManager) :=
  if (mgr.socket i).state = .closed then
    match mgr.ntPortCtx.allocatePort with
    | none => none
    | some (p, portCtx) =>
      let mgr := { mgr with ntPortCtx := portCtx }
      let mgr := mgr.modifySocket i fun socket =>
        { socket with
          saddr :=
            { sinFamily := afInet
              sinPort := htons (NtPortContext.portId p)
              sinAddr := mgr.listenIp } }
      some (some p, mgr.setPortSock (NtPortContext.portId p).toNat (some i))
  else some (none, mgr)

def syn (i : ℕ) (ntmConn : NtmConn) : NtmSockMsg where
  srcAddr := (mgr.socket i).saddr.sinAddr
  dstAddr := ntmConn.ip
  sport := (mgr.socket i).saddr.sinPort
  dport := htons (UInt16.ofInt msg.port)
  sockid := 0
  type := .ntSyn
  partitionId := 0

def cacheServer (c : ℕ) : NtmManager :=
  mgr.modifyShmConn c fun conn =>
    { conn with port := msg.port, addrlen := msg.addrlen, ip := msg.address }

/-- Refuses a request before a port is allocated, when `port` is not initialised. -/
def connectRefuse (c : ℕ) (uninitialised : Option ℕ) (ntErrno : NtErrno) :
    Option (NtmManager × List NtmSockMsg) :=
  (mgr.ntsShmSend c (connectResponse msg (some ntErrno) none)).map fun mgr =>
    (mgr.connectFail (mgr.shmConns c).socket uninitialised, [])

/-- The request for a socket without a record ends in a null pointer access. -/
def handleMsgNtsConnect (uninitialised : Option ℕ) : Option (NtmManager × List NtmSockMsg) :=
  match mgr.ntsShmConnMap msg.sockid with
  | none => none
  | some c =>
    let i := (mgr.shmConns c).socket
    if (mgr.socket i).state ≠ .closed ∧ (mgr.socket i).state ≠ .bound then
      mgr.connectRefuse msg c uninitialised .requireClosedOrBoundFirst
    else if msg.addrlen ≤ 0 then mgr.connectRefuse msg c uninitialised .invalidIp
    else if msg.port < 0 then mgr.connectRefuse msg c uninitialised .invalidPort
    else
      let mgr := mgr.cacheServer msg c
      match mgr.remoteMonitor tcp c with
      | none =>
        (mgr.ntsShmSend c (connectResponse msg (some .remoteNtmNotFound) none)).map
          fun mgr => (mgr, [])
      | some (ntmConn, mgr) =>
        match mgr.allocateSourcePort i with
        | none => none
        | some (port, mgr) =>
          let syn := mgr.syn msg i ntmConn
          if tcp.sends then
            (mgr.ntsShmSend c (connectResponse msg none (some (ntohs syn.sport).toNat))).map
              fun mgr => (mgr, [syn])
          else some (mgr.connectFail i port, [])

end NtmManager

end NtSocks.Ntm
