import Mathlib.Data.List.AList
import NtSocks.MonitorNet

/-!
# The epoll control path

A request of the library about an epoll instance goes to the monitor, which asks the proxy of its
host for its part, waits for the answer, and then responds on the channel of the instance. In the
proxy one thread serves these requests, and it ends at the first one that fails. A response is a
call of `epoll_shm_send` here; what the ring of the channel makes of it is left to `EpollShm`.
-/

namespace NtSocks

open Function

inductive EpollOp
  | add
  | mod
  | del
  deriving DecidableEq, Repr

def EpollOp.ofCode (code : ℤ) : Option EpollOp :=
  if code = 1 then some .add
  else if code = 2 then some .del
  else if code = 3 then some .mod
  else none

structure NtsEpollEvent where
  data : UInt64
  events : UInt32
  deriving DecidableEq, Repr

/-- A request to the proxy to register a connection or to change that. The ports are in network
order, and only `add` has them. -/
inductive NtpEpollCtl
  | add (srcPort dstPort : UInt16) (event : NtsEpollEvent)
  | mod (event : NtsEpollEvent)
  | del
  deriving DecidableEq, Repr

inductive NtpEpollMsg
  | create (sockid : ℤ)
  | ctl (epid sockid : ℤ) (ctl : NtpEpollCtl)
  | close (epid : ℤ)
  deriving DecidableEq, Repr

abbrev EpConnMap := AList fun _ : ℤ => ConnPtr

/-- What the proxy keeps about epoll instances. The field `epoll_ctx` of a connection is given by
the id of the instance. -/
structure NtpEpoll where
  conns : ConnPtr → NtbConn
  epData : ConnPtr → UInt64
  connCtx : ConnPtr → Option ℤ
  epollCtxMap : ℤ → Option EpConnMap

def intOf (x : UInt32) : ℤ := x.toBitVec.toInt

namespace NtpEpoll

variable (s : NtpEpoll) (port2conn : Port2Conn)

def setCtx (epid : ℤ) (connMap : Option EpConnMap) : NtpEpoll :=
  { s with epollCtxMap := update s.epollCtxMap epid connMap }

def setConn (k : ConnPtr) (event : NtsEpollEvent) : NtpEpoll :=
  { s with
    conns := update s.conns k { s.conns k with epoll := event.events }
    epData := update s.epData k event.data }

def addConn (epid sockid : ℤ) (connMap : EpConnMap) (k : ConnPtr) : NtpEpoll :=
  let s := { s with
    conns := update s.conns k { s.conns k with sockid := UInt32.ofInt sockid }
    connCtx := update s.connCtx k (some epid) }
  s.setCtx epid (some (connMap.insert (intOf (s.conns k).sockid) k))

/-- A deleted connection keeps its `epoll_ctx`. -/
def delConn (epid : ℤ) (connMap : EpConnMap) (k : ConnPtr) : NtpEpoll :=
  let s := { s with conns := update s.conns k { s.conns k with epoll := 0 } }
  s.setCtx epid (some (connMap.erase (intOf (s.conns k).sockid)))

def forgetConn (k : ConnPtr) : NtpEpoll :=
  { s with
    conns := update s.conns k { s.conns k with epoll := 0 }
    connCtx := update s.connCtx k none }

/-- The proxy fails to create an instance where it cannot open the event queue. -/
def handleEpollCreateMsg (queueInit : Bool) (sockid : ℤ) : ℤ × NtpEpoll :=
  if queueInit then (0, s.setCtx sockid (some ∅)) else (-1, s)

def handleEpollCtlMsg (epid sockid : ℤ) (ctl : NtpEpollCtl) : ℤ × NtpEpoll :=
  match s.epollCtxMap epid with
  | none => (-1, s)
  | some connMap =>
    match ctl with
    | .add srcPort dstPort event =>
      match port2conn (createConnId (ntohs srcPort) (ntohs dstPort)) with
      | none => (-1, s)
      | some k => (0, (s.addConn epid sockid connMap k).setConn k event)
    | .mod event =>
      match connMap.lookup sockid with
      | none => (-1, s)
      | some k => (0, s.setConn k event)
    | .del =>
      match connMap.lookup sockid with
      | none => (-1, s)
      | some k => (0, s.delConn epid connMap k)

def handleEpollCloseMsg (epid : ℤ) : ℤ × NtpEpoll :=
  match s.epollCtxMap epid with
  | none => (-1, s)
  | some connMap =>
    (0, (connMap.entries.foldl (fun s entry => s.forgetConn entry.2) s).setCtx epid none)

/-- The value that is returned and the one in the response are the same. -/
def ntpHandleEpollMsg (queueInit : Bool) : NtpEpollMsg → ℤ × NtpEpoll
  | .create sockid => s.handleEpollCreateMsg queueInit sockid
  | .ctl epid sockid ctl => s.handleEpollCtlMsg port2conn epid sockid ctl
  | .close epid => s.handleEpollCloseMsg epid

end NtpEpoll

namespace Ntm

def ntSockEpoll : ℤ := 5

/-- An epoll instance of the monitor: its socket, the name of its channel, and the listeners that
are registered with it. A failed close frees the map and leaves the instance behind. -/
structure EpollContext where
  socket : ℕ
  epollShmaddr : String
  epSocketMap : Option (AList fun _ : ℤ => ℕ)

/-- What the monitor keeps about epoll instances: the instances, the field `ep_data` of its sockets
and the field `epoll_ctx` of the records of sockets. -/
structure EpollManager where
  epollCtxMap : ℤ → Option EpollContext
  epData : ℕ → UInt64
  shmConnCtx : ℕ → Option ℤ

structure EpollHost where
  ntm : NtmManager
  link : NtbLinkCustom
  epollMgr : EpollManager
  ntp : NtpEpoll
  /-- The thread `ntp_epoll_listen_thread` has not ended. -/
  serving : Bool

structure EpollCreateMsg where
  msgId : UInt64
  shmAddrlen : ℤ
  shmName : String
  sockType : ℤ
  ioQueueSize : ℤ
  deriving DecidableEq, Repr

structure EpollCtlMsg where
  msgId : UInt64
  sockid : ℤ
  sockType : ℤ
  epid : ℤ
  epollOp : ℤ
  event : NtsEpollEvent
  deriving DecidableEq, Repr

structure EpollCloseMsg where
  msgId : UInt64
  epid : ℤ
  sockType : ℤ
  deriving DecidableEq, Repr

structure EpollResources where
  shmConnect : Bool
  queueCreate : Bool
  queueInit : Bool
  deriving DecidableEq, Repr

inductive EpollRequest
  | create (res : EpollResources) (msg : EpollCreateMsg)
  | ctl (msg : EpollCtlMsg)
  | close (msg : EpollCloseMsg)
  deriving DecidableEq, Repr

inductive EpollMsgType
  | create
  | ctl
  | close
  deriving DecidableEq, Repr

inductive EpollErrno
  | eexist
  | enoent
  deriving DecidableEq, Repr

/-- A response to the library. A field that the monitor leaves unassigned is `none`. -/
structure EpollMsg where
  id : UInt64
  msgType : EpollMsgType
  retval : ℤ
  ntErrno : Option EpollErrno
  sockid : Option ℤ
  epid : Option ℤ
  epollOp : Option ℤ
  shmName : Option String
  deriving DecidableEq, Repr

inductive CtlPath
  | dropped
  | refused (ctx : EpollContext) (ntErrno : EpollErrno)
  | accepted (op : EpollOp) (ctx : EpollContext) (c : ℕ)

def ctlErrno (epoll : UInt32) : EpollOp → Option EpollErrno
  | .add => if epoll ≠ 0 then some .eexist else none
  | .mod | .del => if epoll = 0 then some .enoent else none

def ioQueueShmaddr (sockid : ℕ) : String := "epoll-io-queue-" ++ toString sockid

def createResponse (msg : EpollCreateMsg) (i : ℕ) : EpollMsg where
  id := msg.msgId
  msgType := .create
  retval := 0
  ntErrno := none
  sockid := some (NtSockContext.sockid i)
  epid := none
  epollOp := none
  shmName := some (ioQueueShmaddr (NtSockContext.sockid i))

def ctlResponse (msg : EpollCtlMsg) (ntErrno : Option EpollErrno) : EpollMsg where
  id := msg.msgId
  msgType := .ctl
  retval := if ntErrno.isSome then -1 else 0
  ntErrno := ntErrno
  sockid := none
  epid := none
  epollOp := some msg.epollOp
  shmName := none

def closeResponse (msg : EpollCloseMsg) : EpollMsg where
  id := msg.msgId
  msgType := .close
  retval := 0
  ntErrno := none
  sockid := none
  epid := some msg.epid
  epollOp := none
  shmName := none

namespace EpollHost

variable (h : EpollHost)

/-- Sends a request to the proxy and waits for the answer, for ever if nobody serves it. The thread
of the proxy ends when the request fails. -/
def ask (queueInit : Bool) (msg : NtpEpollMsg) : Option (ℤ × EpollHost) :=
  if h.serving then
    let (rc, ntp) := h.ntp.ntpHandleEpollMsg h.link.port2conn queueInit msg
    some (rc, { h with ntp := ntp, serving := decide (rc = 0) })
  else none

def setCtx (epid : ℤ) (ctx : Option EpollContext) : EpollHost :=
  { h with epollMgr :=
      { h.epollMgr with epollCtxMap := update h.epollMgr.epollCtxMap epid ctx } }

def withSockCtx (sockCtx : NtSockContext) : EpollHost :=
  { h with ntm := { h.ntm with ntSockCtx := sockCtx } }

def freeEpollSocket (i : ℕ) : EpollHost :=
  h.withSockCtx (h.ntm.ntSockCtx.freeSocket (NtSockContext.sockid i))

/-- `epoll_shm_connect` asserts that the channel has a name. The id of a message is unsigned, so
that the check for a negative one never applies, here and in the other handlers. -/
def handleMsgNtsEpollCreate (res : EpollResources) (msg : EpollCreateMsg) :
    Option (EpollHost × List (String × EpollMsg)) :=
  if msg.shmAddrlen < 0 ∨ msg.ioQueueSize < 0 ∨ msg.sockType ≠ ntSockEpoll then some (h, [])
  else
    match h.ntm.ntSockCtx.allocateSocket msg.sockType with
    | none => none
    | some (i, sockCtx) =>
      let h := h.withSockCtx sockCtx
      if msg.shmAddrlen = 0 then none
      else if res.shmConnect = false ∨ res.queueCreate = false then
        some (h.freeEpollSocket i, [])
      else
        match h.ask res.queueInit (.create (NtSockContext.sockid i)) with
        | none => none
        | some (rc, h) =>
          if rc ≠ 0 then some (h.freeEpollSocket i, [])
          else
            let ctx : EpollContext :=
              { socket := i, epollShmaddr := msg.shmName, epSocketMap := some ∅ }
            let h := h.setCtx (NtSockContext.sockid i) (some ctx)
            some ({ h with ntm := h.ntm.setState i .closed }, [(msg.shmName, createResponse msg i)])

def ctlPath (msg : EpollCtlMsg) : CtlPath :=
  if msg.sockid < 0 ∨ msg.epid < 0 then .dropped
  else if msg.sockType = ntSockUnused ∨ msg.sockType = ntSockEpoll then .dropped
  else
    match EpollOp.ofCode msg.epollOp with
    | none => .dropped
    | some op =>
      match h.epollMgr.epollCtxMap msg.epid with
      | none => .dropped
      | some ctx =>
        match h.ntm.ntsShmConnMap msg.sockid with
        | none => .dropped
        | some c =>
          match ctlErrno (h.ntm.socket (h.ntm.shmConns c).socket).epoll op with
          | some ntErrno => .refused ctx ntErrno
          | none => .accepted op ctx c

def setEpoll (i : ℕ) (op : EpollOp) (event : NtsEpollEvent) : EpollHost :=
  match op with
  | .add | .mod =>
    { h with
      ntm := h.ntm.modifySocket i fun socket => { socket with epoll := event.events }
      epollMgr :=
        { h.epollMgr with epData := update h.epollMgr.epData i event.data } }
  | .del => { h with ntm := h.ntm.modifySocket i fun socket => { socket with epoll := 0 } }

def setListener (op : EpollOp) (epid : ℤ) (ctx : EpollContext) (map : AList fun _ : ℤ => ℕ)
    (c i : ℕ) : EpollHost :=
  let setMap (map : AList fun _ : ℤ => ℕ) (epollCtx : Option ℤ) : EpollHost :=
    let h := h.setCtx epid (some { ctx with epSocketMap := some map })
    { h with epollMgr :=
        { h.epollMgr with shmConnCtx := update h.epollMgr.shmConnCtx c epollCtx } }
  match op with
  | .add => setMap (map.insert (NtSockContext.sockid i) i) (some epid)
  | .mod => h
  | .del => setMap (map.erase (NtSockContext.sockid i)) none

def ntpCtl (op : EpollOp) (c : ℕ) (event : NtsEpollEvent) : NtpEpollCtl :=
  match op with
  | .add =>
    .add (h.ntm.socket (h.ntm.shmConns c).socket).saddr.sinPort
      (h.ntm.shmConns c).peerSinPort.toUInt16 event
  | .mod => .mod event
  | .del => .del

/-- The response for a listener goes out before the map is changed; a map that was freed ends in a
null pointer access. -/
def handleMsgNtsEpollCtl (msg : EpollCtlMsg) : Option (EpollHost × List (String × EpollMsg)) :=
  match h.ctlPath msg with
  | .dropped => some (h, [])
  | .refused ctx ntErrno => some (h, [(ctx.epollShmaddr, ctlResponse msg (some ntErrno))])
  | .accepted op ctx c =>
    let i := (h.ntm.shmConns c).socket
    let h := h.setEpoll i op msg.event
    if (h.ntm.socket i).socktype = ntSockListener then
      ctx.epSocketMap.map fun map =>
        (h.setListener op msg.epid ctx map c i, [(ctx.epollShmaddr, ctlResponse msg none)])
    else
      match h.ask true (.ctl msg.epid msg.sockid (h.ntpCtl op c msg.event)) with
      | none => none
      | some (rc, h) =>
        if rc ≠ 0 then some (h, []) else some (h, [(ctx.epollShmaddr, ctlResponse msg none)])

def forgetListeners (map : AList fun _ : ℤ => ℕ) : EpollHost :=
  let forget (ntm : NtmManager) (i : ℕ) : NtmManager :=
    ntm.modifySocket i fun socket => { socket with epoll := 0 }
  { h with ntm := map.entries.foldl (fun ntm entry => forget ntm entry.2) h.ntm }

def handleMsgNtsEpollClose (msg : EpollCloseMsg) : Option (EpollHost × List (String × EpollMsg)) :=
  if msg.epid < 0 ∨ msg.sockType ≠ ntSockEpoll then some (h, [])
  else
    match h.epollMgr.epollCtxMap msg.epid with
    | none => some (h, [])
    | some ctx =>
      match ctx.epSocketMap with
      | none => none
      | some map =>
        let h := h.forgetListeners map
        let h := h.setCtx msg.epid (some { ctx with epSocketMap := none })
        match h.ask true (.close msg.epid) with
        | none => none
        | some (rc, h) =>
          if rc ≠ 0 then some (h, [])
          else
            some ((h.setCtx (NtSockContext.sockid ctx.socket) none).freeEpollSocket
              ctx.socket, [(ctx.epollShmaddr, closeResponse msg)])

def handle : EpollRequest → Option (EpollHost × List (String × EpollMsg))
  | .create res msg => h.handleMsgNtsEpollCreate res msg
  | .ctl msg => h.handleMsgNtsEpollCtl msg
  | .close msg => h.handleMsgNtsEpollClose msg

def step (request : EpollRequest) : Option EpollHost := (h.handle request).map Prod.fst

end EpollHost

end Ntm

end NtSocks
