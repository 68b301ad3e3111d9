import NtSocks.EpollControl

/-!
# The epoll calls of the library

`nts_epoll_ctl` changes the socket of the library, sends a request to the monitor and waits for the
response. `nts_epoll_wait` takes events from the queue of an epoll instance and returns those that
the socket still wants.
-/

namespace NtSocks.Nts

open NtSocks.Ntm (EpollCtlMsg EpollMsg ntSockUnused ntSockEpoll)

/-- A socket of the library; the field `events` is only written to and is left out. -/
structure NtSocket where
  sockid : UInt32
  socktype : ℤ
  epoll : UInt32
  epData : UInt64
  deriving DecidableEq, Repr

structure NtEpollContext where
  socktype : ℤ
  epollShmaddr : String
  epollMsgId : UInt64
  deriving DecidableEq, Repr

structure NtsContext where
  ntSockMap : ℤ → Option NtSocket
  ntEpollMap : ℤ → Option NtEpollContext

def ntsMaxConcurrency : ℤ := 65536

def ntsEpollErrHup : UInt32 := 0x0018

inductive Errno
  | ebadf
  | enoent
  | einval
  | eexist
  | enfile
  deriving DecidableEq, Repr

/-- A call of `nts_epoll_ctl` returns at once, or sends a request. -/
inductive CtlCall
  | returned (retval : ℤ) (errno : Option Errno)
  | sent (lib : NtsContext) (msg : EpollCtlMsg)

namespace NtsContext

variable (lib : NtsContext)

def setSocket (sockid : ℤ) (socket : NtSocket) : NtsContext :=
  { lib with ntSockMap := Function.update lib.ntSockMap sockid (some socket) }

/-- The three operations of `nts_epoll_ctl` up to the request. A request to delete has no event; an
operation that is none of the three is ignored. -/
def ctlSocket (epid op sockid : ℤ) (event : NtsEpollEvent) (ep : NtEpollContext)
    (socket : NtSocket) : CtlCall :=
  let events := event.events ||| ntsEpollErrHup
  let request (socket : NtSocket) (event : NtsEpollEvent) : CtlCall :=
    .sent (lib.setSocket sockid socket)
      { msgId := ep.epollMsgId
        sockid := sockid
        sockType := socket.socktype
        epid := epid
        epollOp := op
        event := event }
  match EpollOp.ofCode op with
  | none => .returned 0 none
  | some .add =>
    if socket.epoll ≠ 0 then .returned (-1) (some .eexist)
    else
      request { socket with epData := event.data, epoll := events }
        { data := event.data, events := events }
  | some .mod =>
    if socket.epoll = 0 then .returned (-1) (some .enoent)
    else
      request { socket with epData := event.data, epoll := events }
        { data := event.data, events := events }
  | some .del =>
    if socket.epoll = 0 then .returned (-1) (some .enoent)
    else request { socket with epoll := 0 } { data := 0, events := 0 }

/-- `nts_epoll_ctl` up to its request. The check of the type of the socket sets no error. -/
def ntsEpollCtl (epid op sockid : ℤ) (event : NtsEpollEvent) : CtlCall :=
  if epid < 0 ∨ ntsMaxConcurrency ≤ epid then .returned (-1) (some .ebadf)
  else if sockid < 0 ∨ ntsMaxConcurrency ≤ sockid then .returned (-1) (some .ebadf)
  else
    match lib.ntEpollMap epid with
    | none => .returned (-1) (some .enoent)
    | some ep =>
      if ep.socktype ≠ ntSockEpoll then .returned (-1) (some .einval)
      else
        match lib.ntSockMap sockid with
        | none => .returned (-1) (some .enoent)
        | some socket =>
          if socket.socktype = ntSockUnused ∨ socket.socktype = ntSockEpoll then
            .returned (-1) none
          else lib.ctlSocket epid op sockid event ep socket

def ntsEpollCtlFinish (epid : ℤ) (msgId : UInt64) (resp : EpollMsg) : ℤ × NtsContext :=
  if msgId ≠ resp.id ∨ resp.retval = -1 then (-1, lib)
  else
    let ep := (lib.ntEpollMap epid).map fun ep => { ep with epollMsgId := ep.epollMsgId + 1 }
    (0, { lib with ntEpollMap := Function.update lib.ntEpollMap epid ep })

def wants (socket : NtSocket) (event : EpollEvent) : Bool :=
  socket.socktype ≠ ntSockUnused ∧ socket.epoll &&& event.events ≠ 0

/-- The event that the inner loop of `nts_epoll_wait` looks at, with the socket it is for and the
events after it. An event of a socket that the library does not have ends in a null pointer access.
For the socket 0 an event is taken out before, and the next one is looked at. -/
def nextEvent : List EpollEvent → Option (NtSocket × EpollEvent × List EpollEvent)
  | [] => none
  | event :: rest =>
    match lib.ntSockMap (intOf event.sockid) with
    | none => none
    | some socket =>
      match if socket.sockid = 0 then rest else event :: rest with
      | [] => none
      | event :: rest => some (socket, event, rest)

/-- The inner loop over the events that were in the queue: the events that are returned and the
queue that is left. The bound of the loop lets one event too many pass. -/
def waitLoop (maxevents : ℤ) : ℕ → ℕ → List EpollEvent → Option (List EpollEvent × List EpollEvent)
  | 0, _, queue => some ([], queue)
  | n + 1, cnt, queue =>
    if maxevents < cnt then some ([], queue)
    else
      match lib.nextEvent queue with
      | none => none
      | some (socket, event, rest) =>
        if wants socket event then
          (waitLoop maxevents n (cnt + 1) rest).map fun (events, queue) =>
            (event :: events, queue)
        else waitLoop maxevents n cnt rest

/-- One pass of the outer loop of `nts_epoll_wait`, which is repeated while nothing was found.
`none` is the value `-1`. -/
def ntsEpollWait (epid maxevents : ℤ) (queue : List EpollEvent) :
    Option (Option (List EpollEvent × List EpollEvent)) :=
  if epid < 0 ∨ ntsMaxConcurrency ≤ epid then some none
  else
    match lib.ntEpollMap epid with
    | none => some none
    | some ep =>
      if ep.socktype ≠ ntSockEpoll ∨ maxevents ≤ 0 then some none
      else (lib.waitLoop maxevents queue.length 0 queue).map some

end NtsContext

end NtSocks.Nts
