import NtSocks.Lib.Tailq

/-!
# Sockets of the monitor

The monitor hands out sockets from a table whose free entries are linked in a tail queue. A pointer
to a socket is the index of its entry. Sockets that wait for `accept` are copied into a backlog, a
ring in memory shared with the library.
-/

namespace NtSocks.Ntm

open Function

def ntSockUnused : ℤ := 1

def ntSockListener : ℤ := 4

def ntSockPipe : ℤ := 6

inductive SocketState
  | closed
  | bound
  | listening
  | waitClient
  | waitDispatch
  | waitServer
  | established
  | waitEstablished
  | waitClose
  deriving DecidableEq, Repr

structure SockaddrIn where
  sinFamily : UInt16
  sinPort : UInt16
  sinAddr : UInt32
  deriving DecidableEq, Repr

def SockaddrIn.zero : SockaddrIn where
  sinFamily := 0
  sinPort := 0
  sinAddr := 0

def afInet : UInt16 := 2

structure NtSocket where
  socktype : ℤ
  opts : UInt32
  state : SocketState
  saddr : SockaddrIn
  epoll : UInt32
  deriving DecidableEq, Repr

structure NtSockContext where
  ntsock : ℕ → NtSocket
  freeNtsock : Tailq ℕ

namespace NtSockContext

def sockid (i : ℕ) : ℕ := i + 1

/-- The state of a new entry is the zero of `calloc`, which is no enumerator;
`allocate_socket` sets it before it is read. -/
def initSocketContext (maxConcurrency : ℕ) : NtSockContext where
  ntsock := fun _ =>
    { socktype := ntSockUnused
      opts := 0
      state := .closed
      saddr := .zero
      epoll := 0 }
  freeNtsock := (List.range maxConcurrency).foldl Tailq.insertTail Tailq.init

variable (ctx : NtSockContext)

def modify (i : ℕ) (f : NtSocket → NtSocket) : NtSockContext :=
  { ctx with ntsock := update ctx.ntsock i (f (ctx.ntsock i)) }

/-- `none` when no socket is free: the null pointer is then passed to `TAILQ_REMOVE`. -/
def allocateSocket (socktype : ℤ) : Option (ℕ × NtSockContext) :=
  match ctx.freeNtsock.first with
  | none => none
  | some i =>
    let ctx := { ctx with freeNtsock := ctx.freeNtsock.remove i }
    some (i, ctx.modify i fun socket =>
      { socket with socktype := socktype, state := .closed, opts := 0, saddr := .zero })

/-- `free_socket` takes an id, and uses it as an index. -/
def freeSocket (id : ℕ) : NtSockContext :=
  if (ctx.ntsock id).socktype = ntSockUnused then ctx
  else
    let ctx := ctx.modify id fun socket => { socket with socktype := ntSockUnused }
    { ctx with freeNtsock := ctx.freeNtsock.insertTail id }

@[simp] theorem modify_ntsock_self (i : ℕ) (f : NtSocket → NtSocket) :
    (ctx.modify i f).ntsock i = f (ctx.ntsock i) := update_self i _ ctx.ntsock

theorem modify_ntsock_of_ne {i j : ℕ} (h : j ≠ i) (f : NtSocket → NtSocket) :
    (ctx.modify i f).ntsock j = ctx.ntsock j := update_of_ne h _ ctx.ntsock

variable {ctx}

theorem allocateSocket_some {j : ℕ} (h : ctx.freeNtsock.first = some j) (socktype : ℤ) :
    ∃ ctx', ctx.allocateSocket socktype = some (j, ctx') := by
  rw [allocateSocket, h]
  exact ⟨_, rfl⟩

end NtSockContext

structure NtBacklogSock where
  sockid : ℕ
  socktype : ℤ
  opts : UInt32
  state : SocketState
  sinPort : UInt16
  sinAddr : UInt32
  sinFamily : UInt16
  deriving DecidableEq, Repr

structure NtBacklogContext where
  mask : ℕ
  writeIndex : ℕ
  readIndex : ℕ
  data : ℕ → NtBacklogSock

namespace NtBacklogContext

variable (ring : NtBacklogContext)

def maskIncrement (currentIdx mask : ℕ) : ℕ := (currentIdx + 1) &&& mask

def backlogIsFull : Bool := maskIncrement ring.writeIndex ring.mask == ring.readIndex

def entryOf (sockid : ℕ) (socket : NtSocket) : NtBacklogSock where
  sockid := sockid
  socktype := socket.socktype
  opts := socket.opts
  state := socket.state
  sinPort := socket.saddr.sinPort
  sinAddr := socket.saddr.sinAddr
  sinFamily := socket.saddr.sinFamily

def backlogPush (sockid : ℕ) (socket : NtSocket) : Option NtBacklogContext :=
  if maskIncrement ring.writeIndex ring.mask = ring.readIndex then none
  else some { ring with
    data := update ring.data ring.writeIndex (entryOf sockid socket)
    writeIndex := maskIncrement ring.writeIndex ring.mask }

def backlogPop : Option (NtBacklogSock × NtBacklogContext) :=
  if ring.writeIndex = ring.readIndex then none
  else some (ring.data ring.readIndex,
    { ring with readIndex := maskIncrement ring.readIndex ring.mask })

structure AtHead (pushed : NtBacklogContext) (slot : ℕ) : Prop where
  read : ring.readIndex = slot
  nonempty : ring.writeIndex ≠ slot
  data : ring.data slot = pushed.data slot

variable {ring}

theorem AtHead.backlogPop {old pushed : NtBacklogContext} {id : ℕ} {socket : NtSocket}
    (h : ring.AtHead pushed old.writeIndex) (hpush : old.backlogPush id socket = some pushed) :
    ∃ entry ring', ring.backlogPop = some (entry, ring') ∧ entry.sockid = id ∧
      entry.sinPort = socket.saddr.sinPort := by
  rw [backlogPush] at hpush
  split at hpush
  · cases hpush
  · cases hpush
    have hdata := h.data.trans (update_self _ _ _)
    rw [NtBacklogContext.backlogPop, h.read, if_neg h.nonempty, hdata]
    exact ⟨_, _, rfl, rfl, rfl⟩

end NtBacklogContext

end NtSocks.Ntm
