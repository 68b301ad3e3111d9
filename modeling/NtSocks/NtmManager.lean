import NtSocks.NtmMsg
import NtSocks.NtPort
import NtSocks.NtSocket
import NtSocks.NtpRecv

/-!
# The tables of the monitor

The hash maps are finite maps keyed by numbers. A pointer to a socket is its index in the table of
sockets; records that the monitor allocates on the heap are kept in tables of their own and a
pointer to one is its index there.
-/

namespace NtSocks.Ntm

open Function

structure NtmConn where
  ip : UInt32
  clientSock : ℕ
  deriving DecidableEq, Repr

/-- What the monitor keeps for a socket of the library; `ntsShmCtx` is the ring to the library,
oldest message first. -/
structure NtsShmConn where
  sockid : ℕ
  socket : ℕ
  peerSinPort : UInt32
  peerSinAddr : UInt32
  port : ℤ
  addrlen : ℤ
  ip : UInt32
  ntsShmCtx : Option (List NtsMsg)
  listener : Option ℕ
  ntmConn : Option NtmConn

structure NtListenerWrapper where
  socket : ℕ
  backlogCtx : NtBacklogContext
  acceptedConnMap : ℤ → Option ℕ
  ntsShmConn : ℕ

/-- `shmConns` and `wrappers` are the heap records; `nextShmConn` is where the next record of a
socket goes. `epIoQueue` lists the events pushed for the epoll instance of a record. -/
structure NtmManager where
  listenIp : UInt32
  ntSockCtx : NtSockContext
  ntPortCtx : NtPortContext
  portSockMap : ℕ → Option ℕ
  ntsShmConnMap : ℤ → Option ℕ
  shmConns : ℕ → NtsShmConn
  nextShmConn : ℕ
  listenerMap : ℕ → Option ℕ
  wrappers : ℕ → NtListenerWrapper
  connMap : UInt32 → Option NtmConn
  epIoQueue : List (ℕ × EpollEvent)

namespace NtmManager

variable (mgr : NtmManager)

def socket (i : ℕ) : NtSocket := mgr.ntSockCtx.ntsock i

def modifySocket (i : ℕ) (f : NtSocket → NtSocket) : NtmManager :=
  { mgr with ntSockCtx := mgr.ntSockCtx.modify i f }

def setState (i : ℕ) (state : SocketState) : NtmManager :=
  mgr.modifySocket i fun socket => { socket with state := state }

def modifyShmConn (c : ℕ) (f : NtsShmConn → NtsShmConn) : NtmManager :=
  { mgr with shmConns := update mgr.shmConns c (f (mgr.shmConns c)) }

def modifyWrapper (w : ℕ) (f : NtListenerWrapper → NtListenerWrapper) : NtmManager :=
  { mgr with wrappers := update mgr.wrappers w (f (mgr.wrappers w)) }

def setPortSock (port : ℕ) (socket : Option ℕ) : NtmManager :=
  { mgr with portSockMap := update mgr.portSockMap port socket }

def setShmConn (sockid : ℤ) (c : Option ℕ) : NtmManager :=
  { mgr with ntsShmConnMap := update mgr.ntsShmConnMap sockid c }

def setAccepted (w : ℕ) (sockid : ℤ) (socket : Option ℕ) : NtmManager :=
  mgr.modifyWrapper w fun wrapper =>
    { wrapper with acceptedConnMap := update wrapper.acceptedConnMap sockid socket }

def setRing (c : ℕ) (ring : List NtsMsg) : NtmManager :=
  mgr.modifyShmConn c fun conn => { conn with ntsShmCtx := some ring }

/-- `none` when the record has no ring yet: the send fails an assertion. -/
def ntsShmSend (c : ℕ) (msg : NtsMsg) : Option NtmManager :=
  (mgr.shmConns c).ntsShmCtx.map fun ring => mgr.setRing c (ring ++ [msg])

/-- The same where the ring may be full; `sent` says that it has room. -/
def ntsShmTrySend (sent : Bool) (c : ℕ) (msg : NtsMsg) : Option NtmManager :=
  if sent then mgr.ntsShmSend c msg else (mgr.shmConns c).ntsShmCtx.map fun _ => mgr

def newShmConn (conn : NtsShmConn) : NtmManager :=
  { mgr with
    shmConns := update mgr.shmConns mgr.nextShmConn conn
    nextShmConn := mgr.nextShmConn + 1
    ntsShmConnMap := update mgr.ntsShmConnMap conn.sockid (some mgr.nextShmConn) }

@[simp] theorem modifyShmConn_self (c : ℕ) (f : NtsShmConn → NtsShmConn) :
    (mgr.modifyShmConn c f).shmConns c = f (mgr.shmConns c) := update_self c _ mgr.shmConns

theorem modifyShmConn_of_ne {c c' : ℕ} (h : c' ≠ c) (f : NtsShmConn → NtsShmConn) :
    (mgr.modifyShmConn c f).shmConns c' = mgr.shmConns c' := update_of_ne h _ mgr.shmConns

theorem modifyShmConn_field {β : Type*} (g : NtsShmConn → β) {f : NtsShmConn → NtsShmConn}
    (hf : ∀ conn, g (f conn) = g conn) (c d : ℕ) :
    g ((mgr.modifyShmConn c f).shmConns d) = g (mgr.shmConns d) := by
  by_cases hd : d = c
  · rw [hd, modifyShmConn_self, hf]
  · rw [mgr.modifyShmConn_of_ne hd]

@[simp] theorem setRing_ntsShmCtx (c : ℕ) (ring : List NtsMsg) :
    ((mgr.setRing c ring).shmConns c).ntsShmCtx = some ring := by
  rw [setRing, modifyShmConn_self]

@[simp] theorem modifySocket_self (i : ℕ) (f : NtSocket → NtSocket) :
    (mgr.modifySocket i f).socket i = f (mgr.socket i) := mgr.ntSockCtx.modify_ntsock_self i f

theorem modifySocket_of_ne {i j : ℕ} (h : j ≠ i) (f : NtSocket → NtSocket) :
    (mgr.modifySocket i f).socket j = mgr.socket j := mgr.ntSockCtx.modify_ntsock_of_ne h f

@[simp] theorem modifyWrapper_self (w : ℕ) (f : NtListenerWrapper → NtListenerWrapper) :
    (mgr.modifyWrapper w f).wrappers w = f (mgr.wrappers w) := update_self w _ mgr.wrappers

end NtmManager

end NtSocks.Ntm
