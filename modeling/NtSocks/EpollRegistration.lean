import NtSocks.EpollService
import NtSocks.IntKeys
import NtSocks.MessageRoundTrip
import NtSocks.NtsEpoll

/-!
# Registering a connection with an epoll instance

`nts_epoll_ctl` on a connected socket is to reach the connection of that socket in the proxy. The
monitor names the connection by the port in the address of the socket and the port of the peer. For
a socket that connected these are the ports of the connection; an accepted socket has a port of its
own, while its connection has the port of the listener. The table `port2conn` of the proxy takes ids
that agree in front of a zero byte for the same key.
-/

namespace NtSocks

theorem htons_ntohs (x : UInt16) : htons (ntohs x) = x := ntohs_htons x

namespace Ntm

open NtSocks.Ntm.NtSockContext (sockid)
open NtSocks.Nts (NtsContext ntsMaxConcurrency)

/-- What the handlers of other messages leave alone of an end of a connection: the record `c` and
the socket `i` in the monitor, and the id of the connection in the proxy. -/
structure KeepsEnd (h h' : Host) (c i : ℕ) (conn : ConnPtr) : Prop where
  record : h'.ntm.ntsShmConnMap (sockid i) = h.ntm.ntsShmConnMap (sockid i)
  socket : (h'.ntm.shmConns c).socket = (h.ntm.shmConns c).socket
  peer : (h'.ntm.shmConns c).peerSinPort = (h.ntm.shmConns c).peerSinPort
  saddr : (h'.ntm.socket i).saddr = (h.ntm.socket i).saddr
  socktype : (h'.ntm.socket i).socktype = (h.ntm.socket i).socktype
  connId : (h'.ntp.conns conn).connId = (h.ntp.conns conn).connId

/-- The socket `i` with the record `c` is an end of the connection `conn`, which the proxy of the
host has created for the ports `ownPort` and `peerPort`. An accepted socket gets there when `NT_SYN`
is handled, a connecting one, which is entered under its port, when `NT_SYN_ACK` is. -/
inductive HandshakeEnd : Role → Host → ℕ → ℕ → UInt16 → UInt16 → ConnPtr → Prop
  | accepted {h h' : Host} {shmAccept : String → Bool} {ntmConn : NtmConn} {msg ack : NtmSockMsg}
      {j : ℕ} (hsyn : h.handleNtSynMsg shmAccept ntmConn msg = some (h', [ack]))
      (hack : ack.type = .ntSynAck) (hsockid : ack.sockid = sockid j) :
      HandshakeEnd .accepting h' h.ntm.nextShmConn j (ntohs msg.dport) (ntohs msg.sport)
        h.ntp.nextConn
  | connected {h h' : Host} {shmAccept : String → Bool} {msg : NtmSockMsg} {c i : ℕ}
      (htables : SocketTables h.ntm c i (ntohs msg.dport))
      (hsynAck : h.handleNtSynAckMsg shmAccept msg = some (h', [NtmManager.clientSynAck msg])) :
      HandshakeEnd .connecting h' c i (ntohs msg.dport) (ntohs msg.sport) h.ntp.nextConn
  | later {role : Role} {h h' : Host} {c i : ℕ} {ownPort peerPort : UInt16} {conn : ConnPtr}
      (hend : HandshakeEnd role h c i ownPort peerPort conn) (hkeeps : KeepsEnd h h' c i conn) :
      HandshakeEnd role h' c i ownPort peerPort conn

structure EndTables (role : Role) (h : Host) (c i : ℕ) (ownPort peerPort : UInt16)
    (conn : ConnPtr) : Prop where
  record : h.ntm.ntsShmConnMap (sockid i) = some c
  socket : (h.ntm.shmConns c).socket = i
  peer : (h.ntm.shmConns c).peerSinPort = (htons peerPort).toUInt32
  connId : (h.ntp.conns conn).connId = createConnId ownPort peerPort
  port : role = .connecting → (h.ntm.socket i).saddr.sinPort = htons ownPort
  socktype : role = .accepting → (h.ntm.socket i).socktype = ntSockPipe

variable {shmAccept : String → Bool} {h : Host}

theorem accepted_tables {h' : Host} {ntmConn : NtmConn} {msg ack : NtmSockMsg} {j : ℕ}
    (hsyn : h.handleNtSynMsg shmAccept ntmConn msg = some (h', [ack])) (hack : ack.type = .ntSynAck)
    (hsockid : ack.sockid = sockid j) :
    EndTables .accepting h' h.ntm.nextShmConn j (ntohs msg.dport) (ntohs msg.sport)
      h.ntp.nextConn := by
  rcases Host.handleNtSynMsg_cases hsyn with
    ⟨type, hfind, -, hout⟩ | ⟨pending, reply, -, hreply, haccepted, hout⟩
  · cases List.singleton_inj.mp hout
    exact absurd hack (NtmManager.findBacklog_refuses hfind)
  · cases List.singleton_inj.mp hout
    obtain ⟨partition, hentry⟩ := NtbLinkCustom.ntpCreateConnHandler_conns hreply
    obtain rfl : pending.socket = j := by
      have heq : (sockid pending.socket : ℤ) = sockid j := hsockid
      rw [sockid, sockid] at heq
      omega
    have htables := haccepted.tables
    refine ⟨htables.tables.record, htables.tables.socket, ?_, ?_, fun hrole => ?_,
      fun _ => haccepted.socktype⟩
    · rw [htables.peer, htons_ntohs]
    · rw [hentry]
      simp only [createConnRequest, UInt16.toUInt16_toUInt64]
      rfl
    · cases hrole

theorem connected_tables {h' : Host} {msg : NtmSockMsg} {c i : ℕ}
    (htables : SocketTables h.ntm c i (ntohs msg.dport))
    (hsynAck : h.handleNtSynAckMsg shmAccept msg = some (h', [NtmManager.clientSynAck msg])) :
    EndTables .connecting h' c i (ntohs msg.dport) (ntohs msg.sport) h.ntp.nextConn := by
  rcases Host.handleNtSynAckMsg_cases hsynAck with ⟨-, -, hout⟩ | ⟨i', reply, hport, hreply,
    hentered, -⟩
  · cases hout
  · obtain rfl : i = i' := Option.some.inj (htables.portSock.symm.trans hport)
    obtain ⟨partition, hentry⟩ := NtbLinkCustom.ntpCreateConnHandler_conns hreply
    obtain ⟨ring, -, hconn⟩ := hentered.conn c htables.record
    have htables' := (hentered.keepsTables c).socketTables htables
    refine ⟨htables'.record, htables'.socket, by rw [hconn, htons_ntohs], ?_,
      fun _ => htables'.sinPort, fun hrole => ?_⟩
    · rw [hentry]
      simp only [createConnRequest, UInt16.toUInt16_toUInt64]
      rfl
    · cases hrole

theorem HandshakeEnd.tables {role : Role} {c i : ℕ} {ownPort peerPort : UInt16} {conn : ConnPtr}
    (hend : HandshakeEnd role h c i ownPort peerPort conn) :
    EndTables role h c i ownPort peerPort conn := by
  induction hend with
  | accepted hsyn hack hsockid => exact accepted_tables hsyn hack hsockid
  | connected htables hsynAck => exact connected_tables htables hsynAck
  | later _ hkeeps ih =>
    refine ⟨hkeeps.record.trans ih.record, hkeeps.socket.trans ih.socket,
      hkeeps.peer.trans ih.peer, hkeeps.connId.trans ih.connId, ?_, ?_⟩
    · intro hrole
      rw [hkeeps.saddr]
      exact ih.port hrole
    · intro hrole
      rw [hkeeps.socktype]
      exact ih.socktype hrole

namespace EpollHost

variable (h : EpollHost)

def host : Host := { ntm := h.ntm, ntp := h.link }

def ntpRequest (msg : EpollCtlMsg) : Option NtpEpollMsg :=
  match h.ctlPath msg with
  | .accepted op _ c =>
    let i := (h.ntm.shmConns c).socket
    if (h.ntm.socket i).socktype = ntSockListener then none
    else some (.ctl msg.epid msg.sockid (h.ntpCtl op c msg.event))
  | _ => none

variable {h}

end EpollHost

/-- The call to register the socket passes the checks of the library and of the monitor, and for
the ports that the monitor sends the proxy finds `conn` in `port2conn`. -/
def Reaches (lib : NtsContext) (h : EpollHost) (port2conn : Port2Conn) (epid sockid : ℤ)
    (event : NtsEpollEvent) (conn : ConnPtr) : Prop :=
  ∃ lib' msg srcPort dstPort event', lib.ntsEpollCtl epid 1 sockid event = .sent lib' msg ∧
    h.ntpRequest msg = some (.ctl epid sockid (.add srcPort dstPort event')) ∧
    port2conn (createConnId (ntohs srcPort) (ntohs dstPort)) = some conn

structure HasEpoll (lib : NtsContext) (h : EpollHost) (epid : ℤ) : Prop where
  range : 0 ≤ epid ∧ epid < ntsMaxConcurrency
  lib : ∃ ep, lib.ntEpollMap epid = some ep ∧ ep.socktype = ntSockEpoll
  monitor : ∃ ctx, h.epollMgr.epollCtxMap epid = some ctx

structure Registrable (socket : Nts.NtSocket) (id : ℤ) : Prop where
  range : id < ntsMaxConcurrency
  used : socket.socktype ≠ ntSockUnused
  noEpoll : socket.socktype ≠ ntSockEpoll
  free : socket.epoll = 0

section Add

variable {lib : NtsContext} {h : EpollHost} {epid : ℤ} {i : ℕ} {socket : Nts.NtSocket}

theorem ntsEpollCtl_sends (hepoll : HasEpoll lib h epid)
    (hsocket : lib.ntSockMap (sockid i) = some socket) (hvalid : Registrable socket (sockid i))
    (event : NtsEpollEvent) :
    ∃ lib' msg, lib.ntsEpollCtl epid 1 (sockid i) event = .sent lib' msg ∧
      msg.sockid = sockid i ∧ msg.sockType = socket.socktype ∧ msg.epid = epid ∧
      msg.epollOp = 1 := by
  obtain ⟨ep, hep, htype⟩ := hepoll.lib
  have hepid : ¬ (epid < 0 ∨ ntsMaxConcurrency ≤ epid) := by
    have := hepoll.range
    omega
  have hrange : ¬ ((sockid i : ℤ) < 0 ∨ ntsMaxConcurrency ≤ sockid i) := by
    have := hvalid.range
    omega
  have htypes : ¬ (socket.socktype = ntSockUnused ∨ socket.socktype = ntSockEpoll) :=
    not_or.mpr ⟨hvalid.used, hvalid.noEpoll⟩
  have hfree : ¬ socket.epoll ≠ 0 := not_not.mpr hvalid.free
  simp only [NtsContext.ntsEpollCtl, if_neg hepid, if_neg hrange, hep, if_neg (not_not.mpr htype),
    hsocket, if_neg htypes, NtsContext.ctlSocket, EpollOp.ofCode, if_true, if_neg hfree]
  exact ⟨_, _, rfl, rfl, rfl, rfl, rfl⟩

theorem ntsEpollCtl_refuses (hepoll : HasEpoll lib h epid)
    (hsocket : lib.ntSockMap (sockid i) = some socket) (hvalid : ¬ Registrable socket (sockid i))
    (event : NtsEpollEvent) :
    ∃ errno, lib.ntsEpollCtl epid 1 (sockid i) event = .returned (-1) errno := by
  obtain ⟨ep, hep, htype⟩ := hepoll.lib
  have hepid : ¬ (epid < 0 ∨ ntsMaxConcurrency ≤ epid) := by
    have := hepoll.range
    omega
  simp only [NtsContext.ntsEpollCtl, if_neg hepid, hep, if_neg (not_not.mpr htype), hsocket]
  by_cases hrange : (sockid i : ℤ) < 0 ∨ ntsMaxConcurrency ≤ sockid i
  · rw [if_pos hrange]
    exact ⟨_, rfl⟩
  · rw [if_neg hrange]
    by_cases htypes : socket.socktype = ntSockUnused ∨ socket.socktype = ntSockEpoll
    · rw [if_pos htypes]
      exact ⟨_, rfl⟩
    · rw [if_neg htypes]
      by_cases hfree : socket.epoll = 0
      · rw [not_or] at hrange htypes
        exact absurd ⟨not_le.mp hrange.2, htypes.1, htypes.2, hfree⟩ hvalid
      · simp only [NtsContext.ctlSocket, EpollOp.ofCode, if_true, ne_eq, hfree, not_false_eq_true]
        exact ⟨_, rfl⟩

theorem ntpRequest_iff {c : ℕ} {msg : EpollCtlMsg} (hepoll : HasEpoll lib h epid)
    (hvalid : Registrable socket (sockid i)) (hrecord : h.ntm.ntsShmConnMap (sockid i) = some c)
    (hsock : (h.ntm.shmConns c).socket = i) (hmsg : msg.sockid = sockid i)
    (htype : msg.sockType = socket.socktype) (hepid : msg.epid = epid) (hop : msg.epollOp = 1)
    {request : NtpEpollMsg} :
    h.ntpRequest msg = some request ↔
      (h.ntm.socket i).epoll = 0 ∧ (h.ntm.socket i).socktype ≠ ntSockListener ∧
      request = .ctl epid (sockid i) (.add (h.ntm.socket i).saddr.sinPort
        (h.ntm.shmConns c).peerSinPort.toUInt16 msg.event) := by
  obtain ⟨ctx, hctx⟩ := hepoll.monitor
  have hrange : ¬ (msg.sockid < 0 ∨ msg.epid < 0) := by
    have := hepoll.range
    omega
  have htypes : ¬ (msg.sockType = ntSockUnused ∨ msg.sockType = ntSockEpoll) := by
    rw [htype]
    exact not_or.mpr ⟨hvalid.used, hvalid.noEpoll⟩
  rw [← hmsg] at hrecord
  rw [← hepid] at hctx
  have hpath : h.ctlPath msg = if (h.ntm.socket i).epoll ≠ 0 then .refused ctx .eexist
      else .accepted .add ctx c := by
    simp only [EpollHost.ctlPath, if_neg hrange, if_neg htypes, hop, EpollOp.ofCode, if_true, hctx,
      hrecord, hsock, ctlErrno]
    split <;> simp_all
  by_cases hfree : (h.ntm.socket i).epoll = 0
  · rw [if_neg (not_not.mpr hfree)] at hpath
    by_cases hlistener : (h.ntm.socket i).socktype = ntSockListener
    · simp [EpollHost.ntpRequest, hpath, hsock, hlistener]
    · simp only [EpollHost.ntpRequest, hpath, hsock, hlistener, if_false, EpollHost.ntpCtl, hfree,
        hepid, hmsg, Option.some_inj, ne_eq, not_false_eq_true, true_and]
      exact eq_comm
  · rw [if_pos hfree] at hpath
    simp [EpollHost.ntpRequest, hpath, hfree]

end Add

section Sample

open NtSocks.Ntm.Connection (sampleEnd)

def withEpoll (host : Host) : EpollHost :=
  { EpollHost.sampleEpollHost host.ntp with ntm := host.ntm }

def sampleLib (sockid : UInt32) (socktype : ℤ) : NtsContext where
  ntSockMap := fun id =>
    if id = intOf sockid then
      some { sockid := sockid, socktype := socktype, epoll := 0, epData := 0 }
    else none
  ntEpollMap := fun epid =>
    if epid = 4 then some { socktype := ntSockEpoll, epollShmaddr := "ep", epollMsgId := 2 }
    else none

theorem sampleLib_hasEpoll (id : UInt32) (socktype : ℤ) (host : Host) :
    HasEpoll (sampleLib id socktype) (withEpoll host) 4 where
  range := by decide
  lib := ⟨_, rfl, rfl⟩
  monitor := ⟨_, rfl⟩

def sampleEvent : NtsEpollEvent where
  data := 7
  events := ntsEpollin

def sampleSynMsg : NtmSockMsg where
  srcAddr := 7
  dstAddr := 0
  sport := htons 3
  dport := htons 5
  sockid := 0
  type := .ntSyn
  partitionId := 0

def sampleSynAckMsg : NtmSockMsg where
  srcAddr := 0
  dstAddr := 7
  sport := htons 5
  dport := htons 3
  sockid := 3
  type := .ntSynAck
  partitionId := 1

def connectingHost (socktype : ℤ) : Host where
  ntm := (sampleEnd 3 5).modifySocket 0 fun socket => { socket with socktype := socktype }
  ntp := sampleLink

theorem connectingHost_tables (socktype : ℤ) :
    SocketTables (connectingHost socktype).ntm 0 0 (ntohs sampleSynAckMsg.dport) where
  portSock := rfl
  record := rfl
  socket := rfl
  sinPort := rfl

end Sample

end Ntm

end NtSocks
