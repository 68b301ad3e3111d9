import NtSocks.SynHandler

/-!
# The steps of the handshake

What each handler needs of the tables and what it leaves there: the connecting side waits with its
port entered for the socket, the accepting side with the new socket entered for its listener and
standing in the backlog.
-/

namespace NtSocks.Ntm

open Function

open NtPortContext (portId)
open NtSocks.Ntm.NtSockContext (sockid)

/-- The record `c` belongs to a closed socket `i` whose application asks to connect; `p` is the port
that the socket will get. -/
structure ConnectReady (mgr : NtmManager) (tcp : Tcp) (msg : NtmMsg) (c i p : ℕ)
    (ring : List NtsMsg) : Prop where
  record : mgr.ntsShmConnMap msg.sockid = some c
  socket : (mgr.shmConns c).socket = i
  sockid_eq : msg.sockid = sockid i
  closed : (mgr.socket i).state = .closed
  ring_eq : (mgr.shmConns c).ntsShmCtx = some ring
  addrlen : 0 < msg.addrlen
  port : 0 ≤ msg.port
  remote : (mgr.connMap msg.address).isSome ∨ tcp.connects = true
  sends : tcp.sends = true
  freePort : ∃ portCtx, mgr.ntPortCtx.allocatePort = some (p, portCtx)

/-- The port has a listener `w` that accepts; `j` is the socket and `q` the port that the accepted
connection will get. -/
structure ListenReady (mgr : NtmManager) (port : UInt16) (w j q : ℕ) : Prop where
  listener : mgr.listenerMap port.toNat = some w
  listening : (mgr.socket (mgr.wrappers w).socket).state = .listening
  backlog : (mgr.wrappers w).backlogCtx.backlogIsFull = false
  freeSocket : mgr.ntSockCtx.freeNtsock.first = some j
  fresh : j ≠ (mgr.wrappers w).socket
  freePort : ∃ portCtx, mgr.ntPortCtx.allocatePort = some (q, portCtx)
  record : (mgr.wrappers w).ntsShmConn < mgr.nextShmConn
  ring : ∃ ring, (mgr.shmConns (mgr.wrappers w).ntsShmConn).ntsShmCtx = some ring

structure Connecting (mgr : NtmManager) (c i : ℕ) (port : UInt16) (ring : List NtsMsg) : Prop where
  portSock : mgr.portSockMap port.toNat = some i
  record : mgr.ntsShmConnMap (sockid i) = some c
  ring_eq : (mgr.shmConns c).ntsShmCtx = some ring

/-- The accepting side while it waits for the confirmation. The socket stands in the backlog, which
was `ring` before. -/
structure Accepting (mgr : NtmManager) (port : UInt16) (w j q : ℕ) (ring : NtBacklogContext) :
    Prop where
  listener : mgr.listenerMap port.toNat = some w
  listening : (mgr.socket (mgr.wrappers w).socket).state = .listening
  accepted : (mgr.wrappers w).acceptedConnMap (sockid j) = some j
  queued : ∃ socket, socket.saddr.sinPort = htons (portId q) ∧
    ring.backlogPush (sockid j) socket = some (mgr.wrappers w).backlogCtx
  ring_some : ∃ ring, (mgr.shmConns (mgr.wrappers w).ntsShmConn).ntsShmCtx = some ring

structure SocketTables (mgr : NtmManager) (c i : ℕ) (port : UInt16) : Prop where
  portSock : mgr.portSockMap port.toNat = some i
  record : mgr.ntsShmConnMap (sockid i) = some c
  socket : (mgr.shmConns c).socket = i
  sinPort : (mgr.socket i).saddr.sinPort = htons port

structure KeepsTables (mgr mgr' : NtmManager) (c i : ℕ) : Prop where
  ports : mgr'.portSockMap = mgr.portSockMap
  records : mgr'.ntsShmConnMap = mgr.ntsShmConnMap
  socket : (mgr'.shmConns c).socket = (mgr.shmConns c).socket
  saddr : (mgr'.socket i).saddr = (mgr.socket i).saddr

theorem KeepsTables.socketTables {mgr mgr' : NtmManager} {c i : ℕ} {port : UInt16}
    (hkeeps : KeepsTables mgr mgr' c i) (h : SocketTables mgr c i port) :
    SocketTables mgr' c i port where
  portSock := hkeeps.ports ▸ h.portSock
  record := hkeeps.records ▸ h.record
  socket := hkeeps.socket.trans h.socket
  sinPort := by rw [hkeeps.saddr, h.sinPort]

/-- What `NT_SYN` adds to the tables of the accepting side: the socket `j` with the port `q`, and
a new record with the port of the peer. -/
structure AcceptedTables (mgr mgr' : NtmManager) (j q : ℕ) (peerSinPort : UInt16) : Prop where
  tables : SocketTables mgr' mgr.nextShmConn j (portId q)
  peer : (mgr'.shmConns mgr.nextShmConn).peerSinPort = peerSinPort.toUInt32
  ports : mgr'.portSockMap = update mgr.portSockMap (portId q).toNat (some j)
  records : mgr'.ntsShmConnMap = update mgr.ntsShmConnMap (sockid j : ℤ) (some mgr.nextShmConn)

namespace SynAccepted

variable {mgr mgr' : NtmManager} {ntmConn : NtmConn} {msg : NtmSockMsg}

theorem tables {pending : SynPending} (h : SynAccepted mgr mgr' ntmConn msg pending) :
    AcceptedTables mgr mgr' pending.socket pending.port msg.sport where
  tables := ⟨by rw [h.ports, update_self], by rw [h.records, update_self],
    by rw [h.conn]; rfl, h.sinPort⟩
  peer := by rw [h.conn]; rfl
  ports := h.ports
  records := h.records

theorem accepting {port : UInt16} {w j q : ℕ} (h : SynAccepted mgr mgr' ntmConn msg ⟨j, q, w⟩)
    (hready : ListenReady mgr port w j q) :
    Accepting mgr' port w j q (mgr.wrappers w).backlogCtx where
  listener := h.listeners ▸ hready.listener
  listening := by
    rw [h.socket, h.sockets _ hready.fresh.symm]
    exact hready.listening
  accepted := by rw [h.accepted, update_self]
  queued := ⟨_, h.sinPort, h.backlog⟩
  ring_some := by
    rw [h.record, h.conns _ hready.record]
    exact hready.ring

end SynAccepted

theorem SynAckEntered.keepsTables {mgr mgr' : NtmManager} {msg : NtmSockMsg} {i : ℕ}
    (h : SynAckEntered mgr mgr' msg i) (c : ℕ) : KeepsTables mgr mgr' c i where
  ports := h.ports
  records := h.records
  socket := h.field NtsShmConn.socket (fun _ _ _ _ => rfl) c
  saddr := by rw [h.sockets, NtmManager.setState, NtmManager.modifySocket_self]

namespace NtmManager

variable {mgr : NtmManager} {tcp : Tcp} {port : UInt16} {ring : List NtsMsg} {c : ℕ}

theorem ntsShmSend_eq (mgr : NtmManager) (h : (mgr.shmConns c).ntsShmCtx = some ring) (msg : NtsMsg)
    : mgr.ntsShmSend c msg = some (mgr.setRing c (ring ++ [msg])) := by
  rw [ntsShmSend, h]
  rfl

theorem setRing_keeps {α : Type*} (mgr : NtmManager) (c : ℕ) (ring : List NtsMsg) (c' : ℕ)
    (field : NtsShmConn → α)
    (hfield : ∀ conn : NtsShmConn, field { conn with ntsShmCtx := some ring } = field conn) :
    field ((mgr.setRing c ring).shmConns c') = field (mgr.shmConns c') := by
  by_cases hc : c' = c
  · subst hc
    rw [setRing, modifyShmConn_self, hfield]
  · rw [setRing, modifyShmConn_of_ne mgr hc]

theorem remoteMonitor_some (mgr : NtmManager)
    (h : (mgr.connMap (mgr.shmConns c).ip).isSome ∨ tcp.connects = true) :
    ∃ ntmConn mgr', mgr.remoteMonitor tcp c = some (ntmConn, mgr') ∧
      mgr'.ntSockCtx = mgr.ntSockCtx ∧ mgr'.ntPortCtx = mgr.ntPortCtx ∧
      mgr'.ntsShmConnMap = mgr.ntsShmConnMap ∧
      (mgr'.shmConns c).ntsShmCtx = (mgr.shmConns c).ntsShmCtx ∧
      (mgr'.shmConns c).socket = (mgr.shmConns c).socket := by
  rw [remoteMonitor]
  cases hconn : mgr.connMap (mgr.shmConns c).ip with
  | some conn => exact ⟨conn, mgr, rfl, rfl, rfl, rfl, rfl, rfl⟩
  | none =>
    rw [hconn] at h
    have hconnects : tcp.connects = true := h.resolve_left (by simp)
    simp only [hconnects, if_true]
    exact ⟨_, _, rfl, rfl, rfl, rfl, by simp, by simp⟩

theorem allocateSourcePort_some (mgr : NtmManager) {i p : ℕ} {portCtx : NtPortContext}
    (hclosed : (mgr.socket i).state = .closed)
    (hport : mgr.ntPortCtx.allocatePort = some (p, portCtx)) :
    ∃ mgr', mgr.allocateSourcePort i = some (some p, mgr') ∧
      (mgr'.socket i).saddr.sinPort = htons (portId p) ∧
      mgr'.portSockMap (portId p).toNat = some i ∧
      mgr'.ntsShmConnMap = mgr.ntsShmConnMap ∧ mgr'.shmConns = mgr.shmConns := by
  rw [allocateSourcePort, if_pos hclosed, hport]
  refine ⟨_, rfl, ?_, update_self _ _ _, rfl, rfl⟩
  simp [socket, setPortSock, modifySocket]

theorem handleMsgNtsConnect_dispatches {msg : NtmMsg} {i p : ℕ}
    (h : ConnectReady mgr tcp msg c i p ring) (uninitialised : Option ℕ) :
    ∃ mgr' syn, mgr.handleMsgNtsConnect tcp msg uninitialised = some (mgr', [syn]) ∧
      syn.type = .ntSyn ∧ syn.sport = htons (portId p) ∧
      syn.dport = htons (UInt16.ofInt msg.port) ∧
      Connecting mgr' c i (portId p)
        (ring ++ [connectResponse msg none (some (portId p).toNat)]) ∧
      SocketTables mgr' c i (portId p) ∧ mgr'.ntsShmConnMap = mgr.ntsShmConnMap := by
  obtain ⟨portCtx, hport⟩ := h.freePort
  have hip : ((mgr.cacheServer msg c).shmConns c).ip = msg.address := by simp [cacheServer]
  have hring : ((mgr.cacheServer msg c).shmConns c).ntsShmCtx = some ring := by
    simp [cacheServer, h.ring_eq]
  obtain ⟨ntmConn, mgr₁, hremote, hsock₁, hport₁, hmap₁, hring₁, hsocket₁⟩ :=
    remoteMonitor_some (mgr.cacheServer msg c) (hip.symm ▸ h.remote)
  have hclosed : (mgr₁.socket i).state = .closed := by
    rw [socket, hsock₁]
    exact h.closed
  obtain ⟨mgr₂, halloc, hsin, hportSock, hmap₂, hconns₂⟩ :=
    allocateSourcePort_some mgr₁ hclosed (by rw [hport₁]; exact hport)
  have hring₂ : (mgr₂.shmConns c).ntsShmCtx = some ring := by
    rw [hconns₂, hring₁, hring]
  have hsport : ntohs (mgr₂.syn msg i ntmConn).sport = portId p := by
    rw [syn, hsin, ntohs_htons]
  have hrecord : mgr₂.ntsShmConnMap (sockid i) = some c := by
    rw [hmap₂, hmap₁, ← h.sockid_eq]
    exact h.record
  have hsocket : (mgr₂.shmConns c).socket = i := by
    rw [hconns₂, hsocket₁, cacheServer, modifyShmConn_self]
    exact h.socket
  refine ⟨mgr₂.setRing c (ring ++ [connectResponse msg none (some (portId p).toNat)]),
    mgr₂.syn msg i ntmConn, ?_, rfl, hsin, rfl, ⟨hportSock, hrecord, ?_⟩,
    ⟨hportSock, hrecord, ?_, hsin⟩, hmap₂.trans hmap₁⟩
  · have hstate : ¬ ((mgr.socket i).state ≠ .closed ∧ (mgr.socket i).state ≠ .bound) :=
      fun hne => hne.1 h.closed
    simp only [handleMsgNtsConnect, h.record, h.socket, if_neg hstate,
      if_neg (not_le.mpr h.addrlen), if_neg (not_lt.mpr h.port), hremote, halloc, h.sends, if_true,
      hsport, ntsShmSend_eq mgr₂ hring₂, Option.map_some]
  · simp [setRing]
  · rw [setRing, modifyShmConn_self]
    exact hsocket

theorem synAckFinish_establishes {i : ℕ} (h : Connecting mgr c i port ring) (msg : NtmSockMsg)
    (reply : NtpNtmMsg) (hreply : reply.msgType = createConn) :
    ∃ mgr', mgr.synAckFinish msg i reply = some (mgr', [clientSynAck msg]) ∧
      SynAckEntered mgr mgr' msg i := by
  have hrecord : (mgr.setState i .established).ntsShmConnMap (sockid i) = some c := h.record
  obtain ⟨mgr', hfinish⟩ : ∃ mgr', mgr.synAckFinish msg i reply =
      some (mgr', [clientSynAck msg]) := by
    simp only [synAckFinish, hreply, ne_eq, not_true_eq_false, if_false, hrecord]
    rw [ntsShmSend_eq _ (by rw [modifyShmConn_self]; exact h.ring_eq)]
    exact ⟨_, rfl⟩
  exact ⟨mgr', hfinish, (synAckFinish_cases hreply hfinish).2⟩

theorem handleNtClientSynAckMsg_establishes {w j q : ℕ} {ring : NtBacklogContext}
    (h : Accepting mgr port w j q ring) (msg : NtmSockMsg) (hsockid : msg.sockid = sockid j)
    (hdport : ntohs msg.dport = port) :
    ∃ mgr', mgr.handleNtClientSynAckMsg msg true = some (mgr', []) ∧
      (mgr'.socket j).state = .established ∧ mgr'.wrappers = mgr.wrappers ∧
      ∀ c, KeepsTables mgr mgr' c j ∧
        (mgr'.shmConns c).peerSinPort = (mgr.shmConns c).peerSinPort := by
  have hpos : ¬ msg.sockid ≤ 0 := by
    rw [hsockid, sockid]
    omega
  have hfind : mgr.findListener (ntohs msg.dport).toNat = .ok w := by
    rw [hdport, findListener, h.listener]
    exact if_neg (not_not.mpr h.listening)
  obtain ⟨queue, hqueue⟩ := h.ring_some
  have hsend := ntsShmSend_eq (mgr.setState j .established) hqueue (ntsClientSynAck (sockid j))
  refine ⟨(mgr.setState j .established).setRing (mgr.wrappers w).ntsShmConn
    (queue ++ [ntsClientSynAck (sockid j)]), ?_, ?_, rfl, fun c => ⟨⟨rfl, rfl, ?_, ?_⟩, ?_⟩⟩
  · rw [handleNtClientSynAckMsg, if_neg hpos, hfind]
    simp only [hsockid, h.accepted, ntsShmTrySend, if_true, hsend, Option.map_some]
  · change ((mgr.setState j .established).socket j).state = .established
    rw [setState, modifySocket_self]
  · exact setRing_keeps _ _ _ c NtsShmConn.socket fun _ => rfl
  · change ((mgr.setState j .established).socket j).saddr = (mgr.socket j).saddr
    rw [setState, modifySocket_self]
  · exact setRing_keeps _ _ _ c NtsShmConn.peerSinPort fun _ => rfl

end NtmManager

namespace Host

variable {h : Host} {shmAccept : String → Bool} {msg : NtmSockMsg} {listenPort srcPort : UInt16}

theorem handleNtSynMsg_accepts {w j q : ℕ} (hready : ListenReady h.ntm listenPort w j q)
    (hdport : ntohs msg.dport = listenPort) (hsport : ntohs msg.sport = srcPort)
    (hsend : shmAccept (sendShmName listenPort srcPort) = true)
    (hrecv : shmAccept (recvShmName listenPort srcPort) = true) (ntmConn : NtmConn) :
    ∃ h' ack, h.handleNtSynMsg shmAccept ntmConn msg = some (h', [ack]) ∧
      (ack.type = .ntSynAck ∧ ack.sport = msg.dport ∧ ack.dport = msg.sport ∧
        ack.sockid = sockid j ∧ ack.partitionId = UInt8.ofNat h.ntp.roundRobinIdx) ∧
      Accepting h'.ntm listenPort w j q (h.ntm.wrappers w).backlogCtx ∧
      h'.ntp.connOf listenPort srcPort = some (.create listenPort srcPort h.ntp.roundRobinIdx) ∧
      AcceptedTables h.ntm h'.ntm j q msg.sport := by
  have hfind : h.ntm.findBacklog msg = .ok w := by
    rw [NtmManager.findBacklog, hdport, NtmManager.findListener, hready.listener]
    simp only [hready.listening, hready.backlog, ne_eq, not_true_eq_false, if_false]
    rfl
  have hsrc : ntohs (createConnRequest msg (-1)).srcPort.toUInt16 = listenPort := by
    rw [createConnRequest, UInt16.toUInt16_toUInt64, hdport]
  have hdst : ntohs (createConnRequest msg (-1)).dstPort.toUInt16 = srcPort := by
    rw [createConnRequest, UInt16.toUInt16_toUInt64, hsport]
  obtain ⟨partition, ntp', hcreate, hconn, hpartition⟩ :=
    h.ntp.ntpCreateConnHandler_creates hsrc hdst hsend hrecv
  have hrr : partition = h.ntp.roundRobinIdx := hpartition
  have hlt : h.ntp.roundRobinIdx < 128 :=
    (h.ntp.roundRobinIdx_lt.trans_le h.ntp.numPartition_le).trans (by decide)
  obtain ⟨portCtx, hport⟩ := hready.freePort
  obtain ⟨ntm', hhandle, haccepted⟩ :=
    handleNtSynMsg_of_free hfind hready.freeSocket hport hcreate ntmConn
  refine ⟨_, _, hhandle, ⟨rfl, rfl, rfl, rfl, ?_⟩, haccepted.accepting hready, ?_, haccepted.tables⟩
  · have hreply : (NtbLinkCustom.ntpCreateConnAck partition
        (createConnRequest msg (-1))).partitionId = some (int8 partition) := by
      simp [NtbLinkCustom.ntpCreateConnAck, createConnRequest]
    rw [NtmManager.synAck, hreply, Option.getD_some, hrr, ofInt_int8 hlt]
  · rw [hconn, hrr]

theorem handleNtSynAckMsg_establishes (h : Host) (msg : NtmSockMsg) {c i : ℕ} {ring : List NtsMsg}
    (hconnecting : Connecting h.ntm c i srcPort ring) (hpos : 0 < msg.sockid)
    (hdport : ntohs msg.dport = srcPort) (hsport : ntohs msg.sport = listenPort)
    (hpartition : msg.partitionId.toNat < 128)
    (hsend : shmAccept (sendShmName srcPort listenPort) = true)
    (hrecv : shmAccept (recvShmName srcPort listenPort) = true) :
    ∃ h', h.handleNtSynAckMsg shmAccept msg = some (h', [NtmManager.clientSynAck msg]) ∧
      (h'.ntm.socket i).state = .established ∧
      (h'.ntm.shmConns c).ntsShmCtx = some (ring ++ [NtmManager.established i]) ∧
      h'.ntp.connOf srcPort listenPort = some (.create srcPort listenPort msg.partitionId.toNat) ∧
      KeepsTables h.ntm h'.ntm c i ∧
      (h'.ntm.shmConns c).peerSinPort = msg.sport.toUInt32 := by
  have hsocket : h.ntm.synAckSocket msg = some i := by
    rw [NtmManager.synAckSocket, hdport, hconnecting.portSock]
  let request := createConnRequest msg (int8 msg.partitionId.toNat)
  have hsrc : ntohs request.srcPort.toUInt16 = srcPort := by
    simp only [request, createConnRequest, UInt16.toUInt16_toUInt64, hdport]
  have hdst : ntohs request.dstPort.toUInt16 = listenPort := by
    simp only [request, createConnRequest, UInt16.toUInt16_toUInt64, hsport]
  obtain ⟨partition, ntp', hcreate, hconn, hchosen⟩ :=
    h.ntp.ntpCreateConnHandler_creates hsrc hdst hsend hrecv
  have htold : partition = msg.partitionId.toNat := by
    simp only [request, createConnRequest, int8_of_lt hpartition] at hchosen
    rwa [if_pos (Int.natCast_nonneg _), Int.toNat_natCast] at hchosen
  let reply := NtbLinkCustom.ntpCreateConnAck partition request
  obtain ⟨ntm', hfinish, hentered⟩ :=
    NtmManager.synAckFinish_establishes hconnecting msg reply rfl
  obtain ⟨_, hring, hentry⟩ := hentered.conn c hconnecting.record
  cases hconnecting.ring_eq.symm.trans hring
  refine ⟨{ ntm := ntm', ntp := ntp' }, ?_, ?_, by rw [hentry], ?_, hentered.keepsTables c,
    by rw [hentry]⟩
  · rw [handleNtSynAckMsg, if_neg (not_le.mpr hpos), hsocket]
    simp only [request] at hcreate
    simp only [hcreate]
    simp only [reply, request] at hfinish
    simp only [hfinish, Option.map_some]
  · rw [hentered.sockets, NtmManager.setState, NtmManager.modifySocket_self]
  · rw [hconn, htold]

end Host

end NtSocks.Ntm
