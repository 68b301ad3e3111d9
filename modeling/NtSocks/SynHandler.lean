import NtSocks.MonitorNet

/-!
# What `NT_SYN` and `NT_SYN_ACK` do

The handler of `NT_SYN` either refuses the connection and changes nothing, or enters a socket that
was free into the tables and puts it into the backlog of the listener. Its failure branch is never
taken: the proxy does not report failures, and the backlog was found to have room before. The
handler of `NT_SYN_ACK` changes nothing if the port is unknown, and else establishes its socket.
-/

namespace NtSocks.Ntm

open Function

open NtPortContext (portId)
open NtSocks.Ntm.NtSockContext (sockid)

/-- What an accepted `NT_SYN` leaves: the socket of `pending`, which was free, has its port, a new
record and an entry for its listener, and stands in the backlog. -/
structure SynAccepted (mgr mgr' : NtmManager) (ntmConn : NtmConn) (msg : NtmSockMsg)
    (pending : SynPending) : Prop where
  first : mgr.ntSockCtx.freeNtsock.first = some pending.socket
  port : ∃ portCtx, mgr.ntPortCtx.allocatePort = some (pending.port, portCtx)
  free : mgr'.ntSockCtx.freeNtsock = mgr.ntSockCtx.freeNtsock.remove pending.socket
  sockets : ∀ k, k ≠ pending.socket → mgr'.socket k = mgr.socket k
  socktype : (mgr'.socket pending.socket).socktype = ntSockPipe
  sinPort : (mgr'.socket pending.socket).saddr.sinPort = htons (portId pending.port)
  ports : mgr'.portSockMap =
    update mgr.portSockMap (portId pending.port).toNat (some pending.socket)
  records : mgr'.ntsShmConnMap =
    update mgr.ntsShmConnMap (sockid pending.socket : ℤ) (some mgr.nextShmConn)
  next : mgr'.nextShmConn = mgr.nextShmConn + 1
  conn : mgr'.shmConns mgr.nextShmConn = NtmManager.acceptedConn ntmConn msg pending
  conns : ∀ c, c < mgr.nextShmConn → mgr'.shmConns c = mgr.shmConns c
  listeners : mgr'.listenerMap = mgr.listenerMap
  socket : (mgr'.wrappers pending.wrapper).socket = (mgr.wrappers pending.wrapper).socket
  record : (mgr'.wrappers pending.wrapper).ntsShmConn = (mgr.wrappers pending.wrapper).ntsShmConn
  accepted : (mgr'.wrappers pending.wrapper).acceptedConnMap =
    update (mgr.wrappers pending.wrapper).acceptedConnMap (sockid pending.socket : ℤ)
      (some pending.socket)
  backlog : (mgr.wrappers pending.wrapper).backlogCtx.backlogPush (sockid pending.socket)
    (mgr'.socket pending.socket) = some (mgr'.wrappers pending.wrapper).backlogCtx

/-- What `NT_SYN_ACK` leaves for the socket `i`: it is established, and if it has a record, the peer
is entered there and the library is told. -/
structure SynAckEntered (mgr mgr' : NtmManager) (msg : NtmSockMsg) (i : ℕ) : Prop where
  ports : mgr'.portSockMap = mgr.portSockMap
  records : mgr'.ntsShmConnMap = mgr.ntsShmConnMap
  connMap : mgr'.connMap = mgr.connMap
  sockets : mgr'.socket = (mgr.setState i .established).socket
  conn : ∀ c, mgr.ntsShmConnMap (sockid i) = some c → ∃ ring,
    (mgr.shmConns c).ntsShmCtx = some ring ∧ mgr'.shmConns c = { mgr.shmConns c with
      peerSinPort := msg.sport.toUInt32
      peerSinAddr := msg.srcAddr
      ntsShmCtx := some (ring ++ [NtmManager.established i]) }
  conns : ∀ d, mgr.ntsShmConnMap (sockid i) ≠ some d → mgr'.shmConns d = mgr.shmConns d

variable {i : ℕ}

theorem NtSockContext.allocateSocket_cases {ctx ctx' : NtSockContext} {socktype : ℤ}
    (h : ctx.allocateSocket socktype = some (i, ctx')) :
    ctx.freeNtsock.first = some i ∧ ctx'.freeNtsock = ctx.freeNtsock.remove i ∧
      (ctx'.ntsock i).socktype = socktype ∧ ∀ k, k ≠ i → ctx'.ntsock k = ctx.ntsock k := by
  rw [allocateSocket] at h
  split at h
  · cases h
  case h_2 j hfirst =>
    cases h
    exact ⟨hfirst, rfl, by simp, fun k hk => modify_ntsock_of_ne _ hk _⟩

namespace NtmManager

variable {mgr mgr' : NtmManager} {ntmConn : NtmConn} {msg : NtmSockMsg} {w : ℕ}
  {pending : SynPending}

theorem findBacklog_room (h : mgr.findBacklog msg = .ok w) :
    (mgr.wrappers w).backlogCtx.backlogIsFull = false := by
  rw [findBacklog] at h
  split at h
  · cases h
  · split at h
    · cases h
    case isFalse hroom =>
      cases h
      exact Bool.eq_false_iff.mpr hroom

theorem findBacklog_listener (h : mgr.findBacklog msg = .ok w) :
    mgr.listenerMap (ntohs msg.dport).toNat = some w := by
  rw [findBacklog] at h
  split at h
  · cases h
  case h_2 w' hfind =>
    split at h
    · cases h
    · cases h
      rw [findListener] at hfind
      split at hfind
      · cases hfind
      case h_2 hlistener =>
        split at hfind
        · cases hfind
        · cases hfind
          exact hlistener

theorem findBacklog_refuses {type : NtmSockMsgType} (h : mgr.findBacklog msg = .error type) :
    type ≠ .ntSynAck := by
  simp only [findBacklog, findListener] at h
  rintro rfl
  split at h
  case h_1 hfind =>
    split at hfind
    · cases hfind
      cases h
    · split at hfind
      · cases hfind
        cases h
      · cases hfind
  · split at h <;> cases h

theorem allocateClient_cases (h : mgr.allocateClient msg w = some (pending, mgr')) :
    pending.wrapper = w ∧ ∃ sockCtx portCtx,
      mgr.ntSockCtx.allocateSocket ntSockPipe = some (pending.socket, sockCtx) ∧
      mgr.ntPortCtx.allocatePort = some (pending.port, portCtx) ∧
      mgr' = ({ mgr with ntSockCtx := sockCtx, ntPortCtx := portCtx }.modifySocket pending.socket
        fun socket => { socket with
          saddr := ⟨afInet, htons (portId pending.port), msg.dstAddr⟩ }).setPortSock
            (portId pending.port).toNat (some pending.socket) := by
  rw [allocateClient] at h
  split at h
  · cases h
  case h_2 i sockCtx hsock =>
    split at h
    · cases h
    case h_2 p portCtx hport =>
      cases h
      exact ⟨rfl, sockCtx, portCtx, hsock, hport, rfl⟩

theorem notifyListener_cases (mgr : NtmManager) (w : ℕ) :
    ∃ queue, mgr.notifyListener w = { mgr with epIoQueue := queue } := by
  simp only [notifyListener]
  split
  · exact ⟨_, rfl⟩
  · exact ⟨mgr.epIoQueue, rfl⟩

theorem synFinish_cases (mgr : NtmManager) (ntmConn : NtmConn) (msg : NtmSockMsg)
    (pending : SynPending) (reply : NtpNtmMsg)
    (hroom : (mgr.wrappers pending.wrapper).backlogCtx.backlogIsFull = false) :
    ∃ queue backlog,
      (mgr.wrappers pending.wrapper).backlogCtx.backlogPush (sockid pending.socket)
        ((mgr.synEnter ntmConn msg pending).socket pending.socket) = some backlog ∧
      mgr.synFinish ntmConn msg pending reply =
        ({ (mgr.synEnter ntmConn msg pending).setBacklog pending.wrapper backlog with
            epIoQueue := queue }, [synAck msg pending reply]) := by
  have hbacklog : ((mgr.synEnter ntmConn msg pending).wrappers pending.wrapper).backlogCtx =
      (mgr.wrappers pending.wrapper).backlogCtx := by
    simp only [synEnter, setAccepted, modifyWrapper_self]
    rfl
  rw [NtBacklogContext.backlogIsFull, beq_eq_false_iff_ne] at hroom
  have hpush : (mgr.wrappers pending.wrapper).backlogCtx.backlogPush (sockid pending.socket)
      ((mgr.synEnter ntmConn msg pending).socket pending.socket) = some _ := if_neg hroom
  obtain ⟨queue, hqueue⟩ := notifyListener_cases
    ((mgr.synEnter ntmConn msg pending).setBacklog pending.wrapper _) pending.wrapper
  refine ⟨queue, _, hpush, ?_⟩
  simp only [synFinish, hbacklog, hpush]
  rw [hqueue]

theorem synFinish_accepted {mgr₁ : NtmManager}
    (halloc : mgr.allocateClient msg w = some (pending, mgr₁))
    (hroom : (mgr.wrappers w).backlogCtx.backlogIsFull = false) (ntmConn : NtmConn)
    (reply : NtpNtmMsg) :
    ∃ mgr', mgr₁.synFinish ntmConn msg pending reply = (mgr', [synAck msg pending reply]) ∧
      SynAccepted mgr mgr' ntmConn msg pending := by
  obtain ⟨rfl, sockCtx, portCtx, hsock, hport, hmgr₁⟩ := allocateClient_cases halloc
  obtain ⟨hfirst, hfree, hsocktype, hothers⟩ := NtSockContext.allocateSocket_cases hsock
  have hwrappers : mgr₁.wrappers = mgr.wrappers := by rw [hmgr₁]; rfl
  obtain ⟨queue, backlog, hpush, hfinish⟩ :=
    synFinish_cases mgr₁ ntmConn msg pending reply (by rw [hwrappers]; exact hroom)
  rw [hwrappers] at hpush
  have hwrapper : ((mgr₁.synEnter ntmConn msg pending).setBacklog pending.wrapper backlog).wrappers
      pending.wrapper = { mgr.wrappers pending.wrapper with
          backlogCtx := backlog
          acceptedConnMap := update (mgr.wrappers pending.wrapper).acceptedConnMap
            (sockid pending.socket : ℤ) (some pending.socket) } := by
    rw [setBacklog, modifyWrapper_self, synEnter, setAccepted, modifyWrapper_self, ← hwrappers]
    rfl
  have hself := (mgr₁.newShmConn (acceptedConn ntmConn msg pending)).modifySocket_self
    pending.socket fun socket => { socket with state := .waitEstablished }
  have hsocket := congrArg NtListenerWrapper.socket hwrapper
  have hrecord := congrArg NtListenerWrapper.ntsShmConn hwrapper
  have haccepted := congrArg NtListenerWrapper.acceptedConnMap hwrapper
  have hbacklog := congrArg NtListenerWrapper.backlogCtx hwrapper
  have hclient : (mgr₁.socket pending.socket).socktype = ntSockPipe ∧
      (mgr₁.socket pending.socket).saddr.sinPort = htons (portId pending.port) := by
    subst hmgr₁
    simp [NtmManager.socket, setPortSock, modifySocket, hsocktype]
  refine ⟨_, hfinish, hfirst, ⟨portCtx, hport⟩, ?_, ?_, (congrArg NtSocket.socktype hself).trans
    hclient.1, (congrArg (·.saddr.sinPort) hself).trans hclient.2, ?_, ?_, ?_, ?_, ?_, ?_, hsocket,
    hrecord, haccepted, hpush.trans (congrArg some hbacklog.symm)⟩ <;> subst hmgr₁
  · exact hfree
  · intro k hk
    exact (update_of_ne hk _ _).trans
      ((update_of_ne hk _ _).trans (hothers k hk))
  · rfl
  · rfl
  · rfl
  · exact update_self _ _ mgr.shmConns
  · exact fun c hc => update_of_ne hc.ne _ _
  · rfl

theorem synAckFinish_cases {i : ℕ} {reply : NtpNtmMsg} {out : List NtmSockMsg}
    (hreply : reply.msgType = createConn) (h : mgr.synAckFinish msg i reply = some (mgr', out)) :
    out = [clientSynAck msg] ∧ SynAckEntered mgr mgr' msg i := by
  simp only [synAckFinish, hreply, ne_eq, not_true_eq_false, if_false] at h
  split at h
  case h_1 hnone =>
    cases h
    exact ⟨rfl, rfl, rfl, rfl, rfl, fun c hc => absurd (hnone.symm.trans hc) (by simp),
      fun _ _ => rfl⟩
  case h_2 c hrecord =>
    obtain ⟨mgr₁, hsend, heq⟩ := Option.map_eq_some_iff.mp h
    cases heq
    obtain ⟨ring, hring, rfl⟩ := Option.map_eq_some_iff.mp hsend
    rw [modifyShmConn_self] at hring
    refine ⟨rfl, rfl, rfl, rfl, rfl, fun d hd => ⟨ring, ?_⟩, fun d hd => ?_⟩
    · obtain rfl : c = d := Option.some.inj (hrecord.symm.trans hd)
      rw [setRing, modifyShmConn_self, modifyShmConn_self]
      exact ⟨hring, rfl⟩
    · have hne : d ≠ c := fun heq => hd (heq ▸ hrecord)
      rw [setRing, modifyShmConn_of_ne _ hne, modifyShmConn_of_ne _ hne]
      rfl

end NtmManager

theorem SynAckEntered.field {β : Type*} {mgr mgr' : NtmManager} {msg : NtmSockMsg}
    (h : SynAckEntered mgr mgr' msg i) (g : NtsShmConn → β)
    (hg : ∀ conn port addr ring, g { conn with
      peerSinPort := port, peerSinAddr := addr, ntsShmCtx := ring } = g conn) (d : ℕ) :
    g (mgr'.shmConns d) = g (mgr.shmConns d) := by
  by_cases hd : mgr.ntsShmConnMap (sockid i) = some d
  · obtain ⟨ring, -, hconn⟩ := h.conn d hd
    rw [hconn]
    exact hg _ _ _ _
  · rw [h.conns d hd]

namespace Host

variable {h h' : Host} {shmAccept : String → Bool} {ntmConn : NtmConn} {msg : NtmSockMsg}
  {out : List NtmSockMsg}

theorem handleNtSynAckMsg_cases (hstep : h.handleNtSynAckMsg shmAccept msg = some (h', out)) :
    (h.ntm.portSockMap (ntohs msg.dport).toNat = none ∧ h' = h ∧ out = []) ∨
      ∃ i reply, h.ntm.portSockMap (ntohs msg.dport).toNat = some i ∧
        h.ntp.ntpCreateConnHandler shmAccept
          (createConnRequest msg (int8 msg.partitionId.toNat)) = (some reply, h'.ntp) ∧
        SynAckEntered h.ntm h'.ntm msg i ∧ out = [NtmManager.clientSynAck msg] := by
  rw [handleNtSynAckMsg] at hstep
  split at hstep
  · cases hstep
  · split at hstep
    case h_1 hnone =>
      cases hstep
      exact .inl ⟨hnone, rfl, rfl⟩
    case h_2 i hsocket =>
      split at hstep
      · cases hstep
      case h_2 reply ntp' hreply =>
        obtain ⟨⟨ntm', out'⟩, hfinish, heq⟩ := Option.map_eq_some_iff.mp hstep
        cases heq
        obtain ⟨partition, rfl, -⟩ := NtbLinkCustom.ntpCreateConnHandler_answers hreply
        obtain ⟨hout, hentered⟩ := NtmManager.synAckFinish_cases rfl hfinish
        exact .inr ⟨i, _, hsocket, hreply, hentered, hout⟩

theorem handleNtSynMsg_cases (hstep : h.handleNtSynMsg shmAccept ntmConn msg = some (h', out)) :
    (∃ type, h.ntm.findBacklog msg = .error type ∧ h' = h ∧ out = [answer msg type]) ∨
      ∃ pending reply, h.ntm.findBacklog msg = .ok pending.wrapper ∧
        h.ntp.ntpCreateConnHandler shmAccept (createConnRequest msg (-1)) = (some reply, h'.ntp) ∧
        SynAccepted h.ntm h'.ntm ntmConn msg pending ∧
        out = [NtmManager.synAck msg pending reply] := by
  rw [handleNtSynMsg] at hstep
  split at hstep
  case h_1 type hfind =>
    cases hstep
    exact Or.inl ⟨type, hfind, rfl, rfl⟩
  case h_2 w hfind =>
    split at hstep
    · cases hstep
    case h_2 pending ntm₁ halloc =>
      split at hstep
      · cases hstep
      case h_2 reply ntp' hreply =>
        obtain ⟨ntm', hfinish, haccepted⟩ :=
          NtmManager.synFinish_accepted halloc (NtmManager.findBacklog_room hfind) ntmConn reply
        rw [hfinish] at hstep
        cases hstep
        obtain ⟨rfl, -⟩ := NtmManager.allocateClient_cases halloc
        exact Or.inr ⟨pending, reply, hfind, hreply, haccepted, rfl⟩

theorem handleNtSynMsg_of_free {w j q : ℕ} {portCtx : NtPortContext} {reply : NtpNtmMsg}
    {ntp' : NtbLinkCustom} (hfind : h.ntm.findBacklog msg = .ok w)
    (hfirst : h.ntm.ntSockCtx.freeNtsock.first = some j)
    (hport : h.ntm.ntPortCtx.allocatePort = some (q, portCtx))
    (hcreate : h.ntp.ntpCreateConnHandler shmAccept (createConnRequest msg (-1)) =
      (some reply, ntp')) (ntmConn : NtmConn) :
    ∃ ntm', h.handleNtSynMsg shmAccept ntmConn msg =
        some ({ ntm := ntm', ntp := ntp' }, [NtmManager.synAck msg ⟨j, q, w⟩ reply]) ∧
      SynAccepted h.ntm ntm' ntmConn msg ⟨j, q, w⟩ := by
  obtain ⟨ntm₁, halloc⟩ : ∃ ntm₁, h.ntm.allocateClient msg w = some (⟨j, q, w⟩, ntm₁) := by
    rw [NtmManager.allocateClient, NtSockContext.allocateSocket, hfirst, hport]
    exact ⟨_, rfl⟩
  obtain ⟨ntm', hfinish, haccepted⟩ :=
    NtmManager.synFinish_accepted halloc (NtmManager.findBacklog_room hfind) ntmConn reply
  refine ⟨ntm', ?_, haccepted⟩
  simp only [handleNtSynMsg, hfind, halloc, hcreate, hfinish]

end Host

end NtSocks.Ntm
