import NtSocks.ConnectAnswers

/-!
# The names of the rings

The proxy creates the two rings of a connection under names that it builds from the ports of the
`CREATE_CONN` request. The library builds the names of the rings it opens by itself: `nts_connect`
from the port that the monitor reports, `nts_accept` from the port in the backlog entry.
-/

namespace NtSocks

open Function

structure NtpRings where
  recvShmaddr : String
  sendShmaddr : String
  deriving DecidableEq, Repr

def NtpRings.between (srcPort dstPort : UInt16) : NtpRings where
  recvShmaddr := recvShmName srcPort dstPort
  sendShmaddr := sendShmName srcPort dstPort

def NtbConnEntry.rings (conn : NtbConnEntry) : NtpRings where
  recvShmaddr := conn.recvShmaddr
  sendShmaddr := conn.sendShmaddr

theorem toString_injective : Injective (toString : ℕ → String) := by
  intro a b h
  have hdigits : Nat.toDigits 10 a = Nat.toDigits 10 b := String.ofList_injective h
  rw [← Nat.ofDigitChars_ten_toDigits (n := a), hdigits, Nat.ofDigitChars_ten_toDigits]

theorem shmName_injective (srcPort : UInt16) (kind : String) :
    Injective fun dstPort => shmName srcPort dstPort kind := by
  intro dstPort dstPort' h
  -- what stands before and after the second port is the same
  have hport : toString dstPort.toNat = toString dstPort'.toNat :=
    (String.append_right_inj _).mp ((String.append_left_inj _).mp h)
  exact UInt16.toNat_inj.mp (toString_injective hport)

theorem NtpRings.between_injective (srcPort : UInt16) : Injective (NtpRings.between srcPort) := by
  intro dstPort dstPort' h
  exact shmName_injective srcPort "-r" (congrArg NtpRings.recvShmaddr h)

namespace Ntm

open NtPortContext (portId)
open NtSocks.Ntm.NtSockContext (sockid)

/-- The rings that `nts_accept` opens for the next entry of the backlog. It waits while the backlog
is empty. -/
def ntsAcceptRings (listener : SockaddrIn) (backlog : NtBacklogContext) :
    Option (NtpRings × NtBacklogContext) :=
  backlog.backlogPop.map fun (client, backlog) =>
    let listenerPort := ntohs listener.sinPort
    let clientPort := ntohs client.sinPort
    (.between listenerPort clientPort, backlog)

/-- The rings that `nts_connect` opens after its request `msgId`, from the answers of the monitor in
order. It waits for an answer that is missing, and fails on one it does not expect. -/
def ntsConnectRings (msgId : ℕ) (name : SockaddrIn) : List NtsMsg → Option NtpRings
  | dispatched :: establish :: _ =>
    if dispatched.msgId ≠ some msgId then none
    else if dispatched.retval = some (-1) then none
    else if dispatched.msgType ≠ .dispatched then none
    else
      dispatched.port.bind fun port =>
        let sinPort := htons (UInt16.ofInt port)
        if establish.retval = some (-1) then none
        else if establish.msgType ≠ .establish then none
        else
          let listenerDstPort := ntohs name.sinPort
          let clientSrcPort := ntohs sinPort
          some (.between clientSrcPort listenerDstPort)
  | _ => none

/-- The processes at both ends of a connection open the rings that the proxies of their hosts
created for it. -/
structure SameRings (accepting connecting : NtbConnEntry) (accept connect : Option NtpRings) :
    Prop where
  accepted : accept = some accepting.rings
  connected : connect = some connecting.rings

namespace NtmManager

/-- The source port that a request to connect takes: a new one for a closed socket, and otherwise
the one that it was bound to. -/
def sourcePort (mgr : NtmManager) (i : ℕ) : Option UInt16 :=
  if (mgr.socket i).state = .closed then mgr.ntPortCtx.firstFree.map portId
  else some (ntohs (mgr.socket i).saddr.sinPort)

end NtmManager

/-- A handshake within a run. The request of the record `c` is handled in `asked`; its `NT_SYN` in
`heard`, by the listener `w`, which leads to `accepted`; and the `NT_SYN_ACK` in `told`, which leads
to `done`. In between both hosts handle whatever comes. -/
structure HandshakeWithin (side : Side) (msg : NtmMsg) (c w : ℕ) (syn ack : NtmSockMsg)
    (asked heard accepted told done : Session) : Prop where
  record : (asked.net.host side).ntm.ntsShmConnMap msg.sockid = some c
  request : ∃ tcp uninitialised s acts,
    asked.step (.request side (.connect tcp uninitialised msg)) = some s ∧
      s.net.inbox side.peer = asked.net.inbox side.peer ++ [syn] ∧
      Runs.run Session.step s acts = some heard
  listener : (heard.net.host side.peer).ntm.findBacklog syn = .ok w
  accept : ∃ msgs acts, heard.net.inbox side.peer = syn :: msgs ∧
    heard.step (.deliver side.peer) = some accepted ∧
      accepted.net.inbox side = heard.net.inbox side ++ [ack] ∧
      Runs.run Session.step accepted acts = some told
  confirm : ∃ msgs clientSynAck, told.net.inbox side = ack :: msgs ∧
    told.step (.deliver side) = some done ∧
      done.net.inbox side.peer = told.net.inbox side.peer ++ [clientSynAck]

theorem ntsAcceptRings_of_atHead {backlog old pushed : NtBacklogContext} {id : ℕ}
    {socket : NtSocket} (h : backlog.AtHead pushed old.writeIndex)
    (hpush : old.backlogPush id socket = some pushed) (listener : SockaddrIn) :
    (ntsAcceptRings listener backlog).map Prod.fst =
      some (.between (ntohs listener.sinPort) (ntohs socket.saddr.sinPort)) := by
  obtain ⟨entry, backlog', hpop, -, hport⟩ := h.backlogPop hpush
  rw [ntsAcceptRings, hpop, ← hport]
  rfl

theorem ntsConnectRings_of_dispatched {msg : NtmMsg} {name : SockaddrIn} {srcPort : UInt16}
    {more : List NtsMsg} {rings : NtpRings} (h : ntsConnectRings msg.msgId name
      (NtmManager.connectResponse msg none (some srcPort.toNat) :: more) = some rings) :
    rings = .between srcPort (ntohs name.sinPort) := by
  cases more with
  | nil => cases h
  | cons establish more =>
    simp [ntsConnectRings, NtmManager.connectResponse, ofInt_toNat] at h
    exact h.2.2.symm

theorem created_conn {link link' : NtbLinkCustom} {shmAccept : String → Bool} {msg : NtmSockMsg}
    {partitionId : ℤ} {reply : NtpNtmMsg}
    (h : link.ntpCreateConnHandler shmAccept (createConnRequest msg partitionId) =
      (some reply, link')) :
    ∃ partition, link'.conns link.nextConn =
      .create (ntohs msg.dport) (ntohs msg.sport) partition := by
  simpa [createConnRequest] using NtbLinkCustom.ntpCreateConnHandler_conns h

namespace NtmManager

variable {mgr mgr' : NtmManager}

/-- The port that `NT_SYN` and `NTS_MSG_DISPATCHED` name is the source port. -/
theorem handleMsgNtsConnect_syn {tcp : Tcp} {msg : NtmMsg} {uninitialised : Option ℕ} {c : ℕ}
    {syn : NtmSockMsg} (hrecord : mgr.ntsShmConnMap msg.sockid = some c)
    (h : mgr.handleMsgNtsConnect tcp msg uninitialised = some (mgr', [syn])) :
    syn.type = .ntSyn ∧ syn.dport = htons (UInt16.ofInt msg.port) ∧
      mgr.sourcePort (mgr.shmConns c).socket = some (ntohs syn.sport) ∧
      mgr'.sentTo c =
        mgr.sentTo c ++ [connectResponse msg none (some (ntohs syn.sport).toNat)] := by
  obtain ⟨c', hc', ⟨ntErrno, hrefuse⟩ | ⟨-, ⟨-, hout⟩ | ⟨ntmConn, mgr₁, port, mgr₂, hremote, hport,
    ⟨syn', rfl, hout, hsend⟩ | ⟨-, -, hout⟩⟩⟩⟩ := handleMsgNtsConnect_paths h
  case inl =>
    obtain ⟨mgr₁, -, heq⟩ := Option.map_eq_some_iff.mp hrefuse
    cases heq
  case inr.inl => cases hout
  case inr.inr.inr => cases hout
  obtain rfl : c = c' := Option.some.inj (hrecord.symm.trans hc')
  obtain rfl := List.singleton_inj.mp hout
  obtain ⟨hports, hsocket, hsent⟩ : mgr₁.ntPortCtx = mgr.ntPortCtx ∧ mgr₁.socket = mgr.socket ∧
      mgr₁.sentTo c = mgr.sentTo c := by
    rw [remoteMonitor] at hremote
    split at hremote
    · cases hremote
      exact ⟨rfl, rfl, by simp [sentTo, cacheServer, modifyShmConn_self]⟩
    · split at hremote
      · cases hremote
        exact ⟨rfl, rfl, by simp [sentTo, cacheServer, modifyShmConn]⟩
      · cases hremote
  rw [ntsShmSend_sentTo hsend, ← hsent]
  rw [allocateSourcePort, hports, hsocket] at hport
  refine ⟨rfl, rfl, ?_⟩
  rw [sourcePort]
  split at hport
  case isTrue hclosed =>
    split at hport
    · cases hport
    case h_2 p portCtx halloc =>
      cases hport
      rw [if_pos hclosed, NtPortContext.allocatePort_firstFree halloc]
      simp [NtmManager.syn, socket, setPortSock, modifySocket, NtSockContext.modify, sentTo]
  case isFalse hbound =>
    cases hport
    rw [if_neg hbound, NtmManager.syn, hsocket]
    exact ⟨rfl, rfl⟩

end NtmManager

theorem Session.handled_of_sent {s s' : Session} {side : Side} {msg reply : NtmSockMsg}
    {msgs : List NtmSockMsg} (hstep : s.step (.deliver side) = some s')
    (hinbox : s.net.inbox side = msg :: msgs)
    (hsent : s'.net.inbox side.peer = s.net.inbox side.peer ++ [reply]) :
    (s.net.host side).ntmSockHandleMsg (s.net.shmAccept side) (s.net.ntmConn side) msg =
      some (s'.net.host side, [reply]) := by
  obtain ⟨_, _, host, out, hinbox', hmoved, -, hhandle⟩ := step_deliver_cases hstep
  cases hinbox.symm.trans hinbox'
  obtain rfl := List.append_cancel_left (hmoved.sent.symm.trans hsent)
  rw [hmoved.self]
  exact hhandle.resolve_right fun h => by cases h.2

section Sample

def sampleName : SockaddrIn where
  sinFamily := afInet
  sinPort := htons 5
  sinAddr := 7

def lentPorts : NtPortContext := (samplePorts.removeFree 0).setStatus 0 .used

end Sample

end Ntm

end NtSocks
