import NtSocks.HandshakeSteps

/-!
# The handshake

A request to connect and the three messages that follow it, one handler after the other with no
other message in between.
-/

namespace NtSocks.Ntm

open NtPortContext (portId)
open NtSocks.Ntm.NtSockContext (sockid)

/-- The application of the record `c` on one side can connect to a listener on the other, both
proxies can create the rings of the connection, and nothing is under way. -/
structure HandshakeReady (net : Net) (side : Side) (tcp : Tcp) (msg : NtmMsg) (c i p : ℕ)
    (ring : List NtsMsg) (w j q : ℕ) : Prop where
  connect : ConnectReady (net.host side).ntm tcp msg c i p ring
  listen : ListenReady (net.host side.peer).ntm (UInt16.ofInt msg.port) w j q
  creates : net.shmAccept side (sendShmName (portId p) (UInt16.ofInt msg.port)) = true ∧
    net.shmAccept side (recvShmName (portId p) (UInt16.ofInt msg.port)) = true
  peerCreates : net.shmAccept side.peer (sendShmName (UInt16.ofInt msg.port) (portId p)) = true ∧
    net.shmAccept side.peer (recvShmName (UInt16.ofInt msg.port) (portId p)) = true
  quiet : net.inbox side = [] ∧ net.inbox side.peer = []

def handshakeActs (side : Side) (tcp : Tcp) (uninitialised : Option ℕ) (msg : NtmMsg) :
    List NetAct :=
  [.connect side tcp uninitialised msg, .deliver side.peer, .deliver side, .deliver side.peer]

structure HandshakeDone (net : Net) (side : Side) (srcPort listenPort : UInt16) (partition c i : ℕ)
    (ring : List NtsMsg) (w j q : ℕ) (backlog : NtBacklogContext) : Prop where
  client : ((net.host side).ntm.socket i).state = .established
  accepted : ((net.host side.peer).ntm.socket j).state = .established
  clientConn : (net.host side).ntp.connOf srcPort listenPort =
    some (.create srcPort listenPort partition)
  acceptedConn : (net.host side.peer).ntp.connOf listenPort srcPort =
    some (.create listenPort srcPort partition)
  ring_eq : ((net.host side).ntm.shmConns c).ntsShmCtx = some ring
  queued : ∃ socket, socket.saddr.sinPort = htons (portId q) ∧
    backlog.backlogPush (sockid j) socket = some ((net.host side.peer).ntm.wrappers w).backlogCtx

structure HandshakeTables (net net' : Net) (side : Side) (srcPort listenPort : UInt16)
    (c i j q : ℕ) : Prop where
  client : SocketTables (net'.host side).ntm c i srcPort
  clientPeer : ((net'.host side).ntm.shmConns c).peerSinPort = (htons listenPort).toUInt32
  clientRecords : (net'.host side).ntm.ntsShmConnMap = (net.host side).ntm.ntsShmConnMap
  accepted : AcceptedTables (net.host side.peer).ntm (net'.host side.peer).ntm j q (htons srcPort)

variable {msg : NtmMsg} {side : Side} {net : Net} {tcp : Tcp}

theorem handshakeActs_run {uninitialised : Option ℕ} {ntm : NtmManager}
    {syn ack confirm : NtmSockMsg} {host₂ host₃ host₄ : Host} (hself : net.inbox side = [])
    (hpeer : net.inbox side.peer = [])
    (hconnect : (net.host side).ntm.handleMsgNtsConnect tcp msg uninitialised = some (ntm, [syn]))
    (hsyn : (net.host side.peer).ntmSockHandleMsg (net.shmAccept side.peer)
      (net.ntmConn side.peer) syn = some (host₂, [ack]))
    (hack : Host.ntmSockHandleMsg (net.shmAccept side) (net.ntmConn side) ack
      { net.host side with ntm := ntm } = some (host₃, [confirm]))
    (hconfirm : host₂.ntmSockHandleMsg (net.shmAccept side.peer) (net.ntmConn side.peer) confirm =
      some (host₄, [])) :
    ∃ net', Runs.run Net.step net (handshakeActs side tcp uninitialised msg) = some net' ∧
      net'.host side = host₃ ∧ net'.host side.peer = host₄ := by
  obtain ⟨net₁, hstep₁, hself₁, hpeer₁, hinbox₁, hout₁, hshm₁, hconn₁⟩ :=
    Net.step_connect hself hpeer hconnect
  rw [← hpeer₁, ← hshm₁, ← hconn₁] at hsyn
  obtain ⟨net₂, hstep₂, hself₂, hpeer₂, hinbox₂, hout₂, hshm₂, hconn₂⟩ :=
    Net.step_deliver hout₁ (by rw [Side.peer_peer, hinbox₁]) hsyn
  rw [Side.peer_peer] at hpeer₂ hout₂
  rw [← hself₁, ← hpeer₂, ← hshm₁, ← hshm₂, ← hconn₁, ← hconn₂] at hack
  obtain ⟨net₃, hstep₃, hself₃, hpeer₃, hinbox₃, hout₃, hshm₃, hconn₃⟩ :=
    Net.step_deliver hout₂ hinbox₂ hack
  rw [← hself₂, ← hpeer₃, ← hshm₁, ← hshm₂, ← hshm₃, ← hconn₁, ← hconn₂, ← hconn₃] at hconfirm
  obtain ⟨net₄, hstep₄, hself₄, hpeer₄, -⟩ :=
    Net.step_deliver hout₃ (by rw [Side.peer_peer, hinbox₃]) hconfirm
  rw [Side.peer_peer] at hpeer₄
  refine ⟨net₄, ?_, hpeer₄.trans hself₃, hself₄⟩
  simp only [handshakeActs, Runs.run_cons, Runs.run_nil, hstep₁, hstep₂, hstep₃, hstep₄,
    Option.bind_some]

theorem handshake_run {c i p : ℕ} {ring : List NtsMsg} {w j q : ℕ}
    (h : HandshakeReady net side tcp msg c i p ring w j q) (uninitialised : Option ℕ) :
    ∃ net', Runs.run Net.step net (handshakeActs side tcp uninitialised msg) = some net' ∧
      HandshakeDone net' side (portId p) (UInt16.ofInt msg.port)
        (net.host side.peer).ntp.roundRobinIdx c i
        (ring ++ [NtmManager.connectResponse msg none (some (portId p).toNat),
          NtmManager.established i])
        w j q ((net.host side.peer).ntm.wrappers w).backlogCtx ∧
      HandshakeTables net net' side (portId p) (UInt16.ofInt msg.port) c i j q := by
  generalize hlisten : UInt16.ofInt msg.port = listenPort
  have hready := h.listen
  have hcreates := h.creates
  have hpeerCreates := h.peerCreates
  rw [hlisten] at hready hcreates hpeerCreates
  -- the request on the connecting side
  obtain ⟨ntm₁, syn, hconnect, htype, hsport, hdport, hconnecting, htables₁, hrecords₁⟩ :=
    NtmManager.handleMsgNtsConnect_dispatches h.connect uninitialised
  rw [hlisten] at hdport
  -- `NT_SYN` on the accepting side
  obtain ⟨host₂, ack, hsyn, ⟨hackType, hackSport, hackDport, hackSockid, hackPartition⟩, haccepting,
      hconn₂, htables₂⟩ :=
    Host.handleNtSynMsg_accepts hready (hdport ▸ ntohs_htons listenPort)
      (hsport ▸ ntohs_htons (portId p)) hpeerCreates.1 hpeerCreates.2 (net.ntmConn side.peer)
  -- `NT_SYN_ACK` on the connecting side
  have hrr := (net.host side.peer).ntp.roundRobinIdx_lt.trans_le
    (net.host side.peer).ntp.numPartition_le
  generalize (net.host side.peer).ntp.roundRobinIdx = partition at hrr hackPartition hconn₂ ⊢
  have htold : ack.partitionId.toNat = partition := by
    rw [hackPartition, UInt8.toNat_ofNat']
    exact Nat.mod_eq_of_lt (hrr.trans (by decide))
  obtain ⟨host₃, hsynAck, hstate₃, hring₃, hconn₃, hkeeps₃, hpeerPort₃⟩ :=
    Host.handleNtSynAckMsg_establishes { net.host side with ntm := ntm₁ } ack hconnecting
      (by rw [hackSockid, sockid]; omega) (by rw [hackDport, hsport, ntohs_htons])
      (by rw [hackSport, hdport, ntohs_htons]) (by rw [htold]; exact hrr.trans (by decide))
      hcreates.1 hcreates.2
  -- `NT_CLIENT_SYN_ACK` on the accepting side
  obtain ⟨ntm₄, hclient, hstate₄, hwrappers₄, hkeeps₄⟩ :=
    NtmManager.handleNtClientSynAckMsg_establishes haccepting (NtmManager.clientSynAck ack)
      hackSockid (by rw [← ntohs_htons listenPort, ← hdport, ← hackSport]; rfl)
  have hhandle₄ : host₂.ntmSockHandleMsg (net.shmAccept side.peer) (net.ntmConn side.peer)
      (NtmManager.clientSynAck ack) = some ({ host₂ with ntm := ntm₄ }, []) := by
    have hclientType : (NtmManager.clientSynAck ack).type = .ntClientSynAck := rfl
    simp only [Host.ntmSockHandleMsg, hclientType, hclient, Option.map_some]
  obtain ⟨net', hrun, hself, hpeer⟩ := handshakeActs_run h.quiet.1 h.quiet.2 hconnect
    (by rw [Host.ntmSockHandleMsg, htype]; exact hsyn)
    (by rw [Host.ntmSockHandleMsg, hackType]; exact hsynAck) hhandle₄
  refine ⟨net', hrun, ⟨?_, ?_, ?_, ?_, ?_, ?_⟩, ?_⟩
  · rw [hself, hstate₃]
  · rw [hpeer, hstate₄]
  · rw [hself, hconn₃, htold]
  · rw [hpeer, hconn₂]
  · rw [hself, hring₃, List.append_assoc]
    rfl
  · rw [hpeer, hwrappers₄]
    exact haccepting.queued
  · refine ⟨?_, ?_, ?_, ?_⟩
    · rw [hself]
      exact hkeeps₃.socketTables htables₁
    · rw [hself, hpeerPort₃, hackSport, hdport]
    · rw [hself, hkeeps₃.records]
      exact hrecords₁
    · rw [hpeer, ← hsport]
      obtain ⟨hkeeps, hpeer⟩ := hkeeps₄ (net.host side.peer).ntm.nextShmConn
      exact ⟨hkeeps.socketTables htables₂.tables, hpeer.trans htables₂.peer,
        hkeeps.ports.trans htables₂.ports, hkeeps.records.trans htables₂.records⟩

/-- The handshake in isolation. From any contents of the tables, a request to connect to a port with
a listener establishes the sockets of both ends; the two proxies hold the connection under mirrored
ports in one partition; and the application is told its port and then that the connection stands. -/
theorem handshake_establishes {net : Net} {side : Side} {tcp : Tcp} {msg : NtmMsg} {c i p : ℕ}
    {ring : List NtsMsg} {w j q : ℕ} (h : HandshakeReady net side tcp msg c i p ring w j q)
    (hnum : (net.host side).ntp.numPartition = (net.host side.peer).ntp.numPartition)
    (uninitialised : Option ℕ) :
    ∃ net', Runs.run Net.step net (handshakeActs side tcp uninitialised msg) = some net' ∧
      ((net'.host side).ntm.socket i).state = .established ∧
      ((net'.host side.peer).ntm.socket j).state = .established ∧
      (∃ conn conn' partition,
        (net'.host side).ntp.connOf (portId p) (UInt16.ofInt msg.port) = some conn ∧
        (net'.host side.peer).ntp.connOf (UInt16.ofInt msg.port) (portId p) = some conn' ∧
        conn.partitionId = partition ∧ conn'.partitionId = partition ∧
        partition < (net.host side).ntp.numPartition) ∧
      ∃ dispatched establish,
        ((net'.host side).ntm.shmConns c).ntsShmCtx = some (ring ++ [dispatched, establish]) ∧
        dispatched.msgType = .dispatched ∧ dispatched.retval = some 0 ∧
        dispatched.port = some ((portId p).toNat : ℤ) ∧
        establish.msgType = .establish ∧ establish.retval = some 0 := by
  obtain ⟨net', hrun, hdone, -⟩ := handshake_run h uninitialised
  refine ⟨net', hrun, hdone.client, hdone.accepted, ?_, ?_⟩
  · refine ⟨_, _, _, hdone.clientConn, hdone.acceptedConn, rfl, rfl, ?_⟩
    rw [hnum]
    exact (net.host side.peer).ntp.roundRobinIdx_lt
  · exact ⟨_, _, hdone.ring_eq, rfl, rfl, rfl, rfl, rfl⟩

section Sample

def samplePorts : NtPortContext :=
  NtPortContext.setStatus
    { status := fun _ => .unused
      numPorts := 8
      freeNtport := (List.range 8).foldl Tailq.insertTail Tailq.init }
    5 .used

def sampleManager (ports : NtPortContext) : NtmManager where
  listenIp := 0
  ntSockCtx :=
    { ntsock := fun i =>
        { socktype := if i = 1 then ntSockListener else 2
          opts := 0
          state := if i = 1 then .listening else .closed
          saddr := .zero
          epoll := 0 }
      freeNtsock := Tailq.init.insertTail 2 }
  ntPortCtx := ports
  portSockMap := fun _ => none
  ntsShmConnMap := fun id => if id = 1 then some 0 else if id = 2 then some 1 else none
  shmConns := fun c =>
    { sockid := c + 1
      socket := c
      peerSinPort := 0
      peerSinAddr := 0
      port := 0
      addrlen := 0
      ip := 0
      ntsShmCtx := some []
      listener := none
      ntmConn := none }
  nextShmConn := 2
  listenerMap := fun port => if port = 5 then some 0 else none
  wrappers := fun _ =>
    { socket := 1
      backlogCtx :=
        { mask := 127
          writeIndex := 0
          readIndex := 0
          data := fun _ =>
            { sockid := 0
              socktype := 0
              opts := 0
              state := .closed
              sinPort := 0
              sinAddr := 0
              sinFamily := 0 } }
      acceptedConnMap := fun _ => none
      ntsShmConn := 1 }
  connMap := fun _ => none
  epIoQueue := []

def sampleListener : NtmManager :=
  { sampleManager samplePorts with
    ntSockCtx :=
      { (sampleManager samplePorts).ntSockCtx with
        freeNtsock := (Tailq.init.insertTail 2).insertTail 3 } }

def sampleLink : NtbLinkCustom where
  port2conn := fun _ => none
  conns := fun _ => .create 0 0 0
  nextConn := 0
  numPartition := 2
  roundRobinIdx := 1
  partitions := fun _ => { numConns := 0, sendList := [] }
  numPartition_le := by decide
  roundRobinIdx_lt := by decide

def sampleNet (ports peerPorts : NtPortContext) : Net where
  host := fun side =>
    { ntm := sampleManager (if side = .left then ports else peerPorts), ntp := sampleLink }
  inbox := fun _ => []
  ntmConn := fun _ => { ip := 0, clientSock := 0 }
  shmAccept := fun _ _ => true

def sampleTcp : Tcp where
  connects := true
  clientSock := 3
  sends := true

def sampleRequest : NtmMsg where
  msgId := 1
  sockid := 1
  addrlen := 8
  port := 5
  address := 7

theorem sampleNet_ready {ports peerPorts : NtPortContext} {p q : ℕ}
    (hp : ∃ portCtx, ports.allocatePort = some (p, portCtx))
    (hq : ∃ portCtx, peerPorts.allocatePort = some (q, portCtx)) :
    HandshakeReady (sampleNet ports peerPorts) .left sampleTcp sampleRequest 0 0 p [] 0 2 q where
  connect := ⟨rfl, rfl, rfl, rfl, rfl, by decide, by decide, Or.inr rfl, rfl, hp⟩
  listen := by
    have hempty : (NtBacklogContext.maskIncrement 0 127 == 0) = false := by decide
    have hfresh : (2 : ℕ) ≠ 1 := by decide
    have hrecord : (1 : ℕ) < 2 := by decide
    exact ⟨rfl, rfl, hempty, rfl, hfresh, hq, hrecord, ⟨[], rfl⟩⟩
  creates := ⟨rfl, rfl⟩
  peerCreates := ⟨rfl, rfl⟩
  quiet := ⟨rfl, rfl⟩

theorem handshake_establishes_sample :
    ∃ net', Runs.run Net.step (sampleNet samplePorts samplePorts)
        (handshakeActs .left sampleTcp none sampleRequest) = some net' ∧
      ((net'.host .left).ntm.socket 0).state = .established ∧
      ((net'.host .right).ntm.socket 2).state = .established := by
  obtain ⟨net', hrun, hclient, haccepted, -⟩ := handshake_establishes
    (sampleNet_ready ⟨_, rfl⟩ ⟨_, rfl⟩ :
      HandshakeReady (sampleNet samplePorts samplePorts) .left sampleTcp sampleRequest 0 0 0 [] 0
        2 0)
    rfl none
  exact ⟨net', hrun, hclient, haccepted⟩

end Sample

end NtSocks.Ntm
