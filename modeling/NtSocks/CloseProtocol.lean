import NtSocks.Handshake
import NtSocks.MonitorUpdates

/-!
# Closing a connection

The end that closes first sends a `FIN` on the data path. The library of the other end reads it and
asks its monitor with `NTM_MSG_FIN` to release the socket; that monitor sends `NT_FIN_ACK`, and the
closing monitor looks for the closing socket under the destination port of the message. An accepted
socket is known to its peer by the port of the listener, which is not the port it is found under.
-/

namespace NtSocks.Ntm

open Function

open NtPortContext (portId)
open NtSocks.Ntm.NtSockContext (sockid)

inductive Role
  | connecting
  | accepting
  deriving DecidableEq, Repr

def Role.other : Role → Role
  | .connecting => .accepting
  | .accepting => .connecting

/-- The two ends of a connection. `mgr` is the monitor of an end at the time when it handles its
message of the close protocol, so other messages may be handled in between. -/
structure Connection where
  mgr : Role → NtmManager
  record : Role → ℕ
  socket : Role → ℕ
  port : Role → UInt16
  listenPort : UInt16

structure OthersKept (mgr mgr' : NtmManager) (i : ℕ) : Prop where
  socket : ∀ k, k ≠ i → mgr'.socket k = mgr.socket k
  record : ∀ k, k ≠ i → mgr'.ntsShmConnMap (sockid k) = mgr.ntsShmConnMap (sockid k)
  conn : ∀ k c, k ≠ i → mgr.ntsShmConnMap (sockid k) = some c → mgr'.shmConns c = mgr.shmConns c
  accepted : ∀ w k, k ≠ i → (mgr'.wrappers w).acceptedConnMap (sockid k) =
    (mgr.wrappers w).acceptedConnMap (sockid k)
  port : ∀ p k, k ≠ i → (mgr'.portSockMap p = some k ↔ mgr.portSockMap p = some k)

namespace Connection

variable (conn : Connection)

def peerPort : Role → UInt16
  | .connecting => conn.listenPort
  | .accepting => conn.port .connecting

structure Established : Prop where
  tables : ∀ role,
    SocketTables (conn.mgr role) (conn.record role) (conn.socket role) (conn.port role)
  own : ∀ role k, (conn.mgr role).ntsShmConnMap (sockid k) = some (conn.record role) →
    k = conn.socket role
  state : ∀ role, ((conn.mgr role).socket (conn.socket role)).state = .established
  peer : ∀ role, ((conn.mgr role).shmConns (conn.record role)).peerSinPort =
    (htons (conn.peerPort role)).toUInt32
  ring : ∃ ring, ((conn.mgr .connecting).shmConns (conn.record .connecting)).ntsShmCtx = some ring
  listen : (conn.mgr .accepting).portSockMap conn.listenPort.toNat ≠ some (conn.socket .accepting)

/-- The message `finAck` is matched to the closing socket, which receives `NTS_MSG_CLOSE`, and no
other socket of the two monitors is affected. -/
structure Closed (closing : Role) (finAck : NtmSockMsg) (closing' other' : NtmManager) :
    Prop where
  matched : (conn.mgr closing).portSockMap (ntohs finAck.dport).toNat = some (conn.socket closing)
  receives : ∃ ring msg,
    ((conn.mgr closing).shmConns (conn.record closing)).ntsShmCtx = some ring ∧
    (closing'.shmConns (conn.record closing)).ntsShmCtx = some (ring ++ [msg]) ∧
    msg.msgType = .close ∧ msg.sockid = (sockid (conn.socket closing) : ℤ)
  others : OthersKept (conn.mgr closing) closing' (conn.socket closing)
  otherEnd : OthersKept (conn.mgr closing.other) other' (conn.socket closing.other)

end Connection

variable {mgr mgr' : NtmManager} {c i : ℕ} {port : UInt16}

theorem sockid_ne_of_ne {k i : ℕ} (h : k ≠ i) : (sockid k : ℤ) ≠ sockid i := by
  simp only [sockid]
  omega

theorem sockid_ne (i : ℕ) : sockid i ≠ i := Nat.succ_ne_self i

namespace OthersKept

theorem trans {mgr'' : NtmManager} (h : OthersKept mgr mgr' i) (h' : OthersKept mgr' mgr'' i) :
    OthersKept mgr mgr'' i where
  socket := fun k hk => (h'.socket k hk).trans (h.socket k hk)
  record := fun k hk => (h'.record k hk).trans (h.record k hk)
  conn := fun k c hk hrecord =>
    (h'.conn k c hk ((h.record k hk).trans hrecord)).trans (h.conn k c hk hrecord)
  accepted := fun w k hk => (h'.accepted w k hk).trans (h.accepted w k hk)
  port := fun p k hk => (h'.port p k hk).trans (h.port p k hk)

theorem setState (mgr : NtmManager) (i : ℕ) (state : SocketState) :
    OthersKept mgr (mgr.setState i state) i where
  socket := fun _ hk => mgr.modifySocket_of_ne hk _
  record := fun _ _ => rfl
  conn := fun _ _ _ _ => rfl
  accepted := fun _ _ _ => rfl
  port := fun _ _ _ => Iff.rfl

theorem setRing (hown : ∀ k, mgr.ntsShmConnMap (sockid k) = some c → k = i) (ring : List NtsMsg) :
    OthersKept mgr (mgr.setRing c ring) i where
  socket := fun _ _ => rfl
  record := fun _ _ => rfl
  conn := fun k c' hk hrecord => by
    refine mgr.modifyShmConn_of_ne ?_ _
    rintro rfl
    exact hk (hown k hrecord)
  accepted := fun _ _ _ => rfl
  port := fun _ _ _ => Iff.rfl

theorem releasePort {p : ℕ} (hport : mgr.portSockMap p = some i) :
    OthersKept mgr (mgr.releasePort p) i where
  socket := fun _ _ => rfl
  record := fun _ _ => rfl
  conn := fun _ _ _ _ => rfl
  accepted := fun _ _ _ => rfl
  port := fun p' k hk => by
    change update mgr.portSockMap p none p' = some k ↔ _
    by_cases hp : p' = p
    · subst hp
      rw [update_self, hport]
      simp [hk.symm]
    · rw [update_of_ne hp]

theorem setAccepted (mgr : NtmManager) (i w : ℕ) :
    OthersKept mgr (mgr.setAccepted w (sockid i) none) i where
  socket := fun _ _ => rfl
  record := fun _ _ => rfl
  conn := fun _ _ _ _ => rfl
  accepted := fun w' k hk => by
    by_cases hw : w' = w
    · subst hw
      rw [NtmManager.setAccepted, NtmManager.modifyWrapper_self]
      exact update_of_ne (sockid_ne_of_ne hk) _ _
    · rw [NtmManager.setAccepted, NtmManager.modifyWrapper]
      exact congrArg (fun wrapper : NtListenerWrapper => wrapper.acceptedConnMap (sockid k))
        (update_of_ne hw _ mgr.wrappers)
  port := fun _ _ _ => Iff.rfl

theorem setShmConn (mgr : NtmManager) (i : ℕ) :
    OthersKept mgr (mgr.setShmConn (sockid i) none) i where
  socket := fun _ _ => rfl
  record := fun _ hk => update_of_ne (sockid_ne_of_ne hk) _ mgr.ntsShmConnMap
  conn := fun _ _ _ _ => rfl
  accepted := fun _ _ _ => rfl
  port := fun _ _ _ => Iff.rfl

end OthersKept

namespace NtmManager

def NextUnused (mgr : NtmManager) (i : ℕ) : Prop := (mgr.socket (sockid i)).socktype = ntSockUnused

theorem freeSocket_socktype (ctx : NtSockContext) (id : ℕ) :
    ((ctx.freeSocket id).ntsock id).socktype = ntSockUnused := by
  rw [NtSockContext.freeSocket]
  split
  · assumption
  · change ((ctx.modify id fun socket => { socket with socktype := ntSockUnused }).ntsock
      id).socktype = ntSockUnused
    rw [NtSockContext.modify_ntsock_self]

theorem releaseSocket_nextUnused (mgr : NtmManager) (i c : ℕ) :
    (mgr.releaseSocket i c).NextUnused i := freeSocket_socktype _ _

theorem destroyClientNtSocketConn_shmConns (mgr : NtmManager) (i c p : ℕ) :
    (mgr.destroyClientNtSocketConn i c p).shmConns = mgr.shmConns := by
  simp only [destroyClientNtSocketConn]
  split
  · split <;> rfl
  · rfl

theorem releaseSocket_others (mgr : NtmManager) (h : mgr.NextUnused i) (c : ℕ) :
    OthersKept mgr (mgr.releaseSocket i c) i := by
  -- the accepted socket is removed from its listener first
  have hremove : ∃ mgr₁, OthersKept mgr mgr₁ i ∧ mgr₁.ntSockCtx = mgr.ntSockCtx ∧
      mgr.releaseSocket i c = { mgr₁.setShmConn (sockid i) none with
          ntSockCtx := mgr₁.ntSockCtx.freeSocket (sockid i) } := by
    have hrefl : OthersKept mgr mgr i :=
      ⟨fun _ _ => rfl, fun _ _ => rfl, fun _ _ _ _ => rfl, fun _ _ _ => rfl, fun _ _ _ => Iff.rfl⟩
    simp only [releaseSocket]
    split
    · split
      · exact ⟨_, OthersKept.setAccepted mgr i _, rfl, rfl⟩
      · exact ⟨mgr, hrefl, rfl, rfl⟩
    · exact ⟨mgr, hrefl, rfl, rfl⟩
  obtain ⟨mgr₁, hothers, hctx, heq⟩ := hremove
  have hfree : mgr₁.ntSockCtx.freeSocket (sockid i) =
      (mgr₁.setShmConn (sockid i) none).ntSockCtx := by
    rw [hctx]
    exact (if_pos h).trans hctx.symm
  rw [heq, hfree]
  exact hothers.trans (OthersKept.setShmConn mgr₁ i)

theorem destroyClientNtSocketConn_others (mgr : NtmManager) {p : ℕ}
    (hport : mgr.portSockMap p = some i) (h : mgr.NextUnused i) (c : ℕ) :
    OthersKept mgr (mgr.destroyClientNtSocketConn i c p) i := by
  rw [destroyClientNtSocketConn_eq]
  exact (OthersKept.releasePort hport).trans (releaseSocket_others (mgr.releasePort p) h c)

theorem setState_nextUnused {state : SocketState} :
    (mgr.setState i state).NextUnused i ↔ mgr.NextUnused i := by
  rw [NextUnused, setState, modifySocket_of_ne mgr (sockid_ne i)]
  rfl

variable (h : SocketTables mgr c i port) {ring : List NtsMsg} {finAck msg : NtmSockMsg} {tcp : Tcp}
include h

theorem destroyWithSock_eq :
    mgr.destroyClientNtSocketConnWithSock i =
      if port.toNat ≠ 0 then mgr.destroyClientNtSocketConn i c port.toNat
      else mgr.releaseSocket i c := by
  simp only [destroyClientNtSocketConnWithSock, h.record, h.sinPort, ntohs_htons]

theorem destroyWithSock_nextUnused : (mgr.destroyClientNtSocketConnWithSock i).NextUnused i := by
  rw [destroyWithSock_eq h]
  split <;> exact releaseSocket_nextUnused _ i c

theorem destroyWithSock_others (hnext : mgr.NextUnused i) :
    OthersKept mgr (mgr.destroyClientNtSocketConnWithSock i) i := by
  rw [destroyWithSock_eq h]
  split
  · exact destroyClientNtSocketConn_others mgr h.portSock hnext c
  · exact releaseSocket_others mgr hnext c

theorem setState_tables (state : SocketState) : SocketTables (mgr.setState i state) c i port :=
  ⟨h.portSock, h.record, h.socket, by rw [setState, modifySocket_self]; exact h.sinPort⟩

theorem handleMsgNtsFin_emits {msg : NtmMsg} (hsockid : msg.sockid = sockid i)
    (hfin : mgr.handleMsgNtsFin tcp msg = (mgr', [finAck])) :
    finAck.dport = (mgr.shmConns c).peerSinPort.toUInt16 ∧
      mgr' = ((mgr.setState i .waitClose).setState i
        .closed).destroyClientNtSocketConnWithSock i := by
  have hrecord : mgr.ntsShmConnMap msg.sockid = some c := by rw [hsockid, h.record]
  simp only [handleMsgNtsFin, hrecord, h.socket] at hfin
  -- every other way through the handler sends nothing
  split at hfin
  · cases hfin
  · split at hfin
    · cases hfin
    · split at hfin
      · cases hfin
      · split at hfin
        · cases hfin
          exact ⟨rfl, rfl⟩
        · cases hfin

theorem handleMsgNtsFin_others {msg : NtmMsg} (hsockid : msg.sockid = sockid i)
    (hfin : mgr.handleMsgNtsFin tcp msg = (mgr', [finAck])) :
    OthersKept mgr mgr' i ↔ mgr.NextUnused i := by
  obtain ⟨-, rfl⟩ := handleMsgNtsFin_emits h hsockid hfin
  have htables := setState_tables (setState_tables h .waitClose) .closed
  constructor
  · intro hothers
    rw [NextUnused, ← hothers.socket _ (sockid_ne i)]
    exact destroyWithSock_nextUnused htables
  · intro hnext
    exact ((OthersKept.setState mgr i .waitClose).trans (OthersKept.setState _ i .closed)).trans
      (destroyWithSock_others htables (setState_nextUnused.mpr (setState_nextUnused.mpr hnext)))

theorem handleNtFinAckMsg_closes (hring : (mgr.shmConns c).ntsShmCtx = some ring)
    (hdport : ntohs msg.dport = port) :
    mgr.handleNtFinAckMsg msg =
      some ((((mgr.setState i .waitClose).setRing c (ring ++ [closeMsg i])).setState i
        .closed).destroyClientNtSocketConn i c port.toNat) := by
  have hrecord : (mgr.setState i .waitClose).ntsShmConnMap (sockid i) = some c := h.record
  simp only [handleNtFinAckMsg, hdport, h.portSock, hrecord]
  rw [ntsShmSend_eq (mgr.setState i .waitClose) hring]
  rfl

theorem handleNtFinAckMsg_others (hown : ∀ k, mgr.ntsShmConnMap (sockid k) = some c → k = i)
    (hring : (mgr.shmConns c).ntsShmCtx = some ring) (hdport : ntohs msg.dport = port)
    (hfin : mgr.handleNtFinAckMsg msg = some mgr') : OthersKept mgr mgr' i ↔ mgr.NextUnused i := by
  rw [handleNtFinAckMsg_closes h hring hdport] at hfin
  cases hfin
  constructor
  · intro hothers
    rw [NextUnused, ← hothers.socket _ (sockid_ne i)]
    exact releaseSocket_nextUnused _ i c
  · intro hnext
    have hown' : ∀ k, (mgr.setState i .waitClose).ntsShmConnMap (sockid k) = some c → k = i := hown
    have hwait := (OthersKept.setState mgr i .waitClose).trans
      (OthersKept.setRing hown' (ring ++ [closeMsg i]))
    have hsent := hwait.trans (OthersKept.setState _ i .closed)
    apply hsent.trans
    apply destroyClientNtSocketConn_others
    · exact h.portSock
    · exact setState_nextUnused.mpr (setState_nextUnused.mpr hnext)

end NtmManager

namespace Connection

open NtmManager

variable {conn : Connection} {tcp : Tcp} {msg : NtmMsg} {finAck : NtmSockMsg} {other' : NtmManager}

theorem Established.dport (h : conn.Established) {role : Role}
    (hsockid : msg.sockid = sockid (conn.socket role))
    (hfin : (conn.mgr role).handleMsgNtsFin tcp msg = (other', [finAck])) :
    ntohs finAck.dport = conn.peerPort role := by
  rw [(handleMsgNtsFin_emits (h.tables role) hsockid hfin).1, h.peer role,
    UInt16.toUInt16_toUInt32, ntohs_htons]

/-- For every established connection and either end as the closing one: the `NT_FIN_ACK` of the
other end closes exactly the closing socket if and only if it is the connecting end that closes and,
on both hosts, the table entry after the socket of the connection is marked unused. -/
theorem close_matched_iff (h : conn.Established) (closing : Role)
    (hsockid : msg.sockid = sockid (conn.socket closing.other))
    (hfin : (conn.mgr closing.other).handleMsgNtsFin tcp msg = (other', [finAck])) :
    (∃ closing', (conn.mgr closing).handleNtFinAckMsg finAck = some closing' ∧
        conn.Closed closing finAck closing' other') ↔
      closing = .connecting ∧ ∀ role, (conn.mgr role).NextUnused (conn.socket role) := by
  have hdport := h.dport hsockid hfin
  have hother := handleMsgNtsFin_others (h.tables closing.other) hsockid hfin
  cases closing with
  | accepting =>
      -- the message goes to the port of the listener
      refine iff_of_false ?_ fun hcond => Role.noConfusion hcond.1
      rintro ⟨closing', -, hclosed⟩
      have hmatched := hclosed.matched
      rw [hdport] at hmatched
      exact h.listen hmatched
  | connecting =>
      obtain ⟨ring, hring⟩ := h.ring
      have htables := h.tables .connecting
      have hport : ntohs finAck.dport = conn.port .connecting := hdport
      have hcloses := handleNtFinAckMsg_closes htables hring hport
      have hothers := handleNtFinAckMsg_others htables (h.own .connecting) hring hport hcloses
      constructor
      · rintro ⟨closing', hclosing', hclosed⟩
        refine ⟨rfl, ?_⟩
        rintro (_ | _)
        · rw [hcloses] at hclosing'
          cases hclosing'
          exact hothers.mp hclosed.others
        · exact hother.mp hclosed.otherEnd
      · rintro ⟨-, hnext⟩
        refine ⟨_, hcloses, ?_, ⟨ring, closeMsg (conn.socket .connecting), hring, ?_, rfl, rfl⟩,
          hothers.mpr (hnext .connecting), hother.mpr (hnext .accepting)⟩
        · rw [hport]
          exact htables.portSock
        · rw [destroyClientNtSocketConn_shmConns]
          exact setRing_ntsShmCtx ((conn.mgr .connecting).setState _ .waitClose) _ _

def ofHandshake (net net' : Net) (side : Side) (listenPort : UInt16) (c i p j q : ℕ) :
    Connection where
  mgr := fun
    | .connecting => (net'.host side).ntm
    | .accepting => (net'.host side.peer).ntm
  record := fun
    | .connecting => c
    | .accepting => (net.host side.peer).ntm.nextShmConn
  socket := fun
    | .connecting => i
    | .accepting => j
  port := fun
    | .connecting => portId p
    | .accepting => portId q
  listenPort := listenPort

section Sample

def sampleEnd (port peerPort : UInt16) : NtmManager :=
  { sampleManager samplePorts with
    ntSockCtx :=
      { ntsock := fun k =>
          { socktype := if k = 0 then 2 else ntSockUnused
            opts := 0
            state := if k = 0 then .established else .closed
            saddr := { sinFamily := afInet, sinPort := htons port, sinAddr := 0 }
            epoll := 0 }
        freeNtsock := Tailq.init }
    portSockMap := fun p => if p = port.toNat then some 0 else none
    ntsShmConnMap := fun id => if id = 1 then some 0 else none
    shmConns := fun _ =>
      { sockid := 1
        socket := 0
        peerSinPort := (htons peerPort).toUInt32
        peerSinAddr := 0
        port := 0
        addrlen := 0
        ip := 0
        ntsShmCtx := some []
        listener := none
        ntmConn := some { ip := 0, clientSock := 0 } } }

def sampleConnection : Connection where
  mgr := fun
    | .connecting => sampleEnd 3 5
    | .accepting => sampleEnd 4 3
  record := fun _ => 0
  socket := fun _ => 0
  port := fun
    | .connecting => 3
    | .accepting => 4
  listenPort := 5

theorem sampleEnd_tables (port peerPort : UInt16) :
    SocketTables (sampleEnd port peerPort) 0 0 port where
  portSock := if_pos rfl
  record := rfl
  socket := rfl
  sinPort := rfl

theorem sampleConnection_established : sampleConnection.Established where
  tables := by
    rintro (_ | _)
    · exact sampleEnd_tables 3 5
    · exact sampleEnd_tables 4 3
  own := by
    have hown : ∀ k : ℕ, (if (sockid k : ℤ) = 1 then some 0 else none) = some 0 → k = 0 := by
      intro k hk
      split at hk
      case isTrue hid =>
        rw [sockid] at hid
        omega
      · cases hk
    rintro (_ | _) k hk
    · exact hown k hk
    · exact hown k hk
  state := by rintro (_ | _) <;> rfl
  peer := by rintro (_ | _) <;> rfl
  ring := ⟨[], rfl⟩
  listen := by decide

def sampleFin : NtmMsg where
  msgId := 1
  sockid := 1
  addrlen := 0
  port := 0
  address := 0

theorem close_matched_iff_connecting :
    ∃ other' finAck closing',
      (sampleConnection.mgr .accepting).handleMsgNtsFin sampleTcp sampleFin = (other', [finAck]) ∧
      (sampleConnection.mgr .connecting).handleNtFinAckMsg finAck = some closing' ∧
      sampleConnection.Closed .connecting finAck closing' other' := by
  obtain ⟨other', finAck, hfin⟩ : ∃ other' finAck,
      (sampleConnection.mgr .accepting).handleMsgNtsFin sampleTcp sampleFin = (other', [finAck]) :=
    ⟨_, _, rfl⟩
  obtain ⟨closing', hcloses, hclosed⟩ :=
    (close_matched_iff sampleConnection_established .connecting rfl hfin).mpr
      ⟨rfl, by rintro (_ | _) <;> rfl⟩
  exact ⟨other', finAck, closing', hfin, hcloses, hclosed⟩

/-- The accepted socket is closed first: the message of the connecting end goes to port 5, the
accepting monitor finds no socket there, and nothing is sent to the library. -/
theorem accepting_close_unmatched :
    sampleConnection.Established ∧ ∃ other' finAck,
      (sampleConnection.mgr .connecting).handleMsgNtsFin sampleTcp sampleFin = (other', [finAck]) ∧
      (sampleConnection.mgr .accepting).handleNtFinAckMsg finAck =
        some (sampleConnection.mgr .accepting) ∧
      ¬ ∃ closing', sampleConnection.Closed .accepting finAck closing' other' := by
  refine ⟨sampleConnection_established, _, _, rfl, rfl, ?_⟩
  rintro ⟨closing', hclosed⟩
  exact sampleConnection_established.listen hclosed.matched

end Sample

end Connection

end NtSocks.Ntm
