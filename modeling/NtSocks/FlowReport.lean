import NtSocks.CtrlRing
import NtSocks.IntKeys
import NtSocks.MessageRoundTrip

/-!
# Reporting a read index

A sender asks for the read index of a connection's receive ring with a `DETECT_PKG`. The receive
loop of the other host finds the connection by the swapped ports of the packet and answers on the
control ring, where `ntp_ctrl_msg_receive` of the asking host swaps the ports of the answer once
more. The answer carries the ports as they stood in the packet, so that the index is entered for
the connection with the two ports exchanged.
-/

namespace NtSocks

open Function

/-- The packet at the read index is a `DETECT_PKG` that a connection with the given identifier of
the other host has sent, and the loop handles it for its connection `c` with the same ports. -/
structure RecvState.Detects (cfg : NtpConfig) (port2conn : Port2Conn) (r : RecvState)
    (connId : UInt32) (c : ConnPtr) : Prop where
  srcPort : (r.header cfg).srcPort = (connId >>> 16).toUInt16
  dstPort : (r.header cfg).dstPort = connId.toUInt16
  type : dataLenGetType (r.header cfg).msgType = NtpacketType.detectPkg.code
  msgLen : (r.header cfg).msgLen ≠ 0
  table : port2conn (createConnId connId.toUInt16 (connId >>> 16).toUInt16) = some c
  lookup : r.lookupConn port2conn (r.header cfg) = some c
  ready : (r.conns c).state = .readyConn

structure CtrlLink.Idle (s : CtrlLink) : Prop where
  consumed : s.readIndex = s.writeIndex
  room : s.nextIndex ≠ s.localCumPtr

/-- One iteration of the receive loop of the host `peer`, whose answers go to the control ring, and
the receipt of one message at the host `origin`. -/
def reportRound (cfg : NtpConfig) (peer origin : Port2Conn) (r : RecvState) (ctrl : CtrlLink) :
    Option CtrlLink :=
  (r.recvStep cfg peer).bind fun r' =>
    ((r'.ctrlMsgs.drop r.ctrlMsgs.length).foldlM CtrlLink.ntbCtrlMsgEnqueue ctrl).bind
      fun ctrl => ctrl.ntpCtrlMsgReceive origin

variable {cfg : NtpConfig} {peer origin : Port2Conn} {r : RecvState} {a b : UInt16}
  {asking answering : ConnPtr}

theorem RecvState.Detects.recvStep (h : r.Detects cfg peer (createConnId a b) answering) :
    ∃ r', r.recvStep cfg peer = some r' ∧ r'.ctrlMsgs = r.ctrlMsgs ++ [{
      srcPort := a
      dstPort := b
      msgLen := 6
      readIndex := (r.conns answering).recvReadIndex }] := by
  have hsrc := h.srcPort
  have hdst := h.dstPort
  rw [createConnId_srcPort] at hsrc
  rw [createConnId_dstPort] at hdst
  have hlive : (r.accept peer (r.header cfg)).liveConn = some answering := by
    rw [liveConn_eq_some, accept_eq]
    exact ⟨h.lookup, h.ready⟩
  rw [recvStep_live cfg peer h.msgLen hlive, h.type, recvByType_detectPkg, Option.map_some,
    publishAtInterval_eq, accept_eq]
  refine ⟨_, rfl, ?_⟩
  simp only [recvDetect, detectPkgHandler, release, hsrc, hdst]

theorem CtrlLink.Idle.receive {s : CtrlLink} (h : s.Idle) (origin : Port2Conn) (msg : NtbCtrlMsg)
    (hlen : msg.msgLen ≠ 0) :
    ∃ s', s.ntbCtrlMsgEnqueue msg = some s' ∧
      s'.ntpCtrlMsgReceive origin = (origin (createConnId msg.dstPort msg.srcPort)).map fun c =>
        { s' with
          localCumPtr := s'.parserCtrlMsgHeader msg.msgLen
          peerReadIndex := update s.peerReadIndex c msg.readIndex
          readIndex := RingIndex.next s'.capacity s'.readIndex
          slot := update s'.slot s'.readIndex { msg with msgLen := 0 }
          received := s'.received ++ [msg] } := by
  refine ⟨_, by rw [ntbCtrlMsgEnqueue, if_neg h.room, setsPsh_eq_false], ?_⟩
  unfold ntpCtrlMsgReceive
  simp only [Bool.false_eq_true, if_false, h.consumed, update_self, hlen]
  cases origin (createConnId msg.dstPort msg.srcPort) <;> rfl

theorem RecvState.Detects.reportRound (h : r.Detects cfg peer (createConnId a b) answering)
    (origin : Port2Conn) {ctrl : CtrlLink} (hctrl : ctrl.Idle) :
    (reportRound cfg peer origin r ctrl).map (·.peerReadIndex) =
      (origin (createConnId b a)).map fun c =>
        update ctrl.peerReadIndex c (r.conns answering).recvReadIndex := by
  obtain ⟨r', hr', hmsgs⟩ := h.recvStep
  obtain ⟨s', hsend, hreceive⟩ := hctrl.receive origin {
    srcPort := a, dstPort := b, msgLen := 6
    readIndex := (r.conns answering).recvReadIndex } (show (6 : UInt16) ≠ 0 by decide)
  rw [NtSocks.reportRound, hr', Option.bind_some, hmsgs, List.drop_left]
  simp only [List.foldlM_cons, List.foldlM_nil, hsend, Option.bind_eq_bind, Option.bind_some,
    Option.pure_def, hreceive, Option.map_map]
  rfl

theorem reports_iff_lookup (h : r.Detects cfg peer (createConnId a b) answering) :
    (∀ ctrl : CtrlLink, ctrl.Idle → ∃ ctrl', reportRound cfg peer origin r ctrl = some ctrl' ∧
      ctrl'.peerReadIndex = update ctrl.peerReadIndex asking (r.conns answering).recvReadIndex) ↔
      origin (createConnId b a) = some asking := by
  constructor
  · intro hreports
    -- a ring whose indices all differ from the one reported shows where it is entered
    let index := (r.conns answering).recvReadIndex
    have hidle : (CtrlLink.init 32 fun _ => index + 1).Idle := ⟨rfl, show (1 : ℕ) ≠ 0 by decide⟩
    obtain ⟨ctrl', hround, hindex⟩ := hreports _ hidle
    have hmap := h.reportRound origin hidle
    rw [hround, Option.map_some, hindex] at hmap
    obtain ⟨c, hc, hupdate⟩ := Option.map_eq_some_iff.mp hmap.symm
    have hsame : c = asking := by
      by_contra hne
      have hat := congrFun hupdate asking
      rw [update_of_ne (Ne.symm hne), update_self] at hat
      exact absurd hat (Nat.succ_ne_self index)
    rw [hc, hsame]
  · intro hasking ctrl hidle
    have hmap := h.reportRound origin hidle
    rw [hasking, Option.map_some, Option.map_eq_some_iff] at hmap
    obtain ⟨ctrl', hround, hindex⟩ := hmap
    exact ⟨ctrl', hround, hindex⟩

/-- The read index of the answering connection's receive ring becomes the peer index of the asking
connection, which was entered under its ports `a` and `b`, whatever the peer indices were before,
exactly if the exchanged ports give the same string as the entry of the table that was written then,
and no later operation wrote or removed that entry. -/
theorem detect_reports_back_iff {behind : List UInt8}
    {met made table : HashMap IntKey.defaultOps ConnPtr} {later : List (HashMap.Op IntKey ConnPtr)}
    (htable : HashMap.PutOnce ⟨createConnId a b, behind⟩ asking met made later table)
    (following : List UInt8) (h : r.Detects cfg peer (createConnId a b) answering) :
    (∀ ctrl : CtrlLink, ctrl.Idle →
      ∃ ctrl', reportRound cfg peer (table.lookups following) r ctrl = some ctrl' ∧
        ctrl'.peerReadIndex = update ctrl.peerReadIndex asking (r.conns answering).recvReadIndex) ↔
      (met.putTarget ⟨createConnId a b, behind⟩).cstring =
        IntKey.cstring ⟨createConnId b a, following⟩ ∧
      Runs.Along HashMap.step
        (fun m op => m.Spares (met.putTarget ⟨createConnId a b, behind⟩) op) made later := by
  rw [reports_iff_lookup h, htable.lookups_iff]

section Sample

def detectPacket (srcPort dstPort : UInt16) : Packet where
  srcPort := srcPort
  dstPort := dstPort
  type := .detectPkg
  payload := []

def readFive : ConnPtr → NtbConn :=
  fun _ => { state := .readyConn, epoll := 0, sockid := 0, recvReadIndex := 5 }

def probed (port2conn : Port2Conn) (srcPort dstPort : UInt16) : Option LinkState :=
  (LinkState.init readFive none).step smallRing port2conn
    (.send .ntbDataMsgEnqueue (detectPacket srcPort dstPort))

def sevenPort : Port2Conn := fun id => if id = createConnId 7 7 then some 0 else none

theorem detect_reports_back_equal_ports :
    ∃ (s : LinkState) (table : HashMap IntKey.defaultOps ConnPtr), probed sevenPort 7 7 = some s ∧
      Runs.run HashMap.step HashMap.createHashMap
        [.put ⟨createConnId 7 7, []⟩ 0, .put ⟨createConnId 7 8, []⟩ 1] = some table ∧
      ∀ ctrl : CtrlLink, ctrl.Idle →
        ∃ ctrl', reportRound smallRing sevenPort (table.lookups [1]) s.recv ctrl = some ctrl' ∧
          ctrl'.peerReadIndex = update ctrl.peerReadIndex 0 5 := by
  refine ⟨_, _, rfl, rfl, ?_⟩
  refine (@detect_reports_back_iff smallRing sevenPort _ 7 7 0 0 [] _ _ _
    [.put ⟨createConnId 7 8, []⟩ 1] ⟨⟨[], rfl, by simp⟩, rfl, rfl, by decide⟩ [1] ?_).mpr
    ⟨by decide +kernel, by decide +kernel⟩
  exact ⟨by decide, by decide, by decide, by decide, by decide, by decide, by decide⟩

def bothWays : Port2Conn := fun id =>
  if id = createConnId 1 2 then some 0 else if id = createConnId 2 1 then some 1 else none

/-- The index asked for by the connection (1, 2) is entered for the connection (2, 1); without such
a connection the host follows a null pointer. -/
theorem detect_updates_exchanged_ports :
    ∃ s, probed onePort 1 2 = some s ∧
      (∃ ctrl', reportRound smallRing onePort bothWays s.recv (CtrlLink.init 32 fun _ => 0) =
          some ctrl' ∧ ctrl'.peerReadIndex 0 = 0 ∧ ctrl'.peerReadIndex 1 = 5) ∧
      reportRound smallRing onePort (fun id => if id = createConnId 1 2 then some 0 else none)
        s.recv (CtrlLink.init 32 fun _ => 0) = none :=
  ⟨_, rfl, ⟨_, rfl, by decide, by decide⟩, by rfl⟩

end Sample

end NtSocks
