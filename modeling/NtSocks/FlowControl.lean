import NtSocks.DataRingFifo
import NtSocks.NtpSend
import NtSocks.Shmring

/-!
# Flow control between two proxies

The connections of one partition, in one direction. An application writes messages into the send
ring of a connection; `ntp_send_buff_data` forwards up to `bulk_size` of them in a call over the
data link; the receive loop of the other proxy puts each into the receive ring of its connection,
from which the peer application reads. Connections have the same number on both hosts.

The window that `ntp_send_buff_data` computes decides only whether it probes for the read index of
the peer. `forwarded`, `read`, `reported` and the free space beside a control message are histories,
read by no step.
-/

namespace NtSocks

open Function

structure TakenBulk where
  taken : List NtpMsg
  ring : Shmring NtpMsg
  fin : Bool

def takeBulk : ℕ → Shmring NtpMsg → TakenBulk
  | 0, ring => ⟨[], ring, false⟩
  | bulk + 1, ring =>
    match ring.shmringPop with
    | none => ⟨[], ring, false⟩
    | some (msg, ring) =>
      match msg.msgType with
      | .ntpFin => ⟨[msg], ring, true⟩
      | .ntpData =>
        let rest := takeBulk bulk ring
        ⟨msg :: rest.taken, rest.ring, rest.fin⟩

namespace NtpMsg

def packet (connId : UInt32) (msg : NtpMsg) : Packet where
  srcPort := (connId >>> 16).toUInt16
  dstPort := connId.toUInt16
  type := match msg.msgType with
    | .ntpData => .singlePkg
    | .ntpFin => .finPkg
  payload := msg.payload

/-- The message goes as one packet into one slot. -/
structure Whole (cfg : NtpConfig) (connId : UInt32) (msg : NtpMsg) : Prop where
  msgLen : msg.msgLen.toNat = msg.payload.length
  fits : (msg.packet connId).Fits cfg
  fin : msg.msgType = .ntpFin → msg.payload = []

instance (cfg : NtpConfig) (p : Packet) : Decidable (p.Fits cfg) :=
  decidable_of_iff (8 + p.payload.length ≤ cfg.dataPacketSize ∧
    8 + p.payload.length ≤ cfg.stride + 4 ∧ 8 ≤ cfg.stride ∧ p.type ≠ .multiPkg ∧ p.PortsSet)
    ⟨fun ⟨h₁, h₂, h₃, h₄, h₅⟩ => ⟨h₁, h₂, h₃, h₄, h₅⟩,
      fun ⟨h₁, h₂, h₃, h₄, h₅⟩ => ⟨h₁, h₂, h₃, h₄, h₅⟩⟩

instance (cfg : NtpConfig) (connId : UInt32) (msg : NtpMsg) : Decidable (msg.Whole cfg connId) :=
  decidable_of_iff (msg.msgLen.toNat = msg.payload.length ∧ (msg.packet connId).Fits cfg ∧
    (msg.msgType = .ntpFin → msg.payload = []))
    ⟨fun ⟨h₁, h₂, h₃⟩ => ⟨h₁, h₂, h₃⟩, fun ⟨h₁, h₂, h₃⟩ => ⟨h₁, h₂, h₃⟩⟩

end NtpMsg

/-- What does not change in a run: the configuration, the identifiers that the sending host gave the
connections, and the tables of the receiving and of the sending host. -/
structure FlowSetup where
  cfg : NtpConfig
  bulkSize : ℕ
  connId : ConnPtr → UInt32
  port2conn : Port2Conn
  origin : Port2Conn

/-- A connection with its two ends. `reported` is the free space of the receive ring that the
sending host was last told. -/
structure FlowConn where
  sendRing : Shmring NtpMsg
  peerReadIndex : ℕ
  detectTime : ℕ
  sendState : ConnState
  recvRing : Shmring NtpMsg
  forwarded : ℕ
  read : ℕ
  reported : ℕ

structure FlowReply where
  msg : NtbCtrlMsg
  free : ℕ

structure FlowState where
  send : SendSide
  recv : RecvState
  conns : ConnPtr → FlowConn
  replies : List FlowReply

/-- A call of `ntp_send_buff_data` comes with the value of its uninitialised packet header. -/
inductive FlowAct
  | write (c : ConnPtr) (msg : NtpMsg)
  | send (c : ConnPtr) (dataPacket : NtpacketHeader) (currentTime : ℕ)
  | recv
  | publish
  | arrive
  | report
  | read (c : ConnPtr)
  | close (c : ConnPtr)

namespace FlowConn

variable (k : FlowConn)

def outstanding : ℕ := k.forwarded - k.read

/-- Messages forwarded that are not yet in the receive ring. -/
def underWay : ℕ := k.outstanding - k.recvRing.contents.length

def free : ℕ := ntsMaxBufs - 1 - k.recvRing.contents.length

def init (detectTime : ℕ) (data : ℕ → NtpMsg) : FlowConn where
  sendRing := Shmring.shmringCreate ntsMaxBufs data
  peerReadIndex := 0
  detectTime := detectTime
  sendState := .readyConn
  recvRing := Shmring.shmringCreate ntsMaxBufs data
  forwarded := 0
  read := 0
  reported := ntsMaxBufs - 1

end FlowConn

namespace FlowState

def init (conns : ConnPtr → NtbConn) (conn : Option ConnPtr) (detectTime : ConnPtr → ℕ)
    (data : ℕ → NtpMsg) : FlowState where
  send := (LinkState.init conns conn).send
  recv := (LinkState.init conns conn).recv
  conns := fun c => .init (detectTime c) data
  replies := []

variable (net : FlowSetup) (s : FlowState) (c : ConnPtr)

def modify (f : FlowConn → FlowConn) : FlowState :=
  { s with conns := update s.conns c (f (s.conns c)) }

def sendBuffData (dataPacket : NtpacketHeader) (currentTime : ℕ) : Option FlowState :=
  let k := s.conns c
  let bulk := takeBulk net.bulkSize k.sendRing
  (ntpSendBuffData net.cfg net.bulkSize (net.connId c) k.sendRing.contents k.sendState
      k.sendRing.readIdx k.peerReadIndex currentTime k.detectTime
      { link := s.send, writes := [], dataPacket := dataPacket }).map fun o =>
    let s := s.modify c fun k => { k with
      sendRing := bulk.ring
      detectTime := o.detectTime
      sendState := o.state
      forwarded := k.forwarded + bulk.taken.length }
    { s with send := o.frame.link, recv := s.recv.remoteWrite o.frame.writes }

/-- `none` while `ntp_shm_send` repeats its push on a full ring. -/
def ntpShmSend (conns : ConnPtr → FlowConn) (x : ConnPtr × NtpMsg) :
    Option (ConnPtr → FlowConn) :=
  ((conns x.1).recvRing.shmringPush x.2).map fun ring =>
    update conns x.1 { conns x.1 with recvRing := ring }

/-- One iteration of the receive loop, with the pushes that it makes. -/
def receive : Option FlowState :=
  (s.recv.recvStep net.cfg net.port2conn).bind fun r =>
    let free := (r.conn.map fun c => (s.conns c).free).getD 0
    let replies := (r.ctrlMsgs.drop s.recv.ctrlMsgs.length).map fun msg => ⟨msg, free⟩
    ((r.handed.drop s.recv.handed.length).foldlM ntpShmSend s.conns).map fun conns =>
      { s with recv := r, conns := conns, replies := s.replies ++ replies }

def report : Option FlowState :=
  match s.replies with
  | [] => none
  | reply :: replies =>
    (net.origin (createConnId reply.msg.dstPort reply.msg.srcPort)).map fun c =>
      let s := s.modify c fun k =>
        { k with peerReadIndex := reply.msg.readIndex, reported := reply.free }
      { s with replies := replies }

def readMsg : Option FlowState :=
  ((s.conns c).recvRing.shmringPop).map fun popped =>
    let conn := { s.recv.conns c with recvReadIndex := popped.2.readIdx }
    let s := s.modify c fun k => { k with recvRing := popped.2, read := k.read + 1 }
    { s with recv := { s.recv with conns := update s.recv.conns c conn } }

def step : FlowAct → Option FlowState
  | .write c msg => ((s.conns c).sendRing.shmringPush msg).map fun ring =>
    s.modify c fun k => { k with sendRing := ring }
  | .send c dataPacket currentTime =>
    if (s.conns c).sendState = .readyConn then s.sendBuffData net c dataPacket currentTime else none
  | .recv => s.receive net
  | .publish => some { s with recv := s.recv.transDataLinkCurIndex }
  | .arrive =>
    match s.recv.remoteCumWrites with
    | [] => none
    | u :: us => some { s with
      send := { s.send with localCumPtr := u }
      recv := { s.recv with remoteCumWrites := us } }
  | .report => s.report net
  | .read c => s.readMsg c
  | .close c => some { s with recv := s.recv.setConnState c .activeClose }

/-- No connection has more messages forwarded and unread than the free space last reported; the
receive loop completes its next iteration and, while a message of some connection is under way, puts
one into a receive ring. -/
structure Controlled : Prop where
  outstanding_le : ∀ c, (s.conns c).outstanding ≤ (s.conns c).reported
  completes : ∃ s', s.receive net = some s' ∧ ((∃ c, (s.conns c).underWay ≠ 0) →
    ∃ c msg, (s'.conns c).recvRing.contents = (s.conns c).recvRing.contents ++ [msg])

/-- The receiving host has the connection of the call, and each message taken fits a slot. -/
structure Carried : Prop where
  table : net.port2conn (createConnId (net.connId c).toUInt16 (net.connId c >>> 16).toUInt16) =
    some c
  ready : (s.recv.conns c).state = .readyConn
  whole : ∀ msg ∈ (takeBulk net.bulkSize (s.conns c).sendRing).taken,
    msg.Whole net.cfg (net.connId c)

instance : Decidable (s.Carried net c) :=
  decidable_of_iff
    (net.port2conn (createConnId (net.connId c).toUInt16 (net.connId c >>> 16).toUInt16) = some c ∧
      (s.recv.conns c).state = .readyConn ∧
      ∀ msg ∈ (takeBulk net.bulkSize (s.conns c).sendRing).taken,
        msg.Whole net.cfg (net.connId c))
    ⟨fun ⟨h₁, h₂, h₃⟩ => ⟨h₁, h₂, h₃⟩, fun ⟨h₁, h₂, h₃⟩ => ⟨h₁, h₂, h₃⟩⟩

def Orderly : FlowAct → Prop
  | .send c _ _ => s.Carried net c
  | .close c => (s.conns c).underWay = 0
  | _ => True

/-- A call forwards no more messages than the receive ring of the connection has room for, besides
those already forwarded and unread. -/
def HasRoom : FlowAct → Prop
  | .send c _ _ => (s.conns c).outstanding +
    (takeBulk net.bulkSize (s.conns c).sendRing).taken.length ≤ ntsMaxBufs - 1
  | _ => True

def WithinWindow (a : FlowAct) : Prop := s.Orderly net a ∧ s.HasRoom net a

instance (a : FlowAct) : Decidable (s.WithinWindow net a) :=
  match a with
  | .send c _ _ => inferInstanceAs (Decidable (s.Carried net c ∧ _ ≤ _))
  | .close _ => inferInstanceAs (Decidable (_ = 0 ∧ True))
  | .write _ _ | .recv | .publish | .arrive | .report | .read _ =>
    inferInstanceAs (Decidable (True ∧ True))

end FlowState

section TakeBulk

variable {ring : Shmring NtpMsg} {cap : ℕ} {q : List NtpMsg}

theorem takeBulk_holds (h : ring.Holds cap q) (bulk : ℕ) :
    ∃ rest, q = (takeBulk bulk ring).taken ++ rest ∧ (takeBulk bulk ring).ring.Holds cap rest := by
  induction bulk generalizing ring q with
  | zero => exact ⟨q, rfl, h⟩
  | succ bulk ih =>
    cases q with
    | nil =>
      rw [takeBulk, h.pop_empty]
      exact ⟨[], rfl, h⟩
    | cons msg q =>
      obtain ⟨ring', hpop, h'⟩ := h.pop
      rw [takeBulk, hpop]
      dsimp only
      split
      · exact ⟨q, rfl, h'⟩
      · obtain ⟨rest, hrest, hholds⟩ := ih h'
        exact ⟨rest, by rw [List.cons_append, ← hrest], hholds⟩

theorem takeBulk_of_sendBulk {cfg : NtpConfig} {srcPort dstPort : UInt16} {bulk count count' : ℕ}
    {f f' : SendFrame} {state state' : ConnState} {fin : Bool} {rest : List NtpMsg}
    (h : ring.Holds cap q) (hsend : sendBulk cfg srcPort dstPort bulk q f state count =
      some (fin, rest, f', state', count')) :
    (takeBulk bulk ring).fin = fin ∧ q = (takeBulk bulk ring).taken ++ rest ∧
      state' = if fin then .activeClose else state := by
  induction bulk generalizing ring q f count with
  | zero =>
    cases hsend
    exact ⟨rfl, rfl, rfl⟩
  | succ bulk ih =>
    cases q with
    | nil =>
      cases hsend
      rw [takeBulk, h.pop_empty]
      exact ⟨rfl, rfl, rfl⟩
    | cons msg q =>
      obtain ⟨ring', hpop, h'⟩ := h.pop
      rw [takeBulk, hpop]
      rw [sendBulk] at hsend
      cases htype : msg.msgType with
      | ntpFin =>
        rw [htype] at hsend
        obtain ⟨f₁, -, hsent⟩ := Option.map_eq_some_iff.mp hsend
        cases hsent
        simp only [htype]
        exact ⟨trivial, rfl, rfl⟩
      | ntpData =>
        rw [htype] at hsend
        obtain ⟨f₁, -, hrest⟩ := Option.bind_eq_some_iff.mp hsend
        obtain ⟨hfin, hq, hstate⟩ := ih h' hrest
        simp only [htype]
        exact ⟨hfin, by rw [List.cons_append, ← hq], hstate⟩

theorem takeBulk_fin (ring : Shmring NtpMsg) (bulk : ℕ) :
    (takeBulk bulk ring).taken.Pairwise (fun msg _ => msg.msgType ≠ .ntpFin) ∧
      ∀ msg ∈ (takeBulk bulk ring).taken, msg.msgType = .ntpFin →
        (takeBulk bulk ring).fin = true := by
  induction bulk generalizing ring with
  | zero => simp [takeBulk]
  | succ bulk ih =>
    rw [takeBulk]
    cases ring.shmringPop with
    | none => simp
    | some popped =>
      obtain ⟨msg, ring⟩ := popped
      obtain ⟨hlast, hfin⟩ := ih ring
      cases htype : msg.msgType with
      | ntpFin => simp [htype]
      | ntpData => simpa [htype, List.pairwise_cons] using ⟨hlast, hfin⟩

theorem takeBulk_one {ring' : Shmring NtpMsg} {msg : NtpMsg} {bulk : ℕ} (hbulk : 0 < bulk)
    (hdata : msg.msgType = .ntpData) (hpop : ring.shmringPop = some (msg, ring'))
    (hempty : ring'.shmringPop = none) : takeBulk bulk ring = ⟨[msg], ring', false⟩ := by
  obtain ⟨bulk, rfl⟩ := Nat.exists_eq_succ_of_ne_zero hbulk.ne'
  have hnone : takeBulk bulk ring' = ⟨[], ring', false⟩ := by
    cases bulk with
    | zero => rfl
    | succ bulk => rw [takeBulk, hempty]
  rw [takeBulk, hpop]
  simp only [hdata, hnone]

end TakeBulk

variable {readIndex : ℕ}

theorem le_sendWindow_zero (h : readIndex < ntsMaxBufs) : 512 ≤ sendWindow readIndex 0 := by
  unfold ntsMaxBufs at h
  unfold sendWindow u64Sub ntsMaxBufs
  dsimp only
  split <;> omega

theorem ntpSendBuffData_unprobed {cfg : NtpConfig} {bulkSize : ℕ} {connId : UInt32}
    {ring : List NtpMsg} {state : ConnState} {peerReadIndex currentTime detectTime : ℕ}
    {f : SendFrame} {o : SendOutcome} (hquiet : ¬ (sendWindow readIndex peerReadIndex < 512 ∧
      detectIntervalTime < u64Sub currentTime detectTime))
    (h : ntpSendBuffData cfg bulkSize connId ring state readIndex peerReadIndex currentTime
      detectTime f = some o) :
    ∃ fin, sendBulk cfg (connId >>> 16).toUInt16 connId.toUInt16 bulkSize ring f state 0 =
      some (fin, o.ring, o.frame, o.state, o.retval) := by
  obtain ⟨⟨fin, rest, f', state', count⟩, hbulk, ho⟩ := Option.bind_eq_some_iff.mp h
  refine ⟨fin, ?_⟩
  cases fin with
  | true =>
    cases ho
    exact hbulk
  | false =>
    simp only [if_neg hquiet] at ho
    cases ho
    exact hbulk

section SendBulk

variable {cfg : NtpConfig} {port2conn : Port2Conn} {connId : UInt32} {msg : NtpMsg}
  {q : LaggedQueue SentPacket cfg.capacity} {r : RecvState}

/-- One message of the bulk is one packet of the link. -/
theorem NtpMsg.Whole.represents {f f' : SendFrame} (h : msg.Whole cfg connId)
    (hrep : LinkState.Represents cfg port2conn ⟨f.link, r.remoteWrite f.writes, q.sent⟩ q)
    (hsend : ((ntpacketEnqueue cfg f.link (msg.packet connId).ntpacket).map fun e =>
      f.issue e.link e.writes) = some f') :
    ∃ hfull : ¬ q.Full, LinkState.Represents cfg port2conn ⟨f'.link, r.remoteWrite f'.writes,
        (q.push ⟨f.link.curIndex, msg.packet connId⟩ hfull).sent⟩
      (q.push ⟨f.link.curIndex, msg.packet connId⟩ hfull) := by
  obtain ⟨e, he, rfl⟩ := Option.map_eq_some_iff.mp hsend
  obtain ⟨hfull, hrep'⟩ := hrep.send h.fits
    (Option.map_eq_some_iff.mpr
      ⟨e, show EnqueuePath.ntpacketEnqueue.enqueue _ _ _ = _ from he, rfl⟩)
  refine ⟨hfull, ?_⟩
  rw [RecvState.remoteWrite, SendFrame.issue_writes, applyWrites_append]
  exact hrep'

theorem NtpMsg.Whole.len_le (h : msg.Whole cfg connId) :
    msg.msgLen.toNat ≤ cfg.datapacketPayloadSize := by
  have hlen : 8 + msg.payload.length ≤ cfg.dataPacketSize := h.fits.len_le_packet
  rw [cfg.datapacketPayloadSize_eq (by omega), h.msgLen]
  omega

theorem sendBulk_represents {bulk cap count count' : ℕ} {ring : Shmring NtpMsg}
    {xs rest : List NtpMsg} {f f' : SendFrame} {state state' : ConnState} {fin : Bool}
    (hring : ring.Holds cap xs) (hwhole : ∀ msg ∈ (takeBulk bulk ring).taken, msg.Whole cfg connId)
    (hrep : LinkState.Represents cfg port2conn ⟨f.link, r.remoteWrite f.writes, q.sent⟩ q)
    (hsend : sendBulk cfg (connId >>> 16).toUInt16 connId.toUInt16 bulk xs f state count =
      some (fin, rest, f', state', count')) :
    ∃ (q' : LaggedQueue SentPacket cfg.capacity) (new : List SentPacket),
      LinkState.Represents cfg port2conn ⟨f'.link, r.remoteWrite f'.writes, q'.sent⟩ q' ∧
      q'.sent = q.sent ++ new ∧ q'.taken = q.taken ∧ q'.shadow = q.shadow ∧
      new.map (·.packet) = (takeBulk bulk ring).taken.map (·.packet connId) := by
  induction bulk generalizing ring xs f count q with
  | zero =>
    cases hsend
    exact ⟨q, [], hrep, (List.append_nil _).symm, rfl, rfl, rfl⟩
  | succ bulk ih =>
    cases xs with
    | nil =>
      cases hsend
      rw [takeBulk, hring.pop_empty]
      exact ⟨q, [], hrep, (List.append_nil _).symm, rfl, rfl, rfl⟩
    | cons msg xs =>
      obtain ⟨ring', hpop, hring'⟩ := hring.pop
      rw [takeBulk, hpop] at hwhole ⊢
      rw [sendBulk] at hsend
      cases htype : msg.msgType with
      | ntpFin =>
        simp only [htype] at hwhole hsend ⊢
        obtain ⟨f₁, hf₁, hsent⟩ := Option.map_eq_some_iff.mp hsend
        cases hsent
        have hmsg := hwhole msg List.mem_cons_self
        rw [sendWhole, show packNtpacketHeader _ _ 0 .finPkg =
          (msg.packet connId).ntpacket.header by
            rw [NtpMsg.packet, Packet.ntpacket, htype, hmsg.fin htype]; rfl] at hf₁
        obtain ⟨hfull, hrep'⟩ := hmsg.represents hrep hf₁
        exact ⟨_, _, hrep', LaggedQueue.push_sent .., rfl, rfl, rfl⟩
      | ntpData =>
        simp only [htype] at hwhole hsend ⊢
        obtain ⟨f₁, hf₁, hrest⟩ := Option.bind_eq_some_iff.mp hsend
        have hmsg := hwhole msg List.mem_cons_self
        rw [sendData, if_pos hmsg.len_le, sendWhole, hmsg.msgLen,
          show packNtpacketHeader _ _ _ .singlePkg = (msg.packet connId).ntpacket.header by
            rw [NtpMsg.packet, Packet.ntpacket, htype]] at hf₁
        obtain ⟨hfull, hrep'⟩ := hmsg.represents hrep hf₁
        obtain ⟨q', new, hq', hsent, htaken, hshadow, hnew⟩ :=
          ih hring' (fun m hm => hwhole m (List.mem_cons_of_mem _ hm)) hrep' hrest
        refine ⟨q', ⟨f.link.curIndex, msg.packet connId⟩ :: new, hq', ?_, htaken, hshadow, ?_⟩
        · rw [hsent, LaggedQueue.push_sent, List.append_assoc]
          rfl
        · rw [List.map_cons, List.map_cons, hnew]

end SendBulk

/-- The rings of a connection are queues, and it was never probed; what is in the receive ring, and
`n` more messages, were forwarded and not read. -/
structure FlowConn.Counts (k : FlowConn) (n : ℕ) : Prop where
  sendRing : ∃ xs, k.sendRing.Holds ntsMaxBufs xs
  recvRing : ∃ held, k.recvRing.Holds ntsMaxBufs held ∧ k.read + held.length + n = k.forwarded
  peerReadIndex : k.peerReadIndex = 0
  reported : k.reported = ntsMaxBufs - 1

namespace FlowConn.Counts

variable {k : FlowConn} {n : ℕ}

theorem init (detectTime : ℕ) (data : ℕ → NtpMsg) : (FlowConn.init detectTime data).Counts 0 where
  sendRing := ⟨[], Shmring.Holds.init (by decide) data⟩
  recvRing := ⟨[], Shmring.Holds.init (by decide) data, rfl⟩
  peerReadIndex := rfl
  reported := rfl

theorem underWay_eq (h : k.Counts n) : k.underWay = n := by
  obtain ⟨held, hheld, hsum⟩ := h.recvRing
  rw [underWay, outstanding, hheld.contents_eq]
  omega

/-- The window is computed from the index 0 of the peer and is never small. -/
theorem not_probes (h : k.Counts n) (currentTime : ℕ) :
    ¬ (sendWindow k.sendRing.readIdx k.peerReadIndex < 512 ∧
      detectIntervalTime < u64Sub currentTime k.detectTime) := by
  obtain ⟨xs, hxs⟩ := h.sendRing
  have hwindow := le_sendWindow_zero hxs.readIdx_lt
  rw [h.peerReadIndex]
  omega

end FlowConn.Counts

namespace FlowState

variable {net : FlowSetup} {s s' : FlowState} {ps : List Packet} {c : ConnPtr}

/-- The packets in the data ring. -/
def flight {cap : ℕ} (q : LaggedQueue SentPacket cap) : List Packet :=
  (q.sent.drop q.taken).map (·.packet)

def onWire (net : FlowSetup) (ps : List Packet) (c : ConnPtr) : ℕ :=
  ps.countP fun p => decide (net.port2conn p.connId = some c)

/-- The packets in the data ring are messages of connections that the receive loop serves; behind
the `FIN_PKG` of a connection there is nothing of this connection, now or later. -/
structure Flying (net : FlowSetup) (s : FlowState) (ps : List Packet) : Prop where
  live : ∀ p ∈ ps, ∃ c, net.port2conn p.connId = some c ∧ (s.recv.conns c).state = .readyConn
  message : ∀ p ∈ ps, ∃ connId msg, p = NtpMsg.packet connId msg
  last : ps.Pairwise fun p p' => p.type = .finPkg → net.port2conn p'.connId ≠ net.port2conn p.connId
  closed : ∀ p ∈ ps, p.type = .finPkg → ∀ c, net.port2conn p.connId = some c →
    (s.conns c).sendState ≠ .readyConn

theorem Flying.mono (h : s.Flying net ps) (hlive : ∀ p ∈ ps, ∀ c, net.port2conn p.connId = some c →
      (s.recv.conns c).state = .readyConn → (s'.recv.conns c).state = .readyConn)
    (hsend : ∀ c, (s'.conns c).sendState = .readyConn → (s.conns c).sendState = .readyConn) :
    s'.Flying net ps where
  live := by
    intro p hp
    obtain ⟨c, hc, hready⟩ := h.live p hp
    exact ⟨c, hc, hlive p hp c hc hready⟩
  message := h.message
  last := h.last
  closed := fun p hp hfin c hc hready => h.closed p hp hfin c hc (hsend c hready)

structure Inv (net : FlowSetup) (s : FlowState) (q : LaggedQueue SentPacket net.cfg.capacity) :
    Prop where
  link : LinkState.Represents net.cfg net.port2conn ⟨s.send, s.recv, q.sent⟩ q
  flying : s.Flying net (flight q)
  conns : ∀ c, (s.conns c).Counts (onWire net (flight q) c)
  replies : s.replies = []

theorem init_inv (hcap : 0 < net.cfg.capacity) (conns : ConnPtr → NtbConn)
    (conn : Option ConnPtr) (detectTime : ConnPtr → ℕ) (data : ℕ → NtpMsg) :
    (init conns conn detectTime data).Inv net (LaggedQueue.empty SentPacket hcap) where
  link := LinkState.represents_init hcap conns conn
  flying := ⟨by simp [flight, LaggedQueue.empty], by simp [flight, LaggedQueue.empty], .nil,
    by simp [flight, LaggedQueue.empty]⟩
  conns := fun c => .init (detectTime c) data
  replies := rfl

section Modify

variable (s) {c c' : ConnPtr} (f : FlowConn → FlowConn)

@[simp] theorem modify_self : (s.modify c f).conns c = f (s.conns c) := update_self ..

theorem modify_of_ne (h : c' ≠ c) : (s.modify c f).conns c' = s.conns c' :=
  update_of_ne h ..

theorem forall_modify {P : ConnPtr → FlowConn → Prop} (hself : P c (f (s.conns c)))
    (hothers : ∀ c', c' ≠ c → P c' (s.conns c')) (c' : ConnPtr) :
    P c' ((s.modify c f).conns c') := by
  by_cases hc : c' = c
  · subst hc
    rw [modify_self]
    exact hself
  · rw [modify_of_ne s f hc]
    exact hothers c' hc

end Modify

theorem onWire_append (ps ps' : List Packet) :
    onWire net (ps ++ ps') c = onWire net ps c + onWire net ps' c := List.countP_append ..

section Send

variable {dataPacket : NtpacketHeader} {currentTime : ℕ}
  {q : LaggedQueue SentPacket net.cfg.capacity}

theorem Carried.onWire_eq (h : s.Carried net c) (msgs : List NtpMsg) (c' : ConnPtr) :
    onWire net (msgs.map (·.packet (net.connId c))) c' = if c' = c then msgs.length else 0 := by
  rw [onWire, List.countP_map]
  split
  · rename_i hc
    rw [List.countP_eq_length, hc]
    exact fun msg _ => decide_eq_true h.table
  · rename_i hc
    rw [List.countP_eq_zero]
    intro msg _ hmsg
    exact hc (Option.some.inj ((of_decide_eq_true hmsg).symm.trans h.table))

/-- What a call of `ntp_send_buff_data` adds to the data ring and changes of the connection. -/
structure Sends (net : FlowSetup) (s s' : FlowState) (c : ConnPtr)
    (q q' : LaggedQueue SentPacket net.cfg.capacity) : Prop where
  link : LinkState.Represents net.cfg net.port2conn ⟨s'.send, s'.recv, q'.sent⟩ q'
  flight : flight q' = flight q ++
    (takeBulk net.bulkSize (s.conns c).sendRing).taken.map (·.packet (net.connId c))
  shadow : q'.shadow = q.shadow
  length : q'.sent.length =
    q.sent.length + (takeBulk net.bulkSize (s.conns c).sendRing).taken.length
  recvConns : s'.recv.conns = s.recv.conns
  replies : s'.replies = s.replies
  conns : ∃ detectTime, s'.conns = (s.modify c fun k => { k with
    sendRing := (takeBulk net.bulkSize k.sendRing).ring
    detectTime := detectTime
    sendState := if (takeBulk net.bulkSize k.sendRing).fin then .activeClose else k.sendState
    forwarded := k.forwarded + (takeBulk net.bulkSize k.sendRing).taken.length }).conns

theorem Inv.sends (h : s.Inv net q) (hcarried : s.Carried net c)
    (hsend : s.sendBuffData net c dataPacket currentTime = some s') :
    ∃ q', Sends net s s' c q q' := by
  obtain ⟨o, ho, rfl⟩ := Option.map_eq_some_iff.mp hsend
  obtain ⟨xs, hxs⟩ := (h.conns c).sendRing
  have hlink : LinkState.Represents net.cfg net.port2conn
      ⟨s.send, s.recv.remoteWrite [], q.sent⟩ q := h.link
  obtain ⟨fin, hbulk⟩ := ntpSendBuffData_unprobed ((h.conns c).not_probes currentTime) ho
  rw [hxs.contents_eq] at hbulk
  obtain ⟨hfin, -, hstate⟩ := takeBulk_of_sendBulk hxs hbulk
  obtain ⟨q', new, hq', hsent, htaken, hshadow, hnew⟩ :=
    sendBulk_represents hxs hcarried.whole hlink hbulk
  have hlength : new.length = (takeBulk net.bulkSize (s.conns c).sendRing).taken.length := by
    simpa using congrArg List.length hnew
  refine ⟨q', hq', ?_, hshadow, by rw [hsent, List.length_append, hlength], rfl, rfl,
    o.detectTime, ?_⟩
  · rw [flight, hsent, htaken, List.drop_append_of_le_length q.taken_le, List.map_append, hnew]
    rfl
  · rw [hstate, ← hfin]
    rfl

theorem Sends.flying {q' : LaggedQueue SentPacket net.cfg.capacity} (h : Sends net s s' c q q')
    (hflying : s.Flying net (FlowState.flight q)) (hready : (s.conns c).sendState = .readyConn)
    (hcarried : s.Carried net c) : s'.Flying net (FlowState.flight q') := by
  obtain ⟨detectTime, hconns⟩ := h.conns
  obtain ⟨hlast, hfin⟩ := takeBulk_fin (s.conns c).sendRing net.bulkSize
  have hclosed : ∀ p ∈ FlowState.flight q, p.type = .finPkg → net.port2conn p.connId ≠ some c :=
    fun p hp htype hc => hflying.closed p hp htype c hc hready
  have htype : ∀ msg : NtpMsg, (msg.packet (net.connId c)).type = .finPkg →
      msg.msgType = .ntpFin := by
    intro msg
    unfold NtpMsg.packet
    cases msg.msgType <;> simp
  rw [h.flight]
  constructor
  case live =>
    rw [h.recvConns, List.forall_mem_append]
    refine ⟨hflying.live, List.forall_mem_map.mpr fun msg _ => ?_⟩
    exact ⟨c, hcarried.table, hcarried.ready⟩
  case message =>
    rw [List.forall_mem_append]
    exact ⟨hflying.message, List.forall_mem_map.mpr fun msg _ => ⟨_, msg, rfl⟩⟩
  case last =>
    refine List.pairwise_append.mpr ⟨hflying.last, List.pairwise_map.mpr ?_, ?_⟩
    · exact hlast.imp fun hne hp => absurd (htype _ hp) hne
    · intro p hp p' hp' hfinPkg
      obtain ⟨msg, -, rfl⟩ := List.mem_map.mp hp'
      rw [show net.port2conn (msg.packet (net.connId c)).connId = some c from hcarried.table]
      exact (hclosed p hp hfinPkg).symm
  case closed =>
    rw [hconns, List.forall_mem_append]
    constructor
    · intro p hp hfinPkg c' hc'
      have hne : c' ≠ c := fun heq => hclosed p hp hfinPkg (heq ▸ hc')
      rw [modify_of_ne s _ hne]
      exact hflying.closed p hp hfinPkg c' hc'
    · refine List.forall_mem_map.mpr fun msg hmsg hfinPkg c' hc' => ?_
      obtain rfl : c = c' := Option.some.inj (hcarried.table.symm.trans hc')
      rw [modify_self, hfin msg hmsg (htype msg hfinPkg)]
      simp

theorem Inv.send (h : s.Inv net q) (hready : (s.conns c).sendState = .readyConn)
    (hcarried : s.Carried net c) (hsend : s.sendBuffData net c dataPacket currentTime = some s') :
    ∃ q', s'.Inv net q' ∧ Sends net s s' c q q' := by
  obtain ⟨q', hsends⟩ := h.sends hcarried hsend
  refine ⟨q', ⟨hsends.link, hsends.flying h.flying hready hcarried, fun c' => ?_,
    hsends.replies.trans h.replies⟩, hsends⟩
  obtain ⟨detectTime, hconns⟩ := hsends.conns
  rw [hconns, hsends.flight, onWire_append, hcarried.onWire_eq]
  revert c'
  refine forall_modify s _ (P := fun c' k => k.Counts _) ?_ ?_
  · obtain ⟨xs, hxs⟩ := (h.conns c).sendRing
    obtain ⟨rest, -, hrest⟩ := takeBulk_holds hxs net.bulkSize
    obtain ⟨held, hheld, hsum⟩ := (h.conns c).recvRing
    refine ⟨⟨rest, hrest⟩, ⟨held, hheld, ?_⟩, (h.conns c).peerReadIndex, (h.conns c).reported⟩
    rw [if_pos rfl]
    dsimp only
    omega
  · intro c' hc
    rw [if_neg hc]
    exact h.conns c'

end Send

section Receive

variable {q : LaggedQueue SentPacket net.cfg.capacity}

theorem Inv.receive_empty (h : s.Inv net q) (hempty : flight q = []) : s.receive net = some s := by
  have hhead : LinkState.head ⟨s.send, s.recv, q.sent⟩ = none := by
    rw [h.link.head_eq, List.getElem?_eq_none_iff]
    simpa [flight] using hempty
  rw [receive, h.link.recv_empty hhead]
  simp only [Option.bind_some, List.drop_length, List.foldlM_nil, List.map_nil, List.append_nil]
  rfl

theorem foldlM_ntpShmSend_singleton (conns : ConnPtr → FlowConn) (x : ConnPtr × NtpMsg) :
    [x].foldlM ntpShmSend conns = ntpShmSend conns x := by
  rw [List.foldlM_cons]
  cases ntpShmSend conns x <;> rfl

/-- The iteration takes the first packet of the data ring and pushes its message. -/
theorem Inv.receive_cons (h : s.Inv net q) {p : Packet} (hflight : flight q = p :: ps) :
    ∃ c r msg, net.port2conn p.connId = some c ∧
      s.receive net = ((s.conns c).recvRing.shmringPush msg).map (fun ring =>
        { s.modify c (fun k => { k with recvRing := ring }) with recv := r }) ∧
      (∃ q', LinkState.Represents net.cfg net.port2conn ⟨s.send, r, q'.sent⟩ q' ∧
        flight q' = ps ∧ q'.sent = q.sent) ∧
      r.conns = if p.type = .finPkg then
        update s.recv.conns c { s.recv.conns c with state := .passiveClose }
        else s.recv.conns := by
  obtain ⟨x, xs, hdrop, rfl, rfl⟩ := List.map_eq_cons_iff.mp hflight
  have hlt : q.taken < q.sent.length := by
    by_contra hge
    rw [List.drop_eq_nil_of_le (by omega)] at hdrop
    cases hdrop
  rw [List.drop_eq_getElem_cons hlt, List.cons.injEq] at hdrop
  have hhead : LinkState.head ⟨s.send, s.recv, q.sent⟩ = some x := by
    rw [h.link.head_eq, List.getElem?_eq_getElem hlt, hdrop.1]
  have hmem : x.packet ∈ flight q := hflight ▸ List.mem_cons_self
  obtain ⟨c, r, hc, hr, hH⟩ := h.link.recv_head hhead (h.flying.live _ hmem)
  obtain ⟨q', hsent, htaken, hq'⟩ := h.link.handled hhead hc hH
  obtain ⟨connId, m, hm⟩ := h.flying.message _ hmem
  obtain ⟨msg, hhanded, hctrl⟩ : ∃ msg, r.handed = s.recv.handed ++ [(c, msg)] ∧
      r.ctrlMsgs = s.recv.ctrlMsgs := by
    have hhanded := hH.handed
    have hctrl := hH.ctrlMsgs
    rw [hm, NtpMsg.packet] at hhanded hctrl
    cases htype : m.msgType <;> rw [htype] at hhanded hctrl <;>
      exact ⟨_, hhanded, hctrl (by simp)⟩
  refine ⟨c, r, msg, hc, ?_, ⟨q', by rwa [hsent], ?_, hsent⟩, hH.conns⟩
  · rw [receive, hr, Option.bind_some, hhanded, List.drop_left, hctrl, List.drop_length,
      foldlM_ntpShmSend_singleton, ntpShmSend, Option.map_map]
    simp only [List.map_nil, List.append_nil]
    rfl
  · rw [flight, hsent, htaken, hdrop.2]

theorem Inv.receive (h : s.Inv net q) (hrecv : s.receive net = some s') :
    (∃ q', s'.Inv net q' ∧ q'.sent = q.sent ∧ flight q' = (flight q).tail) ∧
      ∀ c, (s'.conns c).outstanding = (s.conns c).outstanding := by
  cases hflight : flight q with
  | nil =>
    obtain rfl := Option.some.inj ((h.receive_empty hflight).symm.trans hrecv)
    exact ⟨⟨q, h, rfl, hflight⟩, fun _ => rfl⟩
  | cons p ps =>
    obtain ⟨c, r, msg, hc, heq, ⟨q', hq', hps, hsent⟩, hconns⟩ := h.receive_cons hflight
    rw [heq] at hrecv
    obtain ⟨ring, hpush, rfl⟩ := Option.map_eq_some_iff.mp hrecv
    have hflying := h.flying
    rw [hflight] at hflying
    have hcount : ∀ c', onWire net (flight q) c' = onWire net ps c' + if c = c' then 1 else 0 := by
      intro c'
      rw [onWire, hflight, List.countP_cons, hc]
      simp [onWire]
    let f : FlowConn → FlowConn := fun k => { k with recvRing := ring }
    refine ⟨⟨q', ⟨hq', ?_, ?_, h.replies⟩, hsent, hps⟩, ?_⟩
    · rw [hps]
      have htail : s.Flying net ps := ⟨fun p hp => hflying.live p (List.mem_cons_of_mem _ hp),
        fun p hp => hflying.message p (List.mem_cons_of_mem _ hp),
        (List.pairwise_cons.mp hflying.last).2,
        fun p hp => hflying.closed p (List.mem_cons_of_mem _ hp)⟩
      refine htail.mono ?_ ?_
      · intro p' hp' c' hc' hready
        rw [hconns]
        split
        · rename_i hfin
          have hne : c' ≠ c := fun heq =>
            (List.pairwise_cons.mp hflying.last).1 p' hp' hfin (by rw [hc', hc, heq])
          rw [update_of_ne hne]
          exact hready
        · exact hready
      · exact forall_modify s f (c := c) (P := fun c' k => k.sendState = .readyConn →
          (s.conns c').sendState = .readyConn) id fun _ _ => id
    · intro c'
      rw [hps]
      revert c'
      refine forall_modify s f (c := c) (P := fun c' k => k.Counts (onWire net ps c')) ?_
        fun c' hne => ?_
      · obtain ⟨held, hheld, hsum⟩ := (h.conns c).recvRing
        refine ⟨(h.conns c).sendRing, ⟨_, hheld.of_push hpush, ?_⟩, (h.conns c).peerReadIndex,
          (h.conns c).reported⟩
        have hself := hcount c
        rw [if_pos rfl] at hself
        rw [List.length_append, List.length_singleton]
        change (s.conns c).read + _ + _ = (s.conns c).forwarded
        omega
      · have hother := hcount c'
        rw [if_neg (Ne.symm hne), Nat.add_zero] at hother
        rw [← hother]
        exact h.conns c'
    · exact forall_modify s f (c := c) (P := fun c' k => k.outstanding = (s.conns c').outstanding)
        rfl fun _ _ => rfl

end Receive

def sampleMsg : NtpMsg where
  msgType := .ntpData
  msgLen := 1
  payload := [7]

def zeroHeader : NtpacketHeader where
  srcPort := 0
  dstPort := 0
  msgLen := 0
  msgType := 0

def sampleSetup (dataRingbufferSize : ℕ) : FlowSetup where
  cfg := { smallRing with dataRingbufferSize := dataRingbufferSize }
  bulkSize := 16
  connId := fun _ => createConnId 1 2
  port2conn := onePort
  origin := fun _ => none

section Runs

variable {q : LaggedQueue SentPacket net.cfg.capacity} {a : FlowAct}

section

variable (h : s.Inv net q)
include h

theorem Inv.modify (f : FlowConn → FlowConn)
    (hcounts : (f (s.conns c)).Counts (onWire net (flight q) c))
    (hstate : (f (s.conns c)).sendState = (s.conns c).sendState) : (s.modify c f).Inv net q where
  link := h.link
  flying := h.flying.mono (fun _ _ _ _ => id) <| forall_modify s f
    (P := fun c' k => k.sendState = .readyConn → (s.conns c').sendState = .readyConn)
    (fun hready => hstate ▸ hready) fun _ _ => id
  conns := forall_modify s f (P := fun c' k => k.Counts (onWire net (flight q) c')) hcounts
    fun c' _ => h.conns c'
  replies := h.replies

theorem Inv.read (hread : s.readMsg c = some s') :
    s'.Inv net q ∧ ∀ c, (s'.conns c).outstanding ≤ (s.conns c).outstanding := by
  obtain ⟨⟨msg, ring⟩, hpop, rfl⟩ := Option.map_eq_some_iff.mp hread
  obtain ⟨held, hheld, hsum⟩ := (h.conns c).recvRing
  obtain ⟨held', rfl, hheld'⟩ := hheld.of_pop hpop
  let f : FlowConn → FlowConn := fun k => { k with recvRing := ring, read := k.read + 1 }
  rw [List.length_cons] at hsum
  have hinv : (s.modify c f).Inv net q := by
    refine h.modify f ⟨(h.conns c).sendRing, ⟨held', hheld', ?_⟩, (h.conns c).peerReadIndex,
      (h.conns c).reported⟩ rfl
    change (s.conns c).read + 1 + _ + _ = (s.conns c).forwarded
    omega
  refine ⟨⟨{ hinv.link with }, hinv.flying.mono ?_ fun _ => id, hinv.conns, hinv.replies⟩, ?_⟩
  · intro p _ c' _ hready
    change (update s.recv.conns c _ c').state = _
    by_cases hc : c' = c
    · subst hc
      rw [update_self]
      exact hready
    · rw [update_of_ne hc]
      exact hready
  · refine forall_modify s f (c := c) (P := fun c' k => k.outstanding ≤ (s.conns c').outstanding) ?_
      fun _ _ => le_rfl
    change (s.conns c).forwarded - ((s.conns c).read + 1) ≤ (s.conns c).forwarded - (s.conns c).read
    omega

theorem Inv.close (hnone : (s.conns c).underWay = 0) :
    { s with recv := s.recv.setConnState c .activeClose }.Inv net q where
  link := h.link.activeClose c
  flying := by
    refine h.flying.mono ?_ fun _ => id
    intro p hp c' hc' hready
    have hne : c' ≠ c := by
      rintro rfl
      rw [(h.conns c').underWay_eq, onWire, List.countP_eq_zero] at hnone
      exact hnone p hp (decide_eq_true hc')
    change (update s.recv.conns c _ c').state = _
    rw [update_of_ne hne]
    exact hready
  conns := h.conns
  replies := h.replies

theorem Inv.arrive {u : ℕ} {us : List ℕ} (hu : s.recv.remoteCumWrites = u :: us) :
    ∃ q', { s with
      send := { s.send with localCumPtr := u }
      recv := { s.recv with remoteCumWrites := us } }.Inv net q' := by
  obtain ⟨v, vs, hv, hq'⟩ := h.link.arrive hu
  exact ⟨q.arrive hv, hq', h.flying.mono (fun _ _ _ _ => id) fun _ => id, h.conns, h.replies⟩

theorem Inv.step (ha : s.Orderly net a) (hstep : s.step net a = some s') :
    (∃ q', s'.Inv net q') ∧ ((∀ c, (s'.conns c).outstanding ≤ (s.conns c).outstanding) ∨
      ∃ c dataPacket currentTime, a = .send c dataPacket currentTime ∧
        ∀ c', (s'.conns c').outstanding ≤ (s.conns c').outstanding + if c' = c then
          (takeBulk net.bulkSize (s.conns c).sendRing).taken.length else 0) := by
  cases a with
  | write c msg =>
    obtain ⟨ring, hpush, rfl⟩ := Option.map_eq_some_iff.mp hstep
    obtain ⟨xs, hxs⟩ := (h.conns c).sendRing
    refine ⟨⟨q, h.modify _ ⟨⟨_, hxs.of_push hpush⟩, (h.conns c).recvRing,
      (h.conns c).peerReadIndex, (h.conns c).reported⟩ rfl⟩, .inl ?_⟩
    exact forall_modify s _ (P := fun c' k => k.outstanding ≤ (s.conns c').outstanding)
      le_rfl fun _ _ => le_rfl
  | send c dataPacket currentTime =>
    simp only [FlowState.step, Option.ite_none_right_eq_some] at hstep
    obtain ⟨q', hq', hsends⟩ := h.send hstep.1 ha hstep.2
    obtain ⟨detectTime, hconns⟩ := hsends.conns
    refine ⟨⟨q', hq'⟩, .inr ⟨c, dataPacket, currentTime, rfl, ?_⟩⟩
    rw [hconns]
    refine forall_modify s _ (P := fun c' k => k.outstanding ≤ (s.conns c').outstanding + _) ?_
      fun _ _ => Nat.le_add_right _ _
    rw [if_pos rfl]
    simp only [FlowConn.outstanding]
    omega
  | recv =>
    obtain ⟨⟨q', hq', -⟩, hsame⟩ := h.receive hstep
    exact ⟨⟨q', hq'⟩, .inl fun c => (hsame c).le⟩
  | publish =>
    cases hstep
    exact ⟨⟨q.publish, h.link.publish, h.flying.mono (fun _ _ _ _ => id) fun _ => id, h.conns,
      h.replies⟩, .inl fun _ => le_rfl⟩
  | arrive =>
    cases hu : s.recv.remoteCumWrites with
    | nil =>
      rw [FlowState.step, hu] at hstep
      cases hstep
    | cons u us =>
      rw [FlowState.step, hu] at hstep
      cases hstep
      exact ⟨h.arrive hu, .inl fun _ => le_rfl⟩
  | report =>
    rw [FlowState.step, report, h.replies] at hstep
    cases hstep
  | read c =>
    obtain ⟨hinv, hle⟩ := h.read hstep
    exact ⟨⟨q, hinv⟩, .inl hle⟩
  | close c =>
    cases hstep
    exact ⟨⟨q, h.close ha⟩, .inl fun _ => le_rfl⟩

theorem Inv.within_step (hle : ∀ c, (s.conns c).outstanding ≤ ntsMaxBufs - 1)
    (ha : s.WithinWindow net a) (hstep : s.step net a = some s') :
    (∃ q', s'.Inv net q') ∧ ∀ c, (s'.conns c).outstanding ≤ ntsMaxBufs - 1 := by
  obtain ⟨hinv, hout | ⟨c, dataPacket, currentTime, rfl, hout⟩⟩ := h.step ha.1 hstep
  · exact ⟨hinv, fun c => (hout c).trans (hle c)⟩
  · refine ⟨hinv, fun c' => (hout c').trans ?_⟩
    split
    · rename_i hc
      rw [hc]
      exact ha.2
    · exact hle c'

/-- With no more messages unread than the ring takes, the loop never meets a full ring. -/
theorem Inv.controlled (hle : ∀ c, (s.conns c).outstanding ≤ ntsMaxBufs - 1) :
    s.Controlled net := by
  refine ⟨fun c => by rw [(h.conns c).reported]; exact hle c, ?_⟩
  cases hflight : flight q with
  | nil =>
    refine ⟨s, h.receive_empty hflight, fun ⟨c, hc⟩ => absurd ?_ hc⟩
    rw [(h.conns c).underWay_eq, hflight]
    rfl
  | cons p ps =>
    obtain ⟨c, r, msg, hc, heq, -⟩ := h.receive_cons hflight
    obtain ⟨held, hheld, hsum⟩ := (h.conns c).recvRing
    have hone : 0 < onWire net (flight q) c := by
      rw [onWire, hflight, List.countP_pos_iff]
      exact ⟨p, List.mem_cons_self, decide_eq_true hc⟩
    have hroom : held.length + 1 < ntsMaxBufs := by
      have hout := hle c
      unfold FlowConn.outstanding ntsMaxBufs at hout
      unfold ntsMaxBufs
      omega
    obtain ⟨ring, hpush, hring⟩ := hheld.push (x := msg) hroom
    refine ⟨_, by rw [heq, hpush, Option.map_some], fun _ => ⟨c, msg, ?_⟩⟩
    simp only [modify_self, hring.contents_eq, hheld.contents_eq]

end

end Runs

section SilentReader

structure Unread (net : FlowSetup) (s : FlowState) (c : ConnPtr) (n : ℕ) : Prop where
  inv : ∃ q, s.Inv net q ∧ flight q = [] ∧ q.sent.length = n
  shadow : s.send.localCumPtr = 0
  sendRing : (s.conns c).sendRing.Holds ntsMaxBufs []
  recvRing : (s.conns c).recvRing.contents.length = n
  sendState : (s.conns c).sendState = .readyConn
  recvState : (s.recv.conns c).state = .readyConn

/-- The message is a data message that every call of the connection carries. -/
structure Sample (net : FlowSetup) (c : ConnPtr) (msg : NtpMsg) : Prop where
  bulkSize : 0 < net.bulkSize
  data : msg.msgType = .ntpData
  whole : msg.Whole net.cfg (net.connId c)
  table : net.port2conn (msg.packet (net.connId c)).connId = some c

variable {n : ℕ} {msg : NtpMsg} {dataPacket : NtpacketHeader} {conns : ConnPtr → NtbConn}

theorem Sample.sendData_isSome (h : Sample net c msg) (f : SendFrame)
    (hroom : f.link.nextIndex net.cfg ≠ f.link.localCumPtr) :
    ∃ f', sendData net.cfg (net.connId c >>> 16).toUInt16 (net.connId c).toUInt16 msg f =
      some f' := by
  rw [sendData, if_pos h.whole.len_le, sendWhole, ntpacketEnqueue]
  simp only [if_neg hroom]
  split <;> exact ⟨_, rfl⟩

/-- A message written and forwarded while the ring has room, whether the reader reads or not. -/
theorem Unread.forward (h : s.Unread net c n) (hmsg : Sample net c msg)
    (hcap : n + 1 < net.cfg.capacity) (dataPacket : NtpacketHeader) :
    ∃ s' q', Runs.run (step net) s [.write c msg, .send c dataPacket 0] = some s' ∧
      s'.Inv net q' ∧ flight q' = [msg.packet (net.connId c)] ∧ q'.sent.length = n + 1 ∧
      s'.send.localCumPtr = 0 ∧ (s'.conns c).sendRing.Holds ntsMaxBufs [] ∧
      (s'.conns c).recvRing = (s.conns c).recvRing ∧ (s'.conns c).sendState = .readyConn ∧
      (s'.recv.conns c).state = .readyConn := by
  obtain ⟨q, hq, hflight, hlength⟩ := h.inv
  obtain ⟨ring, hpush, hring⟩ := h.sendRing.push (x := msg) (by decide)
  obtain ⟨ring', hpop, hring'⟩ := hring.pop
  have htake : takeBulk net.bulkSize ring = ⟨[msg], ring', false⟩ :=
    takeBulk_one hmsg.bulkSize hmsg.data hpop hring'.pop_empty
  let s₁ := s.modify c fun k => { k with sendRing := ring }
  have hk : s₁.conns c = { s.conns c with sendRing := ring } := modify_self ..
  have hinv : s₁.Inv net q := hq.modify _ ⟨⟨_, hring⟩, (hq.conns c).recvRing,
    (hq.conns c).peerReadIndex, (hq.conns c).reported⟩ rfl
  have hroom : s.send.nextIndex net.cfg ≠ s.send.localCumPtr := by
    have hnext := hq.link.nextIndex_send
    rw [hlength, Nat.mod_eq_of_lt hcap] at hnext
    rw [h.shadow]
    exact hnext.trans_ne (Nat.succ_ne_zero n)
  obtain ⟨f, hf⟩ := hmsg.sendData_isSome ⟨s.send, [], dataPacket⟩ hroom
  have hquiet := (hinv.conns c).not_probes 0
  obtain ⟨s', hsend⟩ : ∃ s', s₁.sendBuffData net c dataPacket 0 = some s' := by
    refine Option.isSome_iff_exists.mp ?_
    rw [hk] at hquiet
    rw [sendBuffData, hk, hring.contents_eq, List.nil_append,
      ntpSendBuffData_one hmsg.bulkSize _ msg hmsg.data _ _ _ _ _ hquiet]
    simp only [Option.isSome_map]
    exact Option.isSome_iff_exists.mpr ⟨f, hf⟩
  have hcarried : s₁.Carried net c := by
    refine ⟨hmsg.table, h.recvState, ?_⟩
    rw [hk, htake]
    exact List.forall_mem_singleton.mpr hmsg.whole
  obtain ⟨q', hq', hsends⟩ := hinv.send (by rw [hk]; exact h.sendState) hcarried hsend
  obtain ⟨detectTime, hconns⟩ := hsends.conns
  have hflight' := hsends.flight
  have hlength' := hsends.length
  rw [hk, htake] at hflight' hlength'
  have hwrite : s.step net (.write c msg) = some s₁ := Option.map_eq_some_iff.mpr ⟨ring, hpush, rfl⟩
  have hstep : s₁.step net (.send c dataPacket 0) = some s' := by
    rw [FlowState.step, if_pos (by rw [hk]; exact h.sendState), hsend]
  refine ⟨s', q', Runs.run_cons_eq_some.mpr ⟨s₁, hwrite, Runs.run_cons_eq_some.mpr ⟨_, hstep, rfl⟩⟩,
    hq', ?_, ?_, ?_, ?_, ?_, ?_, ?_⟩
  · rw [hflight', hflight]
    rfl
  · rw [hlength', hlength]
    rfl
  · have hshadow := hq'.link.shadow
    rw [hsends.shadow, ← hinv.link.shadow] at hshadow
    exact hshadow.trans h.shadow
  · rw [hconns, modify_self, hk, htake]
    exact hring'
  · rw [hconns, modify_self, hk]
  · rw [hconns, modify_self, hk, htake]
    exact h.sendState
  · rw [hsends.recvConns]
    exact h.recvState

theorem Unread.deliver (h : s.Unread net c n) (hmsg : Sample net c msg)
    (hcap : n + 1 < net.cfg.capacity) (hn : n + 1 < ntsMaxBufs) (dataPacket : NtpacketHeader) :
    ∃ s', Runs.run (step net) s [.write c msg, .send c dataPacket 0, .recv] = some s' ∧
      s'.Unread net c (n + 1) := by
  obtain ⟨s₁, q₁, hrun, hq₁, hflight, hlength, hshadow, hsendRing, hrecvRing, hsendState,
    hrecvState⟩ := h.forward hmsg hcap dataPacket
  obtain ⟨c', r, msg', hc', heq, -, hconns⟩ := hq₁.receive_cons hflight
  obtain rfl : c = c' := Option.some.inj (hmsg.table.symm.trans hc')
  obtain ⟨held, hheld, -⟩ := (hq₁.conns c).recvRing
  have hheldLength : held.length = n := by rw [← hheld.contents_eq, hrecvRing, h.recvRing]
  obtain ⟨ring, hpush, hring⟩ := hheld.push (x := msg') (by omega)
  rw [hpush, Option.map_some] at heq
  obtain ⟨⟨q', hq', hsent, hempty⟩, -⟩ := hq₁.receive heq
  refine ⟨_, ?_, ⟨q', hq', by rw [hempty, hflight]; rfl, by rw [hsent, hlength]⟩, hshadow, ?_, ?_,
    ?_, ?_⟩
  · change Runs.run (step net) s ([.write c msg, .send c dataPacket 0] ++ [.recv]) = _
    rw [Runs.run_append, hrun]
    exact Runs.run_cons_eq_some.mpr ⟨_, heq, rfl⟩
  · simpa only [modify_self] using hsendRing
  · simp only [modify_self, hring.contents_eq, List.length_append, List.length_singleton,
      hheldLength]
  · simpa only [modify_self] using hsendState
  · rw [NtpMsg.packet, hmsg.data] at hconns
    simpa only [hconns, reduceCtorEq, if_false] using hrecvState

theorem init_unread (hcap : 0 < net.cfg.capacity) (hready : (conns c).state = .readyConn)
    (conn : Option ConnPtr) (detectTime : ConnPtr → ℕ) (data : ℕ → NtpMsg) :
    (init conns conn detectTime data).Unread net c 0 where
  inv := ⟨_, init_inv hcap conns conn detectTime data, rfl, rfl⟩
  shadow := rfl
  sendRing := Shmring.Holds.init (by decide) data
  recvRing := by
    have hempty : (Shmring.shmringCreate ntsMaxBufs data).Holds ntsMaxBufs [] :=
      Shmring.Holds.init (by decide) data
    exact congrArg List.length hempty.contents_eq
  sendState := rfl
  recvState := hready

/-- An application that never reads: after as many messages as its ring holds, the next one leaves
the receive loop waiting, whatever the bulk size and whoever else has a packet behind it. -/
theorem exists_waiting (hmsg : Sample net c msg) (hcap : ntsMaxBufs < net.cfg.capacity)
    (hready : (conns c).state = .readyConn) (conn : Option ConnPtr) (detectTime : ConnPtr → ℕ)
    (data : ℕ → NtpMsg) (dataPacket : NtpacketHeader) :
    ∃ acts s, (∀ a ∈ acts, a ≠ .read c) ∧
      Runs.run (step net) (init conns conn detectTime data) acts = some s ∧
      (s.conns c).reported < (s.conns c).outstanding ∧ s.receive net = none := by
  have hfill : ∀ n, n < ntsMaxBufs → ∃ acts s, (∀ a ∈ acts, a ≠ .read c) ∧
      Runs.run (step net) (init conns conn detectTime data) acts = some s ∧ s.Unread net c n := by
    intro n
    induction n with
    | zero => exact fun _ => ⟨[], _, by simp, rfl, init_unread (by omega) hready conn _ data⟩
    | succ n ih =>
      intro hn
      obtain ⟨acts, s, hacts, hrun, hs⟩ := ih (by omega)
      obtain ⟨s', hrun', hs'⟩ := hs.deliver hmsg (by omega) hn dataPacket
      refine ⟨acts ++ [.write c msg, .send c dataPacket 0, .recv], s', ?_, ?_, hs'⟩
      · simpa [or_imp, forall_and] using hacts
      · rw [Runs.run_append, hrun]
        exact hrun'
  obtain ⟨acts, s, hacts, hrun, hs⟩ := hfill (ntsMaxBufs - 1) (by decide)
  obtain ⟨s', q', hrun', hq', hflight, -, -, -, hrecvRing, -, -⟩ :=
    hs.forward hmsg (by unfold ntsMaxBufs at *; omega) dataPacket
  obtain ⟨c', r, msg', hc', heq, -⟩ := hq'.receive_cons hflight
  obtain rfl : c = c' := Option.some.inj (hmsg.table.symm.trans hc')
  obtain ⟨held, hheld, hsum⟩ := (hq'.conns c).recvRing
  have hlength : held.length = ntsMaxBufs - 1 := by rw [← hheld.contents_eq, hrecvRing, hs.recvRing]
  have hone : onWire net (flight q') c = 1 := by
    rw [hflight, onWire, List.countP_singleton, hmsg.table]
    simp
  refine ⟨acts ++ [.write c msg, .send c dataPacket 0], s', ?_, ?_, ?_, ?_⟩
  · simpa [or_imp, forall_and] using hacts
  · rw [Runs.run_append, hrun]
    exact hrun'
  · rw [(hq'.conns c).reported, FlowConn.outstanding]
    omega
  · rw [heq, hheld.push_full (by rw [hlength]; decide)]
    rfl

end SilentReader

end FlowState

end NtSocks
