import NtSocks.Lib.LaggedQueue
import NtSocks.SingleSlot

/-!
# One direction of a data link

The system couples a sender with the receive loop at the other end. Its steps write one whole
packet, perform one iteration of the loop, publish the loop's read index, let the oldest
published index arrive at the sender, or close a connection from the receiving side. The sender's
log records the slot of every packet it wrote.
-/

namespace NtSocks

structure Packet where
  srcPort : UInt16
  dstPort : UInt16
  type : NtpacketType
  payload : List UInt8
  deriving DecidableEq, Repr

namespace Packet

variable (cfg : NtpConfig) (port2conn : Port2Conn) (p : Packet)

def ntpacket : Ntpacket where
  header := packNtpacketHeader p.srcPort p.dstPort p.payload.length p.type
  payload := p.payload

/-- The key of the receiving connection: the ports are swapped. -/
def connId : UInt32 := createConnId p.dstPort p.srcPort

def message : Option NtpMsg := p.type.message (UInt16.ofNat (8 + p.payload.length)) p.payload

def deliveries : List (ConnPtr × NtpMsg) :=
  match port2conn p.connId with
  | none => []
  | some c => (p.message.map (c, ·)).toList

/-- The packet names a connection, not the initial value of the loop's port variables. -/
def PortsSet : Prop := ¬ (p.srcPort = 0 ∧ p.dstPort = 0)

instance : Decidable p.PortsSet := inferInstanceAs (Decidable (¬ _))

/-- The packet occupies one slot: its header lies inside the slot, and of the next slot it covers
at most the two ports. -/
structure Fits : Prop where
  len_le_packet : 8 + p.payload.length ≤ cfg.dataPacketSize
  len_le_slot : 8 + p.payload.length ≤ cfg.stride + 4
  header_le_slot : 8 ≤ cfg.stride
  not_multi : p.type ≠ .multiPkg
  portsSet : p.PortsSet

variable {cfg port2conn p}

theorem portsSet_of_conn {c : ConnPtr} (hzero : port2conn (createConnId 0 0) = none)
    (hc : port2conn p.connId = some c) : p.PortsSet := by
  rintro ⟨hsrc, hdst⟩
  rw [connId, hsrc, hdst, hzero] at hc
  cases hc

@[simp] theorem ntpacket_payload : p.ntpacket.payload = p.payload := rfl

variable (h : 8 + p.payload.length ≤ cfg.dataPacketSize)
include h

theorem len_le : p.payload.length ≤ 65527 := by
  have := cfg.dataPacketSize_lt
  omega

theorem msgLen_toNat : p.ntpacket.header.msgLen.toNat = 8 + p.payload.length :=
  toNat_ofNat_header (len_le h)

theorem msgLen_sub : (p.ntpacket.header.msgLen - 8).toNat = p.payload.length :=
  toNat_ofNat_header_sub (len_le h)

theorem msgLen_ne_zero : p.ntpacket.header.msgLen ≠ 0 :=
  ofNat_header_ne_zero (len_le h)

end Packet

def RecvState.remoteWrite (r : RecvState) (ws : List RemoteWrite) : RecvState :=
  { r with mem := applyWrites r.mem ws }

@[simp] theorem RecvState.remoteWrite_mem (r : RecvState) (ws : List RemoteWrite) :
    (r.remoteWrite ws).mem = applyWrites r.mem ws := rfl

@[simp] theorem RecvState.remoteWrite_curIndex (r : RecvState) (ws : List RemoteWrite) :
    (r.remoteWrite ws).curIndex = r.curIndex := rfl

structure SentPacket where
  slot : ℕ
  packet : Packet
  deriving DecidableEq, Repr

structure LinkState where
  send : SendSide
  recv : RecvState
  sent : List SentPacket

inductive LinkAct
  | send (path : EnqueuePath) (p : Packet)
  | recv
  | publish
  | arrive
  | activeClose (c : ConnPtr)
  deriving DecidableEq, Repr

namespace LinkState

variable (cfg : NtpConfig) (port2conn : Port2Conn)

/-- A zeroed ring with all indices zero. The loop's connection pointer starts uninitialised, so
its first value is arbitrary. -/
def init (conns : ConnPtr → NtbConn) (conn : Option ConnPtr) : LinkState where
  send := { curIndex := 0, localCumPtr := 0 }
  recv := {
    mem := fun _ => 0
    curIndex := 0
    srcPort := 0
    dstPort := 0
    conn := conn
    recvPacketCounter := 0
    conns := conns
    handed := []
    remoteCumWrites := []
    ctrlMsgs := []
    epollEvents := [] }
  sent := []

def step (s : LinkState) : LinkAct → Option LinkState
  | .send path p =>
    (path.enqueue cfg s.send p.ntpacket).map fun e =>
      { send := e.link
        recv := s.recv.remoteWrite e.writes
        sent := s.sent ++ [{ slot := s.send.curIndex, packet := p }] }
  | .recv => (s.recv.recvStep cfg port2conn).map fun r => { s with recv := r }
  | .publish => some { s with recv := s.recv.transDataLinkCurIndex }
  | .arrive =>
    match s.recv.remoteCumWrites with
    | [] => none
    | u :: us =>
      some { s with
        send := { s.send with localCumPtr := u }
        recv := { s.recv with remoteCumWrites := us } }
  | .activeClose c => some { s with recv := s.recv.setConnState c .activeClose }

def head (s : LinkState) : Option SentPacket := s.sent[s.recv.recvPacketCounter]?

def Live (s : LinkState) (p : Packet) : Prop :=
  ∃ c, port2conn p.connId = some c ∧ (s.recv.conns c).state = .readyConn

instance (s : LinkState) (p : Packet) : Decidable (s.Live port2conn p) :=
  match h : port2conn p.connId with
  | none => isFalse (by rintro ⟨c, hc, -⟩; simp [h] at hc)
  | some c =>
    if hc : (s.recv.conns c).state = .readyConn then isTrue ⟨c, h, hc⟩
    else isFalse (by
      rintro ⟨c', hc', hstate⟩
      obtain rfl : c = c' := by simpa [h] using hc'
      exact hc hstate)

end LinkState

end NtSocks
