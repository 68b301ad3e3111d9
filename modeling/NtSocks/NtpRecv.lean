import NtSocks.NtbEnqueue

/-!
# The receive loop of one partition

`recvStep` is one iteration of `ntp_recv_data_to_buf`. It polls the slot at the read index; a
slot whose length field is zero is empty. A packet is looked up in the connection table by its
swapped ports, the last lookup being kept for packets with the same ports, and is then either
dropped or handled by its type. Messages given to the applications, writes of the read index to
the peer, control replies and epoll events are recorded in the order in which they are made.
-/

namespace NtSocks

abbrev ConnPtr := ℕ

inductive ConnState
  | readyConn
  | activeClose
  | passiveClose
  deriving DecidableEq, Repr

/-- The fields of a connection that the loop uses; `recvReadIndex` is the read index of its
receive ring. -/
structure NtbConn where
  state : ConnState
  epoll : UInt32
  sockid : UInt32
  recvReadIndex : ℕ
  deriving DecidableEq, Repr

structure NtbCtrlMsg where
  srcPort : UInt16
  dstPort : UInt16
  msgLen : UInt16
  readIndex : ℕ
  deriving DecidableEq, Repr

structure EpollEvent where
  sockid : UInt32
  data : UInt64
  events : UInt32
  deriving DecidableEq, Repr

abbrev Port2Conn := UInt32 → Option ConnPtr

/-- The state of the loop: the local ring, the loop's variables, the connections, and what the
loop has emitted. `remoteCumWrites` holds the read indices written to the peer that have not
arrived there. -/
structure RecvState where
  mem : Memory
  curIndex : ℕ
  srcPort : UInt16
  dstPort : UInt16
  conn : Option ConnPtr
  recvPacketCounter : ℕ
  conns : ConnPtr → NtbConn
  handed : List (ConnPtr × NtpMsg)
  remoteCumWrites : List ℕ
  ctrlMsgs : List NtbCtrlMsg
  epollEvents : List (ConnPtr × EpollEvent)

def ntsEpollin : UInt32 := 0x0001

def idxUpdateInterval : ℕ := 512

def createConnId (srcPort dstPort : UInt16) : UInt32 :=
  (srcPort.toUInt32 <<< 16) + dstPort.toUInt32

namespace RecvState

variable (cfg : NtpConfig) (port2conn : Port2Conn) (s : RecvState) (c : ConnPtr)
  (hdr : NtpacketHeader)

def header : NtpacketHeader := NtpacketHeader.read s.mem (cfg.slotAddr s.curIndex)

def transDataLinkCurIndex : RecvState :=
  { s with remoteCumWrites := s.remoteCumWrites ++ [s.curIndex] }

def parserDataLenGetType (msgType : UInt16) : RecvState :=
  if msgType &&& psh ≠ 0 then s.transDataLinkCurIndex else s

def getConn : RecvState :=
  if s.srcPort ≠ hdr.dstPort ∨ s.dstPort ≠ hdr.srcPort then
    { s with
      srcPort := hdr.dstPort
      dstPort := hdr.srcPort
      conn := port2conn (createConnId hdr.dstPort hdr.srcPort) }
  else s

def clearMsgLen (m : Memory) (index : ℕ) : Memory := m.store (cfg.slotAddr index + 4) (leBytes 0)

def clearMsgType (m : Memory) (index : ℕ) : Memory := m.store (cfg.slotAddr index + 6) (leBytes 0)

def nextIndex : ℕ := RingIndex.next cfg.capacity s.curIndex

/-- The clearing loop of the drop branch: it moves to the next slot before it clears. -/
def clearFollowing : ℕ → Memory → ℕ → Memory × ℕ
  | 0, m, index => (m, index)
  | count + 1, m, index =>
    let index := RingIndex.next cfg.capacity index
    clearFollowing count (clearMsgLen cfg m index) index

def slotCount (msgLen : UInt16) : ℕ :=
  (msgLen.toNat + cfg.dataPacketSize - 1) >>> cfg.ntbPacketbitsSize

def dropPacket (msgLen : UInt16) : RecvState :=
  let count := slotCount cfg msgLen
  let count := if 1 < count then count + 1 else count
  let cleared := clearFollowing cfg count s.mem s.curIndex
  { s with mem := cleared.1, curIndex := RingIndex.next cfg.capacity cleared.2 }

def pushEpollEvent : RecvState :=
  if (s.conns c).epoll ≠ 0 ∧ (s.conns c).epoll &&& ntsEpollin ≠ 0 then
    { s with epollEvents := s.epollEvents ++
        [(c, { sockid := (s.conns c).sockid
               data := (s.conns c).sockid.toUInt64
               events := ntsEpollin })] }
  else s

def handOver (msg : NtpMsg) : RecvState := { s with handed := s.handed ++ [(c, msg)] }

def release : RecvState :=
  { s with mem := clearMsgLen cfg s.mem s.curIndex, curIndex := s.nextIndex cfg }

def recvSingle : RecvState :=
  let len := hdr.msgLen - 8
  let payload := s.mem.load (cfg.slotAddr s.curIndex + ntpacketHeaderLen) len.toNat
  let s' := s.handOver c { msgType := .ntpData, msgLen := len, payload := payload }
  let s' := { s' with
    mem := clearMsgType cfg (clearMsgLen cfg s'.mem s'.curIndex) s'.curIndex
    curIndex := s'.nextIndex cfg }
  s'.pushEpollEvent c

/-- The clearing loop of a multi-slot message: it clears before it moves to the next slot. -/
def clearFrom : ℕ → Memory → ℕ → Memory
  | 0, m, _ => m
  | count + 1, m, index =>
    clearFrom count (clearMsgLen cfg m index) (RingIndex.next cfg.capacity index)

def multiPayload (m : Memory) (index nextIndex len : ℕ) : List UInt8 :=
  let ptr := cfg.slotAddr index + ntpacketHeaderLen
  if nextIndex ≤ cfg.capacity then m.load ptr len
  else
    let firstLen := uint16 ((((cfg.capacity - index - 1) <<< cfg.ntbPacketbitsSize) +
      cfg.datapacketPayloadSize : ℕ) : ℤ)
    m.load ptr firstLen ++ m.load 0 (len - firstLen)

/-- `none` while the loop spins on the slot of the closing packet. -/
def recvMulti : Option RecvState :=
  let len := hdr.msgLen - 8
  let nextIndex := s.curIndex + slotCount cfg hdr.msgLen
  let finIndex := if nextIndex < cfg.capacity then nextIndex else nextIndex - cfg.capacity
  if (NtpacketHeader.read s.mem (cfg.slotAddr finIndex)).msgLen = 0 then none
  else
    let payload := multiPayload cfg s.mem s.curIndex nextIndex len.toNat
    let s' := { s with mem := clearFrom cfg (nextIndex - s.curIndex + 1) s.mem s.curIndex }
    let s' := s'.handOver c { msgType := .ntpData, msgLen := len, payload := payload }
    let s' := { s' with
      curIndex := if nextIndex + 1 < cfg.capacity then nextIndex + 1
        else nextIndex + 1 - cfg.capacity }
    some (s'.pushEpollEvent c)

def detectPkgHandler : RecvState :=
  { s with ctrlMsgs := s.ctrlMsgs ++ [{
      srcPort := hdr.srcPort
      dstPort := hdr.dstPort
      msgLen := 6
      readIndex := (s.conns c).recvReadIndex }] }

def recvDetect : RecvState := (s.detectPkgHandler c hdr).release cfg

def setConnState (state : ConnState) : RecvState :=
  { s with conns := Function.update s.conns c { s.conns c with state := state } }

/-- Only the header of the message block is filled in; no payload is copied. -/
def recvFin : RecvState :=
  let s' := s.handOver c { msgType := .ntpFin, msgLen := hdr.msgLen - 8, payload := [] }
  let s' := (s'.setConnState c .passiveClose).release cfg
  s'.pushEpollEvent c

def recvByType (type : UInt16) : Option RecvState :=
  if type = NtpacketType.singlePkg.code then some (s.recvSingle cfg c hdr)
  else if type = NtpacketType.multiPkg.code then s.recvMulti cfg c hdr
  else if type = NtpacketType.detectPkg.code then some (s.recvDetect cfg c hdr)
  else if type = NtpacketType.finPkg.code then some (s.recvFin cfg c hdr)
  else some (s.release cfg)

def publishAtInterval : RecvState :=
  if s.recvPacketCounter % idxUpdateInterval = 0 then s.transDataLinkCurIndex else s

def countPacket : RecvState := { s with recvPacketCounter := s.recvPacketCounter + 1 }

/-- The part of an iteration before the packet is dropped or handled. -/
def accept : RecvState :=
  ((s.countPacket).parserDataLenGetType hdr.msgType).getConn port2conn hdr

def liveConn : Option ConnPtr :=
  s.conn.filter fun c =>
    !((s.conns c).state == .activeClose || (s.conns c).state == .passiveClose)

/-- One iteration of the loop; `none` when it does not complete in this state. -/
def recvStep : Option RecvState :=
  let hdr := s.header cfg
  if hdr.msgLen = 0 then some s
  else
    let s := s.accept port2conn hdr
    match s.liveConn with
    | none => some (s.dropPacket cfg hdr.msgLen)
    | some c => (s.recvByType cfg c hdr (dataLenGetType hdr.msgType)).map publishAtInterval

variable {s c hdr} {s' : RecvState}

theorem liveConn_eq_some :
    s.liveConn = some c ↔ s.conn = some c ∧ (s.conns c).state = .readyConn := by
  rw [liveConn, Option.filter_eq_some_iff]
  constructor
  · rintro ⟨hconn, hstate⟩
    refine ⟨hconn, ?_⟩
    cases h : (s.conns c).state <;> simp_all
  · rintro ⟨hconn, hstate⟩
    exact ⟨hconn, by simp [hstate]⟩

theorem recvStep_empty (h : (s.header cfg).msgLen = 0) : s.recvStep cfg port2conn = some s := by
  simp only [recvStep, if_pos h]

theorem recvStep_drop (hlen : (s.header cfg).msgLen ≠ 0)
    (hlive : (s.accept port2conn (s.header cfg)).liveConn = none) :
    s.recvStep cfg port2conn =
      some ((s.accept port2conn (s.header cfg)).dropPacket cfg (s.header cfg).msgLen) := by
  simp only [recvStep, if_neg hlen, hlive]

theorem recvStep_live (hlen : (s.header cfg).msgLen ≠ 0)
    (hlive : (s.accept port2conn (s.header cfg)).liveConn = some c) :
    s.recvStep cfg port2conn = ((s.accept port2conn (s.header cfg)).recvByType cfg c (s.header cfg)
        (dataLenGetType (s.header cfg).msgType)).map publishAtInterval := by
  simp only [recvStep, if_neg hlen, hlive]

section NormalForms

variable (s c hdr)

def lookupConn : Option ConnPtr :=
  if s.srcPort ≠ hdr.dstPort ∨ s.dstPort ≠ hdr.srcPort then
    port2conn (createConnId hdr.dstPort hdr.srcPort)
  else s.conn

def pshWrites : List ℕ := if hdr.msgType &&& psh ≠ 0 then [s.curIndex] else []

theorem accept_eq : s.accept port2conn hdr = { s with
      srcPort := hdr.dstPort
      dstPort := hdr.srcPort
      conn := s.lookupConn port2conn hdr
      recvPacketCounter := s.recvPacketCounter + 1
      remoteCumWrites := s.remoteCumWrites ++ s.pshWrites hdr } := by
  have hparse : s.countPacket.parserDataLenGetType hdr.msgType = { s with
        recvPacketCounter := s.recvPacketCounter + 1
        remoteCumWrites := s.remoteCumWrites ++ s.pshWrites hdr } := by
    unfold parserDataLenGetType pshWrites countPacket transDataLinkCurIndex
    split <;> simp
  rw [accept, hparse]
  unfold getConn lookupConn
  by_cases h : s.srcPort ≠ hdr.dstPort ∨ s.dstPort ≠ hdr.srcPort
  · simp only [if_pos h]
  · obtain ⟨hsrc, hdst⟩ : s.srcPort = hdr.dstPort ∧ s.dstPort = hdr.srcPort := by
      simpa only [not_or, not_not] using h
    simp only [if_neg h]
    rw [hsrc, hdst]

theorem pushEpollEvent_eq : ∃ events, s.pushEpollEvent c = { s with epollEvents := events } := by
  unfold pushEpollEvent
  split
  · exact ⟨_, rfl⟩
  · exact ⟨s.epollEvents, rfl⟩

theorem publishAtInterval_eq : s.publishAtInterval =
    { s with remoteCumWrites := s.remoteCumWrites ++
        if s.recvPacketCounter % idxUpdateInterval = 0 then [s.curIndex] else [] } := by
  unfold publishAtInterval transDataLinkCurIndex
  split <;> simp

end NormalForms

end RecvState

end NtSocks
