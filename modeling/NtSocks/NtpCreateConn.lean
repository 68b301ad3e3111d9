import NtSocks.NtmMsg
import NtSocks.NtpRecv

/-!
# Creating a connection in the proxy

On a `CREATE_CONN` request the proxy creates the two rings of the connection, named by its ports,
enters it into the table of connections and puts it into a partition. The accepting side takes the
next partition in turn and reports it; the connecting side is told which one to use.
-/

namespace NtSocks

open Function

structure NtbConnEntry where
  state : ConnState
  connId : UInt32
  sendShmaddr : String
  recvShmaddr : String
  partitionId : ℕ
  deriving DecidableEq, Repr

structure NtbPartition where
  numConns : ℕ
  sendList : List ConnPtr
  deriving DecidableEq, Repr

def maxNumPartition : ℕ := 8

structure NtbLinkCustom where
  port2conn : Port2Conn
  conns : ConnPtr → NtbConnEntry
  nextConn : ConnPtr
  numPartition : ℕ
  roundRobinIdx : ℕ
  partitions : ℕ → NtbPartition
  numPartition_le : numPartition ≤ maxNumPartition
  roundRobinIdx_lt : roundRobinIdx < numPartition

def shmName (srcPort dstPort : UInt16) (kind : String) : String :=
  toString srcPort.toNat ++ "-" ++ toString dstPort.toNat ++ kind

def recvShmName (srcPort dstPort : UInt16) : String := shmName srcPort dstPort "-r"

def sendShmName (srcPort dstPort : UInt16) : String := shmName srcPort dstPort "-s"

def NtbConnEntry.create (srcPort dstPort : UInt16) (partition : ℕ) : NtbConnEntry where
  state := .readyConn
  connId := createConnId srcPort dstPort
  sendShmaddr := sendShmName srcPort dstPort
  recvShmaddr := recvShmName srcPort dstPort
  partitionId := partition

namespace NtbLinkCustom

variable (link : NtbLinkCustom) {shmAccept : String → Bool} {msg : NtmNtpMsg} {reply : NtpNtmMsg}

theorem nextPartition_lt :
    (if (link.roundRobinIdx + 1) % link.numPartition = 0 then 0 else link.roundRobinIdx + 1) <
      link.numPartition := by
  have hlt := link.roundRobinIdx_lt
  split
  · omega
  case isFalse hne =>
    refine lt_of_le_of_ne hlt fun heq => hne ?_
    rw [heq, Nat.mod_self]

def ntpAllocatePartition : ℕ × NtbLinkCustom :=
  (link.roundRobinIdx, { link with
    roundRobinIdx :=
      if (link.roundRobinIdx + 1) % link.numPartition = 0 then 0 else link.roundRobinIdx + 1
    roundRobinIdx_lt := link.nextPartition_lt })

def modifyPartition (partition : ℕ) (f : NtbPartition → NtbPartition) : NtbLinkCustom :=
  { link with
    partitions := update link.partitions partition (f (link.partitions partition)) }

def addConnToNtbSendList (partition : ℕ) (conn : ConnPtr) : NtbLinkCustom :=
  link.modifyPartition partition fun p => { p with sendList := p.sendList ++ [conn] }

/-- The answer has a partition only on the accepting side. -/
def ntpCreateConnAck (partition : ℕ) (msg : NtmNtpMsg) : NtpNtmMsg where
  srcIp := msg.srcIp
  dstIp := msg.dstIp
  srcPort := msg.srcPort
  dstPort := msg.dstPort
  msgType := createConn
  partitionId := if msg.partitionId < 0 then some (int8 partition) else none

def putConn (entry : NtbConnEntry) : NtbLinkCustom :=
  { link with
    port2conn := update link.port2conn entry.connId (some link.nextConn)
    conns := update link.conns link.nextConn entry
    nextConn := link.nextConn + 1 }

/-- `shmAccept` tells which rings can be created. A failure leaves the request unanswered. -/
def ntpCreateConnHandler (shmAccept : String → Bool) (msg : NtmNtpMsg) :
    Option NtpNtmMsg × NtbLinkCustom :=
  let srcPort := ntohs msg.srcPort.toUInt16
  let dstPort := ntohs msg.dstPort.toUInt16
  if shmAccept (sendShmName srcPort dstPort) ∧ shmAccept (recvShmName srcPort dstPort) then
    let (partition, link) :=
      if 0 ≤ msg.partitionId then (msg.partitionId.toNat, link) else link.ntpAllocatePartition
    let created := link.putConn (.create srcPort dstPort partition)
    let counted := created.modifyPartition partition fun p => { p with numConns := p.numConns + 1 }
    (some (ntpCreateConnAck partition msg), counted.addConnToNtbSendList partition link.nextConn)
  else (none, link)

theorem ntpCreateConnHandler_conns {link link' : NtbLinkCustom}
    (h : link.ntpCreateConnHandler shmAccept msg = (some reply, link')) :
    ∃ partition, link'.conns link.nextConn =
      .create (ntohs msg.srcPort.toUInt16) (ntohs msg.dstPort.toUInt16) partition := by
  simp only [ntpCreateConnHandler] at h
  split at h
  · by_cases hside : 0 ≤ msg.partitionId
    · simp only [if_pos hside] at h
      cases h
      exact ⟨_, update_self _ _ _⟩
    · simp only [if_neg hside] at h
      cases h
      exact ⟨_, update_self _ _ _⟩
  · cases h

def connOf (srcPort dstPort : UInt16) : Option NtbConnEntry :=
  (link.port2conn (createConnId srcPort dstPort)).map link.conns

theorem connOf_putConn (srcPort dstPort : UInt16) (partition : ℕ) :
    (link.putConn (.create srcPort dstPort partition)).connOf srcPort dstPort =
      some (.create srcPort dstPort partition) := by
  simp [connOf, putConn, NtbConnEntry.create]

theorem ntpCreateConnHandler_creates {srcPort dstPort : UInt16}
    (hsrc : ntohs msg.srcPort.toUInt16 = srcPort) (hdst : ntohs msg.dstPort.toUInt16 = dstPort)
    (hsend : shmAccept (sendShmName srcPort dstPort) = true)
    (hrecv : shmAccept (recvShmName srcPort dstPort) = true) :
    ∃ partition link', link.ntpCreateConnHandler shmAccept msg =
        (some (ntpCreateConnAck partition msg), link') ∧
      link'.connOf srcPort dstPort = some (.create srcPort dstPort partition) ∧
      partition = if 0 ≤ msg.partitionId then msg.partitionId.toNat else link.roundRobinIdx := by
  simp only [ntpCreateConnHandler, hsrc, hdst, hsend, hrecv, and_self, if_true]
  by_cases hside : 0 ≤ msg.partitionId
  · rw [if_pos hside, if_pos hside]
    exact ⟨_, _, rfl, connOf_putConn link srcPort dstPort _, rfl⟩
  · rw [if_neg hside, if_neg hside]
    exact ⟨_, _, rfl, connOf_putConn link.ntpAllocatePartition.2 srcPort dstPort _, rfl⟩

def partitionOf (msg : NtmNtpMsg) : Option ℕ :=
  (link.connOf (ntohs msg.srcPort.toUInt16) (ntohs msg.dstPort.toUInt16)).map
    NtbConnEntry.partitionId

theorem ntpCreateConnHandler_answers {link link' : NtbLinkCustom}
    (h : link.ntpCreateConnHandler shmAccept msg = (some reply, link')) :
    ∃ partition, reply = ntpCreateConnAck partition msg ∧ link'.partitionOf msg = some partition ∧
      partition = if 0 ≤ msg.partitionId then msg.partitionId.toNat else link.roundRobinIdx := by
  by_cases hrings : shmAccept (sendShmName (ntohs msg.srcPort.toUInt16)
      (ntohs msg.dstPort.toUInt16)) = true ∧
      shmAccept (recvShmName (ntohs msg.srcPort.toUInt16) (ntohs msg.dstPort.toUInt16)) = true
  · obtain ⟨partition, link'', hcreates, hconn, hpartition⟩ :=
      link.ntpCreateConnHandler_creates rfl rfl hrings.1 hrings.2
    rw [h] at hcreates
    cases hcreates
    refine ⟨partition, rfl, ?_, hpartition⟩
    rw [partitionOf, hconn]
    rfl
  · simp only [ntpCreateConnHandler, if_neg hrings] at h
    cases h

end NtbLinkCustom

end NtSocks
