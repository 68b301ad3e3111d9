import Mathlib.Tactic

/-!
# Messages of the monitor

The monitor exchanges messages with a peer monitor over TCP, and with the library and the proxy of
its host over rings. Ports travel in network order between monitors and to the proxy, and in host
order to and from the library.
-/

namespace NtSocks

def htons (x : UInt16) : UInt16 := (x <<< 8) ||| (x >>> 8)

def ntohs (x : UInt16) : UInt16 := (x <<< 8) ||| (x >>> 8)

@[simp] theorem ntohs_htons (x : UInt16) : ntohs (htons x) = x := by
  apply UInt16.toBitVec_inj.mp
  simp only [ntohs, htons, UInt16.toBitVec_or, UInt16.toBitVec_shiftLeft,
    UInt16.toBitVec_shiftRight]
  ext i hi
  interval_cases i <;> simp

theorem ofInt_toNat (port : UInt16) : UInt16.ofInt (port.toNat : ℤ) = port := by
  have hlt := port.toNat_lt
  have hmod : ((port.toNat : ℤ) % 2 ^ 16).toNat = port.toNat := by omega
  rw [UInt16.ofInt, hmod, UInt16.ofNat_toNat]

/-- Conversion of an `int` or `uint16_t` to a signed byte. -/
def int8 (n : ℤ) : ℤ := Int.bmod n 256

theorem int8_of_lt {n : ℕ} (h : n < 128) : int8 n = n := by
  rw [int8, Int.bmod_def]
  omega

theorem ofInt_int8 {n : ℕ} (h : n < 128) : UInt8.ofInt (int8 n) = UInt8.ofNat n := by
  rw [int8_of_lt h, UInt8.ofInt]
  congr 1
  omega

/-- The messages between monitors that concern connections. -/
inductive NtmSockMsgType
  | ntSyn
  | ntSynAck
  | ntInvalidPort
  | ntListenerNotFound
  | ntListenerNotReady
  | ntBacklogIsFull
  | ntFin
  | ntFinAck
  | ntClientSynAck
  deriving DecidableEq, Repr

structure NtmSockMsg where
  srcAddr : UInt32
  dstAddr : UInt32
  sport : UInt16
  dport : UInt16
  sockid : ℤ
  type : NtmSockMsgType
  partitionId : UInt8
  deriving DecidableEq, Repr

structure NtmMsg where
  msgId : ℕ
  sockid : ℤ
  addrlen : ℤ
  port : ℤ
  address : UInt32
  deriving DecidableEq, Repr

inductive NtsMsgType
  | newSock
  | bind
  | listen
  | dispatched
  | establish
  | close
  | clientSynAck
  deriving DecidableEq, Repr

inductive NtErrno
  | invalidIp
  | invalidPort
  | inusePort
  | requireClosedFirst
  | requireBindFirst
  | requireClosedOrBoundFirst
  | remoteNtmNotFound
  deriving DecidableEq, Repr

/-- A message to the library. A field that the sender leaves unassigned is `none`. -/
structure NtsMsg where
  msgId : Option ℕ
  msgType : NtsMsgType
  sockid : ℤ
  retval : Option ℤ
  ntErrno : Option NtErrno
  port : Option ℤ
  deriving DecidableEq, Repr

structure NtmNtpMsg where
  srcIp : UInt64
  dstIp : UInt64
  srcPort : UInt64
  dstPort : UInt64
  msgType : UInt8
  partitionId : ℤ
  deriving DecidableEq, Repr

structure NtpNtmMsg where
  srcIp : UInt64
  dstIp : UInt64
  srcPort : UInt64
  dstPort : UInt64
  msgType : UInt8
  partitionId : Option ℤ
  deriving DecidableEq, Repr

def createConn : UInt8 := 1

end NtSocks
