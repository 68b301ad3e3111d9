import NtSocks.Lib.Memory

/-!
# Packets of the NTB data link

A packet is an eight byte header followed by its payload. The header stores two ports, the total
length and a type word whose bits 12 to 14 hold the packet type and whose top bit asks the
receiver to publish its read index.
-/

namespace NtSocks

inductive NtpacketType
  | detectPkg
  | singlePkg
  | multiPkg
  | enfMulti
  | finPkg
  deriving DecidableEq, Repr

namespace NtpacketType

def code : NtpacketType → UInt16
  | detectPkg => 0
  | singlePkg => 1
  | multiPkg => 2
  | enfMulti => 3
  | finPkg => 4

def bits : NtpacketType → UInt16
  | detectPkg => 0
  | singlePkg => (1 : UInt16) <<< 12
  | multiPkg => (1 : UInt16) <<< 13
  | enfMulti => (3 : UInt16) <<< 12
  | finPkg => (1 : UInt16) <<< 14

end NtpacketType

structure NtpacketHeader where
  srcPort : UInt16
  dstPort : UInt16
  msgLen : UInt16
  msgType : UInt16
  deriving DecidableEq, Repr

structure Ntpacket where
  header : NtpacketHeader
  payload : List UInt8
  deriving DecidableEq, Repr

def psh : UInt16 := (1 : UInt16) <<< 15

def dataLenGetType (msgType : UInt16) : UInt16 := (msgType >>> 12) &&& 0x07

theorem dataLenGetType_bits (t : NtpacketType) : dataLenGetType t.bits = t.code := by
  cases t <;> decide

theorem dataLenGetType_bits_or_psh (t : NtpacketType) :
    dataLenGetType (t.bits ||| psh) = t.code := by
  cases t <;> decide

theorem toNat_ofNat_header {n : ℕ} (h : n ≤ 65527) : (UInt16.ofNat (8 + n)).toNat = 8 + n := by
  rw [UInt16.toNat_ofNat']
  omega

theorem toNat_ofNat_header_sub {n : ℕ} (h : n ≤ 65527) : (UInt16.ofNat (8 + n) - 8).toNat = n := by
  have hlen := toNat_ofNat_header h
  have hle : (8 : UInt16) ≤ UInt16.ofNat (8 + n) := by
    rw [UInt16.le_iff_toNat_le, hlen]
    exact Nat.le_add_right 8 n
  rw [UInt16.toNat_sub_of_le _ _ hle, hlen]
  exact Nat.add_sub_cancel_left ..

theorem ofNat_header_ne_zero {n : ℕ} (h : n ≤ 65527) : UInt16.ofNat (8 + n) ≠ 0 := by
  intro h0
  have hlen := toNat_ofNat_header h
  rw [h0] at hlen
  simp only [UInt16.toNat_zero] at hlen
  omega

def packNtpacketHeader (srcPort dstPort : UInt16) (payloadLen : ℕ) (t : NtpacketType) :
    NtpacketHeader where
  srcPort := srcPort
  dstPort := dstPort
  msgLen := UInt16.ofNat (8 + payloadLen)
  msgType := 0 ||| t.bits

/-- Unlike `packNtpacketHeader`, the type bits are added to whatever the word held before. -/
def ntbDataMsgAddHeader (header : NtpacketHeader) (srcPort dstPort : UInt16) (payloadLen : ℕ)
    (t : NtpacketType) : NtpacketHeader where
  srcPort := srcPort
  dstPort := dstPort
  msgLen := UInt16.ofNat (8 + payloadLen)
  msgType := header.msgType ||| t.bits

namespace NtpacketHeader

variable (h : NtpacketHeader) (m : Memory) (a b : ℕ) (bs : List UInt8)

def withType (w : UInt16) : NtpacketHeader := { h with msgType := w }

@[simp] theorem withType_msgLen (w : UInt16) : (h.withType w).msgLen = h.msgLen := rfl

def bytes : List UInt8 :=
  leBytes h.srcPort ++ (leBytes h.dstPort ++ (leBytes h.msgLen ++ leBytes h.msgType))

@[simp] theorem length_bytes : h.bytes.length = 8 := rfl

def read : NtpacketHeader where
  srcPort := m.halfword a
  dstPort := m.halfword (a + 2)
  msgLen := m.halfword (a + 4)
  msgType := m.halfword (a + 6)

theorem read_congr {m m' : Memory} {a b : ℕ} (h : ∀ i < 8, m (a + i) = m' (b + i)) :
    read m a = read m' b := by
  simp only [read, NtpacketHeader.mk.injEq]
  refine ⟨?_, ?_, ?_, ?_⟩
  · exact Memory.halfword_congr (h 0 (by omega)) (h 1 (by omega))
  · exact Memory.halfword_congr (h 2 (by omega)) (h 3 (by omega))
  · exact Memory.halfword_congr (h 4 (by omega)) (h 5 (by omega))
  · exact Memory.halfword_congr (h 6 (by omega)) (h 7 (by omega))

theorem read_store_of_disjoint (h : a + 8 ≤ b ∨ b + bs.length ≤ a) :
    read (m.store b bs) a = read m a := by
  apply read_congr
  intro i hi
  exact m.store_apply_outside b bs (by omega)

theorem read_store_bytes : read (m.store a h.bytes) a = h := by
  obtain ⟨src, dst, len, type⟩ := h
  simp only [bytes, Memory.store_append, length_leBytes, read, NtpacketHeader.mk.injEq]
  refine ⟨?_, ?_, ?_, ?_⟩
  · rw [Memory.halfword_store_of_disjoint _ _ _ _ (by simp),
      Memory.halfword_store_of_disjoint _ _ _ _ (by simp),
      Memory.halfword_store_of_disjoint _ _ _ _ (by simp), Memory.halfword_store_leBytes]
  · rw [Memory.halfword_store_of_disjoint _ _ _ _ (by simp),
      Memory.halfword_store_of_disjoint _ _ _ _ (by simp), Memory.halfword_store_leBytes]
  · rw [Memory.halfword_store_of_disjoint _ _ _ _ (by simp), Memory.halfword_store_leBytes]
  · rw [Memory.halfword_store_leBytes]

end NtpacketHeader

inductive NtpMsgType
  | ntpData
  | ntpFin
  deriving DecidableEq, Repr

structure NtpMsg where
  msgType : NtpMsgType
  msgLen : UInt16
  payload : List UInt8
  deriving DecidableEq, Repr

end NtSocks
