import NtSocks.Lib.RingIndex
import NtSocks.NtpConfig
import NtSocks.Ntpacket

/-!
# Writing packets to the peer's data ring

The sender keeps the write index of the peer's ring and a shadow of the peer's read index. Each
enqueue routine spins while the slot after the write index is the shadow index (`none` here),
then issues its remote writes in program order and advances the write index. The routines differ
in the order of their writes and in the header fields that they write at all.
-/

namespace NtSocks

structure RemoteWrite where
  addr : ℕ
  bytes : List UInt8
  deriving DecidableEq, Repr

def applyWrites (m : Memory) (ws : List RemoteWrite) : Memory :=
  ws.foldl (fun m w => m.store w.addr w.bytes) m

@[simp] theorem applyWrites_nil (m : Memory) : applyWrites m [] = m := rfl

@[simp] theorem applyWrites_cons (m : Memory) (w : RemoteWrite) (ws : List RemoteWrite) :
    applyWrites m (w :: ws) = applyWrites (m.store w.addr w.bytes) ws := rfl

theorem applyWrites_append (m : Memory) (ws ws' : List RemoteWrite) :
    applyWrites m (ws ++ ws') = applyWrites (applyWrites m ws) ws' := by
  simp only [applyWrites, List.foldl_append]

/-- The sender's half of a data link: `remote_ring->cur_index` and `*local_cum_ptr`. -/
structure SendSide where
  curIndex : ℕ
  localCumPtr : ℕ
  deriving DecidableEq, Repr

namespace SendSide

variable (cfg : NtpConfig) (link : SendSide)

def nextIndex : ℕ := RingIndex.next cfg.capacity link.curIndex

def advance : SendSide := { link with curIndex := link.nextIndex cfg }

@[simp] theorem advance_curIndex : (link.advance cfg).curIndex = link.nextIndex cfg := rfl

@[simp] theorem advance_localCumPtr : (link.advance cfg).localCumPtr = link.localCumPtr := rfl

end SendSide

/-- What an enqueue routine leaves behind: the link, its remote writes in program order, and the
message block that it was given, whose header it may have changed. -/
structure Enqueued where
  link : SendSide
  writes : List RemoteWrite
  msg : Ntpacket
  deriving DecidableEq, Repr

def u64Sub (a b : ℕ) : ℕ := (a + 2 ^ 64 - b) % 2 ^ 64

def NtpacketHeader.requestIndex (h : NtpacketHeader) (request : Bool) : NtpacketHeader :=
  if request then { h with msgType := h.msgType ||| psh } else h

def crossesWindow (cfg : NtpConfig) (link : SendSide) (msgLen : UInt16) : Bool :=
  ((link.nextIndex cfg + (msgLen.toNat >>> cfg.ntbPacketbitsSize)) &&& 0xfc00) !=
    (link.curIndex &&& 0xfc00)

def ntpacketEnqueue (cfg : NtpConfig) (link : SendSide) (sourceMsg : Ntpacket) :
    Option Enqueued :=
  let nextIndex := link.nextIndex cfg
  let msgLen := sourceMsg.header.msgLen
  let ptr := cfg.slotAddr link.curIndex
  if nextIndex = link.localCumPtr then none
  else if msgLen.toNat ≤ cfg.dataPacketSize then
    let header := sourceMsg.header.requestIndex
      ((u64Sub nextIndex link.localCumPtr &&& 0x3ff) == 0)
    some {
      link := link.advance cfg
      writes := [⟨ptr, header.bytes⟩,
        ⟨ptr + ntpacketHeaderLen, sourceMsg.payload.take (msgLen.toNat - ntpacketHeaderLen)⟩]
      msg := { sourceMsg with header := header } }
  else
    let header := sourceMsg.header.requestIndex (crossesWindow cfg link msgLen)
    some {
      link := link.advance cfg
      writes := [⟨ptr + ntpacketHeaderLen,
          sourceMsg.payload.take (cfg.dataPacketSize - ntpacketHeaderLen)⟩,
        ⟨ptr, header.bytes⟩]
      msg := { sourceMsg with header := header } }

/-- `wr_gap`: the distance from the shadow index to the next write index around the ring. -/
def wrGap (cfg : NtpConfig) (link : SendSide) : ℕ :=
  let nextIndex := link.nextIndex cfg
  if link.localCumPtr ≤ nextIndex then nextIndex - link.localCumPtr
  else (u64Sub nextIndex link.localCumPtr + cfg.capacity) % 2 ^ 64

def ntbDataMsgEnqueue (cfg : NtpConfig) (link : SendSide) (msg : Ntpacket) : Option Enqueued :=
  let nextIndex := link.nextIndex cfg
  let msgLen := msg.header.msgLen
  let ptr := cfg.slotAddr link.curIndex
  if nextIndex = link.localCumPtr then none
  else if msgLen.toNat ≤ cfg.dataPacketSize then
    let header := msg.header.requestIndex ((wrGap cfg link &&& 0x3ff) == 0)
    some {
      link := link.advance cfg
      writes := [⟨ptr + ntpacketHeaderLen, msg.payload.take (msgLen.toNat - ntpacketHeaderLen)⟩,
        ⟨ptr, header.bytes⟩]
      msg := { msg with header := header } }
  else
    let header := msg.header.requestIndex (crossesWindow cfg link msgLen)
    some {
      link := link.advance cfg
      writes := [⟨ptr + ntpacketHeaderLen,
          msg.payload.take (cfg.dataPacketSize - ntpacketHeaderLen)⟩,
        ⟨ptr, header.bytes⟩]
      msg := { msg with header := header } }

def lengthLast (ptr : ℕ) (srcPort dstPort msgLen : UInt16) (payload : List UInt8) :
    List RemoteWrite :=
  [⟨ptr, leBytes srcPort⟩, ⟨ptr + 2, leBytes dstPort⟩, ⟨ptr + ntpacketHeaderLen, payload⟩,
    ⟨ptr + 4, leBytes msgLen⟩]

/-- The type bits reach the local message block only: of the header, the ring receives the two
ports and the length. -/
def ntbDataMsgEnqueue2 (cfg : NtpConfig) (link : SendSide) (outgoingMsg : Ntpacket)
    (srcPort dstPort : UInt16) (payloadLen : ℕ) (t : NtpacketType) : Option Enqueued :=
  let nextWriteIdx := link.nextIndex cfg
  let msgLen := UInt16.ofNat (ntpacketHeaderLen + payloadLen)
  let writeAddr := cfg.slotAddr link.curIndex
  let copied :=
    if msgLen.toNat ≤ cfg.dataPacketSize then payloadLen
    else cfg.dataPacketSize - ntpacketHeaderLen
  if nextWriteIdx = link.localCumPtr then none
  else
    some {
      link := link.advance cfg
      writes := lengthLast writeAddr srcPort dstPort msgLen (outgoingMsg.payload.take copied)
      msg := { outgoingMsg with
        header := { outgoingMsg.header with
          msgType := outgoingMsg.header.msgType ||| t.bits } } }

def ntbPureDataMsgEnqueue (cfg : NtpConfig) (link : SendSide) (msg : List UInt8) (dataLen : ℕ) :
    Option (SendSide × List RemoteWrite) :=
  if link.nextIndex cfg = link.localCumPtr then none
  else some (link.advance cfg, [⟨cfg.slotAddr link.curIndex, msg.take dataLen⟩])

/-- The two routines that write a packet with its complete header. -/
inductive EnqueuePath
  | ntpacketEnqueue
  | ntbDataMsgEnqueue
  deriving DecidableEq, Repr

def EnqueuePath.enqueue : EnqueuePath → NtpConfig → SendSide → Ntpacket → Option Enqueued
  | .ntpacketEnqueue => NtSocks.ntpacketEnqueue
  | .ntbDataMsgEnqueue => NtSocks.ntbDataMsgEnqueue

structure PacketWritten (m m' : Memory) (ptr : ℕ) (header : NtpacketHeader)
    (payload : List UInt8) : Prop where
  header_eq : NtpacketHeader.read m' ptr = header
  payload_eq : m'.load (ptr + 8) payload.length = payload
  frame : ∀ x, x < ptr ∨ ptr + 8 + payload.length ≤ x → m' x = m x

theorem packetWritten_header_first (m : Memory) (ptr : ℕ) (header : NtpacketHeader)
    (payload : List UInt8) :
    PacketWritten m (applyWrites m [⟨ptr, header.bytes⟩, ⟨ptr + 8, payload⟩]) ptr header
      payload := by
  simp only [applyWrites_cons, applyWrites_nil]
  refine ⟨?_, Memory.load_store .., fun x hx => ?_⟩
  · rw [NtpacketHeader.read_store_of_disjoint _ _ _ _ (by omega), NtpacketHeader.read_store_bytes]
  · rw [Memory.store_apply_outside _ _ _ (by omega),
      Memory.store_apply_outside _ _ _ (by rw [NtpacketHeader.length_bytes]; omega)]

theorem packetWritten_payload_first (m : Memory) (ptr : ℕ) (header : NtpacketHeader)
    (payload : List UInt8) :
    PacketWritten m (applyWrites m [⟨ptr + 8, payload⟩, ⟨ptr, header.bytes⟩]) ptr header
      payload := by
  simp only [applyWrites_cons, applyWrites_nil]
  refine ⟨NtpacketHeader.read_store_bytes .., ?_, fun x hx => ?_⟩
  · rw [Memory.load_store_of_disjoint _ _ _ _ _ (by rw [NtpacketHeader.length_bytes]; omega),
      Memory.load_store]
  · rw [Memory.store_apply_outside _ _ _ (by rw [NtpacketHeader.length_bytes]; omega),
      Memory.store_apply_outside _ _ _ (by omega)]

theorem packetWritten_length_last (m : Memory) (ptr : ℕ) (srcPort dstPort msgLen : UInt16)
    (payload : List UInt8) :
    PacketWritten m (applyWrites m (lengthLast ptr srcPort dstPort msgLen payload)) ptr
      { srcPort := srcPort, dstPort := dstPort, msgLen := msgLen,
        msgType := (NtpacketHeader.read m ptr).msgType } payload where
  header_eq := by
    simp only [lengthLast, ntpacketHeaderLen, applyWrites_cons, applyWrites_nil,
      NtpacketHeader.read, NtpacketHeader.mk.injEq]
    refine ⟨?_, ?_, ?_, ?_⟩
    · rw [Memory.halfword_store_of_disjoint _ _ _ _ (by simp),
        Memory.halfword_store_of_disjoint _ _ _ _ (by omega),
        Memory.halfword_store_of_disjoint _ _ _ _ (by simp), Memory.halfword_store_leBytes]
    · rw [Memory.halfword_store_of_disjoint _ _ _ _ (by simp),
        Memory.halfword_store_of_disjoint _ _ _ _ (by omega), Memory.halfword_store_leBytes]
    · rw [Memory.halfword_store_leBytes]
    · rw [Memory.halfword_store_of_disjoint _ _ _ _ (by simp),
        Memory.halfword_store_of_disjoint _ _ _ _ (by omega),
        Memory.halfword_store_of_disjoint _ _ _ _ (by simp),
        Memory.halfword_store_of_disjoint _ _ _ _ (by simp)]
  payload_eq := by
    simp only [lengthLast, ntpacketHeaderLen, applyWrites_cons, applyWrites_nil]
    rw [Memory.load_store_of_disjoint _ _ _ _ _ (by simp), Memory.load_store]
  frame := by
    intro x hx
    simp only [lengthLast, ntpacketHeaderLen, applyWrites_cons, applyWrites_nil]
    rw [Memory.store_apply_outside _ _ _ (by simp; omega),
      Memory.store_apply_outside _ _ _ (by omega),
      Memory.store_apply_outside _ _ _ (by simp; omega),
      Memory.store_apply_outside _ _ _ (by simp; omega)]

theorem requestIndex_cases (h : NtpacketHeader) (request : Bool) :
    ∃ w, (w = h.msgType ∨ w = h.msgType ||| psh) ∧ h.requestIndex request = h.withType w := by
  cases request with
  | false => exact ⟨h.msgType, Or.inl rfl, rfl⟩
  | true => exact ⟨h.msgType ||| psh, Or.inr rfl, rfl⟩

theorem u64Sub_zero {n : ℕ} (h : n < 2 ^ 64) : u64Sub n 0 = n := by
  unfold u64Sub
  omega

theorem take_payload {msg : Ntpacket} (hlen : msg.header.msgLen.toNat = 8 + msg.payload.length) :
    msg.payload.take (msg.header.msgLen.toNat - 8) = msg.payload := by
  rw [hlen, Nat.add_sub_cancel_left, List.take_length]

theorem ntpacketEnqueue_quiet (cfg : NtpConfig) (link : SendSide) (msg : Ntpacket)
    (hshadow : link.localCumPtr = 0) (hpos : 0 < link.nextIndex cfg)
    (hlt : link.nextIndex cfg < 1024) (hfit : msg.header.msgLen.toNat ≤ cfg.dataPacketSize)
    (hlen : msg.header.msgLen.toNat = 8 + msg.payload.length) :
    ntpacketEnqueue cfg link msg = some {
      link := link.advance cfg
      writes := [⟨cfg.slotAddr link.curIndex, msg.header.bytes⟩,
        ⟨cfg.slotAddr link.curIndex + 8, msg.payload⟩]
      msg := msg } := by
  have hquiet : ((u64Sub (link.nextIndex cfg) 0 &&& 0x3ff) == 0) = false := by
    rw [u64Sub_zero (by omega), beq_eq_false_iff_ne]
    change link.nextIndex cfg &&& 2 ^ 10 - 1 ≠ 0
    rw [Nat.and_two_pow_sub_one_eq_mod]
    omega
  simp only [ntpacketEnqueue, hshadow, hquiet, if_neg hpos.ne', if_pos hfit, ntpacketHeaderLen,
    take_payload hlen]
  rfl

section Short

variable {cfg : NtpConfig} {link : SendSide} {msg : Ntpacket} {e : Enqueued}

theorem ntbDataMsgEnqueue2_enabled (msg : Ntpacket) (srcPort dstPort : UInt16) (payloadLen : ℕ)
    (t : NtpacketType) (hfree : link.nextIndex cfg ≠ link.localCumPtr) :
    ∃ e, ntbDataMsgEnqueue2 cfg link msg srcPort dstPort payloadLen t = some e ∧
      e.link = link.advance cfg ∧
      e.writes = lengthLast (cfg.slotAddr link.curIndex) srcPort dstPort
        (UInt16.ofNat (8 + payloadLen)) (msg.payload.take
          (if (UInt16.ofNat (8 + payloadLen)).toNat ≤ cfg.dataPacketSize then payloadLen
            else cfg.dataPacketSize - 8)) :=
  ⟨_, if_neg hfree, rfl, rfl⟩

theorem EnqueuePath.enqueue_enabled (path : EnqueuePath) (msg : Ntpacket)
    (hfree : link.nextIndex cfg ≠ link.localCumPtr) : ∃ e, path.enqueue cfg link msg = some e := by
  cases path with
  | ntpacketEnqueue =>
    simp only [enqueue, NtSocks.ntpacketEnqueue, if_neg hfree]
    split <;> exact ⟨_, rfl⟩
  | ntbDataMsgEnqueue =>
    simp only [enqueue, NtSocks.ntbDataMsgEnqueue, if_neg hfree]
    split <;> exact ⟨_, rfl⟩

variable (hfit : msg.header.msgLen.toNat ≤ cfg.dataPacketSize)
  (hlen : msg.header.msgLen.toNat = 8 + msg.payload.length)
include hfit hlen

theorem ntpacketEnqueue_short (h : ntpacketEnqueue cfg link msg = some e) :
    link.nextIndex cfg ≠ link.localCumPtr ∧ e.link = link.advance cfg ∧
      ∃ w, (w = msg.header.msgType ∨ w = msg.header.msgType ||| psh) ∧
        e.writes = [⟨cfg.slotAddr link.curIndex, (msg.header.withType w).bytes⟩,
          ⟨cfg.slotAddr link.curIndex + 8, msg.payload⟩] := by
  simp only [ntpacketEnqueue, ntpacketHeaderLen, if_pos hfit, Option.ite_none_left_eq_some,
    Option.some.injEq, take_payload hlen] at h
  obtain ⟨hfree, rfl⟩ := h
  obtain ⟨w, hw, hreq⟩ := requestIndex_cases msg.header
    ((u64Sub (link.nextIndex cfg) link.localCumPtr &&& 0x3ff) == 0)
  exact ⟨hfree, rfl, w, hw, by rw [hreq]⟩

theorem ntbDataMsgEnqueue_short (h : ntbDataMsgEnqueue cfg link msg = some e) :
    link.nextIndex cfg ≠ link.localCumPtr ∧ e.link = link.advance cfg ∧
      ∃ w, (w = msg.header.msgType ∨ w = msg.header.msgType ||| psh) ∧
        e.writes = [⟨cfg.slotAddr link.curIndex + 8, msg.payload⟩,
          ⟨cfg.slotAddr link.curIndex, (msg.header.withType w).bytes⟩] := by
  simp only [ntbDataMsgEnqueue, ntpacketHeaderLen, if_pos hfit, Option.ite_none_left_eq_some,
    Option.some.injEq, take_payload hlen] at h
  obtain ⟨hfree, rfl⟩ := h
  obtain ⟨w, hw, hreq⟩ := requestIndex_cases msg.header ((wrGap cfg link &&& 0x3ff) == 0)
  exact ⟨hfree, rfl, w, hw, by rw [hreq]⟩

theorem EnqueuePath.enqueue_short {path : EnqueuePath} (h : path.enqueue cfg link msg = some e) :
    link.nextIndex cfg ≠ link.localCumPtr ∧ e.link = link.advance cfg ∧
      ∃ w, (w = msg.header.msgType ∨ w = msg.header.msgType ||| psh) ∧
        ∀ m, PacketWritten m (applyWrites m e.writes) (cfg.slotAddr link.curIndex)
          (msg.header.withType w) msg.payload := by
  cases path with
  | ntpacketEnqueue =>
    obtain ⟨hfree, hlink, w, hw, hwrites⟩ := ntpacketEnqueue_short hfit hlen h
    exact ⟨hfree, hlink, w, hw, fun m => hwrites ▸ packetWritten_header_first m _ _ _⟩
  | ntbDataMsgEnqueue =>
    obtain ⟨hfree, hlink, w, hw, hwrites⟩ := ntbDataMsgEnqueue_short hfit hlen h
    exact ⟨hfree, hlink, w, hw, fun m => hwrites ▸ packetWritten_payload_first m _ _ _⟩

end Short

end NtSocks
