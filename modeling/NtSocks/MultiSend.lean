import NtSocks.Lib.RingLayout
import NtSocks.NtpSend

/-!
# Writing a multi-slot message

The slots of a long message are filled one after the other: the header slot, as many pure data
slots as the payload needs, and a closing packet. `Sending` describes the peer's memory in the
middle of this: the bytes sent so far stand behind the header, and the header is complete except
for its type word, which no routine writes.
-/

namespace NtSocks

def dataSlots (cfg : NtpConfig) (n : ℕ) : ℕ := (n + 8 + cfg.dataPacketSize - 1) / cfg.dataPacketSize

def messageSlots (cfg : NtpConfig) (n : ℕ) : ℕ :=
  if n ≤ cfg.datapacketPayloadSize then 1 else dataSlots cfg n + 1

def SendSide.freeSlots (cfg : NtpConfig) (link : SendSide) : ℕ :=
  (link.localCumPtr + cfg.capacity - link.curIndex - 1) % cfg.capacity

theorem dataSlots_bounds (cfg : NtpConfig) (hpos : 0 < cfg.dataPacketSize) (n : ℕ) :
    n + 8 ≤ dataSlots cfg n * cfg.dataPacketSize ∧
      dataSlots cfg n * cfg.dataPacketSize < n + 8 + cfg.dataPacketSize := by
  have hdiv := Nat.div_add_mod' (n + 8 + cfg.dataPacketSize - 1) cfg.dataPacketSize
  have hmod := Nat.mod_lt (n + 8 + cfg.dataPacketSize - 1) hpos
  unfold dataSlots
  omega

namespace SendSide

variable {cfg : NtpConfig} {link : SendSide} {j : ℕ}

theorem freeSlots_lt (hcap : 0 < cfg.capacity) : link.freeSlots cfg < cfg.capacity :=
  Nat.mod_lt _ hcap

theorem mod_ne_shadow (hcur : link.curIndex < cfg.capacity)
    (hshadow : link.localCumPtr < cfg.capacity) (hpos : 0 < j) (hj : j ≤ link.freeSlots cfg) :
    (link.curIndex + j) % cfg.capacity ≠ link.localCumPtr := by
  unfold freeSlots at hj
  by_cases hlt : link.curIndex < link.localCumPtr
  · have hfree : (link.localCumPtr + cfg.capacity - link.curIndex - 1) % cfg.capacity =
        link.localCumPtr - link.curIndex - 1 := by
      rw [Nat.mod_eq_sub_mod (by omega), Nat.mod_eq_of_lt (by omega)]
      omega
    rw [Nat.mod_eq_of_lt (by omega)]
    omega
  · rw [Nat.mod_eq_of_lt (by omega)] at hj
    by_cases hwrap : link.curIndex + j < cfg.capacity
    · rw [Nat.mod_eq_of_lt hwrap]
      omega
    · rw [Nat.mod_eq_sub_mod (by omega), Nat.mod_eq_of_lt (by omega)]
      omega

end SendSide

def multiHeader (m : Memory) (cfg : NtpConfig) (start : ℕ) (srcPort dstPort : UInt16) (n : ℕ) :
    NtpacketHeader where
  srcPort := srcPort
  dstPort := dstPort
  msgLen := UInt16.ofNat (8 + n)
  msgType := (NtpacketHeader.read m (cfg.slotAddr start)).msgType

structure Sending (cfg : NtpConfig) (m : Memory) (start shadow : ℕ) (hdr : NtpacketHeader)
    (v : ℕ) (bs : List UInt8) (f : SendFrame) : Prop where
  curIndex : f.link.curIndex = (start + v) % cfg.capacity
  localCumPtr : f.link.localCumPtr = shadow
  header : NtpacketHeader.read (applyWrites m f.writes) (cfg.slotAddr start) = hdr
  laid : RingLayout.Laid (applyWrites m f.writes) cfg.stride cfg.capacity start 8 bs

section

variable {cfg : NtpConfig} {m : Memory} {start shadow v : ℕ} {hdr : NtpacketHeader}
  {bs cs : List UInt8} {f : SendFrame} {payload : List UInt8}

theorem header_frame (hstart : start < cfg.capacity) (hstride : 8 ≤ cfg.stride) (hv : 0 < v)
    (hvcap : v < cfg.capacity) (hcs : cs.length ≤ cfg.stride) :
    NtpacketHeader.read (m.store (cfg.slotAddr ((start + v) % cfg.capacity)) cs)
      (cfg.slotAddr start) = NtpacketHeader.read m (cfg.slotAddr start) := by
  have hne : start ≠ (start + v) % cfg.capacity := by
    have h : start % cfg.capacity ≠ (start + v) % cfg.capacity :=
      RingIndex.mod_ne_of_window (by omega) (by omega)
    rwa [Nat.mod_eq_of_lt hstart] at h
  have hfar := RingLayout.slot_separated cfg.stride hne
  apply NtpacketHeader.read_store_of_disjoint
  rw [NtpConfig.slotAddr_eq, NtpConfig.slotAddr_eq]
  omega

theorem Sending.pure (h : Sending cfg m start shadow hdr v bs f) (hstart : start < cfg.capacity)
    (hstride : 8 ≤ cfg.stride) (hv : 0 < v) (hvcap : v < cfg.capacity)
    (hroom : (start + v + 1) % cfg.capacity ≠ shadow) (hend : 8 + bs.length = v * cfg.stride)
    (data : List UInt8) (len : ℕ) (hlen : len ≤ cfg.stride) :
    ∃ e, ntbPureDataMsgEnqueue cfg f.link data len = some e ∧
      Sending cfg m start shadow hdr (v + 1) (bs ++ data.take len) (f.issue e.1 e.2) := by
  have hnext : f.link.nextIndex cfg = (start + v + 1) % cfg.capacity := by
    rw [SendSide.nextIndex, h.curIndex, RingIndex.next_mod (by omega)]
  have htake : (data.take len).length ≤ cfg.stride :=
    (List.length_take_le len data).trans hlen
  have henabled : f.link.nextIndex cfg ≠ f.link.localCumPtr := by
    rw [hnext, h.localCumPtr]
    exact hroom
  refine ⟨_, if_neg henabled, ?_, h.localCumPtr, ?_, ?_⟩
  · exact hnext
  · rw [SendFrame.issue_writes, applyWrites_append, applyWrites_cons, applyWrites_nil, h.curIndex,
      header_frame hstart hstride hv hvcap htake]
    exact h.header
  · rw [SendFrame.issue_writes, applyWrites_append, applyWrites_cons, applyWrites_nil, h.curIndex,
      NtpConfig.slotAddr_eq]
    exact h.laid.extend htake hend hvcap

/-- The geometry of one long message: slots of a power of two, a start slot inside the ring, and
room for all slots of the message between the start slot and the shadow index. -/
structure MultiRoom (cfg : NtpConfig) (start shadow n : ℕ) : Prop where
  packet_eq : cfg.dataPacketSize = cfg.stride
  header_lt : 8 < cfg.stride
  start_lt : start < cfg.capacity
  slots_lt : dataSlots cfg n + 1 < cfg.capacity
  room : ∀ j, 0 < j → j ≤ dataSlots cfg n + 1 → (start + j) % cfg.capacity ≠ shadow
  long : cfg.stride < n + 8
  len_le : n ≤ 65527

namespace MultiRoom

variable {n : ℕ}

theorem slots_bounds (h : MultiRoom cfg start shadow n) :
    n + 8 ≤ dataSlots cfg n * cfg.stride ∧ dataSlots cfg n * cfg.stride < n + 8 + cfg.stride := by
  have hpos := h.header_lt
  have hbounds := dataSlots_bounds cfg (by rw [h.packet_eq]; omega) n
  rwa [h.packet_eq] at hbounds

theorem lt_dataSlots (h : MultiRoom cfg start shadow n) (hv : v * cfg.stride < n + 8) :
    v < dataSlots cfg n := by
  have hbounds := h.slots_bounds
  exact Nat.lt_of_mul_lt_mul_right (a := cfg.stride) (by omega)

theorem two_le_dataSlots (h : MultiRoom cfg start shadow n) : 2 ≤ dataSlots cfg n :=
  h.lt_dataSlots (v := 1) (by have := h.long; omega)

end MultiRoom

theorem sendPureData_sending (hr : MultiRoom cfg start shadow payload.length) (fuel : ℕ)
    (hv : 0 < v) (hlt : v * cfg.stride < payload.length + 8)
    (hfuel : payload.length + 8 ≤ v * cfg.stride + fuel)
    (h : Sending cfg m start shadow hdr v (payload.take (v * cfg.stride - 8)) f) :
    ∃ v' f', sendPureData cfg payload payload.length fuel (v * cfg.stride - 8) f =
        some (v' * cfg.stride - 8, f') ∧ 0 < v' ∧ v' * cfg.stride < payload.length + 8 ∧
      payload.length + 8 ≤ v' * cfg.stride + cfg.stride ∧
      Sending cfg m start shadow hdr v' (payload.take (v' * cfg.stride - 8)) f' := by
  have h8 := hr.header_lt
  induction fuel generalizing v f with
  | zero => omega
  | succ fuel ih =>
    have hmul : cfg.stride ≤ v * cfg.stride := Nat.le_mul_of_pos_left _ hv
    have hsucc : (v + 1) * cfg.stride = v * cfg.stride + cfg.stride := Nat.succ_mul _ _
    rw [sendPureData, hr.packet_eq]
    by_cases hmore : cfg.stride < payload.length - (v * cfg.stride - 8)
    · have hslot := hr.lt_dataSlots hlt
      have hcap := hr.slots_lt
      have hlenbs : (payload.take (v * cfg.stride - 8)).length = v * cfg.stride - 8 := by
        rw [List.length_take]
        omega
      obtain ⟨e, he, hnext⟩ := h.pure hr.start_lt h8.le hv (by omega)
        (hr.room (v + 1) (by omega) (by omega)) (by omega) (payload.drop (v * cfg.stride - 8))
        cfg.stride le_rfl
      have hsent : v * cfg.stride - 8 + cfg.stride = (v + 1) * cfg.stride - 8 := by omega
      have hwrap : uint16 ((v * cfg.stride - 8 : ℕ) + (cfg.stride : ℕ)) =
          (v + 1) * cfg.stride - 8 := by
        have hle := hr.len_le
        rw [← Nat.cast_add, hsent, uint16_natCast (by omega)]
      rw [← List.take_add, hsent] at hnext
      obtain ⟨v', f', hrun, hpos', hlt', hlast', hsend'⟩ :=
        ih (v := v + 1) (by omega) (by omega) (by omega) hnext
      refine ⟨v', f', ?_, hpos', hlt', hlast', hsend'⟩
      rw [if_pos hmore, he, Option.bind_some, hwrap, hrun]
    · exact ⟨v, f, if_neg hmore, hv, hlt, by omega, h⟩

theorem sending_first (srcPort dstPort : UInt16) (msg : Ntpacket)
    (hr : MultiRoom cfg start shadow payload.length) (hpayload : msg.payload = payload)
    (hcur : f.link.curIndex = start) (hshadow : f.link.localCumPtr = shadow) (hnil : f.writes = [])
    :
    ∃ e, ntbDataMsgEnqueue2 cfg f.link msg srcPort dstPort payload.length .multiPkg = some e ∧
      Sending cfg m start shadow (multiHeader m cfg start srcPort dstPort payload.length) 1
        (payload.take (1 * cfg.stride - 8)) (f.issue e.link e.writes) := by
  have h8 := hr.header_lt
  have hlong := hr.long
  have hnext : f.link.nextIndex cfg = (start + 1) % cfg.capacity := by
    rw [SendSide.nextIndex, hcur, RingIndex.next_of_lt hr.start_lt]
  have henabled : f.link.nextIndex cfg ≠ f.link.localCumPtr := by
    rw [hnext, hshadow]
    exact hr.room 1 (by omega) (by omega)
  have hcopied : ¬ (UInt16.ofNat (8 + payload.length)).toNat ≤ cfg.dataPacketSize := by
    rw [toNat_ofNat_header hr.len_le, hr.packet_eq]
    omega
  obtain ⟨e, he, hlink, hwrites⟩ :=
    ntbDataMsgEnqueue2_enabled msg srcPort dstPort payload.length .multiPkg henabled
  rw [hcur, if_neg hcopied, hpayload, hr.packet_eq] at hwrites
  have hwritten := packetWritten_length_last m (cfg.slotAddr start) srcPort dstPort
    (UInt16.ofNat (8 + payload.length)) (payload.take (cfg.stride - 8))
  refine ⟨e, he, ?_, ?_, ?_, ?_⟩
  · rw [SendFrame.issue_link, hlink, SendSide.advance_curIndex, hnext]
  · rw [SendFrame.issue_link, hlink, SendSide.advance_localCumPtr, hshadow]
  · rw [SendFrame.issue_writes, hnil, List.nil_append, hwrites]
    exact hwritten.header_eq
  · rw [SendFrame.issue_writes, hnil, List.nil_append, hwrites, Nat.one_mul]
    intro i hi
    have hlt : 8 + i < cfg.stride := by
      rw [List.length_take] at hi
      omega
    rw [RingLayout.addr_first hr.start_lt hlt, ← NtpConfig.slotAddr_eq, ← Nat.add_assoc]
    exact Memory.apply_of_load_eq _ _ hwritten.payload_eq hi

structure LongMessage (cfg : NtpConfig) (m : Memory) (start : ℕ) (hdr : NtpacketHeader)
    (payload : List UInt8) : Prop where
  header : NtpacketHeader.read m (cfg.slotAddr start) = hdr
  laid : RingLayout.Laid m cfg.stride cfg.capacity start 8 payload
  closed : (NtpacketHeader.read m
    (cfg.slotAddr ((start + dataSlots cfg payload.length) % cfg.capacity))).msgLen ≠ 0

theorem Sending.close (h : Sending cfg m start shadow hdr (dataSlots cfg payload.length) payload f)
    (hr : MultiRoom cfg start shadow payload.length) (srcPort dstPort : UInt16) :
    ∃ f', sendEnfMulti cfg srcPort dstPort f = some f' ∧
      f'.link.curIndex = (start + dataSlots cfg payload.length + 1) % cfg.capacity ∧
      LongMessage cfg (applyWrites m f'.writes) start hdr payload := by
  have h8 := hr.header_lt
  have hcap := hr.slots_lt
  have hslots := hr.two_le_dataSlots
  have hnext : f.link.nextIndex cfg =
      (start + dataSlots cfg payload.length + 1) % cfg.capacity := by
    rw [SendSide.nextIndex, h.curIndex, RingIndex.next_mod (by omega)]
  have hfree : f.link.nextIndex cfg ≠ f.link.localCumPtr := by
    rw [hnext, h.localCumPtr]
    exact hr.room _ (by omega) le_rfl
  have hlen : (UInt16.ofNat (8 + 0)).toNat = 8 := rfl
  have hend : 8 + payload.length ≤ dataSlots cfg payload.length * cfg.stride := by
    have := hr.slots_bounds
    omega
  let closing : Ntpacket :=
    { header := ntbDataMsgAddHeader f.dataPacket srcPort dstPort 0 .enfMulti, payload := [] }
  obtain ⟨e, he⟩ := EnqueuePath.ntbDataMsgEnqueue.enqueue_enabled closing hfree
  obtain ⟨-, hlink, w, -, hwrites⟩ := ntbDataMsgEnqueue_short
    (by rw [hr.packet_eq]; exact hlen.le.trans h8.le) hlen he
  rw [h.curIndex] at hwrites
  have hmem : applyWrites m (f.writes ++ e.writes) = (applyWrites m f.writes).store
      (cfg.slotAddr ((start + dataSlots cfg payload.length) % cfg.capacity))
      (closing.header.withType w).bytes := by
    rw [applyWrites_append, hwrites, applyWrites_cons, applyWrites_cons, applyWrites_nil,
      Memory.store_nil]
  have hsend : sendEnfMulti cfg srcPort dstPort f = some (f.issueDataPacket e) := by
    change (ntbDataMsgEnqueue cfg f.link closing).map f.issueDataPacket = _
    rw [show ntbDataMsgEnqueue cfg f.link closing = some e from he, Option.map_some]
  refine ⟨f.issueDataPacket e, hsend, ?_, ?_, ?_, ?_⟩
  · change e.link.curIndex = _
    rw [hlink, SendSide.advance_curIndex, hnext]
  · change NtpacketHeader.read (applyWrites m (f.writes ++ e.writes)) _ = _
    rw [hmem, header_frame hr.start_lt h8.le (by omega) (by omega) (by simpa using h8.le)]
    exact h.header
  · change RingLayout.Laid (applyWrites m (f.writes ++ e.writes)) _ _ _ _ _
    rw [hmem, NtpConfig.slotAddr_eq]
    exact h.laid.frame (by simpa using h8.le) hend (by omega)
  · change (NtpacketHeader.read (applyWrites m (f.writes ++ e.writes)) _).msgLen ≠ 0
    rw [hmem, NtpacketHeader.read_store_bytes]
    change UInt16.ofNat (8 + 0) ≠ 0
    decide

/-- A long message arrives whole in the peer's ring, with the type word that its first slot held
before. -/
theorem sendMulti_sent (srcPort dstPort : UInt16) {msg : NtpMsg} (f : SendFrame)
    (hlen : msg.msgLen.toNat = msg.payload.length)
    (hr : MultiRoom cfg start shadow msg.payload.length) (hcur : f.link.curIndex = start)
    (hshadow : f.link.localCumPtr = shadow) (hnil : f.writes = []) :
    ∃ f', sendMulti cfg srcPort dstPort msg f = some f' ∧
      f'.link.curIndex = (start + dataSlots cfg msg.payload.length + 1) % cfg.capacity ∧
      LongMessage cfg (applyWrites m f'.writes) start
        (multiHeader m cfg start srcPort dstPort msg.payload.length) msg.payload := by
  have h8 := hr.header_lt
  have hlong := hr.long
  have hcap := hr.slots_lt
  have hpayload : cfg.datapacketPayloadSize = 1 * cfg.stride - 8 := by
    rw [NtpConfig.datapacketPayloadSize_eq _ (by rw [hr.packet_eq]; omega), hr.packet_eq,
      Nat.one_mul]
  obtain ⟨e, he, hfirst⟩ := sending_first (m := m) srcPort dstPort
    { header := { srcPort := 0, dstPort := 0, msgLen := msg.msgLen, msgType := 1 }
      payload := msg.payload } hr rfl hcur hshadow hnil
  obtain ⟨v, f₁, hloop, hv, hlt, hlast, hsending⟩ :=
    sendPureData_sending hr (msg.payload.length + 1) Nat.one_pos (by omega) (by omega) hfirst
  have hslots : v + 1 = dataSlots cfg msg.payload.length := by
    have hbounds := hr.slots_bounds
    have hsucc : (v + 1) * cfg.stride = v * cfg.stride + cfg.stride := Nat.succ_mul _ _
    have hle : dataSlots cfg msg.payload.length < v + 1 + 1 :=
      Nat.lt_of_mul_lt_mul_right (a := cfg.stride) (by rw [Nat.succ_mul, hsucc]; omega)
    have hge := hr.lt_dataSlots hlt
    omega
  have hstride : cfg.stride ≤ v * cfg.stride := Nat.le_mul_of_pos_left _ hv
  obtain ⟨e₂, he₂, hfull⟩ := hsending.pure hr.start_lt h8.le hv (by omega)
    (hr.room (v + 1) (by omega) (by omega)) (by rw [List.length_take]; omega)
    (msg.payload.drop (v * cfg.stride - 8))
    (msg.payload.length - (v * cfg.stride - 8)) (by omega)
  rw [← List.take_add, Nat.add_sub_of_le (by omega), List.take_length, hslots] at hfull
  obtain ⟨f', hclose, hcur', hmessage⟩ := hfull.close hr srcPort dstPort
  refine ⟨f', ?_, hcur', hmessage⟩
  rw [sendMulti, hlen, hpayload]
  simp only [he, Option.bind_some, hloop, he₂, hclose]

end

end NtSocks
