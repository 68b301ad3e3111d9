import NtSocks.DataRingFifo

/-!
# The order of remote writes inside one packet

The two hosts share no lock: a packet becomes visible when its length field does. The receive loop
can poll between any two remote writes of an enqueue routine, so the payload has to be written
before the length. `ntb_data_msg_enqueue` and `ntb_data_msg_enqueue2` do that; `ntpacket_enqueue`
writes the header of a packet that fits its slot first, and a poll in between hands over whatever
the slot held before.
-/

namespace NtSocks

/-- The routines that write a packet together with its length. -/
inductive PublishPath
  | ntpacketEnqueue
  | ntbDataMsgEnqueue
  | ntbDataMsgEnqueue2
  deriving DecidableEq, Repr

def PublishPath.enqueue (path : PublishPath) (cfg : NtpConfig) (link : SendSide) (p : Packet) :
    Option Enqueued :=
  match path with
  | .ntpacketEnqueue => NtSocks.ntpacketEnqueue cfg link p.ntpacket
  | .ntbDataMsgEnqueue => NtSocks.ntbDataMsgEnqueue cfg link p.ntpacket
  | .ntbDataMsgEnqueue2 =>
    NtSocks.ntbDataMsgEnqueue2 cfg link p.ntpacket p.srcPort p.dstPort p.payload.length p.type

/-- A poll of the slot after any number of the writes `ws`: if it sees a `SINGLE_PKG` packet, the
message that it hands over has the payload that was sent. -/
def PayloadIntact (cfg : NtpConfig) (port2conn : Port2Conn) (m : Memory) (index : ℕ)
    (ws : List RemoteWrite) (payload : List UInt8) : Prop :=
  ∀ (k : ℕ) (r r' : RecvState), r.mem = applyWrites m (ws.take k) → r.curIndex = index →
    (r.header cfg).msgLen ≠ 0 →
    dataLenGetType (r.header cfg).msgType = NtpacketType.singlePkg.code →
    r.recvStep cfg port2conn = some r' →
    ∀ c msg, r'.handed = r.handed ++ [(c, msg)] → msg.payload = payload

namespace RecvState

variable {cfg : NtpConfig} {port2conn : Port2Conn} {r r' : RecvState} {c : ConnPtr} {msg : NtpMsg}

theorem payload_of_handed_single (hlen : (r.header cfg).msgLen ≠ 0)
    (htype : dataLenGetType (r.header cfg).msgType = NtpacketType.singlePkg.code)
    (hstep : r.recvStep cfg port2conn = some r') (hhanded : r'.handed = r.handed ++ [(c, msg)]) :
    msg.payload = r.mem.load (cfg.slotAddr r.curIndex + 8) ((r.header cfg).msgLen - 8).toNat := by
  cases hlive : (r.accept port2conn (r.header cfg)).liveConn with
  | none =>
    rw [recvStep_drop cfg port2conn hlen hlive, Option.some.injEq] at hstep
    subst hstep
    rw [dropPacket, accept_eq] at hhanded
    simp at hhanded
  | some c' =>
    obtain ⟨hconn, hready⟩ := liveConn_eq_some.mp hlive
    rw [accept_eq] at hconn hready
    obtain ⟨r'', hr'', hH⟩ := recvStep_handles hlen htype (by decide) hconn hready
    obtain rfl := Option.some.inj (hr''.symm.trans hstep)
    have heq := List.append_cancel_left (hH.handed.symm.trans hhanded)
    obtain ⟨-, rfl⟩ : c' = c ∧ _ = msg := by
      simpa [NtpacketType.message] using heq
    rfl

def polling (cfg : NtpConfig) (m : Memory) (index : ℕ) : RecvState where
  mem := m
  curIndex := index
  srcPort := (NtpacketHeader.read m (cfg.slotAddr index)).dstPort
  dstPort := (NtpacketHeader.read m (cfg.slotAddr index)).srcPort
  conn := some 0
  recvPacketCounter := 0
  conns := allReady
  handed := []
  remoteCumWrites := []
  ctrlMsgs := []
  epollEvents := []

theorem polling_handed_single (cfg : NtpConfig) (port2conn : Port2Conn) (m : Memory) (index : ℕ)
    (hlen : ((polling cfg m index).header cfg).msgLen ≠ 0)
    (htype : dataLenGetType ((polling cfg m index).header cfg).msgType =
      NtpacketType.singlePkg.code) :
    ∃ r' msg, (polling cfg m index).recvStep cfg port2conn = some r' ∧
      r'.handed = (polling cfg m index).handed ++ [(0, msg)] := by
  have hconn : (polling cfg m index).lookupConn port2conn ((polling cfg m index).header cfg) =
      some 0 := by
    rw [lookupConn, if_neg]
    · rfl
    · simp only [not_or, not_not]
      exact ⟨rfl, rfl⟩
  obtain ⟨r', hr', hH⟩ := recvStep_handles hlen htype (by decide) hconn rfl
  exact ⟨r', _, hr', hH.handed⟩

end RecvState

/-- Wherever the memory shows a `SINGLE_PKG` packet in the slot, its payload is there. -/
def PayloadPresent (cfg : NtpConfig) (m : Memory) (index : ℕ) (payload : List UInt8) : Prop :=
  (NtpacketHeader.read m (cfg.slotAddr index)).msgLen ≠ 0 →
    dataLenGetType (NtpacketHeader.read m (cfg.slotAddr index)).msgType =
      NtpacketType.singlePkg.code →
    m.load (cfg.slotAddr index + 8)
      ((NtpacketHeader.read m (cfg.slotAddr index)).msgLen - 8).toNat = payload

variable {cfg : NtpConfig} {port2conn : Port2Conn} {m : Memory} {index : ℕ}
  {ws : List RemoteWrite} {payload : List UInt8} {hdr : NtpacketHeader}

theorem payloadIntact_iff_present : PayloadIntact cfg port2conn m index ws payload ↔
    ∀ k, PayloadPresent cfg (applyWrites m (ws.take k)) index payload := by
  constructor
  · intro h k hlen htype
    let r := RecvState.polling cfg (applyWrites m (ws.take k)) index
    have hlen' : (r.header cfg).msgLen ≠ 0 := hlen
    have htype' : dataLenGetType (r.header cfg).msgType = NtpacketType.singlePkg.code := htype
    obtain ⟨r', msg, hr', hhanded⟩ :=
      RecvState.polling_handed_single cfg port2conn (applyWrites m (ws.take k)) index hlen htype
    rw [← h k r r' rfl rfl hlen' htype' hr' 0 msg hhanded]
    exact (RecvState.payload_of_handed_single hlen' htype' hr' hhanded).symm
  · intro h k r r' hmem hcur hlen htype hstep c msg hhanded
    rw [RecvState.payload_of_handed_single hlen htype hstep hhanded]
    unfold RecvState.header at hlen htype ⊢
    rw [hmem, hcur] at hlen htype ⊢
    exact h k hlen htype

theorem payloadPresent_of_empty (h : (NtpacketHeader.read m (cfg.slotAddr index)).msgLen = 0) :
    PayloadPresent cfg m index payload := fun hlen => absurd h hlen

theorem payloadPresent_of_written {m' : Memory} (hlen : (hdr.msgLen - 8).toNat = payload.length)
    (h : PacketWritten m m' (cfg.slotAddr index) hdr payload) :
    PayloadPresent cfg m' index payload := by
  intro _ _
  rw [h.header_eq, hlen]
  exact h.payload_eq

theorem msgLen_store_eq_zero (a : ℕ) (bs : List UInt8)
    (h : (NtpacketHeader.read m (cfg.slotAddr index)).msgLen = 0)
    (ha : a + bs.length ≤ cfg.slotAddr index + 4 ∨ cfg.slotAddr index + 6 ≤ a) :
    (NtpacketHeader.read (m.store a bs) (cfg.slotAddr index)).msgLen = 0 := by
  rw [← h]
  exact m.halfword_store_of_disjoint (cfg.slotAddr index + 4) a bs (by omega)

/-- With the header first, the payload area as it was before the packet decides. -/
theorem present_header_first_iff (hdr : NtpacketHeader)
    (hfree : (NtpacketHeader.read m (cfg.slotAddr index)).msgLen = 0) (hpos : hdr.msgLen ≠ 0)
    (hlen : (hdr.msgLen - 8).toNat = payload.length)
    (htype : dataLenGetType hdr.msgType = NtpacketType.singlePkg.code) :
    (∀ k, PayloadPresent cfg (applyWrites m ([⟨cfg.slotAddr index, hdr.bytes⟩,
        ⟨cfg.slotAddr index + 8, payload⟩].take k)) index payload) ↔
      m.load (cfg.slotAddr index + 8) payload.length = payload := by
  have hread : NtpacketHeader.read (m.store (cfg.slotAddr index) hdr.bytes)
      (cfg.slotAddr index) = hdr := NtpacketHeader.read_store_bytes hdr m _
  have hload : (m.store (cfg.slotAddr index) hdr.bytes).load (cfg.slotAddr index + 8)
      payload.length = m.load (cfg.slotAddr index + 8) payload.length :=
    m.load_store_of_disjoint _ _ _ _ (by simp)
  constructor
  · intro h
    have h₁ : PayloadPresent cfg (m.store (cfg.slotAddr index) hdr.bytes) index payload := h 1
    rw [PayloadPresent, hread, hlen, hload] at h₁
    exact h₁ hpos htype
  · intro h k
    match k with
    | 0 => exact payloadPresent_of_empty hfree
    | 1 =>
      intro _ _
      change (m.store (cfg.slotAddr index) hdr.bytes).load (cfg.slotAddr index + 8)
        ((NtpacketHeader.read (m.store (cfg.slotAddr index) hdr.bytes)
          (cfg.slotAddr index)).msgLen - 8).toNat = payload
      rw [hread, hlen, hload, h]
    | k + 2 =>
      rw [List.take_of_length_le (by simp)]
      exact payloadPresent_of_written hlen (packetWritten_header_first m _ hdr payload)

theorem present_payload_first (hfree : (NtpacketHeader.read m (cfg.slotAddr index)).msgLen = 0)
    (hlen : (hdr.msgLen - 8).toNat = payload.length) (k : ℕ) :
    PayloadPresent cfg (applyWrites m ([⟨cfg.slotAddr index + 8, payload⟩,
      ⟨cfg.slotAddr index, hdr.bytes⟩].take k)) index payload := by
  match k with
  | 0 => exact payloadPresent_of_empty hfree
  | 1 =>
    exact payloadPresent_of_empty
      (msgLen_store_eq_zero (cfg.slotAddr index + 8) payload hfree (by omega))
  | k + 2 =>
    rw [List.take_of_length_le (by simp)]
    exact payloadPresent_of_written hlen (packetWritten_payload_first m _ hdr payload)

theorem present_length_last {srcPort dstPort msgLen : UInt16}
    (hfree : (NtpacketHeader.read m (cfg.slotAddr index)).msgLen = 0)
    (hlen : (msgLen - 8).toNat = payload.length) (k : ℕ) :
    PayloadPresent cfg (applyWrites m ((lengthLast (cfg.slotAddr index) srcPort dstPort msgLen
      payload).take k)) index payload := by
  have h₁ := msgLen_store_eq_zero (cfg.slotAddr index) (leBytes srcPort) hfree
    (by rw [length_leBytes]; omega)
  have h₂ := msgLen_store_eq_zero (cfg.slotAddr index + 2) (leBytes dstPort) h₁
    (by rw [length_leBytes]; omega)
  have h₃ := msgLen_store_eq_zero (cfg.slotAddr index + 8) payload h₂ (by omega)
  match k with
  | 0 => exact payloadPresent_of_empty hfree
  | 1 => exact payloadPresent_of_empty h₁
  | 2 => exact payloadPresent_of_empty h₂
  | 3 => exact payloadPresent_of_empty h₃
  | k + 4 =>
    rw [List.take_of_length_le (by simp [lengthLast])]
    exact payloadPresent_of_written hlen (packetWritten_length_last m _ _ _ _ _)

/-- A `SINGLE_PKG` packet written to a free slot is handed over intact whenever the loop polls,
exactly when the routine is not `ntpacket_enqueue` or the slot already held the payload. -/
theorem payloadIntact_iff {path : PublishPath} (link : SendSide) (p : Packet) {e : Enqueued}
    (htype : p.type = .singlePkg) (hfit : 8 + p.payload.length ≤ cfg.dataPacketSize)
    (hfree : (NtpacketHeader.read m (cfg.slotAddr link.curIndex)).msgLen = 0)
    (he : path.enqueue cfg link p = some e) :
    PayloadIntact cfg port2conn m link.curIndex e.writes p.payload ↔ path ≠ .ntpacketEnqueue ∨
        m.load (cfg.slotAddr link.curIndex + 8) p.payload.length = p.payload := by
  have htoNat := Packet.msgLen_toNat hfit
  have hlen := Packet.msgLen_sub hfit
  rw [payloadIntact_iff_present]
  cases path with
  | ntpacketEnqueue =>
      obtain ⟨-, -, w, hw, hwrites⟩ := ntpacketEnqueue_short (htoNat ▸ hfit) htoNat he
      have hsingle : dataLenGetType w = NtpacketType.singlePkg.code := by
        have hbits : p.ntpacket.header.msgType = NtpacketType.singlePkg.bits := by
          rw [← htype]
          exact UInt16.zero_or
        rcases hw with rfl | rfl
        · rw [hbits, dataLenGetType_bits]
        · rw [hbits, dataLenGetType_bits_or_psh]
      rw [hwrites, Packet.ntpacket_payload, present_header_first_iff (p.ntpacket.header.withType w)
        hfree (Packet.msgLen_ne_zero hfit) hlen hsingle]
      simp
  | ntbDataMsgEnqueue =>
      obtain ⟨-, -, w, -, hwrites⟩ := ntbDataMsgEnqueue_short (htoNat ▸ hfit) htoNat he
      rw [hwrites]
      exact iff_of_true (present_payload_first hfree hlen) (Or.inl (by decide))
  | ntbDataMsgEnqueue2 =>
      have hcopied : (UInt16.ofNat (8 + p.payload.length)).toNat ≤ cfg.dataPacketSize :=
        le_of_eq_of_le htoNat hfit
      have hfreeSlot : link.nextIndex cfg ≠ link.localCumPtr := by
        intro hblocked
        simp [PublishPath.enqueue, ntbDataMsgEnqueue2, hblocked] at he
      obtain ⟨e', he', -, hwrites⟩ :=
        ntbDataMsgEnqueue2_enabled p.ntpacket p.srcPort p.dstPort p.payload.length p.type hfreeSlot
      obtain rfl := Option.some.inj (he'.symm.trans he)
      rw [hwrites, if_pos hcopied, Packet.ntpacket_payload, List.take_length]
      exact iff_of_true (present_length_last hfree hlen) (Or.inl (by decide))

theorem payloadIntact_iff_second_byte :
    PayloadIntact smallRing onePort (fun _ => 0) 0
        [⟨8, [7]⟩, ⟨0, (samplePacket [7]).ntpacket.header.bytes⟩] [7] := by
  have he : PublishPath.ntbDataMsgEnqueue.enqueue smallRing ⟨0, 0⟩ (samplePacket [7]) = some {
      link := ⟨1, 0⟩
      writes := [⟨8, [7]⟩, ⟨0, (samplePacket [7]).ntpacket.header.bytes⟩]
      msg := (samplePacket [7]).ntpacket } := by decide
  exact (payloadIntact_iff ⟨0, 0⟩ (samplePacket [7]) rfl (by decide) (by decide) he).mpr
    (Or.inl (by decide))

/-- `ntpacket_enqueue` of the one-byte message `[7]` to slot 0 of a zeroed ring, polled after its
first write: the loop hands the byte 0 over. -/
theorem ntpacketEnqueue_hands_stale_byte :
    ((ntpacketEnqueue smallRing ⟨0, 0⟩ (samplePacket [7]).ntpacket).bind fun e =>
      (((LinkState.init allReady none).recv.remoteWrite (e.writes.take 1)).recvStep smallRing
        onePort).map fun r => r.handed) =
      some [(0, { msgType := .ntpData, msgLen := 1, payload := [0] })] := by
  decide

end NtSocks
