import NtSocks.DataLink

/-!
# Contents of ring slots

`Holds` says that a slot contains a packet as a poll would read it. Writing a packet leaves the
packets of all slots alone except its own slot and the next one, into whose port fields it may
reach, and it never makes an empty slot look occupied. Freeing a slot touches no other slot.
-/

namespace NtSocks

namespace NtpConfig

variable (cfg : NtpConfig) {i j : ℕ}

theorem slotAddr_add_stride_le (h : i < j) : cfg.slotAddr i + cfg.stride ≤ cfg.slotAddr j := by
  rw [slotAddr_eq, slotAddr_eq, ← Nat.succ_mul]
  exact Nat.mul_le_mul_right _ h

theorem slotAddr_separated (h : i ≠ j) :
    cfg.slotAddr i + cfg.stride ≤ cfg.slotAddr j ∨
      cfg.slotAddr j + cfg.stride ≤ cfg.slotAddr i := by
  rcases Nat.lt_or_gt_of_ne h with hlt | hgt
  · exact Or.inl (cfg.slotAddr_add_stride_le hlt)
  · exact Or.inr (cfg.slotAddr_add_stride_le hgt)

end NtpConfig

/-- The slot `index` holds the packet `p`. The payload is only intact when packets do not reach
into the following slot. -/
structure Holds (cfg : NtpConfig) (m : Memory) (index : ℕ) (p : Packet) : Prop where
  header : ∃ w, (w = p.ntpacket.header.msgType ∨ w = p.ntpacket.header.msgType ||| psh) ∧
    NtpacketHeader.read m (cfg.slotAddr index) = (p.ntpacket.header.withType w)
  payload : cfg.dataPacketSize ≤ cfg.stride →
    m.load (cfg.slotAddr index + 8) p.payload.length = p.payload

namespace Holds

variable {cfg : NtpConfig} {m m' : Memory} {i j : ℕ} {p p' : Packet}

theorem type_eq (h : Holds cfg m i p) :
    dataLenGetType (NtpacketHeader.read m (cfg.slotAddr i)).msgType = p.type.code := by
  obtain ⟨w, hw, hread⟩ := h.header
  have hbits : p.ntpacket.header.msgType = p.type.bits := UInt16.zero_or
  rw [hread]
  rcases hw with rfl | rfl
  · rw [hbits]
    exact dataLenGetType_bits p.type
  · rw [hbits]
    exact dataLenGetType_bits_or_psh p.type

theorem msgLen_eq (h : Holds cfg m i p) :
    (NtpacketHeader.read m (cfg.slotAddr i)).msgLen = p.ntpacket.header.msgLen := by
  obtain ⟨w, -, hread⟩ := h.header
  rw [hread, NtpacketHeader.withType_msgLen]

theorem srcPort_eq (h : Holds cfg m i p) :
    (NtpacketHeader.read m (cfg.slotAddr i)).srcPort = p.srcPort := by
  obtain ⟨w, -, hread⟩ := h.header
  rw [hread]
  rfl

theorem dstPort_eq (h : Holds cfg m i p) :
    (NtpacketHeader.read m (cfg.slotAddr i)).dstPort = p.dstPort := by
  obtain ⟨w, -, hread⟩ := h.header
  rw [hread]
  rfl

theorem of_packetWritten {w : UInt16}
    (hw : w = p.ntpacket.header.msgType ∨ w = p.ntpacket.header.msgType ||| psh)
    (h : PacketWritten m m' (cfg.slotAddr i) (p.ntpacket.header.withType w) p.payload) :
    Holds cfg m' i p where
  header := ⟨w, hw, h.header_eq⟩
  payload := fun _ => h.payload_eq

/-- A slot keeps its packet when its header does, and with it the whole slot where packets do not
reach into the next one. -/
theorem congr (h : Holds cfg m i p) (hp : p.Fits cfg)
    (hheader : ∀ k < 8, m' (cfg.slotAddr i + k) = m (cfg.slotAddr i + k))
    (hslot : cfg.dataPacketSize ≤ cfg.stride →
      ∀ k < cfg.stride, m' (cfg.slotAddr i + k) = m (cfg.slotAddr i + k)) : Holds cfg m' i p where
  header := by
    obtain ⟨w, hw, hread⟩ := h.header
    exact ⟨w, hw, (NtpacketHeader.read_congr hheader).trans hread⟩
  payload := by
    intro hP
    have hlen := hp.len_le_packet
    refine (Memory.load_congr ?_).trans (h.payload hP)
    intro k hk
    rw [Nat.add_assoc]
    exact hslot hP _ (by omega)

theorem frame_write {hdr : NtpacketHeader} (h : Holds cfg m i p) (hp : p.Fits cfg)
    (hp' : p'.Fits cfg) (hij : i ≠ j) (hnext : i ≠ j + 1)
    (hw : PacketWritten m m' (cfg.slotAddr j) hdr p'.payload) : Holds cfg m' i p := by
  have hhdr := hp.header_le_slot
  have hlen := hp'.len_le_slot
  have hfar : cfg.slotAddr i + cfg.stride ≤ cfg.slotAddr j ∨
      cfg.slotAddr j + cfg.stride + cfg.stride ≤ cfg.slotAddr i := by
    rcases Nat.lt_or_gt_of_ne hij with hlt | hgt
    · exact Or.inl (cfg.slotAddr_add_stride_le hlt)
    · have h₁ := cfg.slotAddr_add_stride_le (by omega : j < j + 1)
      have h₂ := cfg.slotAddr_add_stride_le (by omega : j + 1 < i)
      exact Or.inr (by omega)
  refine h.congr hp ?_ ?_
  · intro k hk
    exact hw.frame _ (by omega)
  · intro hP k hk
    have := hp'.len_le_packet
    exact hw.frame _ (by omega)

theorem frame_freed (h : Holds cfg m i p) (hp : p.Fits cfg) (hij : i ≠ j)
    (hf : RecvState.Freed cfg m m' j) : Holds cfg m' i p := by
  have hhdr := hp.header_le_slot
  have hfar := cfg.slotAddr_separated hij
  refine h.congr hp ?_ ?_
  · intro k hk
    exact hf.frame _ (by omega)
  · intro _ k hk
    exact hf.frame _ (by omega)

end Holds

theorem msgLen_frame_write {cfg : NtpConfig} {m m' : Memory} {i j : ℕ} {p : Packet}
    {hdr : NtpacketHeader} (hp : p.Fits cfg) (hij : i ≠ j)
    (hw : PacketWritten m m' (cfg.slotAddr j) hdr p.payload) :
    (NtpacketHeader.read m' (cfg.slotAddr i)).msgLen =
      (NtpacketHeader.read m (cfg.slotAddr i)).msgLen := by
  have hhdr := hp.header_le_slot
  have hlen := hp.len_le_slot
  have hfar := cfg.slotAddr_separated hij
  exact Memory.halfword_congr (hw.frame _ (by omega)) (hw.frame _ (by omega))

theorem msgLen_frame_freed {cfg : NtpConfig} {m m' : Memory} {i j : ℕ} (hhdr : 8 ≤ cfg.stride)
    (hij : i ≠ j) (hf : RecvState.Freed cfg m m' j) :
    (NtpacketHeader.read m' (cfg.slotAddr i)).msgLen =
      (NtpacketHeader.read m (cfg.slotAddr i)).msgLen := by
  have hfar := cfg.slotAddr_separated hij
  exact Memory.halfword_congr (hf.frame _ (by omega)) (hf.frame _ (by omega))

end NtSocks
