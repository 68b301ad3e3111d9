import NtSocks.Lib.RingLayout
import NtSocks.NtbEnqueue

/-!
# The slots of a data ring

A packet may be as long as the configured packet size, while the slots are one stride apart. The
configuration takes the stride as the largest power of two below the packet size, so a packet is
as long as a slot only when its size is a power of two; otherwise a full packet runs into the slot
behind its own, or over the end of the ring. Addresses are counted from the ring's `start_addr`.
-/

namespace NtSocks

namespace NtpConfig

variable {cfg : NtpConfig}

theorem Shaped.packet_eq_stride {k : ℕ} (h : cfg.Shaped) (hk : cfg.dataPacketSize = 2 ^ k) :
    cfg.dataPacketSize = cfg.stride := by
  have hlt := h.packet_lt_two_strides
  have hle := h.stride_le_packet (by rw [hk]; positivity)
  rw [hk, stride_eq] at hlt hle
  have hbits : cfg.ntbPacketbitsSize ≤ k := (Nat.pow_le_pow_iff_right (by omega)).mp hle
  have hk' : k < cfg.ntbPacketbitsSize + 1 := by
    apply (Nat.pow_lt_pow_iff_right (a := 2) (by omega)).mp
    rw [pow_succ]
    omega
  rw [hk, stride_eq, show k = cfg.ntbPacketbitsSize by omega]

theorem slots_le_ring (cfg : NtpConfig) {i : ℕ} (hi : i < cfg.capacity) :
    cfg.slotAddr i + cfg.stride ≤ cfg.dataRingbufferSize := by
  rw [slotAddr_eq]
  calc i * cfg.stride + cfg.stride = (i + 1) * cfg.stride := (Nat.succ_mul _ _).symm
    _ ≤ cfg.capacity * cfg.stride := Nat.mul_le_mul_right _ hi
    _ ≤ cfg.dataRingbufferSize := Nat.div_mul_le_self _ _

/-- From `m` to `m'` no byte of a slot other than `i` has changed, and none behind the ring. -/
structure Confined (cfg : NtpConfig) (i : ℕ) (m m' : Memory) : Prop where
  other_slots : ∀ j < cfg.capacity, j ≠ i → ∀ o < cfg.stride,
    m' (cfg.slotAddr j + o) = m (cfg.slotAddr j + o)
  outside : ∀ x, cfg.dataRingbufferSize ≤ x → m' x = m x

/-- Every packet that `data_packet_size` allows stays in the slot that it is written to. -/
def PacketsConfined (cfg : NtpConfig) : Prop :=
  ∀ (path : EnqueuePath) (link : SendSide) (msg : Ntpacket) (e : Enqueued) (m : Memory),
    link.curIndex < cfg.capacity → msg.header.msgLen.toNat = 8 + msg.payload.length →
    msg.header.msgLen.toNat ≤ cfg.dataPacketSize → path.enqueue cfg link msg = some e →
    cfg.Confined link.curIndex m (applyWrites m e.writes)

theorem confined_of_frame {i : ℕ} (len : ℕ) {m m' : Memory} (hlen : len ≤ cfg.stride)
    (hi : i < cfg.capacity)
    (hframe : ∀ x, x < cfg.slotAddr i ∨ cfg.slotAddr i + len ≤ x → m' x = m x) :
    cfg.Confined i m m' where
  other_slots := by
    intro j _ hji o ho
    have hfar := RingLayout.slot_separated cfg.stride hji
    rw [← slotAddr_eq, ← slotAddr_eq] at hfar
    exact hframe _ (by omega)
  outside := by
    intro x hx
    have hend := cfg.slots_le_ring hi
    exact hframe x (by omega)

theorem confined_single_slot (len : ℕ) {m m' : Memory} (hcap : cfg.capacity = 1)
    (hlen : len ≤ cfg.dataRingbufferSize)
    (hframe : ∀ x, x < cfg.slotAddr 0 ∨ cfg.slotAddr 0 + len ≤ x → m' x = m x) :
    cfg.Confined 0 m m' where
  other_slots := by omega
  outside := by
    intro x hx
    rw [slotAddr_eq] at hframe
    exact hframe x (by omega)

theorem packetsConfined_of_packet_le (h : cfg.dataPacketSize ≤ cfg.stride) :
    cfg.PacketsConfined := by
  intro path link msg e m hindex hlen hfit he
  obtain ⟨-, -, w, -, hwritten⟩ := EnqueuePath.enqueue_short hfit hlen he
  exact confined_of_frame (8 + msg.payload.length) (by omega) hindex
    (by simpa only [Nat.add_assoc] using (hwritten m).frame)

theorem packetsConfined_of_capacity_one (hcap : cfg.capacity = 1)
    (hfits : cfg.dataPacketSize ≤ cfg.dataRingbufferSize) : cfg.PacketsConfined := by
  intro path link msg e m hindex hlen hfit he
  obtain ⟨-, -, w, -, hwritten⟩ := EnqueuePath.enqueue_short hfit hlen he
  have h0 : link.curIndex = 0 := by omega
  rw [h0] at hwritten ⊢
  exact confined_single_slot (8 + msg.payload.length) hcap (by omega)
    (by simpa only [Nat.add_assoc] using (hwritten m).frame)

def fullPacket (cfg : NtpConfig) : Ntpacket where
  header := packNtpacketHeader 0 0 (cfg.dataPacketSize - 8) .singlePkg
  payload := List.replicate (cfg.dataPacketSize - 8) 1

theorem exists_full_packet (cfg : NtpConfig) (h8 : 8 < cfg.dataPacketSize) :
    ∃ (link : SendSide) (msg : Ntpacket) (e : Enqueued), link.curIndex = 0 ∧
      msg.header.msgLen.toNat = 8 + msg.payload.length ∧
      msg.header.msgLen.toNat ≤ cfg.dataPacketSize ∧
      EnqueuePath.ntpacketEnqueue.enqueue cfg link msg = some e ∧
      applyWrites (fun _ => 0) e.writes (cfg.dataPacketSize - 1) = 1 := by
  have hlt := cfg.dataPacketSize_lt
  have hlen : (fullPacket cfg).header.msgLen.toNat = cfg.dataPacketSize := by
    change (UInt16.ofNat (8 + (cfg.dataPacketSize - 8))).toNat = _
    rw [toNat_ofNat_header (by omega)]
    omega
  have hpay : (fullPacket cfg).payload.length = cfg.dataPacketSize - 8 :=
    List.length_replicate
  let link : SendSide := { curIndex := 0, localCumPtr := RingIndex.next cfg.capacity 0 + 1 }
  have hfree : link.nextIndex cfg ≠ link.localCumPtr := Nat.ne_of_lt (Nat.lt_succ_self _)
  obtain ⟨e, he⟩ := EnqueuePath.enqueue_enabled .ntpacketEnqueue (fullPacket cfg) hfree
  obtain ⟨-, -, w, -, hwritten⟩ := EnqueuePath.enqueue_short (by omega) (by omega) he
  refine ⟨link, fullPacket cfg, e, rfl, by omega, by omega, he, ?_⟩
  have hbyte := Memory.apply_of_load_eq _ _ (hwritten fun _ => 0).payload_eq
    (i := cfg.dataPacketSize - 9) (by omega)
  have hlast : cfg.slotAddr link.curIndex + 8 + (cfg.dataPacketSize - 9) =
      cfg.dataPacketSize - 1 := by
    rw [slotAddr_eq]
    simp only [link, Nat.zero_mul]
    omega
  rw [hlast] at hbyte
  rw [hbyte]
  exact List.getElem_replicate ..

theorem packet_le_stride_of_confined (h : cfg.PacketsConfined) (hshaped : cfg.Shaped)
    (h8 : 8 < cfg.dataPacketSize) (hcap : 1 < cfg.capacity) : cfg.dataPacketSize ≤ cfg.stride := by
  by_contra! hlong
  have htwo := hshaped.packet_lt_two_strides
  obtain ⟨link, msg, e, hindex, hlen, hfit, he, hbyte⟩ := cfg.exists_full_packet h8
  have hconf := h _ link msg e (fun _ => 0) (by omega) hlen hfit he
  have hsame := hconf.other_slots 1 hcap (by omega) (cfg.dataPacketSize - 1 - cfg.stride)
    (by omega)
  rw [slotAddr_eq, show 1 * cfg.stride + (cfg.dataPacketSize - 1 - cfg.stride) =
    cfg.dataPacketSize - 1 by omega, hbyte] at hsame
  exact absurd hsame (by decide)

theorem packet_le_ring_of_confined (h : cfg.PacketsConfined) (h8 : 8 < cfg.dataPacketSize)
    (hcap : 0 < cfg.capacity) : cfg.dataPacketSize ≤ cfg.dataRingbufferSize := by
  by_contra! hlong
  obtain ⟨link, msg, e, hindex, hlen, hfit, he, hbyte⟩ := cfg.exists_full_packet h8
  have hconf := h _ link msg e (fun _ => 0) (by omega) hlen hfit he
  have hsame := hconf.outside (cfg.dataPacketSize - 1) (by omega)
  rw [hbyte] at hsame
  exact absurd hsame (by decide)

end NtpConfig

/-- Whichever MTU or packet size is accepted: packets stay in their slots exactly for a power of
two, except for sizes below a header and for rings of at most one slot that a packet fits in. -/
theorem packets_confined_iff (cfg₀ cfg : NtpConfig) (n : ℤ) (setting : ConfigSetting)
    (hsetting : setting = .mtuSize n ∨ setting = .dataPacketSize n)
    (h : cfg₀.apply setting = some cfg) :
    cfg.PacketsConfined ↔
      (∃ k, cfg.dataPacketSize = 2 ^ k) ∨ cfg.dataPacketSize < 8 ∨ cfg.capacity = 0 ∨
        cfg.capacity = 1 ∧ cfg.dataPacketSize ≤ cfg.dataRingbufferSize := by
  have hshaped : cfg.Shaped := by
    rcases hsetting with rfl | rfl
    · simp only [NtpConfig.apply, Option.ite_none_right_eq_some, Option.some.injEq] at h
      obtain ⟨-, rfl⟩ := h
      exact NtpConfig.shaped_of_log2 rfl rfl
    · obtain rfl := Option.some.inj h
      exact NtpConfig.shaped_of_log2 rfl rfl
  constructor
  · intro hconf
    by_contra! hnot
    obtain ⟨hpow, h8, hcap, hone⟩ := hnot
    have hne8 : cfg.dataPacketSize ≠ 8 := hpow 3
    have hring := NtpConfig.packet_le_ring_of_confined hconf (by omega) (by omega)
    have hcap1 : cfg.capacity ≠ 1 := by
      intro h1
      exact absurd (hone h1) (by omega)
    have hle := NtpConfig.packet_le_stride_of_confined hconf hshaped (by omega) (by omega)
    have hge := hshaped.stride_le_packet (by omega)
    exact hpow cfg.ntbPacketbitsSize (by rw [← cfg.stride_eq]; omega)
  · rintro (⟨k, hk⟩ | h8 | hcap | ⟨hcap, hfits⟩)
    · exact NtpConfig.packetsConfined_of_packet_le (hshaped.packet_eq_stride hk).le
    · intro path link msg e m _ hlen hfit
      omega
    · intro path link msg e m hindex
      omega
    · exact NtpConfig.packetsConfined_of_capacity_one hcap hfits

theorem packets_confined_mtu_1024 :
    ∃ cfg, NtpConfig.defaults.apply (.mtuSize 1024) = some cfg ∧ cfg.PacketsConfined :=
  ⟨_, rfl, (packets_confined_iff .defaults _ 1024 _ (Or.inl rfl) rfl).mpr (Or.inl ⟨10, by decide⟩)⟩

/-- `--mtu-size=1500` sets slots 1024 bytes apart: a packet of 1500 bytes in the first slot
overwrites the second. -/
theorem mtu_1500_overwrites_next_slot :
    ∃ cfg, NtpConfig.defaults.apply (.mtuSize 1500) = some cfg ∧ cfg.stride = 1024 ∧
      ∃ (link : SendSide) (msg : Ntpacket) (e : Enqueued), link.curIndex = 0 ∧
        msg.header.msgLen.toNat = 8 + msg.payload.length ∧
        msg.header.msgLen.toNat ≤ cfg.dataPacketSize ∧
        EnqueuePath.ntpacketEnqueue.enqueue cfg link msg = some e ∧
        applyWrites (fun _ => 0) e.writes (cfg.slotAddr 1 + 475) = 1 := by
  refine ⟨_, rfl, by decide, ?_⟩
  exact NtpConfig.exists_full_packet _ (by decide)

end NtSocks
