import NtSocks.DataLink
import NtSocks.MultiSend

/-!
# Reassembling a multi-slot message

When the receive loop takes the first slot of a long message for what it is, it waits for the
closing packet, copies the payload out of the ring in one or two pieces and moves behind the
closing packet. Every other packet type moves the read index by one slot only.
-/

namespace NtSocks

namespace RecvState

variable {cfg : NtpConfig} {port2conn : Port2Conn} {s s' : RecvState} {c : ConnPtr}
  {hdr : NtpacketHeader} {shadow : ℕ} {payload : List UInt8}

theorem slotCount_eq (hpacket : cfg.dataPacketSize = cfg.stride) {n : ℕ} (hn : n ≤ 65527) :
    slotCount cfg (UInt16.ofNat (8 + n)) = dataSlots cfg n := by
  rw [slotCount, toNat_ofNat_header hn, Nat.shiftRight_eq_div_pow, ← NtpConfig.stride_eq, dataSlots,
    hpacket, Nat.add_comm 8 n]

theorem multiPayload_eq (hr : MultiRoom cfg s.curIndex shadow payload.length)
    (h : RingLayout.Laid s.mem cfg.stride cfg.capacity s.curIndex 8 payload) :
    multiPayload cfg s.mem s.curIndex (s.curIndex + dataSlots cfg payload.length) payload.length =
      payload := by
  have h8 := hr.header_lt
  have hbounds := hr.slots_bounds
  have hstart := hr.start_lt
  have hcap := hr.slots_lt
  unfold multiPayload
  rw [NtpConfig.slotAddr_eq]
  by_cases hone : s.curIndex + dataSlots cfg payload.length ≤ cfg.capacity
  · rw [if_pos hone]
    apply h.load_contiguous
    calc s.curIndex * cfg.stride + 8 + payload.length
        ≤ s.curIndex * cfg.stride + dataSlots cfg payload.length * cfg.stride := by omega
      _ = (s.curIndex + dataSlots cfg payload.length) * cfg.stride := (Nat.add_mul _ _ _).symm
      _ ≤ cfg.capacity * cfg.stride := Nat.mul_le_mul_right _ hone
  · rw [if_neg hone]
    have hsplit : cfg.capacity * cfg.stride =
        s.curIndex * cfg.stride + (cfg.capacity - s.curIndex) * cfg.stride := by
      rw [← Nat.add_mul, Nat.add_sub_of_le hstart.le]
    have hlast : (cfg.capacity - s.curIndex) * cfg.stride =
        (cfg.capacity - s.curIndex - 1) * cfg.stride + cfg.stride := by
      rw [← Nat.succ_mul, Nat.succ_eq_add_one, Nat.sub_add_cancel (by omega)]
    have hfirst : (cfg.capacity - s.curIndex + 1) * cfg.stride ≤
        dataSlots cfg payload.length * cfg.stride := Nat.mul_le_mul_right _ (by omega)
    rw [Nat.add_mul, Nat.one_mul] at hfirst
    have hwhole : dataSlots cfg payload.length * cfg.stride ≤ cfg.capacity * cfg.stride :=
      Nat.mul_le_mul_right _ (by omega)
    have hlen := hr.len_le
    have hk : uint16 (((cfg.capacity - s.curIndex - 1) <<< cfg.ntbPacketbitsSize +
        cfg.datapacketPayloadSize : ℕ) : ℤ) = (cfg.capacity - s.curIndex) * cfg.stride - 8 := by
      rw [Nat.shiftLeft_eq, ← NtpConfig.stride_eq, NtpConfig.datapacketPayloadSize_eq _
        (by rw [hr.packet_eq]; exact h8.le), hr.packet_eq, uint16_natCast (by omega)]
      omega
    rw [hk]
    exact h.load_wrapped (by omega) (by omega) (by omega)

theorem recvMulti_delivers (hr : MultiRoom cfg s.curIndex shadow payload.length)
    (h : LongMessage cfg s.mem s.curIndex hdr payload)
    (hlen : hdr.msgLen = UInt16.ofNat (8 + payload.length)) :
    ∃ s', s.recvMulti cfg c hdr = some s' ∧ s'.handed = s.handed ++
        [(c, { msgType := .ntpData, msgLen := hdr.msgLen - 8, payload := payload })] ∧
      s'.curIndex = (s.curIndex + dataSlots cfg payload.length + 1) % cfg.capacity := by
  have hstart := hr.start_lt
  have hcap := hr.slots_lt
  have hwrap : ∀ i, i < 2 * cfg.capacity →
      (if i < cfg.capacity then i else i - cfg.capacity) = i % cfg.capacity := by
    intro i hi
    split
    · rw [Nat.mod_eq_of_lt ‹_›]
    · rw [Nat.mod_eq_sub_mod (by omega), Nat.mod_eq_of_lt (by omega)]
  have hcount : slotCount cfg hdr.msgLen = dataSlots cfg payload.length := by
    rw [hlen, slotCount_eq hr.packet_eq hr.len_le]
  have hpayload := multiPayload_eq hr h.laid
  have hsub : (hdr.msgLen - 8).toNat = payload.length := by
    rw [hlen, toNat_ofNat_header_sub hr.len_le]
  rw [recvMulti]
  simp only [hcount, hwrap _ (by omega : s.curIndex + dataSlots cfg payload.length < _),
    hwrap _ (by omega : s.curIndex + dataSlots cfg payload.length + 1 < _), if_neg h.closed, hsub,
    hpayload]
  obtain ⟨events, hevents⟩ := pushEpollEvent_eq (c := c) _
  rw [hevents]
  exact ⟨_, rfl, rfl, rfl⟩

/-- What every packet type has in common: messages go to the packet's connection, and only a
multi-slot message moves the read index by more than one slot. -/
theorem recvByType_effect {type : UInt16} (h : s.recvByType cfg c hdr type = some s') :
    (type ≠ NtpacketType.multiPkg.code → s'.curIndex = s.nextIndex cfg) ∧
      ∃ msgs : List NtpMsg, s'.handed = s.handed ++ msgs.map (c, ·) := by
  unfold recvByType at h
  split at h
  · obtain rfl := Option.some.inj h
    rw [recvSingle]
    obtain ⟨events, hevents⟩ := pushEpollEvent_eq (c := c) _
    rw [hevents]
    exact ⟨fun _ => rfl, [_], rfl⟩
  split at h
  · rename_i hmulti
    refine ⟨fun hne => absurd hmulti hne, ?_⟩
    simp only [recvMulti, Option.ite_none_left_eq_some, Option.some.injEq] at h
    obtain ⟨-, rfl⟩ := h
    obtain ⟨events, hevents⟩ := pushEpollEvent_eq (c := c) _
    rw [hevents]
    exact ⟨[_], rfl⟩
  split at h
  · obtain rfl := Option.some.inj h
    exact ⟨fun _ => rfl, [], (List.append_nil _).symm⟩
  split at h
  · obtain rfl := Option.some.inj h
    rw [recvFin]
    obtain ⟨events, hevents⟩ := pushEpollEvent_eq (c := c) _
    rw [hevents]
    exact ⟨fun _ => rfl, [_], rfl⟩
  · obtain rfl := Option.some.inj h
    exact ⟨fun _ => rfl, [], (List.append_nil _).symm⟩

theorem recvStep_handed {msg : NtpMsg} (h : s.recvStep cfg port2conn = some s')
    (hhanded : s'.handed = s.handed ++ [(c, msg)]) :
    s.lookupConn port2conn (s.header cfg) = some c ∧
      (dataLenGetType (s.header cfg).msgType ≠ NtpacketType.multiPkg.code →
        s'.curIndex = s.nextIndex cfg) := by
  have hgrown : s'.handed ≠ s.handed := by
    rw [hhanded]
    simp
  by_cases hlen : (s.header cfg).msgLen = 0
  · rw [recvStep_empty cfg port2conn hlen, Option.some.injEq] at h
    exact absurd (h ▸ rfl) hgrown
  cases hlive : (s.accept port2conn (s.header cfg)).liveConn with
  | none =>
    rw [recvStep_drop cfg port2conn hlen hlive, accept_eq, Option.some.injEq] at h
    exact absurd (h ▸ rfl) hgrown
  | some c' =>
    rw [recvStep_live cfg port2conn hlen hlive, Option.map_eq_some_iff] at h
    obtain ⟨s₁, hbyType, rfl⟩ := h
    obtain ⟨hindex, msgs, hmsgs⟩ := recvByType_effect hbyType
    rw [publishAtInterval_eq] at hhanded ⊢
    rw [accept_eq] at hmsgs hindex
    have heq : msgs.map (c', ·) = [(c, msg)] := List.append_cancel_left (hmsgs.symm.trans hhanded)
    obtain ⟨x, -, hx⟩ := List.map_eq_singleton_iff.mp heq
    rw [liveConn_eq_some, accept_eq] at hlive
    rw [Prod.mk.injEq] at hx
    exact ⟨hx.1 ▸ hlive.1, hindex⟩

end RecvState

end NtSocks
