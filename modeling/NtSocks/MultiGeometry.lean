import NtSocks.MessageRoundTrip

/-!
# Where a multi-slot message lies

The sender finds the slots of a long message by writing one after the other, the receiver computes
their number from the length field. Both numbers agree, so that the closing packet is where the
receiver waits for it. The receiver then clears the length field of these slots and of no other.
-/

namespace NtSocks

section Clear

variable {cfg : NtpConfig}

theorem halfword_clearMsgLen (hstride : 6 ≤ cfg.stride) {m : Memory} {i j : ℕ}
    (h : i = j ∨ m.halfword (cfg.slotAddr j + 4) = 0) :
    (RecvState.clearMsgLen cfg m i).halfword (cfg.slotAddr j + 4) = 0 := by
  rw [RecvState.clearMsgLen]
  by_cases hij : i = j
  · rw [hij, Memory.halfword_store_leBytes]
  · have hfar := RingLayout.slot_separated cfg.stride hij
    rw [Memory.halfword_store_of_disjoint]
    · exact h.resolve_left hij
    · rw [NtpConfig.slotAddr_eq, NtpConfig.slotAddr_eq, length_leBytes]
      omega

theorem clearFrom_outside (hcap : 0 < cfg.capacity) (count : ℕ) (m : Memory) (start x : ℕ)
    (hx : ∀ j < count, x < cfg.slotAddr ((start + j) % cfg.capacity) + 4 ∨
      cfg.slotAddr ((start + j) % cfg.capacity) + 6 ≤ x) :
    RecvState.clearFrom cfg count m (start % cfg.capacity) x = m x := by
  induction count generalizing m start with
  | zero => rfl
  | succ count ih =>
    rw [RecvState.clearFrom, RingIndex.next_mod hcap, ih]
    · rw [RecvState.clearMsgLen, Memory.store_apply_outside]
      rw [length_leBytes]
      exact hx 0 (Nat.succ_pos count)
    · intro j hj
      rw [Nat.add_assoc, Nat.add_comm 1 j]
      exact hx (j + 1) (Nat.succ_lt_succ hj)

theorem clearFrom_cleared (hcap : 0 < cfg.capacity) (hstride : 6 ≤ cfg.stride) (count : ℕ)
    (m : Memory) (start i : ℕ)
    (hi : (∃ j < count, i = (start + j) % cfg.capacity) ∨ m.halfword (cfg.slotAddr i + 4) = 0) :
    (RecvState.clearFrom cfg count m (start % cfg.capacity)).halfword (cfg.slotAddr i + 4) = 0 := by
  induction count generalizing m start with
  | zero =>
    rcases hi with ⟨j, hj, -⟩ | hi
    · exact absurd hj (Nat.not_lt_zero j)
    · exact hi
  | succ count ih =>
    rw [RecvState.clearFrom, RingIndex.next_mod hcap]
    refine ih _ _ ?_
    rcases hi with ⟨j, hj, rfl⟩ | hi
    · cases j with
      | zero => exact Or.inr (halfword_clearMsgLen hstride (Or.inl rfl))
      | succ j => exact Or.inl ⟨j, by omega, by rw [Nat.add_right_comm, Nat.add_assoc]⟩
    · exact Or.inr (halfword_clearMsgLen hstride (Or.inr hi))

end Clear

structure Advanced (cfg : NtpConfig) (start shadow v : ℕ) (link : SendSide) : Prop where
  curIndex : link.curIndex = (start + v) % cfg.capacity
  localCumPtr : link.localCumPtr = shadow
  free : ∀ j, 0 < j → j ≤ v → (start + j) % cfg.capacity ≠ shadow

namespace Advanced

variable {cfg : NtpConfig} {start shadow v : ℕ} {link : SendSide}

theorem advance (h : Advanced cfg start shadow v link) (hcap : 0 < cfg.capacity)
    (hfree : link.nextIndex cfg ≠ link.localCumPtr) :
    Advanced cfg start shadow (v + 1) (link.advance cfg) := by
  have hnext : link.nextIndex cfg = (start + (v + 1)) % cfg.capacity := by
    rw [SendSide.nextIndex, h.curIndex, RingIndex.next_mod hcap, Nat.add_assoc]
  refine ⟨hnext, h.localCumPtr, fun j hpos hj => ?_⟩
  rcases hj.lt_or_eq with hlt | rfl
  · exact h.free j hpos (by omega)
  · rw [← hnext, ← h.localCumPtr]
    exact hfree

theorem lt_capacity (h : Advanced cfg start shadow v link) (hstart : start < cfg.capacity)
    (hshadow : shadow < cfg.capacity) : v < cfg.capacity := by
  by_contra hge
  by_cases hlt : start < shadow
  · refine h.free (shadow - start) (by omega) (by omega) ?_
    rw [Nat.add_sub_of_le hlt.le, Nat.mod_eq_of_lt hshadow]
  · refine h.free (shadow + cfg.capacity - start) (by omega) (by omega) ?_
    rw [Nat.add_sub_of_le (by omega), Nat.add_mod_right, Nat.mod_eq_of_lt hshadow]

end Advanced

section Send

variable {cfg : NtpConfig} {start shadow v : ℕ} {f f' : SendFrame} {srcPort dstPort : UInt16}

theorem pure_advanced {link : SendSide} {data : List UInt8} {len : ℕ}
    {e : SendSide × List RemoteWrite} (hcap : 0 < cfg.capacity)
    (h : Advanced cfg start shadow v link) (he : ntbPureDataMsgEnqueue cfg link data len = some e) :
    Advanced cfg start shadow (v + 1) e.1 := by
  rw [ntbPureDataMsgEnqueue, Option.ite_none_left_eq_some] at he
  obtain ⟨hfree, he⟩ := he
  obtain rfl := Option.some.inj he
  exact h.advance hcap hfree

theorem sendPureData_advanced {payload : List UInt8} {n fuel sent : ℕ} (hcap : 0 < cfg.capacity)
    (hpacket : cfg.dataPacketSize = cfg.stride) (h8 : 8 < cfg.stride) (hmax : n ≤ 65527)
    (hv : 0 < v) (hlt : v * cfg.stride < n + 8) (h : Advanced cfg start shadow v f.link)
    (hrun : sendPureData cfg payload n fuel (v * cfg.stride - 8) f = some (sent, f')) :
    ∃ v', 0 < v' ∧ v' * cfg.stride < n + 8 ∧ n + 8 ≤ v' * cfg.stride + cfg.stride ∧
      Advanced cfg start shadow v' f'.link ∧ f'.dataPacket = f.dataPacket := by
  induction fuel generalizing v f with
  | zero => cases hrun
  | succ fuel ih =>
    have hmul : cfg.stride ≤ v * cfg.stride := Nat.le_mul_of_pos_left _ hv
    have hsucc : (v + 1) * cfg.stride = v * cfg.stride + cfg.stride := Nat.succ_mul _ _
    rw [sendPureData, hpacket] at hrun
    split_ifs at hrun with hmore
    · obtain ⟨e, he, hrest⟩ := Option.bind_eq_some_iff.mp hrun
      have hwrap : uint16 ((v * cfg.stride - 8 : ℕ) + (cfg.stride : ℕ)) =
          (v + 1) * cfg.stride - 8 := by
        rw [← Nat.cast_add, uint16_natCast (by omega)]
        omega
      rw [hwrap] at hrest
      obtain ⟨v', hpos, hlt', hle', hadv, hpkt⟩ :=
        ih (v := v + 1) (by omega) (by omega) (pure_advanced hcap h he) hrest
      exact ⟨v', hpos, hlt', hle', hadv, hpkt⟩
    · cases hrun
      exact ⟨v, hv, hlt, by omega, h, rfl⟩

theorem sendMulti_advanced {msg : NtpMsg} (hcap : 0 < cfg.capacity)
    (hpacket : cfg.dataPacketSize = cfg.stride) (h8 : 8 < cfg.stride)
    (hlong : cfg.stride < msg.msgLen.toNat + 8) (hmax : msg.msgLen.toNat ≤ 65527)
    (h : Advanced cfg start shadow 0 f.link)
    (hsent : sendMulti cfg srcPort dstPort msg f = some f') :
    ∃ (f₁ : SendFrame) (e : Enqueued),
      Advanced cfg start shadow (dataSlots cfg msg.msgLen.toNat) f₁.link ∧
      ntbDataMsgEnqueue cfg f₁.link
        { header := ntbDataMsgAddHeader f.dataPacket srcPort dstPort 0 .enfMulti
          payload := [] } = some e ∧
      f' = f₁.issueDataPacket e := by
  have hfirst : cfg.datapacketPayloadSize = 1 * cfg.stride - 8 := by
    rw [NtpConfig.datapacketPayloadSize_eq _ (by omega), hpacket, Nat.one_mul]
  rw [sendMulti, hfirst] at hsent
  obtain ⟨e₁, he₁, hsent⟩ := Option.bind_eq_some_iff.mp hsent
  obtain ⟨⟨sent, f₁⟩, hloop, hsent⟩ := Option.bind_eq_some_iff.mp hsent
  obtain ⟨e₂, he₂, hsent⟩ := Option.bind_eq_some_iff.mp hsent
  obtain ⟨e₃, he₃, rfl⟩ := Option.map_eq_some_iff.mp hsent
  have hadv₁ : Advanced cfg start shadow 1 e₁.link := by
    rw [ntbDataMsgEnqueue2, Option.ite_none_left_eq_some] at he₁
    obtain ⟨hfree, he₁⟩ := he₁
    obtain rfl := Option.some.inj he₁
    exact h.advance hcap hfree
  obtain ⟨v, hv, hlt, hle, hadv, hpkt⟩ := sendPureData_advanced hcap hpacket h8 hmax Nat.one_pos
    (by omega) hadv₁ hloop
  have hslots : v + 1 = dataSlots cfg msg.msgLen.toNat := by
    have hbounds := dataSlots_bounds cfg (by omega) msg.msgLen.toNat
    rw [hpacket] at hbounds
    have hsucc : (v + 1) * cfg.stride = v * cfg.stride + cfg.stride := Nat.succ_mul _ _
    have hlower : v < dataSlots cfg msg.msgLen.toNat :=
      Nat.lt_of_mul_lt_mul_right (a := cfg.stride) (by omega)
    have hupper : dataSlots cfg msg.msgLen.toNat < v + 1 + 1 :=
      Nat.lt_of_mul_lt_mul_right (a := cfg.stride) (by rw [Nat.succ_mul, hsucc]; omega)
    omega
  refine ⟨f₁.issue e₂.1 e₂.2, e₃, ?_, ?_, rfl⟩
  · rw [← hslots]
    exact pure_advanced hcap hadv he₂
  · have hpacket' : f.dataPacket = (f₁.issue e₂.1 e₂.2).dataPacket := hpkt.symm
    rw [hpacket']
    exact he₃

end Send

/-- What the `MULTI_PKG` branch does with the message in the slots from the read index on: `count`
is the number of data slots, and `closing` the packet behind them. -/
structure Reassembled (cfg : NtpConfig) (s s' : RecvState) (c : ConnPtr) (msg : NtpMsg)
    (count : ℕ) (closing : NtpacketHeader) : Prop where
  closing_eq : NtpacketHeader.read s.mem
    (cfg.slotAddr ((s.curIndex + count) % cfg.capacity)) = closing
  handed : s'.handed = s.handed ++
    [(c, { msgType := .ntpData, msgLen := msg.msgLen, payload := msg.payload })]
  curIndex : s'.curIndex = (s.curIndex + count + 1) % cfg.capacity
  cleared : ∀ j ≤ count, (NtpacketHeader.read s'.mem
    (cfg.slotAddr ((s.curIndex + j) % cfg.capacity))).msgLen = 0
  frame : ∀ x, (∀ j ≤ count, x ≠ cfg.slotAddr ((s.curIndex + j) % cfg.capacity) + 4 ∧
    x ≠ cfg.slotAddr ((s.curIndex + j) % cfg.capacity) + 5) → s'.mem x = s.mem x

section Receive

variable {cfg : NtpConfig} {s s' : RecvState} {c : ConnPtr} {hdr : NtpacketHeader} {shadow : ℕ}
  {payload : List UInt8}

theorem recvMulti_mem (h : s.recvMulti cfg c hdr = some s') :
    s'.mem = RecvState.clearFrom cfg (RecvState.slotCount cfg hdr.msgLen + 1) s.mem s.curIndex := by
  simp only [RecvState.recvMulti, Option.ite_none_left_eq_some, Option.some.injEq] at h
  obtain ⟨-, rfl⟩ := h
  obtain ⟨events, hevents⟩ := RecvState.pushEpollEvent_eq (c := c) _
  rw [hevents]
  change RecvState.clearFrom cfg (s.curIndex + RecvState.slotCount cfg hdr.msgLen - s.curIndex + 1)
    s.mem s.curIndex = _
  rw [Nat.add_sub_cancel_left]

end Receive

/-- The slots of a long message that was sent are those that the receiver takes. -/
theorem multi_message_reassembled (cfg : NtpConfig) (k : ℕ) (hsize : cfg.dataPacketSize = 2 ^ k)
    (hbits : cfg.ntbPacketbitsSize = k) (h8 : 8 < cfg.dataPacketSize) (srcPort dstPort : UInt16)
    (msg : NtpMsg) (hlen : msg.msgLen.toNat = msg.payload.length)
    (hlong : cfg.dataPacketSize - 8 < msg.payload.length) (hmax : msg.payload.length ≤ 65527)
    (f f' : SendFrame) (hcur : f.link.curIndex < cfg.capacity)
    (hshadow : f.link.localCumPtr < cfg.capacity) (hnil : f.writes = [])
    (hsent : sendMulti cfg srcPort dstPort msg f = some f') (m : Memory) (s : RecvState)
    (hmem : s.mem = applyWrites m f'.writes) (hindex : s.curIndex = f.link.curIndex) (c : ConnPtr) :
    ∃ s' w, s.recvByType cfg c (s.header cfg) NtpacketType.multiPkg.code = some s' ∧
      (w = f.dataPacket.msgType ||| NtpacketType.enfMulti.bits ∨
        w = f.dataPacket.msgType ||| NtpacketType.enfMulti.bits ||| psh) ∧
      Reassembled cfg s s' c msg (RecvState.slotCount cfg (s.header cfg).msgLen)
        { srcPort := srcPort, dstPort := dstPort, msgLen := 8, msgType := w } ∧
      s'.curIndex = f'.link.curIndex := by
  have hpacket : cfg.dataPacketSize = cfg.stride := by
    rw [hsize, NtpConfig.stride_eq, hbits]
  have hcap : 0 < cfg.capacity := Nat.zero_lt_of_lt hcur
  have hstart : Advanced cfg f.link.curIndex f.link.localCumPtr 0 f.link := by
    refine ⟨?_, rfl, fun j hpos hj => absurd hpos (by omega)⟩
    rw [Nat.add_zero, Nat.mod_eq_of_lt hcur]
  obtain ⟨f₁, e, hadv, he, hf'⟩ :=
    sendMulti_advanced hcap hpacket (by omega) (by omega) (by omega) hstart hsent
  rw [hlen] at hadv
  -- the closing packet fits a slot, so its write is known
  obtain ⟨hfree, hlink, w, hw, hwrites⟩ := ntbDataMsgEnqueue_short
    (show (UInt16.ofNat (8 + 0)).toNat ≤ _ from h8.le) rfl he
  have hlast := hadv.advance hcap hfree
  have hr : MultiRoom cfg f.link.curIndex f.link.localCumPtr msg.payload.length :=
    ⟨hpacket, by omega, hcur, hlast.lt_capacity hcur hshadow, hlast.free, by omega, hmax⟩
  obtain ⟨f'', hsent', hcur', hmessage⟩ := sendMulti_sent (m := m) srcPort dstPort f hlen hr rfl rfl
    hnil
  obtain rfl := Option.some.inj (hsent.symm.trans hsent')
  rw [← hmem, ← hindex] at hmessage
  rw [← hindex] at hr hcur'
  have hheader : s.header cfg = _ := hmessage.header
  have hmsgLen : (s.header cfg).msgLen = UInt16.ofNat (8 + msg.payload.length) := by
    rw [hheader]
    rfl
  have hcount : RecvState.slotCount cfg (s.header cfg).msgLen =
      dataSlots cfg msg.payload.length := by
    rw [hmsgLen, RecvState.slotCount_eq hpacket hmax]
  have hmulti := RecvState.recvMulti_delivers (c := c) hr hmessage rfl
  rw [← hheader] at hmulti
  obtain ⟨s', hrecv, hhanded, hcur''⟩ := hmulti
  have hmem' := recvMulti_mem hrecv
  have hself : s.curIndex % cfg.capacity = s.curIndex := Nat.mod_eq_of_lt hr.start_lt
  rw [hcount]
  refine ⟨s', w, hrecv, hw, ⟨?_, ?_, hcur'', ?_, ?_⟩, hcur''.trans hcur'.symm⟩
  · rw [hmem, hf', hindex, ← hadv.curIndex]
    change NtpacketHeader.read (applyWrites m (f₁.writes ++ e.writes)) _ = _
    rw [applyWrites_append, hwrites, applyWrites_cons, applyWrites_cons, applyWrites_nil,
      NtpacketHeader.read_store_bytes]
    rfl
  · have hsub : (s.header cfg).msgLen - 8 = msg.msgLen := by
      apply UInt16.toNat_inj.mp
      rw [hmsgLen, toNat_ofNat_header_sub hmax, hlen]
    rw [hhanded, hsub]
  · intro j hj
    change s'.mem.halfword _ = 0
    rw [hmem', hcount, ← hself]
    refine clearFrom_cleared hcap (by omega) _ _ _ _ (Or.inl ⟨j, by omega, ?_⟩)
    rw [hself]
  · intro x hx
    rw [hmem', hcount, ← hself]
    refine clearFrom_outside hcap _ _ _ _ fun j hj => ?_
    have hne := hx j (by omega)
    omega

theorem multi_message_reassembled_wrapped :
    ∃ f s s', sendMulti smallRing 1 2 (dataMessage (List.replicate 9 5))
        { link := { curIndex := 3, localCumPtr := 3 }, writes := [],
          dataPacket := { srcPort := 0, dstPort := 0, msgLen := 0, msgType := 0 } } = some f ∧
      s = { (LinkState.init allReady none).recv with
        mem := applyWrites (fun _ => 0) f.writes
        curIndex := 3 } ∧
      s.recvByType smallRing 0 (s.header smallRing) NtpacketType.multiPkg.code = some s' ∧
      s'.handed = [(0, dataMessage (List.replicate 9 5))] ∧ s'.curIndex = f.link.curIndex := by
  obtain ⟨f, hsent⟩ : ∃ f, sendMulti smallRing 1 2 (dataMessage (List.replicate 9 5))
      { link := { curIndex := 3, localCumPtr := 3 }, writes := [],
        dataPacket := { srcPort := 0, dstPort := 0, msgLen := 0, msgType := 0 } } = some f :=
    ⟨_, rfl⟩
  obtain ⟨s', w, hrecv, -, hs', hindex⟩ := multi_message_reassembled smallRing 4 rfl rfl (by decide)
    1 2 (dataMessage (List.replicate 9 5)) (by decide) (by decide) (by decide) _ f (by decide)
    (by decide) rfl hsent (fun _ => 0)
    { (LinkState.init allReady none).recv with
      mem := applyWrites (fun _ => 0) f.writes
      curIndex := 3 } rfl rfl 0
  exact ⟨f, _, s', hsent, rfl, hrecv, hs'.handed, hindex⟩

end NtSocks
