import NtSocks.RingWedge

/-!
# Runs that wedge the sender

Two defects block a sender for ever. In a ring with at most 512 slots the sender fills the ring
before the loop has published any index. With a packet size that is not a power of two, a packet
can reach the length field of the slot after its own; the loop then consumes that slot as a packet
of its own and runs one slot ahead of the sender, to the index that the sender must not reach.
-/

namespace NtSocks

open LinkState

variable {cfg : NtpConfig} {n : ℕ} {s : LinkState}

structure Quiet (cfg : NtpConfig) (n : ℕ) (s : LinkState) : Prop where
  send : s.send = { curIndex := n, localCumPtr := 0 }
  readIndex : s.recv.curIndex = n
  counter : s.recv.recvPacketCounter = n
  consumed : s.recv.handed.length = s.sent.length
  noWrites : s.recv.remoteCumWrites = []
  cache : s.recv.CacheOk onePort
  conns : s.recv.conns = allReady

theorem quiet_init (conn : Option ConnPtr) : Quiet cfg 0 (init allReady conn) where
  send := rfl
  readIndex := rfl
  counter := rfl
  consumed := rfl
  noWrites := rfl
  cache := Or.inl ⟨rfl, rfl⟩
  conns := rfl

theorem onePort_eq : onePort (createConnId 2 1) = some 0 := by decide

theorem lookupConn_onePort {r : RecvState} {hdr : NtpacketHeader} (h : r.CacheOk onePort)
    (hsrc : hdr.srcPort = 1) (hdst : hdr.dstPort = 2) : r.lookupConn onePort hdr = some 0 := by
  unfold RecvState.lookupConn
  rw [hsrc, hdst]
  split
  · exact onePort_eq
  · rename_i hsame
    obtain ⟨hs, hd⟩ : r.srcPort = 2 ∧ r.dstPort = 1 := by
      simpa only [not_or, not_not] using hsame
    rcases h with ⟨h0, -⟩ | hconn
    · rw [hs] at h0
      exact absurd h0 (by decide)
    · rw [hconn, hs, hd, onePort_eq]

def packetRound (payload : List UInt8) : List LinkAct :=
  [.send .ntpacketEnqueue (samplePacket payload), .recv]

theorem loopTraffic_packetRound {payload : List UInt8}
    (hfit : 8 + payload.length ≤ cfg.dataPacketSize) :
    ∀ a ∈ packetRound payload, LoopTraffic cfg onePort allReady a := by
  simp only [packetRound, List.forall_mem_cons, LoopTraffic, ReadyTraffic]
  exact ⟨⟨⟨rfl, hfit, 0, onePort_eq, rfl⟩, by simp, by simp⟩, by simp, by simp⟩

theorem Quiet.nextIndex (h : Quiet cfg n s) (hcap : n + 1 < cfg.capacity) :
    s.send.nextIndex cfg = n + 1 := by
  rw [SendSide.nextIndex, h.send]
  exact if_pos hcap

theorem Quiet.send_step (h : Quiet cfg n s) {p : Packet} (hcap : n + 1 < cfg.capacity)
    (hn : n + 1 < 1024) (hfit : 8 + p.payload.length ≤ cfg.dataPacketSize) :
    ∃ ws, PacketWritten s.recv.mem (applyWrites s.recv.mem ws) (cfg.slotAddr n) p.ntpacket.header
        p.payload ∧
      s.step cfg onePort (.send .ntpacketEnqueue p) = some {
        send := { curIndex := n + 1, localCumPtr := 0 }
        recv := s.recv.remoteWrite ws
        sent := s.sent ++ [{ slot := n, packet := p }] } := by
  have hnext := h.nextIndex hcap
  have hlen := Packet.msgLen_toNat hfit
  have henqueue := ntpacketEnqueue_quiet cfg s.send p.ntpacket (by rw [h.send])
    (by omega) (by omega) (hlen ▸ hfit) hlen
  refine ⟨_, packetWritten_header_first s.recv.mem _ _ _, ?_⟩
  rw [LinkState.step, EnqueuePath.enqueue, henqueue, Option.map_some, SendSide.advance, hnext,
    h.send]
  rfl

theorem recv_step (cfg : NtpConfig) (r : RecvState) (t : NtpacketType) (hcache : r.CacheOk onePort)
    (hconns : r.conns = allReady) (hsrc : (r.header cfg).srcPort = 1)
    (hdst : (r.header cfg).dstPort = 2) (hlen : (r.header cfg).msgLen ≠ 0)
    (htype : (r.header cfg).msgType = t.bits) (ht : t ≠ .multiPkg) :
    ∃ r', r.recvStep cfg onePort = some r' ∧ RecvState.Handles cfg r r' 0 (r.header cfg) t ∧
      r.pshWrites (r.header cfg) = [] := by
  obtain ⟨r', hr', hH⟩ := RecvState.recvStep_handles (t := t) hlen
    (htype ▸ dataLenGetType_bits t) ht (lookupConn_onePort hcache hsrc hdst) (by rw [hconns]; rfl)
  refine ⟨r', hr', hH, ?_⟩
  rw [RecvState.pshWrites, htype]
  cases t <;> rfl

theorem Quiet.packetRound (h : Quiet cfg n s) (payload : List UInt8) (hcap : n + 1 < cfg.capacity)
    (hn : n + 1 < idxUpdateInterval) (hfit : 8 + payload.length ≤ cfg.dataPacketSize) :
    ∃ s', Runs.run (LinkState.step cfg onePort) s (packetRound payload) = some s' ∧
      Quiet cfg (n + 1) s' ∧
      s'.recv.mem.load (cfg.slotAddr n + 8) payload.length = payload ∧
      ∀ x, cfg.slotAddr n + 8 + payload.length ≤ x → s'.recv.mem x = s.recv.mem x := by
  have hinterval : idxUpdateInterval = 512 := rfl
  obtain ⟨ws, hm, hsend⟩ := h.send_step (p := samplePacket payload) hcap (by omega) hfit
  have hheader : (s.recv.remoteWrite ws).header cfg = (samplePacket payload).ntpacket.header := by
    rw [RecvState.header, ← hm.header_eq, ← h.readIndex]
    rfl
  obtain ⟨r, hr, hH, hpsh⟩ := recv_step cfg (s.recv.remoteWrite ws) .singlePkg h.cache h.conns
    (by rw [hheader]; rfl) (by rw [hheader]; rfl)
    (by rw [hheader]; exact Packet.msgLen_ne_zero hfit) (by rw [hheader]; exact UInt16.zero_or)
    (by decide)
  have hcur : (s.recv.remoteWrite ws).curIndex = n := h.readIndex
  have hcounter : (s.recv.remoteWrite ws).recvPacketCounter = n := h.counter
  have hnoWrites : (s.recv.remoteWrite ws).remoteCumWrites = [] := h.noWrites
  have hconsumed : (s.recv.remoteWrite ws).handed.length = s.sent.length := h.consumed
  have hfreed := hH.freed
  rw [hcur] at hfreed
  refine ⟨{
    send := { curIndex := n + 1, localCumPtr := 0 }
    recv := r
    sent := s.sent ++ [{ slot := n, packet := samplePacket payload }] }, ?_, ?_, ?_, ?_⟩
  · rw [NtSocks.packetRound, Runs.run_cons, hsend, Option.bind_some, Runs.run_cons, LinkState.step,
      hr, Option.map_some, Option.bind_some, Runs.run_nil]
  · refine ⟨rfl, ?_, ?_, ?_, ?_, ?_, ?_⟩
    · rw [hH.curIndex, RecvState.nextIndex, hcur]
      exact if_pos hcap
    · rw [hH.recvPacketCounter, hcounter]
    · rw [hH.handed, List.length_append, List.length_append, hconsumed]
      rfl
    · rw [hH.remoteCumWrites, hpsh, hnoWrites, hcounter, Nat.mod_eq_of_lt hn]
      rfl
    · refine Or.inr ?_
      rw [hH.conn, hH.srcPort, hH.dstPort, hheader]
      exact onePort_eq.symm
    · rw [hH.conns]
      exact h.conns
  · refine (Memory.load_congr fun i _ => ?_).trans hm.payload_eq
    exact hfreed.frame _ (by omega)
  · intro x hx
    exact (hfreed.frame x (by omega)).trans (hm.frame x (Or.inr hx))

def packetRounds : ℕ → List LinkAct
  | 0 => []
  | n + 1 => packetRounds n ++ packetRound []

theorem loopTraffic_packetRounds (h8 : 8 ≤ cfg.dataPacketSize) :
    ∀ a ∈ packetRounds n, LoopTraffic cfg onePort allReady a := by
  induction n with
  | zero => simp [packetRounds]
  | succ n ih =>
    exact List.forall_mem_append.mpr ⟨ih, loopTraffic_packetRound (by simpa using h8)⟩

theorem quiet_packetRounds (h8 : 8 ≤ cfg.dataPacketSize) (hstride : 8 ≤ cfg.stride)
    (hcap : n < cfg.capacity) (hn : n < idxUpdateInterval) :
    ∃ s, Runs.run (LinkState.step cfg onePort) (init allReady none) (packetRounds n) = some s ∧
      Quiet cfg n s ∧ ∀ x, cfg.slotAddr n ≤ x → s.recv.mem x = 0 := by
  induction n with
  | zero => exact ⟨_, rfl, quiet_init none, fun _ _ => rfl⟩
  | succ n ih =>
    obtain ⟨s, hrun, hquiet, hzero⟩ := ih (by omega) (by omega)
    obtain ⟨s', hrun', hquiet', -, hframe⟩ :=
      hquiet.packetRound [] hcap hn (by simpa using h8)
    refine ⟨s', ?_, hquiet', fun x hx => ?_⟩
    · rw [packetRounds, Runs.run_append, hrun, Option.bind_some, hrun']
    · have := cfg.slotAddr_add_stride_le (by omega : n < n + 1)
      rw [hframe x (by simp only [List.length_nil]; omega), hzero x (by omega)]

/-- A ring with at most 512 slots is full before the loop publishes an index. -/
theorem wedge_of_small_ring (h8 : 8 ≤ cfg.dataPacketSize) (hstride : 8 ≤ cfg.stride)
    (hcap : 2 ≤ cfg.capacity) (hsmall : cfg.capacity ≤ idxUpdateInterval) : ¬ NoWedge cfg := by
  intro hno
  obtain ⟨s, hrun, hquiet, -⟩ := quiet_packetRounds (n := cfg.capacity - 1) h8 hstride (by omega)
    (by omega)
  refine hno onePort allReady none _ s (by decide) (loopTraffic_packetRounds h8) hrun ?_
  refine ⟨hquiet.consumed, hquiet.noWrites, ?_⟩
  rw [SendSide.nextIndex, hquiet.send]
  exact if_neg (by simp only; omega)

def phantomHeader : NtpacketHeader where
  srcPort := 1
  dstPort := 2
  msgLen := 1
  msgType := 0

def overlongPayload (cfg : NtpConfig) : List UInt8 :=
  (List.replicate (cfg.stride - 8) 0 ++
    (phantomHeader.bytes ++ List.replicate cfg.dataPacketSize 0)).take (cfg.dataPacketSize - 8)

theorem length_overlongPayload (cfg : NtpConfig) :
    (overlongPayload cfg).length = cfg.dataPacketSize - 8 := by
  simp only [overlongPayload, List.length_take, List.length_append, List.length_replicate]
  omega

theorem overlongPayload_getElem {k : ℕ} (hk : k < phantomHeader.bytes.length)
    (hlt : cfg.stride - 8 + k < (overlongPayload cfg).length) :
    (overlongPayload cfg)[cfg.stride - 8 + k] = phantomHeader.bytes[k] := by
  simp only [overlongPayload, List.getElem_take]
  rw [List.getElem_append_right (by simp)]
  simp only [List.length_replicate, Nat.add_sub_cancel_left]
  rw [List.getElem_append_left hk]

theorem phantomHeader_bytes_tail :
    ∀ k, ∀ hk : k < phantomHeader.bytes.length, 5 ≤ k → phantomHeader.bytes[k] = 0 := by
  decide

theorem read_phantomHeader {m : Memory} (hstride : 8 ≤ cfg.stride)
    (hlong : cfg.stride + 4 < cfg.dataPacketSize)
    (hload : m.load (cfg.slotAddr n + 8) (overlongPayload cfg).length = overlongPayload cfg)
    (hzero : ∀ x, cfg.slotAddr n + cfg.dataPacketSize ≤ x → m x = 0) :
    NtpacketHeader.read m (cfg.slotAddr (n + 1)) = phantomHeader := by
  have haddr : cfg.slotAddr (n + 1) = cfg.slotAddr n + cfg.stride := by
    rw [NtpConfig.slotAddr_eq, NtpConfig.slotAddr_eq, Nat.succ_mul]
  have hlen := length_overlongPayload cfg
  rw [← NtpacketHeader.read_store_bytes phantomHeader m (cfg.slotAddr (n + 1))]
  apply NtpacketHeader.read_congr
  intro k hk
  have hk' : k < phantomHeader.bytes.length := by simpa using hk
  rw [Memory.store_apply_inside _ _ _ hk']
  by_cases hin : cfg.stride + k < cfg.dataPacketSize
  · have hlt : cfg.stride - 8 + k < (overlongPayload cfg).length := by omega
    have hbyte := Memory.apply_of_load_eq m _ hload hlt
    rw [overlongPayload_getElem hk' hlt] at hbyte
    rw [← hbyte, haddr]
    congr 1
    omega
  · rw [phantomHeader_bytes_tail k hk' (by omega), hzero _ (by omega)]

theorem Quiet.phantom (h : Quiet cfg 511 s) (hcap : 512 < cfg.capacity)
    (hheader : NtpacketHeader.read s.recv.mem (cfg.slotAddr 511) = phantomHeader) :
    ∃ s', Runs.run (LinkState.step cfg onePort) s [.recv, .arrive] = some s' ∧ s'.Wedged cfg := by
  have hhdr : s.recv.header cfg = phantomHeader := by
    rw [RecvState.header, h.readIndex, hheader]
  obtain ⟨r, hr, hH, hpsh⟩ := recv_step cfg s.recv .detectPkg h.cache h.conns
    (by rw [hhdr]; rfl) (by rw [hhdr]; rfl) (by rw [hhdr]; decide) (by rw [hhdr]; rfl) (by decide)
  have hnext : s.recv.nextIndex cfg = 512 := by
    rw [RecvState.nextIndex, h.readIndex]
    exact if_pos hcap
  have hwrites : r.remoteCumWrites = [512] := by
    rw [hH.remoteCumWrites, hpsh, h.noWrites, h.counter, hnext]
    rfl
  refine ⟨{ s with
      send := { s.send with localCumPtr := 512 }
      recv := { r with remoteCumWrites := [] } }, ?_, ?_, rfl, ?_⟩
  · rw [Runs.run_cons, LinkState.step, hr, Option.map_some, Option.bind_some, Runs.run_cons,
      LinkState.step, hwrites, Option.bind_some, Runs.run_nil]
  · change r.handed.length = s.sent.length
    rw [hH.handed, ← h.consumed]
    exact congrArg List.length (List.append_nil _)
  · rw [SendSide.nextIndex, h.send]
    exact if_pos hcap

/-- With a packet size well above the stride, a full packet makes the loop overtake the sender. -/
theorem wedge_of_overlong_packet (hstride : 8 ≤ cfg.stride)
    (hlong : cfg.stride + 4 < cfg.dataPacketSize) (hcap : 512 < cfg.capacity) : ¬ NoWedge cfg := by
  intro hno
  have h8 : 8 ≤ cfg.dataPacketSize := by omega
  have hlen : 8 + (overlongPayload cfg).length = cfg.dataPacketSize := by
    rw [length_overlongPayload]
    omega
  obtain ⟨s, hrun, hquiet, hzero⟩ := quiet_packetRounds (n := 510) h8 hstride (by omega) (by decide)
  obtain ⟨s', hrun', hquiet', hload, hframe⟩ := hquiet.packetRound (overlongPayload cfg)
    (by omega) (by decide) hlen.le
  have hheader : NtpacketHeader.read s'.recv.mem (cfg.slotAddr 511) = phantomHeader := by
    refine read_phantomHeader hstride hlong hload fun x hx => ?_
    rw [hframe x (by omega), hzero x (by omega)]
  obtain ⟨s'', hrun'', hwedged⟩ := hquiet'.phantom hcap hheader
  refine hno onePort allReady none
    (packetRounds 510 ++ (packetRound (overlongPayload cfg) ++ [.recv, .arrive])) s'' (by decide)
    ?_ ?_ hwedged
  · refine List.forall_mem_append.mpr ⟨loopTraffic_packetRounds h8,
      List.forall_mem_append.mpr ⟨loopTraffic_packetRound hlen.le, ?_⟩⟩
    rw [List.forall_mem_cons, List.forall_mem_singleton]
    exact ⟨⟨trivial, by simp, by simp⟩, ⟨trivial, by simp, by simp⟩⟩
  · rw [Runs.run_append, hrun, Option.bind_some, Runs.run_append, hrun', Option.bind_some, hrun'']

/-- For every accepted configuration with at least two slots, no run wedges the sender exactly
when no packet fits at all, or the ring has more slots than the update interval and a packet
cannot reach the length field of the slot after its own. -/
theorem noWedge_iff {cfg : NtpConfig} (haccepted : cfg.Accepted) (hcap : 2 ≤ cfg.capacity) :
    NoWedge cfg ↔ cfg.dataPacketSize < 8 ∨
      idxUpdateInterval < cfg.capacity ∧ cfg.dataPacketSize ≤ cfg.stride + 4 := by
  refine ⟨fun hno => ?_, noWedge_of_room haccepted hcap⟩
  by_contra hcond
  obtain ⟨h8, hcond⟩ : 8 ≤ cfg.dataPacketSize ∧
      (idxUpdateInterval < cfg.capacity → cfg.stride + 4 < cfg.dataPacketSize) := by
    simpa only [not_or, not_and, not_lt, not_le] using hcond
  have hstride := haccepted.shaped.header_le_stride h8
  rcases Nat.lt_or_ge idxUpdateInterval cfg.capacity with hbig | hsmall
  · exact wedge_of_overlong_packet hstride (hcond hbig) hbig hno
  · exact wedge_of_small_ring h8 hstride hcap hsmall hno

/-- The settings of the configuration file in the repository: 1024-byte packets, 65536 slots. -/
def shippedRing : NtpConfig where
  dataPacketSize := 1024
  ntbPacketbitsSize := 10
  dataRingbufferSize := 0x4000000
  dataPacketSize_lt := by decide

theorem noWedge_shippedRing : NoWedge shippedRing :=
  (noWedge_iff ⟨[.dataRingbufferSize 0x4000000, .dataPacketSize 1024], by decide⟩
    (by decide)).mpr (by decide)

/-- With an MTU of 16 and a ring of 0x40 bytes, three packets are sent and consumed and the sender
then waits for slot 0, which its shadow index never leaves. -/
theorem smallRing_wedges :
    smallRing.Accepted ∧ 2 ≤ smallRing.capacity ∧ ¬ NoWedge smallRing ∧
      (Runs.run (LinkState.step smallRing onePort) (init allReady none) (packetRounds 3)).map
        (fun s => (s.recv.handed.length, s.sent.length, s.recv.remoteCumWrites,
          s.send.nextIndex smallRing, s.send.localCumPtr)) = some (3, 3, [], 0, 0) :=
  ⟨⟨[.mtuSize 16, .dataRingbufferSize 0x40], by decide⟩, by decide,
    wedge_of_small_ring (by decide) (by decide) (by decide) (by decide), by decide⟩

end NtSocks
