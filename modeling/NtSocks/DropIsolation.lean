import NtSocks.DataRingFifo

/-!
# Dropping a packet of one slot

The drop branch of the receive loop moves to the next slot before it clears, once for every slot
that the packet occupies. For a packet of one slot it therefore clears the slot after it, leaves
its own slot occupied and skips two slots. A run isolates the packets it drops exactly when it
drops none.
-/

namespace NtSocks

namespace RecvState

variable {cfg : NtpConfig} {s : RecvState} {msgLen : UInt16}

theorem slotCount_eq_one (hP : cfg.dataPacketSize = cfg.stride) (hpos : msgLen ≠ 0)
    (hle : msgLen.toNat ≤ cfg.dataPacketSize) : slotCount cfg msgLen = 1 := by
  have hpos' : 0 < msgLen.toNat :=
    Nat.pos_of_ne_zero fun h0 => hpos (UInt16.toNat_inj.mp (by simpa using h0))
  have hstride := cfg.stride_pos
  rw [slotCount, Nat.shiftRight_eq_div_pow, ← NtpConfig.stride_eq]
  exact Nat.div_eq_of_lt_le (by omega) (by omega)

theorem dropPacket_one_slot (hcount : slotCount cfg msgLen = 1) :
    s.dropPacket cfg msgLen = { s with
        mem := clearMsgLen cfg s.mem (s.nextIndex cfg)
        curIndex := RingIndex.next cfg.capacity (s.nextIndex cfg) } := by
  simp [dropPacket, hcount, clearFollowing, nextIndex]

end RecvState

/-- Packets of one slot from any connection, and arbitrary other steps. -/
def OneSlotTraffic (cfg : NtpConfig) : LinkAct → Prop
  | .send _ p =>
    p.type ≠ .multiPkg ∧ 8 + p.payload.length ≤ cfg.dataPacketSize ∧ p.PortsSet
  | .recv | .publish | .arrive | .activeClose _ => True

namespace LinkState

variable (cfg : NtpConfig) (port2conn : Port2Conn)

/-- Handling the packet `x` concerns this packet only: its slot becomes free, the loop moves to
the next slot, and the applications receive the packet's message if its connection is ready and
nothing otherwise. -/
structure Isolates (s s' : LinkState) (x : SentPacket) : Prop where
  slot_free : (NtpacketHeader.read s'.recv.mem (cfg.slotAddr x.slot)).msgLen = 0
  curIndex : s'.recv.curIndex = s.recv.nextIndex cfg
  handed : s'.recv.handed = s.recv.handed ++
    if s.Live port2conn x.packet then x.packet.deliveries port2conn else []

def IsolatesAlong (s : LinkState) (acts : List LinkAct) : Prop :=
  Runs.Along (LinkState.step cfg port2conn)
    (fun s a => a = .recv → ∀ x, s.head = some x →
      ∀ s', s.step cfg port2conn .recv = some s' → Isolates cfg port2conn s s' x) s acts

def NoDropAlong (s : LinkState) (acts : List LinkAct) : Prop :=
  Runs.Along (LinkState.step cfg port2conn)
    (fun s a => a = .recv → ∀ x, s.head = some x → s.Live port2conn x.packet) s acts

variable {cfg port2conn} {s s' : LinkState} {x : SentPacket}
  {q : LaggedQueue SentPacket cfg.capacity}

variable (h : Represents cfg port2conn s q)
include h

theorem Represents.slot_head (hhead : s.head = some x) : x.slot = s.recv.curIndex := by
  rw [h.head_eq] at hhead
  rw [h.slots _ x hhead, h.readIndex]

theorem Represents.isolates_of_live (hP : cfg.dataPacketSize = cfg.stride) (hhead : s.head = some x)
    (hlive : s.Live port2conn x.packet) (hstep : s.step cfg port2conn .recv = some s') :
    Isolates cfg port2conn s s' x := by
  obtain ⟨r, hr, rfl⟩ := Option.map_eq_some_iff.mp hstep
  obtain ⟨c, r', hc, hr', hH⟩ := h.recv_head hhead hlive
  obtain rfl := Option.some.inj (hr'.symm.trans hr)
  refine ⟨?_, hH.curIndex, ?_⟩
  · rw [h.slot_head hhead]
    exact hH.freed.msgLen_eq
  · rw [if_pos hlive]
    exact h.handled_deliveries hhead hc hH hP.le

theorem Represents.curIndex_of_drop (hP : cfg.dataPacketSize = cfg.stride) (hhead : s.head = some x)
    (hdrop : ¬ s.Live port2conn x.packet) :
    ∃ s', s.step cfg port2conn .recv = some s' ∧
      s'.recv.curIndex = RingIndex.next cfg.capacity (s.recv.nextIndex cfg) := by
  have hholds := h.head_holds hhead
  have hfits := h.head_fits hhead
  have hmsgLen : (s.recv.header cfg).msgLen = x.packet.ntpacket.header.msgLen := hholds.msgLen_eq
  have hlen : (s.recv.header cfg).msgLen ≠ 0 :=
    hmsgLen ▸ Packet.msgLen_ne_zero hfits.len_le_packet
  have hlive : (s.recv.accept port2conn (s.recv.header cfg)).liveConn = none := by
    rw [Option.eq_none_iff_forall_ne_some]
    intro c hc
    rw [RecvState.liveConn_eq_some, RecvState.accept_eq] at hc
    exact hdrop ⟨c, (h.lookup_head hhead).symm.trans hc.1, hc.2⟩
  have hcount : RecvState.slotCount cfg (s.recv.header cfg).msgLen = 1 := by
    refine RecvState.slotCount_eq_one hP hlen ?_
    rw [hmsgLen, Packet.msgLen_toNat hfits.len_le_packet]
    exact hfits.len_le_packet
  refine ⟨_, by rw [LinkState.step, RecvState.recvStep_drop cfg port2conn hlen hlive]; rfl, ?_⟩
  rw [RecvState.dropPacket_one_slot hcount, RecvState.accept_eq]
  rfl

theorem Represents.isolates_iff_live
    (hP : cfg.dataPacketSize = cfg.stride) (hcap : 2 ≤ cfg.capacity) (hhead : s.head = some x) :
    (∀ s', s.step cfg port2conn .recv = some s' → Isolates cfg port2conn s s' x) ↔
      s.Live port2conn x.packet := by
  refine ⟨fun hiso => ?_, fun hlive s' => h.isolates_of_live hP hhead hlive⟩
  by_contra hdrop
  obtain ⟨s', hstep, hcur⟩ := h.curIndex_of_drop hP hhead hdrop
  have hone := (hiso s' hstep).curIndex
  refine RingIndex.next_ne_self hcap ?_ (hcur.symm.trans hone)
  exact RingIndex.next_lt (by omega) _

end LinkState

/-- Along a run of one-slot packets, every dropped packet is isolated exactly when the loop never
handles a packet of an unknown or closed connection. -/
theorem isolatesAlong_iff_noDropAlong {cfg : NtpConfig} {port2conn : Port2Conn}
    (hP : cfg.dataPacketSize = cfg.stride) (hcap : 2 ≤ cfg.capacity) (conns : ConnPtr → NtbConn)
    (conn : Option ConnPtr) {acts : List LinkAct} (hacts : ∀ a ∈ acts, OneSlotTraffic cfg a) :
    LinkState.IsolatesAlong cfg port2conn (LinkState.init conns conn) acts ↔
      LinkState.NoDropAlong cfg port2conn (LinkState.init conns conn) acts := by
  refine Runs.along_congr (I := fun s => ∃ q, LinkState.Represents cfg port2conn s q) ?_ ?_
    ⟨_, LinkState.represents_init (by omega) conns conn⟩ hacts
  · rintro s a ⟨q, hq⟩ -
    exact forall_congr' fun _ => forall_congr' fun x => forall_congr' fun hx =>
      hq.isolates_iff_live hP hcap hx
  · rintro s a s' ⟨q, hq⟩ ha hlive hstep
    refine hq.step ?_ hstep
    cases a with
    | send path p =>
      have hlen := ha.2.1
      exact ⟨hlen, by omega, by omega, ha.1, ha.2.2⟩
    | recv => exact hlive rfl
    | publish | arrive | activeClose c => trivial

theorem isolatesAlong_iff_noDropAlong_ready_packet :
    LinkState.IsolatesAlong smallRing onePort (LinkState.init allReady none)
      [.send .ntpacketEnqueue (samplePacket [7]), .recv] := by
  have htraffic : ∀ a ∈ [LinkAct.send .ntpacketEnqueue (samplePacket [7]), .recv],
      OneSlotTraffic smallRing a := by
    simp only [List.forall_mem_cons, OneSlotTraffic]
    exact ⟨⟨by decide, by decide, by decide⟩, by simp⟩
  refine (isolatesAlong_iff_noDropAlong (by decide) (by decide) allReady none htraffic).mpr
    ⟨by simp, fun s hs => ⟨fun _ x hx => ?_, fun _ _ => trivial⟩⟩
  cases hs
  cases hx
  exact ⟨0, by decide, rfl⟩

def strayPacket : Packet where
  srcPort := 5
  dstPort := 6
  type := .singlePkg
  payload := [1]

/-- A stray packet followed by one for a ready connection: the loop leaves the stray packet's slot
occupied, clears the other packet's slot and skips it, and hands nothing over. -/
theorem stray_packet_drops_next :
    ¬ LinkState.IsolatesAlong smallRing onePort (LinkState.init allReady none)
        [.send .ntpacketEnqueue strayPacket, .send .ntpacketEnqueue (samplePacket [7]), .recv] ∧
      (Runs.run (LinkState.step smallRing onePort) (LinkState.init allReady none)
          [.send .ntpacketEnqueue strayPacket, .send .ntpacketEnqueue (samplePacket [7]), .recv,
            .recv]).map
        (fun s => (s.recv.handed, s.recv.curIndex,
          (NtpacketHeader.read s.recv.mem (smallRing.slotAddr 0)).msgLen,
          (NtpacketHeader.read s.recv.mem (smallRing.slotAddr 1)).msgLen)) =
        some ([], 2, 9, 0) := by
  refine ⟨fun hiso => ?_, by decide⟩
  exact absurd (Runs.Along.at_step [_, _] [] hiso rfl rfl _ rfl _ rfl).curIndex (by decide)

end NtSocks
