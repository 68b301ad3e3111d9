import NtSocks.SlotContents

/-!
# The data link refines a lagged queue

`Represents s q` relates the wrapped indices, the ring memory and the logs of a link state to an
abstract queue whose positions are counters. Unconsumed packets stand in their slots, every other
slot has a zero length field, and the newest published read index is at most one update interval
old. Every step of the link is a step of the queue as long as the loop drops nothing.
-/

namespace NtSocks

/-- The loop's cached lookup is right unless the ports still have their initial value. -/
def RecvState.CacheOk (port2conn : Port2Conn) (r : RecvState) : Prop :=
  (r.srcPort = 0 ∧ r.dstPort = 0) ∨ r.conn = port2conn (createConnId r.srcPort r.dstPort)

namespace LinkState

variable {cfg : NtpConfig} {port2conn : Port2Conn}

structure Represents (cfg : NtpConfig) (port2conn : Port2Conn) (s : LinkState)
    (q : LaggedQueue SentPacket cfg.capacity) : Prop where
  sent : q.sent = s.sent
  taken : q.taken = s.recv.recvPacketCounter
  writeIndex : s.send.curIndex = q.sent.length % cfg.capacity
  readIndex : s.recv.curIndex = q.taken % cfg.capacity
  shadow : s.send.localCumPtr = q.shadow % cfg.capacity
  inFlight : s.recv.remoteCumWrites = q.inFlight.map (· % cfg.capacity)
  fits : ∀ x ∈ q.sent, x.packet.Fits cfg
  slots : ∀ i x, q.sent[i]? = some x → x.slot = i % cfg.capacity
  pending : ∀ i x, q.sent[i]? = some x → q.taken ≤ i →
    Holds cfg s.recv.mem (i % cfg.capacity) x.packet
  free : ∀ j < cfg.capacity, q.FreeSlot j →
    (NtpacketHeader.read s.recv.mem (cfg.slotAddr j)).msgLen = 0
  cache : s.recv.CacheOk port2conn
  handed : cfg.dataPacketSize ≤ cfg.stride →
    s.recv.handed = (q.sent.take q.taken).flatMap fun x => x.packet.deliveries port2conn
  lag : idxUpdateInterval * (q.taken / idxUpdateInterval) ≤ q.lastPublished

theorem represents_init (hcap : 0 < cfg.capacity) (conns : ConnPtr → NtbConn)
    (conn : Option ConnPtr) :
    Represents cfg port2conn (init conns conn) (LaggedQueue.empty SentPacket hcap) where
  sent := rfl
  taken := rfl
  writeIndex := (Nat.zero_mod _).symm
  readIndex := (Nat.zero_mod _).symm
  shadow := (Nat.zero_mod _).symm
  inFlight := rfl
  fits := by simp [LaggedQueue.empty]
  slots := by simp [LaggedQueue.empty]
  pending := by simp [LaggedQueue.empty]
  free := fun j _ _ => Memory.halfword_eq_zero_of_bytes _ _ rfl rfl
  cache := Or.inl ⟨rfl, rfl⟩
  handed := fun _ => rfl
  lag := by simp [LaggedQueue.empty]

namespace Represents

variable {s s' : LinkState} {q : LaggedQueue SentPacket cfg.capacity} {p : Packet}

variable (h : Represents cfg port2conn s q) {r : RecvState} {c : ConnPtr} {x : SentPacket}
include h

theorem nextIndex_send : s.send.nextIndex cfg = (q.sent.length + 1) % cfg.capacity := by
  rw [SendSide.nextIndex, h.writeIndex, RingIndex.next_mod q.cap_pos]

theorem nextIndex_recv : s.recv.nextIndex cfg = (q.taken + 1) % cfg.capacity := by
  rw [RecvState.nextIndex, h.readIndex, RingIndex.next_mod q.cap_pos]

theorem blocked_iff : s.send.nextIndex cfg = s.send.localCumPtr ↔ q.Full := by
  rw [h.nextIndex_send, h.shadow, LaggedQueue.Full]

theorem send {path : EnqueuePath} (hp : p.Fits cfg)
    (hstep : s.step cfg port2conn (.send path p) = some s') :
    ∃ hfull : ¬ q.Full,
      Represents cfg port2conn s' (q.push { slot := s.send.curIndex, packet := p } hfull) := by
  obtain ⟨e, he, rfl⟩ := Option.map_eq_some_iff.mp hstep
  have hlen := Packet.msgLen_toNat hp.len_le_packet
  obtain ⟨hblocked, hlink, w, hw, hwritten⟩ :=
    EnqueuePath.enqueue_short (hlen ▸ hp.len_le_packet) hlen he
  have hfull : ¬ q.Full := fun hf => hblocked (h.blocked_iff.mpr hf)
  have hmem := hwritten s.recv.mem
  rw [h.writeIndex] at hmem
  refine ⟨hfull, ?_⟩
  constructor
  case sent => simp [h.sent]
  case taken => exact h.taken
  case writeIndex =>
    rw [hlink, SendSide.advance_curIndex, h.nextIndex_send]
    simp
  case readIndex => exact h.readIndex
  case shadow => rw [hlink, SendSide.advance_localCumPtr, h.shadow, LaggedQueue.push_shadow]
  case inFlight => exact h.inFlight
  case fits =>
    intro x hx
    rw [LaggedQueue.push_sent, List.mem_append, List.mem_singleton] at hx
    rcases hx with hx | rfl
    · exact h.fits x hx
    · exact hp
  case slots =>
    intro i x hx
    rcases q.push_sent_cases hx with hx | ⟨rfl, rfl⟩
    · exact h.slots i x hx
    · exact h.writeIndex
  case pending =>
    intro i x hx hi
    rcases q.push_sent_cases hx with hx | ⟨rfl, rfl⟩
    · have hlt : i < q.sent.length := (List.getElem?_eq_some_iff.mp hx).1
      refine (h.pending i x hx hi).frame_write (h.fits x (List.mem_of_getElem? hx)) hp ?_ ?_ hmem
      · exact q.writeSlot_free i hi hlt
      · intro he
        refine q.nextSlot_free hfull i hi hlt ?_
        rw [he, RingIndex.succ_mod_of_lt (he ▸ Nat.mod_lt i q.cap_pos)]
    · exact Holds.of_packetWritten hw hmem
  case free =>
    intro j hj hfree
    obtain ⟨hold, hne⟩ := q.freeSlot_of_push hfree
    exact (msgLen_frame_write hp hne hmem).trans (h.free j hj hold)
  case cache => exact h.cache
  case handed =>
    intro hP
    rw [LaggedQueue.push_sent, LaggedQueue.push_taken, List.take_append_of_le_length q.taken_le]
    exact h.handed hP
  case lag => exact h.lag

theorem publish :
    Represents cfg port2conn { s with recv := s.recv.transDataLinkCurIndex } q.publish :=
  { h with
    inFlight := by
      change s.recv.remoteCumWrites ++ [s.recv.curIndex] = _
      rw [h.inFlight, h.readIndex, LaggedQueue.publish_inFlight, List.map_append,
        List.map_singleton]
    lag := by
      rw [LaggedQueue.lastPublished_publish]
      exact Nat.mul_div_le _ _ }

theorem arrive {u : ℕ} {us : List ℕ} (hu : s.recv.remoteCumWrites = u :: us) :
    ∃ v vs, ∃ hv : q.inFlight = v :: vs, Represents cfg port2conn
      { s with
        send := { s.send with localCumPtr := u }
        recv := { s.recv with remoteCumWrites := us } } (q.arrive hv) := by
  rw [h.inFlight, List.map_eq_cons_iff] at hu
  obtain ⟨v, vs, hv, rfl, rfl⟩ := hu
  exact ⟨v, vs, hv, { h with
    shadow := rfl
    inFlight := rfl
    lag := by
      rw [LaggedQueue.lastPublished_arrive]
      exact h.lag }⟩

theorem activeClose (c : ConnPtr) :
    Represents cfg port2conn { s with recv := s.recv.setConnState c .activeClose } q :=
  { h with }

theorem head_eq : s.head = q.sent[q.taken]? := by
  rw [head, h.sent, h.taken]

theorem recv_empty (hhead : s.head = none) : s.recv.recvStep cfg port2conn = some s.recv := by
  rw [h.head_eq, List.getElem?_eq_none_iff] at hhead
  apply RecvState.recvStep_empty
  rw [RecvState.header, h.readIndex]
  refine h.free _ (Nat.mod_lt _ q.cap_pos) ?_
  intro i hi hlt
  omega

theorem head_holds (hhead : s.head = some x) : Holds cfg s.recv.mem s.recv.curIndex x.packet := by
  rw [h.head_eq] at hhead
  rw [h.readIndex]
  exact h.pending _ x hhead le_rfl

theorem head_fits (hhead : s.head = some x) : x.packet.Fits cfg := by
  rw [h.head_eq] at hhead
  exact h.fits x (List.mem_of_getElem? hhead)

theorem lookup_head (hhead : s.head = some x) :
    s.recv.lookupConn port2conn (s.recv.header cfg) = port2conn x.packet.connId := by
  have hholds := h.head_holds hhead
  unfold RecvState.lookupConn RecvState.header
  rw [hholds.dstPort_eq, hholds.srcPort_eq]
  split
  · rfl
  · rename_i hsame
    obtain ⟨hsrc, hdst⟩ :
        s.recv.srcPort = x.packet.dstPort ∧ s.recv.dstPort = x.packet.srcPort := by
      simpa only [not_or, not_not] using hsame
    rcases h.cache with ⟨h0, h0'⟩ | hconn
    · exact absurd ⟨hdst.symm.trans h0', hsrc.symm.trans h0⟩ (h.head_fits hhead).portsSet
    · rw [hconn, hsrc, hdst]
      rfl

theorem recv_head (hhead : s.head = some x) (hlive : s.Live port2conn x.packet) :
    ∃ c r, port2conn x.packet.connId = some c ∧ s.recv.recvStep cfg port2conn = some r ∧
      RecvState.Handles cfg s.recv r c (s.recv.header cfg) x.packet.type := by
  obtain ⟨c, hc, hready⟩ := hlive
  have hholds := h.head_holds hhead
  have hfits := h.head_fits hhead
  have hlen : (s.recv.header cfg).msgLen ≠ 0 := by
    rw [RecvState.header, hholds.msgLen_eq]
    exact Packet.msgLen_ne_zero hfits.len_le_packet
  obtain ⟨r, hr, hH⟩ := RecvState.recvStep_handles hlen hholds.type_eq hfits.not_multi
    ((h.lookup_head hhead).trans hc) hready
  exact ⟨c, r, hc, hr, hH⟩

theorem handled_deliveries (hhead : s.head = some x) (hc : port2conn x.packet.connId = some c)
    (hH : RecvState.Handles cfg s.recv r c (s.recv.header cfg) x.packet.type)
    (hP : cfg.dataPacketSize ≤ cfg.stride) :
    r.handed = s.recv.handed ++ x.packet.deliveries port2conn := by
  have hholds := h.head_holds hhead
  have hfits := h.head_fits hhead
  have hload : s.recv.mem.load (cfg.slotAddr s.recv.curIndex + 8)
      (x.packet.ntpacket.header.msgLen - 8).toNat = x.packet.payload := by
    rw [Packet.msgLen_sub hfits.len_le_packet]
    exact hholds.payload hP
  rw [hH.handed, RecvState.header, hholds.msgLen_eq, hload, Packet.deliveries, hc]
  rfl

omit h in
theorem lag_step {requested interval : Bool} (hlt : q.taken < q.sent.length)
    (hinterval : interval = true ↔ (q.taken + 1) % idxUpdateInterval = 0)
    (hlag : idxUpdateInterval * (q.taken / idxUpdateInterval) ≤ q.lastPublished) :
    idxUpdateInterval * ((q.taken + 1) / idxUpdateInterval) ≤
      (((q.publishIf requested).pop (by simpa using hlt)).publishIf interval).lastPublished := by
  cases interval with
  | true =>
    change _ ≤ ((q.publishIf requested).pop _).publish.lastPublished
    rw [LaggedQueue.lastPublished_publish, LaggedQueue.pop_taken, LaggedQueue.publishIf_taken]
    exact Nat.mul_div_le _ _
  | false =>
    have hmod : (q.taken + 1) % idxUpdateInterval ≠ 0 := fun h0 => by simp [h0] at hinterval
    have hdiv : (q.taken + 1) / idxUpdateInterval = q.taken / idxUpdateInterval := by
      unfold idxUpdateInterval at hmod ⊢
      omega
    rw [hdiv]
    exact hlag.trans (q.lastPublished_le_publishIf requested)

theorem handled (hhead : s.head = some x) (hc : port2conn x.packet.connId = some c)
    (hH : RecvState.Handles cfg s.recv r c (s.recv.header cfg) x.packet.type) :
    ∃ q' : LaggedQueue SentPacket cfg.capacity, q'.sent = q.sent ∧ q'.taken = q.taken + 1 ∧
      Represents cfg port2conn { s with recv := r } q' := by
  have hget := h.head_eq ▸ hhead
  have hlt : q.taken < q.sent.length := (List.getElem?_eq_some_iff.mp hget).1
  have hholds := h.head_holds hhead
  have hfits := h.head_fits hhead
  have hfreed := hH.freed
  rw [h.readIndex] at hfreed
  let requested := (s.recv.header cfg).msgType &&& psh != 0
  let interval := (q.taken + 1) % idxUpdateInterval == 0
  refine ⟨((q.publishIf requested).pop (by simpa using hlt)).publishIf interval,
    by simp, by simp, ?_⟩
  constructor
  case sent => simpa using h.sent
  case taken => simp [hH.recvPacketCounter, h.taken]
  case writeIndex => simpa using h.writeIndex
  case readIndex => simp [hH.curIndex, h.nextIndex_recv]
  case shadow => simpa using h.shadow
  case inFlight =>
    have hpsh : s.recv.pshWrites (s.recv.header cfg) =
        (if requested then [q.taken] else []).map (· % cfg.capacity) := by
      rw [RecvState.pshWrites, h.readIndex]
      by_cases hr : (s.recv.header cfg).msgType &&& psh = 0 <;> simp [requested, hr]
    have hint : (if (s.recv.recvPacketCounter + 1) % idxUpdateInterval = 0
          then [s.recv.nextIndex cfg] else []) =
        (if interval then [q.taken + 1] else []).map (· % cfg.capacity) := by
      rw [h.nextIndex_recv, ← h.taken]
      by_cases hi : (q.taken + 1) % idxUpdateInterval = 0 <;> simp [interval, hi]
    rw [hH.remoteCumWrites, h.inFlight, hpsh, hint]
    simp only [LaggedQueue.publishIf_inFlight, LaggedQueue.pop_inFlight, LaggedQueue.pop_taken,
      LaggedQueue.publishIf_taken, List.map_append]
  case fits => simpa using h.fits
  case slots => simpa using h.slots
  case pending =>
    intro i y hy hi
    simp only [LaggedQueue.publishIf_sent, LaggedQueue.pop_sent, LaggedQueue.publishIf_taken,
      LaggedQueue.pop_taken] at hy hi
    have hlen : i < q.sent.length := (List.getElem?_eq_some_iff.mp hy).1
    refine (h.pending i y hy (by omega)).frame_freed (h.fits y (List.mem_of_getElem? hy)) ?_ hfreed
    exact (q.mod_ne_of_lt le_rfl (by omega) hlen.le).symm
  case free =>
    intro j hj hfree
    have hfree' : (q.pop hlt).FreeSlot j := by
      simpa only [LaggedQueue.FreeSlot, LaggedQueue.publishIf_sent, LaggedQueue.pop_sent,
        LaggedQueue.publishIf_taken, LaggedQueue.pop_taken] using hfree
    by_cases hjc : j = q.taken % cfg.capacity
    · rw [hjc]
      exact hfreed.msgLen_eq
    · exact (msgLen_frame_freed hfits.header_le_slot hjc hfreed).trans
        (h.free j hj (q.freeSlot_of_pop hfree' hjc))
  case cache =>
    refine Or.inr ?_
    rw [hH.conn, hH.srcPort, hH.dstPort, RecvState.header, hholds.srcPort_eq, hholds.dstPort_eq]
    exact hc.symm
  case handed =>
    intro hP
    have htake : q.sent.take (q.taken + 1) = q.sent.take q.taken ++ [x] := by
      rw [List.take_add_one, hget, Option.toList_some]
    simp only [LaggedQueue.publishIf_sent, LaggedQueue.pop_sent, LaggedQueue.publishIf_taken,
      LaggedQueue.pop_taken]
    rw [h.handled_deliveries hhead hc hH hP, h.handed hP, htake, List.flatMap_append,
      List.flatMap_singleton]
  case lag =>
    simpa using lag_step hlt (by simp [interval]) h.lag

end Represents

/-- The steps that the queue can follow: packets fit their slots and the loop drops nothing. -/
def Follows (cfg : NtpConfig) (port2conn : Port2Conn) (s : LinkState) : LinkAct → Prop
  | .send _ p => p.Fits cfg
  | .recv => ∀ x, s.head = some x → s.Live port2conn x.packet
  | .publish | .arrive | .activeClose _ => True

theorem Represents.step {s s' : LinkState} {q : LaggedQueue SentPacket cfg.capacity} {a : LinkAct}
    (h : Represents cfg port2conn s q) (ha : Follows cfg port2conn s a)
    (hstep : s.step cfg port2conn a = some s') : ∃ q', Represents cfg port2conn s' q' := by
  cases a with
  | send path p =>
    obtain ⟨hfull, h'⟩ := h.send ha hstep
    exact ⟨_, h'⟩
  | recv =>
    obtain ⟨r, hr, rfl⟩ := Option.map_eq_some_iff.mp hstep
    cases hhead : s.head with
    | none =>
      obtain rfl := Option.some.inj ((h.recv_empty hhead).symm.trans hr)
      exact ⟨q, h⟩
    | some x =>
      obtain ⟨c, r', hc, hr', hH⟩ := h.recv_head hhead (ha x hhead)
      obtain rfl := Option.some.inj (hr'.symm.trans hr)
      obtain ⟨q', -, -, h'⟩ := h.handled hhead hc hH
      exact ⟨q', h'⟩
  | publish =>
    obtain rfl := Option.some.inj hstep
    exact ⟨_, h.publish⟩
  | arrive =>
    cases hu : s.recv.remoteCumWrites with
    | nil => simp [LinkState.step, hu] at hstep
    | cons u us =>
      simp only [LinkState.step, hu, Option.some.injEq] at hstep
      subst hstep
      obtain ⟨v, vs, hv, h'⟩ := h.arrive hu
      exact ⟨_, h'⟩
  | activeClose c =>
    obtain rfl := Option.some.inj hstep
    exact ⟨_, h.activeClose c⟩

end LinkState

end NtSocks
