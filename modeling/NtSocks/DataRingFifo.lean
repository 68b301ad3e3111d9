import NtSocks.DataLinkRefinement

/-!
# The data ring is a queue for ready connections

For `SINGLE_PKG` traffic of connections that stay ready, the loop hands over one message per
packet, in sending order, and the sender never reuses a slot before its packet is consumed. The
sender's view of the read index may be arbitrarily old.
-/

namespace NtSocks

namespace Packet

def dataMsg (p : Packet) : NtpMsg where
  msgType := .ntpData
  msgLen := UInt16.ofNat p.payload.length
  payload := p.payload

variable {p : Packet}

theorem message_singlePkg (h : p.type = .singlePkg) : p.message = some p.dataMsg := by
  have hlen : UInt16.ofNat (8 + p.payload.length) - 8 = UInt16.ofNat p.payload.length := by
    rw [UInt16.ofNat_add, UInt16.add_comm]
    exact UInt16.add_sub_cancel _ _
  rw [message, h, NtpacketType.message, hlen]
  rfl

theorem deliveries_singlePkg {port2conn : Port2Conn} {c : ConnPtr} (h : p.type = .singlePkg)
    (hc : port2conn p.connId = some c) : p.deliveries port2conn = [(c, p.dataMsg)] := by
  rw [deliveries, hc, message_singlePkg h]
  rfl

end Packet

/-- Data packets of connections that are known and ready, and steps that close none. -/
def ReadyTraffic (cfg : NtpConfig) (port2conn : Port2Conn) (conns : ConnPtr → NtbConn) :
    LinkAct → Prop
  | .send _ p =>
    p.type = .singlePkg ∧ 8 + p.payload.length ≤ cfg.dataPacketSize ∧
      ∃ c, port2conn p.connId = some c ∧ (conns c).state = .readyConn
  | .recv | .publish | .arrive => True
  | .activeClose _ => False

namespace LinkState

variable {cfg : NtpConfig} {port2conn : Port2Conn} {conns : ConnPtr → NtbConn} {x : SentPacket}
  {s : LinkState}

structure ReadyInv (cfg : NtpConfig) (port2conn : Port2Conn) (conns : ConnPtr → NtbConn)
    (s : LinkState) : Prop where
  represents : ∃ q, Represents cfg port2conn s q
  conns_eq : s.recv.conns = conns
  type_eq : ∀ x ∈ s.sent, x.packet.type = .singlePkg
  ready : ∀ x ∈ s.sent, ∃ c, port2conn x.packet.connId = some c ∧ (conns c).state = .readyConn
  handed_length : s.recv.handed.length = s.recv.recvPacketCounter

theorem readyInv_init (hcap : 0 < cfg.capacity) (conns : ConnPtr → NtbConn)
    (conn : Option ConnPtr) : ReadyInv cfg port2conn conns (init conns conn) where
  represents := ⟨_, represents_init hcap conns conn⟩
  conns_eq := rfl
  type_eq := by simp [init]
  ready := by simp [init]
  handed_length := rfl

theorem mem_sent_of_head (h : s.head = some x) : x ∈ s.sent :=
  List.mem_of_getElem? h

namespace ReadyInv

variable {s s' : LinkState} {a : LinkAct}

theorem follows (hzero : port2conn (createConnId 0 0) = none)
    (hfits : ∀ p : Packet, p.type = .singlePkg → 8 + p.payload.length ≤ cfg.dataPacketSize →
      p.PortsSet → p.Fits cfg) (h : ReadyInv cfg port2conn conns s)
    (ha : ReadyTraffic cfg port2conn conns a) : Follows cfg port2conn s a := by
  cases a with
  | send path p =>
    obtain ⟨htype, hlen, c, hc, -⟩ := ha
    exact hfits p htype hlen (Packet.portsSet_of_conn hzero hc)
  | recv =>
    intro x hx
    obtain ⟨c, hc, hready⟩ := h.ready x (mem_sent_of_head hx)
    exact ⟨c, hc, by rw [h.conns_eq, hready]⟩
  | publish | arrive | activeClose c => trivial

theorem step (h : ReadyInv cfg port2conn conns s) (ha : ReadyTraffic cfg port2conn conns a)
    (hfollows : Follows cfg port2conn s a) (hstep : s.step cfg port2conn a = some s') :
    ReadyInv cfg port2conn conns s' := by
  obtain ⟨q, hq⟩ := h.represents
  have hq' := hq.step hfollows hstep
  cases a with
  | send path p =>
    obtain ⟨e, -, rfl⟩ := Option.map_eq_some_iff.mp hstep
    refine ⟨hq', h.conns_eq, ?_, ?_, h.handed_length⟩
    · intro x hx
      rcases List.mem_append.mp hx with hx | hx
      · exact h.type_eq x hx
      · rw [List.mem_singleton.mp hx]
        exact ha.1
    · intro x hx
      rcases List.mem_append.mp hx with hx | hx
      · exact h.ready x hx
      · rw [List.mem_singleton.mp hx]
        exact ha.2.2
  | recv =>
    obtain ⟨r, hr, rfl⟩ := Option.map_eq_some_iff.mp hstep
    cases hhead : s.head with
    | none =>
      obtain rfl := Option.some.inj ((hq.recv_empty hhead).symm.trans hr)
      exact h
    | some x =>
      have hsingle := h.type_eq x (mem_sent_of_head hhead)
      obtain ⟨c, r', -, hr', hH⟩ := hq.recv_head hhead (hfollows x hhead)
      obtain rfl := Option.some.inj (hr'.symm.trans hr)
      rw [hsingle] at hH
      refine ⟨hq', hH.conns.trans h.conns_eq, h.type_eq, h.ready, ?_⟩
      rw [hH.handed, hH.recvPacketCounter, ← h.handed_length]
      exact List.length_append
  | publish =>
    obtain rfl := Option.some.inj hstep
    exact ⟨hq', h.conns_eq, h.type_eq, h.ready, h.handed_length⟩
  | arrive =>
    cases hu : s.recv.remoteCumWrites with
    | nil => simp [LinkState.step, hu] at hstep
    | cons u us =>
      simp only [LinkState.step, hu, Option.some.injEq] at hstep
      subst hstep
      exact ⟨hq', h.conns_eq, h.type_eq, h.ready, h.handed_length⟩
  | activeClose c => exact ha.elim

theorem run (hcap : 0 < cfg.capacity) (hzero : port2conn (createConnId 0 0) = none)
    (hfits : ∀ p : Packet, p.type = .singlePkg → 8 + p.payload.length ≤ cfg.dataPacketSize →
      p.PortsSet → p.Fits cfg) {conn : Option ConnPtr} {acts : List LinkAct}
    (hacts : ∀ a ∈ acts, ReadyTraffic cfg port2conn conns a)
    (hrun : Runs.run (LinkState.step cfg port2conn) (init conns conn) acts = some s) :
    ReadyInv cfg port2conn conns s :=
  Runs.invariant_of_forall_mem
    (fun _ _ _ h ha hstep => h.step ha (h.follows hzero hfits ha) hstep)
    (readyInv_init hcap conns conn) hacts hrun

theorem deliveries_map (h : ReadyInv cfg port2conn conns s) {sent : List SentPacket}
    (hsub : ∀ x ∈ sent, x ∈ s.sent) :
    (sent.flatMap fun x => x.packet.deliveries port2conn).map (fun d => (some d.1, d.2)) =
      sent.map fun x => (port2conn x.packet.connId, x.packet.dataMsg) := by
  induction sent with
  | nil => rfl
  | cons x sent ih =>
    obtain ⟨c, hc, -⟩ := h.ready x (hsub x List.mem_cons_self)
    have htype := h.type_eq x (hsub x List.mem_cons_self)
    rw [List.flatMap_cons, Packet.deliveries_singlePkg htype hc, List.singleton_append,
      List.map_cons, List.map_cons, hc, ih fun y hy => hsub y (List.mem_cons_of_mem x hy)]

end ReadyInv

theorem Represents.slot_ne_of_mem_drop {q : LaggedQueue SentPacket cfg.capacity}
    (h : Represents cfg port2conn s q) (hx : x ∈ s.sent.drop s.recv.recvPacketCounter) :
    x.slot ≠ s.send.curIndex := by
  rw [← h.sent, ← h.taken] at hx
  obtain ⟨i, hi⟩ := List.mem_iff_getElem?.mp hx
  rw [List.getElem?_drop] at hi
  rw [h.slots _ x hi, h.writeIndex]
  exact q.writeSlot_free _ (Nat.le_add_right _ _) (List.getElem?_eq_some_iff.mp hi).1

end LinkState

/-- In every state of every run with ready traffic, the messages handed over are those of the
first packets sent, in order, and the slot that the sender writes next belongs to none of the
packets that the loop has yet to handle. -/
theorem data_ring_fifo {cfg : NtpConfig} {port2conn : Port2Conn} {conns : ConnPtr → NtbConn}
    (hP : cfg.dataPacketSize = cfg.stride) (hcap : 2 ≤ cfg.capacity)
    (hzero : port2conn (createConnId 0 0) = none) (conn : Option ConnPtr) {acts : List LinkAct}
    {s : LinkState} (hacts : ∀ a ∈ acts, ReadyTraffic cfg port2conn conns a)
    (hrun : Runs.run (LinkState.step cfg port2conn) (LinkState.init conns conn) acts = some s) :
    s.recv.recvPacketCounter ≤ s.sent.length ∧ s.recv.handed.map (fun d => (some d.1, d.2)) =
        (s.sent.take s.recv.recvPacketCounter).map
          (fun x => (port2conn x.packet.connId, x.packet.dataMsg)) ∧
      ∀ x ∈ s.sent.drop s.recv.recvPacketCounter, x.slot ≠ s.send.curIndex := by
  have hfits : ∀ p : Packet, p.type = .singlePkg → 8 + p.payload.length ≤ cfg.dataPacketSize →
      p.PortsSet → p.Fits cfg := by
    intro p hp hlen hports
    exact ⟨hlen, by omega, by omega, by simp [hp], hports⟩
  have hinv := LinkState.ReadyInv.run (by omega) hzero hfits hacts hrun
  obtain ⟨q, hq⟩ := hinv.represents
  refine ⟨?_, ?_, fun x hx => hq.slot_ne_of_mem_drop hx⟩
  · rw [← hq.sent, ← hq.taken]
    exact q.taken_le
  · rw [hq.handed hP.le, hq.sent, hq.taken]
    exact hinv.deliveries_map fun x hx => List.mem_of_mem_take hx


def smallRing : NtpConfig where
  dataPacketSize := 16
  ntbPacketbitsSize := 4
  dataRingbufferSize := 64
  dataPacketSize_lt := by decide

def onePort : Port2Conn := fun id => if id = createConnId 2 1 then some 0 else none

def allReady : ConnPtr → NtbConn :=
  fun _ => { state := .readyConn, epoll := 0, sockid := 0, recvReadIndex := 0 }

def samplePacket (payload : List UInt8) : Packet where
  srcPort := 1
  dstPort := 2
  type := .singlePkg
  payload := payload

theorem data_ring_fifo_two_packets :
    ∃ s, Runs.run (LinkState.step smallRing onePort) (LinkState.init allReady none)
        [.send .ntpacketEnqueue (samplePacket [7, 8]), .send .ntbDataMsgEnqueue (samplePacket [9]),
          .recv, .publish, .arrive] = some s ∧
      s.recv.recvPacketCounter ≤ s.sent.length ∧
      s.recv.handed.map (fun d => (some d.1, d.2)) = (s.sent.take s.recv.recvPacketCounter).map
          (fun x => (onePort x.packet.connId, x.packet.dataMsg)) ∧
      ∀ x ∈ s.sent.drop s.recv.recvPacketCounter, x.slot ≠ s.send.curIndex := by
  have hs : Runs.run (LinkState.step smallRing onePort) (LinkState.init allReady none)
      [.send .ntpacketEnqueue (samplePacket [7, 8]), .send .ntbDataMsgEnqueue (samplePacket [9]),
        .recv, .publish, .arrive] = some _ := rfl
  refine ⟨_, hs, data_ring_fifo (by decide) (by decide) (by decide) none ?_ hs⟩
  simp only [List.forall_mem_cons, ReadyTraffic]
  exact ⟨⟨rfl, by decide, 0, by decide, rfl⟩, ⟨rfl, by decide, 0, by decide, rfl⟩, by simp⟩

end NtSocks
