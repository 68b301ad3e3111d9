import NtSocks.DataRingFifo

/-!
# Blocked senders

A sender is wedged when the loop has consumed every packet, every published read index has
arrived, and the next write index still equals the shadow. The loop publishes its index after
every 512th packet, so the shadow of an idle link is at most 511 packets old; a ring with more
slots than the update interval cannot wedge as long as packets stay clear of the length field of
the slot after theirs.
-/

namespace NtSocks

/-- Traffic of one sender that uses `ntpacket_enqueue`; read indices are published by the loop
itself only. -/
def LoopTraffic (cfg : NtpConfig) (port2conn : Port2Conn) (conns : ConnPtr → NtbConn)
    (a : LinkAct) : Prop :=
  ReadyTraffic cfg port2conn conns a ∧ a ≠ .publish ∧ ∀ p, a ≠ .send .ntbDataMsgEnqueue p

namespace LinkState

/-- One message was handed over for every packet sent, no published index is under way, and the
sender spins. -/
structure Wedged (cfg : NtpConfig) (s : LinkState) : Prop where
  consumed : s.recv.handed.length = s.sent.length
  arrived : s.recv.remoteCumWrites = []
  blocked : s.send.nextIndex cfg = s.send.localCumPtr

end LinkState

/-- No run of one sender and the receive loop reaches a wedged state. -/
def NoWedge (cfg : NtpConfig) : Prop :=
  ∀ (port2conn : Port2Conn) (conns : ConnPtr → NtbConn) (conn : Option ConnPtr)
    (acts : List LinkAct) (s : LinkState), port2conn (createConnId 0 0) = none →
    (∀ a ∈ acts, LoopTraffic cfg port2conn conns a) →
    Runs.run (LinkState.step cfg port2conn) (LinkState.init conns conn) acts = some s →
    ¬ s.Wedged cfg

namespace NtpConfig

theorem Shaped.header_le_stride {cfg : NtpConfig} (h : cfg.Shaped) (h8 : 8 ≤ cfg.dataPacketSize) :
    8 ≤ cfg.stride := by
  have hlt := h.packet_lt_two_strides
  rw [stride_eq] at hlt ⊢
  have hbits : 2 < cfg.ntbPacketbitsSize :=
    (Nat.pow_lt_pow_iff_right (by omega : 1 < 2)).mp (by omega : 2 ^ 2 < _)
  exact (Nat.pow_le_pow_iff_right (by omega : 1 < 2)).mpr (by omega : 3 ≤ _)

end NtpConfig

namespace LinkState

variable {cfg : NtpConfig} {port2conn : Port2Conn} {s : LinkState}
  {q : LaggedQueue SentPacket cfg.capacity}

theorem Represents.not_blocked_of_consumed (h : Represents cfg port2conn s q)
    (hcap : idxUpdateInterval < cfg.capacity) (hconsumed : q.taken = q.sent.length)
    (harrived : s.recv.remoteCumWrites = []) : s.send.nextIndex cfg ≠ s.send.localCumPtr := by
  rw [Ne, h.blocked_iff]
  have hnil : q.inFlight = [] := by
    rw [h.inFlight, List.map_eq_nil_iff] at harrived
    exact harrived
  refine q.not_full_of_lag hnil ?_
  have hlag := h.lag
  have hmod := Nat.div_add_mod q.taken idxUpdateInterval
  have hlt := Nat.mod_lt q.taken (by decide : 0 < idxUpdateInterval)
  omega

theorem Represents.not_blocked_of_no_packet (h : Represents cfg port2conn s q)
    (hcap : 2 ≤ cfg.capacity) (hP : cfg.dataPacketSize < 8) :
    s.send.nextIndex cfg ≠ s.send.localCumPtr := by
  have hnil : q.sent = [] := by
    rw [List.eq_nil_iff_forall_not_mem]
    intro x hx
    have := (h.fits x hx).len_le_packet
    omega
  have hshadow : q.shadow = 0 := by
    have := q.shadow_le_taken
    have := q.taken_le
    rw [hnil] at this
    simp only [List.length_nil] at this
    omega
  rw [Ne, h.blocked_iff, LaggedQueue.Full, hshadow, hnil, Nat.zero_mod, List.length_nil,
    Nat.zero_add, Nat.mod_eq_of_lt hcap]
  exact Nat.one_ne_zero

end LinkState

theorem noWedge_of_room {cfg : NtpConfig} (haccepted : cfg.Accepted) (hcap : 2 ≤ cfg.capacity)
    (h : cfg.dataPacketSize < 8 ∨
      idxUpdateInterval < cfg.capacity ∧ cfg.dataPacketSize ≤ cfg.stride + 4) : NoWedge cfg := by
  intro port2conn conns conn acts s hzero hacts hrun hwedged
  have hfits : ∀ p : Packet, p.type = .singlePkg → 8 + p.payload.length ≤ cfg.dataPacketSize →
      p.PortsSet → p.Fits cfg := by
    intro p hp hlen hports
    refine ⟨hlen, by omega, ?_, by simp [hp], hports⟩
    exact haccepted.shaped.header_le_stride (by omega)
  have hinv := LinkState.ReadyInv.run (by omega) hzero hfits (fun a ha => (hacts a ha).1) hrun
  obtain ⟨q, hq⟩ := hinv.represents
  rcases h with hP | ⟨hcap', -⟩
  · exact hq.not_blocked_of_no_packet hcap hP hwedged.blocked
  · refine hq.not_blocked_of_consumed hcap' ?_ hwedged.arrived hwedged.blocked
    rw [hq.taken, hq.sent, ← hinv.handed_length, hwedged.consumed]

end NtSocks
