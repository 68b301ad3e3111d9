import NtSocks.Lib.Pipeline
import NtSocks.Lib.RingLayout
import NtSocks.Lib.Runs
import NtSocks.NtpShm

/-!
# Safety of the message channel

The channel implements a pipeline of recycled blocks: the block with number `k` in the order of
allocation is node `k % n` of a pool of `n` nodes. The pipeline bounds the number of blocks in use
by the ring's capacity, so a pool with a few more nodes never runs dry and never lends a node that
is still in use.
-/

namespace NtSocks

def ProducerState.At (slotSize n : ℕ) {bound : ℕ} (q : Pipeline (List UInt8) bound) :
    ProducerState → Prop
  | .idle => q.acquired = q.sent
  | .allocated buf =>
    buf = q.sent % n * slotSize ∧ q.acquired = q.sent + 1 ∧ q.produced.length = q.sent
  | .filled buf => buf = q.sent % n * slotSize ∧ q.produced.length = q.sent + 1

def ConsumerState.At (slotSize n : ℕ) {bound : ℕ} (q : Pipeline (List UInt8) bound) :
    ConsumerState → Prop
  | .idle => q.taken = q.released
  | .fronted buf => q.taken = q.released ∧ q.taken < q.sent ∧ buf = q.taken % n * slotSize
  | .popped buf =>
    q.taken = q.released + 1 ∧ q.read = q.released ∧ buf = q.released % n * slotSize
  | .finished buf => q.read = q.released + 1 ∧ buf = q.released % n * slotSize

def NtpShmAct.acquires : NtpShmAct → ℕ
  | .alloc => 1
  | _ => 0

def NtpShmAct.releases : NtpShmAct → ℕ
  | .free => 1
  | _ => 0

namespace NtpShm

structure Represents (slotSize n cap : ℕ) (s : NtpShm) (q : Pipeline (List UInt8) (cap - 1)) :
    Prop where
  pool : s.ctx.mpHandler.Recycles slotSize n q.acquired q.released
  ring : s.ctx.ntsringHandle.Queues cap ((List.range q.sent).map (· % n)) q.taken
  producer : s.producer.At slotSize n q
  consumer : s.consumer.At slotSize n q
  produced : s.produced = q.produced
  consumed : s.consumed = q.produced.take q.read
  contents : ∀ k (h : k < q.produced.length), q.released ≤ k →
    s.shmMem.load (k % n * slotSize) slotSize = q.produced[k]

def Advances (slotSize n cap : ℕ) (s' : NtpShm) (q : Pipeline (List UInt8) (cap - 1))
    (acquired released : ℕ) : Prop :=
  ∃ q', Represents slotSize n cap s' q' ∧ q'.acquired = q.acquired + acquired ∧
    q'.released = q.released + released

namespace Represents

variable {slotSize n cap : ℕ} {s s' : NtpShm} {q : Pipeline (List UInt8) (cap - 1)}

theorem init (hn : 0 < n) (hcap : 0 < cap) (data : ℕ → ℕ) (mem : Memory) :
    Represents slotSize n cap (NtpShm.init (NtpShmContext.create slotSize n cap data) mem)
      (Pipeline.empty _ _) where
  pool := ShmMempool.Recycles.init hn
  ring := Shmring.Queues.init hcap data
  producer := rfl
  consumer := rfl
  produced := rfl
  consumed := rfl
  contents := fun k hk => absurd hk (Nat.not_lt_zero k)

theorem length_ring (q : Pipeline (List UInt8) (cap - 1)) :
    ((List.range q.sent).map (· % n)).length = q.sent := by
  rw [List.length_map, List.length_range]

theorem getElem_ring {k : ℕ} (hk : k < ((List.range q.sent).map (· % n)).length) :
    ((List.range q.sent).map (· % n))[k] = k % n := by
  rw [List.getElem_map, List.getElem_range]

theorem released_le_taken (q : Pipeline (List UInt8) (cap - 1)) : q.released ≤ q.taken :=
  q.released_le.trans q.read_le

theorem released_le_sent (q : Pipeline (List UInt8) (cap - 1)) : q.released ≤ q.sent :=
  (released_le_taken q).trans q.taken_le

section Step

variable (h : Represents slotSize n cap s q)
include h

theorem offset (hn : 0 < n) (k : ℕ) :
    s.ctx.mpHandler.shmOffsetMem (k % n) = some (k % n * slotSize) := by
  have hlt : k % n < n := Nat.mod_lt k hn
  rw [ShmMempool.shmOffsetMem, h.pool.totalCount, if_pos hlt, h.pool.shmOffset _ hlt]

theorem node (hslot : 0 < slotSize) (k : ℕ) :
    s.ctx.mpHandler.shmMpNodeByShmaddr (k % n * slotSize) = k % n := by
  rw [ShmMempool.shmMpNodeByShmaddr, h.pool.blockLen_eq, Nat.mul_div_cancel _ hslot]

theorem acquired_of_idle (hp : s.producer = .idle) : q.acquired = q.sent := by
  have hproducer := h.producer
  rwa [hp] at hproducer

theorem ntpacketAlloc (hn : cap + 2 ≤ n) (hp : s.producer = .idle) :
    ∃ mp, s.ctx.ntpShmNtpacketAlloc = some (q.sent % n * slotSize, ⟨mp, s.ctx.ntsringHandle⟩) ∧
      mp.Recycles slotSize n (q.acquired + 1) q.released := by
  have hidle := h.acquired_of_idle hp
  have hcap := h.ring.cap_pos
  have hroom := q.acquired_lt_of_idle hidle
  have hle := released_le_sent q
  have hlt : q.acquired % n < n := Nat.mod_lt _ (by omega)
  obtain ⟨mp, hmalloc, hpool⟩ := h.pool.malloc (by omega) (by omega)
  refine ⟨mp, ?_, hpool⟩
  rw [← hidle]
  simp only [NtpShmContext.ntpShmNtpacketAlloc, hmalloc, Option.bind_some, hpool.nodeIdx _ hlt,
    ShmMempool.shmOffsetMem, hpool.totalCount, if_pos hlt, hpool.shmOffset _ hlt, Option.map_some]

theorem alloc (hn : cap + 2 ≤ n)
    (hstep : s.step .alloc = some s') : s'.Advances slotSize n cap q 1 0 := by
  cases hp : s.producer with
  | idle =>
    have hidle := h.acquired_of_idle hp
    obtain ⟨mp, halloc, hpool⟩ := h.ntpacketAlloc hn hp
    simp only [NtpShm.step, hp, halloc, Option.map_some, Option.some.injEq] at hstep
    subst hstep
    have hfilled : q.produced.length = q.sent := by
      have h₁ := q.filled_le
      have h₂ := q.sent_le
      omega
    exact ⟨q.acquire hidle, { h with
      pool := hpool
      producer := ⟨rfl, congrArg (· + 1) hidle, hfilled⟩ }, rfl, rfl⟩
  | allocated buf | filled buf => simp [NtpShm.step, hp] at hstep

theorem load_store_other (hn : cap + 2 ≤ n) {bytes : List UInt8}
    (hbytes : bytes.length ≤ slotSize) {k : ℕ} (hk : q.released ≤ k) (hsent : k < q.sent) :
    (s.shmMem.store (q.sent % n * slotSize) bytes).load (k % n * slotSize) slotSize =
      s.shmMem.load (k % n * slotSize) slotSize := by
  have hcap := h.ring.cap_pos
  have h₂ := q.sent_le_bound
  have h₃ := q.taken_le_released
  have hne : k % n ≠ q.sent % n := RingIndex.mod_ne_of_window hsent (by omega)
  have hfar := RingLayout.slot_separated slotSize hne
  exact Memory.load_store_of_disjoint _ _ _ _ _ (by omega)

theorem fill (hn : cap + 2 ≤ n) {bytes : List UInt8}
    (hstep : s.step (.fill bytes) = some s') : s'.Advances slotSize n cap q 0 0 := by
  have hproducer := h.producer
  cases hp : s.producer with
  | idle | filled buf => simp [NtpShm.step, hp] at hstep
  | allocated buf =>
    rw [hp] at hproducer
    obtain ⟨rfl, hacquired, hfilled⟩ := hproducer
    simp only [NtpShm.step, hp, Option.ite_none_right_eq_some, Option.some.injEq,
      h.pool.blockLen_eq] at hstep
    obtain ⟨hbytes, rfl⟩ := hstep
    refine ⟨q.fill ((s.shmMem.store (q.sent % n * slotSize) bytes).load (q.sent % n * slotSize)
      slotSize) (by omega), ?_, rfl, rfl⟩
    exact { h with
      producer := ⟨rfl, by simp [Pipeline.fill, hfilled]⟩
      produced := congrArg (· ++ [_]) h.produced
      consumed := by
        have hread : q.read ≤ q.produced.length := by
          have h₁ := q.read_le
          have h₂ := q.taken_le
          omega
        change s.consumed = (q.produced ++ [_]).take q.read
        rw [h.consumed, List.take_append_of_le_length hread]
      contents := by
        intro k hk hle
        change k < (q.produced ++ [_]).length at hk
        rw [List.length_append, List.length_singleton, hfilled] at hk
        change _ = (q.produced ++ [_])[k]
        by_cases hlast : k = q.sent
        · subst hlast
          rw [List.getElem_append_right (by omega)]
          simp only [hfilled, Nat.sub_self, List.getElem_singleton]
        · rw [List.getElem_append_left (by omega), ← h.contents k (by omega) hle]
          exact h.load_store_other hn hbytes hle (by omega) }

theorem send (hn : 0 < n) (hslot : 0 < slotSize)
    (hstep : s.step .send = some s') : s'.Advances slotSize n cap q 0 0 := by
  have hproducer := h.producer
  cases hp : s.producer with
  | idle | allocated buf => simp [NtpShm.step, hp] at hstep
  | filled buf =>
    rw [hp] at hproducer
    obtain ⟨rfl, hfilled⟩ := hproducer
    have hidx : (s.ctx.mpHandler.nodes (q.sent % n)).nodeIdx = q.sent % n :=
      h.pool.nodeIdx _ (Nat.mod_lt _ hn)
    have hlength := length_ring (n := n) q
    by_cases hfull : q.sent + 1 = q.taken + cap
    · have hpush : s.ctx.ntpShmSendAttempt (q.sent % n * slotSize) = none := by
        rw [NtpShmContext.ntpShmSendAttempt, h.node hslot, hidx,
          h.ring.push_full (by rw [hlength]; exact hfull), Option.map_none]
      simp only [NtpShm.step, hp, hpush, Option.some.injEq] at hstep
      subst hstep
      exact ⟨q, h, rfl, rfl⟩
    · have hlt := h.ring.length_lt
      rw [hlength] at hlt
      obtain ⟨ring, hring, hqueues⟩ := h.ring.push (x := q.sent % n) (by rw [hlength]; omega)
      have hpush : s.ctx.ntpShmSendAttempt (q.sent % n * slotSize) =
          some ⟨s.ctx.mpHandler, ring⟩ := by
        rw [NtpShmContext.ntpShmSendAttempt, h.node hslot, hidx, hring, Option.map_some]
      simp only [NtpShm.step, hp, hpush, Option.some.injEq] at hstep
      subst hstep
      have hidle : q.acquired = q.sent + 1 := by
        have h₁ := q.acquired_le
        have h₂ := q.filled_le
        omega
      exact ⟨q.send (by omega) (by omega), { h with
        ring := by
          change ring.Queues cap ((List.range (q.sent + 1)).map (· % n)) q.taken
          rw [List.range_succ, List.map_append]
          exact hqueues
        producer := hidle
        consumer := by
          have hconsumer := h.consumer
          cases hc : s.consumer with
          | fronted buf =>
            rw [hc] at hconsumer
            exact ⟨hconsumer.1, Nat.lt_succ_of_lt hconsumer.2.1, hconsumer.2.2⟩
          | idle | popped buf | finished buf => rwa [hc] at hconsumer }, rfl, rfl⟩

theorem popped (hidle : q.taken = q.released) (hlt : q.taken < q.sent) {ring : Shmring ℕ}
    (hring : ring.Queues cap ((List.range q.sent).map (· % n)) (q.taken + 1)) :
    Represents slotSize n cap
      { s with
        ctx := ⟨s.ctx.mpHandler, ring⟩
        consumer := .popped (q.taken % n * slotSize) } (q.take hlt hidle) := by
  have hread : q.read = q.released := by
    have h₁ := q.read_le
    have h₂ := q.released_le
    omega
  exact { h with
    ring := hring
    consumer := ⟨congrArg (· + 1) hidle, hread, by rw [hidle]; rfl⟩ }

theorem recv (hn : 0 < n) (hstep : s.step .recv = some s') : s'.Advances slotSize n cap q 0 0 := by
  have hconsumer := h.consumer
  cases hc : s.consumer with
  | fronted buf | popped buf | finished buf => simp [NtpShm.step, hc] at hstep
  | idle =>
    have hidle : q.taken = q.released := by rwa [hc] at hconsumer
    have hlength := length_ring (n := n) q
    obtain hempty | hlt := q.taken_le.eq_or_lt
    · have hrecv : s.ctx.ntpShmRecv = none := by
        simp only [NtpShmContext.ntpShmRecv, Nat.add_comm 1, NtpShmContext.popRetry_eq,
          h.ring.pop_empty (hlength.trans hempty.symm), Option.bind_none]
      simp only [NtpShm.step, hc, hrecv, Option.some.injEq] at hstep
      subst hstep
      exact ⟨q, h, rfl, rfl⟩
    · obtain ⟨ring, hpop, hring⟩ := h.ring.pop (hlt.trans_eq hlength.symm)
      have hrecv : s.ctx.ntpShmRecv = some (q.taken % n * slotSize, ⟨s.ctx.mpHandler, ring⟩) := by
        simp only [NtpShmContext.ntpShmRecv, Nat.add_comm 1, NtpShmContext.popRetry_eq, hpop,
          Option.bind_some, getElem_ring, h.offset hn, Option.map_some]
      simp only [NtpShm.step, hc, hrecv, Option.some.injEq] at hstep
      subst hstep
      exact ⟨_, h.popped hidle hlt hring, rfl, rfl⟩

theorem front (hn : 0 < n) (hstep : s.step .front = some s') :
    s'.Advances slotSize n cap q 0 0 := by
  have hconsumer := h.consumer
  cases hc : s.consumer with
  | fronted buf | popped buf | finished buf => simp [NtpShm.step, hc] at hstep
  | idle =>
    have hidle : q.taken = q.released := by rwa [hc] at hconsumer
    have hlength := length_ring (n := n) q
    obtain hempty | hlt := q.taken_le.eq_or_lt
    · have hfront : s.ctx.ntpShmFront = none := by
        rw [NtpShmContext.ntpShmFront, h.ring.front_empty (hlength.trans hempty.symm),
          Option.bind_none]
      simp only [NtpShm.step, hc, hfront, Option.some.injEq] at hstep
      subst hstep
      exact ⟨q, h, rfl, rfl⟩
    · have hfront : s.ctx.ntpShmFront = some (q.taken % n * slotSize) := by
        rw [NtpShmContext.ntpShmFront, h.ring.front (hlt.trans_eq hlength.symm), Option.bind_some,
          getElem_ring, h.offset hn]
      simp only [NtpShm.step, hc, hfront, Option.some.injEq] at hstep
      subst hstep
      exact ⟨q, { h with consumer := ⟨hidle, hlt, rfl⟩ }, rfl, rfl⟩

theorem pop (hstep : s.step .pop = some s') : s'.Advances slotSize n cap q 0 0 := by
  have hconsumer := h.consumer
  cases hc : s.consumer with
  | idle | popped buf | finished buf => simp [NtpShm.step, hc] at hstep
  | fronted buf =>
    rw [hc] at hconsumer
    obtain ⟨hidle, hlt, rfl⟩ := hconsumer
    obtain ⟨ring, hpop, hring⟩ := h.ring.plainPop (hlt.trans_eq (length_ring (n := n) q).symm)
    have hctx : s.ctx.ntpShmPop = some ⟨s.ctx.mpHandler, ring⟩ := by
      rw [NtpShmContext.ntpShmPop, hpop, Option.map_some]
    simp only [NtpShm.step, hc, hctx, Option.getD_some, Option.some.injEq] at hstep
    subst hstep
    exact ⟨_, h.popped hidle hlt hring, rfl, rfl⟩

theorem read (hstep : s.step .read = some s') : s'.Advances slotSize n cap q 0 0 := by
  have hconsumer := h.consumer
  cases hc : s.consumer with
  | idle | fronted buf | finished buf => simp [NtpShm.step, hc] at hstep
  | popped buf =>
    rw [hc] at hconsumer
    obtain ⟨htaken, hread, rfl⟩ := hconsumer
    simp only [NtpShm.step, hc, Option.some.injEq] at hstep
    subst hstep
    have hlt : q.read < q.produced.length := by
      have h₁ := q.taken_le
      have h₂ := q.sent_le
      omega
    have hblock : s.block (q.released % n * slotSize) = q.produced[q.read] := by
      rw [NtpShm.block, h.pool.blockLen_eq]
      simp only [hread]
      exact h.contents q.released (hread ▸ hlt) le_rfl
    exact ⟨q.readNext (by omega), { h with
      consumer := ⟨congrArg (· + 1) hread, rfl⟩
      consumed := by
        change s.consumed ++ [s.block _] = q.produced.take (q.read + 1)
        rw [h.consumed, hblock, List.take_succ_eq_append_getElem hlt] }, rfl, rfl⟩

theorem free (hn : 0 < n) (hslot : 0 < slotSize)
    (hstep : s.step .free = some s') : s'.Advances slotSize n cap q 0 1 := by
  have hconsumer := h.consumer
  cases hc : s.consumer with
  | idle | fronted buf | popped buf => simp [NtpShm.step, hc] at hstep
  | finished buf =>
    rw [hc] at hconsumer
    obtain ⟨hread, rfl⟩ := hconsumer
    simp only [NtpShm.step, hc, NtpShmContext.ntpShmNtpacketFree, h.node hslot,
      Option.some.injEq] at hstep
    subst hstep
    have hidle : q.taken = q.released + 1 := by
      have h₁ := q.read_le
      have h₂ := q.taken_le_released
      omega
    exact ⟨q.release (by omega), { h with
      pool := h.pool.free hn
      consumer := hidle
      contents := fun k hk hle => h.contents k hk (Nat.le_of_succ_le hle) }, rfl, rfl⟩

theorem step (hn : cap + 2 ≤ n) (hslot : 0 < slotSize) {a : NtpShmAct} (hstep : s.step a = some s')
    : s'.Advances slotSize n cap q a.acquires a.releases := by
  have hpos : 0 < n := by omega
  cases a with
  | alloc => exact h.alloc hn hstep
  | fill bytes => exact h.fill hn hstep
  | send => exact h.send hpos hslot hstep
  | recv => exact h.recv hpos hstep
  | front => exact h.front hpos hstep
  | pop => exact h.pop hstep
  | read => exact h.read hstep
  | free => exact h.free hpos hslot hstep

theorem producer_held (hslot : 0 < slotSize) :
    s.producer.held.map s.ctx.mpHandler.shmMpNodeByShmaddr =
      (List.range' q.sent (q.acquired - q.sent)).map (· % n) := by
  have hproducer := h.producer
  have h₁ := q.acquired_le
  have h₂ := q.filled_le
  cases hp : s.producer with
  | idle =>
    rw [h.acquired_of_idle hp, Nat.sub_self]
    rfl
  | allocated buf | filled buf =>
    rw [hp, ProducerState.At] at hproducer
    obtain ⟨rfl, hproducer⟩ := hproducer
    have hacquired : q.acquired = q.sent + 1 := by omega
    rw [hacquired, Nat.add_sub_cancel_left]
    exact congrArg (fun k => [k]) (h.node hslot q.sent)

theorem consumer_held (hslot : 0 < slotSize) :
    s.consumer.held.map s.ctx.mpHandler.shmMpNodeByShmaddr =
      (List.range' q.released (q.taken - q.released)).map (· % n) := by
  have hconsumer := h.consumer
  have h₁ := q.read_le
  have h₂ := q.taken_le_released
  cases hc : s.consumer with
  | idle | fronted buf =>
    rw [hc, ConsumerState.At] at hconsumer
    have hidle : q.taken = q.released := by omega
    rw [hidle, Nat.sub_self]
    rfl
  | popped buf | finished buf =>
    rw [hc, ConsumerState.At] at hconsumer
    obtain ⟨htaken, rfl⟩ : q.taken = q.released + 1 ∧ buf = q.released % n * slotSize := by omega
    rw [htaken, Nat.add_sub_cancel_left]
    exact congrArg (fun k => [k]) (h.node hslot q.released)

theorem heldBlocks_eq (hslot : 0 < slotSize) : s.heldBlocks = q.inUse.map (· % n) := by
  have hring : s.ctx.ntsringHandle.contents =
      (List.range' q.taken (q.sent - q.taken)).map (· % n) := by
    rw [h.ring.contents_eq, ← List.map_drop, List.range_eq_range', List.drop_range', Nat.zero_add,
      Nat.mul_one]
  rw [NtpShm.heldBlocks, h.producer_held hslot, hring, h.consumer_held hslot, Pipeline.inUse,
    List.map_append, List.map_append]

end Step

theorem run (hn : cap + 2 ≤ n) (hslot : 0 < slotSize) (hcap : 0 < cap) (data : ℕ → ℕ) (mem : Memory)
    {acts : List NtpShmAct}
    (hrun : Runs.run NtpShm.step (NtpShm.init (NtpShmContext.create slotSize n cap data) mem) acts =
      some s) : ∃ q, Represents slotSize n cap s q := by
  refine Runs.invariant (I := fun s => ∃ q, Represents slotSize n cap s q) ?_
    ⟨_, Represents.init (by omega) hcap data mem⟩ hrun
  rintro s a s' ⟨q, h⟩ hs
  obtain ⟨q', h', -, -⟩ := h.step hn hslot hs
  exact ⟨q', h'⟩

end Represents

end NtpShm

/-- The channel is safe without locks. In every state that the producer and the consumer can reach,
in whatever order their calls interleave: the producer gets a block when it asks for one, no block
is held twice, and what the consumer has read is the beginning of what was produced. -/
theorem ntp_shm_safe {slotSize : ℕ} (hslot : 0 < slotSize) (data : ℕ → ℕ) (mem : Memory)
    {acts : List NtpShmAct} {s : NtpShm}
    (hrun : Runs.run NtpShm.step (NtpShm.init (NtpShmContext.ntpShmAccept slotSize data) mem) acts =
      some s) :
    (s.producer = .idle → ∃ buf ctx, s.ctx.ntpShmNtpacketAlloc = some (buf, ctx)) ∧
      s.heldBlocks.Nodup ∧ s.consumed <+: s.produced := by
  have hn : defaultMaxNumNtpMsg + 2 ≤ defaultMaxNumNtpMsg + 32 := by omega
  obtain ⟨q, h⟩ := NtpShm.Represents.run hn hslot (by decide) data mem hrun
  refine ⟨?_, ?_, ?_⟩
  · intro hidle
    obtain ⟨mp, halloc, -⟩ := h.ntpacketAlloc hn hidle
    exact ⟨_, _, halloc⟩
  · rw [h.heldBlocks_eq hslot]
    exact q.nodup_inUse_mod (by decide)
  · rw [h.consumed, h.produced]
    exact List.take_prefix _ _

theorem ntp_shm_safe_one_message :
    ∃ s, Runs.run NtpShm.step (NtpShm.init (NtpShmContext.ntpShmAccept 16 fun _ => 0) fun _ => 0)
        [.alloc, .fill [7], .send, .alloc, .front, .pop, .read, .free] = some s ∧
      (s.producer = .idle → ∃ buf ctx, s.ctx.ntpShmNtpacketAlloc = some (buf, ctx)) ∧
      s.heldBlocks.Nodup ∧ s.consumed <+: s.produced := by
  have hsome : (Runs.run NtpShm.step
      (NtpShm.init (NtpShmContext.ntpShmAccept 16 fun _ => 0) fun _ => 0)
      [.alloc, .fill [7], .send, .alloc, .front, .pop, .read, .free]).isSome = true := by
    decide +kernel
  obtain ⟨s, hs⟩ := Option.isSome_iff_exists.mp hsome
  exact ⟨s, hs, ntp_shm_safe (by decide) _ _ hs⟩

end NtSocks
