import NtSocks.BacklogFifo
import NtSocks.Lib.BoundedQueue
import NtSocks.NtsRequests

/-!
# The backlog as the two processes share it

`nts_listen` hands its backlog to the monitor, which creates the ring, and then attaches to the ring
itself. Each side computes the mask of its handle from the size it was given: the monitor after
clamping the size to `nt_max_conn_num`, the library without. The monitor pushes with its mask, the
library pops with its own.
-/

namespace NtSocks.Ntm

def backlogSize (backlog : ℤ) : ℕ := if backlog ≤ 0 then 128 else backlog.toNat

def clampBacklog (backlog : ℤ) : ℤ := if backlog > ntMaxConnNum then ntMaxConnNum else backlog

structure SharedBacklog where
  ring : NtBacklogContext
  ntsMask : ℕ

/-- The backlog of `nts_listen`; a segment left from an earlier listener keeps its contents. -/
def listenBacklog (backlog : ℤ) (data : ℕ → NtBacklogSock) : SharedBacklog where
  ring := { backlogNtm (clampBacklog backlog) with data := data }
  ntsMask := backlogSize backlog - 1

namespace SharedBacklog

variable (s : SharedBacklog)

def ntmSlots : ℕ := s.ring.mask + 1

def ntsSlots : ℕ := s.ntsMask + 1

def perform : BoundedQueue.Op (ℕ × NtSocket) → BoundedQueue.Answer NtBacklogSock × SharedBacklog
  | .isFull => (.full s.ring.backlogIsFull, s)
  | .push (id, socket) =>
    match s.ring.backlogPush id socket with
    | none => (.pushed false, s)
    | some ring => (.pushed true, { s with ring := ring })
  | .pop =>
    match { s.ring with mask := s.ntsMask }.backlogPop with
    | none => (.popped none, s)
    | some (entry, ring) =>
      (.popped (some entry), { s with ring := { ring with mask := s.ring.mask } })

def queued (x : ℕ × NtSocket) : NtBacklogSock := NtBacklogContext.entryOf x.1 x.2

variable {s}

structure Queues (size : ℕ) (s : SharedBacklog) (q : List NtBacklogSock) : Prop where
  ntsMask : s.ntsMask = s.ring.mask
  period : ∀ x < size, NtBacklogContext.maskIncrement x s.ring.mask = Shmring.increment x size
  holds : (s.ring.asShmring size).Holds size q

namespace Queues

variable {size : ℕ} {q : List NtBacklogSock}

theorem maskIncrement_writeIndex (h : Queues size s q) :
    NtBacklogContext.maskIncrement s.ring.writeIndex s.ring.mask =
      Shmring.increment s.ring.writeIndex size :=
  h.period _ h.holds.writeIdx_lt

theorem full_iff (h : Queues size s q) :
    NtBacklogContext.maskIncrement s.ring.writeIndex s.ring.mask = s.ring.readIndex ↔
      size - 1 ≤ q.length := by
  rw [h.maskIncrement_writeIndex]
  have hlt := h.holds.length_lt
  refine (h.holds.full_iff).trans ?_
  omega

theorem isFull (h : Queues size s q) : s.ring.backlogIsFull = decide (size - 1 ≤ q.length) := by
  rw [NtBacklogContext.backlogIsFull, Bool.beq_eq_decide_eq]
  exact decide_eq_decide.mpr h.full_iff

theorem push (h : Queues size s q) (hroom : q.length < size - 1) (id : ℕ) (socket : NtSocket) :
    ∃ ring, s.ring.backlogPush id socket = some ring ∧
      Queues size { s with ring := ring } (q ++ [queued (id, socket)]) := by
  have hnotFull : ¬ NtBacklogContext.maskIncrement s.ring.writeIndex s.ring.mask =
      s.ring.readIndex := by
    rw [h.full_iff]
    omega
  refine ⟨_, if_neg hnotFull, h.ntsMask, h.period, ?_⟩
  obtain ⟨r, hr, hholds⟩ := h.holds.push (x := queued (id, socket)) (by omega)
  have hring : (s.ring.asShmring size).shmringPush (queued (id, socket)) = some _ :=
    if_neg (h.maskIncrement_writeIndex ▸ hnotFull)
  rw [hring] at hr
  cases hr
  rw [NtBacklogContext.asShmring]
  simp only [h.maskIncrement_writeIndex]
  exact hholds

theorem push_full (h : Queues size s q) (hfull : ¬ q.length < size - 1) (id : ℕ)
    (socket : NtSocket) : s.ring.backlogPush id socket = none :=
  if_pos (h.full_iff.mpr (by omega))

theorem pop_empty (h : Queues size s []) : { s.ring with mask := s.ntsMask }.backlogPop = none := by
  have hempty := h.holds.pop_empty
  rw [Shmring.shmringPop] at hempty
  split at hempty
  · exact if_pos ‹_›
  · cases hempty

theorem pop {entry : NtBacklogSock} (h : Queues size s (entry :: q)) :
    ∃ ring, { s.ring with mask := s.ntsMask }.backlogPop = some (entry, ring) ∧
      Queues size { s with ring := { ring with mask := s.ring.mask } } q := by
  obtain ⟨r, hr, hholds⟩ := h.holds.pop
  rw [Shmring.shmringPop] at hr
  split at hr
  · cases hr
  case isFalse hne =>
    obtain ⟨hentry, hring⟩ := Prod.mk.inj (Option.some.inj hr)
    refine ⟨{ s.ring with
        mask := s.ntsMask
        readIndex := NtBacklogContext.maskIncrement s.ring.readIndex s.ntsMask },
      (if_neg hne).trans (by rw [← hentry]; rfl), h.ntsMask, h.period, ?_⟩
    have hnext : NtBacklogContext.maskIncrement s.ring.readIndex s.ntsMask =
        Shmring.increment s.ring.readIndex size := by
      rw [h.ntsMask]
      exact h.period _ h.holds.readIdx_lt
    rw [← hring] at hholds
    rw [NtBacklogContext.asShmring]
    simp only [hnext]
    exact hholds

theorem perform (h : Queues size s q) (op : BoundedQueue.Op (ℕ × NtSocket)) :
    (s.perform op).1 = (BoundedQueue.perform queued (size - 1) q op).1 ∧
      Queues size (s.perform op).2 (BoundedQueue.perform queued (size - 1) q op).2 := by
  cases op with
  | isFull =>
    rw [SharedBacklog.perform, BoundedQueue.perform, h.isFull]
    exact ⟨rfl, h⟩
  | push x =>
    obtain ⟨id, socket⟩ := x
    rw [SharedBacklog.perform, BoundedQueue.perform]
    by_cases hroom : q.length < size - 1
    · obtain ⟨ring, hpush, hqueues⟩ := h.push hroom id socket
      rw [hpush, if_pos hroom]
      exact ⟨rfl, hqueues⟩
    · rw [h.push_full hroom, if_neg hroom]
      exact ⟨rfl, h⟩
  | pop =>
    cases q with
    | nil =>
      rw [SharedBacklog.perform, BoundedQueue.perform, h.pop_empty]
      exact ⟨rfl, h⟩
    | cons entry q =>
      obtain ⟨ring, hpop, hqueues⟩ := h.pop
      rw [SharedBacklog.perform, BoundedQueue.perform, hpop]
      exact ⟨rfl, hqueues⟩

end Queues

end SharedBacklog

open SharedBacklog

def zeroSocket : NtSocket where
  socktype := 0
  opts := 0
  state := .closed
  saddr := .zero
  epoll := 0

variable {backlog : ℤ}

theorem clampBacklog_of_le (h : backlog ≤ ntMaxConnNum) :
    clampBacklog backlog = backlog := if_neg (by omega)

theorem backlogSize_of_pos (h : 0 < backlog) :
    backlogSize backlog = backlog.toNat := if_neg (by omega)

theorem ntmSlots_listenBacklog (h : 0 < backlog) (data : ℕ → NtBacklogSock) :
    (listenBacklog backlog data).ntmSlots = (clampBacklog backlog).toNat := by
  have hpos : 0 < clampBacklog backlog := by
    rw [clampBacklog]
    split
    · exact Int.natCast_pos.mpr (Nat.succ_pos 65535)
    · exact h
  have hsize := backlogSize_of_pos hpos
  have hmask : (listenBacklog backlog data).ring.mask = backlogSize (clampBacklog backlog) - 1 :=
    rfl
  rw [SharedBacklog.ntmSlots, hmask, hsize]
  omega

theorem ntsSlots_listenBacklog (h : 0 < backlog) (data : ℕ → NtBacklogSock) :
    (listenBacklog backlog data).ntsSlots = backlog.toNat := by
  have hmask : (listenBacklog backlog data).ntsMask = backlogSize backlog - 1 := rfl
  rw [SharedBacklog.ntsSlots, hmask, backlogSize_of_pos h]
  omega

/-- For every size that the monitor does not clamp, the two sides are a queue: of one entry less
than the power of two at which the mask first lacks a bit. -/
theorem answers_listenBacklog (hpos : 0 < backlog) (hmax : backlog ≤ ntMaxConnNum) {t : ℕ}
    (hzero : (backlog.toNat - 1).testBit t = false)
    (hones : ∀ k < t, (backlog.toNat - 1).testBit k = true) (data : ℕ → NtBacklogSock)
    (ops : List (BoundedQueue.Op (ℕ × NtSocket))) :
    BoundedQueue.answers SharedBacklog.perform (listenBacklog backlog data) ops =
      BoundedQueue.answers (BoundedQueue.perform queued (2 ^ t - 1)) [] ops := by
  have hmask : (listenBacklog backlog data).ring.mask = backlog.toNat - 1 := by
    have hslots := ntmSlots_listenBacklog hpos data
    rw [clampBacklog_of_le hmax, SharedBacklog.ntmSlots] at hslots
    omega
  have hntsMask : (listenBacklog backlog data).ntsMask = backlog.toNat - 1 := by
    have hslots := ntsSlots_listenBacklog hpos data
    rw [SharedBacklog.ntsSlots] at hslots
    omega
  have hstart : Queues (2 ^ t) (listenBacklog backlog data) [] := by
    refine ⟨hntsMask.trans hmask.symm, ?_, Shmring.Holds.init (Nat.two_pow_pos t) data⟩
    intro x hx
    rw [hmask]
    exact NtBacklogContext.maskIncrement_eq_increment hzero hones hx
  exact BoundedQueue.answers_eq_of_simulation (fun s q op hq => hq.perform op) hstart ops

/-- The backlog is a queue of one entry less than asked for, and both sides count its slots alike,
exactly for the powers of two that the monitor does not clamp. -/
theorem listenBacklog_queue_iff (backlog : ℤ) (hb : 2 ≤ backlog) (data : ℕ → NtBacklogSock) :
    ((listenBacklog backlog data).ntmSlots = (listenBacklog backlog data).ntsSlots ∧
      ∀ ops, BoundedQueue.answers SharedBacklog.perform (listenBacklog backlog data) ops =
        BoundedQueue.answers
          (BoundedQueue.perform queued ((clampBacklog backlog).toNat - 1)) [] ops) ↔
      backlog ≤ ntMaxConnNum ∧ ∃ k : ℕ, backlog = 2 ^ k := by
  rw [ntmSlots_listenBacklog (by omega), ntsSlots_listenBacklog (by omega)]
  constructor
  · rintro ⟨hslots, hanswers⟩
    have hmax : backlog ≤ ntMaxConnNum := by
      by_contra hgt
      rw [clampBacklog, if_pos (by omega)] at hslots
      simp only [ntMaxConnNum] at hslots hgt
      omega
    obtain ⟨t, hzero, hones⟩ := NtBacklogContext.exists_lowest_zero_bit (backlog.toNat - 1)
    have hcapacity : 2 ^ t - 1 = (clampBacklog backlog).toNat - 1 := by
      apply BoundedQueue.capacity_eq_of_answers_eq (0, zeroSocket)
      intro ops
      rw [← answers_listenBacklog (by omega) hmax hzero hones data, hanswers]
    rw [clampBacklog_of_le hmax] at hcapacity
    have hpow := Nat.two_pow_pos t
    refine ⟨hmax, t, ?_⟩
    have hnat : backlog.toNat = 2 ^ t := by omega
    rw [← Int.toNat_of_nonneg (by omega : 0 ≤ backlog), hnat]
    exact Nat.cast_pow 2 t
  · rintro ⟨hmax, k, hk⟩
    have hnat : backlog.toNat = 2 ^ k := by
      rw [hk]
      exact Int.toNat_natCast (2 ^ k)
    rw [clampBacklog_of_le hmax]
    refine ⟨rfl, fun ops => ?_⟩
    rw [hnat]
    apply answers_listenBacklog (by omega) hmax
    · rw [hnat, Nat.testBit_two_pow_sub_one]
      exact decide_eq_false (lt_irrefl k)
    · intro j hj
      rw [hnat, Nat.testBit_two_pow_sub_one]
      exact decide_eq_true hj

/-- `listen(s, 3)` gives a queue that takes nothing, where a queue of two entries was asked for. -/
theorem listenBacklog_three_refuses :
    BoundedQueue.answers SharedBacklog.perform (listenBacklog 3 fun _ => queued (0, zeroSocket))
        [.push (1, zeroSocket)] = [.pushed false] ∧
      BoundedQueue.answers (BoundedQueue.perform queued 2) [] [.push (1, zeroSocket)] =
        [.pushed true] := by
  decide +kernel

theorem listenBacklog_four_queue :
    (4 : ℤ) ≤ ntMaxConnNum ∧ ∀ ops,
      BoundedQueue.answers SharedBacklog.perform
          (listenBacklog 4 fun _ => queued (0, zeroSocket)) ops =
        BoundedQueue.answers (BoundedQueue.perform queued 3) [] ops :=
  ⟨by decide, ((listenBacklog_queue_iff 4 (by decide) _).mpr ⟨by decide, 2, rfl⟩).2⟩

end NtSocks.Ntm
