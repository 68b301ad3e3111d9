import Mathlib.Data.List.Range
import Mathlib.Tactic

/-!
# A bounded pipeline of recycled blocks

A producer acquires a block, fills it and sends it through a queue of bounded length; a consumer
takes it, reads it and releases it. Blocks are numbered in the order in which they are acquired,
and since the queue is a FIFO they are taken, read and released in that order too. A pool of `n`
physical blocks that hands out number `k` as block `k % n` therefore never lends one block twice,
as long as `n` covers the blocks in use.
-/

/-- The counters of a pipeline: `acquired`, `sent`, `taken`, `read` and `released` count the blocks
that have passed the respective stage; `produced` lists what was filled in. -/
structure Pipeline (α : Type*) (bound : ℕ) where
  produced : List α
  acquired : ℕ
  sent : ℕ
  taken : ℕ
  read : ℕ
  released : ℕ
  filled_le : produced.length ≤ acquired
  acquired_le : acquired ≤ sent + 1
  sent_le : sent ≤ produced.length
  taken_le : taken ≤ sent
  sent_le_bound : sent ≤ taken + bound
  read_le : read ≤ taken
  released_le : released ≤ read
  taken_le_released : taken ≤ released + 1

namespace Pipeline

variable {α : Type*} {bound : ℕ}

def empty (α : Type*) (bound : ℕ) : Pipeline α bound where
  produced := []
  acquired := 0
  sent := 0
  taken := 0
  read := 0
  released := 0
  filled_le := le_rfl
  acquired_le := Nat.zero_le _
  sent_le := le_rfl
  taken_le := le_rfl
  sent_le_bound := Nat.zero_le _
  read_le := le_rfl
  released_le := le_rfl
  taken_le_released := Nat.zero_le _

variable (q : Pipeline α bound)

def acquire (h : q.acquired = q.sent) : Pipeline α bound :=
  { q with
    acquired := q.acquired + 1
    filled_le := q.filled_le.trans (Nat.le_succ _)
    acquired_le := by omega }

def fill (x : α) (h : q.produced.length < q.acquired) : Pipeline α bound :=
  { q with
    produced := q.produced ++ [x]
    filled_le := by rw [List.length_append]; exact h
    sent_le := by rw [List.length_append]; exact q.sent_le.trans (Nat.le_add_right _ _) }

def send (h : q.sent < q.produced.length) (hroom : q.sent < q.taken + bound) : Pipeline α bound :=
  { q with
    sent := q.sent + 1
    acquired_le := q.acquired_le.trans (Nat.le_succ _)
    sent_le := h
    taken_le := q.taken_le.trans (Nat.le_succ _)
    sent_le_bound := hroom }

def take (h : q.taken < q.sent) (hidle : q.taken = q.released) : Pipeline α bound :=
  { q with
    taken := q.taken + 1
    taken_le := h
    sent_le_bound := by have := q.sent_le_bound; omega
    read_le := q.read_le.trans (Nat.le_succ _)
    taken_le_released := by omega }

def readNext (h : q.read < q.taken) : Pipeline α bound :=
  { q with
    read := q.read + 1
    read_le := h
    released_le := q.released_le.trans (Nat.le_succ _) }

def release (h : q.released < q.read) : Pipeline α bound :=
  { q with
    released := q.released + 1
    released_le := h
    taken_le_released := q.taken_le_released.trans (Nat.le_succ _) }

/-- Between acquisition and release there are at most two blocks more than the queue holds. -/
theorem acquired_le_released : q.acquired ≤ q.released + bound + 2 := by
  have h₁ := q.acquired_le
  have h₂ := q.sent_le_bound
  have h₃ := q.taken_le_released
  omega

theorem acquired_lt_of_idle (h : q.acquired = q.sent) : q.acquired < q.released + bound + 2 := by
  have h₂ := q.sent_le_bound
  have h₃ := q.taken_le_released
  omega

/-- The numbers of the blocks in use: with the producer, in the queue, with the consumer. -/
def inUse : List ℕ :=
  List.range' q.sent (q.acquired - q.sent) ++
    (List.range' q.taken (q.sent - q.taken) ++ List.range' q.released (q.taken - q.released))

theorem released_le_acquired : q.released ≤ q.acquired := by
  have h₁ := q.released_le
  have h₂ := q.read_le
  have h₃ := q.taken_le
  have h₄ := q.sent_le
  have h₅ := q.filled_le
  omega

theorem inUse_perm : q.inUse.Perm (List.range' q.released (q.acquired - q.released)) := by
  have h₁ := q.released_le
  have h₂ := q.read_le
  have h₃ := q.taken_le
  have h₄ := q.sent_le
  have h₅ := q.filled_le
  have htaken : List.range' q.released (q.taken - q.released) ++
      List.range' q.taken (q.sent - q.taken) = List.range' q.released (q.sent - q.released) := by
    rw [show q.taken = q.released + (q.taken - q.released) by omega, Nat.add_sub_cancel_left,
      List.range'_append_1]
    congr 1
    omega
  have hsent : List.range' q.released (q.sent - q.released) ++
      List.range' q.sent (q.acquired - q.sent) =
        List.range' q.released (q.acquired - q.released) := by
    rw [show q.sent = q.released + (q.sent - q.released) by omega, Nat.add_sub_cancel_left,
      List.range'_append_1]
    congr 1
    omega
  rw [← hsent, ← htaken]
  exact List.perm_append_comm.trans (List.perm_append_comm.append_right _)

theorem mem_inUse {k : ℕ} (h : k ∈ q.inUse) : q.released ≤ k ∧ k < q.acquired := by
  have hle := q.released_le_acquired
  rw [q.inUse_perm.mem_iff, List.mem_range'_1] at h
  omega

theorem nodup_inUse : q.inUse.Nodup :=
  q.inUse_perm.nodup_iff.mpr (List.nodup_range' 1 Nat.one_pos)

theorem nodup_inUse_mod {n : ℕ} (hn : bound + 2 ≤ n) : (q.inUse.map (· % n)).Nodup := by
  apply List.Nodup.map_on _ q.nodup_inUse
  intro k hk l hl heq
  obtain ⟨hk₁, hk₂⟩ := q.mem_inUse hk
  obtain ⟨hl₁, hl₂⟩ := q.mem_inUse hl
  have hwindow := q.acquired_le_released
  rcases Nat.le_total k l with hle | hle
  · have hdvd : n ∣ l - k := (Nat.modEq_iff_dvd' hle).mp heq
    have hzero := Nat.eq_zero_of_dvd_of_lt hdvd (by omega)
    omega
  · have hdvd : n ∣ k - l := (Nat.modEq_iff_dvd' hle).mp heq.symm
    have hzero := Nat.eq_zero_of_dvd_of_lt hdvd (by omega)
    omega

end Pipeline
