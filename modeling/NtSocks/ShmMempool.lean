import Mathlib.Logic.Function.Basic
import Mathlib.Tactic

/-!
# The shared memory pool

The free blocks of a pool form a list threaded through the block table by index. Allocation moves
the list header forward and does not look at the tail; freeing links the block behind the tail and
does not terminate the list there. `Recycles` describes a pool that has lent and taken back its
blocks in order: apart from the end of the list before the first block comes back, every link leads
to the next block of the table around a cycle.
-/

namespace NtSocks

open Function

/-- A node index of `-1` is `none`. -/
structure ShmMempoolNode where
  nodeIdx : ℕ
  shmOffset : ℕ
  nextNodeIdx : Option ℕ
  deriving DecidableEq, Repr

structure ShmMempool where
  totalCount : ℕ
  blockLen : ℕ
  freeHeaderIdx : Option ℕ
  freeTailIdx : Option ℕ
  nodes : ℕ → ShmMempoolNode

namespace ShmMempool

variable (mp : ShmMempool)

def linkNode (idx : ℕ) (next : Option ℕ) : ℕ → ShmMempoolNode :=
  let node := mp.nodes idx
  update mp.nodes idx { node with nextNodeIdx := next }

def initNode (i shmOffset : ℕ) : ShmMempool :=
  let mp := { mp with
    nodes := update mp.nodes i
      { nodeIdx := i, shmOffset := shmOffset, nextNodeIdx := none } }
  if i = 0 then { mp with freeHeaderIdx := some i, freeTailIdx := some i }
  else { mp with nodes := mp.linkNode (i - 1) (some i), freeTailIdx := some i }

def initNodes : ℕ → ShmMempool × ℕ
  | 0 => (mp, 0)
  | i + 1 =>
    let (mp, shmOffset) := initNodes i
    (mp.initNode i shmOffset, shmOffset + mp.blockLen)

def shmMpInit (blockLen blockCount : ℕ) : ShmMempool :=
  (initNodes
    { totalCount := blockCount
      blockLen := blockLen
      freeHeaderIdx := none
      freeTailIdx := none
      nodes := fun _ => { nodeIdx := 0, shmOffset := 0, nextNodeIdx := some 0 } } blockCount).1

/-- The node handed out, by its index in the table; `none` when the free list is empty. -/
def shmMpMalloc : Option (ℕ × ShmMempool) :=
  mp.freeHeaderIdx.map fun nodeIdx =>
    (nodeIdx, { mp with freeHeaderIdx := (mp.nodes nodeIdx).nextNodeIdx })

/-- An address is counted from the beginning of the shared memory segment. -/
def shmMpNodeByShmaddr (shmaddr : ℕ) : ℕ := shmaddr / mp.blockLen

/-- `none` is the failed assertion on the index. -/
def shmOffsetMem (nodeIdx : ℕ) : Option ℕ :=
  if nodeIdx < mp.totalCount then some (mp.nodes nodeIdx).shmOffset else none

def shmMpFree (node : ℕ) : ShmMempool :=
  let nodeIdx := (mp.nodes node).nodeIdx
  match mp.freeTailIdx with
  | some tail => { mp with nodes := mp.linkNode tail (some nodeIdx), freeTailIdx := some nodeIdx }
  | none =>
    { mp with
      nodes := mp.linkNode node none
      freeTailIdx := some nodeIdx
      freeHeaderIdx := some nodeIdx }

variable {mp} {idx i : ℕ} {next : Option ℕ}

@[simp] theorem linkNode_nodeIdx : (mp.linkNode idx next i).nodeIdx = (mp.nodes i).nodeIdx := by
  by_cases h : i = idx
  · simp [linkNode, h]
  · simp [linkNode, h]

@[simp] theorem linkNode_shmOffset :
    (mp.linkNode idx next i).shmOffset = (mp.nodes i).shmOffset := by
  by_cases h : i = idx
  · simp [linkNode, h]
  · simp [linkNode, h]

theorem linkNode_nextNodeIdx :
    (mp.linkNode idx next i).nextNodeIdx = if i = idx then next else (mp.nodes i).nextNodeIdx := by
  by_cases h : i = idx
  · simp [linkNode, h]
  · simp [linkNode, h]

structure Chained (mp : ShmMempool) (totalCount blockLen n : ℕ) : Prop where
  totalCount_eq : mp.totalCount = totalCount
  blockLen_eq : mp.blockLen = blockLen
  header : mp.freeHeaderIdx = if n = 0 then none else some 0
  tail : mp.freeTailIdx = if n = 0 then none else some (n - 1)
  nodeIdx : ∀ j < n, (mp.nodes j).nodeIdx = j
  shmOffset : ∀ j < n, (mp.nodes j).shmOffset = j * blockLen
  nextNodeIdx : ∀ j < n, (mp.nodes j).nextNodeIdx = if j + 1 < n then some (j + 1) else none

theorem Chained.initNode {totalCount blockLen n : ℕ} (h : Chained mp totalCount blockLen n) :
    Chained (mp.initNode n (n * blockLen)) totalCount blockLen (n + 1) := by
  cases n with
  | zero =>
    refine ⟨h.totalCount_eq, h.blockLen_eq, rfl, rfl, ?_, ?_, ?_⟩
    all_goals
      intro j hj
      obtain rfl : j = 0 := by omega
      simp [ShmMempool.initNode]
  | succ n =>
    have hne : n + 1 ≠ 0 := Nat.succ_ne_zero n
    have hold : ∀ j < n + 2, j ≠ n + 1 → j < n + 1 := by omega
    refine ⟨?_, ?_, ?_, ?_, ?_, ?_, ?_⟩
    · simp only [ShmMempool.initNode, if_neg hne, h.totalCount_eq]
    · simp only [ShmMempool.initNode, if_neg hne, h.blockLen_eq]
    · simp only [ShmMempool.initNode, if_neg hne, h.header]
      rfl
    · simp only [ShmMempool.initNode, if_neg hne]
      rfl
    · intro j hj
      simp only [ShmMempool.initNode, if_neg hne, linkNode_nodeIdx]
      by_cases hlast : j = n + 1
      · rw [hlast, update_self]
      · rw [update_of_ne hlast, h.nodeIdx j (hold j hj hlast)]
    · intro j hj
      simp only [ShmMempool.initNode, if_neg hne, linkNode_shmOffset]
      by_cases hlast : j = n + 1
      · rw [hlast, update_self]
      · rw [update_of_ne hlast, h.shmOffset j (hold j hj hlast)]
    · intro j hj
      simp only [ShmMempool.initNode, if_neg hne, linkNode_nextNodeIdx, Nat.add_sub_cancel]
      by_cases hlast : j = n + 1
      · rw [hlast, if_neg (by omega), update_self, if_neg (by omega)]
      · by_cases hprev : j = n
        · rw [if_pos hprev, if_pos (by omega), hprev]
        · rw [if_neg hprev, update_of_ne hlast, h.nextNodeIdx j (hold j hj hlast),
            if_pos (by omega), if_pos (by omega)]

theorem Chained.initNodes {totalCount blockLen : ℕ} (h : Chained mp totalCount blockLen 0) (n : ℕ) :
    (mp.initNodes n).2 = n * blockLen ∧ Chained (mp.initNodes n).1 totalCount blockLen n := by
  induction n with
  | zero => exact ⟨(Nat.zero_mul _).symm, h⟩
  | succ n ih =>
    obtain ⟨hoffset, hchained⟩ := ih
    refine ⟨?_, ?_⟩
    · change (mp.initNodes n).2 + (mp.initNodes n).1.blockLen = _
      rw [hoffset, hchained.blockLen_eq, Nat.succ_mul]
    · change Chained ((mp.initNodes n).1.initNode n (mp.initNodes n).2) _ _ _
      rw [hoffset]
      exact hchained.initNode

theorem chained_shmMpInit (blockLen blockCount : ℕ) :
    Chained (shmMpInit blockLen blockCount) blockCount blockLen blockCount := by
  have h : ∀ j < 0, False := fun j => Nat.not_lt_zero j
  exact (Chained.initNodes ⟨rfl, rfl, rfl, rfl, fun j hj => (h j hj).elim,
    fun j hj => (h j hj).elim, fun j hj => (h j hj).elim⟩ blockCount).2

/-- A pool of `n` blocks that has lent `acquired` blocks and taken back `released` of them, both
in the order of the table around and around. -/
structure Recycles (mp : ShmMempool) (blockLen n acquired released : ℕ) : Prop where
  totalCount : mp.totalCount = n
  blockLen_eq : mp.blockLen = blockLen
  header : mp.freeHeaderIdx = some (acquired % n)
  tail : mp.freeTailIdx = some ((released + (n - 1)) % n)
  nodeIdx : ∀ j < n, (mp.nodes j).nodeIdx = j
  shmOffset : ∀ j < n, (mp.nodes j).shmOffset = j * blockLen
  nextNodeIdx : ∀ j < n, (mp.nodes j).nextNodeIdx =
    if released = 0 ∧ j = n - 1 then none else some ((j + 1) % n)

namespace Recycles

variable {blockLen n acquired released : ℕ}

theorem init (hn : 0 < n) : Recycles (shmMpInit blockLen n) blockLen n 0 0 := by
  have h := chained_shmMpInit blockLen n
  refine ⟨h.totalCount_eq, h.blockLen_eq, ?_, ?_, h.nodeIdx, h.shmOffset, ?_⟩
  · rw [h.header, if_neg hn.ne', Nat.zero_mod]
  · rw [h.tail, if_neg hn.ne', Nat.zero_add, Nat.mod_eq_of_lt (by omega)]
  · intro j hj
    rw [h.nextNodeIdx j hj]
    by_cases hlast : j + 1 < n
    · rw [if_pos hlast, if_neg (by omega), Nat.mod_eq_of_lt hlast]
    · rw [if_neg hlast, if_pos (by omega)]

theorem malloc (h : Recycles mp blockLen n acquired released) (hle : released ≤ acquired)
    (hroom : acquired + 1 < released + n) :
    ∃ mp', mp.shmMpMalloc = some (acquired % n, mp') ∧
      Recycles mp' blockLen n (acquired + 1) released := by
  have hlt : acquired % n < n := Nat.mod_lt _ (by omega)
  have hlink : (mp.nodes (acquired % n)).nextNodeIdx = some ((acquired + 1) % n) := by
    have hnotLast : ¬ (released = 0 ∧ acquired % n = n - 1) := by
      rintro ⟨h0, hlast⟩
      rw [Nat.mod_eq_of_lt (by omega)] at hlast
      omega
    rw [h.nextNodeIdx _ hlt, if_neg hnotLast, Nat.mod_add_mod]
  refine ⟨{ mp with freeHeaderIdx := (mp.nodes (acquired % n)).nextNodeIdx }, ?_, ?_⟩
  · rw [shmMpMalloc, h.header, Option.map_some]
  · exact { h with header := hlink }

theorem free (h : Recycles mp blockLen n acquired released) (hn : 0 < n) :
    Recycles (mp.shmMpFree (released % n)) blockLen n acquired (released + 1) := by
  have hidx : (mp.nodes (released % n)).nodeIdx = released % n := h.nodeIdx _ (Nat.mod_lt _ hn)
  have htail : (released + (n - 1) + 1) % n = released % n := by
    rw [Nat.add_assoc, Nat.sub_add_cancel hn, Nat.add_mod_right]
  simp only [shmMpFree, h.tail, hidx]
  refine ⟨h.totalCount, h.blockLen_eq, h.header, ?_, ?_, ?_, ?_⟩
  · rw [Nat.add_right_comm, htail]
  · intro j hj
    rw [linkNode_nodeIdx, h.nodeIdx j hj]
  · intro j hj
    rw [linkNode_shmOffset, h.shmOffset j hj]
  · intro j hj
    rw [linkNode_nextNodeIdx, if_neg (by omega : ¬ (released + 1 = 0 ∧ j = n - 1))]
    by_cases hj' : j = (released + (n - 1)) % n
    · rw [if_pos hj', hj', Nat.mod_add_mod, htail]
    · rw [if_neg hj', h.nextNodeIdx j hj, if_neg]
      rintro ⟨h0, hlast⟩
      rw [h0, Nat.zero_add, Nat.mod_eq_of_lt (by omega)] at hj'
      exact hj' hlast

end Recycles

end ShmMempool

end NtSocks
