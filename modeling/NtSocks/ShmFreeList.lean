import NtSocks.Lib.Runs
import NtSocks.ShmMempool

/-!
# The free list of the shared memory pool

The free list is what is reached from the header of a pool through the links of its nodes. It
should have exactly the nodes that are not lent. It does as long as none comes back: a node that is
freed is linked behind the tail with the link that it had when it was lent, and this link leads to
the nodes that were free then. A header that has left the list does not come back either.
-/

namespace NtSocks

namespace ShmMempool

/-- The nodes that are reached from an index, up to the end of the list. -/
def Linked (mp : ShmMempool) : Option ℕ → List ℕ → Prop
  | none, l => l = []
  | some _, [] => False
  | some i, j :: l => i = j ∧ mp.Linked (mp.nodes i).nextNodeIdx l

variable {mp : ShmMempool}

@[simp] theorem linked_none {l : List ℕ} : mp.Linked none l ↔ l = [] := by
  cases l <;> simp [Linked]

theorem not_linked_of_closed {n : ℕ} (hclosed : ∀ i < n, ∃ j < n, (mp.nodes i).nextNodeIdx = some j)
    {i : ℕ} (hi : i < n) (l : List ℕ) : ¬ mp.Linked (some i) l := by
  induction l generalizing i with
  | nil => exact id
  | cons k l ih =>
    rintro ⟨rfl, hrest⟩
    obtain ⟨j, hj, hnext⟩ := hclosed i hi
    rw [hnext] at hrest
    exact ih hj hrest

theorem linked_range {n : ℕ}
    (hnext : ∀ j < n, (mp.nodes j).nextNodeIdx = if j + 1 < n then some (j + 1) else none) {i k : ℕ}
    (hend : i + k = n) : mp.Linked (if i < n then some i else none) (List.range' i k) := by
  induction k generalizing i with
  | zero =>
    rw [if_neg (by omega), linked_none, List.range'_zero]
  | succ k ih =>
    rw [if_pos (by omega), List.range'_succ]
    refine ⟨rfl, ?_⟩
    rw [hnext i (by omega)]
    exact ih (by omega)

structure Lending where
  pool : ShmMempool
  outstanding : Finset ℕ

namespace Lending

inductive Act
  | malloc
  | free (node : ℕ)
  deriving DecidableEq

def init (blockLen blockCount : ℕ) : Lending := ⟨shmMpInit blockLen blockCount, ∅⟩

/-- Only nodes that are lent are freed. -/
def step (s : Lending) : Act → Option Lending
  | .malloc =>
    match s.pool.shmMpMalloc with
    | none => some s
    | some (node, pool) => some ⟨pool, insert node s.outstanding⟩
  | .free node =>
    if node ∈ s.outstanding then some ⟨s.pool.shmMpFree node, s.outstanding.erase node⟩ else none

variable {s s' t : Lending} {n lent : ℕ}

/-- The free list ends, and has each node that is not lent once. -/
def ListsFree (s : Lending) : Prop :=
  ∃ l, s.pool.Linked s.pool.freeHeaderIdx l ∧ l.Nodup ∧
    ∀ i, i ∈ l ↔ i < s.pool.totalCount ∧ i ∉ s.outstanding

def LendsFree (s : Lending) : Prop :=
  (∀ node pool, s.pool.shmMpMalloc = some (node, pool) → node ∉ s.outstanding) ∧
    (s.pool.shmMpMalloc = none → ∀ i < s.pool.totalCount, i ∈ s.outstanding)

/-- A call keeps the free list, and a node that it lends is free. -/
def Right (s : Lending) (act : Act) : Prop :=
  (act = .malloc → s.LendsFree) ∧ ∀ s', s.step act = some s' → s'.ListsFree

theorem ListsFree.lendsFree (h : s.ListsFree) : s.LendsFree := by
  obtain ⟨l, hlinked, -, hmem⟩ := h
  refine ⟨fun node pool hmalloc => ?_, fun hmalloc i hi => ?_⟩
  · obtain ⟨i, hheader, hnode⟩ := Option.map_eq_some_iff.mp hmalloc
    obtain ⟨rfl, -⟩ := Prod.mk.inj hnode
    rw [hheader] at hlinked
    cases l with
    | nil => exact hlinked.elim
    | cons j l =>
      obtain ⟨rfl, -⟩ := hlinked
      exact ((hmem _).mp List.mem_cons_self).2
  · rw [shmMpMalloc, Option.map_eq_none_iff] at hmalloc
    rw [hmalloc, linked_none] at hlinked
    subst hlinked
    by_contra hnot
    exact absurd ((hmem i).mpr ⟨hi, hnot⟩) List.not_mem_nil

structure Fresh (s : Lending) (n lent : ℕ) : Prop where
  totalCount : s.pool.totalCount = n
  header : s.pool.freeHeaderIdx = if lent < n then some lent else none
  tail : s.pool.freeTailIdx = some (n - 1)
  nodeIdx : ∀ j < n, (s.pool.nodes j).nodeIdx = j
  nextNodeIdx : ∀ j < n, (s.pool.nodes j).nextNodeIdx = if j + 1 < n then some (j + 1) else none
  outstanding : s.outstanding = Finset.range lent
  lent_le : lent ≤ n

theorem fresh_init (hn : 1 ≤ n) (blockLen : ℕ) : (init blockLen n).Fresh n 0 := by
  have h := chained_shmMpInit blockLen n
  have hne : n ≠ 0 := by omega
  refine ⟨h.totalCount_eq, ?_, ?_, h.nodeIdx, h.nextNodeIdx, Finset.range_zero.symm, by omega⟩
  · exact h.header.trans (by rw [if_neg hne, if_pos (by omega)])
  · exact h.tail.trans (if_neg hne)

namespace Fresh

theorem listsFree (h : s.Fresh n lent) : s.ListsFree := by
  have hle := h.lent_le
  refine ⟨List.range' lent (n - lent), ?_, List.nodup_range', fun i => ?_⟩
  · rw [h.header]
    exact linked_range h.nextNodeIdx (by omega)
  · rw [List.mem_range'_1, h.totalCount, h.outstanding, Finset.mem_range]
    omega

theorem malloc (h : s.Fresh n lent) : ∃ s' lent', s.step .malloc = some s' ∧ s'.Fresh n lent' := by
  by_cases hlt : lent < n
  · have hmalloc : s.pool.shmMpMalloc =
        some (lent, { s.pool with freeHeaderIdx := (s.pool.nodes lent).nextNodeIdx }) := by
      rw [shmMpMalloc, h.header, if_pos hlt, Option.map_some]
    refine ⟨⟨{ s.pool with freeHeaderIdx := (s.pool.nodes lent).nextNodeIdx },
      insert lent s.outstanding⟩, lent + 1, by rw [step, hmalloc], h.totalCount,
      h.nextNodeIdx lent hlt, h.tail, h.nodeIdx, h.nextNodeIdx, ?_, hlt⟩
    rw [h.outstanding, Finset.range_add_one]
  · have hmalloc : s.pool.shmMpMalloc = none := by
      rw [shmMpMalloc, h.header, if_neg hlt, Option.map_none]
    exact ⟨s, lent, by rw [step, hmalloc], h⟩

/-- The first node that comes back makes the list a cycle, or is missing in it if the list was
empty. -/
theorem not_listsFree_free (h : s.Fresh n lent) {node : ℕ} (hstep : s.step (.free node) = some s') :
    ¬ s'.ListsFree := by
  rw [step] at hstep
  split_ifs at hstep with hlent
  cases hstep
  rw [h.outstanding, Finset.mem_range] at hlent
  have hnode : node < n := hlent.trans_le h.lent_le
  have hfree : s.pool.shmMpFree node =
      { s.pool with nodes := s.pool.linkNode (n - 1) (some node), freeTailIdx := some node } := by
    rw [shmMpFree, h.tail, h.nodeIdx node hnode]
  rintro ⟨l, hlinked, -, hmem⟩
  rw [hfree] at hlinked hmem
  change Linked _ s.pool.freeHeaderIdx l at hlinked
  rw [h.header] at hlinked
  split_ifs at hlinked with hlt
  · refine not_linked_of_closed (n := n) (fun i hi => ?_) hlt l hlinked
    change ∃ j < n, (s.pool.linkNode (n - 1) (some node) i).nextNodeIdx = some j
    rw [linkNode_nextNodeIdx]
    by_cases hlast : i = n - 1
    · exact ⟨node, hnode, if_pos hlast⟩
    · refine ⟨i + 1, by omega, ?_⟩
      rw [if_neg hlast, h.nextNodeIdx i hi, if_pos (by omega)]
  · rw [linked_none] at hlinked
    subst hlinked
    refine absurd ((hmem node).mpr ⟨?_, Finset.notMem_erase node _⟩) List.not_mem_nil
    exact h.totalCount.symm ▸ hnode

end Fresh

theorem Fresh.along_iff (h : s.Fresh n lent) {acts : List Act}
    (hrun : Runs.run step s acts = some t) :
    Runs.Along step Right s acts ↔ ∀ act ∈ acts, act = .malloc := by
  induction acts generalizing s lent with
  | nil => exact iff_of_true trivial (by simp)
  | cons act acts ih =>
    obtain ⟨s', hstep, hrun'⟩ := Runs.run_cons_eq_some.mp hrun
    rw [Runs.along_cons_iff hstep, List.forall_mem_cons]
    cases act with
    | malloc =>
      obtain ⟨s'', lent', hstep', h'⟩ := h.malloc
      obtain rfl := Option.some.inj (hstep.symm.trans hstep')
      have hright : s.Right .malloc := by
        refine ⟨fun _ => h.listsFree.lendsFree, fun s₁ hs₁ => ?_⟩
        obtain rfl := Option.some.inj (hstep.symm.trans hs₁)
        exact h'.listsFree
      exact and_congr (iff_of_true hright rfl) (ih h' hrun')
    | free node =>
      refine iff_of_false (fun hall => ?_) nofun
      exact h.not_listsFree_free hstep (hall.1.2 s' hstep)

/-- Along a run of a new pool every node is either lent once or in the free list, if and only if no
node is ever freed. -/
theorem free_list_exact_iff (blockLen blockCount : ℕ) (hcount : 1 ≤ blockCount) (acts : List Act)
    (t : Lending) (hrun : Runs.run step (init blockLen blockCount) acts = some t) :
    Runs.Along step Right (init blockLen blockCount) acts ↔ ∀ act ∈ acts, act = .malloc :=
  (fresh_init hcount blockLen).along_iff hrun

section Sample

theorem free_list_exact_malloc :
    ∃ t, Runs.run step (init 8 2) [.malloc, .malloc, .malloc] = some t ∧
      Runs.Along step Right (init 8 2) [.malloc, .malloc, .malloc] :=
  ⟨_, rfl, (free_list_exact_iff 8 2 (by decide) _ _ rfl).mpr (by decide)⟩

/-- After one node of two was lent and freed, the pool lends three nodes. The last of them is lent
twice. -/
theorem freed_pool_lends_twice :
    ∃ t, Runs.run step (init 8 2) [.malloc, .free 0, .malloc, .malloc] = some t ∧
      t.outstanding = {0, 1} ∧ ∃ pool, t.pool.shmMpMalloc = some (1, pool) :=
  ⟨_, rfl, by decide, _, rfl⟩

end Sample

end Lending

end ShmMempool

end NtSocks
