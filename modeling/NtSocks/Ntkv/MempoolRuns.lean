import NtSocks.Ntkv.MempoolLayout

/-!
# Runs of the memory pool

Callers take blocks from a pool, write to them and give them back, in any order. The blocks that
they hold are those of the allocated nodes, one each, and the chunks stay in order over every such
run.
-/

namespace NtSocks.Ntkv

variable {each max need chunk : ℕ} {m : Memory} {n : Node} {nodes : List Node}
  {layout : List (Chunk × List Node)}

/-! ### Blocks and nodes -/

namespace HeldBlock

def span (b : HeldBlock) : Span where
  start := b.addr
  stop := b.addr + b.size
  start_le := Nat.le_add_right _ _

def Of (b : HeldBlock) (n : Node) : Prop :=
  b.addr = n.addr + nodeHeaderSize ∧ b.size ≤ n.dataSize

theorem Of.disjoint {b b' : HeldBlock} {n n' : Node} (h : b.Of n) (h' : b'.Of n')
    (hapart : n.Apart n') : Disjoint b.span.addresses b'.span.addresses := by
  refine Set.disjoint_left.mpr fun z hz hz' => ?_
  obtain ⟨haddr, hsize⟩ := h
  obtain ⟨haddr', hsize'⟩ := h'
  simp only [Span.addresses, span, Set.mem_Ico] at hz hz'
  simp only [Node.Apart, Node.stop] at hapart
  unfold Node.dataSize at hsize hsize'
  omega

end HeldBlock

def BlocksOf (blocks : List HeldBlock) (nodes : List Node) : Prop :=
  ∃ owners, owners.Perm nodes ∧ List.Forall₂ HeldBlock.Of blocks owners

namespace BlocksOf

variable {blocks : List HeldBlock} {addr : ℕ}

theorem exists_node (h : BlocksOf blocks nodes) {b : HeldBlock} (hb : b ∈ blocks) :
    ∃ n ∈ nodes, b.Of n := by
  obtain ⟨owners, hperm, hall⟩ := h
  obtain ⟨i, hi, rfl⟩ := List.getElem_of_mem hb
  have hlength := hall.length_eq
  have hi' : i < owners.length := hlength ▸ hi
  exact ⟨owners[i], hperm.subset (List.getElem_mem hi'), hall.get hi hi'⟩

theorem pairwise_disjoint (h : BlocksOf blocks nodes) (hapart : nodes.Pairwise Node.Apart) :
    blocks.Pairwise fun b b' => Disjoint b.span.addresses b'.span.addresses := by
  obtain ⟨owners, hperm, hall⟩ := h
  rw [← hperm.pairwise_iff fun h => Std.Symm.symm _ _ h] at hapart
  clear hperm
  induction hall with
  | nil => exact List.Pairwise.nil
  | cons hb hrest ih =>
    obtain ⟨hfirst, htail⟩ := List.pairwise_cons.mp hapart
    refine List.pairwise_cons.mpr ⟨fun b' hb' => ?_, ih htail⟩
    obtain ⟨n', hn', hof⟩ := exists_node ⟨_, .rfl, hrest⟩ hb'
    exact hb.disjoint hof (hfirst n' hn')

theorem exists_owner {owners : List Node} (hall : List.Forall₂ HeldBlock.Of blocks owners)
    (hheld : ∃ b ∈ blocks, b.addr = addr) :
    ∃ n rest, addr = n.addr + nodeHeaderSize ∧ owners.Perm (n :: rest) ∧
      List.Forall₂ HeldBlock.Of (blocks.eraseP fun b => b.addr = addr) rest := by
  induction hall with
  | nil =>
    obtain ⟨b, hb, -⟩ := hheld
    cases hb
  | @cons b n blocks owners hb hrest ih =>
    by_cases haddr : b.addr = addr
    · rw [List.eraseP_cons, decide_eq_true haddr]
      exact ⟨n, owners, haddr.symm.trans hb.1, .rfl, hrest⟩
    · rw [List.eraseP_cons, decide_eq_false haddr]
      obtain ⟨b', hb', haddr'⟩ := hheld
      have hmem : b' ∈ blocks := (List.mem_cons.mp hb').resolve_left fun heq => haddr (heq ▸ haddr')
      obtain ⟨n', rest, hn', hperm, hall⟩ := ih ⟨b', hmem, haddr'⟩
      exact ⟨n', n :: rest, hn', (hperm.cons n).trans (.swap n' n rest), .cons hb hall⟩

theorem release (h : BlocksOf blocks nodes) (hheld : ∃ b ∈ blocks, b.addr = addr) :
    ∃ n ∈ nodes, addr = n.addr + nodeHeaderSize ∧ ∀ nodes', (n :: nodes').Perm nodes →
      BlocksOf (blocks.eraseP fun b => b.addr = addr) nodes' := by
  obtain ⟨owners, howners, hall⟩ := h
  obtain ⟨n, rest, haddr, hperm, hrest⟩ := exists_owner hall hheld
  have hnodes := hperm.symm.trans howners
  refine ⟨n, hnodes.subset List.mem_cons_self, haddr, fun nodes' hnodes' => ⟨rest, ?_, hrest⟩⟩
  exact (hnodes.trans hnodes'.symm).cons_inv

end BlocksOf

/-! ### One step -/

namespace PoolState

variable {s : PoolState} {act : PoolAct}

def InOrder (each max : ℕ) (s : PoolState) : Prop :=
  ∃ layout, s.pool.InOrder layout ∧ s.pool.eachChunkSize = each ∧ s.pool.maxMempoolSize = max ∧
    BlocksOf s.blocks (heldNodes layout)

theorem InOrder.alloc (h : s.InOrder each max) {size : ℕ} {chunk : Option ℕ}
    (hallows : s.Allows (.alloc size chunk)) :
    ∃ s', s.step (.alloc size chunk) = some s' ∧ s'.InOrder each max := by
  obtain ⟨layout, hpool, rfl, rfl, hblocks⟩ := h
  obtain ⟨pool', r, layout', halloc, hpool', hsizes, hserved⟩ :=
    hpool.mempoolAlloc hallows.1 hallows.2
  refine ⟨_, by rw [step, halloc]; rfl, layout', hpool', hsizes.1, hsizes.2, ?_⟩
  cases r with
  | none =>
    have hsame : heldNodes layout' = heldNodes layout := hserved
    rw [hsame]
    exact hblocks
  | some addr =>
    obtain ⟨n, haddr, hsize, hperm⟩ := hserved
    obtain ⟨owners, howners, hall⟩ := hblocks
    exact ⟨n :: owners, (howners.cons n).trans hperm.symm, .cons ⟨haddr, hsize⟩ hall⟩

theorem InOrder.free (h : s.InOrder each max) {addr : ℕ} (hallows : s.Allows (.free addr)) :
    ∃ s', s.step (.free addr) = some s' ∧ s'.InOrder each max := by
  obtain ⟨layout, hpool, rfl, rfl, hblocks⟩ := h
  obtain ⟨n, hn, rfl, hrelease⟩ := hblocks.release hallows
  obtain ⟨pool', freed, layout', hfree, hpool', hsizes, hperm, -⟩ := hpool.mempoolFree hn
  refine ⟨_, by rw [step, hfree]; rfl, layout', hpool', hsizes.1, hsizes.2, ?_⟩
  exact hrelease _ hperm

theorem InOrder.write (h : s.InOrder each max) {addr offset : ℕ} {data : List UInt8}
    (hallows : s.Allows (.write addr offset data)) :
    ∃ s', s.step (.write addr offset data) = some s' ∧ s'.InOrder each max := by
  obtain ⟨layout, hpool, rfl, rfl, hblocks⟩ := h
  obtain ⟨b, hb, rfl, hdata⟩ := hallows
  obtain ⟨n, hn, haddr, hsize⟩ := hblocks.exists_node hb
  refine ⟨_, rfl, layout, ?_, rfl, rfl, hblocks⟩
  rw [haddr]
  exact hpool.write hn (hdata.trans hsize)

theorem InOrder.step (h : s.InOrder each max) (hallows : s.Allows act) :
    ∃ s', s.step act = some s' ∧ s'.InOrder each max := by
  cases act with
  | alloc size chunk => exact h.alloc hallows
  | free addr => exact h.free hallows
  | write addr offset data => exact h.write hallows

theorem step_small (hsmall : s.pool.eachChunkSize < 48) (hblocks : s.blocks = [])
    (hallows : s.Allows act) : s.step act = some s := by
  cases act with
  | alloc size chunk =>
    have hnone : s.pool.mempoolAlloc size [chunk] = .ok (s.pool, none) := by
      unfold Mempool.mempoolAlloc
      split
      · rfl
      · rename_i hsize
        have hneed := (totalNeedSize_bounds hallows.1).2 (Nat.pos_of_ne_zero hsize)
        rw [if_pos (by omega)]
    rw [step, hnone]
    rfl
  | free addr | write addr offset data =>
    obtain ⟨b, hb, -⟩ := hallows
    rw [hblocks] at hb
    cases hb

end PoolState

/-! ### The pool as it was created -/

section Init

variable {pool : Mempool}

def freshPool (m : Memory) (each max chunk : ℕ) : Mempool :=
  { autoExtend := each < max
    eachChunkSize := each
    totalChunkSize := each
    maxMempoolSize := max
    memory := (initChunk m (chunk + chunkHeaderSize) each).1
    chunkList := [(initChunk m (chunk + chunkHeaderSize) each).2] }

theorem mempoolInit_fresh (m : Memory) (chunk : ℕ) (hle : each ≤ max) :
    mempoolInit m each max (some chunk) = some (freshPool m each max chunk) :=
  if_neg (not_lt.mpr hle)

theorem mempoolInit_eq_some (hinit : mempoolInit m each max (some chunk) = some pool) :
    each ≤ max ∧ pool = freshPool m each max chunk := by
  by_cases hlt : max < each
  · rw [mempoolInit, if_pos hlt] at hinit
    cases hinit
  · rw [mempoolInit_fresh m chunk (not_lt.mp hlt)] at hinit
    exact ⟨not_lt.mp hlt, (Option.some.inj hinit).symm⟩

theorem mempoolInit_inOrder (hinit : mempoolInit m each max (some chunk) = some pool)
    (huniform : max = each ∨ 2 * each ≤ max) (hmax : max < 2 ^ 64)
    (hchunk : 0 < chunk ∧ chunk + chunkHeaderSize + each ≤ 2 ^ 64) (hlarge : 48 ≤ each) :
    PoolState.InOrder each max { pool := pool, blocks := [] } := by
  obtain ⟨hle, rfl⟩ := mempoolInit_eq_some hinit
  have hbig : nodeHeaderSize + nodeTailerSize < each := by
    simp only [nodeHeaderSize, nodeTailerSize]
    omega
  have hempty : Arranged each m [] := ⟨by simp, by simp, by simp, .nil⟩
  have harranged := hempty.extend (by omega) hbig hchunk.2 (by simp)
  refine ⟨[((initChunk m (chunk + chunkHeaderSize) each).2,
    [wholeNode (chunk + chunkHeaderSize) each])], ⟨rfl, harranged, hbig, ?_, hmax, ?_, ?_⟩, rfl,
    rfl, [], .rfl, .nil⟩
  · intro hauto
    have hlt : each < max := of_decide_eq_true hauto
    change 2 * each ≤ max
    omega
  · change each = each * 1 % 2 ^ 64
    rw [mul_one, Nat.mod_eq_of_lt (hle.trans_lt hmax)]
  · intro _
    exact (mul_one each).le.trans hle

end Init

/-! ### The limits of a pool -/

section Limits

variable {s : Mempool}

theorem Mempool.InOrder.total_eq (h : s.InOrder layout) (hdvd : s.eachChunkSize ∣ s.maxMempoolSize)
    : s.totalChunkSize = s.eachChunkSize * layout.length := by
  rw [h.total, Nat.mod_eq_of_lt ((h.limit hdvd).trans_lt h.max_lt)]

theorem Mempool.InOrder.total_le (h : s.InOrder layout)
    (hdvd : s.eachChunkSize ∣ s.maxMempoolSize) :
    s.totalChunkSize ≤ s.maxMempoolSize := (h.total_eq hdvd).le.trans (h.limit hdvd)

theorem Mempool.InOrder.total_eq_sum (h : s.InOrder layout)
    (hdvd : s.eachChunkSize ∣ s.maxMempoolSize) :
    s.totalChunkSize = (s.chunkList.map Chunk.mempoolSize).sum := by
  have hall : ∀ x ∈ s.chunkList.map Chunk.mempoolSize, x = s.eachChunkSize := by
    intro x hx
    rw [h.chunkList, List.map_map] at hx
    obtain ⟨p, hp, rfl⟩ := List.mem_map.mp hx
    exact h.arranged.mempoolSize p hp
  rw [h.total_eq hdvd, List.sum_eq_card_nsmul _ _ hall, h.chunkList]
  simp [mul_comm]

theorem eq_or_two_mul_le_of_dvd (hdvd : each ∣ max) (hpos : 0 < max) :
    max = each ∨ 2 * each ≤ max := by
  obtain ⟨k, rfl⟩ := hdvd
  match k with
  | 0 => cases hpos
  | 1 => exact .inl (mul_one each)
  | k + 2 =>
    refine .inr ?_
    rw [mul_comm 2 each]
    exact Nat.mul_le_mul_left each (Nat.le_add_left 2 k)

end Limits

/-! ### The heap after a run -/

theorem Tiles.eq_wholeNode {a : ℕ} (h : Tiles a (a + each) nodes) (hcoalesced : Coalesced nodes)
    (hfree : ∀ n ∈ nodes, n.free = true) (hpos : 0 < each) : nodes = [wholeNode a each] := by
  match nodes, h, hcoalesced with
  | [], h, _ =>
    have heq : a = a + each := h
    omega
  | [n], ⟨haddr, hstop⟩, _ =>
    have heq : n.stop = a + each := hstop
    have hn : n.free = true := hfree n List.mem_cons_self
    obtain ⟨addr, size, free⟩ := n
    simp only [Node.stop] at haddr heq hn
    subst haddr hn
    rw [Nat.add_left_cancel heq]
    rfl
  | n :: n' :: ns, _, hcoalesced =>
    have hallocated := (List.isChain_cons_cons.mp hcoalesced).1 (hfree n (by simp))
    rw [hfree n' (by simp)] at hallocated
    cases hallocated

namespace PoolState

structure Describes (each : ℕ) (s : PoolState) (layout : List (Chunk × List Node)) : Prop where
  chunkList : s.pool.chunkList = layout.map Prod.fst
  consists : ∀ p ∈ layout, p.1.Consists each (getField s.pool.memory) p.2
  coalesced : ∀ p ∈ layout, Coalesced p.2
  blocks : BlocksOf s.blocks (heldNodes layout)
  disjoint : s.blocks.Pairwise fun b b' => Disjoint b.span.addresses b'.span.addresses
  released : s.blocks = [] → ∀ p ∈ layout, p.2 = [wholeNode p.1.start each]

theorem InOrder.describes {s : PoolState} (h : s.InOrder each max) :
    ∃ layout, s.Describes each layout := by
  obtain ⟨layout, hpool, rfl, rfl, hblocks⟩ := h
  have hapart := hpool.arranged.nodes_apart.sublist (heldNodes_sublist layout)
  refine ⟨layout, hpool.chunkList, fun p hp => (hpool.arranged.intact p hp).toConsists,
    hpool.arranged.coalesced, hblocks, hblocks.pairwise_disjoint hapart, fun hnone p hp => ?_⟩
  obtain ⟨owners, howners, hall⟩ := hblocks
  rw [hnone, List.forall₂_nil_left_iff] at hall
  rw [hall, List.nil_perm] at howners
  refine (hpool.arranged.intact p hp).tiles.eq_wholeNode (hpool.arranged.coalesced p hp) ?_
    (Nat.zero_lt_of_lt hpool.large)
  intro n hn
  by_contra hheld
  have hmem : n ∈ heldNodes layout := mem_heldNodes.mpr ⟨p, hp, hn, by simpa using hheld⟩
  rw [howners] at hmem
  cases hmem

end PoolState

section Runs

variable {pool : Mempool} {acts : List PoolAct}

theorem run_inOrder (hinit : mempoolInit m each max (some chunk) = some pool)
    (huniform : max = each ∨ 2 * each ≤ max) (hmax : max < 2 ^ 64)
    (hchunk : 0 < chunk ∧ chunk + chunkHeaderSize + each ≤ 2 ^ 64) (hlarge : 48 ≤ each)
    (hacts : Runs.Along PoolState.step PoolState.Allows { pool := pool, blocks := [] } acts) :
    ∃ s, Runs.run PoolState.step { pool := pool, blocks := [] } acts = some s ∧
      s.InOrder each max :=
  Runs.exists_run_of_along (fun _ _ h hallows => h.step hallows)
    (mempoolInit_inOrder hinit huniform hmax hchunk hlarge) hacts

theorem run_small (hinit : mempoolInit m each max (some chunk) = some pool) (hsmall : each < 48)
    (hacts : Runs.Along PoolState.step PoolState.Allows { pool := pool, blocks := [] } acts) :
    Runs.run PoolState.step { pool := pool, blocks := [] } acts =
      some { pool := pool, blocks := [] } := by
  obtain ⟨-, rfl⟩ := mempoolInit_eq_some hinit
  obtain ⟨s, hrun, rfl⟩ := Runs.exists_run_of_along
    (fun s act hs hallows => ⟨s, by subst hs; exact PoolState.step_small hsmall rfl hallows, hs⟩)
    (Eq.refl _) hacts
  exact hrun

/-- The chunks of the pool are cut into nodes without a gap, of which no two neighbours are free;
the lists and the counters are those of the nodes; the blocks that the callers hold are disjoint and
large enough; and when all are given back, every chunk is one free node. -/
theorem mempool_runs_keep_heap (hinit : mempoolInit m each max (some chunk) = some pool)
    (huniform : max = each ∨ 2 * each ≤ max) (hmax : max < 2 ^ 64)
    (hchunk : 0 < chunk ∧ chunk + chunkHeaderSize + each ≤ 2 ^ 64)
    (hacts : Runs.Along PoolState.step PoolState.Allows { pool := pool, blocks := [] } acts) :
    ∃ s layout, Runs.run PoolState.step { pool := pool, blocks := [] } acts = some s ∧
      s.Describes each layout := by
  by_cases hlarge : 48 ≤ each
  · obtain ⟨s, hrun, hs⟩ := run_inOrder hinit huniform hmax hchunk hlarge hacts
    obtain ⟨layout, hdescribes⟩ := hs.describes
    exact ⟨s, layout, hrun, hdescribes⟩
  · have hrun := run_small hinit (not_le.mp hlarge) hacts
    refine ⟨_, [((initChunk m (chunk + chunkHeaderSize) each).2,
      [wholeNode (chunk + chunkHeaderSize) each])], hrun, ?_⟩
    obtain ⟨hle, rfl⟩ := mempoolInit_eq_some hinit
    refine ⟨rfl, ?_, ?_, ⟨[], .rfl, .nil⟩, .nil, ?_⟩
    · intro p hp
      rw [List.mem_singleton.mp hp]
      exact initChunk_consists m (by omega) (hle.trans_lt hmax)
    · intro p hp
      rw [List.mem_singleton.mp hp]
      exact coalesced_wholeNode _ _
    · intro _ p hp
      rw [List.mem_singleton.mp hp]
      rfl

/-- Two chunks, from which three blocks are taken; one is written to, and all are given back. -/
def twoChunkActs : List PoolAct :=
  [.alloc 8 none, .alloc 24 none, .write 160 0 [1, 2, 3], .alloc 150 (some 1024), .free 160,
    .free 216, .free 1120]

theorem two_chunks_given_back : ∃ s layout,
    Runs.run PoolState.step { pool := freshPool (fun _ => 0) 256 512 64, blocks := [] }
        twoChunkActs = some s ∧
      s.Describes 256 layout :=
  mempool_runs_keep_heap (mempoolInit_fresh _ _ (by decide)) (.inr (by decide)) (by decide)
    (by decide) (by decide +kernel)

/-- A pool whose limit is a multiple of the size of a chunk does not grow beyond it, and a block
that is given back is joined with nodes of its own chunk only. -/
theorem mempool_within_limits (hinit : mempoolInit m each max (some chunk) = some pool)
    (hdvd : each ∣ max ∨ each < 48) (hmax : max < 2 ^ 64)
    (hchunk : 0 < chunk ∧ chunk + chunkHeaderSize + each ≤ 2 ^ 64)
    (hacts : Runs.Along PoolState.step PoolState.Allows { pool := pool, blocks := [] } acts) :
    ∃ s, Runs.run PoolState.step { pool := pool, blocks := [] } acts = some s ∧
      s.pool.totalChunkSize ≤ max ∧
      s.pool.totalChunkSize = (s.pool.chunkList.map Chunk.mempoolSize).sum ∧
      ∀ b ∈ s.blocks, ∃ pool' freed, s.pool.mempoolFree b.addr = .ok (pool', freed) ∧
        s.pool.FreedWithin b.addr freed := by
  have hle := (mempoolInit_eq_some hinit).1
  by_cases hlarge : 48 ≤ each
  · have hdvd : each ∣ max := hdvd.resolve_right (not_lt.mpr hlarge)
    obtain ⟨s, hrun, layout, hpool, rfl, rfl, hblocks⟩ :=
      run_inOrder hinit (eq_or_two_mul_le_of_dvd hdvd (by omega)) hmax hchunk hlarge hacts
    refine ⟨s, hrun, hpool.total_le hdvd, hpool.total_eq_sum hdvd, fun b hb => ?_⟩
    obtain ⟨n, hn, haddr, -⟩ := hblocks.exists_node hb
    obtain ⟨pool', freed, -, hfree, -, -, -, hwithin⟩ := hpool.mempoolFree hn
    rw [haddr]
    exact ⟨pool', freed, hfree, hwithin⟩
  · have hrun := run_small hinit (not_le.mp hlarge) hacts
    obtain ⟨-, rfl⟩ := mempoolInit_eq_some hinit
    exact ⟨_, hrun, hle, rfl, nofun⟩

theorem two_chunks_within_limit : ∃ s,
    Runs.run PoolState.step { pool := freshPool (fun _ => 0) 256 512 64, blocks := [] }
        (twoChunkActs.take 4) = some s ∧
      s.pool.totalChunkSize ≤ 512 ∧
      s.pool.totalChunkSize = (s.pool.chunkList.map Chunk.mempoolSize).sum ∧
      ∀ b ∈ s.blocks, ∃ pool' freed, s.pool.mempoolFree b.addr = .ok (pool', freed) ∧
        s.pool.FreedWithin b.addr freed :=
  mempool_within_limits (mempoolInit_fresh _ _ (by decide)) (.inl (by decide)) (by decide)
    (by decide) (by decide +kernel)

/-- What `mempool_free` of an address works on after a run: the chunk, its size, and the nodes that
are joined. -/
def freedAfter (pool : Mempool) (acts : List PoolAct) (addr : ℕ) :
    Option (ℕ × ℕ × List (ℕ × ℕ)) :=
  (Runs.run PoolState.step { pool := pool, blocks := [] } acts).bind fun s =>
    (s.pool.mempoolFree addr).toOption.map fun (_, freed) =>
      (freed.chunk.start, freed.chunk.mempoolSize, freed.joined.map fun sp => (sp.start, sp.stop))

def bytesBehind : Memory := fun z => if z = 1184 then 200 else if z = 1192 then 1 else 0

/-- The third chunk of 48 bytes is added to a pool of at most 100; and a chunk of 96 bytes is
treated like one of 100, and the bytes behind it are joined to its node. -/
theorem limits_exceeded :
    (Runs.Along PoolState.step PoolState.Allows
        { pool := freshPool (fun _ => 0) 48 100 64, blocks := [] }
        [.alloc 1 none, .alloc 1 (some 1024), .alloc 1 (some 2048)] ∧
      (Runs.run PoolState.step { pool := freshPool (fun _ => 0) 48 100 64, blocks := [] }
        [.alloc 1 none, .alloc 1 (some 1024), .alloc 1 (some 2048)]).map
          (fun s => s.pool.totalChunkSize) = some 144) ∧
    (Runs.Along PoolState.step PoolState.Allows
        { pool := freshPool bytesBehind 100 196 64, blocks := [] }
        [.alloc 40 none, .alloc 40 (some 1024), .free 1120] ∧
      freedAfter (freshPool bytesBehind 100 196 64) [.alloc 40 none, .alloc 40 (some 1024)] 1120 =
        some (1088, 96, [(1088, 1184), (1184, 1384)])) := by
  decide +kernel

end Runs

end NtSocks.Ntkv
