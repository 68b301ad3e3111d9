import NtSocks.Ntkv.MempoolHeap

/-!
# The chunks of the memory pool

A pool whose chunks all have the size `each_chunk_size`: its chunks lie apart from each other, and
in each of them the nodes are in order. `mempool_alloc`, `mempool_free` and the callers' writes to
the bytes that they were given keep this.
-/

namespace NtSocks.Ntkv

open BlockHeap (Fault)

variable {each need : ℕ} {m m' : Memory} {c c' : Chunk} {n : Node} {nodes nodes' : List Node}
  {layout l₁ l₂ : List (Chunk × List Node)} {data : List UInt8} {offset : ℕ}

def Chunk.Apart (each : ℕ) (c c' : Chunk) : Prop :=
  c.start + each ≤ c'.start ∨ c'.start + each ≤ c.start

theorem Chunk.Apart.symm (h : c.Apart each c') : c'.Apart each c := Or.symm h

structure Arranged (each : ℕ) (m : Memory) (layout : List (Chunk × List Node)) : Prop where
  intact : ∀ p ∈ layout, p.1.Intact each m p.2
  coalesced : ∀ p ∈ layout, Coalesced p.2
  mempoolSize : ∀ p ∈ layout, p.1.mempoolSize = each
  apart : layout.Pairwise fun p q => p.1.Apart each q.1

def heldNodes (layout : List (Chunk × List Node)) : List Node :=
  layout.flatMap fun p => allocated p.2

@[simp] theorem heldNodes_append : heldNodes (l₁ ++ l₂) = heldNodes l₁ ++ heldNodes l₂ := by
  simp [heldNodes]

@[simp] theorem heldNodes_cons :
    heldNodes ((c, nodes) :: layout) = allocated nodes ++ heldNodes layout := by
  simp [heldNodes]

theorem mem_heldNodes : n ∈ heldNodes layout ↔ ∃ p ∈ layout, n ∈ p.2 ∧ n.free = false := by
  simp [heldNodes, mem_allocated]

/-! ### Chunks next to each other -/

theorem Chunk.Intact.congr (h : c.Intact each m nodes)
    (hm : ∀ f ∈ fieldsOf nodes, getField m' f = getField m f) : c.Intact each m' nodes := by
  refine ⟨h.toSound.congr hm, fun n hn hstop => ?_⟩
  rw [hm _ (mem_tailer hn), h.tailed n hn hstop]

theorem Chunk.Intact.congr_bytes (h : c.Intact each m nodes)
    (hm : ∀ n ∈ nodes, ∀ f ∈ n.fields, ∀ z ∈ nodeLayout.bytes f, m' z = m z) :
    c.Intact each m' nodes := by
  refine h.congr ?_
  rintro f ⟨n, hn, hf⟩
  exact FieldLayout.get_congr (hm n hn f hf)

theorem Chunk.Intact.of_confines (h : c'.Intact each m nodes) (hm : c.Confines each m m')
    (hapart : c.Apart each c') : c'.Intact each m' nodes := by
  refine h.congr_bytes fun n hn f hf z hz => hm z ?_
  have hbytes := Node.bytes_subset (h.large n hn) hf hz
  have hwithin := h.tiles.within hn
  rw [Set.mem_Ico] at hbytes
  unfold Chunk.Apart at hapart
  omega

theorem Arranged.tail {p : Chunk × List Node} (h : Arranged each m (p :: layout)) :
    Arranged each m layout where
  intact := fun q hq => h.intact q (List.mem_cons_of_mem p hq)
  coalesced := fun q hq => h.coalesced q (List.mem_cons_of_mem p hq)
  mempoolSize := fun q hq => h.mempoolSize q (List.mem_cons_of_mem p hq)
  apart := (List.pairwise_cons.mp h.apart).2

theorem apart_middle : (l₁ ++ (c, nodes) :: l₂).Pairwise (fun p q => p.1.Apart each q.1) ↔
    (∀ q ∈ l₁ ++ l₂, c.Apart each q.1) ∧ (l₁ ++ l₂).Pairwise fun p q => p.1.Apart each q.1 := by
  rw [List.pairwise_middle fun h => h.symm, List.pairwise_cons]

theorem Arranged.update (h : Arranged each m (l₁ ++ (c, nodes) :: l₂))
    (hintact : c'.Intact each m' nodes') (hcoalesced : Coalesced nodes')
    (hconfines : c.Confines each m m') (hstart : c'.start = c.start)
    (hsize : c'.mempoolSize = c.mempoolSize) : Arranged each m' (l₁ ++ (c', nodes') :: l₂) := by
  obtain ⟨hapart, hothers⟩ := apart_middle.mp h.apart
  have hmem : (c, nodes) ∈ l₁ ++ (c, nodes) :: l₂ := List.mem_append_cons_self
  refine ⟨fun p hp => ?_, fun p hp => ?_, fun p hp => ?_, apart_middle.mpr ⟨?_, hothers⟩⟩
  · rcases mem_middle.mp hp with rfl | hp
    · exact hintact
    · exact (h.intact p (mem_middle.mpr (.inr hp))).of_confines hconfines (hapart p hp)
  · rcases mem_middle.mp hp with rfl | hp
    · exact hcoalesced
    · exact h.coalesced p (mem_middle.mpr (.inr hp))
  · rcases mem_middle.mp hp with rfl | hp
    · exact hsize.trans (h.mempoolSize _ hmem)
    · exact h.mempoolSize p (mem_middle.mpr (.inr hp))
  · intro q hq
    have hold := hapart q hq
    unfold Chunk.Apart at hold ⊢
    rwa [hstart]

/-! ### The search through the chunks -/

theorem Chunk.Intact.searchChunk (h : c.Intact each m nodes) (need : ℕ) :
    ∃ r, searchChunk each need m c = .ok r ∧
      ∀ y ∈ r, ∃ n ∈ nodes, n.free = true ∧ n.addr = y ∧ need ≤ n.size := by
  unfold Ntkv.searchChunk
  split
  · exact ⟨none, rfl, by simp⟩
  · exact h.findFree need

theorem Arranged.allocInChunks (h : Arranged each m layout) (need : ℕ) :
    allocInChunks each need m (layout.map Prod.fst) = .ok none ∨
    ∃ l₁ c ns n ns' l₂, layout = l₁ ++ (c, ns ++ n :: ns') :: l₂ ∧ n.free = true ∧
      need ≤ n.size ∧ allocInChunks each need m (layout.map Prod.fst) =
        .ok (some ((takeNode m c need n.addr).1,
          l₁.map Prod.fst ++ (takeNode m c need n.addr).2 :: l₂.map Prod.fst,
          n.addr + nodeHeaderSize)) := by
  induction layout with
  | nil => exact .inl rfl
  | cons p layout ih =>
    obtain ⟨c, nodes⟩ := p
    have hintact : c.Intact each m nodes := h.intact (c, nodes) List.mem_cons_self
    obtain ⟨r, hr, hspec⟩ := hintact.searchChunk need
    rw [List.map_cons, Ntkv.allocInChunks, hr]
    cases r with
    | some y =>
      obtain ⟨n, hn, hfree, rfl, hle⟩ := hspec y rfl
      obtain ⟨ns, ns', rfl⟩ := List.append_of_mem hn
      exact .inr ⟨[], c, ns, n, ns', layout, rfl, hfree, hle, rfl⟩
    | none =>
      dsimp only [Except.bind]
      rcases ih h.tail with hnone | ⟨l₁, c', ns, n, ns', l₂, rfl, hfree, hle, hsome⟩
      · refine .inl ?_
        rw [hnone]
        rfl
      · refine .inr ⟨(c, nodes) :: l₁, c', ns, n, ns', l₂, rfl, hfree, hle, ?_⟩
        rw [hsome]
        rfl

theorem allocInChunks_fresh {cs : List Chunk} (hstart : 0 < c.freeList)
    (hc : c.allocChunkSize = 0) (hsize : getField m (.nodeSize c.freeList) = each)
    (hpos : 0 < each) (hneed : need ≤ each) : allocInChunks each need m (c :: cs) ≠ .ok none := by
  have hsearch : searchChunk each need m c = .ok (some c.freeList) := by
    obtain ⟨fuel, hfuel⟩ : ∃ k, each = k + 1 := ⟨each - 1, by omega⟩
    have hfind : findFree m need (fuel + 1) c.freeList = .ok (some c.freeList) := by
      rw [findFree, if_neg (by omega), hsize, if_pos hneed]
    rw [searchChunk, hc, if_neg (by omega), hfuel, hfind]
  rw [Ntkv.allocInChunks, hsearch]
  intro heq
  cases heq

/-! ### A new chunk -/

section Init

variable {start size : ℕ}

def wholeNode (start size : ℕ) : Node := { addr := start, size := size, free := true }

theorem initChunk_reads (m : Memory) (start : ℕ) (hsize : size < 2 ^ 64) :
    getField (initChunk m start size).1 (.nodeSize start) = size ∧
      getField (initChunk m start size).1 (.isFree start) = 1 ∧
      getField (initChunk m start size).1 (.pre start) = 0 ∧
      getField (initChunk m start size).1 (.next start) = 0 := by
  -- a node of 41 bytes has room for all its fields
  have hD : (wholeNode start 41).fields.PairwiseDisjoint nodeLayout.bytes :=
    Node.fields_disjoint (Nat.lt_succ_self 40)
  have hsize_mem : .nodeSize start ∈ (wholeNode start 41).fields := by simp [Node.fields, wholeNode]
  have hfree_mem : .isFree start ∈ (wholeNode start 41).fields := by simp [Node.fields, wholeNode]
  have hpre_mem : .pre start ∈ (wholeNode start 41).fields := by simp [Node.fields, wholeNode]
  have hnext_mem : .next start ∈ (wholeNode start 41).fields := by simp [Node.fields, wholeNode]
  have hzero : 0 < 256 ^ 8 := by decide
  have hone : 1 < 256 ^ 1 := by decide
  have hget : ∀ f ∈ (wholeNode start 41).fields, getField (initChunk m start size).1 f =
      if f = .nodeSize start then size else if f = .pre start then 0
        else if f = .next start then 0 else if f = .isFree start then 1 else getField m f := by
    intro f hf
    simp only [initChunk, getField, setField]
    rw [FieldLayout.get_set hD hsize_mem hf _ (word_lt hsize),
      FieldLayout.get_set hD hpre_mem hf _ hzero, FieldLayout.get_set hD hnext_mem hf _ hzero,
      FieldLayout.get_set hD hfree_mem hf _ hone]
  rw [hget _ hsize_mem, hget _ hfree_mem, hget _ hpre_mem, hget _ hnext_mem]
  simp

theorem initChunk_confines (m : Memory) (start : ℕ) {z : ℕ}
    (hz : z < start ∨ start + nodeHeaderSize ≤ z) : (initChunk m start size).1 z = m z := by
  have hset : ∀ (m : Memory) (f : NodeField) (v : ℕ), start ≤ nodeLayout.addr f →
      nodeLayout.addr f + nodeLayout.width f ≤ start + nodeHeaderSize → setField m f v z = m z := by
    intro m f v hlow hhigh
    refine FieldLayout.keeps_set (Set.mem_singleton f) m v z ?_
    rintro g rfl hmem
    have hin : nodeLayout.addr g ≤ z ∧ z < nodeLayout.addr g + nodeLayout.width g := hmem
    omega
  simp only [initChunk, nodeHeaderSize] at hset ⊢
  rw [hset _ _ _ (by simp [nodeLayout]) (by simp [nodeLayout]),
    hset _ _ _ (by simp [nodeLayout]) (by simp [nodeLayout]),
    hset _ _ _ (by simp [nodeLayout]) (by simp [nodeLayout]),
    hset _ _ _ (by simp [nodeLayout]) (by simp [nodeLayout])]

theorem initChunk_consists (m : Memory) (hstart : 0 < start) (hsize : size < 2 ^ 64) :
    (initChunk m start size).2.Consists size (getField (initChunk m start size).1)
      [wholeNode start size] := by
  obtain ⟨hread_size, hread_free, hread_pre, hread_next⟩ := initChunk_reads m start hsize
  refine ⟨⟨rfl, rfl⟩, ?_, ?_, ⟨[start], ⟨⟨?_, hread_pre, ?_⟩, ?_⟩, .rfl⟩,
    ⟨[], ⟨rfl, List.nodup_singleton 0⟩, .rfl⟩, rfl, rfl⟩
  · intro n hn
    rw [List.mem_singleton.mp hn]
    exact hread_size
  · intro n hn
    rw [List.mem_singleton.mp hn]
    exact hread_free
  · rfl
  · exact (LinkedList.after_of_ne _ hstart.ne').trans hread_next
  · simpa using hstart.ne

theorem initChunk_intact (m : Memory) (hstart : 0 < start)
    (hlarge : nodeHeaderSize + nodeTailerSize < size) (hle : start + size ≤ 2 ^ 64) :
    (initChunk m start size).2.Intact size (initChunk m start size).1 [wholeNode start size] := by
  refine ⟨⟨initChunk_consists m hstart (by omega), ?_, hstart, hle⟩, ?_⟩
  · intro n hn
    rw [List.mem_singleton.mp hn]
    exact hlarge
  · intro n hn hstop
    rw [List.mem_singleton.mp hn] at hstop
    exact absurd rfl hstop

theorem coalesced_wholeNode (start size : ℕ) : Coalesced [wholeNode start size] :=
  List.isChain_singleton _

theorem Arranged.extend (h : Arranged each m layout) (hstart : 0 < start)
    (hlarge : nodeHeaderSize + nodeTailerSize < each) (hle : start + each ≤ 2 ^ 64)
    (hapart : ∀ p ∈ layout, start + each ≤ p.1.start ∨ p.1.start + each ≤ start) :
    Arranged each (initChunk m start each).1
      (((initChunk m start each).2, [wholeNode start each]) :: layout) := by
  have hconfines : (initChunk m start each).2.Confines each m (initChunk m start each).1 := by
    intro z hz
    refine initChunk_confines m start ?_
    change z < start ∨ start + each ≤ z at hz
    omega
  refine ⟨?_, ?_, ?_, List.pairwise_cons.mpr ⟨hapart, h.apart⟩⟩
  · exact List.forall_mem_cons.mpr ⟨initChunk_intact m hstart hlarge hle,
      fun p hp => (h.intact p hp).of_confines hconfines (hapart p hp)⟩
  · exact List.forall_mem_cons.mpr ⟨coalesced_wholeNode start each, h.coalesced⟩
  · exact List.forall_mem_cons.mpr ⟨rfl, h.mempoolSize⟩

end Init

/-! ### The pool -/

theorem totalNeedSize_bounds {size : ℕ}
    (hsize : size + nodeHeaderSize + nodeTailerSize + 8 < 2 ^ 64) :
    size + nodeHeaderSize + nodeTailerSize < totalNeedSize size ∧
      (0 < size → 48 ≤ totalNeedSize size) := by
  have hand : ∀ k, 7 &&& k = k % 8 := fun k => by
    rw [Nat.and_comm]
    exact Nat.and_two_pow_sub_one_eq_mod k 3
  unfold totalNeedSize alignSize nodeHeaderSize nodeTailerSize at *
  rw [hand]
  omega

structure Mempool.InOrder (s : Mempool) (layout : List (Chunk × List Node)) : Prop where
  chunkList : s.chunkList = layout.map Prod.fst
  arranged : Arranged s.eachChunkSize s.memory layout
  large : nodeHeaderSize + nodeTailerSize < s.eachChunkSize
  uniform : s.autoExtend = true → 2 * s.eachChunkSize ≤ s.maxMempoolSize
  max_lt : s.maxMempoolSize < 2 ^ 64
  total : s.totalChunkSize = s.eachChunkSize * layout.length % 2 ^ 64
  limit : s.eachChunkSize ∣ s.maxMempoolSize → s.eachChunkSize * layout.length ≤ s.maxMempoolSize

namespace Mempool

variable {s s' : Mempool} {answers : List (Option ℕ)} {size chunk addr : ℕ}

theorem InOrder.update (h : s.InOrder (l₁ ++ (c, nodes) :: l₂))
    (hintact : c'.Intact s.eachChunkSize m' nodes') (hcoalesced : Coalesced nodes')
    (hconfines : c.Confines s.eachChunkSize s.memory m') (hstart : c'.start = c.start)
    (hsize : c'.mempoolSize = c.mempoolSize) :
    InOrder { s with memory := m', chunkList := l₁.map Prod.fst ++ c' :: l₂.map Prod.fst }
      (l₁ ++ (c', nodes') :: l₂) where
  chunkList := by simp
  arranged := h.arranged.update hintact hcoalesced hconfines hstart hsize
  large := h.large
  uniform := h.uniform
  max_lt := h.max_lt
  total := by
    have htotal := h.total
    rw [List.length_append, List.length_cons] at htotal ⊢
    exact htotal
  limit := by
    have hlimit := h.limit
    rw [List.length_append, List.length_cons] at hlimit ⊢
    exact hlimit

theorem InOrder.needAddSize (h : s.InOrder layout) (hauto : s.autoExtend = true) :
    s.needAddSize = s.eachChunkSize := by
  have huniform := h.uniform hauto
  rw [Mempool.needAddSize, if_pos (by omega)]

theorem InOrder.extendChunkList (h : s.InOrder layout) (hauto : s.autoExtend = true)
    (hroom : s.totalChunkSize < s.maxMempoolSize) (hchunk : s.Offers chunk) :
    (s.extendChunkList s.needAddSize chunk).InOrder
      (((initChunk s.memory (chunk + chunkHeaderSize) s.eachChunkSize).2,
        [wholeNode (chunk + chunkHeaderSize) s.eachChunkSize]) :: layout) := by
  obtain ⟨hpos, hle, hapart⟩ := hchunk
  rw [h.needAddSize hauto] at hle hapart ⊢
  have hmax := h.max_lt
  have htotal := h.total
  refine ⟨?_, h.arranged.extend (by omega) h.large hle ?_, h.large, h.uniform, h.max_lt, ?_, ?_⟩
  · rw [Mempool.extendChunkList, List.map_cons, ← h.chunkList]
  · intro p hp
    have hp' := hapart p.1 (by rw [h.chunkList]; exact List.mem_map_of_mem hp)
    rw [h.arranged.mempoolSize p hp] at hp'
    omega
  · change (s.totalChunkSize + s.eachChunkSize) % 2 ^ 64 = _
    rw [htotal, List.length_cons, Nat.mul_succ, Nat.mod_add_mod]
    rfl
  · intro hdvd
    change s.eachChunkSize ∣ s.maxMempoolSize at hdvd
    have hlimit := h.limit hdvd
    obtain ⟨q, hq⟩ := hdvd
    change s.eachChunkSize * (layout.length + 1) ≤ s.maxMempoolSize
    rw [Nat.mod_eq_of_lt (hlimit.trans_lt hmax)] at htotal
    rw [htotal, hq] at hroom
    rw [hq]
    exact Nat.mul_le_mul_left _ (Nat.lt_of_mul_lt_mul_left hroom)

def Served (size : ℕ) (before after : List Node) : Option ℕ → Prop
  | none => after = before
  | some addr => ∃ n, addr = n.addr + nodeHeaderSize ∧ size ≤ n.dataSize ∧ after.Perm (n :: before)

theorem takeNode_start (m : Memory) (c : Chunk) (need node : ℕ) :
    (takeNode m c need node).2.start = c.start ∧
      (takeNode m c need node).2.mempoolSize = c.mempoolSize := by
  unfold takeNode
  exact ⟨rfl, rfl⟩

theorem heldNodes_replace (hnodes : (allocated nodes').Perm (n :: allocated nodes)) (c c' : Chunk) :
    (heldNodes (l₁ ++ (c', nodes') :: l₂)).Perm (n :: heldNodes (l₁ ++ (c, nodes) :: l₂)) := by
  rw [heldNodes_append, heldNodes_cons, heldNodes_append, heldNodes_cons]
  exact ((hnodes.append_right _).append_left _).trans List.perm_middle

def SameSizes (s s' : Mempool) : Prop :=
  s'.eachChunkSize = s.eachChunkSize ∧ s'.maxMempoolSize = s.maxMempoolSize

theorem InOrder.search (h : s.InOrder layout)
    (hsize : size + nodeHeaderSize + nodeTailerSize < need) :
    allocInChunks s.eachChunkSize need s.memory s.chunkList = .ok none ∨
    ∃ m cs addr layout', allocInChunks s.eachChunkSize need s.memory s.chunkList =
        .ok (some (m, cs, addr)) ∧
      InOrder { s with memory := m, chunkList := cs } layout' ∧
      Served size (heldNodes layout) (heldNodes layout') (some addr) := by
  rw [h.chunkList]
  refine (h.arranged.allocInChunks need).imp_right ?_
  rintro ⟨l₁, c, ns, n, ns', l₂, rfl, hfree, hle, hsome⟩
  have hintact : c.Intact s.eachChunkSize s.memory (ns ++ n :: ns') :=
    h.arranged.intact (c, ns ++ n :: ns') List.mem_append_cons_self
  have hcoalesced : Coalesced (ns ++ n :: ns') :=
    h.arranged.coalesced (c, ns ++ n :: ns') List.mem_append_cons_self
  have hneed : nodeHeaderSize + nodeTailerSize < need := by omega
  obtain ⟨htaken, hconfines⟩ := hintact.takeNode hfree hneed
  obtain ⟨hstart, hmempool⟩ := takeNode_start s.memory c need n.addr
  obtain ⟨size', hsize', halloc⟩ := allocated_taken hle ns ns'
  have hserved : size ≤ ({ addr := n.addr, size := size', free := false } : Node).dataSize := by
    simp only [Node.dataSize]
    omega
  have hperm : (allocated (ns ++ (n.taken need ++ ns'))).Perm
      ({ addr := n.addr, size := size', free := false } :: allocated (ns ++ n :: ns')) := by
    rw [halloc, allocated_append, allocated_cons, if_neg (by simp [hfree])]
    exact List.perm_middle
  exact ⟨_, _, _, _, hsome, h.update htaken (hcoalesced.taken hfree) hconfines hstart hmempool,
    { addr := n.addr, size := size', free := false }, rfl, hserved, heldNodes_replace hperm c _⟩

theorem allocWith_of_found {cs : List Chunk}
    (hsearch : allocInChunks s.eachChunkSize need s.memory s.chunkList = .ok (some (m, cs, addr))) :
    allocWith need answers s = .ok ({ s with memory := m, chunkList := cs }, some addr) := by
  rw [allocWith.eq_def, hsearch]
  rfl

theorem allocWith_of_none {answer : Option ℕ}
    (hsearch : allocInChunks s.eachChunkSize need s.memory s.chunkList = .ok none) :
    allocWith need (answer :: answers) s =
      if s.autoExtend ∧ s.totalChunkSize < s.maxMempoolSize then
        match answer with
        | none => .ok (s, none)
        | some chunk => allocWith need answers (s.extendChunkList s.needAddSize chunk)
      else .ok (s, none) := by
  rw [allocWith.eq_def, hsearch]
  cases answer <;> rfl

theorem InOrder.allocWith_extended (h : s.InOrder layout) (hauto : s.autoExtend = true)
    (hroom : s.totalChunkSize < s.maxMempoolSize) (hchunk : s.Offers chunk)
    (hsize : size + nodeHeaderSize + nodeTailerSize < need) (hneed : need ≤ s.eachChunkSize) :
    ∃ s' addr layout', allocWith need [] (s.extendChunkList s.needAddSize chunk) =
        .ok (s', some addr) ∧ s'.InOrder layout' ∧ s.SameSizes s' ∧
      Served size (heldNodes layout) (heldNodes layout') (some addr) := by
  have hext := h.extendChunkList hauto hroom hchunk
  have hpos := hchunk.1
  have hle := hchunk.2.1
  have hlarge := h.large
  rw [h.needAddSize hauto] at hle
  have hfresh : allocInChunks (s.extendChunkList s.needAddSize chunk).eachChunkSize need
      (s.extendChunkList s.needAddSize chunk).memory
      (s.extendChunkList s.needAddSize chunk).chunkList ≠ .ok none := by
    rw [h.needAddSize hauto]
    refine allocInChunks_fresh ?_ rfl ?_ ?_ hneed
    · change 0 < chunk + chunkHeaderSize
      omega
    · exact (initChunk_reads _ _ (by omega)).1
    · change 0 < s.eachChunkSize
      omega
  rcases hext.search hsize with hnone | ⟨m, cs, addr, layout', hsearch, hin, hserved⟩
  · exact absurd hnone hfresh
  · refine ⟨_, addr, layout', allocWith_of_found hsearch, hin, ⟨rfl, rfl⟩, ?_⟩
    rw [heldNodes_cons, allocated_eq_nil (by simp [wholeNode]), List.nil_append] at hserved
    exact hserved

theorem InOrder.mempoolAlloc (h : s.InOrder layout)
    (hsize : size + nodeHeaderSize + nodeTailerSize + 8 < 2 ^ 64) {chunk : Option ℕ}
    (hchunk : ∀ a ∈ chunk, s.Offers a) :
    ∃ s' r layout', s.mempoolAlloc size [chunk] = .ok (s', r) ∧ s'.InOrder layout' ∧
      s.SameSizes s' ∧ Served size (heldNodes layout) (heldNodes layout') r := by
  unfold Mempool.mempoolAlloc
  split
  · exact ⟨s, none, layout, rfl, h, ⟨rfl, rfl⟩, rfl⟩
  · split
    · exact ⟨s, none, layout, rfl, h, ⟨rfl, rfl⟩, rfl⟩
    · rename_i hlarge
      have hbounds := (totalNeedSize_bounds hsize).1
      rcases h.search hbounds with hnone | ⟨m, cs, addr, layout', hsearch, hin, hserved⟩
      · rw [allocWith_of_none hnone]
        split
        · rename_i hextend
          cases chunk with
          | none => exact ⟨s, none, layout, rfl, h, ⟨rfl, rfl⟩, rfl⟩
          | some chunk =>
            obtain ⟨s', addr, layout', halloc, hin, hsizes, hserved⟩ :=
              h.allocWith_extended hextend.1 hextend.2 (hchunk chunk rfl) hbounds
                (not_lt.mp hlarge)
            exact ⟨s', some addr, layout', halloc, hin, hsizes, hserved⟩
        · exact ⟨s, none, layout, rfl, h, ⟨rfl, rfl⟩, rfl⟩
      · exact ⟨_, some addr, layout', allocWith_of_found hsearch, hin, ⟨rfl, rfl⟩, hserved⟩

/-! ### Giving back -/

theorem freeInChunks_of_mem (hbefore : ∀ p ∈ l₁, ¬ (p.1.start ≤ addr ∧ addr < p.1.start + each))
    (hhere : c.start ≤ addr ∧ addr < c.start + each) (cs : List Chunk) {joined : List Span}
    (hfree : freeNode each m c (addr - nodeHeaderSize) = .ok (m', c', joined)) :
    freeInChunks each m addr (l₁.map Prod.fst ++ c :: cs) =
      .ok (m', l₁.map Prod.fst ++ c' :: cs, { chunk := c, joined := joined }) := by
  induction l₁ with
  | nil =>
    rw [List.map_nil, List.nil_append, freeInChunks, if_pos hhere, hfree]
    rfl
  | cons p l₁ ih =>
    obtain ⟨hp, hrest⟩ := List.forall_mem_cons.mp hbefore
    rw [List.map_cons, List.cons_append, freeInChunks, if_neg hp, ih hrest]
    rfl

/-- `mempool_free` has worked on the chunk that the address lies in, and on nothing else. -/
structure FreedWithin (s : Mempool) (addr : ℕ) (freed : Freed) : Prop where
  mem : freed.chunk ∈ s.chunkList
  contains : freed.chunk.start ≤ addr ∧ addr < freed.chunk.start + freed.chunk.mempoolSize
  joined : ∀ sp ∈ freed.joined, freed.chunk.start ≤ sp.start ∧
    sp.stop ≤ freed.chunk.start + freed.chunk.mempoolSize

theorem InOrder.mempoolFree (h : s.InOrder layout) (hn : n ∈ heldNodes layout) :
    ∃ s' freed layout', s.mempoolFree (n.addr + nodeHeaderSize) = .ok (s', freed) ∧
      s'.InOrder layout' ∧ s.SameSizes s' ∧ (n :: heldNodes layout').Perm (heldNodes layout) ∧
      FreedWithin s (n.addr + nodeHeaderSize) freed := by
  obtain ⟨⟨c, nodes⟩, hp, hnodes, hfree⟩ := mem_heldNodes.mp hn
  obtain ⟨l₁, l₂, rfl⟩ := List.append_of_mem hp
  obtain ⟨ns, ns', rfl⟩ := List.append_of_mem hnodes
  have hintact : c.Intact s.eachChunkSize s.memory (ns ++ n :: ns') := h.arranged.intact _ hp
  have hmempool : c.mempoolSize = s.eachChunkSize := h.arranged.mempoolSize _ hp
  obtain ⟨hfront, hback, -, -⟩ := coalesced_middle.mp (h.arranged.coalesced _ hp)
  obtain ⟨m', c', joined, nodes', hfreed, hmerged⟩ := hintact.freeNode hfree hfront hback
  have hwithin := hintact.tiles.within (List.mem_append_cons_self (a := n))
  have hlarge := hintact.large n List.mem_append_cons_self
  have hhere : c.start ≤ n.addr + nodeHeaderSize ∧
      n.addr + nodeHeaderSize < c.start + s.eachChunkSize := by
    rw [Node.stop] at hwithin
    omega
  have hbefore : ∀ p ∈ l₁, ¬ (p.1.start ≤ n.addr + nodeHeaderSize ∧
      n.addr + nodeHeaderSize < p.1.start + s.eachChunkSize) := by
    intro p hp'
    have hapart := (apart_middle.mp h.arranged.apart).1 p (List.mem_append_left l₂ hp')
    unfold Chunk.Apart at hapart
    omega
  rw [← Nat.add_sub_cancel (n := n.addr) (m := nodeHeaderSize)] at hfreed
  have hsearch := freeInChunks_of_mem hbefore hhere (l₂.map Prod.fst) hfreed
  have hchunks : s.chunkList = l₁.map Prod.fst ++ c :: l₂.map Prod.fst := by
    rw [h.chunkList, List.map_append, List.map_cons]
  refine ⟨{ s with memory := m', chunkList := l₁.map Prod.fst ++ c' :: l₂.map Prod.fst },
    { chunk := c, joined := joined }, _, ?_,
    h.update hmerged.intact hmerged.coalesced hmerged.confines hmerged.start hmerged.mempoolSize,
    ⟨rfl, rfl⟩, ?_, ⟨?_, ?_, ?_⟩⟩
  · rw [Mempool.mempoolFree, hchunks, hsearch]
    rfl
  · refine (heldNodes_replace ?_ c' c).symm
    rw [hmerged.allocated, allocated_append, allocated_cons, if_pos hfree]
    exact List.perm_middle
  · rw [hchunks]
    exact List.mem_append_cons_self
  · rw [hmempool]
    exact hhere
  · rw [hmempool]
    exact hmerged.joined

end Mempool

/-! ### The nodes of all chunks -/

def Node.Apart (n n' : Node) : Prop := n.stop ≤ n'.addr ∨ n'.stop ≤ n.addr

instance : Std.Symm Node.Apart := ⟨fun _ _ => Or.symm⟩

theorem Arranged.nodes_apart (h : Arranged each m layout) :
    (layout.flatMap Prod.snd).Pairwise Node.Apart := by
  refine List.pairwise_flatMap.mpr ⟨fun p hp => ?_, h.apart.imp_of_mem fun {p q} hp hq hapart => ?_⟩
  · exact (h.intact p hp).placed.apart.imp .inl
  · intro n hn n' hn'
    have hwithin := (h.intact p hp).tiles.within hn
    have hwithin' := (h.intact q hq).tiles.within hn'
    unfold Chunk.Apart at hapart
    unfold Node.Apart
    omega

theorem heldNodes_sublist (layout : List (Chunk × List Node)) :
    (heldNodes layout).Sublist (layout.flatMap Prod.snd) := by
  have heq : heldNodes layout = (layout.flatMap Prod.snd).filter fun n => n.free = false := by
    rw [List.filter_flatMap]
    rfl
  rw [heq]
  exact List.filter_sublist

theorem Node.bytes_outside_data (hlarge : nodeHeaderSize + nodeTailerSize < n.size) {f : NodeField}
    (hf : f ∈ n.fields) {z : ℕ} (hz : z ∈ nodeLayout.bytes f) :
    z < n.addr + nodeHeaderSize ∨ n.addr + nodeHeaderSize + n.dataSize ≤ z := by
  simp only [Node.fields, Set.mem_insert_iff, Set.mem_singleton_iff] at hf
  simp only [Node.dataSize, nodeHeaderSize, nodeTailerSize] at hlarge ⊢
  rcases hf with rfl | rfl | rfl | rfl | rfl <;>
  · simp only [FieldLayout.bytes, nodeLayout, Set.mem_Ico, Node.stop, nodeTailerSize] at hz
    omega

theorem Arranged.write (h : Arranged each m layout) (hn : n ∈ layout.flatMap Prod.snd)
    (hdata : offset + data.length ≤ n.dataSize) :
    Arranged each (m.store (n.addr + nodeHeaderSize + offset) data) layout := by
  refine ⟨fun q hq => (h.intact q hq).congr_bytes fun x hx f hf z hz => ?_, h.coalesced,
    h.mempoolSize, h.apart⟩
  refine m.store_apply_outside _ _ ?_
  have hlarge := (h.intact q hq).large x hx
  rcases eq_or_ne n x with rfl | hne
  · have houtside := Node.bytes_outside_data hlarge hf hz
    omega
  · have hapart := h.nodes_apart.forall hn (List.mem_flatMap.mpr ⟨q, hq, hx⟩) hne
    have hbytes := Node.bytes_subset hlarge hf hz
    rw [Set.mem_Ico] at hbytes
    simp only [Node.dataSize] at hdata
    unfold Node.Apart at hapart
    rw [Node.stop] at hapart
    omega

theorem Mempool.InOrder.write {s : Mempool} (h : s.InOrder layout) (hn : n ∈ heldNodes layout)
    (hdata : offset + data.length ≤ n.dataSize) :
    InOrder { s with memory := s.memory.store (n.addr + nodeHeaderSize + offset) data } layout where
  chunkList := h.chunkList
  arranged := h.arranged.write ((heldNodes_sublist layout).subset hn) hdata
  large := h.large
  uniform := h.uniform
  max_lt := h.max_lt
  total := h.total
  limit := h.limit

end NtSocks.Ntkv
