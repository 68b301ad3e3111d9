import NtSocks.Ntkv.MempoolChunk

/-!
# Taking and giving back the nodes of a chunk

What `mempool_alloc` and `mempool_free` do to the chunk that they work on. Both leave it in order
and write nothing outside of it, and after a release no two free nodes are neighbours.
-/

namespace NtSocks.Ntkv

open Function

open BlockHeap (Fault)

variable {each need : ℕ} {m m' : Memory} {F : NodeField → ℕ} {c : Chunk} {n : Node}
  {nodes ns ns' : List Node} {k : Node} {free : Bool} {head fuel : ℕ}

def Node.taken (need : ℕ) (n : Node) : List Node :=
  if need + nodeHeaderSize + nodeTailerSize < n.size then
    [{ n with size := need, free := false },
      { addr := n.addr + need, size := n.size - need, free := true }]
  else [{ n with free := false }]

structure Chunk.Intact (each : ℕ) (m : Memory) (c : Chunk) (nodes : List Node) : Prop
    extends Chunk.Sound each (getField m) c nodes where
  tailed : Tailed (getField m) (c.start + each) nodes

def Chunk.Confines (each : ℕ) (c : Chunk) (m m' : Memory) : Prop :=
  ∀ z, z < c.start ∨ c.start + each ≤ z → m' z = m z

theorem Writes.confines (h : Writes nodes m m' F) (htiles : Tiles c.start (c.start + each) nodes)
    (hlarge : ∀ n ∈ nodes, nodeHeaderSize + nodeTailerSize < n.size) : c.Confines each m m' := by
  intro z hz
  refine h.keeps z ?_
  rintro f ⟨n, hn, hf⟩ hmem
  have hin := Node.bytes_subset (hlarge n hn) hf hmem
  have hbounds := htiles.within hn
  rw [Set.mem_Ico] at hin
  omega

theorem Chunk.Sound.congr {F' : NodeField → ℕ} (h : c.Sound each F nodes)
    (hF : ∀ f ∈ fieldsOf nodes, F' f = F f) : c.Sound each F' nodes :=
  ⟨h.toConsists.congr fun f hf _ => hF f hf, h.large, h.pos, h.le⟩

theorem Writes.intact {ns : List Node} (h : Writes ns m m' F) (hs : c.Sound each F nodes)
    (ht : Tailed F (c.start + each) nodes) (hsub : fieldsOf nodes ⊆ fieldsOf ns) :
    c.Intact each m' nodes := by
  refine ⟨hs.congr fun f hf => h.reads f (hsub hf), fun n hn hstop => ?_⟩
  rw [h.reads _ (hsub ⟨n, hn, by simp [Node.fields]⟩), ht n hn hstop]

theorem Listed.head_mem (h : Listed F head free nodes) : head ∈ 0 :: nodes.map (·.addr) := by
  obtain ⟨l, hl, hperm⟩ := h
  exact List.cons_subset_cons 0 (fun y hy => addrsOf_subset (hperm.subset hy)) hl.head_mem

theorem Listed.neighbours_mem {x : ℕ} (h : Listed F head free nodes) (hx : x ∈ addrsOf free nodes) :
    F (.pre x) ∈ 0 :: nodes.map (·.addr) ∧ F (.next x) ∈ 0 :: nodes.map (·.addr) := by
  obtain ⟨l, hl, hperm⟩ := h
  obtain ⟨hpre, hnext, -⟩ := hl.neighbours_mem (hperm.symm.subset hx)
  have hsub : 0 :: l ⊆ 0 :: nodes.map (·.addr) :=
    List.cons_subset_cons 0 fun y hy => addrsOf_subset (hperm.subset hy)
  exact ⟨hsub hpre, hsub hnext⟩

section Splitting

variable {node : ℕ}

def Chunk.withTaken (c : Chunk) (freeList node size : ℕ) : Chunk :=
  { c with
    freeList := freeList
    allocList := node
    allocChunkSize := c.allocChunkSize + size
    allocDataSize := c.allocDataSize + (size - nodeHeaderSize - nodeTailerSize) }

theorem takeNode_split (h : need + nodeHeaderSize + nodeTailerSize < getField m (.nodeSize node)) :
    takeNode m c need node = let r := splitNode m c.freeList need node
      let m' := (nodeInsert r.1 c.allocList node).1
      (m', c.withTaken r.2 node (getField m' (.nodeSize node))) := by
  simp only [takeNode, if_pos h]
  rfl

theorem takeNode_whole (h : ¬need + nodeHeaderSize + nodeTailerSize < getField m (.nodeSize node)) :
    takeNode m c need node = let r := nodeDelete m c.freeList node
      let m' := (nodeInsert (setField r.1 (.isFree node) 0) c.allocList node).1
      (m', c.withTaken r.2 node (getField m' (.nodeSize node))) := by
  simp only [takeNode, if_neg h]
  rfl

end Splitting

theorem Placed.delete {m₀ : Memory} {x : ℕ} (hp : Placed ns) (h : Writes ns m₀ m F)
    (hl : Listed F head free nodes) (hx : x ∈ addrsOf free nodes)
    (hsub : nodes.map (·.addr) ⊆ ns.map (·.addr)) :
    Writes ns m₀ (Ntkv.nodeDelete m head x).1 (unlink F x) ∧
      (Ntkv.nodeDelete m head x).2 = if F (.pre x) = 0 then F (.next x) else head := by
  obtain ⟨l, hl, hperm⟩ := hl
  exact hp.nodeDelete h hl (fun y hy => hsub (addrsOf_subset (hperm.subset hy)))
    (hperm.symm.subset hx)

theorem fieldsOf_moved (ns ns' : List Node) (n : Node) (free : Bool) :
    fieldsOf (ns ++ { n with free := free } :: ns') = fieldsOf (ns ++ n :: ns') := by
  ext f
  simp only [fieldsOf, Set.mem_ofPred_eq, mem_middle, exists_eq_or_imp]
  rfl

namespace Chunk.Intact

variable (h : c.Intact each m (ns ++ n :: ns'))

include h

theorem tailed_moved (head : ℕ) (free : Bool) :
    Tailed (moved (getField m) head n.addr free) (c.start + each)
      (ns ++ { n with free := free } :: ns') := by
  intro x hx hstop
  rw [moved_tailer]
  rcases mem_middle.mp hx with rfl | hx
  · exact h.tailed n List.mem_append_cons_self hstop
  · exact h.tailed x (mem_middle.mpr (.inr hx)) hstop

theorem takeNode_whole (hfree : n.free = true)
    (hle : ¬need + nodeHeaderSize + nodeTailerSize < n.size) :
    (takeNode m c need n.addr).2.Intact each (takeNode m c need n.addr).1
        (ns ++ { n with free := false } :: ns') ∧
      c.Confines each m (takeNode m c need n.addr).1 := by
  have hp := h.placed
  have hmem : n ∈ ns ++ n :: ns' := List.mem_append_cons_self
  have haddr : n.addr ∈ (ns ++ n :: ns').map (·.addr) := List.mem_map_of_mem hmem
  obtain ⟨h₁, hhead⟩ := hp.delete (.refl _ m) h.freeList (x := n.addr) (by simp [hfree])
    (fun _ => id)
  have h₂ := h₁.set hp (mem_fieldsOf haddr).2.1 (v := 0) (by simp [nodeLayout])
  have h₃ := hp.nodeInsert h₂ h.allocList.head_mem haddr
  have hsize := h₃.reads _ (mem_fieldsOf haddr).1
  rw [pushFront_nodeSize, update_of_ne (by simp), unlink_nodeSize, h.size n hmem] at hsize
  rw [Ntkv.takeNode_whole (by rwa [h.size n hmem])]
  dsimp only
  rw [hsize, hhead]
  have h₄ : Writes _ m _ (moved (getField m) c.allocList n.addr false) :=
    h₃.congr fun f _ => by cases f <;> simp [moved, pushFront, update_apply]
  exact ⟨h₄.intact (h.take hfree) (h.tailed_moved _ _) (fieldsOf_moved ns ns' n false).le,
    h₃.confines h.tiles h.large⟩

theorem takeNode_split (hfree : n.free = true) (hneed : nodeHeaderSize + nodeTailerSize < need)
    (hlt : need + nodeHeaderSize + nodeTailerSize < n.size) :
    (takeNode m c need n.addr).2.Intact each (takeNode m c need n.addr).1
        (ns ++ { n with size := need, free := false } ::
          { addr := n.addr + need, size := n.size - need, free := true } :: ns') ∧
      c.Confines each m (takeNode m c need n.addr).1 := by
  have hs := h.toSound.split hfree hneed hlt
  have hp := hs.placed
  have hmem : n ∈ ns ++ n :: ns' := List.mem_append_cons_self
  have hsub : (ns ++ n :: ns').map (·.addr) ⊆ (ns ++ { n with size := need, free := false } ::
      { addr := n.addr + need, size := n.size - need, free := true } :: ns').map (·.addr) := by
    intro y hy
    simp only [List.map_append, List.map_cons, List.mem_append, List.mem_cons] at hy ⊢
    tauto
  have hinside : n.addr + need ∉ 0 :: (ns ++ n :: ns').map (·.addr) :=
    h.notMem_inside (by omega) (by omega)
  obtain ⟨hpre, hnext⟩ := h.freeList.neighbours_mem (x := n.addr) (by simp [hfree])
  have hsize := h.size n hmem
  obtain ⟨h₁, hhead⟩ := hp.splitNode c.freeList need (.refl _ m) (x := n.addr) (by simp)
    (by simp [hsize]) (List.cons_subset_cons 0 hsub hpre)
    (List.cons_subset_cons 0 hsub hnext) (fun heq => hinside (heq ▸ hpre))
    (by rw [h.flag n hmem, hfree]; decide)
  have haddr := hsub (List.mem_map_of_mem hmem)
  have h₂ := hp.nodeInsert h₁ (List.cons_subset_cons 0 hsub h.allocList.head_mem) haddr
  have hread := h₂.reads _ (mem_fieldsOf haddr).1
  rw [pushFront_nodeSize, splitFields, if_pos rfl] at hread
  rw [Ntkv.takeNode_split (by rwa [hsize])]
  dsimp only
  rw [hread, hhead]
  refine ⟨h₂.intact hs ?_ (fun _ => id), h₂.confines hs.tiles hs.large⟩
  intro x hx hstop
  rw [pushFront_tailer]
  rcases mem_middle.mp hx with rfl | hx
  · exact if_pos rfl
  rcases mem_middle.mp hx with rfl | hx
  · rw [splitFields, hsize]
    simp only [Node.stop]
    rw [if_neg (by omega), if_pos trivial]
  · have hx' : x ∈ ns ++ n :: ns' := mem_middle.mpr (.inr hx)
    have horder := h.placed.order hx' hmem fun heq => h.placed.addr_ne hx (heq ▸ rfl)
    have hlarge := h.large x hx'
    have htail := h.tailed x hx' hstop
    simp only [Node.stop] at horder htail ⊢
    rw [splitFields, hsize, if_neg (by omega), if_neg (by omega), htail]

end Chunk.Intact

def allocated (nodes : List Node) : List Node := nodes.filter fun n => n.free = false

def Coalesced (nodes : List Node) : Prop :=
  nodes.IsChain fun n n' => n.free = true → n'.free = false

@[simp] theorem allocated_append : allocated (ns ++ ns') = allocated ns ++ allocated ns' := by
  simp [allocated]

@[simp] theorem allocated_cons :
    allocated (n :: ns) = if n.free = false then n :: allocated ns else allocated ns := by
  unfold allocated
  split <;> simp [*]

theorem mem_allocated : n ∈ allocated nodes ↔ n ∈ nodes ∧ n.free = false := by
  simp [allocated]

/-! ### The search for a free node -/

theorem findFree_spec (need : ℕ) {p : ℕ} {l : List ℕ}
    (hl : (linksOf (getField m) head).LinkedFrom 0 p l) (hne : ∀ y ∈ l, y ≠ 0)
    (hfuel : l.length ≤ fuel) :
    ∃ r, findFree m need fuel ((linksOf (getField m) head).after 0 p) = .ok r ∧
      ∀ y ∈ r, y ∈ l ∧ need ≤ getField m (.nodeSize y) := by
  induction l generalizing p fuel with
  | nil =>
      refine ⟨none, ?_, by simp⟩
      rw [show (linksOf (getField m) head).after 0 p = 0 from hl]
      cases fuel <;> rfl
  | cons x l ih =>
      obtain ⟨hx, -, hrest⟩ := hl
      obtain ⟨hx0, hl0⟩ := List.forall_mem_cons.mp hne
      cases fuel with
      | zero => cases hfuel
      | succ fuel =>
          rw [hx, findFree, if_neg hx0]
          split
          · rename_i hlarge
            refine ⟨some x, rfl, ?_⟩
            intro y hy
            cases hy
            exact ⟨List.mem_cons_self, hlarge⟩
          · obtain ⟨r, hr, hspec⟩ := ih hrest hl0 (Nat.le_of_succ_le_succ hfuel)
            rw [LinkedList.after_of_ne _ hx0] at hr
            exact ⟨r, hr, fun y hy => ⟨List.mem_cons_of_mem x (hspec y hy).1, (hspec y hy).2⟩⟩

theorem length_addrsOf_le (free : Bool) (nodes : List Node) :
    (addrsOf free nodes).length ≤ nodes.length := by
  rw [addrsOf, List.length_map]
  exact List.length_filter_le _ _

namespace Chunk.Intact

theorem length_le (h : c.Intact each m nodes) : nodes.length ≤ each := by
  have hlength := h.tiles.length_le fun n hn => Nat.zero_lt_of_lt (h.large n hn)
  omega

theorem findFree (h : c.Intact each m nodes) (need : ℕ) :
    ∃ r, Ntkv.findFree m need each c.freeList = .ok r ∧
      ∀ y ∈ r, ∃ n ∈ nodes, n.free = true ∧ n.addr = y ∧ need ≤ n.size := by
  obtain ⟨l, hl, hperm⟩ := h.freeList
  have hfuel : l.length ≤ each :=
    hperm.length_eq.le.trans ((length_addrsOf_le true nodes).trans h.length_le)
  obtain ⟨r, hr, hspec⟩ := findFree_spec need hl.linked (fun y hy => hl.ne_null hy) hfuel
  rw [LinkedList.after_null] at hr
  refine ⟨r, hr, fun y hy => ?_⟩
  obtain ⟨hmem, hlarge⟩ := hspec y hy
  obtain ⟨n, hn, rfl⟩ := List.mem_map.mp (hperm.subset hmem)
  obtain ⟨hn, hfree⟩ := List.mem_filter.mp hn
  rw [h.size n hn] at hlarge
  exact ⟨n, hn, of_decide_eq_true hfree, rfl, hlarge⟩

theorem takeNode (h : c.Intact each m (ns ++ n :: ns')) (hfree : n.free = true)
    (hneed : nodeHeaderSize + nodeTailerSize < need) :
    (Ntkv.takeNode m c need n.addr).2.Intact each (Ntkv.takeNode m c need n.addr).1
        (ns ++ (n.taken need ++ ns')) ∧
      c.Confines each m (Ntkv.takeNode m c need n.addr).1 := by
  unfold Node.taken
  by_cases hlt : need + nodeHeaderSize + nodeTailerSize < n.size
  · rw [if_pos hlt]
    exact h.takeNode_split hfree hneed hlt
  · rw [if_neg hlt]
    exact h.takeNode_whole hfree hlt

end Chunk.Intact

theorem allocated_taken (hle : need ≤ n.size) (ns ns' : List Node) :
    ∃ size, need ≤ size ∧ allocated (ns ++ (n.taken need ++ ns')) =
      allocated ns ++ { addr := n.addr, size := size, free := false } :: allocated ns' := by
  unfold Node.taken
  split
  · exact ⟨need, le_rfl, by simp⟩
  · exact ⟨n.size, hle, by simp⟩

theorem coalesced_middle : Coalesced (ns ++ n :: ns') ↔
    Coalesced ns ∧ Coalesced ns' ∧ (∀ p ∈ ns.getLast?, p.free = true → n.free = false) ∧
      ∀ p ∈ ns'.head?, n.free = true → p.free = false := by
  unfold Coalesced
  rw [List.isChain_append, List.isChain_cons]
  simp only [List.head?_cons, Option.mem_some_iff, forall_eq']
  tauto

theorem Coalesced.taken (h : Coalesced (ns ++ n :: ns')) (hfree : n.free = true) :
    Coalesced (ns ++ (n.taken need ++ ns')) := by
  obtain ⟨hfront, hback, -, hnext⟩ := coalesced_middle.mp h
  unfold Node.taken
  split
  · refine coalesced_middle.mpr ⟨hfront, ?_, fun _ _ _ => rfl, fun _ _ hfalse => by cases hfalse⟩
    exact List.isChain_cons.mpr ⟨fun p hp _ => hnext p hp hfree, hback⟩
  · exact coalesced_middle.mpr ⟨hfront, hback, fun _ _ _ => rfl, fun _ _ hfalse => by cases hfalse⟩

/-! ### Merging -/

theorem allocated_eq_nil (h : ∀ n ∈ ns, n.free = true) : allocated ns = [] := by
  rw [allocated, List.filter_eq_nil_iff]
  intro n hn
  simp [h n hn]

theorem Chunk.Intact.mergeBack (h : c.Intact each m (ns ++ n :: ns')) (hfree : n.free = true)
    (hfuel : ns.length + 2 ≤ fuel) (curr : ℕ) :
    ∃ front k back, ns ++ [n] = front ++ k :: back ∧ (∀ x ∈ k :: back, x.free = true) ∧
      (∀ p ∈ front.getLast?, p.free = false) ∧
      Ntkv.mergeBack m c.start fuel n.addr curr = .ok k.addr := by
  induction ns using List.reverseRecOn generalizing n ns' fuel curr with
  | nil =>
      have hflag : getField m (.isFree n.addr) ≠ 0 := by
        rw [h.flag n List.mem_cons_self, hfree]
        exact Nat.one_ne_zero
      have hstart : n.addr = c.start := h.tiles.1
      obtain ⟨fuel, rfl⟩ : ∃ k, fuel = k + 1 := ⟨fuel - 1, by omega⟩
      refine ⟨[], n, [], rfl, by simp [hfree], by simp, ?_⟩
      rw [Ntkv.mergeBack, if_neg hflag, if_pos]
      omega
  | append_singleton ns p ih =>
      rw [List.append_assoc, List.singleton_append] at h
      rw [List.length_append, List.length_singleton] at hfuel
      have hp : p ∈ ns ++ p :: n :: ns' := List.mem_append_cons_self
      have hn : n ∈ ns ++ p :: n :: ns' := by simp
      have hflag : getField m (.isFree n.addr) ≠ 0 := by
        rw [h.flag n hn, hfree]
        exact Nat.one_ne_zero
      have hstop : n.addr = p.stop := by
        obtain ⟨-, -, -, hnext, -⟩ := tiles_append.mp h.tiles
        exact hnext
      have hlarge := h.large p hp
      have hlarge' := h.large n hn
      have hwithin := h.tiles.within hp
      have hwithin' := h.tiles.within hn
      have htail : getField m (.tailer n.addr) = p.addr := by
        rw [hstop]
        refine h.tailed p hp ?_
        rw [← hstop]
        rw [Node.stop] at hwithin'
        omega
      have hnot : ¬ n.addr - nodeTailerSize - nodeHeaderSize ≤ c.start := by
        rw [hstop, Node.stop]
        omega
      obtain ⟨fuel, rfl⟩ : ∃ k, fuel = k + 1 := ⟨fuel - 1, by omega⟩
      rw [Ntkv.mergeBack, if_neg hflag, if_neg hnot, htail]
      cases hpfree : p.free with
      | true =>
          obtain ⟨front, k, back, heq, hall, hlast, hback⟩ :=
            ih h hpfree (by omega : ns.length + 2 ≤ fuel) n.addr
          refine ⟨front, k, back ++ [n], ?_, ?_, hlast, hback⟩
          · rw [heq, List.append_assoc, List.cons_append]
          · rw [← List.cons_append]
            exact List.forall_mem_append.mpr ⟨hall, List.forall_mem_singleton.mpr hfree⟩
      | false =>
          obtain ⟨fuel, rfl⟩ : ∃ k, fuel = k + 1 := ⟨fuel - 1, by omega⟩
          refine ⟨ns ++ [p], n, [], rfl, by simp [hfree], by simp [hpfree], ?_⟩
          rw [Ntkv.mergeBack, if_pos]
          rw [h.flag p hp, hpfree]
          rfl

theorem fieldsOf_absorbed {x : Node} (hstop : x.addr = k.stop) (ns ns' : List Node) :
    fieldsOf (ns ++ { k with size := k.size + x.size } :: ns') ⊆
      fieldsOf (ns ++ k :: x :: ns') := by
  rintro f ⟨y, hy, hf⟩
  rcases mem_middle.mp hy with rfl | hy
  · simp only [Node.fields, Set.mem_insert_iff, Set.mem_singleton_iff] at hf
    rcases hf with hf | hf | hf | hf | hf
    iterate 4 exact ⟨k, by simp, by simp [Node.fields, hf]⟩
    · have hend : ({ k with size := k.size + x.size } : Node).stop = x.stop := by
        simp only [Node.stop] at hstop ⊢
        omega
      exact ⟨x, by simp, by simp [Node.fields, hf, hend]⟩
  · exact ⟨y, mem_middle.mpr (.inr (mem_middle.mpr (.inr hy))), hf⟩

def joinNode (m : Memory) (freeList k x : ℕ) : Memory :=
  let m := (nodeDelete m freeList x).1
  setField m (.nodeSize k) (getField m (.nodeSize k) + getField m (.nodeSize x))

theorem mergeForward_join {stop curr freeList next : ℕ}
    (hgo : next < stop ∧ getField m (.isFree next) ≠ 0) :
    mergeForward stop curr (fuel + 1) m freeList next =
      (mergeForward stop curr fuel (joinNode m freeList curr next) (nodeDelete m freeList next).2
        (next + getField (joinNode m freeList curr next) (.nodeSize next))).map
          fun r => (r.1, r.2.1, nodeSpan (joinNode m freeList curr next) next :: r.2.2) := by
  rw [mergeForward, if_pos hgo]
  rfl

section Join

variable {k x : Node} (h : c.Sound each (getField m) (ns ++ k :: x :: ns')) (hk : k.free = true)
  (hx : x.free = true)

include h

theorem Chunk.Sound.addr_eq_stop : x.addr = k.stop := by
  obtain ⟨-, -, -, hnext, -⟩ := tiles_append.mp h.tiles
  exact hnext

include hk hx

theorem Chunk.Sound.joinNode_writes :
    Writes (ns ++ k :: x :: ns') m (joinNode m c.freeList k.addr x.addr)
        (update (unlink (getField m) x.addr) (.nodeSize k.addr) (k.size + x.size)) ∧
      (nodeDelete m c.freeList x.addr).2 =
        if getField m (.pre x.addr) = 0 then getField m (.next x.addr) else c.freeList := by
  have hp := h.placed
  have hkmem : k ∈ ns ++ k :: x :: ns' := by simp
  have hxmem : x ∈ ns ++ k :: x :: ns' := by simp
  obtain ⟨hsize_k, -⟩ := mem_fieldsOf (List.mem_map_of_mem hkmem)
  obtain ⟨hsize_x, -⟩ := mem_fieldsOf (List.mem_map_of_mem hxmem)
  obtain ⟨h₁, hhead⟩ := hp.delete (.refl _ m) h.freeList (x := x.addr) (by simp [hk, hx])
    (fun _ => id)
  have hread_k := h₁.reads _ hsize_k
  have hread_x := h₁.reads _ hsize_x
  rw [unlink_nodeSize, h.size k hkmem] at hread_k
  rw [unlink_nodeSize, h.size x hxmem] at hread_x
  have hbound : k.size + x.size < 2 ^ 64 := by
    have hstop := h.addr_eq_stop
    have hlt := hp.lt x hxmem
    have hpos := hp.pos k hkmem
    simp only [Node.stop] at hlt hstop
    omega
  refine ⟨?_, hhead⟩
  rw [joinNode, hread_k, hread_x]
  exact h₁.set hp hsize_k (word_lt hbound)

theorem Chunk.Sound.join (ht : Tailed (getField m) (c.start + each) (ns ++ x :: ns')) :
    Sound each (getField (joinNode m c.freeList k.addr x.addr))
        { c with freeList := (nodeDelete m c.freeList x.addr).2 }
        (ns ++ { k with size := k.size + x.size } :: ns') ∧
      Tailed (getField (joinNode m c.freeList k.addr x.addr)) (c.start + each) (ns ++ ns') ∧
      c.Confines each m (joinNode m c.freeList k.addr x.addr) ∧
      getField (joinNode m c.freeList k.addr x.addr) (.nodeSize x.addr) = x.size := by
  obtain ⟨hw, hhead⟩ := h.joinNode_writes hk hx
  have hkmem : k ∈ ns ++ k :: x :: ns' := by simp
  have hxmem : x ∈ ns ++ k :: x :: ns' := by simp
  have hstop := h.addr_eq_stop
  refine ⟨?_, ?_, hw.confines h.tiles h.large, ?_⟩
  · rw [hhead]
    exact (h.absorb hk hx).congr fun f hf => hw.reads f (fieldsOf_absorbed hstop ns ns' hf)
  · intro y hy hy'
    have hmem : y ∈ ns ++ k :: x :: ns' := mem_middle.mpr (.inr (mem_middle.mpr (.inr hy)))
    rw [hw.reads _ (mem_tailer hmem), update_of_ne (by simp), unlink_tailer]
    exact ht y (mem_middle.mpr (.inr hy)) hy'
  · have hne : NodeField.nodeSize x.addr ≠ .nodeSize k.addr := by
      have hlarge := h.large k hkmem
      rw [Node.stop] at hstop
      intro heq
      have haddr := NodeField.nodeSize.inj heq
      omega
    rw [hw.reads _ (mem_fieldsOf (List.mem_map_of_mem hxmem)).1, update_of_ne hne,
      unlink_nodeSize, h.size x hxmem]

end Join

theorem Chunk.Sound.mergeForward {front rest : List Node}
    (h : c.Sound each (getField m) (front ++ k :: rest)) (hk : k.free = true)
    (ht : Tailed (getField m) (c.start + each) (front ++ rest)) (hfuel : rest.length < fuel) :
    ∃ m' freeList size run rest', rest = run ++ rest' ∧ (∀ x ∈ run, x.free = true) ∧
      (∀ x ∈ rest'.head?, x.free = false) ∧
      Ntkv.mergeForward (c.start + each) k.addr fuel m c.freeList k.stop =
        .ok (m', freeList, run.map Node.span) ∧
      Sound each (getField m') { c with freeList := freeList }
        (front ++ { k with size := size } :: rest') ∧
      Tailed (getField m') (c.start + each) (front ++ rest') ∧ c.Confines each m m' := by
  induction rest generalizing m c k fuel with
  | nil =>
      obtain ⟨fuel, rfl⟩ : ∃ j, fuel = j + 1 := ⟨fuel - 1, by omega⟩
      have hend : k.stop = c.start + each := by
        obtain ⟨-, -, -, hend⟩ := tiles_append.mp h.tiles
        exact hend
      refine ⟨m, c.freeList, k.size, [], [], rfl, by simp, by simp, ?_, h, ht, fun _ _ => rfl⟩
      rw [Ntkv.mergeForward, if_neg fun hgo => absurd hgo.1 (by omega)]
      rfl
  | cons x rest ih =>
      obtain ⟨fuel, rfl⟩ : ∃ j, fuel = j + 1 := ⟨fuel - 1, by omega⟩
      have hxmem : x ∈ front ++ k :: x :: rest := by simp
      have hstop := h.addr_eq_stop
      cases hx : x.free with
      | false =>
          refine ⟨m, c.freeList, k.size, [], x :: rest, rfl, by simp, by simp [hx], ?_, h, ht,
            fun _ _ => rfl⟩
          rw [Ntkv.mergeForward, if_neg]
          · rfl
          · rintro ⟨-, hflag⟩
            rw [← hstop, h.flag x hxmem, hx] at hflag
            exact hflag rfl
      | true =>
          have hgo : k.stop < c.start + each ∧ getField m (.isFree k.stop) ≠ 0 := by
            have hlarge := h.large x hxmem
            have hwithin := (h.tiles.within hxmem).2
            rw [← hstop, h.flag x hxmem, hx]
            rw [Node.stop] at hwithin
            exact ⟨by omega, Nat.one_ne_zero⟩
          obtain ⟨h₂, ht₂, hconfines, hsize⟩ := h.join hk hx ht
          obtain ⟨m', freeList', size, run, rest', hrest, hrun, hhead, hmerge, hs', ht',
              hconfines'⟩ :=
            ih h₂ hk ht₂ (Nat.lt_of_succ_lt_succ hfuel)
          refine ⟨m', freeList', size, x :: run, rest', by rw [hrest]; rfl, ?_, hhead, ?_, hs', ht',
            fun z hz => (hconfines' z hz).trans (hconfines z hz)⟩
          · exact List.forall_mem_cons.mpr ⟨hx, hrun⟩
          · have hnext : x.addr + x.size = ({ k with size := k.size + x.size } : Node).stop := by
              simp only [Node.stop] at hstop ⊢
              omega
            have hspan : nodeSpan (joinNode m c.freeList k.addr x.addr) x.addr = x.span := by
              ext
              · rfl
              · exact congrArg (x.addr + ·) hsize
            rw [← hstop, mergeForward_join (hstop ▸ hgo), hsize, hnext, hmerge, List.map_cons,
              ← hspan]
            rfl

theorem Chunk.Sound.setTailer (h : c.Sound each (getField m) (ns ++ k :: ns'))
    (ht : Tailed (getField m) (c.start + each) (ns ++ ns')) :
    c.Intact each (setField m (.tailer k.stop) k.addr) (ns ++ k :: ns') ∧
      c.Confines each m (setField m (.tailer k.stop) k.addr) := by
  have hp := h.placed
  have hk : k ∈ ns ++ k :: ns' := List.mem_append_cons_self
  have hw := (Writes.refl _ m).set hp (mem_tailer hk) (word_lt (hp.addr_lt hk))
  have hsound : Sound each (update (getField m) (.tailer k.stop) k.addr) c
      (ns ++ k :: ns') := by
    refine ⟨h.toConsists.congr fun f _ hf => ?_, h.large, h.pos, h.le⟩
    exact update_of_ne (hf k.stop) _ _
  refine ⟨hw.intact hsound ?_ fun _ => id, hw.confines h.tiles h.large⟩
  intro x hx hstop
  rcases mem_middle.mp hx with rfl | hx
  · exact update_self _ _ _
  · have hne : NodeField.tailer x.stop ≠ .tailer k.stop := by
      have hx' : x ∈ ns ++ k :: ns' := mem_middle.mpr (.inr hx)
      have horder := hp.order hx' hk fun heq => hp.addr_ne hx (heq ▸ rfl)
      have hlarge := h.large x hx'
      have hlarge' := h.large k hk
      intro heq
      have hend := NodeField.tailer.inj heq
      simp only [Node.stop] at horder hend
      omega
    rw [update_of_ne hne]
    exact ht x hx hstop

theorem suffix_of_run {run rest' back : List Node} (heq : run ++ rest' = back ++ ns')
    (hrun : ∀ x ∈ run, x.free = true) (hback : ∀ x ∈ back, x.free = true)
    (hhead : ∀ x ∈ rest'.head?, x.free = false) :
    ∃ more, ns' = more ++ rest' ∧ ∀ x ∈ more, x.free = true := by
  rcases List.append_eq_append_iff.mp heq with ⟨more, hmore, hrest⟩ | ⟨more, hmore, hrest⟩
  · cases more with
    | nil => exact ⟨[], by rw [hrest]; rfl, by simp⟩
    | cons x more =>
        -- a free node would be left over
        have hfalse := hhead x (by rw [hrest]; rfl)
        rw [hback x (by rw [hmore]; simp)] at hfalse
        cases hfalse
  · exact ⟨more, hrest, fun x hx => hrun x (by rw [hmore]; exact List.mem_append_right _ hx)⟩

theorem exists_append_of_split {front back : List Node} (hsplit : ns ++ [n] = front ++ k :: back) :
    ∃ taken, ns = front ++ taken := by
  rcases List.eq_nil_or_concat back with rfl | ⟨back', last, rfl⟩
  · refine ⟨[], ?_⟩
    rw [List.append_nil]
    exact List.append_inj_left' hsplit rfl
  · refine ⟨k :: back', ?_⟩
    rw [List.concat_eq_append, ← List.cons_append, ← List.append_assoc] at hsplit
    exact List.append_inj_left' hsplit rfl

theorem mergeFreeNode_eq {node curr freeList : ℕ} {joined : List Span}
    (hback : mergeBack m c.start (each + 1) node node = .ok curr)
    (hforward : mergeForward (c.start + each) curr (each + 1) m c.freeList
      (curr + getField m (.nodeSize curr)) = .ok (m', freeList, joined)) :
    mergeFreeNode each m c node =
      .ok (setField m' (.tailer (curr + getField m' (.nodeSize curr))) curr,
        { c with freeList := freeList }, nodeSpan m curr :: joined) := by
  rw [mergeFreeNode, hback]
  dsimp only [Except.bind]
  rw [hforward]
  rfl

/-- What `merge_free_node` leaves: the chunk is in order, the allocated nodes are as before, and all
that was joined were nodes of the chunk. -/
structure Merged (each : ℕ) (m : Memory) (c : Chunk) (ns ns' : List Node) (m' : Memory) (c' : Chunk)
    (joined : List Span) (nodes : List Node) : Prop where
  intact : c'.Intact each m' nodes
  coalesced : Coalesced nodes
  allocated : allocated nodes = allocated ns ++ allocated ns'
  confines : c.Confines each m m'
  start : c'.start = c.start
  mempoolSize : c'.mempoolSize = c.mempoolSize
  joined : ∀ sp ∈ joined, c.start ≤ sp.start ∧ sp.stop ≤ c.start + each

theorem Chunk.Intact.mergeFreeNode (h : c.Intact each m (ns ++ n :: ns')) (hfree : n.free = true)
    (hfront : Coalesced ns) (hback : Coalesced ns') :
    ∃ m' c' joined nodes, Ntkv.mergeFreeNode each m c n.addr = .ok (m', c', joined) ∧
      Merged each m c ns ns' m' c' joined nodes := by
  have hlength := h.length_le
  rw [List.length_append, List.length_cons] at hlength
  obtain ⟨front, k, back, hsplit, hall, hlast, hmergeBack⟩ :=
    h.mergeBack hfree (by omega : ns.length + 2 ≤ each + 1) n.addr
  obtain ⟨hk, hbackfree⟩ := List.forall_mem_cons.mp hall
  have hnodes : ns ++ n :: ns' = front ++ k :: (back ++ ns') := by
    rw [List.append_cons, hsplit, List.append_assoc, List.cons_append]
  rw [hnodes] at h
  have hkmem : k ∈ front ++ k :: (back ++ ns') := List.mem_append_cons_self
  have htail : Tailed (getField m) (c.start + each) (front ++ (back ++ ns')) :=
    fun x hx => h.tailed x (mem_middle.mpr (.inr hx))
  have hrest : (back ++ ns').length < each + 1 := by
    have hlength' := h.length_le
    rw [List.length_append, List.length_cons] at hlength'
    omega
  obtain ⟨m', freeList, size, run, rest', hrun, hrunfree, hhead, hforward, hsound, htailed,
    hconfines⟩ := h.toSound.mergeForward hk htail hrest
  obtain ⟨hintact, hconfines'⟩ := hsound.setTailer htailed
  obtain ⟨more, hmore, hmorefree⟩ := suffix_of_run hrun.symm hrunfree hbackfree hhead
  have hnext : k.stop = k.addr + getField m (.nodeSize k.addr) := by
    rw [h.size k hkmem]
    rfl
  have hend : getField m' (.nodeSize k.addr) = size :=
    hsound.size { k with size := size } List.mem_append_cons_self
  rw [hnext] at hforward
  have hmerge := mergeFreeNode_eq hmergeBack hforward
  rw [hend] at hmerge
  refine ⟨_, _, _, _, hmerge, hintact, ?_, ?_, ?_, rfl, rfl, ?_⟩
  · obtain ⟨taken, rfl⟩ := exists_append_of_split hsplit
    rw [hmore] at hback
    refine coalesced_middle.mpr ⟨(List.isChain_append.mp hfront).1,
      (List.isChain_append.mp hback).2.1, ?_, fun p hp _ => hhead p hp⟩
    intro p hp htrue
    rw [hlast p hp] at htrue
    cases htrue
  · have hn : Ntkv.allocated [n] = [] := allocated_eq_nil (by simp [hfree])
    have hboth := congrArg Ntkv.allocated hsplit
    rw [allocated_append, allocated_append, allocated_eq_nil hall, hn, List.append_nil,
      List.append_nil] at hboth
    rw [hboth, hmore, allocated_append, allocated_append, allocated_eq_nil hmorefree,
      allocated_cons, if_neg (by simp [hk]), List.nil_append]
  · exact fun z hz => (hconfines' z hz).trans (hconfines z hz)
  · intro sp hsp
    rcases List.mem_cons.mp hsp with rfl | hsp
    · have hwithin := h.tiles.within hkmem
      rw [hnext] at hwithin
      exact hwithin
    · obtain ⟨x, hx, rfl⟩ := List.mem_map.mp hsp
      refine h.tiles.within (mem_middle.mpr (.inr (List.mem_append_right front ?_)))
      rw [hrun]
      exact List.mem_append_left rest' hx

theorem Chunk.Intact.freeNode (h : c.Intact each m (ns ++ n :: ns')) (hfree : n.free = false)
    (hfront : Coalesced ns) (hback : Coalesced ns') :
    ∃ m' c' joined nodes, Ntkv.freeNode each m c n.addr = .ok (m', c', joined) ∧
      Merged each m c ns ns' m' c' joined nodes := by
  have hp := h.placed
  have hmem : n ∈ ns ++ n :: ns' := List.mem_append_cons_self
  have haddr : n.addr ∈ (ns ++ n :: ns').map (·.addr) := List.mem_map_of_mem hmem
  obtain ⟨h₁, hhead⟩ := hp.delete (.refl _ m) h.allocList (x := n.addr) (by simp [hfree])
    (fun _ => id)
  have h₂ := hp.nodeInsert h₁ h.freeList.head_mem haddr
  have h₃ : Writes _ m _ (moved (getField m) c.freeList n.addr true) :=
    h₂.set hp (mem_fieldsOf haddr).2.1 (v := 1) (by simp [nodeLayout])
  have hsize := h₃.reads _ (mem_fieldsOf haddr).1
  rw [moved_nodeSize, h.size n hmem] at hsize
  have hreleased := h₃.intact (h.release hfree) (h.tailed_moved _ _)
    (fieldsOf_moved ns ns' n true).le
  obtain ⟨m', c', joined, nodes, hmerge, hmerged⟩ := hreleased.mergeFreeNode rfl hfront hback
  refine ⟨m', c', joined, nodes, ?_, hmerged.intact, hmerged.coalesced, hmerged.allocated, ?_,
    hmerged.start, hmerged.mempoolSize, hmerged.joined⟩
  · rw [← hmerge, Ntkv.freeNode]
    dsimp only
    rw [hsize, hhead]
    rfl
  · have hconfines := h₃.confines h.tiles h.large
    exact fun z hz => (hmerged.confines z hz).trans (hconfines z hz)

end NtSocks.Ntkv
