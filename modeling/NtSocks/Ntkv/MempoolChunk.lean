import NtSocks.Ntkv.MempoolNodes

/-!
# The lists and counters of a chunk

A chunk is in order when its nodes tile it, when its free and its allocated nodes are those of its
two lists, and when its counters are the sums over the allocated nodes. Taking a node whole,
splitting one, giving one back and merging it with its neighbours keep a chunk in order.
-/

namespace NtSocks.Ntkv

open Function

def addrsOf (free : Bool) (nodes : List Node) : List ℕ :=
  (nodes.filter fun n => n.free = free).map (·.addr)

def allocSum (size : Node → ℕ) (nodes : List Node) : ℕ :=
  ((nodes.filter fun n => n.free = false).map size).sum

def Node.dataSize (n : Node) : ℕ := n.size - nodeHeaderSize - nodeTailerSize

/-- The list that begins at `head` holds the nodes that are free, or those that are not, once each.
-/
def Listed (F : NodeField → ℕ) (head : ℕ) (free : Bool) (nodes : List Node) : Prop :=
  ∃ l, (linksOf F head).Holds 0 l ∧ l.Perm (addrsOf free nodes)

structure Chunk.Consists (eachChunkSize : ℕ) (F : NodeField → ℕ) (c : Chunk) (nodes : List Node) :
    Prop where
  tiles : Tiles c.start (c.start + eachChunkSize) nodes
  size : ∀ n ∈ nodes, F (.nodeSize n.addr) = n.size
  flag : ∀ n ∈ nodes, F (.isFree n.addr) = n.free.toNat
  freeList : Listed F c.freeList true nodes
  allocList : Listed F c.allocList false nodes
  allocChunkSize : c.allocChunkSize = allocSum Node.size nodes
  allocDataSize : c.allocDataSize = allocSum Node.dataSize nodes

structure Chunk.Sound (eachChunkSize : ℕ) (F : NodeField → ℕ) (c : Chunk) (nodes : List Node) : Prop
    extends Chunk.Consists eachChunkSize F c nodes where
  large : ∀ n ∈ nodes, nodeHeaderSize + nodeTailerSize < n.size
  pos : 0 < c.start
  le : c.start + eachChunkSize ≤ 2 ^ 64

/-- The pointers at the ends of the nodes; none is needed at the end of the chunk. -/
def Tailed (F : NodeField → ℕ) (stop : ℕ) (nodes : List Node) : Prop :=
  ∀ n ∈ nodes, n.stop ≠ stop → F (.tailer n.stop) = n.addr

section Lists

variable {free : Bool} {size : Node → ℕ} {n : Node} {ns ns' : List Node}

@[simp] theorem addrsOf_append :
    addrsOf free (ns ++ ns') = addrsOf free ns ++ addrsOf free ns' := by
  simp [addrsOf]

@[simp] theorem addrsOf_cons :
    addrsOf free (n :: ns) =
      if n.free = free then n.addr :: addrsOf free ns else addrsOf free ns := by
  unfold addrsOf
  split <;> simp [*]

@[simp] theorem allocSum_append :
    allocSum size (ns ++ ns') = allocSum size ns + allocSum size ns' := by
  simp [allocSum]

@[simp] theorem allocSum_cons :
    allocSum size (n :: ns) = (if n.free = false then size n else 0) + allocSum size ns := by
  unfold allocSum
  split <;> simp [*]

theorem allocSum_cons_free (hn : n.free = true) : allocSum size (n :: ns) = allocSum size ns := by
  simp [hn]

theorem allocSum_exchange {n' : Node} {ns'' : List Node} (hn : n.free = true)
    (hn' : n'.free = false) (hrest : allocSum size ns'' = allocSum size ns') :
    allocSum size (ns ++ n' :: ns'') = allocSum size (ns ++ n :: ns') + size n' := by
  simp only [allocSum_append, allocSum_cons, hn, hn', hrest, Bool.true_eq_false, if_false, if_true]
  omega

theorem addrsOf_subset : addrsOf free ns ⊆ ns.map (·.addr) :=
  List.map_subset _ (List.filter_subset_self _)

end Lists

variable {each : ℕ} {F F' : NodeField → ℕ} {c : Chunk} {nodes ns ns' : List Node} {n : Node}

theorem Chunk.Sound.placed (h : c.Sound each F nodes) : Placed nodes :=
  h.tiles.placed h.large h.pos h.le

theorem Listed.congr {head : ℕ} {free : Bool} (h : Listed F head free nodes)
    (hF : ∀ y ∈ nodes.map (·.addr), F' (.pre y) = F (.pre y) ∧ F' (.next y) = F (.next y)) :
    Listed F' head free nodes := by
  obtain ⟨l, hl, hperm⟩ := h
  exact ⟨l, linksOf_congr hl fun y hy => hF y (addrsOf_subset (hperm.subset hy)), hperm⟩

theorem Chunk.Consists.congr (h : c.Consists each F nodes)
    (hF : ∀ f ∈ fieldsOf nodes, (∀ e, f ≠ .tailer e) → F' f = F f) : c.Consists each F' nodes := by
  have hlinks : ∀ y ∈ nodes.map (·.addr), F' (.pre y) = F (.pre y) ∧
      F' (.next y) = F (.next y) := by
    intro y hy
    obtain ⟨-, -, hpre, hnext⟩ := mem_fieldsOf hy
    exact ⟨hF _ hpre (by simp), hF _ hnext (by simp)⟩
  refine ⟨h.tiles, fun n hn => ?_, fun n hn => ?_, h.freeList.congr hlinks,
    h.allocList.congr hlinks, h.allocChunkSize, h.allocDataSize⟩
  · rw [hF _ (mem_fieldsOf (List.mem_map_of_mem hn)).1 (by simp), h.size n hn]
  · rw [hF _ (mem_fieldsOf (List.mem_map_of_mem hn)).2.1 (by simp), h.flag n hn]

theorem disjoint_addrsOf (hp : Placed nodes) (free : Bool) :
    (addrsOf free nodes).Disjoint (addrsOf (!free) nodes) := by
  intro x hx hx'
  obtain ⟨n, hn, rfl⟩ := List.mem_map.mp hx
  obtain ⟨n', hn', haddr⟩ := List.mem_map.mp hx'
  obtain ⟨hmem, hfree⟩ := List.mem_filter.mp hn
  obtain ⟨hmem', hfree'⟩ := List.mem_filter.mp hn'
  obtain rfl := hp.eq_of_addr hmem' hmem haddr
  simp only [decide_eq_true_eq] at hfree hfree'
  simp [hfree] at hfree'

/-- The fields when a node has gone to the list that begins at `head`. -/
def moved (F : NodeField → ℕ) (head x : ℕ) (free : Bool) : NodeField → ℕ :=
  update (pushFront (unlink F x) head x) (.isFree x) free.toNat

section Moved

variable {head x : ℕ} {free : Bool}

@[simp] theorem moved_nodeSize (y : ℕ) : moved F head x free (.nodeSize y) = F (.nodeSize y) := by
  simp [moved]

@[simp] theorem moved_tailer (y : ℕ) : moved F head x free (.tailer y) = F (.tailer y) := by
  simp [moved]

theorem moved_isFree (y : ℕ) :
    moved F head x free (.isFree y) = if y = x then free.toNat else F (.isFree y) := by
  simp [moved, update_apply]

end Moved

namespace Chunk.Sound

variable (h : c.Sound each F (ns ++ n :: ns'))

include h

theorem listed_moved {head head' : ℕ} (hfrom : Listed F head n.free (ns ++ n :: ns'))
    (hto : Listed F head' (!n.free) (ns ++ n :: ns')) :
    Listed (moved F head' n.addr (!n.free))
        (if F (.pre n.addr) = 0 then F (.next n.addr) else head) n.free
        (ns ++ { n with free := !n.free } :: ns') ∧
      Listed (moved F head' n.addr (!n.free)) n.addr (!n.free)
        (ns ++ { n with free := !n.free } :: ns') := by
  obtain ⟨l, hl, hperm⟩ := hfrom
  obtain ⟨l', hl', hperm'⟩ := hto
  have hdisjoint : l.Disjoint l' := fun x hx hx' =>
    disjoint_addrsOf h.placed n.free (hperm.subset hx) (hperm'.subset hx')
  have hx : n.addr ∈ l := hperm.symm.subset (by simp)
  obtain ⟨hdel, hins⟩ := move_holds hl hl' hdisjoint hx
  refine ⟨⟨l.erase n.addr, linksOf_congr hdel (by simp [moved]), ?_⟩,
    ⟨n.addr :: l', linksOf_congr hins (by simp [moved]), ?_⟩⟩
  · have hcons := (List.perm_cons_erase hx).symm.trans hperm
    simp only [addrsOf_append, addrsOf_cons, if_true, Bool.not_eq_eq_eq_not, Bool.eq_not_self,
      if_false] at hcons ⊢
    exact (hcons.trans List.perm_middle).cons_inv
  · simp only [addrsOf_append, addrsOf_cons, if_true, Bool.eq_not_self, if_false] at hperm' ⊢
    exact (hperm'.cons _).trans List.perm_middle.symm

theorem fields_moved (head : ℕ) (free : Bool) {x : Node}
    (hx : x ∈ ns ++ { n with free := free } :: ns') :
    moved F head n.addr free (.nodeSize x.addr) = x.size ∧
      moved F head n.addr free (.isFree x.addr) = x.free.toNat := by
  rw [moved_nodeSize, moved_isFree]
  rcases mem_middle.mp hx with rfl | hmem
  · exact ⟨h.size n List.mem_append_cons_self, if_pos rfl⟩
  · have hx : x ∈ ns ++ n :: ns' := mem_middle.mpr (.inr hmem)
    exact ⟨h.size x hx, (if_neg (h.placed.addr_ne hmem)).trans (h.flag x hx)⟩

theorem tiles_moved (free : Bool) :
    Tiles c.start (c.start + each) (ns ++ { n with free := free } :: ns') :=
  h.tiles.replace [{ n with free := free }] ⟨rfl, rfl⟩

theorem large_moved (free : Bool) :
    ∀ x ∈ ns ++ { n with free := free } :: ns', nodeHeaderSize + nodeTailerSize < x.size := by
  intro x hx
  rcases mem_middle.mp hx with rfl | hmem
  · exact h.large n List.mem_append_cons_self
  · exact h.large x (mem_middle.mpr (.inr hmem))

theorem take (hfree : n.free = true) :
    Sound each (moved F c.allocList n.addr false)
      { c with
        freeList := if F (.pre n.addr) = 0 then F (.next n.addr) else c.freeList
        allocList := n.addr
        allocChunkSize := c.allocChunkSize + n.size
        allocDataSize := c.allocDataSize + n.dataSize }
      (ns ++ { n with free := false } :: ns') := by
  obtain ⟨hfrom, hto⟩ := h.listed_moved (hfree ▸ h.freeList) (by rw [hfree]; exact h.allocList)
  rw [hfree] at hfrom hto
  refine ⟨⟨h.tiles_moved false, fun x hx => (h.fields_moved _ _ hx).1,
    fun x hx => (h.fields_moved _ _ hx).2, hfrom, hto, ?_, ?_⟩, h.large_moved false, h.pos, h.le⟩
  · rw [allocSum_exchange hfree rfl rfl, ← h.allocChunkSize]
  · rw [allocSum_exchange hfree rfl rfl, ← h.allocDataSize]
    rfl

theorem release (hfree : n.free = false) :
    Sound each (moved F c.freeList n.addr true)
      { c with
        allocList := if F (.pre n.addr) = 0 then F (.next n.addr) else c.allocList
        freeList := n.addr
        allocChunkSize := c.allocChunkSize - n.size
        allocDataSize := c.allocDataSize - n.dataSize }
      (ns ++ { n with free := true } :: ns') := by
  obtain ⟨hfrom, hto⟩ := h.listed_moved (hfree ▸ h.allocList) (by rw [hfree]; exact h.freeList)
  rw [hfree] at hfrom hto
  refine ⟨⟨h.tiles_moved true, fun x hx => (h.fields_moved _ _ hx).1,
    fun x hx => (h.fields_moved _ _ hx).2, hto, hfrom, ?_, ?_⟩, h.large_moved true, h.pos, h.le⟩
  · exact Nat.sub_eq_of_eq_add (h.allocChunkSize.trans (allocSum_exchange rfl hfree rfl))
  · exact Nat.sub_eq_of_eq_add (h.allocDataSize.trans (allocSum_exchange rfl hfree rfl))

end Chunk.Sound

theorem Chunk.Sound.absorb {x : Node} (h : c.Sound each F (ns ++ n :: x :: ns'))
    (hn : n.free = true) (hx : x.free = true) :
    Sound each (update (unlink F x.addr) (.nodeSize n.addr) (n.size + x.size))
      { c with freeList := if F (.pre x.addr) = 0 then F (.next x.addr) else c.freeList }
      (ns ++ { n with size := n.size + x.size } :: ns') := by
  have hp := h.placed
  have hsub : ∀ y ∈ ns ++ ns', y ∈ ns ++ n :: x :: ns' :=
    fun y hy => mem_middle.mpr (.inr (mem_middle.mpr (.inr hy)))
  have hne : ∀ y ∈ ns ++ ns', y.addr ≠ n.addr :=
    fun y hy => hp.addr_ne (mem_middle.mpr (.inr hy))
  have hmem : n ∈ ns ++ n :: x :: ns' := List.mem_append_cons_self
  obtain ⟨l, hl, hperm⟩ := h.freeList
  have hxl : x.addr ∈ l := hperm.symm.subset (by simp [hx, hn])
  refine ⟨⟨?_, ?_, ?_, ?_, ?_, ?_, ?_⟩, ?_, h.pos, h.le⟩
  · obtain ⟨mid, hfront, hn', hx', hback⟩ := tiles_append.mp h.tiles
    refine tiles_append.mpr ⟨mid, hfront, hn', ?_⟩
    simp only [Node.stop] at hx' hback ⊢
    rwa [hx', Nat.add_assoc] at hback
  · intro y hy
    rcases mem_middle.mp hy with rfl | hy
    · exact update_self ..
    · rw [update_of_ne fun heq => hne y hy (NodeField.nodeSize.inj heq), unlink_nodeSize,
        h.size y (hsub y hy)]
  · intro y hy
    rw [update_of_ne (by simp), unlink_isFree]
    rcases mem_middle.mp hy with rfl | hy
    · exact h.flag n hmem
    · exact h.flag y (hsub y hy)
  · refine ⟨l.erase x.addr, linksOf_congr (unlink_holds hl hxl) (by simp), ?_⟩
    have hcons := (List.perm_cons_erase hxl).symm.trans hperm
    simp only [addrsOf_append, addrsOf_cons, hn, hx, if_true] at hcons ⊢
    refine (hcons.trans ?_).cons_inv
    exact ((List.Perm.swap _ _ _).append_left _).trans List.perm_middle
  · obtain ⟨l', hl', hperm'⟩ := h.allocList
    have hdisjoint : l.Disjoint l' := fun y hy hy' =>
      disjoint_addrsOf hp true (hperm.subset hy) (hperm'.subset hy')
    refine ⟨l', linksOf_congr (unlink_keeps hl hl' hdisjoint hxl) (by simp), ?_⟩
    simpa [hn, hx] using hperm'
  · simpa [hn, hx] using h.allocChunkSize
  · simpa [hn, hx] using h.allocDataSize
  · intro y hy
    rcases mem_middle.mp hy with rfl | hy
    · exact (h.large n hmem).trans_le (Nat.le_add_right _ _)
    · exact h.large y (hsub y hy)

theorem Chunk.Sound.notMem_inside {need : ℕ} (h : c.Sound each F (ns ++ n :: ns'))
    (hneed : 0 < need)
    (hlt : need < n.size) : n.addr + need ∉ 0 :: (ns ++ n :: ns').map (·.addr) := by
  intro hmem
  rcases List.mem_cons.mp hmem with hzero | hmem
  · omega
  obtain ⟨y, hy, heq⟩ := List.mem_map.mp hmem
  rcases eq_or_ne y n with rfl | hne
  · omega
  · have hlarge := h.large y hy
    have horder := h.placed.order hy List.mem_append_cons_self hne
    simp only [Node.stop] at horder
    omega

theorem Chunk.Sound.split {need : ℕ} (h : c.Sound each F (ns ++ n :: ns')) (hfree : n.free = true)
    (hneed : nodeHeaderSize + nodeTailerSize < need)
    (hrest : need + nodeHeaderSize + nodeTailerSize < n.size) :
    Sound each (pushFront (splitFields F need n.addr) c.allocList n.addr)
      { c with
        freeList := if F (.pre n.addr) = 0 then n.addr + need else c.freeList
        allocList := n.addr
        allocChunkSize := c.allocChunkSize + need
        allocDataSize := c.allocDataSize + (need - nodeHeaderSize - nodeTailerSize) }
      (ns ++ { n with size := need, free := false } ::
        { addr := n.addr + need, size := n.size - need, free := true } :: ns') := by
  have hp := h.placed
  have hmem : n ∈ ns ++ n :: ns' := List.mem_append_cons_self
  have hsub : ∀ y ∈ ns ++ ns', y ∈ ns ++ n :: ns' := fun y hy => mem_middle.mpr (.inr hy)
  have hinside : n.addr + need ∉ 0 :: (ns ++ n :: ns').map (·.addr) :=
    h.notMem_inside (by omega) (by omega)
  have hnew : ∀ y ∈ ns ++ ns', y.addr ≠ n.addr + need := fun y hy heq =>
    hinside (List.mem_cons_of_mem 0 (heq ▸ List.mem_map_of_mem (hsub y hy)))
  obtain ⟨l, hl, hperm⟩ := h.freeList
  obtain ⟨l', hl', hperm'⟩ := h.allocList
  have hdisjoint : l.Disjoint l' := fun x hx hx' =>
    disjoint_addrsOf hp true (hperm.subset hx) (hperm'.subset hx')
  have hx : n.addr ∈ l := hperm.symm.subset (by simp [hfree])
  obtain ⟨⟨l₁, hl₁, hperm₁⟩, hl₂⟩ := split_holds hl hl' hdisjoint hx
    (fun hmem => hinside (List.cons_subset_cons 0 (fun y hy => addrsOf_subset (hperm.subset hy))
      hmem)) fun hmem => hinside (List.mem_cons_of_mem 0 (addrsOf_subset (hperm'.subset hmem)))
  refine ⟨⟨?_, ?_, ?_, ⟨l₁, hl₁, ?_⟩, ⟨_, hl₂, ?_⟩, ?_, ?_⟩, ?_, h.pos, h.le⟩
  · refine h.tiles.replace [_, _] ⟨rfl, rfl, ?_⟩
    change n.addr + need + (n.size - need) = n.addr + n.size
    omega
  · intro y hy
    rw [pushFront_nodeSize]
    rcases mem_middle.mp hy with rfl | hy
    · exact if_pos rfl
    rcases mem_middle.mp hy with rfl | hy
    · change (if n.addr + need = n.addr then _ else if n.addr + need = n.addr + need then _ else
        _) = _
      rw [if_neg (by omega), if_pos rfl, h.size n hmem]
    · exact (if_neg (hp.addr_ne hy)).trans ((if_neg (hnew y hy)).trans (h.size y (hsub y hy)))
  · intro y hy
    rw [pushFront_isFree]
    rcases mem_middle.mp hy with rfl | hy
    · exact if_pos rfl
    rcases mem_middle.mp hy with rfl | hy
    · change (if n.addr + need = n.addr then _ else if n.addr + need = n.addr + need then _ else
        _) = _
      rw [if_neg (by omega), if_pos rfl, h.flag n hmem, hfree]
    · exact (if_neg (hp.addr_ne hy)).trans ((if_neg (hnew y hy)).trans (h.flag y (hsub y hy)))
  · have hcons := (List.perm_cons_erase hx).symm.trans hperm
    simp only [addrsOf_append, addrsOf_cons, hfree, Bool.false_eq_true, if_false,
      if_true] at hcons ⊢
    have herase := (hcons.trans List.perm_middle).cons_inv
    exact hperm₁.trans ((herase.cons _).trans List.perm_middle.symm)
  · simp only [addrsOf_append, addrsOf_cons, hfree, Bool.true_eq_false, if_false,
      if_true] at hperm' ⊢
    exact (hperm'.cons _).trans List.perm_middle.symm
  · rw [allocSum_exchange hfree rfl (allocSum_cons_free rfl), ← h.allocChunkSize]
  · rw [allocSum_exchange hfree rfl (allocSum_cons_free rfl), ← h.allocDataSize]
    rfl
  · intro y hy
    rcases mem_middle.mp hy with rfl | hy
    · exact hneed
    rcases mem_middle.mp hy with rfl | hy
    · change nodeHeaderSize + nodeTailerSize < n.size - need
      omega
    · exact h.large y (hsub y hy)

end NtSocks.Ntkv
