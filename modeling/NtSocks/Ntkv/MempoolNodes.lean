import NtSocks.Lib.LinkedList
import NtSocks.Ntkv.Mempool

/-!
# The nodes of a chunk

The nodes of a chunk follow each other from its first byte to its last one. As every node has room
for its header and for the pointer at its end, no two fields of the nodes share a byte, and what the
pool writes to one field leaves the others alone. The macros that change the two lists of a chunk
then change nothing but links.
-/

namespace NtSocks.Ntkv

open Function

structure Node where
  addr : ℕ
  size : ℕ
  free : Bool
  deriving DecidableEq

namespace Node

variable (n : Node)

def stop : ℕ := n.addr + n.size

def span : Span where
  start := n.addr
  stop := n.stop
  start_le := Nat.le_add_right _ _

def fields : Set NodeField :=
  {.nodeSize n.addr, .isFree n.addr, .pre n.addr, .next n.addr, .tailer n.stop}

end Node

def Tiles : ℕ → ℕ → List Node → Prop
  | a, b, [] => a = b
  | a, b, n :: ns => n.addr = a ∧ Tiles n.stop b ns

def fieldsOf (nodes : List Node) : Set NodeField := {f | ∃ n ∈ nodes, f ∈ n.fields}

variable {a b : ℕ} {n : Node} {nodes ns ns' : List Node}

theorem mem_middle {α : Type*} {x y : α} {l l' : List α} : x ∈ l ++ y :: l' ↔ x = y ∨ x ∈ l ++ l' :=
  List.perm_middle.mem_iff.trans List.mem_cons

theorem tiles_append : Tiles a b (ns ++ ns') ↔ ∃ mid, Tiles a mid ns ∧ Tiles mid b ns' := by
  induction ns generalizing a with
  | nil => exact ⟨fun h => ⟨a, rfl, h⟩, fun ⟨_, hmid, h⟩ => hmid ▸ h⟩
  | cons n ns ih =>
    rw [List.cons_append, Tiles, ih]
    exact ⟨fun ⟨hn, mid, h⟩ => ⟨mid, ⟨hn, h.1⟩, h.2⟩, fun ⟨mid, ⟨hn, h⟩, h'⟩ => ⟨hn, mid, h, h'⟩⟩

theorem Tiles.le (h : Tiles a b nodes) : a ≤ b := by
  induction nodes generalizing a with
  | nil => exact h.le
  | cons n ns ih => exact h.1 ▸ (Nat.le_add_right n.addr n.size).trans (ih h.2)

theorem Tiles.within (h : Tiles a b nodes) (hn : n ∈ nodes) : a ≤ n.addr ∧ n.stop ≤ b := by
  obtain ⟨ns, ns', rfl⟩ := List.append_of_mem hn
  obtain ⟨mid, hfront, hback⟩ := tiles_append.mp h
  exact ⟨hback.1 ▸ hfront.le, hback.2.le⟩

theorem Tiles.replace (h : Tiles a b (ns ++ n :: ns')) (mid : List Node)
    (hmid : Tiles n.addr n.stop mid) : Tiles a b (ns ++ (mid ++ ns')) := by
  obtain ⟨x, hfront, rfl, hback⟩ := tiles_append.mp h
  exact tiles_append.mpr ⟨_, hfront, tiles_append.mpr ⟨_, hmid, hback⟩⟩

theorem Tiles.length_le (h : Tiles a b nodes) (hpos : ∀ n ∈ nodes, 0 < n.size) :
    nodes.length + a ≤ b := by
  induction nodes generalizing a with
  | nil => exact (Nat.zero_add a).le.trans h.le
  | cons n ns ih =>
    obtain ⟨hn, hns⟩ := List.forall_mem_cons.mp hpos
    have hrest := ih h.2 hns
    have hstart := h.1
    rw [Node.stop] at hrest
    rw [List.length_cons]
    omega

structure Placed (nodes : List Node) : Prop where
  apart : nodes.Pairwise fun n n' => n.stop ≤ n'.addr
  large : ∀ n ∈ nodes, nodeHeaderSize + nodeTailerSize < n.size
  pos : ∀ n ∈ nodes, 0 < n.addr
  lt : ∀ n ∈ nodes, n.stop ≤ 2 ^ 64

theorem Tiles.placed (h : Tiles a b nodes)
    (hlarge : ∀ n ∈ nodes, nodeHeaderSize + nodeTailerSize < n.size) (ha : 0 < a)
    (hb : b ≤ 2 ^ 64) : Placed nodes := by
  refine ⟨?_, hlarge, fun n hn => ha.trans_le (h.within hn).1, fun n hn => (h.within hn).2.trans hb⟩
  clear ha hb hlarge
  induction nodes generalizing a with
  | nil => exact List.Pairwise.nil
  | cons n ns ih => exact List.Pairwise.cons (fun n' hn' => (h.2.within hn').1) (ih h.2)

theorem Node.bytes_subset (hlarge : nodeHeaderSize + nodeTailerSize < n.size) {f : NodeField}
    (hf : f ∈ n.fields) : nodeLayout.bytes f ⊆ Set.Ico n.addr n.stop := by
  intro z hz
  simp only [Node.fields, Set.mem_insert_iff, Set.mem_singleton_iff] at hf
  simp only [nodeHeaderSize, nodeTailerSize] at hlarge
  rcases hf with rfl | rfl | rfl | rfl | rfl <;>
    simp only [FieldLayout.bytes, nodeLayout, nodeTailerSize, Node.stop, Set.mem_Ico] at hz ⊢ <;>
    omega

theorem Node.fields_disjoint (hlarge : nodeHeaderSize + nodeTailerSize < n.size) :
    n.fields.PairwiseDisjoint nodeLayout.bytes := by
  intro f hf g hg hne
  refine Set.disjoint_left.mpr fun z hz hz' => hne ?_
  simp only [Node.fields, Set.mem_insert_iff, Set.mem_singleton_iff] at hf hg
  simp only [nodeHeaderSize, nodeTailerSize] at hlarge
  rcases hf with rfl | rfl | rfl | rfl | rfl <;> rcases hg with rfl | rfl | rfl | rfl | rfl <;>
    simp only [FieldLayout.bytes, nodeLayout, nodeTailerSize, Node.stop,
      Set.mem_Ico] at hz hz' ⊢ <;>
    omega

namespace Placed

variable (hp : Placed nodes) {n' : Node}

include hp

theorem order (hn : n ∈ nodes) (hn' : n' ∈ nodes) (hne : n ≠ n') :
    n.stop ≤ n'.addr ∨ n'.stop ≤ n.addr := by
  obtain ⟨ns, ns', rfl⟩ := List.append_of_mem hn
  obtain ⟨-, hback, hfront⟩ := List.pairwise_append.mp hp.apart
  rcases List.mem_append.mp hn' with hmem | hmem
  · exact .inr (hfront n' hmem n List.mem_cons_self)
  · rcases List.mem_cons.mp hmem with heq | hmem
    · exact absurd heq.symm hne
    · exact .inl ((List.pairwise_cons.mp hback).1 n' hmem)

theorem eq_of_addr (hn : n ∈ nodes) (hn' : n' ∈ nodes) (haddr : n.addr = n'.addr) : n = n' := by
  by_contra hne
  have hlarge := hp.large n hn
  have hlarge' := hp.large n' hn'
  have horder := hp.order hn hn' hne
  simp only [Node.stop] at horder
  omega

theorem nodup_addr : (nodes.map (·.addr)).Nodup := by
  refine List.pairwise_map.mpr (hp.apart.imp_of_mem fun {n n'} hn _ horder => ?_)
  have hlarge := hp.large n hn
  simp only [Node.stop] at horder
  omega

theorem disjoint : (fieldsOf nodes).PairwiseDisjoint nodeLayout.bytes := by
  rintro f ⟨n, hn, hf⟩ g ⟨n', hn', hg⟩ hne
  rcases eq_or_ne n n' with rfl | hnode
  · exact Node.fields_disjoint (hp.large n hn) hf hg hne
  · refine Set.disjoint_left.mpr fun z hz hz' => ?_
    have hin := Node.bytes_subset (hp.large n hn) hf hz
    have hin' := Node.bytes_subset (hp.large n' hn') hg hz'
    rcases hp.order hn hn' hnode with h | h
    · exact absurd (hin.2.trans_le h) (Nat.not_lt.mpr hin'.1)
    · exact absurd (hin'.2.trans_le h) (Nat.not_lt.mpr hin.1)

theorem addr_lt (hn : n ∈ nodes) : n.addr < 2 ^ 64 := by
  have hstop := hp.lt n hn
  have hlarge := hp.large n hn
  simp only [Node.stop] at hstop
  omega

end Placed

theorem Placed.addr_ne (hp : Placed (ns ++ n :: ns')) {x : Node} (hx : x ∈ ns ++ ns') :
    x.addr ≠ n.addr := by
  have hnodup := hp.nodup_addr
  rw [List.map_append, List.map_cons, List.nodup_middle, ← List.map_append] at hnodup
  exact fun heq => (List.nodup_cons.mp hnodup).1 (heq ▸ List.mem_map_of_mem hx)

/-! ### Fields as a function -/

/-- `m'` comes from `m` by writing to fields of the nodes, and these then read as `F`. -/
structure Writes (nodes : List Node) (m m' : Memory) (F : NodeField → ℕ) : Prop where
  reads : ∀ f ∈ fieldsOf nodes, getField m' f = F f
  keeps : nodeLayout.Keeps (fieldsOf nodes) m m'

namespace Writes

variable {m m' : Memory} {F : NodeField → ℕ} {f : NodeField} {v x : ℕ}

theorem refl (nodes : List Node) (m : Memory) : Writes nodes m m (getField m) :=
  ⟨fun _ _ => rfl, .refl _ m⟩

theorem set (hp : Placed nodes) (h : Writes nodes m m' F) (hf : f ∈ fieldsOf nodes)
    (hv : v < 256 ^ nodeLayout.width f) : Writes nodes m (setField m' f v) (update F f v) := by
  refine ⟨fun g hg => ?_, h.keeps.trans (FieldLayout.keeps_set hf m' v)⟩
  have hget := FieldLayout.get_set hp.disjoint hf hg m' hv
  rw [getField, setField, hget, update_apply]
  split
  · rfl
  · exact h.reads g hg

theorem copy (hp : Placed nodes) (h : Writes nodes m m' F) (hf : f ∈ fieldsOf nodes) {g : NodeField}
    (hg : g ∈ fieldsOf nodes) (val : ℕ → ℕ) (hv : val (F g) < 256 ^ nodeLayout.width f) :
    Writes nodes m (setField m' f (val (getField m' g))) (update F f (val (F g))) := by
  rw [h.reads g hg]
  exact h.set hp hf hv

theorem congr (h : Writes nodes m m' F) {F' : NodeField → ℕ}
    (hF : ∀ f ∈ fieldsOf nodes, F f = F' f) : Writes nodes m m' F' :=
  ⟨fun f hf => (h.reads f hf).trans (hF f hf), h.keeps⟩

theorem setUnless (hp : Placed nodes) (h : Writes nodes m m' F) (field : ℕ → NodeField)
    (hx : x ≠ 0 → field x ∈ fieldsOf nodes) (hnull : field 0 ∉ fieldsOf nodes)
    (hv : v < 256 ^ nodeLayout.width (field x)) :
    Writes nodes m (if x = 0 then m' else setField m' (field x) v)
      (update F (field x) v) := by
  split
  · rename_i hzero
    refine ⟨fun g hg => ?_, h.keeps⟩
    rw [update_of_ne fun heq => hnull (by rwa [← hzero, ← heq]), h.reads g hg]
  · rename_i hne
    exact h.set hp (hx hne) hv

end Writes

def linksOf (F : NodeField → ℕ) (head : ℕ) : LinkedList ℕ where
  head := head
  pre := fun x => F (.pre x)
  next := fun x => F (.next x)

def unlink (F : NodeField → ℕ) (x : ℕ) : NodeField → ℕ :=
  update (update F (.next (F (.pre x))) (F (.next x)))
    (.pre (F (.next x))) (F (.pre x))

def pushFront (F : NodeField → ℕ) (head x : ℕ) : NodeField → ℕ :=
  update (update (update F (.pre x) 0) (.next x) head) (.pre head) x

section Fields

variable {F : NodeField → ℕ} {head head' x : ℕ} {l l' : List ℕ}

@[simp] theorem unlink_nodeSize (y : ℕ) : unlink F x (.nodeSize y) = F (.nodeSize y) := by
  simp [unlink]

@[simp] theorem unlink_isFree (y : ℕ) : unlink F x (.isFree y) = F (.isFree y) := by
  simp [unlink]

@[simp] theorem unlink_tailer (y : ℕ) : unlink F x (.tailer y) = F (.tailer y) := by
  simp [unlink]

theorem unlink_next (y : ℕ) :
    unlink F x (.next y) = if y = F (.pre x) then F (.next x) else F (.next y) := by
  simp [unlink, update_apply]

theorem unlink_pre (y : ℕ) :
    unlink F x (.pre y) = if y = F (.next x) then F (.pre x) else F (.pre y) := by
  simp [unlink, update_apply]

@[simp] theorem pushFront_nodeSize (y : ℕ) :
    pushFront F head x (.nodeSize y) = F (.nodeSize y) := by
  simp [pushFront]

@[simp] theorem pushFront_isFree (y : ℕ) : pushFront F head x (.isFree y) = F (.isFree y) := by
  simp [pushFront]

@[simp] theorem pushFront_tailer (y : ℕ) : pushFront F head x (.tailer y) = F (.tailer y) := by
  simp [pushFront]

theorem pushFront_next (y : ℕ) :
    pushFront F head x (.next y) = if y = x then head else F (.next y) := by
  simp [pushFront, update_apply]

theorem pushFront_pre (y : ℕ) :
    pushFront F head x (.pre y) = if y = head then x else if y = x then 0 else F (.pre y) := by
  simp [pushFront, update_apply]

variable (h : (linksOf F head).Holds 0 l)
include h

theorem linksOf_congr {F' : NodeField → ℕ}
    (hF : ∀ y ∈ l, F' (.pre y) = F (.pre y) ∧ F' (.next y) = F (.next y)) :
    (linksOf F' head).Holds 0 l :=
  h.congr rfl (fun y hy => (hF y hy).2) fun y hy => (hF y hy).1

theorem unlink_holds (hx : x ∈ l) :
    (linksOf (unlink F x) (if F (.pre x) = 0 then F (.next x) else head)).Holds 0 (l.erase x) := by
  obtain ⟨xs, ys, rfl, hnot⟩ : ∃ xs ys, l = xs ++ x :: ys ∧ x ∉ xs := List.eq_append_cons_of_mem hx
  rw [List.erase_append_right _ hnot, List.erase_cons_head]
  exact h.delete rfl (fun y _ => unlink_next y) fun y _ => unlink_pre y

theorem pushFront_holds (hx : x ∉ 0 :: l) : (linksOf (pushFront F head x) x).Holds 0 (x :: l) := by
  have hne : ∀ y ∈ l, y ≠ x := fun y hy heq => hx (heq ▸ List.mem_cons_of_mem 0 hy)
  have hhead : x ≠ head := by
    rintro rfl
    exact hx h.head_mem
  refine h.insert hx rfl ?_ ?_ ?_ ?_
  · exact (pushFront_pre x).trans ((if_neg hhead).trans (if_pos rfl))
  · exact (pushFront_next x).trans (if_pos rfl)
  · exact fun y hy => (pushFront_next y).trans (if_neg (hne y hy))
  · intro y hy
    refine (pushFront_pre y).trans ?_
    rw [if_neg (hne y hy)]
    rfl

theorem notMem_of_disjoint (hdisjoint : l.Disjoint l') (hx : x ∈ l) : x ∉ 0 :: l' := by
  rintro (_ | ⟨_, hmem⟩)
  · exact h.ne_null hx rfl
  · exact hdisjoint hx hmem

theorem unlink_keeps (h' : (linksOf F head').Holds 0 l')
    (hdisjoint : l.Disjoint l') (hx : x ∈ l) : (linksOf (unlink F x) head').Holds 0 l' := by
  refine linksOf_congr h' fun y hy => ?_
  have hnot := notMem_of_disjoint h' hdisjoint.symm hy
  obtain ⟨hpre, hnext, -⟩ := h.neighbours_mem hx
  rw [unlink_pre, unlink_next, if_neg, if_neg]
  · exact ⟨rfl, rfl⟩
  · exact fun heq => hnot (heq ▸ hpre)
  · exact fun heq => hnot (heq ▸ hnext)

theorem pushFront_keeps (h' : (linksOf F head').Holds 0 l')
    (hdisjoint : l.Disjoint l') (hx : x ∉ l) : (linksOf (pushFront F head' x) head).Holds 0 l := by
  refine linksOf_congr h fun y hy => ?_
  have hnot := notMem_of_disjoint h hdisjoint hy
  have hne : y ≠ x := fun heq => hx (heq ▸ hy)
  have hhead : y ≠ head' := fun heq => hnot (heq ▸ h'.head_mem)
  rw [pushFront_pre, pushFront_next, if_neg hhead, if_neg hne, if_neg hne]
  exact ⟨rfl, rfl⟩

theorem move_holds (h' : (linksOf F head').Holds 0 l') (hdisjoint : l.Disjoint l') (hx : x ∈ l) :
    (linksOf (pushFront (unlink F x) head' x)
        (if F (.pre x) = 0 then F (.next x) else head)).Holds 0 (l.erase x) ∧
      (linksOf (pushFront (unlink F x) head' x) x).Holds 0 (x :: l') := by
  have hdel := unlink_holds h hx
  have hkept := unlink_keeps h h' hdisjoint hx
  have hnot : x ∉ l.erase x := (List.nodup_cons.mp h.nodup).2.not_mem_erase
  refine ⟨pushFront_keeps hdel hkept ?_ hnot,
    pushFront_holds hkept (notMem_of_disjoint h hdisjoint hx)⟩
  exact fun y hy hy' => hdisjoint (List.mem_of_mem_erase hy) hy'

def splitFields (F : NodeField → ℕ) (need x : ℕ) : NodeField → ℕ
  | .nodeSize y =>
    if y = x then need else if y = x + need then F (.nodeSize x) - need else F (.nodeSize y)
  | .isFree y => if y = x then 0 else if y = x + need then F (.isFree x) else F (.isFree y)
  | .pre y =>
    if y = F (.next x) then x + need else if y = x + need then F (.pre x) else F (.pre y)
  | .next y =>
    if y = F (.pre x) then x + need else if y = x + need then F (.next x) else F (.next y)
  | .tailer e =>
    if e = x + need then x
    else if e = x + need + (F (.nodeSize x) - need) then x + need else F (.tailer e)

theorem split_holds {need : ℕ} (h' : (linksOf F head').Holds 0 l')
    (hdisjoint : l.Disjoint l') (hx : x ∈ l) (hneed : x + need ∉ 0 :: l) (hneed' : x + need ∉ l') :
    (∃ l₁, (linksOf (pushFront (splitFields F need x) head' x)
        (if F (.pre x) = 0 then x + need else head)).Holds 0 l₁ ∧
        l₁.Perm ((x + need) :: l.erase x)) ∧
      (linksOf (pushFront (splitFields F need x) head' x) x).Holds 0 (x :: l') := by
  obtain ⟨hpre, hnext, -⟩ : F (.pre x) ∈ 0 :: l ∧ F (.next x) ∈ 0 :: l ∧ F (.pre x) ≠ x :=
    h.neighbours_mem hx
  have hkept : (linksOf (splitFields F need x) head').Holds 0 l' := by
    refine linksOf_congr h' fun y hy => ?_
    have hnot := notMem_of_disjoint h' hdisjoint.symm hy
    have hne : y ≠ x + need := fun heq => hneed' (heq ▸ hy)
    have hne_next : y ≠ F (.next x) := fun heq => hnot (heq ▸ hnext)
    have hne_pre : y ≠ F (.pre x) := fun heq => hnot (heq ▸ hpre)
    simp only [splitFields, if_neg hne, if_neg hne_next, if_neg hne_pre, and_self]
  obtain ⟨xs, ys, rfl, hxs⟩ : ∃ xs ys, l = xs ++ x :: ys ∧ x ∉ xs := List.eq_append_cons_of_mem hx
  have hsub : xs ++ ys ⊆ xs ++ x :: ys :=
    ((List.sublist_cons_self x ys).append_left xs).subset
  have hne : ∀ y ∈ xs ++ ys, y ≠ x + need :=
    fun y hy heq => hneed (heq ▸ List.mem_cons_of_mem 0 (hsub hy))
  have hsplit : (linksOf (splitFields F need x) (if F (.pre x) = 0 then x + need else head)).Holds 0
      (xs ++ (x + need) :: ys) := by
    have hne_next : x + need ≠ F (.next x) := fun heq => hneed (heq ▸ hnext)
    have hne_pre : x + need ≠ F (.pre x) := fun heq => hneed (heq ▸ hpre)
    refine h.replace (fun hmem => hneed (List.cons_subset_cons 0 hsub hmem)) ?_ ?_ rfl ?_ ?_
    · exact (if_neg hne_next).trans (if_pos rfl)
    · exact (if_neg hne_pre).trans (if_pos rfl)
    · intro y hy
      change (if y = F (.pre x) then _ else if y = x + need then _ else _) = _
      rw [if_neg (hne y hy)]
      rfl
    · intro y hy
      change (if y = F (.next x) then _ else if y = x + need then _ else _) = _
      rw [if_neg (hne y hy)]
      rfl
  refine ⟨⟨_, pushFront_keeps hsplit hkept ?_ ?_, ?_⟩,
    pushFront_holds hkept (notMem_of_disjoint h hdisjoint hx)⟩
  · intro y hy hy'
    rcases mem_middle.mp hy with rfl | hmem
    · exact hneed' hy'
    · exact hdisjoint (hsub hmem) hy'
  · intro hmem
    rcases mem_middle.mp hmem with heq | hmem
    · exact hneed (heq ▸ List.mem_cons_of_mem 0 hx)
    · exact (List.nodup_cons.mp (List.nodup_middle.mp (List.nodup_cons.mp h.nodup).2)).1 hmem
  · rw [List.erase_append_right _ hxs, List.erase_cons_head]
    exact List.perm_middle

end Fields

/-! ### The macros -/

theorem mem_fieldsOf {y : ℕ} (hy : y ∈ nodes.map (·.addr)) :
    .nodeSize y ∈ fieldsOf nodes ∧ .isFree y ∈ fieldsOf nodes ∧ .pre y ∈ fieldsOf nodes ∧
      .next y ∈ fieldsOf nodes := by
  obtain ⟨n, hn, rfl⟩ := List.mem_map.mp hy
  exact ⟨⟨n, hn, by simp [Node.fields]⟩, ⟨n, hn, by simp [Node.fields]⟩,
    ⟨n, hn, by simp [Node.fields]⟩, ⟨n, hn, by simp [Node.fields]⟩⟩

theorem mem_tailer (hn : n ∈ nodes) : .tailer n.stop ∈ fieldsOf nodes :=
  ⟨n, hn, by simp [Node.fields]⟩

theorem word_lt {v : ℕ} (hv : v < 2 ^ 64) : v < 256 ^ 8 := by
  norm_num at hv ⊢
  exact hv

namespace Placed

variable (hp : Placed nodes) {y : ℕ}

include hp

theorem null_notMem : .pre 0 ∉ fieldsOf nodes ∧ .next 0 ∉ fieldsOf nodes := by
  constructor <;>
  · rintro ⟨n, hn, hf⟩
    have hpos := hp.pos n hn
    simp only [Node.fields, Set.mem_insert_iff, Set.mem_singleton_iff, reduceCtorEq, false_or,
      or_false, NodeField.pre.injEq, NodeField.next.injEq] at hf
    omega

theorem lt_of_mem (hy : y ∈ 0 :: nodes.map (·.addr)) : y < 2 ^ 64 := by
  rcases List.mem_cons.mp hy with rfl | hmem
  · exact Nat.two_pow_pos 64
  · obtain ⟨n, hn, rfl⟩ := List.mem_map.mp hmem
    exact hp.addr_lt hn

variable {m₀ m : Memory} {F : NodeField → ℕ} {head x : ℕ} {l : List ℕ}

theorem nodeDelete (h : Writes nodes m₀ m F) (hl : (linksOf F head).Holds 0 l)
    (hsub : l ⊆ nodes.map (·.addr)) (hx : x ∈ l) :
    Writes nodes m₀ (nodeDelete m head x).1 (unlink F x) ∧
      (nodeDelete m head x).2 = if F (.pre x) = 0 then F (.next x) else head := by
  obtain ⟨-, -, hprex, hnextx⟩ := mem_fieldsOf (hsub hx)
  obtain ⟨hpre, hnext, hne⟩ : F (.pre x) ∈ 0 :: l ∧ F (.next x) ∈ 0 :: l ∧ F (.pre x) ≠ x :=
    hl.neighbours_mem hx
  have hpre' : F (.pre x) ∈ 0 :: nodes.map (·.addr) := List.cons_subset_cons 0 hsub hpre
  have hnext' : F (.next x) ∈ 0 :: nodes.map (·.addr) := List.cons_subset_cons 0 hsub hnext
  have h₁ := h.setUnless hp .next (fun hzero => (mem_fieldsOf ((List.mem_cons.mp hpre').resolve_left
    hzero)).2.2.2) hp.null_notMem.2 (word_lt (hp.lt_of_mem hnext'))
  have h₂ := h₁.setUnless hp .pre (fun hzero => (mem_fieldsOf
    ((List.mem_cons.mp hnext').resolve_left
    hzero)).2.2.1) hp.null_notMem.1 (word_lt (hp.lt_of_mem hpre'))
  have hread := h.reads _ hprex
  have hread' := h.reads _ hnextx
  have hread₁ := h₁.reads _ hprex
  have hread₁' := h₁.reads _ hnextx
  rw [update_of_ne (by simp)] at hread₁
  rw [update_of_ne fun heq => hne (NodeField.next.inj heq).symm] at hread₁'
  unfold Ntkv.nodeDelete unlink
  by_cases hzero : F (.pre x) = 0
  · rw [if_pos (hread.trans hzero), if_pos hzero, hread']
    rw [if_pos hzero] at h₂
    refine ⟨?_, rfl⟩
    rwa [hzero] at h₂ ⊢
  · rw [if_neg (hread ▸ hzero), if_neg hzero, hread, hread']
    rw [if_neg hzero] at h₂ hread₁ hread₁'
    dsimp only
    rw [hread₁, hread₁']
    exact ⟨h₂, rfl⟩

theorem nodeInsert (h : Writes nodes m₀ m F) (hhead : head ∈ 0 :: nodes.map (·.addr))
    (hx : x ∈ nodes.map (·.addr)) :
    Writes nodes m₀ (nodeInsert m head x).1 (pushFront F head x) := by
  obtain ⟨-, -, hprex, hnextx⟩ := mem_fieldsOf hx
  have h₁ := h.set hp hprex (word_lt (Nat.two_pow_pos 64))
  have h₂ := h₁.set hp hnextx (word_lt (hp.lt_of_mem hhead))
  exact h₂.setUnless hp .pre (fun hzero => (mem_fieldsOf ((List.mem_cons.mp hhead).resolve_left
    hzero)).2.2.1) hp.null_notMem.1 (word_lt (hp.lt_of_mem (List.mem_cons_of_mem 0 hx)))

theorem copyNode (h : Writes nodes m₀ m F) (hx : x ∈ nodes.map (·.addr))
    (hy : y ∈ nodes.map (·.addr)) (hflag : F (.isFree x) < 256) (hsize : F (.nodeSize x) < 2 ^ 64)
    (hpre : F (.pre x) ∈ 0 :: nodes.map (·.addr)) (hnext : F (.next x) ∈ 0 :: nodes.map (·.addr)) :
    Writes nodes m₀ (copyNode m x y)
      (update (update (update (update F
        (.nodeSize y) (F (.nodeSize x))) (.isFree y) (F (.isFree x))) (.pre y) (F (.pre x)))
        (.next y) (F (.next x))) := by
  obtain ⟨hsize_x, hfree_x, hpre_x, hnext_x⟩ := mem_fieldsOf hx
  obtain ⟨hsize_y, hfree_y, hpre_y, hnext_y⟩ := mem_fieldsOf hy
  have h₁ := h.set hp hsize_y (word_lt hsize)
  have h₂ := h₁.set hp hfree_y (v := F (.isFree x)) (by simpa [nodeLayout] using hflag)
  have h₃ := h₂.set hp hpre_y (word_lt (hp.lt_of_mem hpre))
  have h₄ := h₃.set hp hnext_y (word_lt (hp.lt_of_mem hnext))
  simpa only [Ntkv.copyNode, h.reads _ hsize_x, h.reads _ hfree_x, h.reads _ hpre_x,
    h.reads _ hnext_x] using h₄

theorem relinkNode (head : ℕ) (h : Writes nodes m₀ m F) (hx : x ∈ nodes.map (·.addr))
    (hpre : F (.pre x) ∈ 0 :: nodes.map (·.addr)) (hnext : F (.next x) ∈ 0 :: nodes.map (·.addr))
    (hne : x ≠ F (.pre x)) :
    Writes nodes m₀ (relinkNode m head x).1
        (update (update F (.next (F (.pre x))) x) (.pre (F (.next x))) x) ∧
      (relinkNode m head x).2 = if F (.pre x) = 0 then x else head := by
  obtain ⟨-, -, hpre_x, hnext_x⟩ := mem_fieldsOf hx
  have hx_lt := word_lt (hp.lt_of_mem (List.mem_cons_of_mem 0 hx))
  have h₁ := h.setUnless hp .next (fun hzero => (mem_fieldsOf ((List.mem_cons.mp hpre).resolve_left
    hzero)).2.2.2) hp.null_notMem.2 hx_lt
  have h₂ := h₁.setUnless hp .pre (fun hzero => (mem_fieldsOf ((List.mem_cons.mp hnext).resolve_left
    hzero)).2.2.1) hp.null_notMem.1 hx_lt
  have hread := h₁.reads _ hnext_x
  rw [update_of_ne fun heq => hne (NodeField.next.inj heq)] at hread
  unfold Ntkv.relinkNode
  rw [h.reads _ hpre_x]
  dsimp only
  rw [hread]
  exact ⟨h₂, rfl⟩

theorem splitNode (freeList need : ℕ) (h : Writes nodes m₀ m F)
    (hlow : { addr := x, size := need, free := false } ∈ nodes)
    (hhigh : { addr := x + need, size := F (.nodeSize x) - need, free := true } ∈ nodes)
    (hpre : F (.pre x) ∈ 0 :: nodes.map (·.addr)) (hnext : F (.next x) ∈ 0 :: nodes.map (·.addr))
    (hpre_ne : x + need ≠ F (.pre x)) (hflag : F (.isFree x) < 256) :
    Writes nodes m₀ (splitNode m freeList need x).1 (splitFields F need x) ∧
      (splitNode m freeList need x).2 = if F (.pre x) = 0 then x + need else freeList := by
  have hx : x ∈ nodes.map (·.addr) := List.mem_map_of_mem hlow
  have hy : x + need ∈ nodes.map (·.addr) := List.mem_map_of_mem hhigh
  obtain ⟨hsize_x, hfree_x, -, -⟩ := mem_fieldsOf hx
  obtain ⟨hsize_y, -, -, -⟩ := mem_fieldsOf hy
  have hlarge := hp.large _ hlow
  have hstop := hp.lt _ hlow
  have hstop' := hp.lt _ hhigh
  have hpos := hp.pos _ hlow
  simp only [Node.stop] at hlarge hstop hstop' hpos
  have hxy : x + need ≠ x := by omega
  have hsize : F (.nodeSize x) < 2 ^ 64 := by omega
  have hneed_lt : need < 2 ^ 64 := by omega
  have hx_lt := hp.lt_of_mem (List.mem_cons_of_mem 0 hx)
  have hy_lt := hp.lt_of_mem (List.mem_cons_of_mem 0 hy)
  have h₁ := hp.copyNode h hx hy hflag hsize hpre hnext
  have h₂ := h₁.copy hp hsize_y hsize_y (· - need) (by
    simpa [nodeLayout] using (Nat.sub_le _ need).trans_lt hsize)
  have hsize₂ := h₂.reads _ hsize_y
  simp only [update_self, ne_eq, reduceCtorEq, not_false_eq_true, update_of_ne]
    at h₂ hsize₂
  have h₃ := h₂.set hp (mem_tailer hhigh) (word_lt hy_lt)
  obtain ⟨h₄, hhead⟩ := hp.relinkNode freeList h₃ hy (by simpa using hpre) (by simpa using hnext)
    (by simpa using hpre_ne)
  have h₅ := h₄.set hp hfree_x (v := 0) (by simp [nodeLayout])
  have h₆ := h₅.set hp hsize_x (word_lt hneed_lt)
  have h₇ := h₆.set hp (mem_tailer hlow) (word_lt hx_lt)
  unfold Ntkv.splitNode
  dsimp only
  rw [hsize₂]
  refine ⟨h₇.congr fun f _ => ?_, hhead.trans (by simp)⟩
  cases f with
  | nodeSize z =>
    simp only [splitFields, update_apply, reduceCtorEq, NodeField.nodeSize.injEq, if_false]
    split_ifs <;> rfl
  | isFree z | pre z | next z => simp [splitFields, update_apply]
  | tailer e => simp [splitFields, update_apply, Node.stop]

end Placed

end NtSocks.Ntkv
