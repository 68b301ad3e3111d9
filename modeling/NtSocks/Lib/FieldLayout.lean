import Mathlib
import NtSocks.Lib.LittleEndian
import NtSocks.Lib.Memory

/-!
# Fields in memory

A layout places a family of fields in memory, each a little-endian number of some bytes. Where the
fields of a set lie apart, a memory is read on that set like a function that a write updates at one
place; what is written to fields of a set leaves all other bytes alone.
-/

structure FieldLayout (ι : Type*) where
  addr : ι → ℕ
  width : ι → ℕ

namespace FieldLayout

variable {ι : Type*} (L : FieldLayout ι)

def bytes (i : ι) : Set ℕ := Set.Ico (L.addr i) (L.addr i + L.width i)

def get (m : Memory) (i : ι) : ℕ := LittleEndian.decode (m.load (L.addr i) (L.width i))

def set (m : Memory) (i : ι) (v : ℕ) : Memory :=
  m.store (L.addr i) (LittleEndian.encode (L.width i) v)

def Keeps (T : Set ι) (m m' : Memory) : Prop := ∀ a, (∀ i ∈ T, a ∉ L.bytes i) → m' a = m a

variable {L} {m m' m'' : Memory} {T T' D : Set ι} {i j : ι} {v : ℕ}

theorem get_congr (h : ∀ a ∈ L.bytes i, m' a = m a) : L.get m' i = L.get m i := by
  have hload : m'.load (L.addr i) (L.width i) = m.load (L.addr i) (L.width i) :=
    Memory.load_congr fun k hk => h _ ⟨Nat.le_add_right _ k, Nat.add_lt_add_left hk _⟩
  rw [get, get, hload]

theorem get_set_self (m : Memory) (i : ι) (hv : v < 256 ^ L.width i) :
    L.get (L.set m i v) i = v := by
  have hload := m.load_store (L.addr i) (LittleEndian.encode (L.width i) v)
  rw [LittleEndian.length_encode] at hload
  rw [get, set, hload, LittleEndian.decode_encode_of_lt hv]

theorem keeps_set (hi : i ∈ T) (m : Memory) (v : ℕ) : L.Keeps T m (L.set m i v) := by
  intro a ha
  have hnot : ¬(L.addr i ≤ a ∧ a < L.addr i + L.width i) := ha i hi
  refine m.store_apply_outside _ _ ?_
  rw [LittleEndian.length_encode]
  omega

theorem Keeps.refl (T : Set ι) (m : Memory) : L.Keeps T m m := fun _ _ => rfl

theorem Keeps.trans (h : L.Keeps T m m') (h' : L.Keeps T m' m'') : L.Keeps T m m'' :=
  fun a ha => (h' a ha).trans (h a ha)

theorem Keeps.get (h : L.Keeps T m m') (hi : ∀ j ∈ T, Disjoint (L.bytes j) (L.bytes i)) :
    L.get m' i = L.get m i :=
  get_congr fun a ha => h a fun j hj hmem => Set.disjoint_left.mp (hi j hj) hmem ha

theorem Keeps.get_of_notMem (h : L.Keeps T m m') (hD : D.PairwiseDisjoint L.bytes) (hT : T ⊆ D)
    (hi : i ∈ D) (hnot : i ∉ T) : L.get m' i = L.get m i :=
  h.get fun _ hj => hD (hT hj) hi fun heq => hnot (heq ▸ hj)

theorem get_set [DecidableEq ι] (hD : D.PairwiseDisjoint L.bytes) (hi : i ∈ D) (hj : j ∈ D)
    (m : Memory) (hv : v < 256 ^ L.width i) :
    L.get (L.set m i v) j = if j = i then v else L.get m j := by
  split
  · rename_i heq
    rw [heq, get_set_self m i hv]
  · rename_i hne
    exact (keeps_set (Set.mem_singleton i) m v).get_of_notMem hD
      (Set.singleton_subset_iff.mpr hi) hj hne

end FieldLayout
