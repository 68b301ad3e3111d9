import NtSocks.Lib.Memory
import NtSocks.Lib.RingIndex

/-!
# Byte strings in a circular buffer of slots

A ring of `cap` slots of `stride` bytes lies at address zero of a memory. Offsets are counted from
the beginning of a start slot and wrap at the end of the ring. `Laid` says that a byte string
stands at an offset; it is extended by filling the next slot, is unaffected by writes to later
slots, and is read back in one piece, or in two pieces around the end of the ring.
-/

namespace RingLayout

variable {stride cap start off : ℕ} {x : ℕ}

def addr (stride cap start x : ℕ) : ℕ := (start * stride + x) % (cap * stride)

theorem addr_slot {v o : ℕ} (ho : o < stride) (hcap : 0 < cap) :
    addr stride cap start (v * stride + o) = (start + v) % cap * stride + o := by
  have hlt : (start + v) % cap * stride + o < cap * stride := by
    have hmod : (start + v) % cap + 1 ≤ cap := Nat.mod_lt _ hcap
    calc (start + v) % cap * stride + o < (start + v) % cap * stride + stride := by omega
      _ = ((start + v) % cap + 1) * stride := (Nat.succ_mul _ _).symm
      _ ≤ cap * stride := Nat.mul_le_mul_right _ hmod
  have hsplit : start * stride + (v * stride + o) =
      cap * stride * ((start + v) / cap) + ((start + v) % cap * stride + o) := by
    have hdiv := Nat.div_add_mod (start + v) cap
    calc start * stride + (v * stride + o) = (start + v) * stride + o := by ring
      _ = (cap * ((start + v) / cap) + (start + v) % cap) * stride + o := by rw [hdiv]
      _ = cap * stride * ((start + v) / cap) + ((start + v) % cap * stride + o) := by ring
  rw [addr, hsplit, Nat.mul_add_mod, Nat.mod_eq_of_lt hlt]

theorem addr_of_lt (h : start * stride + x < cap * stride) :
    addr stride cap start x = start * stride + x := Nat.mod_eq_of_lt h

theorem addr_of_ge (h : cap * stride ≤ start * stride + x)
    (hlt : start * stride + x < cap * stride + cap * stride) :
    addr stride cap start x = start * stride + x - cap * stride := by
  rw [addr, Nat.mod_eq_sub_mod h, Nat.mod_eq_of_lt (by omega)]

theorem addr_first {o : ℕ} (hstart : start < cap) (ho : o < stride) :
    addr stride cap start o = start * stride + o := by
  apply addr_of_lt
  calc start * stride + o < start * stride + stride := by omega
    _ = (start + 1) * stride := (Nat.succ_mul _ _).symm
    _ ≤ cap * stride := Nat.mul_le_mul_right _ hstart

theorem slot_separated (stride : ℕ) {i j : ℕ} (h : i ≠ j) :
    i * stride + stride ≤ j * stride ∨ j * stride + stride ≤ i * stride := by
  rcases Nat.lt_or_gt_of_ne h with hlt | hgt
  · left
    calc i * stride + stride = (i + 1) * stride := (Nat.succ_mul _ _).symm
      _ ≤ j * stride := Nat.mul_le_mul_right _ hlt
  · right
    calc j * stride + stride = (j + 1) * stride := (Nat.succ_mul _ _).symm
      _ ≤ i * stride := Nat.mul_le_mul_right _ hgt

theorem store_apply_addr (m : Memory) {cs : List UInt8} {v w o : ℕ} (hcs : cs.length ≤ stride)
    (ho : o < stride) (hvw : v < w) (hw : w < cap) :
    m.store ((start + w) % cap * stride) cs (addr stride cap start (v * stride + o)) =
      m (addr stride cap start (v * stride + o)) := by
  have hne : (start + v) % cap ≠ (start + w) % cap :=
    RingIndex.mod_ne_of_window (by omega) (by omega)
  have hfar := slot_separated stride hne
  rw [addr_slot ho (by omega)]
  exact m.store_apply_outside _ _ (by omega)

def Laid (m : Memory) (stride cap start off : ℕ) (bs : List UInt8) : Prop :=
  ∀ i (h : i < bs.length), m (addr stride cap start (off + i)) = bs[i]

namespace Laid

variable {m : Memory} {bs cs : List UInt8}

section

variable (h : Laid m stride cap start off bs) {w : ℕ}
include h

theorem frame (hcs : cs.length ≤ stride) (hend : off + bs.length ≤ w * stride) (hw : w < cap) :
    Laid (m.store ((start + w) % cap * stride) cs) stride cap start off bs := by
  intro i hi
  have hpos : 0 < stride := Nat.pos_of_ne_zero fun h0 => by subst h0; omega
  have hlt : (off + i) / stride < w := (Nat.div_lt_iff_lt_mul hpos).mpr (by omega)
  have hsplit : off + i = (off + i) / stride * stride + (off + i) % stride :=
    (Nat.div_add_mod' (off + i) stride).symm
  rw [hsplit, store_apply_addr m hcs (Nat.mod_lt _ hpos) hlt hw, ← hsplit]
  exact h i hi

theorem extend (hcs : cs.length ≤ stride) (hend : off + bs.length = w * stride) (hw : w < cap) :
    Laid (m.store ((start + w) % cap * stride) cs) stride cap start off (bs ++ cs) := by
  intro i hi
  by_cases hlt : i < bs.length
  · rw [List.getElem_append_left hlt]
    exact h.frame hcs hend.le hw i hlt
  · rw [List.length_append] at hi
    have hoff : off + i = w * stride + (i - bs.length) := by omega
    rw [List.getElem_append_right (by omega), hoff, addr_slot (by omega) (by omega)]
    exact m.store_apply_inside _ cs (by omega)

theorem load_contiguous (hfit : start * stride + off + bs.length ≤ cap * stride) :
    m.load (start * stride + off) bs.length = bs := by
  apply List.ext_getElem
  · simp
  · intro i _ hi
    rw [m.getElem_load, ← h i hi, addr_of_lt (by omega), Nat.add_assoc]

theorem load_wrapped {k : ℕ} (hk : k ≤ bs.length)
    (hend : start * stride + off + k = cap * stride) (hrest : bs.length ≤ k + cap * stride) :
    m.load (start * stride + off) k ++ m.load 0 (bs.length - k) = bs := by
  apply List.ext_getElem
  · simp only [List.length_append, Memory.length_load]
    omega
  · intro i hlen hi
    by_cases hik : i < k
    · rw [List.getElem_append_left (by simpa using hik), m.getElem_load, ← h i hi,
        addr_of_lt (by omega), Nat.add_assoc]
    · rw [List.getElem_append_right (by simpa using hik), m.getElem_load, ← h i hi,
        addr_of_ge (by omega) (by omega), Memory.length_load]
      congr 1
      omega

end

end Laid

end RingLayout
