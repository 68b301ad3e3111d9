import Mathlib.Data.List.GetD
import Mathlib.Tactic

/-!
# Byte-addressed memory

A memory assigns a byte to every natural address. `store` overwrites one interval and `load`
reads one back; `halfword` reads a little-endian 16-bit field and `leBytes` is its encoding.
Stores and loads of disjoint intervals commute, so a layout argument reduces to interval
arithmetic on addresses.
-/

abbrev Memory := ℕ → UInt8

namespace Memory

variable (m : Memory) (a b n : ℕ) (bs : List UInt8) {x i : ℕ}

def store : Memory := fun x => if a ≤ x then bs.getD (x - a) (m x) else m x

def load : List UInt8 := (List.range n).map fun i => m (a + i)

theorem store_apply_of_lt (hx : x < a) : m.store a bs x = m x := by
  unfold store
  rw [if_neg (by omega)]

theorem store_apply_of_ge (hx : a + bs.length ≤ x) : m.store a bs x = m x := by
  unfold store
  rw [if_pos (by omega), List.getD_eq_default _ _ (by omega)]

theorem store_apply_outside (hx : x < a ∨ a + bs.length ≤ x) : m.store a bs x = m x := by
  rcases hx with hx | hx
  · exact m.store_apply_of_lt a bs hx
  · exact m.store_apply_of_ge a bs hx

theorem store_apply_inside (hi : i < bs.length) : m.store a bs (a + i) = bs[i] := by
  unfold store
  rw [if_pos (by omega), Nat.add_sub_cancel_left, List.getD_eq_getElem _ _ hi]

@[simp] theorem store_nil : m.store a [] = m := by
  funext x
  simp [store]

@[simp] theorem length_load : (m.load a n).length = n := by simp [load]

theorem getElem_load (hi : i < (m.load a n).length) : (m.load a n)[i] = m (a + i) := by
  simp [load]

theorem apply_of_load_eq {bs : List UInt8} (h : m.load a bs.length = bs) (hi : i < bs.length) :
    m (a + i) = bs[i] := by
  have hi' : i < (m.load a bs.length).length := by simpa using hi
  rw [← m.getElem_load a bs.length hi']
  simp only [h]

theorem load_congr {m m' : Memory} {a b n : ℕ} (h : ∀ i < n, m (a + i) = m' (b + i)) :
    m.load a n = m'.load b n := by
  apply List.map_congr_left
  intro i hi
  exact h i (List.mem_range.mp hi)

theorem load_store : (m.store a bs).load a bs.length = bs := by
  apply List.ext_getElem
  · simp
  · intro i _ hi
    rw [getElem_load, store_apply_inside m a bs hi]

theorem load_store_of_disjoint (h : a + n ≤ b ∨ b + bs.length ≤ a) :
    (m.store b bs).load a n = m.load a n := by
  apply load_congr
  intro i hi
  exact m.store_apply_outside b bs (by omega)

theorem store_append (cs : List UInt8) :
    m.store a (bs ++ cs) = (m.store a bs).store (a + bs.length) cs := by
  funext x
  rcases Nat.lt_or_ge x a with hx | hx
  · rw [store_apply_of_lt _ _ _ hx, store_apply_of_lt _ _ _ (by omega), store_apply_of_lt _ _ _ hx]
  · obtain ⟨i, rfl⟩ := Nat.exists_eq_add_of_le hx
    by_cases hi : i < bs.length
    · rw [store_apply_inside _ _ _ (by simp; omega), List.getElem_append_left hi,
        store_apply_of_lt _ _ _ (by omega), store_apply_inside _ _ _ hi]
    · by_cases hc : i < bs.length + cs.length
      · have he : a + i = a + bs.length + (i - bs.length) := by omega
        rw [store_apply_inside _ _ _ (by simp; omega), List.getElem_append_right (by omega), he,
          store_apply_inside _ _ _ (by omega)]
      · rw [store_apply_of_ge _ _ _ (by simp; omega), store_apply_of_ge _ _ _ (by omega),
          store_apply_of_ge _ _ _ (by omega)]

def halfword : UInt16 := UInt16.ofNat ((m a).toNat + 256 * (m (a + 1)).toNat)

theorem halfword_congr {m m' : Memory} {a b : ℕ} (h₀ : m a = m' b) (h₁ : m (a + 1) = m' (b + 1)) :
    m.halfword a = m'.halfword b := by
  simp only [halfword, h₀, h₁]

theorem halfword_store_of_disjoint (h : a + 2 ≤ b ∨ b + bs.length ≤ a) :
    (m.store b bs).halfword a = m.halfword a :=
  halfword_congr (m.store_apply_outside b bs (by omega)) (m.store_apply_outside b bs (by omega))

end Memory

def leBytes (w : UInt16) : List UInt8 := [UInt8.ofNat w.toNat, UInt8.ofNat (w.toNat / 256)]

@[simp] theorem length_leBytes (w : UInt16) : (leBytes w).length = 2 := rfl

theorem halfword_of_leBytes (w : UInt16) :
    UInt16.ofNat ((UInt8.ofNat w.toNat).toNat + 256 * (UInt8.ofNat (w.toNat / 256)).toNat) = w := by
  have hw : w.toNat < 65536 := w.toNat_lt
  apply UInt16.toNat_inj.mp
  simp only [UInt16.toNat_ofNat', UInt8.toNat_ofNat']
  omega

namespace Memory

variable (m : Memory) (a b : ℕ)

@[simp] theorem halfword_store_leBytes (w : UInt16) : (m.store a (leBytes w)).halfword a = w := by
  have h₀ : m.store a (leBytes w) a = UInt8.ofNat w.toNat :=
    m.store_apply_inside a (leBytes w) (i := 0) (by simp)
  have h₁ : m.store a (leBytes w) (a + 1) = UInt8.ofNat (w.toNat / 256) :=
    m.store_apply_inside a (leBytes w) (i := 1) (by simp)
  rw [halfword, h₀, h₁, halfword_of_leBytes]

theorem halfword_eq_zero_of_bytes (h₀ : m a = 0) (h₁ : m (a + 1) = 0) : m.halfword a = 0 := by
  simp [halfword, h₀, h₁]

end Memory
