import Mathlib.Tactic

/-!
# Indices of a circular buffer

The successor of an index in a ring of `cap` slots is computed by comparison, the position of
an unbounded counter by reduction modulo `cap`. The two agree, and two counters that lie in a
window shorter than the ring are equal as soon as they share a slot.
-/

namespace RingIndex

variable {cap i j k : ℕ}

def next (cap i : ℕ) : ℕ := if i + 1 < cap then i + 1 else 0

theorem next_mod (h : 0 < cap) (k : ℕ) : next cap (k % cap) = (k + 1) % cap := by
  have hk := Nat.mod_lt k h
  unfold next
  split
  · rename_i hlt
    rw [Nat.add_mod, Nat.mod_eq_of_lt (a := 1) (by omega), Nat.mod_eq_of_lt hlt]
  · have he : k % cap + 1 = cap := by omega
    rw [← Nat.mod_add_mod, he, Nat.mod_self]

theorem next_of_lt (h : i < cap) : next cap i = (i + 1) % cap := by
  rw [← next_mod (by omega), Nat.mod_eq_of_lt h]

theorem succ_mod_of_lt (h : k % cap + 1 < cap) : (k + 1) % cap = k % cap + 1 := by
  rw [← next_mod (by omega), next, if_pos h]

theorem next_lt (h : 0 < cap) (i : ℕ) : next cap i < cap := by
  unfold next
  split <;> omega

theorem next_ne_self (h : 2 ≤ cap) (hi : i < cap) : next cap i ≠ i := by
  unfold next
  split <;> omega

theorem eq_of_mod_eq_of_window (hij : i ≤ j) (hj : j < i + cap) (h : i % cap = j % cap) :
    i = j := by
  obtain ⟨d, rfl⟩ := Nat.exists_eq_add_of_le hij
  have hd : d % cap = 0 := by
    simpa only [Nat.add_sub_cancel_left] using Nat.sub_mod_eq_zero_of_mod_eq h.symm
  rw [Nat.mod_eq_of_lt (by omega)] at hd
  omega

theorem mod_ne_of_window (hij : i < j) (hj : j < i + cap) : i % cap ≠ j % cap := by
  intro h
  have := eq_of_mod_eq_of_window hij.le hj h
  omega

/-- Two counters at most a whole ring apart share a slot when they are equal or just that far apart.
-/
theorem mod_eq_iff_of_window (hjk : j ≤ k) (hk : k ≤ j + cap) :
    k % cap = j % cap ↔ k = j ∨ k = j + cap := by
  constructor
  · intro h
    rcases Nat.lt_or_ge k (j + cap) with hlt | hge
    · exact Or.inl (eq_of_mod_eq_of_window hjk hlt h.symm).symm
    · exact Or.inr (by omega)
  · rintro (rfl | rfl)
    · rfl
    · exact Nat.add_mod_right j cap

theorem gap_mod (hle : j ≤ k) (hlt : k < j + cap) : (k % cap + cap - j % cap) % cap = k - j := by
  have hj := Nat.mod_lt j (by omega : 0 < cap)
  have hk : k % cap = (j % cap + (k - j)) % cap := by
    rw [Nat.mod_add_mod, Nat.add_sub_of_le hle]
  by_cases hwrap : j % cap + (k - j) < cap
  · rw [Nat.mod_eq_of_lt hwrap] at hk
    rw [hk, Nat.mod_eq_sub_mod (by omega), Nat.mod_eq_of_lt (by omega)]
    omega
  · have hpast : (j % cap + (k - j)) % cap = j % cap + (k - j) - cap := by
      rw [Nat.mod_eq_sub_mod (by omega), Nat.mod_eq_of_lt (by omega)]
    rw [hk, hpast, Nat.mod_eq_of_lt (by omega)]
    omega

end RingIndex
