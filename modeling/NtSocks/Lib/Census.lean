import Mathlib.Algebra.Order.BigOperators.Group.Finset
import Mathlib.Tactic

/-!
# Counting parties by the phase they are in

Finitely many parties each stand in a phase, and every phase has a weight. When one party moves,
the total weight changes by the difference of two weights. A semaphore is understood this way: its
value and the permits that the parties hold, read off their phases, add up to a constant.
-/

namespace Census

open Function

variable {P K : Type*} [Fintype P] (w : K → ℕ) (phase : P → K)

def total : ℕ := ∑ p, w (phase p)

theorem total_eq_zero (h : ∀ p, w (phase p) = 0) : total w phase = 0 :=
  Finset.sum_eq_zero fun p _ => h p

theorem weight_le_total (p : P) : w (phase p) ≤ total w phase :=
  Finset.single_le_sum (f := fun p => w (phase p)) (fun _ _ => Nat.zero_le _) (Finset.mem_univ p)

variable [DecidableEq P]

theorem total_update (p : P) (k : K) :
    total w (update phase p k) + w (phase p) = total w phase + w k := by
  unfold total
  have hrest : ∑ q ∈ Finset.univ.erase p, w (update phase p k q) =
      ∑ q ∈ Finset.univ.erase p, w (phase q) := by
    apply Finset.sum_congr rfl
    intro q hq
    rw [update_of_ne (Finset.ne_of_mem_erase hq)]
  rw [← Finset.add_sum_erase _ _ (Finset.mem_univ p), hrest, update_self,
    ← Finset.add_sum_erase Finset.univ (fun q => w (phase q)) (Finset.mem_univ p)]
  omega

theorem eq_of_total_le_one {p q : P} (h : total w phase ≤ 1) (hp : 0 < w (phase p))
    (hq : 0 < w (phase q)) : p = q := by
  by_contra hne
  have hle := Finset.add_le_sum (f := fun p => w (phase p)) (fun _ _ => Nat.zero_le _)
    (Finset.mem_univ p) (Finset.mem_univ q) hne
  unfold total at h
  omega

end Census
