import NtSocks.Lib.RingIndex

/-!
# A ring of slots against the log of what went through it

`RingLog` relates a ring of `n` slots, all of which may be in use, to the list of everything ever
written into it and the list of everything read out of it. It holds as long as a write finds fewer
than `n` unread entries and a read finds at least one.
-/

structure RingLog {α : Type*} (n writeIndex readIndex : ℕ) (slot : ℕ → α)
    (written readOut : List α) : Prop where
  writeIndex : writeIndex = written.length % n
  readIndex : readIndex = readOut.length % n
  unread : ∀ k (h : k < written.length), readOut.length ≤ k → slot (k % n) = written[k]
  order : readOut <+: written

namespace RingLog

open Function

variable {α : Type*} {n w r : ℕ} {slot : ℕ → α} {written readOut : List α}

theorem init (n : ℕ) (slot : ℕ → α) : RingLog n 0 0 slot [] [] where
  writeIndex := (Nat.zero_mod n).symm
  readIndex := (Nat.zero_mod n).symm
  unread := fun k hk => absurd hk (Nat.not_lt_zero k)
  order := List.prefix_rfl

theorem write (h : RingLog n w r slot written readOut)
    (hroom : written.length < readOut.length + n) (x : α) :
    RingLog n ((written.length + 1) % n) r (update slot w x) (written ++ [x]) readOut where
  writeIndex := by rw [List.length_append, List.length_singleton]
  readIndex := h.readIndex
  unread := by
    intro k hk hle
    rw [List.length_append, List.length_singleton] at hk
    rcases Nat.lt_or_ge k written.length with hlt | hge
    · have hne : k % n ≠ w := by
        rw [h.writeIndex]
        exact RingIndex.mod_ne_of_window hlt (by omega)
      rw [update_of_ne hne, List.getElem_append_left hlt]
      exact h.unread k hlt hle
    · obtain rfl : k = written.length := by omega
      rw [← h.writeIndex, update_self, List.getElem_concat_length rfl]
  order := h.order.trans (List.prefix_append written [x])

theorem slot_readIndex (h : RingLog n w r slot written readOut)
    (hne : readOut.length < written.length) : slot r = written[readOut.length] := by
  rw [h.readIndex]
  exact h.unread _ hne le_rfl

theorem read (h : RingLog n w r slot written readOut) (hne : readOut.length < written.length) :
    RingLog n w ((readOut.length + 1) % n) slot written (readOut ++ [slot r]) where
  writeIndex := h.writeIndex
  readIndex := by rw [List.length_append, List.length_singleton]
  unread := by
    intro k hk hle
    rw [List.length_append, List.length_singleton] at hle
    exact h.unread k hk (by omega)
  order := by
    rw [h.slot_readIndex hne]
    nth_rewrite 1 [List.prefix_iff_eq_take.mp h.order]
    rw [← List.take_succ_eq_append_getElem hne]
    exact List.take_prefix _ _

end RingLog
