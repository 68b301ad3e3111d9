import NtSocks.NtSocket
import NtSocks.Shmring

/-!
# The backlog is a queue

The indices of the backlog are advanced with a mask that is the asked size less one, which need not
be a power of two. They then run through the numbers below the lowest bit that the mask lacks, and
the backlog is a ring of that many entries.
-/

namespace NtSocks.Ntm.NtBacklogContext

def asShmring (ring : NtBacklogContext) (size : ℕ) : Shmring NtBacklogSock where
  capacity := size
  writeIdx := ring.writeIndex
  readIdx := ring.readIndex
  data := ring.data

def Holds (ring : NtBacklogContext) (q : List NtBacklogSock) : Prop :=
  ∃ size, (∀ x < size, maskIncrement x ring.mask = Shmring.increment x size) ∧
    (ring.asShmring size).Holds size q

theorem exists_lowest_zero_bit (mask : ℕ) :
    ∃ t, mask.testBit t = false ∧ ∀ k < t, mask.testBit k = true := by
  have hex : ∃ t, mask.testBit t = false := ⟨mask, Nat.testBit_lt_two_pow Nat.lt_two_pow_self⟩
  refine ⟨Nat.find hex, Nat.find_spec hex, fun k hk => ?_⟩
  exact Bool.not_eq_false _ ▸ Nat.find_min hex hk

theorem maskIncrement_eq_increment {mask t x : ℕ} (hzero : mask.testBit t = false)
    (hones : ∀ k < t, mask.testBit k = true) (hx : x < 2 ^ t) :
    maskIncrement x mask = Shmring.increment x (2 ^ t) := by
  rw [maskIncrement, Shmring.increment]
  rcases Nat.lt_or_ge (x + 1) (2 ^ t) with hlt | hge
  · rw [Nat.mod_eq_of_lt hlt]
    apply Nat.eq_of_testBit_eq
    intro k
    rw [Nat.testBit_and]
    rcases Nat.lt_or_ge k t with hk | hk
    · rw [hones k hk, Bool.and_true]
    · have hbit : (x + 1).testBit k = false :=
        Nat.testBit_lt_two_pow (hlt.trans_le (Nat.pow_le_pow_right Nat.two_pos hk))
      rw [hbit, Bool.false_and]
  · have hwrap : x + 1 = 2 ^ t := by omega
    rw [hwrap, Nat.mod_self]
    apply Nat.eq_of_testBit_eq
    intro k
    rw [Nat.testBit_and, Nat.testBit_two_pow, Nat.zero_testBit]
    by_cases hk : t = k
    · rw [← hk, hzero, Bool.and_false]
    · rw [decide_eq_false hk, Bool.false_and]

theorem exists_period (mask : ℕ) :
    ∃ size, 0 < size ∧ ∀ x < size, maskIncrement x mask = Shmring.increment x size := by
  obtain ⟨t, hzero, hones⟩ := exists_lowest_zero_bit mask
  exact ⟨2 ^ t, Nat.two_pow_pos t, fun x hx => maskIncrement_eq_increment hzero hones hx⟩

variable {ring ring' : NtBacklogContext} {q : List NtBacklogSock}

theorem Holds.empty (hwrite : ring.writeIndex = 0) (hread : ring.readIndex = 0) :
    ring.Holds [] := by
  obtain ⟨size, hpos, hnext⟩ := exists_period ring.mask
  refine ⟨size, hnext, ?_⟩
  have hring : ring.asShmring size = Shmring.shmringCreate size ring.data := by
    rw [asShmring, hwrite, hread]
    rfl
  rw [hring]
  exact Shmring.Holds.init hpos ring.data

theorem Holds.push {id : ℕ} {socket : NtSocket} (h : ring.Holds q)
    (hpush : ring.backlogPush id socket = some ring') : ring'.Holds (q ++ [entryOf id socket]) := by
  obtain ⟨size, hnext, hq⟩ := h
  have hsame := hnext ring.writeIndex hq.writeIdx_lt
  rw [backlogPush] at hpush
  split at hpush
  · cases hpush
  case isFalse hroom =>
    cases hpush
    have hring : (ring.asShmring size).shmringPush (entryOf id socket) = some _ :=
      if_neg (hsame ▸ hroom)
    refine ⟨size, hnext, ?_⟩
    rcases Nat.lt_or_ge (q.length + 1) size with hlt | hge
    · obtain ⟨r', hr', hholds⟩ := hq.push (x := entryOf id socket) hlt
      rw [hring] at hr'
      cases hr'
      rw [asShmring]
      simp only [hsame]
      exact hholds
    · have hfull := hq.push_full (x := entryOf id socket) (le_antisymm hq.length_lt hge)
      rw [hring] at hfull
      cases hfull

theorem Holds.pop {entry : NtBacklogSock} (h : ring.Holds q)
    (hpop : ring.backlogPop = some (entry, ring')) : ∃ q', q = entry :: q' ∧ ring'.Holds q' := by
  obtain ⟨size, hnext, hq⟩ := h
  have hsame := hnext ring.readIndex hq.readIdx_lt
  rw [backlogPop] at hpop
  split at hpop
  · cases hpop
  case isFalse hne =>
    cases hpop
    have hring : (ring.asShmring size).shmringPop = some _ := if_neg hne
    cases q with
    | nil =>
      rw [hq.pop_empty] at hring
      cases hring
    | cons x q =>
      obtain ⟨r', hr', hholds⟩ := hq.pop
      rw [hring] at hr'
      cases hr'
      refine ⟨q, rfl, size, hnext, ?_⟩
      rw [asShmring]
      simp only [hsame]
      exact hholds

end NtSocks.Ntm.NtBacklogContext
