import NtSocks.Lib.GuardedRing
import NtSocks.Lib.RingLog

/-!
# The ring from the applications to the monitor

Any number of applications push messages into one shared ring, and the monitor pops them. Three
semaphores guard it: `buf_count_sem` counts free slots, `mutex_sem` admits one application at a time
to the write index, and `spool_signal_sem` counts the messages announced to the monitor: `slots`,
`mutex` and `signals` of `GuardedRing`. A wait that is interrupted returns `-1`, and the call it
belongs to returns `false`; a slot taken from `buf_count_sem` is not given back then.

`pushed` and `popped` are histories, read by no step: what the critical sections left in their slots
and what the monitor copied out of them, in the order in which this happened.
-/

namespace NtSocks

def ntmMaxBufs : ℕ := 8

/-- Both builds advance an index with this mask. -/
def ntmMask : ℕ := ntmMaxBufs - 1

theorem increment_and_ntmMask (k : ℕ) :
    (k % ntmMaxBufs + 1) &&& ntmMask = (k + 1) % ntmMaxBufs := by
  have hmask : ntmMask = 2 ^ 3 - 1 := rfl
  rw [hmask, Nat.and_two_pow_sub_one_eq_mod]
  exact Nat.mod_add_mod k 8 1

structure NtmShmringBuf (M : Type*) where
  writeIndex : ℕ
  readIndex : ℕ
  buf : ℕ → M
  element : M
  pushed : List M
  popped : List M

namespace NtmShmringBuf

variable {M : Type*}

def init (buf : ℕ → M) (element : M) : NtmShmringBuf M where
  writeIndex := 0
  readIndex := 0
  buf := buf
  element := element
  pushed := []
  popped := []

variable (copy : M → M → M) (r : NtmShmringBuf M)

/-- `copy src target` is what `ntm_msgcopy(src, target)` leaves in `target`. -/
def criticalSection (element : M) : NtmShmringBuf M :=
  let message := copy element (r.buf r.writeIndex)
  { r with
    buf := Function.update r.buf r.writeIndex message
    writeIndex := (r.writeIndex + 1) &&& ntmMask
    pushed := r.pushed ++ [message] }

def copyOut : NtmShmringBuf M :=
  { r with
    element := copy (r.buf r.readIndex) r.element
    readIndex := (r.readIndex + 1) &&& ntmMask
    popped := r.popped ++ [r.buf r.readIndex] }

def sections : GuardedRing.Sections M Unit (NtmShmringBuf M) where
  write := fun element r => r.criticalSection copy element
  read := fun _ r => r.copyOut copy

def Logged : Prop := RingLog ntmMaxBufs r.writeIndex r.readIndex r.buf r.pushed r.popped

def unpopped : ℕ := r.pushed.length - r.popped.length

theorem sections_lawful : GuardedRing.Lawful (sections copy) ntmMaxBufs Logged unpopped where
  write := by
    intro r element h hroom
    have hnext : (r.writeIndex + 1) &&& ntmMask = (r.pushed.length + 1) % ntmMaxBufs := by
      rw [RingLog.writeIndex h, increment_and_ntmMask]
    simp only [Logged, sections, criticalSection, hnext]
    unfold unpopped at hroom
    exact RingLog.write h (by omega) _
  size_write := by
    intro r element h _
    have hle := (RingLog.order h).length_le
    simp only [unpopped, sections, criticalSection, List.length_append, List.length_singleton]
    omega
  read := by
    intro r _ h hne
    have hnext : (r.readIndex + 1) &&& ntmMask = (r.popped.length + 1) % ntmMaxBufs := by
      rw [RingLog.readIndex h, increment_and_ntmMask]
    simp only [Logged, sections, copyOut, hnext]
    unfold unpopped at hne
    exact RingLog.read h (by omega)
  size_read := by
    intro r _ h hne
    unfold unpopped at hne
    simp only [unpopped, sections, copyOut, List.length_append, List.length_singleton]
    omega

end NtmShmringBuf

abbrev NtmShmring (P M : Type*) := GuardedRing.State P M (NtmShmringBuf M)

namespace NtmShmring

open GuardedRing (Guarded State)

variable {P M : Type*}

abbrev Action (P M : Type*) := GuardedRing.Action P M Unit

def init (P : Type*) {M : Type*} (buf : ℕ → M) (element : M) : NtmShmring P M :=
  State.init P M ntmMaxBufs (NtmShmringBuf.init buf element)

variable [DecidableEq P]

def step (copy : M → M → M) (s : NtmShmring P M) (a : Action P M) : Option (NtmShmring P M) :=
  State.step (NtmShmringBuf.sections copy) s a

variable [Fintype P] {s t : NtmShmring P M}

theorem guarded_of_run (copy : M → M → M) (buf : ℕ → M) (element : M) {as : List (Action P M)}
    (hrun : Runs.run (step copy) (init P buf element) as = some s) :
    Guarded ntmMaxBufs NtmShmringBuf.Logged NtmShmringBuf.unpopped s := by
  have hlog : (NtmShmringBuf.init buf element).Logged := RingLog.init ntmMaxBufs buf
  exact (Guarded.init hlog rfl).run (NtmShmringBuf.sections_lawful copy) hrun

/-- In every interleaving the ring is a bounded queue: what is popped was pushed, in the order of
the critical sections and each message once; one producer at a time is in its critical section, and
the slot that it writes holds no message still to be popped; the monitor copies only a slot whose
message is the next to be popped; and once no new call is made the processes come to rest after
boundedly many steps with every message popped. -/
theorem push_pop_bounded_fifo (copy : M → M → M) (buf : ℕ → M) (element : M)
    {as : List (Action P M)} (hrun : Runs.run (step copy) (init P buf element) as = some s) :
    s.ring.popped <+: s.ring.pushed ∧ s.ring.pushed.length ≤ s.ring.popped.length + ntmMaxBufs ∧
      (∀ p q m m', s.producer p = .critical m → s.producer q = .critical m' → p = q) ∧
      (∀ p m, s.producer p = .critical m →
        ∀ k, s.ring.popped.length ≤ k → k < s.ring.pushed.length →
          k % ntmMaxBufs ≠ s.ring.writeIndex) ∧
      (s.consumer = .reading → ∃ h : s.ring.popped.length < s.ring.pushed.length,
        s.ring.buf s.ring.readIndex = s.ring.pushed[s.ring.popped.length]) ∧
      ∀ bs t, Runs.run (step copy) s bs = some t → (∀ b ∈ bs, b.starts = false) →
        bs.length ≤ s.stepsLeft ∧ ((∀ a : Action P M, a.proceeds = true → step copy t a = none) →
            t.ring.popped = t.ring.pushed) := by
  have hs := guarded_of_run copy buf element hrun
  have hlog : RingLog ntmMaxBufs _ _ _ _ _ := hs.inv
  have hslots := hs.slots
  unfold NtmShmringBuf.unpopped at hslots
  refine ⟨hlog.order, by omega, fun p q m m' => hs.critical_unique, ?_, ?_, ?_⟩
  · intro p m hp k hle hlt
    have hroom := hs.room hp
    unfold NtmShmringBuf.unpopped at hroom
    rw [hlog.writeIndex]
    exact RingIndex.mod_ne_of_window hlt (by omega)
  · intro hc
    have hfilled := Nat.lt_of_sub_pos (hs.filled hc)
    exact ⟨hfilled, hlog.slot_readIndex hfilled⟩
  · intro bs t hbs hstarts
    refine ⟨GuardedRing.length_le_stepsLeft hbs hstarts, fun hrest => ?_⟩
    have ht := hs.run (NtmShmringBuf.sections_lawful copy) hbs
    have horder := RingLog.order ht.inv
    have hle := Nat.le_of_sub_eq_zero (ht.size_eq_zero_of_rest hrest)
    exact horder.eq_of_length (le_antisymm horder.length_le hle)

/-- Two applications: the second enters first, the first announces its message first. -/
def crossedPushes : List (Action (Fin 2) ℕ) :=
  [.push 0 7, .push 1 9, .waitSlots 0, .waitSlots 1, .waitMutex 1, .writeSection 1, .postMutex 1,
    .waitMutex 0, .writeSection 0, .postMutex 0, .postSignals 0, .waitSignals, .readSection (),
    .postSlots]

theorem crossedPushes_in_order :
    ∃ s, Runs.run (step fun m _ => m) (init (Fin 2) (fun _ => 0) 0) crossedPushes = some s ∧
      s.ring.pushed = [9, 7] ∧ s.ring.popped = [9] ∧ s.ring.popped <+: s.ring.pushed := by
  obtain ⟨s, hrun, hpushed, hpopped⟩ : ∃ s, Runs.run (step fun m _ => m)
      (init (Fin 2) (fun _ => 0) 0) crossedPushes = some s ∧
      s.ring.pushed = [9, 7] ∧ s.ring.popped = [9] := ⟨_, rfl, rfl, rfl⟩
  exact ⟨s, hrun, hpushed, hpopped, (push_pop_bounded_fifo _ _ _ hrun).1⟩

end NtmShmring

end NtSocks
