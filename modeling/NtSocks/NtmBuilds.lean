import NtSocks.Lib.Fifo
import NtSocks.NtmShmring

/-!
# The two builds of the ring to the monitor

`ntm_shmring.c` exists twice. Both builds let a push advance the write index within the buffer, one
with the mask and one by a comparison. In a pop, the build of the monitor masks the read
index; that of the library compares the write index with the end of the buffer instead, so that its
read index only grows.

Here calls are complete: a call that has to wait for a semaphore has no result. `slots` and `events`
are histories, read by no call: the places of the buffer that were written or read, and what the
calls did. A pop from behind the buffer has no message.
-/

namespace NtSocks

open Fifo (Event)

inductive NtmBuild
  | libnts
  | monitor
  deriving DecidableEq

structure NtmRing (M : Type*) where
  bufCountSem : ℕ
  spoolSignalSem : ℕ
  writeIndex : ℕ
  readIndex : ℕ
  buf : ℕ → M
  slots : List ℕ
  events : List (Event M)

inductive NtmCall (M : Type*)
  | push (element : M)
  | pop

def NtmCall.isPop {M : Type*} : NtmCall M → Bool
  | .push _ => false
  | .pop => true

namespace NtmRing

variable {M : Type*}

def init (buf : ℕ → M) : NtmRing M where
  bufCountSem := ntmMaxBufs
  spoolSignalSem := 0
  writeIndex := 0
  readIndex := 0
  buf := buf
  slots := []
  events := []

/-- The indices are of type `unsigned long`. -/
def succ (index : ℕ) : ℕ := (index + 1) % 2 ^ 64

def wrap (index : ℕ) : ℕ := if ntmMaxBufs ≤ index then index - ntmMaxBufs else index

def pushWrite : NtmBuild → ℕ → ℕ
  | .libnts, index => succ index &&& ntmMask
  | .monitor, index => wrap (succ index)

def popRead : NtmBuild → ℕ → ℕ
  | .libnts, index => succ index
  | .monitor, index => succ index &&& ntmMask

def popWrite : NtmBuild → ℕ → ℕ
  | .libnts, index => wrap index
  | .monitor, index => index

variable (build : NtmBuild) (copy : M → M → M) (r : NtmRing M)

def ntmShmringPush (element : M) : Option (NtmRing M) :=
  if r.bufCountSem = 0 then none
  else
    let message := copy element (r.buf r.writeIndex)
    some { r with
      bufCountSem := r.bufCountSem - 1
      buf := Function.update r.buf r.writeIndex message
      writeIndex := pushWrite build r.writeIndex
      spoolSignalSem := r.spoolSignalSem + 1
      slots := r.slots ++ [r.writeIndex]
      events := r.events ++ [.push message true] }

def ntmShmringPop : Option (NtmRing M) :=
  if r.spoolSignalSem = 0 then none
  else
    some { r with
      spoolSignalSem := r.spoolSignalSem - 1
      readIndex := popRead build r.readIndex
      writeIndex := popWrite build r.writeIndex
      bufCountSem := r.bufCountSem + 1
      slots := r.slots ++ [r.readIndex]
      events := r.events ++
        [.pop (if r.readIndex < ntmMaxBufs then some (r.buf r.readIndex) else none)] }

def step : NtmCall M → Option (NtmRing M)
  | .push element => r.ntmShmringPush build copy element
  | .pop => r.ntmShmringPop build

structure Holds (t : NtmRing M) (written readOut : List M) : Prop where
  log : RingLog ntmMaxBufs t.writeIndex t.readIndex t.buf written readOut
  signals : t.spoolSignalSem + readOut.length = written.length
  room : t.bufCountSem + t.spoolSignalSem = ntmMaxBufs
  slots : ∀ i ∈ t.slots, i < ntmMaxBufs
  history : Fifo.History ntmMaxBufs t.events (written.drop readOut.length)

variable {copy} {s s' t t' : NtmRing M} {written readOut : List M} {k : ℕ}

theorem holds_init (buf : ℕ → M) : (init buf).Holds [] [] where
  log := RingLog.init _ buf
  signals := rfl
  room := rfl
  slots := fun _ hi => absurd hi List.not_mem_nil
  history := .nil

theorem succ_mod (k : ℕ) : succ (k % ntmMaxBufs) = k % ntmMaxBufs + 1 := by
  have hlt : k % ntmMaxBufs < 8 := Nat.mod_lt k (by decide)
  rw [succ]
  omega

theorem pushWrite_mod (build : NtmBuild) (k : ℕ) :
    pushWrite build (k % ntmMaxBufs) = (k + 1) % ntmMaxBufs := by
  cases build with
  | libnts => rw [pushWrite, succ_mod, increment_and_ntmMask]
  | monitor =>
    rw [pushWrite, succ_mod, wrap, ntmMaxBufs]
    split <;> omega

theorem popRead_mod (k : ℕ) : popRead .monitor (k % ntmMaxBufs) = (k + 1) % ntmMaxBufs := by
  rw [popRead, succ_mod, increment_and_ntmMask]

namespace Holds

theorem writeIndex_lt (h : t.Holds written readOut) : t.writeIndex < ntmMaxBufs := by
  rw [h.log.writeIndex]
  exact Nat.mod_lt _ (by decide)

theorem readIndex_lt (h : t.Holds written readOut) : t.readIndex < ntmMaxBufs := by
  rw [h.log.readIndex]
  exact Nat.mod_lt _ (by decide)

theorem push (h : t.Holds written readOut) {element : M}
    (hpush : t.ntmShmringPush .monitor copy element = some t') :
    t'.Holds (written ++ [copy element (t.buf t.writeIndex)]) readOut := by
  rw [ntmShmringPush] at hpush
  split at hpush
  · cases hpush
  · rename_i hfree
    cases hpush
    have hsignals := h.signals
    have hroom := h.room
    have hunread : (written.drop readOut.length).length < ntmMaxBufs := by
      rw [List.length_drop]
      omega
    refine ⟨?_, ?_, ?_, ?_, ?_⟩
    · dsimp only
      rw [show pushWrite .monitor t.writeIndex = (written.length + 1) % ntmMaxBufs by
        rw [h.log.writeIndex, pushWrite_mod]]
      exact h.log.write (by omega) _
    · rw [List.length_append, List.length_singleton]
      dsimp only
      omega
    · dsimp only
      omega
    · exact List.forall_mem_append.mpr ⟨h.slots, List.forall_mem_singleton.mpr h.writeIndex_lt⟩
    · rw [List.drop_append_of_le_length (by omega)]
      exact h.history.snoc (.push hunread)

theorem pop (h : t.Holds written readOut) (hpop : t.ntmShmringPop .monitor = some t') :
    t'.Holds written (readOut ++ [t.buf t.readIndex]) := by
  rw [ntmShmringPop] at hpop
  split at hpop
  · cases hpop
  · rename_i hsignal
    cases hpop
    have hsignals := h.signals
    have hroom := h.room
    have hunread : readOut.length < written.length := by omega
    refine ⟨?_, ?_, ?_, ?_, ?_⟩
    · dsimp only
      rw [show popRead .monitor t.readIndex = (readOut.length + 1) % ntmMaxBufs by
        rw [h.log.readIndex, popRead_mod]]
      exact h.log.read hunread
    · rw [List.length_append, List.length_singleton]
      dsimp only
      omega
    · dsimp only
      omega
    · exact List.forall_mem_append.mpr ⟨h.slots, List.forall_mem_singleton.mpr h.readIndex_lt⟩
    · have hhistory := h.history
      rw [List.drop_eq_getElem_cons hunread, ← h.log.slot_readIndex hunread] at hhistory
      rw [List.length_append, List.length_singleton]
      dsimp only
      rw [if_pos h.readIndex_lt]
      exact hhistory.snoc .pop

end Holds

/-- Up to eight pops the two builds differ in the read index at most, which that of the library has
not taken back to the beginning. The ninth pop of the library leaves the buffer. -/
structure Alike (k : ℕ) (s t : NtmRing M) : Prop where
  bufCountSem : s.bufCountSem = t.bufCountSem
  spoolSignalSem : s.spoolSignalSem = t.spoolSignalSem
  within : k ≤ ntmMaxBufs → s = { t with readIndex := k }
  beyond : ntmMaxBufs < k → ntmMaxBufs ∈ s.slots

theorem push_eq_some (build : NtmBuild) (copy : M → M → M) (element : M)
    (hfree : s.bufCountSem ≠ 0) :
    ∃ s', s.ntmShmringPush build copy element = some s' ∧
      s'.bufCountSem = s.bufCountSem - 1 ∧ s'.spoolSignalSem = s.spoolSignalSem + 1 ∧
      s.slots ⊆ s'.slots := by
  rw [ntmShmringPush, if_neg hfree]
  exact ⟨_, rfl, rfl, rfl, List.subset_append_left _ _⟩

theorem pop_eq_some (build : NtmBuild) (hsignal : s.spoolSignalSem ≠ 0) :
    ∃ s', s.ntmShmringPop build = some s' ∧
      s'.bufCountSem = s.bufCountSem + 1 ∧ s'.spoolSignalSem = s.spoolSignalSem - 1 ∧
      s.slots ⊆ s'.slots ∧ s.readIndex ∈ s'.slots := by
  rw [ntmShmringPop, if_neg hsignal]
  exact ⟨_, rfl, rfl, rfl, List.subset_append_left _ _,
    List.mem_append_right _ (List.mem_singleton_self _)⟩

namespace Alike

theorem push (h : Alike k s t) (ht : t.Holds written readOut) {element : M}
    (hpush : s.ntmShmringPush .libnts copy element = some s') :
    ∃ t', t.ntmShmringPush .monitor copy element = some t' ∧ Alike k s' t' := by
  have hfree : s.bufCountSem ≠ 0 := by
    intro hzero
    rw [ntmShmringPush, if_pos hzero] at hpush
    cases hpush
  obtain ⟨_, hsome, hcount, hsignal, hsub⟩ := push_eq_some .libnts copy element hfree
  rw [hsome] at hpush
  cases hpush
  obtain ⟨t', ht', hcount', hsignal', -⟩ :=
    push_eq_some .monitor copy element (h.bufCountSem ▸ hfree)
  refine ⟨t', ht', ?_, ?_, ?_, fun hk => hsub (h.beyond hk)⟩
  · rw [hcount, hcount', h.bufCountSem]
  · rw [hsignal, hsignal', h.spoolSignalSem]
  · intro hk
    have hindex : pushWrite .libnts t.writeIndex = pushWrite .monitor t.writeIndex := by
      rw [ht.log.writeIndex, pushWrite_mod, pushWrite_mod]
    rw [ntmShmringPush, if_neg (h.bufCountSem ▸ hfree)] at ht'
    rw [h.within hk, ntmShmringPush, if_neg (h.bufCountSem ▸ hfree)] at hsome
    cases ht'
    cases hsome
    dsimp only
    rw [hindex]

theorem pop (h : Alike k s t) (ht : t.Holds written readOut) (hread : t.readIndex = k % ntmMaxBufs)
    (hpop : s.ntmShmringPop .libnts = some s') :
    ∃ t', t.ntmShmringPop .monitor = some t' ∧ Alike (k + 1) s' t' := by
  have hsome : s.spoolSignalSem ≠ 0 := by
    intro hzero
    rw [ntmShmringPop, if_pos hzero] at hpop
    cases hpop
  obtain ⟨_, hs', hcount, hsignal, hsub, hslot⟩ := pop_eq_some .libnts hsome
  rw [hs'] at hpop
  cases hpop
  obtain ⟨t', ht', hcount', hsignal', -⟩ := pop_eq_some .monitor (h.spoolSignalSem ▸ hsome)
  refine ⟨t', ht', ?_, ?_, ?_, ?_⟩
  · rw [hcount, hcount', h.bufCountSem]
  · rw [hsignal, hsignal', h.spoolSignalSem]
  · intro hk
    have hlt : k < ntmMaxBufs := hk
    have hreadIndex : t.readIndex = k := by rw [hread, Nat.mod_eq_of_lt hlt]
    have hwrite : popWrite .libnts t.writeIndex = popWrite .monitor t.writeIndex :=
      if_neg (Nat.not_le.mpr ht.writeIndex_lt)
    have hnext : popRead .libnts k = k + 1 := by
      rw [popRead, succ]
      rw [ntmMaxBufs] at hlt
      omega
    rw [ntmShmringPop, if_neg (h.spoolSignalSem ▸ hsome)] at ht'
    rw [h.within hlt.le, ntmShmringPop, if_neg (h.spoolSignalSem ▸ hsome)] at hs'
    cases ht'
    cases hs'
    dsimp only
    rw [hwrite, hnext, hreadIndex]
  · intro hk
    rcases Nat.lt_or_ge ntmMaxBufs k with hlt | hge
    · exact hsub (h.beyond hlt)
    · -- the read index of the library is at the end of the buffer
      obtain rfl : k = ntmMaxBufs := by omega
      have hindex : s.readIndex = ntmMaxBufs := by rw [h.within le_rfl]
      exact hindex ▸ hslot

end Alike

theorem Alike.run (h : Alike readOut.length s t) (ht : t.Holds written readOut)
    {calls : List (NtmCall M)} (hrun : Runs.run (step .libnts copy) s calls = some s') :
    ∃ t' written' readOut', Runs.run (step .monitor copy) t calls = some t' ∧
      t'.Holds written' readOut' ∧ readOut'.length = readOut.length + calls.countP NtmCall.isPop ∧
      Alike readOut'.length s' t' := by
  induction calls generalizing s t written readOut with
  | nil =>
    cases hrun
    exact ⟨t, written, readOut, rfl, ht, rfl, h⟩
  | cons call calls ih =>
    obtain ⟨s₁, hstep, hrest⟩ := Runs.run_cons_eq_some.mp hrun
    cases call with
    | push element =>
      obtain ⟨t₁, ht₁, h₁⟩ := h.push ht hstep
      obtain ⟨t', written', readOut', hrun', hholds, hlength, halike⟩ :=
        ih h₁ (ht.push ht₁) hrest
      exact ⟨t', written', readOut', Runs.run_cons_eq_some.mpr ⟨t₁, ht₁, hrun'⟩, hholds,
        hlength, halike⟩
    | pop =>
      obtain ⟨t₁, ht₁, h₁⟩ := h.pop ht ht.log.readIndex hstep
      have hnext : (readOut ++ [t.buf t.readIndex]).length = readOut.length + 1 := by simp
      rw [← hnext] at h₁
      obtain ⟨t', written', readOut', hrun', hholds, hlength, halike⟩ :=
        ih h₁ (ht.pop ht₁) hrest
      refine ⟨t', written', readOut', Runs.run_cons_eq_some.mpr ⟨t₁, ht₁, hrun'⟩, hholds, ?_,
        halike⟩
      rw [hlength, hnext, List.countP_cons_of_pos rfl]
      omega

/-- What a ring did is what the other one did, within the buffer. -/
structure Agrees (s t : NtmRing M) : Prop where
  events : s.events = t.events
  slots : s.slots = t.slots
  within : ∀ i ∈ s.slots, i < ntmMaxBufs

/-- Every sequence of calls that the build of the library completes is completed by the build of the
monitor, as a first-in-first-out queue of eight entries within the buffer. The two agree if and only
if there are at most eight pops. -/
theorem builds_agree_iff (copy : M → M → M) (buf : ℕ → M) {calls : List (NtmCall M)}
    (hrun : Runs.run (step .libnts copy) (init buf) calls = some s) :
    ∃ t q, Runs.run (step .monitor copy) (init buf) calls = some t ∧
      Fifo.History ntmMaxBufs t.events q ∧ (∀ i ∈ t.slots, i < ntmMaxBufs) ∧
      (Agrees s t ↔ calls.countP NtmCall.isPop ≤ ntmMaxBufs) := by
  have halike : Alike ([] : List M).length (init buf) (init buf) :=
    ⟨rfl, rfl, fun _ => rfl, fun hk => absurd hk (Nat.not_lt_zero _)⟩
  obtain ⟨t, written, readOut, hrun', hholds, hlength, h⟩ :=
    Alike.run halike (holds_init buf) hrun
  rw [List.length_nil, Nat.zero_add] at hlength
  refine ⟨t, _, hrun', hholds.history, hholds.slots, ?_⟩
  rw [← hlength]
  constructor
  · intro hagrees
    by_contra hk
    have hmem := h.beyond (Nat.lt_of_not_le hk)
    exact absurd (hagrees.within _ hmem) (lt_irrefl _)
  · intro hk
    have heq := h.within hk
    refine ⟨by rw [heq], by rw [heq], ?_⟩
    rw [heq]
    exact hholds.slots

theorem eight_pops_agree : ∃ s t : NtmRing Bool,
    Runs.run (step .libnts fun m _ => m) (init fun _ => false)
      (List.replicate 8 (.push true) ++ List.replicate 8 .pop) = some s ∧
    Runs.run (step .monitor fun m _ => m) (init fun _ => false)
      (List.replicate 8 (.push true) ++ List.replicate 8 .pop) = some t ∧ Agrees s t := by
  have hlibnts : Runs.run (step .libnts fun m _ => m) (init fun _ => false)
      (List.replicate 8 (.push true) ++ List.replicate 8 .pop) = some _ := rfl
  obtain ⟨t, q, hrun, -, -, hiff⟩ := builds_agree_iff _ _ hlibnts
  exact ⟨_, t, hlibnts, hrun, hiff.mpr (by decide)⟩

/-- The ninth pop of the library reads behind the buffer. -/
theorem ninth_pop_leaves_buffer : ∃ s t : NtmRing Bool,
    Runs.run (step .libnts fun m _ => m) (init fun _ => false)
      ((List.replicate 9 [.push true, .pop]).flatten) = some s ∧
    Runs.run (step .monitor fun m _ => m) (init fun _ => false)
      ((List.replicate 9 [.push true, .pop]).flatten) = some t ∧
    s.slots.getLast? = some 8 ∧ t.slots.getLast? = some 0 ∧ ¬ Agrees s t := by
  refine ⟨_, _, rfl, rfl, rfl, rfl, ?_⟩
  intro hagrees
  exact absurd (hagrees.within 8 (by decide)) (by decide)

end NtmRing

end NtSocks
