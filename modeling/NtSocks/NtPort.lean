import NtSocks.Lib.Tailq

/-!
# The port allocator of the monitor

`allocate_port` takes ports from the head of a tail queue of free ports and skips those that are not
marked unused: `allocate_specified_port` marks a port used and leaves it in the queue.
-/

namespace NtSocks

inductive PortStatus
  | unused
  | used
  deriving DecidableEq, Repr

structure NtPortContext where
  status : ℕ → PortStatus
  numPorts : ℕ
  freeNtport : Tailq ℕ

namespace NtPortContext

/-- The `port_id` of an entry, a `uint16_t` that `init_port_context` sets to the index. -/
def portId (i : ℕ) : UInt16 := UInt16.ofNat i

/-- `none` when `max_port` is not positive. -/
def initPortContext (maxPort : ℕ) : Option NtPortContext :=
  if maxPort = 0 then none
  else some {
    status := fun _ => .unused
    numPorts := maxPort
    freeNtport := (List.range maxPort).foldl Tailq.insertTail Tailq.init }

variable (ctx : NtPortContext)

def removeFree (i : ℕ) : NtPortContext := { ctx with freeNtport := ctx.freeNtport.remove i }

def setStatus (i : ℕ) (st : PortStatus) : NtPortContext :=
  { ctx with status := Function.update ctx.status i st }

/-- The loop of `allocate_port`. An empty queue ends it with a null pointer access. A queue with
broken links can keep it on one entry for ever; the fuel exceeds the number of entries. -/
def allocateLoop : ℕ → NtPortContext → Option (ℕ × NtPortContext)
  | 0, _ => none
  | fuel + 1, ctx =>
    match ctx.freeNtport.first with
    | none => none
    | some i =>
      if ctx.status i ≠ .unused then allocateLoop fuel (ctx.removeFree i)
      else some (i, (ctx.removeFree i).setStatus i .used)

def allocatePort : Option (ℕ × NtPortContext) := allocateLoop (ctx.numPorts + 1) ctx

/-- `none` when the port is out of range or in use. -/
def allocateSpecifiedPort (portid : ℤ) : Option (ℕ × NtPortContext) :=
  if portid < 0 ∨ (ctx.numPorts : ℤ) ≤ portid then none
  else if ctx.status portid.toNat ≠ .unused then none
  else some (portid.toNat, ctx.setStatus portid.toNat .used)

def freePort (portid : ℤ) : NtPortContext :=
  if portid < 0 ∨ (ctx.numPorts : ℤ) ≤ portid then ctx
  else if ctx.status portid.toNat = .unused then ctx
  else
    let ctx := ctx.setStatus portid.toNat .unused
    { ctx with freeNtport := ctx.freeNtport.insertTail portid.toNat }

def unusedFrom : ℕ → Option ℕ → Option ℕ
  | 0, _ => none
  | _ + 1, none => none
  | fuel + 1, some i =>
    if ctx.status i = .unused then some i else unusedFrom fuel (ctx.freeNtport.next i)

def firstFree : Option ℕ := ctx.unusedFrom (ctx.numPorts + 1) ctx.freeNtport.first

variable {ctx} {es : List ℕ} {ctx' : NtPortContext} {i : ℕ}

theorem unusedFrom_congr (ctx ctx' : NtPortContext) (hstatus : ctx'.status = ctx.status)
    (hnext : ctx'.freeNtport.next = ctx.freeNtport.next) (fuel : ℕ) (place : Option ℕ) :
    ctx'.unusedFrom fuel place = ctx.unusedFrom fuel place := by
  induction fuel generalizing place with
  | zero => rfl
  | succ fuel ih =>
    cases place with
    | none => rfl
    | some i => simp only [unusedFrom, hstatus, hnext, ih]

theorem allocateLoop_stuck {d : ℕ} {ctx : NtPortContext} (hfirst : ctx.freeNtport.first = some i)
    (hprev : ctx.freeNtport.prev i = .after d) (hused : ctx.status i ≠ .unused) (fuel : ℕ) :
    allocateLoop fuel ctx = none := by
  induction fuel generalizing ctx with
  | zero => rfl
  | succ fuel ih =>
    obtain ⟨hfirst', hprev'⟩ := Tailq.remove_of_prev_after hprev
    simp only [allocateLoop, hfirst, if_pos hused]
    exact ih (hfirst'.trans hfirst) hprev' hused

/-- Whatever the links are, the allocated port is the first unused one. -/
theorem allocateLoop_unusedFrom {fuel : ℕ} {ctx : NtPortContext}
    (h : allocateLoop fuel ctx = some (i, ctx')) :
    ctx.unusedFrom fuel ctx.freeNtport.first = some i := by
  induction fuel generalizing ctx with
  | zero => cases h
  | succ fuel ih =>
    simp only [allocateLoop] at h
    cases hfirst : ctx.freeNtport.first with
    | none =>
      rw [hfirst] at h
      cases h
    | some j =>
      simp only [hfirst] at h
      by_cases hused : ctx.status j = .unused
      · rw [if_neg (not_not.mpr hused)] at h
        cases h
        rw [unusedFrom, if_pos hused]
      · rw [if_pos hused] at h
        rw [unusedFrom, if_neg hused]
        cases hprev : ctx.freeNtport.prev j with
        | head =>
          obtain ⟨hnext, hlinks⟩ := Tailq.remove_of_prev_head hprev
          have hrest : (ctx.removeFree j).unusedFrom fuel (ctx.freeNtport.next j) = some i :=
            hnext ▸ ih h
          rwa [unusedFrom_congr ctx (ctx.removeFree j) rfl hlinks] at hrest
        | after d =>
          have hstuck := allocateLoop_stuck hfirst hprev hused (fuel + 1)
          simp only [allocateLoop, hfirst, if_pos hused] at hstuck
          rw [hstuck] at h
          cases h

theorem allocatePort_firstFree (h : ctx.allocatePort = some (i, ctx')) : ctx.firstFree = some i :=
  allocateLoop_unusedFrom h

structure HasFree (ctx : NtPortContext) (es : List ℕ) : Prop where
  holds : ctx.freeNtport.Holds es
  lt : ∀ i ∈ es, i < ctx.numPorts
  unused : ∃ i ∈ es, ctx.status i = .unused

theorem allocateLoop_of_holds {fuel : ℕ} {ctx : NtPortContext} (hholds : ctx.freeNtport.Holds es)
    (hfuel : es.length < fuel) (hfree : ∃ i ∈ es, ctx.status i = .unused) :
    ∃ i ctx', allocateLoop fuel ctx = some (i, ctx') := by
  induction es generalizing fuel ctx with
  | nil =>
    obtain ⟨i, hi, -⟩ := hfree
    cases hi
  | cons j js ih =>
    obtain ⟨fuel, rfl⟩ := Nat.exists_eq_succ_of_ne_zero (n := fuel) (by omega)
    have hfirst : ctx.freeNtport.first = some j := hholds.first_eq
    simp only [allocateLoop, hfirst]
    by_cases hused : ctx.status j = .unused
    · rw [if_neg (not_not.mpr hused)]
      exact ⟨j, _, rfl⟩
    · rw [if_pos hused]
      refine ih hholds.remove_head (by simpa using hfuel) ?_
      obtain ⟨i, hi, hunused⟩ := hfree
      rcases List.mem_cons.mp hi with rfl | hmem
      · exact absurd hunused hused
      · exact ⟨i, hmem, hunused⟩

theorem HasFree.allocatePort (h : ctx.HasFree es) :
    ∃ i ctx', ctx.allocatePort = some (i, ctx') := by
  refine allocateLoop_of_holds h.holds ?_ h.unused
  have hle : es.length ≤ (List.range ctx.numPorts).length :=
    (h.holds.nodup.subperm fun i hi => List.mem_range.mpr (h.lt i hi)).length_le
  rw [List.length_range] at hle
  omega

theorem initPortContext_hasFree {n : ℕ} {ctx : NtPortContext}
    (h : initPortContext n = some ctx) : ctx.HasFree (List.range n) := by
  rw [initPortContext] at h
  split at h
  · cases h
  case isFalse hpos =>
    cases h
    refine ⟨Tailq.holds_range n, fun i hi => List.mem_range.mp hi, 0, ?_, rfl⟩
    exact List.mem_range.mpr (Nat.pos_of_ne_zero hpos)

end NtPortContext

end NtSocks
