import NtSocks.Lib.Runs
import NtSocks.NtPort

/-!
# Histories of the port allocator

`allocate_specified_port` marks a port used and leaves it in the queue of free ports. Freeing such a
port inserts an entry that is still linked. As long as this does not happen, the queue holds every
unused port once, and `allocate_port` gives one out unless there is none.
-/

namespace NtSocks

open Function

inductive PortOp
  | allocate
  | allocateSpecified (portid : ℤ)
  | free (portid : ℤ)
  deriving DecidableEq, Repr

theorem PortStatus.used_of_ne {st : PortStatus} (h : st ≠ .unused) : st = .used := by
  cases st with
  | unused => exact absurd rfl h
  | used => rfl

namespace NtPortContext

/-- A call with the port that it returns, where `none` is the null pointer. A call without a result
does not return. -/
def call (ctx : NtPortContext) : PortOp → Option (Option ℕ × NtPortContext)
  | .allocate => ctx.allocatePort.map fun (i, ctx') => (some i, ctx')
  | .allocateSpecified portid =>
    match ctx.allocateSpecifiedPort portid with
    | some (i, ctx') => some (some i, ctx')
    | none => some (none, ctx)
  | .free portid => some (none, ctx.freePort portid)

def step (ctx : NtPortContext) (op : PortOp) : Option NtPortContext := (ctx.call op).map Prod.snd

def HasUnused (ctx : NtPortContext) : Prop := ∃ i < ctx.numPorts, ctx.status i = .unused

/-- The free queue, followed from its head, contains every unused port exactly once. -/
def ListsUnused (ctx : NtPortContext) : Prop :=
  ∃ es, ctx.freeNtport.Follows ctx.freeNtport.first es ∧
    ∀ i < ctx.numPorts, ctx.status i = .unused → es.count i = 1

/-- A port that is handed out was unused and is used from then on, no call changes another port,
and `allocate_port` returns a port if there is an unused one and the null pointer otherwise. -/
structure Correct (ctx : NtPortContext) (op : PortOp) : Prop where
  handedOut : ∀ i ctx', ctx.call op = some (some i, ctx') → i < ctx.numPorts ∧
    ctx.status i = .unused ∧ ctx'.status = update ctx.status i .used
  succeeds : op = .allocate → ctx.HasUnused → ∃ i ctx', ctx.call op = some (some i, ctx')
  fails : op = .allocate → ¬ ctx.HasUnused → ∃ ctx', ctx.call op = some (none, ctx')

/-- `allocate_port` finds an unused port, and no port is freed that is still linked. -/
def Unlinked (ctx : NtPortContext) : PortOp → Prop
  | .allocate => ctx.HasUnused
  | .allocateSpecified _ => True
  | .free portid => ∀ i < ctx.numPorts, portid = i → ctx.status i = .used →
      ∀ es, ctx.freeNtport.Follows ctx.freeNtport.first es → i ∉ es

structure FreeQueue (ctx : NtPortContext) (es : List ℕ) : Prop where
  holds : ctx.freeNtport.Holds es
  lt : ∀ i ∈ es, i < ctx.numPorts
  complete : ∀ i < ctx.numPorts, ctx.status i = .unused → i ∈ es

variable {ctx ctx' : NtPortContext} {es : List ℕ} {i n : ℕ} {op : PortOp} {portid : ℤ}

theorem FreeQueue.listsUnused (h : ctx.FreeQueue es) : ctx.ListsUnused :=
  ⟨es, h.holds.follows, fun i hi hunused =>
    List.count_eq_one_of_mem h.holds.nodup (h.complete i hi hunused)⟩

theorem FreeQueue.hasFree (h : ctx.FreeQueue es) (hunused : ctx.HasUnused) : ctx.HasFree es := by
  obtain ⟨i, hi, hst⟩ := hunused
  exact ⟨h.holds, h.lt, i, h.complete i hi hst, hst⟩

theorem initPortContext_freeQueue (h : initPortContext n = some ctx) :
    ctx.FreeQueue (List.range n) := by
  have hfree := initPortContext_hasFree h
  refine ⟨hfree.holds, hfree.lt, ?_⟩
  intro i hi _
  rw [initPortContext] at h
  split at h
  · cases h
  · cases h
    exact List.mem_range.mpr hi

theorem FreeQueue.removeFree (h : ctx.FreeQueue (i :: es)) (hused : ctx.status i ≠ .unused) :
    (ctx.removeFree i).FreeQueue es where
  holds := h.holds.remove_head
  lt := fun j hj => h.lt j (List.mem_cons_of_mem i hj)
  complete := by
    intro j hj hunused
    rcases List.mem_cons.mp (h.complete j hj hunused) with rfl | hmem
    · exact absurd hunused hused
    · exact hmem

theorem FreeQueue.take (h : ctx.FreeQueue (i :: es)) :
    ((ctx.removeFree i).setStatus i .used).FreeQueue es where
  holds := h.holds.remove_head
  lt := fun j hj => h.lt j (List.mem_cons_of_mem i hj)
  complete := by
    intro j hj hunused
    have hne : j ≠ i := by
      rintro rfl
      have hst : update ctx.status j .used j = .unused := hunused
      rw [update_self] at hst
      cases hst
    have hst : ctx.status j = .unused := (update_of_ne hne _ _).symm.trans hunused
    exact (List.mem_cons.mp (h.complete j hj hst)).resolve_left hne

theorem FreeQueue.setUsed (h : ctx.FreeQueue es) (i : ℕ) :
    (ctx.setStatus i .used).FreeQueue es where
  holds := h.holds
  lt := h.lt
  complete := (forall_update_iff ctx.status fun j status => j < ctx.numPorts →
    status = .unused → j ∈ es).mpr ⟨fun _ => nofun, fun j _ => h.complete j⟩

theorem FreeQueue.allocateLoop {fuel : ℕ} (h : ctx.FreeQueue es)
    (hloop : NtPortContext.allocateLoop fuel ctx = some (i, ctx')) :
    i < ctx.numPorts ∧ ctx.status i = .unused ∧
      ctx'.status = update ctx.status i .used ∧ ctx'.numPorts = ctx.numPorts ∧
      ∃ es', ctx'.FreeQueue es' ∧ i ∉ es' := by
  induction fuel generalizing ctx es with
  | zero => cases hloop
  | succ fuel ih =>
    cases es with
    | nil =>
      have hfirst : ctx.freeNtport.first = none := h.holds.first_eq
      simp only [NtPortContext.allocateLoop, hfirst] at hloop
      cases hloop
    | cons j js =>
      have hfirst : ctx.freeNtport.first = some j := h.holds.first_eq
      simp only [NtPortContext.allocateLoop, hfirst] at hloop
      by_cases hunused : ctx.status j = .unused
      · rw [if_neg (not_not.mpr hunused)] at hloop
        cases hloop
        exact ⟨h.lt _ List.mem_cons_self, hunused, rfl, rfl, js, h.take,
          (List.nodup_cons.mp h.holds.nodup).1⟩
      · rw [if_pos hunused] at hloop
        have hrest := ih (h.removeFree hunused) hloop
        exact hrest

theorem FreeQueue.allocatePort (h : ctx.FreeQueue es) (halloc : ctx.allocatePort = some (i, ctx')) :
    i < ctx.numPorts ∧ ctx.status i = .unused ∧
      ctx'.status = update ctx.status i .used ∧ ctx'.numPorts = ctx.numPorts ∧
      ∃ es', ctx'.FreeQueue es' ∧ i ∉ es' := h.allocateLoop halloc

theorem allocateSpecifiedPort_some (h : ctx.allocateSpecifiedPort portid = some (i, ctx')) :
    i < ctx.numPorts ∧ ctx.status i = .unused ∧ ctx' = ctx.setStatus i .used := by
  rw [allocateSpecifiedPort] at h
  split at h
  · cases h
  case isFalse hrange =>
    split at h
    · cases h
    case isFalse hunused =>
      cases h
      exact ⟨by omega, not_not.mp hunused, rfl⟩

theorem FreeQueue.freePort (h : ctx.FreeQueue es) (hquiet : ctx.Unlinked (.free portid)) :
    ∃ es', (ctx.freePort portid).FreeQueue es' := by
  rw [NtPortContext.freePort]
  split
  · exact ⟨es, h⟩
  case isFalse hrange =>
    split
    · exact ⟨es, h⟩
    case isFalse hused =>
      obtain ⟨i, rfl⟩ := Int.eq_ofNat_of_zero_le (a := portid) (by omega)
      have hi : i < ctx.numPorts := by omega
      have hnot : i ∉ es := hquiet i hi rfl (PortStatus.used_of_ne hused) es h.holds.follows
      refine ⟨es ++ [i], h.holds.insertTail hnot, ?_, ?_⟩
      · exact List.forall_mem_append.mpr ⟨h.lt, List.forall_mem_singleton.mpr hi⟩
      · intro j hj hunused
        by_cases hne : j = i
        · exact List.mem_append_right es (List.mem_singleton.mpr hne)
        · refine List.mem_append_left [i] (h.complete j hj ?_)
          exact (update_of_ne hne _ _).symm.trans hunused

theorem FreeQueue.step (h : ctx.FreeQueue es) (hquiet : ctx.Unlinked op)
    (hstep : ctx.step op = some ctx') : ∃ es', ctx'.FreeQueue es' := by
  cases op with
  | allocate =>
    simp only [NtPortContext.step, call, Option.map_map, Option.map_eq_some_iff] at hstep
    obtain ⟨⟨i, ctx₁⟩, halloc, rfl⟩ := hstep
    obtain ⟨-, -, -, -, es', hes', -⟩ := h.allocatePort halloc
    exact ⟨es', hes'⟩
  | allocateSpecified portid =>
    simp only [NtPortContext.step, call] at hstep
    cases hspec : ctx.allocateSpecifiedPort portid with
    | none =>
      rw [hspec] at hstep
      cases hstep
      exact ⟨es, h⟩
    | some result =>
      obtain ⟨i, ctx₁⟩ := result
      rw [hspec] at hstep
      cases hstep
      rw [(allocateSpecifiedPort_some hspec).2.2]
      exact ⟨es, h.setUsed i⟩
  | free portid =>
    cases hstep
    exact h.freePort hquiet

theorem FreeQueue.correct (h : ctx.FreeQueue es) (hquiet : ctx.Unlinked op) : ctx.Correct op := by
  refine ⟨?_, ?_, ?_⟩
  · intro i ctx' hcall
    cases op with
    | allocate =>
      simp only [call, Option.map_eq_some_iff] at hcall
      obtain ⟨⟨j, ctx₁⟩, halloc, heq⟩ := hcall
      cases heq
      obtain ⟨hlt, hunused, hstatus, -⟩ := h.allocatePort halloc
      exact ⟨hlt, hunused, hstatus⟩
    | allocateSpecified portid =>
      simp only [call] at hcall
      cases hspec : ctx.allocateSpecifiedPort portid with
      | none =>
        rw [hspec] at hcall
        cases hcall
      | some result =>
        obtain ⟨j, ctx₁⟩ := result
        rw [hspec] at hcall
        cases hcall
        obtain ⟨hlt, hunused, hctx⟩ := allocateSpecifiedPort_some hspec
        exact ⟨hlt, hunused, by rw [hctx]; rfl⟩
    | free portid => cases hcall
  · rintro rfl hunused
    obtain ⟨i, ctx', halloc⟩ := (h.hasFree hunused).allocatePort
    exact ⟨i, ctx', by rw [call, halloc]; rfl⟩
  · rintro rfl hnone
    exact absurd hquiet hnone

/-- In every history in which `allocate_port` is called only while a port is unused and no port is
freed while it is linked, the free queue lists every unused port once and every call is correct. -/
theorem port_allocator_sound {n : ℕ} {ctx₀ ctx : NtPortContext}
    (hinit : initPortContext n = some ctx₀) (ops rest : List PortOp)
    (hquiet : Runs.Along step Unlinked ctx₀ (ops ++ rest))
    (hrun : Runs.run step ctx₀ ops = some ctx) :
    ctx.ListsUnused ∧ ∀ op ∈ rest.head?, ctx.Correct op := by
  have hqueue : ∃ es, ctx.FreeQueue es := by
    refine Runs.invariant_of_along (I := fun ctx => ∃ es, ctx.FreeQueue es) ?_
      ⟨_, initPortContext_freeQueue hinit⟩ hquiet.left hrun
    rintro ctx op ctx' ⟨es, h⟩ hop hstep
    exact h.step hop hstep
  obtain ⟨es, h⟩ := hqueue
  refine ⟨h.listsUnused, ?_⟩
  intro op hop
  obtain ⟨rest', rfl⟩ : ∃ rest', rest = op :: rest' := by
    cases rest with
    | nil => cases hop
    | cons op' rest' =>
        cases hop
        exact ⟨rest', rfl⟩
  exact h.correct (hquiet.at_step ops rest' hrun)

section Sample

def twoPorts : NtPortContext where
  status := fun _ => .unused
  numPorts := 2
  freeNtport := (List.range 2).foldl Tailq.insertTail Tailq.init

theorem port_allocator_sound_skipped_port :
    ∃ ctx, Runs.run step twoPorts [.allocateSpecified 0, .allocate, .free 0] = some ctx ∧
      ctx.ListsUnused ∧ ctx.Correct .allocate := by
  have hquiet : Runs.Along step Unlinked twoPorts
      [.allocateSpecified 0, .allocate, .free 0, .allocate] := by
    refine ⟨trivial, fun ctx₁ h₁ => ?_⟩
    cases h₁
    refine ⟨⟨1, by decide, rfl⟩, fun ctx₂ h₂ => ?_⟩
    cases h₂
    refine ⟨?_, fun ctx₃ h₃ => ?_⟩
    · intro i hi heq hused es hes hmem
      cases es with
      | nil => cases hmem
      | cons j js => cases hes.1
    · cases h₃
      exact ⟨⟨0, by decide, rfl⟩, fun _ _ => trivial⟩
  obtain ⟨hlists, hcorrect⟩ := port_allocator_sound (n := 2) rfl
    [.allocateSpecified 0, .allocate, .free 0] [.allocate] hquiet rfl
  exact ⟨_, rfl, hlists, hcorrect _ rfl⟩

/-- Freeing a bound port that is still linked cuts the other port off; and with both ports given
out, a third `allocate_port` does not return. -/
theorem freeing_bound_port_loses_port :
    (∃ ctx, Runs.run step twoPorts [.allocateSpecified 0, .free 0] = some ctx ∧
      ctx.freeNtport.Follows ctx.freeNtport.first [0] ∧ ctx.status 1 = .unused ∧
      ¬ ctx.ListsUnused) ∧
    Runs.run step twoPorts [.allocate, .allocate, .allocate] = none := by
  refine ⟨⟨_, rfl, ⟨rfl, rfl⟩, rfl, ?_⟩, rfl⟩
  rintro ⟨es, hes, hcount⟩
  have hone : es.count 1 = 1 := hcount 1 (by decide) rfl
  have hlist : es = [0] := hes.unique ⟨rfl, rfl⟩
  rw [hlist] at hone
  exact absurd hone (by decide)

end Sample

end NtPortContext

end NtSocks
