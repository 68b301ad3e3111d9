import Mathlib.Tactic

/-!
# Runs of a partial step function

A system is a step function `S → A → Option S`; an action that is not enabled has no result.
A run performs a list of actions, and an invariant of the initial state that every enabled
action keeps holds after the run.
-/

namespace Runs

variable {S A : Type*} {step : S → A → Option S} {I : S → Prop} {P : S → A → Prop} {as : List A}
  {s t : S} {a : A}

def run (step : S → A → Option S) : S → List A → Option S
  | s, [] => some s
  | s, a :: as => (step s a).bind fun s' => run step s' as

@[simp] theorem run_nil (s : S) : run step s [] = some s := rfl

theorem run_cons (s : S) (a : A) (as : List A) :
    run step s (a :: as) = (step s a).bind fun s' => run step s' as := rfl

theorem run_append (s : S) (as bs : List A) :
    run step s (as ++ bs) = (run step s as).bind fun s' => run step s' bs := by
  induction as generalizing s with
  | nil => simp
  | cons a as ih =>
    simp only [List.cons_append, run_cons]
    cases step s a with
    | none => rfl
    | some s' => simpa using ih s'

theorem run_cons_eq_some :
    run step s (a :: as) = some t ↔ ∃ s', step s a = some s' ∧ run step s' as = some t := by
  rw [run_cons, Option.bind_eq_some_iff]

/-- `Along P s as` says that `P` holds of every state of the run and the action taken there. -/
def Along (step : S → A → Option S) (P : S → A → Prop) : S → List A → Prop
  | _, [] => True
  | s, a :: as => P s a ∧ ∀ s', step s a = some s' → Along step P s' as

theorem along_cons_iff {s' : S} (h : step s a = some s') :
    Along step P s (a :: as) ↔ P s a ∧ Along step P s' as := by
  simp [Along, h]

instance Along.decidable {P : S → A → Prop} [∀ s a, Decidable (P s a)] :
    ∀ (s : S) (as : List A), Decidable (Along step P s as)
  | _, [] => isTrue trivial
  | s, a :: as =>
    match h : step s a with
    | none => decidable_of_iff (P s a) (by simp [Along, h])
    | some s' =>
      have : Decidable (Along step P s' as) := Along.decidable s' as
      decidable_of_iff (P s a ∧ Along step P s' as) (along_cons_iff h).symm

/-- The invariant rule: what the initial state satisfies and every enabled step meeting `P`
preserves holds at the end of a run all of whose steps meet `P`. -/
theorem invariant_of_along (hstep : ∀ s a s', I s → P s a → step s a = some s' → I s') (hs : I s)
    (hP : Along step P s as) (hrun : run step s as = some t) : I t := by
  induction as generalizing s with
  | nil =>
    rw [run_nil, Option.some.injEq] at hrun
    exact hrun ▸ hs
  | cons a as ih =>
    obtain ⟨s', hstep', hrun'⟩ := run_cons_eq_some.mp hrun
    exact ih (hstep s a s' hs hP.1 hstep') (hP.2 s' hstep') hrun'

theorem Along.at_step (as bs : List A) (h : Along step P s (as ++ a :: bs))
    (hrun : run step s as = some t) : P t a := by
  induction as generalizing s with
  | nil =>
    rw [run_nil, Option.some.injEq] at hrun
    exact hrun ▸ h.1
  | cons b as ih =>
    obtain ⟨s', hs', hrun'⟩ := run_cons_eq_some.mp hrun
    exact ih (h.2 s' hs') hrun'

theorem Along.left {bs : List A} (h : Along step P s (as ++ bs)) : Along step P s as := by
  induction as generalizing s with
  | nil => trivial
  | cons a as ih => exact ⟨h.1, fun s' hs' => ih (h.2 s' hs')⟩

/-- Two step conditions hold along the same runs when they agree on the states of an invariant
that steps meeting the second one keep. -/
theorem along_congr {Q : S → A → Prop} {C : A → Prop} (hiff : ∀ s a, I s → C a → (P s a ↔ Q s a))
    (hstep : ∀ s a s', I s → C a → Q s a → step s a = some s' → I s') (hs : I s)
    (hC : ∀ a ∈ as, C a) : Along step P s as ↔ Along step Q s as := by
  induction as generalizing s with
  | nil => exact Iff.rfl
  | cons a as ih =>
    have ha : C a := hC a List.mem_cons_self
    have hC' : ∀ b ∈ as, C b := fun b hb => hC b (List.mem_cons_of_mem a hb)
    simp only [Along, hiff s a hs ha]
    refine and_congr_right fun hQ => forall_congr' fun s' => forall_congr' fun hs' => ?_
    exact ih (hstep s a s' hs ha hQ hs') hC'

theorem along_of_forall_mem {P : A → Prop} (h : ∀ a ∈ as, P a) (s : S) :
    Along step (fun _ a => P a) s as := by
  induction as generalizing s with
  | nil => trivial
  | cons a as ih =>
    exact ⟨h a List.mem_cons_self, fun s' _ => ih (fun b hb => h b (List.mem_cons_of_mem a hb)) s'⟩

theorem invariant_of_forall_mem {P : A → Prop}
    (hstep : ∀ s a s', I s → P a → step s a = some s' → I s') (hs : I s) (hP : ∀ a ∈ as, P a)
    (hrun : run step s as = some t) : I t :=
  invariant_of_along hstep hs (along_of_forall_mem hP s) hrun

/-- Where an invariant enables every action that meets `P` and is kept by it, a run of such actions
always completes. -/
theorem exists_run_of_along (hstep : ∀ s a, I s → P s a → ∃ s', step s a = some s' ∧ I s')
    (hs : I s) (hP : Along step P s as) : ∃ t, run step s as = some t ∧ I t := by
  induction as generalizing s with
  | nil => exact ⟨s, rfl, hs⟩
  | cons a as ih =>
    obtain ⟨s', hs', hI⟩ := hstep s a hs hP.1
    obtain ⟨t, ht, hIt⟩ := ih hI (hP.2 s' hs')
    exact ⟨t, run_cons_eq_some.mpr ⟨s', hs', ht⟩, hIt⟩

theorem exists_run {P : A → Prop} (hstep : ∀ s a, I s → P a → ∃ s', step s a = some s' ∧ I s')
    (hs : I s) (hP : ∀ a ∈ as, P a) : ∃ t, run step s as = some t ∧ I t :=
  exists_run_of_along hstep hs (along_of_forall_mem hP s)

theorem invariant (hstep : ∀ s a s', I s → step s a = some s' → I s') (hs : I s)
    (hrun : run step s as = some t) : I t :=
  invariant_of_forall_mem (P := fun _ => True) (fun s a s' hI _ => hstep s a s' hI) hs
    (fun _ _ => trivial) hrun

end Runs
