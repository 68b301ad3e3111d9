import Mathlib.Tactic

/-!
# Computations that may fault

A computation that may fault is an `Except`. A specification names the faults that must not occur
and what holds of the result: with every fault excluded it is total correctness, with some of them
it says that the computation either ends well or stops at a fault that is not excluded.
-/

namespace Faults

universe u v

variable {ε : Type v} {α β : Type u} {bad : ε → Prop} {f : α → Except ε β} {x : Except ε α}
  {post : α → Prop} {a : α}

/-- The computation has none of the faults `bad`, and its result satisfies `post`. -/
def Meets (bad : ε → Prop) (post : α → Prop) : Except ε α → Prop
  | .ok a => post a
  | .error e => ¬ bad e

@[simp] theorem meets_pure :
    Meets bad post (pure a : Except ε α) ↔ post a := Iff.rfl

theorem Meets.mono {post' : α → Prop} (h : Meets bad post x) (himp : ∀ a, post a → post' a) :
    Meets bad post' x := by
  cases x with
  | ok a => exact himp a h
  | error e => exact h

theorem Meets.bind {mid : α → Prop} {post : β → Prop} (h : Meets bad mid x)
    (hf : ∀ a, mid a → Meets bad post (f a)) : Meets bad post (x >>= f) := by
  cases x with
  | ok a => exact hf a h
  | error e => exact h

theorem Meets.map {post : β → Prop} {f : α → β} (h : Meets bad (fun a => post (f a)) x) :
    Meets bad post (x.map f) := by
  cases x with
  | ok a | error e => exact h

def check (c : Prop) [Decidable c] (e : ε) : Except ε PUnit := if c then .ok ⟨⟩ else .error e

theorem check_meets {c : Prop} [Decidable c] {e : ε} (hc : bad e → c) :
    Meets bad (fun _ => c) (check c e : Except ε PUnit) := by
  rw [check]
  split
  · assumption
  · exact fun hbad => absurd (hc hbad) ‹_›

/-- The rule of iteration: what one step keeps, with the list taken one element further, holds
after the whole list. -/
theorem Meets.foldlM {σ : Type u} {f : σ → α → Except ε σ} (I : List α → σ → Prop) (l : List α)
    (hf : ∀ done a rest s, l = done ++ a :: rest → I done s → Meets bad (I (done ++ [a])) (f s a))
    {s : σ} (hs : I [] s) : Meets bad (I l) (l.foldlM f s) := by
  have hgen : ∀ done rest : List α, l = done ++ rest → ∀ s, I done s →
      Meets bad (I l) (rest.foldlM f s) := by
    intro done rest
    induction rest generalizing done with
    | nil =>
      intro hl s hI
      rw [List.append_nil] at hl
      rw [List.foldlM_nil, hl]
      exact hI
    | cons a rest ih =>
      intro hl s hI
      rw [List.foldlM_cons]
      refine Meets.bind (hf done a rest s hl hI) fun s' hI' => ?_
      exact ih (done ++ [a]) (by rw [hl, List.append_assoc]; rfl) s' hI'
  exact hgen [] l rfl s hs

theorem Meets.of_ok (h : Meets bad post x) (hx : x = .ok a) : post a := by
  rw [hx] at h
  exact h

theorem exists_of_meets (h : Meets (fun _ => True) post x) : ∃ a, x = .ok a ∧ post a := by
  cases x with
  | ok a => exact ⟨a, rfl, h⟩
  | error e => exact absurd trivial h

theorem bind_eq_ok {b : β} : x >>= f = .ok b ↔ ∃ a, x = .ok a ∧ f a = .ok b := by
  cases x with
  | ok a =>
    constructor
    · exact fun h => ⟨a, rfl, h⟩
    · rintro ⟨a', ha', h⟩
      cases ha'
      exact h
  | error e =>
    constructor
    · exact fun h => nomatch h
    · rintro ⟨a', ha', -⟩
      cases ha'

theorem map_eq_ok {f : α → β} {b : β} : x.map f = .ok b ↔ ∃ a, x = .ok a ∧ f a = b := by
  cases x with
  | ok a | error e => simp [Except.map]

theorem toOption_eq_some : x.toOption = some a ↔ x = .ok a := by
  cases x with
  | ok b | error e => simp [Except.toOption]

end Faults
