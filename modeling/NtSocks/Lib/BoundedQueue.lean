import Mathlib.Tactic

/-!
# Queues of bounded length, seen from outside

A queue is asked whether it is full, pushed to and popped from, and answers every operation; a push
of `x` queues the entry made from `x`. An implementation is compared with the list of its entries by
the answers to whole sequences of operations. The answers determine the capacity.
-/

namespace BoundedQueue

variable {ι α S : Type*}

inductive Op (ι : Type*) where
  | isFull
  | push (x : ι)
  | pop

inductive Answer (α : Type*) where
  | full (yes : Bool)
  | pushed (accepted : Bool)
  | popped (x : Option α)
  deriving DecidableEq

def answers (perform : S → Op ι → Answer α × S) : S → List (Op ι) → List (Answer α)
  | _, [] => []
  | s, op :: ops => (perform s op).1 :: answers perform (perform s op).2 ops

def perform (entry : ι → α) (cap : ℕ) (q : List α) : Op ι → Answer α × List α
  | .isFull => (.full (decide (cap ≤ q.length)), q)
  | .push x => if q.length < cap then (.pushed true, q ++ [entry x]) else (.pushed false, q)
  | .pop =>
    match q with
    | [] => (.popped none, [])
    | x :: q => (.popped (some x), q)

theorem answers_eq_of_simulation {T : Type*} {f : S → Op ι → Answer α × S}
    {g : T → Op ι → Answer α × T} {R : S → T → Prop}
    (hstep : ∀ s t op, R s t → (f s op).1 = (g t op).1 ∧ R (f s op).2 (g t op).2) {s : S} {t : T}
    (h : R s t) (ops : List (Op ι)) : answers f s ops = answers g t ops := by
  induction ops generalizing s t with
  | nil => rfl
  | cons op ops ih =>
    obtain ⟨hanswer, hrel⟩ := hstep s t op h
    rw [answers, answers, hanswer, ih hrel]

variable {entry : ι → α} {cap n : ℕ} {q : List α}

theorem refused_mem_answers (hq : q.length ≤ cap) (x : ι) :
    Answer.pushed false ∈
      answers (perform entry cap) q (List.replicate (cap + 1 - q.length) (.push x)) := by
  obtain ⟨n, hn⟩ : ∃ n, n = cap - q.length := ⟨_, rfl⟩
  induction n generalizing q with
  | zero =>
    have hfull : ¬ q.length < cap := by omega
    rw [show cap + 1 - q.length = 1 by omega, List.replicate_one, answers, perform, if_neg hfull]
    exact List.mem_cons_self
  | succ n ih =>
    have hroom : q.length < cap := by omega
    have hlen : (q ++ [entry x]).length = q.length + 1 := by simp
    have hrest := ih (q := q ++ [entry x]) (by omega) (by omega)
    rw [hlen, show cap + 1 - (q.length + 1) = cap - q.length by omega] at hrest
    rw [show cap + 1 - q.length = cap - q.length + 1 by omega, List.replicate_succ, answers,
      perform, if_pos hroom]
    exact List.mem_cons_of_mem _ hrest

theorem refused_not_mem_answers (h : q.length + n ≤ cap) (x : ι) :
    Answer.pushed false ∉ answers (perform entry cap) q (List.replicate n (.push x)) := by
  induction n generalizing q with
  | zero => exact List.not_mem_nil
  | succ n ih =>
    rw [List.replicate_succ, answers, perform, if_pos (by omega)]
    have hlen : (q ++ [entry x]).length = q.length + 1 := by simp
    intro hmem
    rcases List.mem_cons.mp hmem with heq | hmem
    · cases heq
    · exact ih (q := q ++ [entry x]) (by omega) hmem

theorem capacity_le_of_answers_eq {c c' : ℕ} (x : ι)
    (h : ∀ ops, answers (perform entry c) [] ops = answers (perform entry c') [] ops) : c' ≤ c := by
  by_contra hlt
  have hrefused := @refused_mem_answers _ _ entry c [] (Nat.zero_le c) x
  rw [h] at hrefused
  refine refused_not_mem_answers ?_ x hrefused
  simp only [List.length_nil]
  omega

theorem capacity_eq_of_answers_eq {c c' : ℕ} (x : ι)
    (h : ∀ ops, answers (perform entry c) [] ops = answers (perform entry c') [] ops) : c = c' :=
  le_antisymm (capacity_le_of_answers_eq x fun ops => (h ops).symm) (capacity_le_of_answers_eq x h)

end BoundedQueue
