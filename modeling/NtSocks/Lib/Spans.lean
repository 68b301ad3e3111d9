import Mathlib

/-!
# Address intervals laid out one after the other

A span is a half-open interval of addresses. A list of spans is stacked when each one begins at
or behind the end of the one before it; the spans of such a list are pairwise disjoint.
-/

@[ext] structure Span where
  start : ℕ
  stop : ℕ
  start_le : start ≤ stop

namespace Span

def addresses (s : Span) : Set ℕ := Set.Ico s.start s.stop

def shift (base : ℕ) (s : Span) : Span where
  start := base + s.start
  stop := base + s.stop
  start_le := Nat.add_le_add_left s.start_le base

theorem disjoint_of_stop_le {s t : Span} (h : s.stop ≤ t.start) :
    Disjoint s.addresses t.addresses := by
  rw [Set.disjoint_left]
  intro x hs ht
  exact absurd (Nat.lt_of_lt_of_le hs.2 h) (Nat.not_lt.mpr ht.1)

def Stacked : ℕ → List Span → Prop
  | _, [] => True
  | a, s :: rest => a ≤ s.start ∧ Stacked s.stop rest

theorem Stacked.le_start {a : ℕ} {spans : List Span} (h : Stacked a spans) {s : Span}
    (hs : s ∈ spans) : a ≤ s.start := by
  induction spans generalizing a with
  | nil => cases hs
  | cons t rest ih =>
    rcases List.mem_cons.mp hs with rfl | hrest
    · exact h.1
    · exact h.1.trans (t.start_le.trans (ih h.2 hrest))

theorem Stacked.pairwise_disjoint {a : ℕ} {spans : List Span} (h : Stacked a spans) :
    spans.Pairwise fun s t => Disjoint s.addresses t.addresses := by
  induction spans generalizing a with
  | nil => exact List.Pairwise.nil
  | cons s rest ih =>
    exact List.Pairwise.cons (fun t ht => disjoint_of_stop_le (h.2.le_start ht)) (ih h.2)

end Span
