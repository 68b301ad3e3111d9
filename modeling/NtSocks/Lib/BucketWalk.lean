import Mathlib.Tactic

/-!
# Walking through the buckets of a table

An iterator is asked whether there is a next element, moves to it and gives it, until there is none.
A table has `n` buckets, each of which is a list. A cursor stands at an element, given by its bucket
and its place there, or at none before the first one; it goes on to the next element of the bucket
and from the last one to the first element of the next bucket that is not empty. What is still ahead
of a cursor is one list, which every step shortens by its head.
-/

namespace BucketWalk

section Iterators

variable {α σ : Type*} (hasNext : σ → Bool) (next : σ → Option σ) (current : σ → Option α)

/-- What an iterator gives, step by step. There is no result if it fails to give an element that it
has announced, or if `fuel` steps are not enough. -/
def visitAll : ℕ → σ → Option (List α)
  | 0, s => if hasNext s then none else some []
  | fuel + 1, s =>
    if hasNext s then
      (next s).bind fun s => (current s).bind fun x => (visitAll fuel s).map (x :: ·)
    else some []

variable {hasNext next current}

theorem visitAll_eq {Ahead : σ → List α → Prop} (hnil : ∀ s, Ahead s [] → hasNext s = false)
    (hcons : ∀ s x xs, Ahead s (x :: xs) → hasNext s = true ∧
      ∃ s', next s = some s' ∧ current s' = some x ∧ Ahead s' xs)
    {s : σ} {xs : List α} {fuel : ℕ} (h : Ahead s xs) (hfuel : xs.length ≤ fuel) :
    visitAll hasNext next current fuel s = some xs := by
  induction xs generalizing s fuel with
  | nil =>
    have hlast := hnil s h
    cases fuel <;> rw [visitAll, hlast] <;> rfl
  | cons x xs ih =>
    rw [List.length_cons] at hfuel
    obtain ⟨fuel, rfl⟩ : ∃ k, fuel = k + 1 := ⟨fuel - 1, by omega⟩
    obtain ⟨hmore, s', hnext, hcurrent, h'⟩ := hcons s x xs h
    rw [visitAll, if_pos hmore, hnext, Option.bind_some, hcurrent, Option.bind_some,
      ih h' (by omega)]
    rfl

end Iterators

variable {α : Type*} (bucket : ℕ → List α) (n : ℕ)

def scan : ℕ → ℕ → Option ℕ
  | 0, _ => none
  | k + 1, i => if (bucket i).isEmpty then scan k (i + 1) else some i

structure Cursor where
  /-- The bucket and the place of the element. -/
  current : Option (ℕ × ℕ)
  /-- The next bucket to look at. -/
  next : ℕ

namespace Cursor

def start : Cursor := ⟨none, 0⟩

variable (c : Cursor)

def element : Option α := c.current.bind fun p => (bucket p.1)[p.2]?

def chain : List α :=
  match c.current with
  | none => []
  | some (i, k) => (bucket i).drop (k + 1)

def ahead : List α := c.chain bucket ++ (List.range' c.next (n - c.next)).flatMap bucket

def advance : Option Cursor :=
  if (c.chain bucket).isEmpty then
    (scan bucket (n - c.next) c.next).map fun i => ⟨some (i, 0), i + 1⟩
  else c.current.map fun p => ⟨some (p.1, p.2 + 1), c.next⟩

end Cursor

variable {bucket n} {c : Cursor} {k i j : ℕ} {x : α} {xs : List α}

theorem scan_eq_none_iff : scan bucket k i = none ↔ (List.range' i k).flatMap bucket = [] := by
  induction k generalizing i with
  | zero => simp [scan]
  | succ k ih =>
    rw [scan, List.range'_succ, List.flatMap_cons, List.append_eq_nil_iff]
    by_cases hempty : (bucket i).isEmpty = true
    · rw [if_pos hempty, ih]
      exact ⟨fun h => ⟨List.isEmpty_iff.mp hempty, h⟩, And.right⟩
    · rw [if_neg hempty]
      exact ⟨fun h => absurd h (by simp), fun h => absurd (List.isEmpty_iff.mpr h.1) hempty⟩

theorem scan_eq_some (h : scan bucket k i = some j) :
    i ≤ j ∧ j < i + k ∧ bucket j ≠ [] ∧ (List.range' i k).flatMap bucket =
        bucket j ++ (List.range' (j + 1) (i + k - (j + 1))).flatMap bucket := by
  induction k generalizing i with
  | zero => cases h
  | succ k ih =>
    rw [scan] at h
    by_cases hempty : (bucket i).isEmpty = true
    · rw [if_pos hempty] at h
      obtain ⟨hle, hlt, hne, hflat⟩ := ih h
      refine ⟨by omega, by omega, hne, ?_⟩
      rw [List.range'_succ, List.flatMap_cons, List.isEmpty_iff.mp hempty, List.nil_append, hflat]
      rw [show i + 1 + k = i + (k + 1) by omega]
    · rw [if_neg hempty] at h
      cases h
      refine ⟨le_rfl, by omega, fun hnil => hempty (List.isEmpty_iff.mpr hnil), ?_⟩
      rw [List.range'_succ, List.flatMap_cons, show j + (k + 1) - (j + 1) = k by omega]

namespace Cursor

@[simp] theorem ahead_start : start.ahead bucket n = (List.range n).flatMap bucket := by
  simp [ahead, chain, start, List.range_eq_range']

theorem advance_of_ahead (h : c.ahead bucket n = x :: xs) :
    ∃ c', c.advance bucket n = some c' ∧ c'.element bucket = some x ∧ c'.ahead bucket n = xs := by
  rw [ahead] at h
  cases hchain : c.chain bucket with
  | nil =>
    rw [hchain, List.nil_append] at h
    have hscan : scan bucket (n - c.next) c.next ≠ none := by
      rw [ne_eq, scan_eq_none_iff, h]
      exact List.cons_ne_nil x xs
    obtain ⟨i, hi⟩ := Option.ne_none_iff_exists'.mp hscan
    obtain ⟨hle, hlt, hne, hflat⟩ := scan_eq_some hi
    obtain ⟨y, ys, hbucket⟩ := List.exists_cons_of_ne_nil hne
    rw [hflat, hbucket, List.cons_append, List.cons.injEq] at h
    obtain ⟨rfl, hrest⟩ := h
    refine ⟨⟨some (i, 0), i + 1⟩, ?_, ?_, ?_⟩
    · rw [advance, hchain, hi]
      rfl
    · simp [element, hbucket]
    · rw [ahead, chain]
      dsimp only
      rw [hbucket, List.drop_succ_cons, List.drop_zero, ← hrest,
        show c.next + (n - c.next) = n by omega]
  | cons y ys =>
    rw [hchain, List.cons_append, List.cons.injEq] at h
    obtain ⟨rfl, hrest⟩ := h
    cases hcurrent : c.current with
    | none => simp [chain, hcurrent] at hchain
    | some p =>
      have hdrop : (bucket p.1).drop (p.2 + 1) = y :: ys := by
        rw [chain, hcurrent] at hchain
        exact hchain
      refine ⟨⟨some (p.1, p.2 + 1), c.next⟩, ?_, ?_, ?_⟩
      · rw [advance, hchain, hcurrent]
        rfl
      · have hget : (bucket p.1)[p.2 + 1]? = ((bucket p.1).drop (p.2 + 1))[0]? := by
          rw [List.getElem?_drop, Nat.add_zero]
        rw [element, Option.bind_some, hget, hdrop]
        rfl
      · rw [ahead, chain]
        dsimp only
        rw [← List.tail_drop, hdrop, List.tail_cons, hrest]

end Cursor

end BucketWalk
