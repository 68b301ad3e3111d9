import Mathlib.Logic.Function.Basic
import Mathlib.Tactic

/-!
# Intrusive tail queues

The tail queue of `sys/queue.h`. Every entry holds the pointer to the next entry and the address of
the pointer that points at it; the head holds the first entry and the address of the last forward
pointer. The macros write through these addresses, so they keep a list only when the links are those
of a list and the entry is, or is not, in it.
-/

inductive Tailq.Place (α : Type*)
  | head
  | after (e : α)
  deriving DecidableEq

structure Tailq (α : Type*) where
  first : Option α
  last : Tailq.Place α
  next : α → Option α
  prev : α → Tailq.Place α

namespace Tailq

open Function

variable {α : Type*}

def get (q : Tailq α) : Place α → Option α
  | .head => q.first
  | .after e => q.next e

def setLast (q : Tailq α) (p : Place α) : Tailq α := { q with last := p }

/-- `TAILQ_INIT` over entries whose links are null. -/
def init : Tailq α where
  first := none
  last := .head
  next := fun _ => none
  prev := fun _ => .head

@[simp] theorem get_setLast (q : Tailq α) (p p' : Place α) : (q.setLast p').get p = q.get p := by
  cases p <;> rfl

@[simp] theorem setLast_last (q : Tailq α) (p : Place α) : (q.setLast p).last = p := rfl

@[simp] theorem setLast_prev (q : Tailq α) (p : Place α) : (q.setLast p).prev = q.prev := rfl

def LinkedFrom (q : Tailq α) : Place α → List α → Prop
  | p, [] => q.get p = none ∧ q.last = p
  | p, e :: es => q.get p = some e ∧ q.prev e = p ∧ q.LinkedFrom (.after e) es

def Follows (q : Tailq α) : Option α → List α → Prop
  | place, [] => place = none
  | place, e :: es => place = some e ∧ q.Follows (q.next e) es

structure Holds (q : Tailq α) (es : List α) : Prop where
  linked : q.LinkedFrom .head es
  nodup : es.Nodup

variable {q q' : Tailq α} {p : Place α} {e : α} {es : List α} {x : α}

theorem LinkedFrom.congr (hlast : q'.last = q.last) (hp : q'.get p = q.get p)
    (hes : ∀ x ∈ es, q'.get (.after x) = q.get (.after x) ∧ q'.prev x = q.prev x)
    (h : q.LinkedFrom p es) : q'.LinkedFrom p es := by
  induction es generalizing p with
  | nil => exact ⟨hp.trans h.1, hlast.trans h.2⟩
  | cons x xs ih =>
    obtain ⟨hget, hprev, hrest⟩ := h
    obtain ⟨hx, hxs⟩ := List.forall_mem_cons.mp hes
    exact ⟨hp.trans hget, hx.2.trans hprev, ih hx.1 hxs hrest⟩

theorem LinkedFrom.last_mem (h : q.LinkedFrom p (x :: es)) : ∃ y ∈ x :: es, q.last = .after y := by
  induction es generalizing p x with
  | nil => exact ⟨x, List.mem_singleton_self x, h.2.2.2⟩
  | cons z zs ih =>
    obtain ⟨y, hy, hlast⟩ := ih h.2.2
    exact ⟨y, List.mem_cons_of_mem x hy, hlast⟩

theorem Holds.first_eq (h : q.Holds es) : q.first = es.head? := by
  cases es with
  | nil | cons e es => exact h.linked.1

theorem LinkedFrom.follows (h : q.LinkedFrom p es) : q.Follows (q.get p) es := by
  induction es generalizing p with
  | nil => exact h.1
  | cons e es ih => exact ⟨h.1, ih h.2.2⟩

theorem Holds.follows (h : q.Holds es) : q.Follows q.first es := h.linked.follows

theorem Follows.unique {place : Option α} {es' : List α} (h : q.Follows place es)
    (h' : q.Follows place es') : es = es' := by
  induction es generalizing place es' with
  | nil =>
    cases es' with
    | nil => rfl
    | cons e' es' => exact absurd (h.symm.trans h'.1) (by simp)
  | cons e es ih =>
    cases es' with
    | nil => exact absurd (h.1.symm.trans h') (by simp)
    | cons e' es' =>
      obtain rfl : e = e' := Option.some.inj (h.1.symm.trans h'.1)
      rw [ih h.2 h'.2]

def Points (q : Tailq α) (e : α) : Prop := ∃ p, q.get p = some e

theorem Follows.points (h : q.Follows (q.get p) es) (hx : x ∈ es) : q.Points x := by
  induction es generalizing p with
  | nil => cases hx
  | cons e es ih =>
    obtain ⟨hget, hrest⟩ := h
    rcases List.mem_cons.mp hx with rfl | hx
    · exact ⟨p, hget⟩
    · exact ih (p := .after e) hrest hx

theorem init_holds : (init : Tailq α).Holds [] := ⟨⟨rfl, rfl⟩, List.nodup_nil⟩

variable [DecidableEq α]

def set (q : Tailq α) (p : Place α) (v : Option α) : Tailq α :=
  match p with
  | .head => { q with first := v }
  | .after e => { q with next := update q.next e v }

def setPrev (q : Tailq α) (e : α) (p : Place α) : Tailq α :=
  { q with prev := update q.prev e p }

def insertTail (q : Tailq α) (e : α) : Tailq α :=
  (((q.set (.after e) none).setPrev e q.last).set q.last (some e)).setLast (.after e)

def remove (q : Tailq α) (e : α) : Tailq α :=
  let q' := match q.next e with
    | some f => q.setPrev f (q.prev e)
    | none => q.setLast (q.prev e)
  q'.set (q.prev e) (q.next e)

section Fields

variable (q : Tailq α) (p p' : Place α) (v : Option α) (e : α)

@[simp] theorem get_set_self : (q.set p v).get p = v := by
  cases p with
  | head => rfl
  | after e => exact update_self e v q.next

theorem get_set_of_ne {p p' : Place α} (h : p' ≠ p) : (q.set p v).get p' = q.get p' := by
  cases p with
  | head =>
    cases p' with
    | head => exact absurd rfl h
    | after f => rfl
  | after e =>
    cases p' with
    | head => rfl
    | after f => exact update_of_ne (fun hf => h (congrArg Place.after hf)) v q.next

@[simp] theorem set_prev : (q.set p v).prev = q.prev := by cases p <;> rfl

@[simp] theorem set_last : (q.set p v).last = q.last := by cases p <;> rfl

@[simp] theorem get_setPrev : (q.setPrev e p').get p = q.get p := by cases p <;> rfl

@[simp] theorem setPrev_last : (q.setPrev e p).last = q.last := rfl

@[simp] theorem setPrev_prev : (q.setPrev e p).prev = update q.prev e p := rfl

end Fields

theorem remove_of_prev_head (h : q.prev e = .head) :
    (q.remove e).first = q.next e ∧ (q.remove e).next = q.next := by
  simp only [remove, h]
  cases q.next e with
  | none | some f => exact ⟨rfl, rfl⟩

theorem remove_of_prev_after {d : α} (h : q.prev e = .after d) :
    (q.remove e).first = q.first ∧ (q.remove e).prev e = .after d := by
  simp only [remove, h, set_prev]
  cases q.next e with
  | none => exact ⟨rfl, h⟩
  | some f =>
    refine ⟨rfl, ?_⟩
    by_cases hf : e = f
    · subst hf
      exact update_self _ _ _
    · exact (update_of_ne hf _ _).trans h

theorem Holds.remove_head (h : q.Holds (e :: es)) : (q.remove e).Holds es := by
  obtain ⟨⟨hfirst, hprev, hrest⟩, hnodup⟩ := h
  obtain ⟨hnot, hnodup'⟩ := List.nodup_cons.mp hnodup
  refine ⟨?_, hnodup'⟩
  cases es with
  | nil =>
    have hnext : q.next e = none := hrest.1
    simp only [remove, hnext, hprev]
    exact ⟨by simp, by simp⟩
  | cons f fs =>
    obtain ⟨hnext, hprevf, hrest'⟩ := hrest
    have hnext' : q.next e = some f := hnext
    simp only [remove, hnext', hprev]
    refine ⟨by simp, by simp, ?_⟩
    refine hrest'.congr (by simp) (by rw [get_set_of_ne _ _ (by simp)]; simp) ?_
    intro x hx
    have hne : x ≠ f := fun hxf => (List.nodup_cons.mp hnodup').1 (hxf ▸ hx)
    rw [get_set_of_ne _ _ (by simp)]
    simp [update_of_ne hne]

theorem LinkedFrom.insertTail (h : q.LinkedFrom p es) (hp : ∀ x ∈ es, p ≠ .after x)
    (hpe : p ≠ .after e) (hnodup : es.Nodup) (he : e ∉ es) :
    (q.insertTail e).LinkedFrom p (es ++ [e]) := by
  induction es generalizing p with
  | nil =>
    obtain ⟨-, hlast⟩ := h
    simp only [Tailq.insertTail, hlast, List.nil_append]
    refine ⟨by simp, by simp, ?_, by simp⟩
    rw [get_setLast, get_set_of_ne _ _ hpe.symm]
    simp
  | cons x xs ih =>
    obtain ⟨y, hy, hlast⟩ := h.last_mem
    obtain ⟨hget, hprev, hrest⟩ := h
    obtain ⟨hx, hxs⟩ := List.nodup_cons.mp hnodup
    have hex : e ≠ x := fun hex => he (hex ▸ List.mem_cons_self)
    have hplast : p ≠ q.last := hlast ▸ hp y hy
    refine ⟨?_, ?_, ih hrest ?_ ?_ hxs fun hmem => he (List.mem_cons_of_mem x hmem)⟩
    · rw [Tailq.insertTail, get_setLast, get_set_of_ne _ _ hplast, get_setPrev,
        get_set_of_ne _ _ hpe, hget]
    · simp [Tailq.insertTail, update_of_ne hex.symm, hprev]
    · intro z hz hxz
      cases hxz
      exact hx hz
    · intro hxe
      cases hxe
      exact hex rfl

theorem Holds.insertTail (h : q.Holds es) (he : e ∉ es) : (q.insertTail e).Holds (es ++ [e]) := by
  refine ⟨h.linked.insertTail (by simp) (by simp) h.nodup he, ?_⟩
  rw [List.nodup_append]
  refine ⟨h.nodup, List.nodup_singleton e, ?_⟩
  intro x hx y hy hxy
  rw [List.mem_singleton] at hy
  exact he (hy ▸ hxy ▸ hx)

theorem Points.of_remove (h : (q.remove e).Points x) : q.Points x := by
  obtain ⟨p, hp⟩ := h
  have hget : ∀ q' : Tailq α, (∀ p, q'.get p = q.get p) →
      (q'.set (q.prev e) (q.next e)).get p = some x → q.Points x := by
    intro q' hq' hp
    by_cases hprev : p = q.prev e
    · rw [hprev, get_set_self] at hp
      exact ⟨.after e, hp⟩
    · rw [get_set_of_ne _ _ hprev, hq'] at hp
      exact ⟨p, hp⟩
  simp only [remove] at hp
  cases hnext : q.next e with
  | none | some f =>
    rw [hnext] at hp hget
    exact hget _ (by simp) hp

theorem get_insertTail (q : Tailq α) (e : α) (p : Place α) :
    (q.insertTail e).get p =
      if p = q.last then some e else if p = .after e then none else q.get p := by
  rw [insertTail, get_setLast]
  by_cases hlast : p = q.last
  · rw [if_pos hlast, hlast, get_set_self]
  · rw [if_neg hlast, get_set_of_ne _ _ hlast, get_setPrev]
    by_cases he : p = .after e
    · rw [if_pos he, he, get_set_self]
    · rw [if_neg he, get_set_of_ne _ _ he]

theorem Points.of_insertTail (h : (q.insertTail e).Points x) : x = e ∨ q.Points x := by
  obtain ⟨p, hp⟩ := h
  rw [get_insertTail] at hp
  split at hp
  · exact .inl (Option.some.inj hp).symm
  · split at hp
    · cases hp
    · exact .inr ⟨p, hp⟩

theorem holds_range (n : ℕ) : ((List.range n).foldl insertTail init).Holds (List.range n) := by
  induction n with
  | zero => exact init_holds
  | succ n ih =>
    rw [List.range_succ, List.foldl_append]
    exact ih.insertTail (by simp)

theorem not_points_remove_zero (n : ℕ) :
    ¬ (((List.range n).foldl insertTail init).remove 0).Points 0 := by
  have hnext : ∀ n e, ((List.range n).foldl insertTail init).get (.after e) ≠ some 0 := by
    intro n
    induction n with
    | zero => exact fun e => Option.some_ne_none 0 |>.symm
    | succ n ih =>
      intro e
      rw [List.range_succ, List.foldl_append, List.foldl_cons, List.foldl_nil, get_insertTail]
      split
      case isTrue hlast =>
        intro hzero
        obtain rfl : n = 0 := Option.some.inj hzero
        cases hlast
      · split
        · exact Option.some_ne_none 0 |>.symm
        · exact ih e
  have hprev : ((List.range n).foldl insertTail init).prev 0 = .head := by
    cases n with
    | zero => rfl
    | succ n =>
      have hlinked := (holds_range (n + 1)).linked
      rw [List.range_succ_eq_map] at hlinked ⊢
      exact hlinked.2.1
  obtain ⟨hfirst, hkept⟩ := remove_of_prev_head hprev
  rintro ⟨p, hp⟩
  cases p with
  | head => exact hnext n 0 (hfirst.symm.trans hp)
  | after e => exact hnext n e ((congrFun hkept e).symm.trans hp)

end Tailq
