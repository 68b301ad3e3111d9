import Mathlib.Tactic

/-!
# Null-terminated doubly linked lists

Every entry holds pointers to the entries before and behind it, and the list is known by its first
entry. The null pointer stands before the first entry, with the head as what follows it, and behind
the last one, so that the ends need no treatment of their own.
-/

structure LinkedList (α : Type*) where
  head : α
  pre : α → α
  next : α → α

namespace LinkedList

variable {α : Type*} [DecidableEq α] {null : α} {q q' : LinkedList α}

def after (null : α) (q : LinkedList α) (x : α) : α := if x = null then q.head else q.next x

@[simp] theorem after_null (q : LinkedList α) : q.after null null = q.head := if_pos rfl

theorem after_of_ne {x : α} (q : LinkedList α) (h : x ≠ null) : q.after null x = q.next x :=
  if_neg h

def LinkedFrom (null : α) (q : LinkedList α) : α → List α → Prop
  | p, [] => q.after null p = null
  | p, x :: xs => q.after null p = x ∧ q.pre x = p ∧ q.LinkedFrom null x xs

structure Holds (null : α) (q : LinkedList α) (xs : List α) : Prop where
  linked : q.LinkedFrom null null xs
  nodup : (null :: xs).Nodup

variable {p x : α} {xs ys : List α}

theorem LinkedFrom.congr (h : q.LinkedFrom null p xs)
    (hafter : ∀ y ∈ p :: xs, q'.after null y = q.after null y)
    (hpre : ∀ y ∈ xs, q'.pre y = q.pre y) : q'.LinkedFrom null p xs := by
  induction xs generalizing p with
  | nil => exact (hafter p List.mem_cons_self).trans h
  | cons x xs ih =>
    obtain ⟨hx, hp, hrest⟩ := h
    obtain ⟨hpre_x, hpre_xs⟩ := List.forall_mem_cons.mp hpre
    obtain ⟨hafter_p, hafter_xs⟩ := List.forall_mem_cons.mp hafter
    exact ⟨hafter_p.trans hx, hpre_x.trans hp, ih hrest hafter_xs hpre_xs⟩

theorem LinkedFrom.after_mem (h : q.LinkedFrom null p xs) : q.after null p ∈ null :: xs := by
  cases xs with
  | nil => exact List.mem_singleton.mpr h
  | cons x xs => exact List.mem_cons_of_mem null (h.1 ▸ List.mem_cons_self)

theorem LinkedFrom.pre_mem (h : q.LinkedFrom null p (xs ++ x :: ys)) : q.pre x ∈ p :: xs := by
  induction xs generalizing p with
  | nil => exact h.2.1 ▸ List.mem_cons_self
  | cons y xs ih => exact List.mem_cons_of_mem p (ih h.2.2)

theorem LinkedFrom.behind (h : q.LinkedFrom null p (xs ++ x :: ys)) : q.LinkedFrom null x ys := by
  induction xs generalizing p with
  | nil => exact h.2.2
  | cons y xs ih => exact ih h.2.2

theorem LinkedFrom.front {rest : List α} (h : q.LinkedFrom null p (xs ++ x :: ys))
    (hnodup : (p :: xs).Nodup)
    (hafter : ∀ y ∈ p :: xs, y ≠ q.pre x → q'.after null y = q.after null y)
    (hpre : ∀ y ∈ xs, q'.pre y = q.pre y) (hrest : q'.LinkedFrom null (q.pre x) rest) :
    q'.LinkedFrom null p (xs ++ rest) := by
  induction xs generalizing p with
  | nil =>
    rw [← h.2.1]
    exact hrest
  | cons y xs ih =>
    obtain ⟨hy, hp, htail⟩ := h
    obtain ⟨hnot, hnodup'⟩ := List.nodup_cons.mp hnodup
    obtain ⟨hpre_y, hpre_xs⟩ := List.forall_mem_cons.mp hpre
    obtain ⟨hafter_p, hafter_xs⟩ := List.forall_mem_cons.mp hafter
    have hne : p ≠ q.pre x := fun heq => hnot (heq ▸ htail.pre_mem)
    exact ⟨(hafter_p hne).trans hy, hpre_y.trans hp, ih htail hnodup' hafter_xs hpre_xs⟩

theorem LinkedFrom.exchange {r : α} (h : q.LinkedFrom null x ys) (hnodup : ys.Nodup)
    (hr : q'.after null r = q.after null x) (hafter : ∀ y ∈ ys, q'.after null y = q.after null y)
    (hpre : ∀ y ∈ ys, q'.pre y = if y = q.after null x then r else q.pre y) :
    q'.LinkedFrom null r ys := by
  cases ys with
  | nil => exact hr.trans h
  | cons y ys =>
    obtain ⟨hy, -, hrest⟩ := h
    obtain ⟨hpre_y, hpre_ys⟩ := List.forall_mem_cons.mp hpre
    refine ⟨hr.trans hy, hpre_y.trans (if_pos hy.symm), hrest.congr hafter ?_⟩
    intro z hz
    have hne : z ≠ q.after null x := by
      rintro rfl
      exact (List.nodup_cons.mp hnodup).1 (hy ▸ hz)
    exact (hpre_ys z hz).trans (if_neg hne)

theorem Holds.ne_null (h : q.Holds null xs) (hx : x ∈ xs) : x ≠ null :=
  fun heq => (List.nodup_cons.mp h.nodup).1 (heq ▸ hx)

theorem Holds.head_mem (h : q.Holds null xs) : q.head ∈ null :: xs := by
  have hafter := h.linked.after_mem
  rwa [after_null] at hafter

theorem Holds.congr (h : q.Holds null xs) (hhead : q'.head = q.head)
    (hnext : ∀ y ∈ xs, q'.next y = q.next y) (hpre : ∀ y ∈ xs, q'.pre y = q.pre y) :
    q'.Holds null xs := by
  refine ⟨h.linked.congr ?_ hpre, h.nodup⟩
  intro y hy
  unfold after
  split
  · exact hhead
  · rename_i hne
    exact hnext y ((List.mem_cons.mp hy).resolve_left hne)

theorem Holds.neighbours (h : q.Holds null (xs ++ x :: ys)) :
    q.pre x ∈ null :: xs ∧ q.next x ∈ null :: ys := by
  refine ⟨h.linked.pre_mem, ?_⟩
  rw [← q.after_of_ne (h.ne_null List.mem_append_cons_self)]
  exact h.linked.behind.after_mem

theorem Holds.neighbours_mem (h : q.Holds null xs) (hx : x ∈ xs) :
    q.pre x ∈ null :: xs ∧ q.next x ∈ null :: xs ∧ q.pre x ≠ x := by
  obtain ⟨front, back, rfl⟩ := List.append_of_mem hx
  obtain ⟨hpre, hnext⟩ := h.neighbours
  have hnodup := h.nodup
  rw [← List.cons_append, List.nodup_append'] at hnodup
  refine ⟨List.mem_append_left (x :: back) hpre, ?_, ?_⟩
  · rcases List.mem_cons.mp hnext with hnull | hmem
    · exact hnull ▸ List.mem_cons_self
    · exact List.mem_append_right (null :: front) (List.mem_cons_of_mem x hmem)
  · exact fun heq => hnodup.2.2 (heq ▸ hpre) List.mem_cons_self

theorem Holds.insert (h : q.Holds null xs) (hx : x ∉ null :: xs) (hhead : q'.head = x)
    (hprex : q'.pre x = null) (hnextx : q'.next x = q.head) (hnext : ∀ y ∈ xs, q'.next y = q.next y)
    (hpre : ∀ y ∈ xs, q'.pre y = if y = q.head then x else q.pre y) : q'.Holds null (x :: xs) := by
  obtain ⟨hne, hnot⟩ : x ≠ null ∧ x ∉ xs := not_or.mp fun hmem => hx (List.mem_cons.mpr hmem)
  obtain ⟨hnull, hnodup⟩ := List.nodup_cons.mp h.nodup
  have hafter : ∀ y ∈ xs, q'.after null y = q.after null y := by
    intro y hy
    rw [after_of_ne _ (h.ne_null hy), after_of_ne _ (h.ne_null hy), hnext y hy]
  refine ⟨⟨by rw [after_null, hhead], hprex, h.linked.exchange hnodup ?_ hafter ?_⟩, ?_⟩
  · rw [after_of_ne _ hne, after_null, hnextx]
  · rw [after_null]
    exact hpre
  · refine List.nodup_cons.mpr ⟨?_, List.nodup_cons.mpr ⟨hnot, hnodup⟩⟩
    rintro (_ | ⟨_, hmem⟩)
    · exact hne rfl
    · exact hnull hmem

section Inside

variable (h : q.Holds null (xs ++ x :: ys)) {first : α}

include h

theorem Holds.split_nodup : (null :: xs).Nodup ∧ ys.Nodup ∧ ∀ y ∈ ys, y ∉ null :: xs := by
  have hsplit := h.nodup
  rw [← List.cons_append, List.nodup_append'] at hsplit
  obtain ⟨hfront, hback, hapart⟩ := hsplit
  exact ⟨hfront, (List.nodup_cons.mp hback).2,
    fun y hy hmem => hapart hmem (List.mem_cons_of_mem x hy)⟩

theorem Holds.after_redirected (hhead : q'.head = if q.pre x = null then first else q.head)
    (hnext : ∀ y ∈ xs ++ ys, q'.next y = if y = q.pre x then first else q.next y) :
    q'.after null (q.pre x) = first ∧
      (∀ y ∈ null :: xs, y ≠ q.pre x → q'.after null y = q.after null y) ∧
      ∀ y ∈ ys, q'.after null y = q.after null y := by
  have hpre := h.neighbours.1
  refine ⟨?_, ?_, ?_⟩
  · unfold after
    split
    · rename_i heq
      rw [hhead, if_pos heq]
    · rename_i hne
      rw [hnext _ (List.mem_append_left ys ((List.mem_cons.mp hpre).resolve_left hne)), if_pos rfl]
  · intro y hy hne
    unfold after
    split
    · rename_i heq
      rw [hhead, if_neg fun hp => hne (heq.trans hp.symm)]
    · rename_i hnull
      rw [hnext y (List.mem_append_left ys ((List.mem_cons.mp hy).resolve_left hnull)), if_neg hne]
  · intro y hy
    have hnot := h.split_nodup.2.2 y hy
    have hne : y ≠ q.pre x := fun heq => hnot (heq ▸ hpre)
    have hnull : y ≠ null := fun heq => hnot (heq ▸ List.mem_cons_self)
    rw [after_of_ne _ hnull, after_of_ne _ hnull, hnext y (List.mem_append_right xs hy), if_neg hne]

/-- Putting the entries of `mid` in the place of `x`: the entry behind `x` gets the back pointer
`last`, and the entries from `mid` on are linked behind the one before `x`. -/
theorem Holds.splice (mid : List α) {last : α}
    (hhead : q'.head = if q.pre x = null then first else q.head)
    (hnext : ∀ y ∈ xs ++ ys, q'.next y = if y = q.pre x then first else q.next y)
    (hpre : ∀ y ∈ xs ++ ys, q'.pre y = if y = q.next x then last else q.pre y)
    (hmid : q'.after null (q.pre x) = first → q'.LinkedFrom null last ys →
      q'.LinkedFrom null (q.pre x) (mid ++ ys))
    (hlast : q'.after null (q.pre x) = first → q'.after null last = q.next x)
    (hnodup : (null :: (xs ++ (mid ++ ys))).Nodup) : q'.Holds null (xs ++ (mid ++ ys)) := by
  obtain ⟨hfront, hback, hnot⟩ := h.split_nodup
  obtain ⟨hfirst, hafter_xs, hafter_ys⟩ := h.after_redirected hhead hnext
  have hx : q.after null x = q.next x := after_of_ne q (h.ne_null List.mem_append_cons_self)
  have hys : q'.LinkedFrom null last ys := by
    refine h.linked.behind.exchange hback ((hlast hfirst).trans hx.symm) hafter_ys ?_
    intro y hy
    rw [hx]
    exact hpre y (List.mem_append_right xs hy)
  refine ⟨h.linked.front hfront hafter_xs ?_ (hmid hfirst hys), hnodup⟩
  intro y hy
  have hne : y ≠ q.next x := by
    rintro rfl
    rcases List.mem_cons.mp h.neighbours.2 with hnull | hmem
    · exact (List.nodup_cons.mp hfront).1 (hnull ▸ hy)
    · exact hnot _ hmem (List.mem_cons_of_mem null hy)
  rw [hpre y (List.mem_append_left ys hy), if_neg hne]

theorem Holds.delete (hhead : q'.head = if q.pre x = null then q.next x else q.head)
    (hnext : ∀ y ∈ xs ++ ys, q'.next y = if y = q.pre x then q.next x else q.next y)
    (hpre : ∀ y ∈ xs ++ ys, q'.pre y = if y = q.next x then q.pre x else q.pre y) :
    q'.Holds null (xs ++ ys) := by
  refine h.splice [] hhead hnext hpre (fun _ hys => hys) id ?_
  exact h.nodup.sublist (((List.sublist_cons_self x ys).append_left xs).cons_cons null)

theorem Holds.replace {z : α} (hz : z ∉ null :: (xs ++ ys)) (hprez : q'.pre z = q.pre x)
    (hnextz : q'.next z = q.next x) (hhead : q'.head = if q.pre x = null then z else q.head)
    (hnext : ∀ y ∈ xs ++ ys, q'.next y = if y = q.pre x then z else q.next y)
    (hpre : ∀ y ∈ xs ++ ys, q'.pre y = if y = q.next x then z else q.pre y) :
    q'.Holds null (xs ++ z :: ys) := by
  have hnull : z ≠ null := fun heq => hz (heq ▸ List.mem_cons_self)
  refine h.splice [z] hhead hnext hpre (fun hfirst hys => ⟨hfirst, hprez, hys⟩) ?_ ?_
  · rw [after_of_ne _ hnull]
    exact fun _ => hnextz
  · have hperm : (null :: (xs ++ z :: ys)).Perm (z :: null :: (xs ++ ys)) :=
      (List.perm_middle.cons null).trans (List.Perm.swap z null (xs ++ ys))
    refine hperm.nodup_iff.mpr (List.nodup_cons.mpr ⟨hz, ?_⟩)
    exact h.nodup.sublist (((List.sublist_cons_self x ys).append_left xs).cons_cons null)

end Inside

end LinkedList
