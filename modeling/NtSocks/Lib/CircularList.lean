import Mathlib.Data.List.Chain
import Mathlib.Tactic

/-!
# Links in memory

`next` is the link of each cell of a memory, `none` for a cell that is not allocated. A list of
cells is linked when each one points to the one after it. A circular list is a list of different
cells that is linked with its first cell put behind it. Its links are changed in two ways: a new
cell is inserted before the last one of a linked list, and the cell after a given one is taken out
and freed.
-/

namespace CircularList

open Function

variable {A : Type*} {next : A → Option A} {l r : List A} {a : A}

def Linked (next : A → Option A) (cells : List A) : Prop :=
  cells.IsChain fun a b => next a = some b

theorem Linked.split {b : A} (h : Linked next (l ++ a :: b :: r)) :
    Linked next (l ++ [a]) ∧ next a = some b ∧ Linked next (b :: r) :=
  List.isChain_append_cons_cons.mp h

theorem Linked.congr {next' : A → Option A} (h : Linked next (l ++ [a]))
    (hsame : ∀ b ∈ l, next' b = next b) : Linked next' (l ++ [a]) := by
  induction l with
  | nil => exact List.IsChain.singleton a
  | cons b l ih =>
    cases l with
    | nil =>
      obtain ⟨hlink, -⟩ := List.isChain_cons_cons.mp h
      exact List.isChain_cons_cons.mpr
        ⟨(hsame b List.mem_cons_self).trans hlink, List.IsChain.singleton a⟩
    | cons c l =>
      obtain ⟨hlink, hrest⟩ := List.isChain_cons_cons.mp h
      exact List.isChain_cons_cons.mpr ⟨(hsame b List.mem_cons_self).trans hlink,
        ih hrest fun d hd => hsame d (List.mem_cons_of_mem b hd)⟩

theorem Linked.unique {e : A} (hl : Linked next (a :: l ++ [e])) (hr : Linked next (a :: r ++ [e]))
    (hel : e ∉ l) (her : e ∉ r) : l = r := by
  induction l generalizing a r with
  | nil =>
    cases r with
    | nil => rfl
    | cons c r =>
      obtain ⟨hle, -⟩ := List.isChain_cons_cons.mp hl
      obtain ⟨hlc, -⟩ := List.isChain_cons_cons.mp hr
      obtain rfl : e = c := Option.some.inj (hle.symm.trans hlc)
      exact absurd List.mem_cons_self her
  | cons b l ih =>
    obtain ⟨hlb, hl'⟩ := List.isChain_cons_cons.mp hl
    cases r with
    | nil =>
      obtain ⟨hle, -⟩ := List.isChain_cons_cons.mp hr
      obtain rfl : b = e := Option.some.inj (hlb.symm.trans hle)
      exact absurd List.mem_cons_self hel
    | cons c r =>
      obtain ⟨hlc, hr'⟩ := List.isChain_cons_cons.mp hr
      obtain rfl : b = c := Option.some.inj (hlb.symm.trans hlc)
      rw [ih hl' hr' (List.not_mem_of_not_mem_cons hel) (List.not_mem_of_not_mem_cons her)]

variable [DecidableEq A]

theorem Linked.insert {b n : A} (h : Linked next (l ++ [a, b])) (hnodup : (l ++ [a]).Nodup)
    (hn : n ∉ l ++ [a]) : Linked (update (update next n (some b)) a (some n)) (l ++ [a, n, b]) := by
  have hna : n ≠ a := by
    rintro rfl
    exact hn (List.mem_append_right _ (List.mem_singleton_self n))
  refine List.isChain_append_cons_cons.mpr ⟨?_, ?_, ?_⟩
  · apply h.split.1.congr
    intro c hc
    have hca : c ≠ a := by
      rintro rfl
      exact List.disjoint_of_nodup_append hnodup hc (List.mem_singleton_self c)
    have hcn : c ≠ n := fun heq => hn (heq ▸ List.mem_append_left _ hc)
    rw [update_of_ne hca, update_of_ne hcn]
  · exact update_self a _ _
  · refine List.isChain_cons_cons.mpr ⟨?_, List.IsChain.singleton b⟩
    rw [update_of_ne hna, update_self]

theorem Linked.delete {b e : A} (h : Linked next (l ++ a :: b :: (r ++ [e])))
    (hnodup : (l ++ a :: b :: r).Nodup) :
    Linked (update (update next a (next b)) b none) (l ++ a :: (r ++ [e])) := by
  obtain ⟨hbefore, -, hafter⟩ := h.split
  obtain ⟨-, hright, hdisjoint⟩ := List.nodup_append'.mp hnodup
  obtain ⟨ha, hright⟩ := List.nodup_cons.mp hright
  obtain ⟨hb, -⟩ := List.nodup_cons.mp hright
  have hab : a ≠ b := fun heq => ha (heq ▸ List.mem_cons_self)
  have hother : ∀ c ∈ l ++ r,
      update (update next a (next b)) b none c = next c := by
    intro c hc
    have hca : c ≠ a := by
      rintro rfl
      rcases List.mem_append.mp hc with hl | hr
      · exact hdisjoint hl List.mem_cons_self
      · exact ha (List.mem_cons_of_mem b hr)
    have hcb : c ≠ b := by
      rintro rfl
      rcases List.mem_append.mp hc with hl | hr
      · exact hdisjoint hl (List.mem_cons_of_mem a List.mem_cons_self)
      · exact hb hr
    rw [update_of_ne hcb, update_of_ne hca]
  have hleft := hbefore.congr fun c hc => hother c (List.mem_append_left r hc)
  obtain ⟨f, t, hrest⟩ : ∃ f t, r ++ [e] = f :: t := by
    cases r with
    | nil => exact ⟨e, [], rfl⟩
    | cons f t => exact ⟨f, t ++ [e], rfl⟩
  rw [hrest] at hafter ⊢
  obtain ⟨hlink, htail⟩ := List.isChain_cons_cons.mp hafter
  refine List.isChain_append_cons_cons.mpr ⟨hleft, ?_, ?_⟩
  · rw [update_of_ne hab, update_self]
    exact hlink
  · rw [← hrest] at htail ⊢
    exact Linked.congr htail fun c hc => hother c (List.mem_append_right l hc)

end CircularList
