import Mathlib.Data.List.DropRight
import Mathlib.Data.List.Infix

/-!
# Texts in C buffers

The string in a buffer, reading a file line by line into a buffer of bounded size, and occurrences
of a mark in a text.
-/

namespace NtSocks.CText

def nul : Char := '\x00'

def cstring (s : List Char) : List Char := s.takeWhile (· ≠ nul)

section Strings

variable {s t : List Char}

theorem cstring_append_of_notMem (h : nul ∉ s) (t : List Char) :
    cstring (s ++ t) = s ++ cstring t := by
  refine List.takeWhile_append_of_pos ?_
  intro c hc
  rw [decide_eq_true_iff]
  rintro rfl
  exact h hc

theorem cstring_of_notMem (h : nul ∉ s) : cstring s = s := by
  have happend := cstring_append_of_notMem h []
  rwa [List.append_nil, show cstring [] = [] from rfl, List.append_nil] at happend

theorem cstring_append_nul (h : nul ∉ s) : cstring (s ++ [nul]) = s := by
  rw [cstring_append_of_notMem h]
  exact List.append_nil s

end Strings

/-- What one call reads of a file into a buffer with room for `n` characters: the rest of the line
with its newline, if there is room. -/
def fgets : ℕ → List Char → List Char × List Char
  | 0, file => ([], file)
  | _ + 1, [] => ([], [])
  | n + 1, c :: file =>
    if c = '\n' then ([c], file) else ((c :: (fgets n file).1), (fgets n file).2)

section Lines

variable {n : ℕ} {s rest : List Char}

theorem fgets_newline (h : '\n' ∉ s) (hn : s.length < n) (rest : List Char) :
    fgets n (s ++ '\n' :: rest) = (s ++ ['\n'], rest) := by
  induction s generalizing n with
  | nil =>
    cases n with
    | zero => cases hn
    | succ n => exact if_pos rfl
  | cons c s ih =>
    obtain ⟨hc, hs⟩ := List.ne_and_not_mem_of_not_mem_cons h
    cases n with
    | zero => cases hn
    | succ n =>
      rw [List.cons_append, fgets, if_neg hc.symm, ih hs (Nat.lt_of_succ_lt_succ hn)]
      rfl

theorem fgets_end (h : '\n' ∉ s) (hn : s.length ≤ n) : fgets n s = (s, []) := by
  induction s generalizing n with
  | nil => cases n <;> rfl
  | cons c s ih =>
    obtain ⟨hc, hs⟩ := List.ne_and_not_mem_of_not_mem_cons h
    cases n with
    | zero => cases hn
    | succ n => rw [fgets, if_neg hc.symm, ih hs (Nat.le_of_succ_le_succ hn)]

theorem length_fgets_le (n : ℕ) (file : List Char) : (fgets n file).2.length ≤ file.length := by
  induction n generalizing file with
  | zero => exact le_rfl
  | succ n ih =>
    cases file with
    | nil => exact le_rfl
    | cons c file =>
      rw [fgets]
      split
      · exact Nat.le_succ _
      · exact (ih file).trans (Nat.le_succ _)

theorem length_fgets_lt (n : ℕ) {file : List Char} (h : file ≠ []) :
    (fgets (n + 1) file).2.length < file.length := by
  cases file with
  | nil => exact absurd rfl h
  | cons c file =>
    rw [fgets]
    split
    · exact Nat.lt_succ_self _
    · exact Nat.lt_succ_of_le (length_fgets_le n file)

end Lines

section Marks

variable {α : Type*} {mark s t : List α}

theorem isInfix_append_left_iff (hne : mark ≠ []) (h : ∀ c ∈ mark, c ∉ s) :
    mark <:+: s ++ t ↔ mark <:+: t := by
  induction s with
  | nil => rfl
  | cons a s ih =>
    have hs : ∀ c ∈ mark, c ∉ s := fun c hc hmem => h c hc (List.mem_cons_of_mem a hmem)
    rw [List.cons_append, List.infix_cons_iff, ih hs, or_iff_right]
    intro hstart
    obtain ⟨b, mark, rfl⟩ := List.exists_cons_of_ne_nil hne
    obtain ⟨rfl, -⟩ := List.cons_prefix_cons.mp hstart
    exact h b List.mem_cons_self List.mem_cons_self

theorem isInfix_append_right_iff (hne : mark ≠ []) (h : ∀ c ∈ mark, c ∉ t) :
    mark <:+: s ++ t ↔ mark <:+: s := by
  have hreverse : ∀ c ∈ mark.reverse, c ∉ t.reverse := by
    intro c hc
    rw [List.mem_reverse] at hc ⊢
    exact h c hc
  rw [← List.reverse_infix, List.reverse_append,
    isInfix_append_left_iff (List.reverse_ne_nil_iff.mpr hne) hreverse, List.reverse_infix]

end Marks

end NtSocks.CText
