import NtSocks.Lib.RingIndex

/-!
# The shared memory ring

A ring of `capacity` elements with one writer and one reader, each owning one index. One element
stays unused, so that equal indices mean an empty ring. `Queues` relates a ring to the list of all
elements pushed into it and the number of those popped.
-/

namespace NtSocks

open Function

structure Shmring (α : Type*) where
  capacity : ℕ
  writeIdx : ℕ
  readIdx : ℕ
  data : ℕ → α

namespace Shmring

variable {α : Type*}

def shmringCreate (eleNum : ℕ) (data : ℕ → α) : Shmring α where
  capacity := eleNum
  writeIdx := 0
  readIdx := 0
  data := data

def increment (currentIdx maxSize : ℕ) : ℕ := (currentIdx + 1) % maxSize

/-- The loop of `next_index`, with a bound on its iterations. -/
def reduceIndex (maxSize : ℕ) : ℕ → ℕ → ℕ
  | 0, ret => ret
  | fuel + 1, ret => if maxSize ≤ ret then reduceIndex maxSize fuel (ret - maxSize) else ret

def nextIndex (currentIdx maxSize : ℕ) : ℕ := reduceIndex maxSize (currentIdx + 1) (currentIdx + 1)

variable (r : Shmring α) {maxSize : ℕ}

/-- `none` is the return value `FAILED`. -/
def shmringPush (element : α) : Option (Shmring α) :=
  let wNextIdx := increment r.writeIdx r.capacity
  if wNextIdx = r.readIdx then none
  else some { r with data := update r.data r.writeIdx element, writeIdx := wNextIdx }

def shmringPop : Option (α × Shmring α) :=
  if r.writeIdx = r.readIdx then none
  else some (r.data r.readIdx, { r with readIdx := increment r.readIdx r.capacity })

def shmringPlainPop : Option (Shmring α) :=
  if r.writeIdx = r.readIdx then none
  else some { r with readIdx := nextIndex r.readIdx r.capacity }

def shmringFront : Option α := if r.writeIdx = r.readIdx then none else some (r.data r.readIdx)

def contents : List α :=
  (List.range ((r.writeIdx + r.capacity - r.readIdx) % r.capacity)).map
    fun k => r.data ((r.readIdx + k) % r.capacity)

theorem reduceIndex_eq_mod (hmax : 0 < maxSize) {fuel ret : ℕ} (hfuel : ret ≤ fuel) :
    reduceIndex maxSize fuel ret = ret % maxSize := by
  induction fuel generalizing ret with
  | zero =>
    obtain rfl : ret = 0 := by omega
    rw [reduceIndex, Nat.zero_mod]
  | succ fuel ih =>
    rw [reduceIndex]
    by_cases hle : maxSize ≤ ret
    · rw [if_pos hle, ih (by omega), ← Nat.mod_eq_sub_mod hle]
    · rw [if_neg hle, Nat.mod_eq_of_lt (by omega)]

theorem nextIndex_eq_increment (hmax : 0 < maxSize) (currentIdx : ℕ) :
    nextIndex currentIdx maxSize = increment currentIdx maxSize :=
  reduceIndex_eq_mod hmax le_rfl

structure Queues (r : Shmring α) (cap : ℕ) (xs : List α) (taken : ℕ) : Prop where
  capacity : r.capacity = cap
  writeIdx : r.writeIdx = xs.length % cap
  readIdx : r.readIdx = taken % cap
  taken_le : taken ≤ xs.length
  length_lt : xs.length < taken + cap
  data : ∀ k (h : k < xs.length), taken ≤ k → r.data (k % cap) = xs[k]

namespace Queues

variable {r : Shmring α} {cap taken : ℕ} {xs : List α} {x : α}

theorem init (hcap : 0 < cap) (data : ℕ → α) : Queues (shmringCreate cap data) cap [] 0 where
  capacity := rfl
  writeIdx := (Nat.zero_mod _).symm
  readIdx := (Nat.zero_mod _).symm
  taken_le := le_rfl
  length_lt := by simpa using hcap
  data := fun k hk => absurd hk (Nat.not_lt_zero k)

variable (h : Queues r cap xs taken)
include h

theorem cap_pos : 0 < cap := by
  have h₁ := h.taken_le
  have h₂ := h.length_lt
  omega

theorem full_iff : increment r.writeIdx r.capacity = r.readIdx ↔ xs.length + 1 = taken + cap := by
  have hcap := h.cap_pos
  have h₁ := h.taken_le
  have h₂ := h.length_lt
  rw [increment, h.capacity, h.writeIdx, h.readIdx, Nat.mod_add_mod]
  constructor
  · intro heq
    by_contra hne
    exact RingIndex.mod_ne_of_window (by omega) (by omega) heq.symm
  · intro heq
    rw [heq, Nat.add_mod_right]

theorem empty_iff : r.writeIdx = r.readIdx ↔ xs.length = taken := by
  have h₁ := h.taken_le
  have h₂ := h.length_lt
  rw [h.writeIdx, h.readIdx]
  constructor
  · intro heq
    by_contra hne
    exact RingIndex.mod_ne_of_window (by omega) (by omega) heq.symm
  · intro heq
    rw [heq]

theorem push_full (hfull : xs.length + 1 = taken + cap) :
    r.shmringPush x = none := if_pos (h.full_iff.mpr hfull)

theorem push (hroom : xs.length + 1 < taken + cap) :
    ∃ r', r.shmringPush x = some r' ∧ Queues r' cap (xs ++ [x]) taken := by
  have hcap := h.cap_pos
  have hnotFull : ¬ increment r.writeIdx r.capacity = r.readIdx := by
    rw [h.full_iff]
    omega
  refine ⟨_, if_neg hnotFull, h.capacity, ?_, h.readIdx, ?_, ?_, ?_⟩
  · rw [increment, h.capacity, h.writeIdx, Nat.mod_add_mod, List.length_append,
      List.length_singleton]
  · rw [List.length_append]
    exact h.taken_le.trans (Nat.le_add_right _ _)
  · rw [List.length_append, List.length_singleton]
    exact hroom
  · intro k hk hle
    rw [List.length_append, List.length_singleton] at hk
    change update r.data r.writeIdx x (k % cap) = _
    by_cases hlast : k = xs.length
    · subst hlast
      rw [← h.writeIdx, update_self, List.getElem_concat_length rfl]
    · have hlt : k < xs.length := by omega
      have hne : k % cap ≠ r.writeIdx := by
        rw [h.writeIdx]
        exact RingIndex.mod_ne_of_window hlt (by omega)
      rw [update_of_ne hne, List.getElem_append_left hlt, h.data k hlt hle]

theorem advance (hlt : taken < xs.length) :
    Queues { r with readIdx := increment r.readIdx r.capacity } cap xs (taken + 1) where
  capacity := h.capacity
  writeIdx := h.writeIdx
  readIdx := by rw [increment, h.capacity, h.readIdx, Nat.mod_add_mod]
  taken_le := hlt
  length_lt := by have := h.length_lt; omega
  data := fun k hk hle => h.data k hk (by omega)

theorem front (hlt : taken < xs.length) : r.shmringFront = some xs[taken] := by
  have hne : ¬ r.writeIdx = r.readIdx := by
    rw [h.empty_iff]
    omega
  rw [shmringFront, if_neg hne, h.readIdx, h.data taken hlt le_rfl]

theorem pop (hlt : taken < xs.length) :
    ∃ r', r.shmringPop = some (xs[taken], r') ∧ Queues r' cap xs (taken + 1) := by
  have hne : ¬ r.writeIdx = r.readIdx := by
    rw [h.empty_iff]
    omega
  refine ⟨{ r with readIdx := increment r.readIdx r.capacity }, ?_, h.advance hlt⟩
  have hdata := h.data taken hlt le_rfl
  rw [← h.readIdx] at hdata
  rw [shmringPop, if_neg hne, hdata]

theorem plainPop (hlt : taken < xs.length) :
    ∃ r', r.shmringPlainPop = some r' ∧ Queues r' cap xs (taken + 1) := by
  have hne : ¬ r.writeIdx = r.readIdx := by
    rw [h.empty_iff]
    omega
  refine ⟨{ r with readIdx := increment r.readIdx r.capacity }, ?_, h.advance hlt⟩
  rw [shmringPlainPop, if_neg hne, nextIndex_eq_increment (by rw [h.capacity]; exact h.cap_pos)]

theorem pop_empty (hempty : xs.length = taken) :
    r.shmringPop = none := if_pos (h.empty_iff.mpr hempty)

theorem front_empty (hempty : xs.length = taken) :
    r.shmringFront = none := if_pos (h.empty_iff.mpr hempty)

theorem contents_eq : r.contents = xs.drop taken := by
  have h₁ := h.taken_le
  have h₂ := h.length_lt
  have hcount : (r.writeIdx + r.capacity - r.readIdx) % r.capacity = xs.length - taken := by
    rw [h.capacity, h.writeIdx, h.readIdx, RingIndex.gap_mod h₁ h₂]
  apply List.ext_getElem
  · rw [contents, List.length_map, List.length_range, hcount, List.length_drop]
  · intro k hk hk'
    rw [List.length_drop] at hk'
    simp only [contents, List.getElem_map, List.getElem_range, List.getElem_drop]
    rw [h.capacity, h.readIdx, Nat.mod_add_mod, h.data _ (by omega) (by omega)]

end Queues

def Holds (r : Shmring α) (cap : ℕ) (q : List α) : Prop :=
  ∃ xs taken, r.Queues cap xs taken ∧ xs.drop taken = q

namespace Holds

variable {r : Shmring α} {cap : ℕ} {q : List α} {x : α} {r' : Shmring α}

theorem init (hcap : 0 < cap) (data : ℕ → α) : (shmringCreate cap data).Holds cap [] :=
  ⟨[], 0, Queues.init hcap data, rfl⟩

section

variable (h : r.Holds cap q)
include h

theorem contents_eq : r.contents = q := by
  obtain ⟨xs, taken, hq, rfl⟩ := h
  exact hq.contents_eq

theorem capacity : r.capacity = cap := by
  obtain ⟨xs, taken, hq, rfl⟩ := h
  exact hq.capacity

theorem length_lt : q.length < cap := by
  obtain ⟨xs, taken, hq, rfl⟩ := h
  have h₁ := hq.taken_le
  have h₂ := hq.length_lt
  rw [List.length_drop]
  omega

theorem writeIdx_lt : r.writeIdx < cap := by
  obtain ⟨xs, taken, hq, rfl⟩ := h
  rw [hq.writeIdx]
  exact Nat.mod_lt _ hq.cap_pos

theorem readIdx_lt : r.readIdx < cap := by
  obtain ⟨xs, taken, hq, rfl⟩ := h
  rw [hq.readIdx]
  exact Nat.mod_lt _ hq.cap_pos

theorem full_iff : increment r.writeIdx r.capacity = r.readIdx ↔ q.length + 1 = cap := by
  obtain ⟨xs, taken, hq, rfl⟩ := h
  have h₁ := hq.taken_le
  rw [hq.full_iff, List.length_drop]
  omega

theorem push (hroom : q.length + 1 < cap) :
    ∃ r', r.shmringPush x = some r' ∧ r'.Holds cap (q ++ [x]) := by
  obtain ⟨xs, taken, hq, rfl⟩ := h
  have h₁ := hq.taken_le
  rw [List.length_drop] at hroom
  obtain ⟨r', hpush, hq'⟩ := hq.push (x := x) (by omega)
  refine ⟨r', hpush, xs ++ [x], taken, hq', ?_⟩
  rw [List.drop_append_of_le_length h₁]

theorem push_full (hfull : q.length + 1 = cap) : r.shmringPush x = none := by
  obtain ⟨xs, taken, hq, rfl⟩ := h
  have h₁ := hq.taken_le
  rw [List.length_drop] at hfull
  exact hq.push_full (by omega)

end

theorem pop (h : r.Holds cap (x :: q)) : ∃ r', r.shmringPop = some (x, r') ∧ r'.Holds cap q := by
  obtain ⟨xs, taken, hq, hdrop⟩ := h
  have hlt : taken < xs.length := by
    by_contra hge
    rw [List.drop_eq_nil_of_le (by omega)] at hdrop
    cases hdrop
  rw [List.drop_eq_getElem_cons hlt, List.cons.injEq] at hdrop
  obtain ⟨r', hpop, hq'⟩ := hq.pop hlt
  exact ⟨r', hdrop.1 ▸ hpop, xs, taken + 1, hq', hdrop.2⟩

theorem pop_empty (h : r.Holds cap []) : r.shmringPop = none := by
  obtain ⟨xs, taken, hq, hdrop⟩ := h
  have h₁ := hq.taken_le
  rw [List.drop_eq_nil_iff] at hdrop
  exact hq.pop_empty (by omega)

theorem of_push (h : r.Holds cap q) (hpush : r.shmringPush x = some r') :
    r'.Holds cap (q ++ [x]) := by
  have hroom : q.length + 1 < cap := by
    refine lt_of_le_of_ne h.length_lt fun hfull => ?_
    rw [h.push_full hfull] at hpush
    cases hpush
  obtain ⟨r'', hpush', h'⟩ := h.push (x := x) hroom
  rwa [Option.some.inj (hpush'.symm.trans hpush)] at h'

theorem of_pop (h : r.Holds cap q) (hpop : r.shmringPop = some (x, r')) :
    ∃ q', q = x :: q' ∧ r'.Holds cap q' := by
  cases q with
  | nil =>
    rw [h.pop_empty] at hpop
    cases hpop
  | cons y q =>
    obtain ⟨r'', hpop', h'⟩ := h.pop
    obtain ⟨rfl, rfl⟩ : y = x ∧ r'' = r' := by simpa using hpop'.symm.trans hpop
    exact ⟨q, rfl, h'⟩

end Holds

end Shmring

end NtSocks
