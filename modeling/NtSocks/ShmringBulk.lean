import NtSocks.Shmring

/-!
# Bulk operations of the shared memory ring

`shmring_push_bulk` and `shmring_pop_bulk` move several elements at once, with one update of an
index. A copy that passes the end of the ring is cut into two loops there. What the loops leave is
compared, entry by entry, with what as many single calls leave.

The bulk push takes all elements or none. The bulk pop takes one element too few where the elements
wrap around and it is asked for all of them.
-/

namespace NtSocks

open Function

/-- A loop that copies to the entries `i`, `i + 1`, … of an array; `copy i j` is the effect of one
copy from the entry `j` of the other array to the entry `i`. -/
def copyRun {β : Type*} (copy : ℕ → ℕ → β → β) : ℕ → ℕ → ℕ → (ℕ → β) → ℕ → β
  | 0, _, _, dst => dst
  | n + 1, i, j, dst =>
    copyRun copy n (i + 1) (j + 1) (update dst i (copy i j (dst i)))

def memcpy (dst src : List UInt8) (len : ℕ) : List UInt8 := src.take len ++ dst.drop len

namespace Shmring

def nextIndexBulk (currentIdx maxSize stepSize : ℕ) : ℕ :=
  reduceIndex maxSize (currentIdx + stepSize) (currentIdx + stepSize)

variable (r : Shmring (List UInt8)) (eleSize : ℕ)

def pushBytes (element : List UInt8) (eleLen : ℕ) : Option (Shmring (List UInt8)) :=
  let eleLen := if eleLen ≤ eleSize then eleLen else eleSize
  r.shmringPush (memcpy (r.data r.writeIdx) element eleLen)

def popBytes (element : List UInt8) (eleLen : ℕ) : Option (List UInt8 × Shmring (List UInt8)) :=
  let eleLen := if eleLen ≤ eleSize then eleLen else eleSize
  r.shmringPop.map fun p => (memcpy element p.1 eleLen, p.2)

/-- Calls of `shmring_push` for the elements `j`, `j + 1`, …, up to the first that fails. -/
def pushEach (elements : ℕ → List UInt8) (eleLens : ℕ → ℕ) :
    ℕ → ℕ → Shmring (List UInt8) → Option (Shmring (List UInt8))
  | 0, _, r => some r
  | n + 1, j, r =>
    (r.pushBytes eleSize (elements j) (eleLens j)).bind (pushEach elements eleLens n (j + 1))

def popEach (maxLens : ℕ → ℕ) :
    ℕ → ℕ → (ℕ → List UInt8) → Shmring (List UInt8) →
      Option ((ℕ → List UInt8) × Shmring (List UInt8))
  | 0, _, elements, r => some (elements, r)
  | n + 1, i, elements, r =>
    (r.popBytes eleSize (elements i) (maxLens i)).bind fun p =>
      popEach maxLens n (i + 1) (update elements i p.1) p.2

def shmringPushBulk (elements : ℕ → List UInt8) (eleLens : ℕ → ℕ) (count : ℕ) :
    Bool × Shmring (List UInt8) :=
  let count := if count ≤ r.capacity then count else r.capacity - 1
  let wIdx := r.writeIdx
  let wNextIdx := nextIndexBulk wIdx r.capacity count
  let rIdx := r.readIdx
  if wNextIdx = rIdx then (false, r)
  else
    let idleSlots := if rIdx ≤ wIdx then r.capacity - 1 - wIdx + rIdx else rIdx - wIdx
    if idleSlots < count then (false, r)
    else
      let copy := fun _ j slot => memcpy slot (elements j) (eleLens j)
      let data :=
        if wIdx < wNextIdx ∨ wNextIdx = 0 then copyRun copy count wIdx 0 r.data
        else
          copyRun copy wNextIdx 0 (r.capacity - wIdx)
            (copyRun copy (r.capacity - wIdx) wIdx 0 r.data)
      (true, { r with data := data, writeIdx := wNextIdx })

def shmringPopBulk (elements : ℕ → List UInt8) (maxLens : ℕ → ℕ) (count : ℕ) :
    Option (ℕ × (ℕ → List UInt8) × Shmring (List UInt8)) :=
  let count := if count ≤ r.capacity then count else r.capacity - 1
  let wIdx := r.writeIdx
  let rIdx := r.readIdx
  let copy := fun i j element => memcpy element (r.data j) (maxLens i)
  if wIdx = rIdx then none
  else if rIdx < wIdx then
    let popCnt := if count ≤ wIdx - rIdx then count else wIdx - rIdx
    let rNextIdx := nextIndexBulk rIdx r.capacity popCnt
    some (popCnt, copyRun copy popCnt 0 rIdx elements, { r with readIdx := rNextIdx })
  else
    let popCnt :=
      if count < r.capacity - rIdx + wIdx then count else r.capacity - 1 - rIdx + wIdx
    let rNextIdx := nextIndexBulk rIdx r.capacity popCnt
    let elements :=
      if rIdx < rNextIdx ∨ rNextIdx = 0 then copyRun copy popCnt 0 rIdx elements
      else
        copyRun copy rNextIdx (r.capacity - rIdx) 0
          (copyRun copy (r.capacity - rIdx) 0 rIdx elements)
    some (popCnt, elements, { r with readIdx := rNextIdx })

theorem copyRun_apply {β : Type*} (copy : ℕ → ℕ → β → β) (n i j : ℕ) (dst : ℕ → β) (k : ℕ) :
    copyRun copy n i j dst k =
      if i ≤ k ∧ k < i + n then copy k (j + (k - i)) (dst k) else dst k := by
  induction n generalizing i j dst with
  | zero => rw [copyRun, if_neg (by omega)]
  | succ n ih =>
    rw [copyRun, ih]
    by_cases hk : k = i
    · subst hk
      rw [if_neg (by omega), if_pos (by omega), update_self, Nat.sub_self, Nat.add_zero]
    · rw [update_of_ne hk]
      by_cases hin : i + 1 ≤ k ∧ k < i + 1 + n
      · have hj : j + 1 + (k - (i + 1)) = j + (k - i) := by omega
        rw [if_pos hin, if_pos (by omega), hj]
      · rw [if_neg hin, if_neg (by omega)]

section Indices

variable {cap : ℕ} {α : Type*} {q : List α}

theorem nextIndexBulk_eq_mod {maxSize : ℕ} (hmax : 0 < maxSize) (currentIdx stepSize : ℕ) :
    nextIndexBulk currentIdx maxSize stepSize = (currentIdx + stepSize) % maxSize :=
  reduceIndex_eq_mod hmax le_rfl

theorem nextIndexBulk_eq {currentIdx maxSize stepSize : ℕ} (hidx : currentIdx < maxSize)
    (hstep : stepSize ≤ maxSize) :
    nextIndexBulk currentIdx maxSize stepSize =
      if currentIdx + stepSize < maxSize then currentIdx + stepSize
      else currentIdx + stepSize - maxSize := by
  rw [nextIndexBulk_eq_mod (by omega)]
  split_ifs with hlt
  · exact Nat.mod_eq_of_lt hlt
  · rw [Nat.mod_eq_sub_mod (by omega), Nat.mod_eq_of_lt (by omega)]

theorem Holds.length_eq {r : Shmring α} (h : r.Holds cap q) :
    q.length = if r.readIdx ≤ r.writeIdx then r.writeIdx - r.readIdx
      else r.writeIdx + cap - r.readIdx := by
  have hread := h.readIdx_lt
  have hwrite := h.writeIdx_lt
  have hlen := congrArg List.length h.contents_eq
  rw [contents, List.length_map, List.length_range, h.capacity] at hlen
  rw [← hlen]
  split_ifs with hle
  · rw [Nat.mod_eq_sub_mod (by omega), Nat.mod_eq_of_lt (by omega)]
    omega
  · exact Nat.mod_eq_of_lt (by omega)

theorem Holds.getD_eq {r : Shmring α} (h : r.Holds cap q) {k : ℕ} (hk : k < q.length) (d : α) :
    q.getD k d = r.data ((r.readIdx + k) % cap) := by
  rw [← h.contents_eq] at hk ⊢
  rw [List.getD_eq_getElem?_getD, List.getElem?_eq_getElem hk, Option.getD_some]
  simp only [contents, List.getElem_map, List.getElem_range, h.capacity]

/-- How far the entry `k` of a ring is ahead of the entry `i`. -/
def ahead (cap i k : ℕ) : ℕ := if i ≤ k then k - i else k + cap - i

end Indices

section Runs

variable {r : Shmring (List UInt8)} {eleSize cap n : ℕ} {q : List (List UInt8)}
  (elements : ℕ → List UInt8)

theorem Holds.pushEach_eq (h : r.Holds cap q) {eleLens : ℕ → ℕ} {j : ℕ}
    (hlens : ∀ k < j + n, eleLens k ≤ eleSize) (hroom : q.length + n < cap) :
    ∃ data, pushEach eleSize elements eleLens n j r =
        some { r with data := data, writeIdx := (r.writeIdx + n) % cap } ∧
      ∀ k, data k = if k < cap ∧ ahead cap r.writeIdx k < n then
        memcpy (r.data k) (elements (j + ahead cap r.writeIdx k))
          (eleLens (j + ahead cap r.writeIdx k))
        else r.data k := by
  induction n generalizing r q j with
  | zero =>
    refine ⟨r.data, ?_, fun k => (if_neg (by omega)).symm⟩
    rw [Nat.add_zero, Nat.mod_eq_of_lt h.writeIdx_lt]
    rfl
  | succ n ih =>
    have hwrite := h.writeIdx_lt
    obtain ⟨r₁, hpush, h₁⟩ := h.push (x := memcpy (r.data r.writeIdx) (elements j) (eleLens j))
      (by omega)
    have hr₁ := hpush
    rw [shmringPush, if_neg (by rw [h.full_iff]; omega), h.capacity] at hr₁
    obtain rfl := Option.some.inj hr₁
    obtain ⟨data, hrest, hdata⟩ := ih (j := j + 1) h₁ (fun k hk => hlens k (by omega)) (by
      rw [List.length_append, List.length_singleton]
      omega)
    refine ⟨data, ?_, fun k => ?_⟩
    · rw [pushEach, pushBytes, if_pos (hlens j (by omega)), hpush, Option.bind_some, hrest]
      simp only [increment, h.capacity, Nat.mod_add_mod, Nat.add_assoc, Nat.add_comm 1 n]
    · have hnext : increment r.writeIdx cap = if r.writeIdx + 1 < cap then r.writeIdx + 1 else 0 :=
        (RingIndex.next_of_lt hwrite).symm
      rw [hdata k]
      dsimp only
      by_cases hk : k = r.writeIdx
      · subst hk
        have hlast :
            ¬ (r.writeIdx < cap ∧ ahead cap (increment r.writeIdx cap) r.writeIdx < n) := by
          rw [hnext, ahead]
          split_ifs <;> omega
        have hself : ahead cap r.writeIdx r.writeIdx = 0 := by simp [ahead]
        rw [if_neg hlast, update_self, hself, if_pos ⟨hwrite, n.succ_pos⟩, Nat.add_zero]
      · rw [update_of_ne hk]
        by_cases hcap : k < cap
        · have hstep : ahead cap r.writeIdx k = ahead cap (increment r.writeIdx cap) k + 1 := by
            rw [hnext, ahead, ahead]
            split_ifs <;> omega
          rw [hstep, Nat.add_right_comm j 1, Nat.add_assoc j]
          exact if_congr (by omega) rfl rfl
        · rw [if_neg (fun hin => hcap hin.1), if_neg (fun hin => hcap hin.1)]

theorem Holds.popEach_eq (h : r.Holds cap q) {maxLens : ℕ → ℕ} {i : ℕ}
    (hlens : ∀ k < i + n, maxLens k ≤ eleSize) (hn : n ≤ q.length) :
    ∃ elements', popEach eleSize maxLens n i elements r =
        some (elements', { r with readIdx := (r.readIdx + n) % cap }) ∧
      ∀ k, elements' k = if i ≤ k ∧ k < i + n then
        memcpy (elements k) (q.getD (k - i) []) (maxLens k) else elements k := by
  induction n generalizing r q i elements with
  | zero =>
    refine ⟨elements, ?_, fun k => (if_neg (by omega)).symm⟩
    rw [Nat.add_zero, Nat.mod_eq_of_lt h.readIdx_lt]
    rfl
  | succ n ih =>
    cases q with
    | nil => exact absurd hn (Nat.not_succ_le_zero n)
    | cons x q =>
      obtain ⟨r₁, hpop, h₁⟩ := h.pop
      have hr₁ := hpop
      rw [shmringPop, h.capacity] at hr₁
      obtain ⟨-, heq⟩ := Option.ite_none_left_eq_some.mp hr₁
      obtain rfl := (Prod.mk.inj (Option.some.inj heq)).2
      rw [List.length_cons] at hn
      obtain ⟨elements', hrest, helements⟩ := ih
        (update elements i (memcpy (elements i) x (maxLens i))) (i := i + 1) h₁
        (fun k hk => hlens k (by omega)) (by omega)
      refine ⟨elements', ?_, fun k => ?_⟩
      · rw [popEach, popBytes, if_pos (hlens i (by omega)), hpop, Option.map_some,
          Option.bind_some, hrest]
        simp only [increment, h.capacity, Nat.mod_add_mod, Nat.add_assoc, Nat.add_comm 1 n]
      · rw [helements k]
        by_cases hk : k = i
        · subst hk
          rw [if_neg (by omega), if_pos (by omega), update_self, Nat.sub_self, List.getD_cons_zero]
        · rw [update_of_ne hk]
          by_cases hin : i + 1 ≤ k ∧ k < i + 1 + n
          · obtain ⟨d, rfl⟩ := Nat.exists_eq_add_of_le hin.1
            have hd : i + 1 + d - i = d + 1 := by omega
            rw [if_pos hin, if_pos (by omega), hd, List.getD_cons_succ, Nat.add_sub_cancel_left]
          · rw [if_neg hin, if_neg (by omega)]

end Runs

section Bulk

variable {r : Shmring (List UInt8)} {eleSize cap count : ℕ} {q : List (List UInt8)}
  {eleLens maxLens : ℕ → ℕ} (elements : ℕ → List UInt8)

/-- The entries after the copies of a bulk push, in one loop or in two. -/
theorem pushBulk_data {wIdx : ℕ} (hwrite : wIdx < cap) (hlt : count < cap) (hpos : 1 ≤ count)
    (copy : ℕ → ℕ → List UInt8 → List UInt8) (data : ℕ → List UInt8) (k : ℕ) :
    (if wIdx < nextIndexBulk wIdx cap count ∨ nextIndexBulk wIdx cap count = 0 then
        copyRun copy count wIdx 0 data
      else
        copyRun copy (nextIndexBulk wIdx cap count) 0 (cap - wIdx)
          (copyRun copy (cap - wIdx) wIdx 0 data)) k =
      if k < cap ∧ ahead cap wIdx k < count then copy k (ahead cap wIdx k) (data k)
      else data k := by
  have hnext := nextIndexBulk_eq hwrite hlt.le
  rw [ahead]
  by_cases hend : wIdx + count ≤ cap
  · rw [if_pos (by rw [hnext]; split_ifs <;> omega), copyRun_apply, Nat.zero_add]
    by_cases hk : wIdx ≤ k
    · rw [if_pos hk]
      exact if_congr (by omega) rfl rfl
    · rw [if_neg hk, if_neg (by omega), if_neg (by omega)]
  · rw [if_neg (by omega)] at hnext
    rw [hnext, if_neg (by omega), copyRun_apply, copyRun_apply, Nat.zero_add, Nat.zero_add]
    by_cases hk : wIdx ≤ k
    · rw [if_pos hk, if_neg (show ¬ (0 ≤ k ∧ k < wIdx + count - cap) by omega)]
      exact if_congr (by omega) rfl rfl
    · have hj : cap - wIdx + (k - 0) = k + cap - wIdx := by omega
      rw [if_neg hk, if_neg (show ¬ (wIdx ≤ k ∧ _) from fun hin => hk hin.1), hj]
      exact if_congr (by omega) rfl rfl

theorem Holds.pushBulk_eq (h : r.Holds cap q) (hlens : ∀ k < count, eleLens k ≤ eleSize)
    (hpos : 1 ≤ count) (hroom : count + q.length + 1 ≤ cap) :
    ∃ r', r.shmringPushBulk elements eleLens count = (true, r') ∧
      pushEach eleSize elements eleLens count 0 r = some r' := by
  obtain rfl := h.capacity
  have hwrite := h.writeIdx_lt
  have hread := h.readIdx_lt
  have hlen := h.length_eq
  have hnext := nextIndexBulk_eq hwrite (show count ≤ r.capacity by omega)
  have hclamp : (if count ≤ r.capacity then count else r.capacity - 1) = count :=
    if_pos (by omega)
  have hfree : ¬ nextIndexBulk r.writeIdx r.capacity count = r.readIdx := by
    rw [hnext]
    split_ifs at hlen ⊢ <;> omega
  have hidle : ¬ (if r.readIdx ≤ r.writeIdx then r.capacity - 1 - r.writeIdx + r.readIdx
      else r.readIdx - r.writeIdx) < count := by
    split_ifs at hlen ⊢ <;> omega
  obtain ⟨data, hpushes, hdata⟩ := h.pushEach_eq elements (j := 0)
    (fun k hk => hlens k (by omega)) (show q.length + count < r.capacity by omega)
  rw [shmringPushBulk]
  simp only [hclamp, if_neg hfree, if_neg hidle]
  refine ⟨_, rfl, ?_⟩
  have hsame : data = _ := funext fun k =>
    (hdata k).trans (pushBulk_data hwrite (show count < r.capacity by omega) hpos
      (fun _ j slot => memcpy slot (elements (0 + j)) (eleLens (0 + j))) r.data k).symm
  rw [hpushes, hsame, nextIndexBulk_eq_mod (by omega)]
  simp only [Nat.zero_add]

theorem Holds.pushBulk_failed (h : r.Holds cap q) (hle : count ≤ cap)
    (hroom : cap < count + q.length + 1) :
    r.shmringPushBulk elements eleLens count = (false, r) := by
  obtain rfl := h.capacity
  have hwrite := h.writeIdx_lt
  have hread := h.readIdx_lt
  have hlen := h.length_eq
  have hnext := nextIndexBulk_eq hwrite hle
  rw [shmringPushBulk]
  simp only [if_pos hle]
  by_cases hfull : nextIndexBulk r.writeIdx r.capacity count = r.readIdx
  · rw [if_pos hfull]
  · have hidle : (if r.readIdx ≤ r.writeIdx then r.capacity - 1 - r.writeIdx + r.readIdx
        else r.readIdx - r.writeIdx) < count := by
      rw [hnext] at hfull
      split_ifs at hlen hfull ⊢ <;> omega
    rw [if_neg hfull, if_pos hidle]

/-- A bulk push either does what single pushes do, or nothing, and it fails only where they
would. -/
theorem push_bulk_all_or_nothing (r : Shmring (List UInt8)) (cap : ℕ) (q : List (List UInt8))
    (h : r.Holds cap q) (eleSize : ℕ) (elements : ℕ → List UInt8) (eleLens : ℕ → ℕ) (count : ℕ)
    (hpos : 1 ≤ count) (hle : count ≤ cap) (hlens : ∀ k < count, eleLens k ≤ eleSize) :
    if count ≤ cap - 1 - q.length then
      ∃ r', r.shmringPushBulk elements eleLens count = (true, r') ∧
        pushEach eleSize elements eleLens count 0 r = some r'
    else r.shmringPushBulk elements eleLens count = (false, r) := by
  have hlt := h.length_lt
  split_ifs with hroom
  · exact h.pushBulk_eq elements hlens hpos (by omega)
  · exact h.pushBulk_failed elements hle (by omega)

/-- The elements that a bulk pop copies, in one loop or in two. -/
theorem popBulk_elements {rIdx : ℕ} (hread : rIdx < cap) (hle : count ≤ cap) (hpos : 1 ≤ count)
    (copy : ℕ → ℕ → List UInt8 → List UInt8) (k : ℕ) :
    (if rIdx < nextIndexBulk rIdx cap count ∨ nextIndexBulk rIdx cap count = 0 then
        copyRun copy count 0 rIdx elements
      else
        copyRun copy (nextIndexBulk rIdx cap count) (cap - rIdx) 0
          (copyRun copy (cap - rIdx) 0 rIdx elements)) k =
      if k < count then copy k ((rIdx + k) % cap) (elements k) else elements k := by
  have hnext := nextIndexBulk_eq hread hle
  by_cases hend : rIdx + count ≤ cap
  · rw [if_pos (by rw [hnext]; split_ifs <;> omega), copyRun_apply]
    by_cases hk : k < count
    · rw [if_pos (by omega), if_pos hk, Nat.sub_zero, Nat.mod_eq_of_lt (by omega)]
    · rw [if_neg (by omega), if_neg hk]
  · rw [if_neg (by omega)] at hnext
    rw [hnext, if_neg (by omega), copyRun_apply, copyRun_apply]
    by_cases hk : k < cap - rIdx
    · rw [if_neg (by omega), if_pos (by omega), if_pos (by omega), Nat.sub_zero,
        Nat.mod_eq_of_lt (by omega)]
    · rw [if_neg (show ¬ (0 ≤ k ∧ k < 0 + (cap - rIdx)) by omega)]
      by_cases hcount : k < count
      · have hmod : (rIdx + k) % cap = 0 + (k - (cap - rIdx)) := by
          rw [Nat.mod_eq_sub_mod (by omega), Nat.mod_eq_of_lt (by omega)]
          omega
        rw [if_pos (by omega), if_pos hcount, hmod]
      · rw [if_neg (by omega), if_neg hcount]

theorem Holds.popBulk_eq (h : r.Holds cap q) (maxLens : ℕ → ℕ) (hpos : 1 ≤ count)
    (hle : count ≤ cap) (hne : ¬ r.writeIdx = r.readIdx)
    (hcase : r.readIdx < r.writeIdx ∨ count < q.length) :
    ∃ elements', r.shmringPopBulk elements maxLens count = some (min count q.length, elements',
        { r with readIdx := (r.readIdx + min count q.length) % cap }) ∧
      ∀ k, elements' k = if k < min count q.length then
        memcpy (elements k) (q.getD k []) (maxLens k) else elements k := by
  obtain rfl := h.capacity
  have hread := h.readIdx_lt
  have hwrite := h.writeIdx_lt
  have hlen := h.length_eq
  have hnext := nextIndexBulk_eq_mod (by omega : 0 < r.capacity) r.readIdx
  rw [shmringPopBulk]
  simp only [if_pos hle, if_neg hne]
  by_cases hlt : r.readIdx < r.writeIdx
  · rw [if_pos hlt.le] at hlen
    have hcount : (if count ≤ r.writeIdx - r.readIdx then count else r.writeIdx - r.readIdx) =
        min count q.length := by
      split_ifs <;> omega
    simp only [if_pos hlt, hcount, hnext]
    refine ⟨_, rfl, fun k => ?_⟩
    rw [copyRun_apply]
    by_cases hk : k < min count q.length
    · rw [if_pos (by omega), if_pos hk, h.getD_eq (by omega), Nat.mod_eq_of_lt (by omega),
        Nat.sub_zero]
    · rw [if_neg (by omega), if_neg hk]
  · have hfew := hcase.resolve_left hlt
    rw [if_neg (by omega)] at hlen
    have hcount : (if count < r.capacity - r.readIdx + r.writeIdx then count
        else r.capacity - 1 - r.readIdx + r.writeIdx) = count := if_pos (by omega)
    simp only [if_neg hlt, hcount, min_eq_left hfew.le]
    refine ⟨_, congrArg (fun i => some (count, _, { r with readIdx := i })) (hnext count),
      fun k => ?_⟩
    rw [popBulk_elements elements hread hle hpos]
    by_cases hk : k < count
    · rw [if_pos hk, if_pos hk, h.getD_eq (hk.trans hfew)]
    · rw [if_neg hk, if_neg hk]

theorem Holds.popBulk_short (h : r.Holds cap q) (maxLens : ℕ → ℕ) (hle : count ≤ cap)
    (hlt : r.writeIdx < r.readIdx) (hall : q.length ≤ count) :
    ∃ p, r.shmringPopBulk elements maxLens count = some (q.length - 1, p) := by
  obtain rfl := h.capacity
  have hread := h.readIdx_lt
  have hlen := h.length_eq
  rw [if_neg (by omega)] at hlen
  have hcount : (if count < r.capacity - r.readIdx + r.writeIdx then count
      else r.capacity - 1 - r.readIdx + r.writeIdx) = q.length - 1 := by
    rw [if_neg (by omega)]
    omega
  rw [shmringPopBulk]
  simp only [if_pos hle, if_neg hlt.ne, if_neg hlt.not_gt, hcount]
  exact ⟨_, rfl⟩

/-- A bulk pop does what single pops of as many elements as there are, at most `count`, do. -/
def TakesOldest (r : Shmring (List UInt8)) (q : List (List UInt8)) (eleSize : ℕ)
    (elements : ℕ → List UInt8) (maxLens : ℕ → ℕ) (count : ℕ) : Prop :=
  ∃ elements' r', r.shmringPopBulk elements maxLens count =
      some (min count q.length, elements', r') ∧
    popEach eleSize maxLens (min count q.length) 0 elements r = some (elements', r') ∧
    ∀ k, elements' k = if k < min count q.length then
      memcpy (elements k) (q.getD k []) (maxLens k) else elements k

/-- On a ring with elements `shmring_pop_bulk` does what as many single pops do exactly if the read
index is below the write index, or more elements are there than asked for. -/
theorem pop_bulk_takes_oldest_iff (r : Shmring (List UInt8)) (cap : ℕ) (q : List (List UInt8))
    (h : r.Holds cap q) (hne : q ≠ []) (eleSize : ℕ) (elements : ℕ → List UInt8) (maxLens : ℕ → ℕ)
    (count : ℕ) (hpos : 1 ≤ count) (hle : count ≤ cap) (hlens : ∀ k < count, maxLens k ≤ eleSize) :
    r.TakesOldest q eleSize elements maxLens count ↔ r.readIdx < r.writeIdx ∨ count < q.length := by
  have hq := List.length_pos_of_ne_nil hne
  have hindices : ¬ r.writeIdx = r.readIdx := by
    intro heq
    have hlen := h.length_eq
    rw [if_pos heq.ge] at hlen
    omega
  constructor
  · rintro ⟨elements', r', hbulk, -⟩
    by_contra hnot
    obtain ⟨p, hshort⟩ := h.popBulk_short elements maxLens hle (by omega) (by omega)
    rw [hbulk] at hshort
    have hcount := congrArg Prod.fst (Option.some.inj hshort)
    dsimp only at hcount
    omega
  · intro hcase
    obtain ⟨elements', hbulk, hcopied⟩ := h.popBulk_eq elements maxLens hpos hle hindices
      hcase
    obtain ⟨elements'', hpops, hpopped⟩ := h.popEach_eq elements (i := 0)
      (fun k hk => hlens k (by omega)) (min_le_right count q.length)
    obtain rfl : elements'' = elements' := by
      funext k
      rw [hpopped k, hcopied k, Nat.zero_add, Nat.sub_zero]
      exact if_congr (by omega) rfl rfl
    exact ⟨elements'', _, hbulk, hpops, hcopied⟩

end Bulk

section Sample

def sampleRing : Shmring (List UInt8) := shmringCreate 3 fun _ => [0]

theorem push_bulk_two_of_three :
    (∃ r', sampleRing.shmringPushBulk (fun k => [UInt8.ofNat k]) (fun _ => 1) 2 = (true, r') ∧
      pushEach 1 (fun k => [UInt8.ofNat k]) (fun _ => 1) 2 0 sampleRing = some r') ∧
    sampleRing.shmringPushBulk (fun k => [UInt8.ofNat k]) (fun _ => 1) 3 = (false, sampleRing) :=
  have h : sampleRing.Holds 3 [] := Holds.init (by decide) _
  ⟨push_bulk_all_or_nothing sampleRing 3 [] h 1 _ _ 2 (by decide) (by decide) (fun _ _ => le_rfl),
    push_bulk_all_or_nothing sampleRing 3 [] h 1 _ _ 3 (by decide) (by decide) (fun _ _ => le_rfl)⟩

def pairRing : Shmring (List UInt8) where
  capacity := 3
  writeIdx := 2
  readIdx := 0
  data := fun i => if i = 0 then [1] else [2]

theorem pop_bulk_takes_both :
    pairRing.Holds 3 [[1], [2]] ∧
      pairRing.TakesOldest [[1], [2]] 1 (fun _ => [0]) (fun _ => 1) 2 := by
  have h : pairRing.Holds 3 [[1], [2]] := by
    refine ⟨[[1], [2]], 0, ⟨rfl, rfl, rfl, by decide, by decide, ?_⟩, rfl⟩
    intro k hk _
    change k < 2 at hk
    interval_cases k <;> rfl
  exact ⟨h, (pop_bulk_takes_oldest_iff pairRing 3 _ h (by decide) 1 _ _ 2 (by decide) (by decide)
    (fun _ _ => le_rfl)).mpr (Or.inl (by decide))⟩

/-- A ring of two entries after a push, a pop and a push. One element is asked for and there: none
is returned, and an entry behind the one that was asked for is written. -/
theorem pop_bulk_writes_beyond :
    ∃ r₁ r₂ r₃ elements', (shmringCreate 2 fun _ => [0]).shmringPush [9] = some r₁ ∧
      r₁.shmringPop = some ([9], r₂) ∧ r₂.shmringPush [7] = some r₃ ∧
      r₃.shmringPopBulk (fun _ => [0]) (fun _ => 1) 1 = some (0, elements', r₃) ∧
      elements' 1 = [9] :=
  ⟨_, _, _, _, rfl, rfl, rfl, rfl, rfl⟩

end Sample

end Shmring

end NtSocks
