import NtSocks.Lib.RingIndex

/-!
# A bounded queue whose writer sees an old read position

The writer of a ring of `cap` slots tests for room against a shadow copy of the read position.
The reader publishes its position from time to time; a published position travels before it
arrives, and positions arrive in the order in which they were published. Positions are counters
here, so the wrapped indices of an implementation are their residues modulo `cap`. A value of
`LaggedQueue` carries the ordering of the three positions and the bound on the elements that the
writer can have ahead of its shadow.
-/

structure LaggedQueue (α : Type*) (cap : ℕ) where
  sent : List α
  taken : ℕ
  shadow : ℕ
  inFlight : List ℕ
  sorted : (shadow :: inFlight).Pairwise (· ≤ ·)
  le_taken : ∀ u ∈ shadow :: inFlight, u ≤ taken
  taken_le : taken ≤ sent.length
  room : sent.length < shadow + cap

namespace LaggedQueue

variable {α : Type*} {cap : ℕ}

theorem nil_taken_le (α : Type*) : 0 ≤ ([] : List α).length := Nat.zero_le _

def empty (α : Type*) (h : 0 < cap) : LaggedQueue α cap where
  sent := []
  taken := 0
  shadow := 0
  inFlight := []
  sorted := by simp
  le_taken := by simp
  taken_le := nil_taken_le α
  room := by simpa using h

variable (q : LaggedQueue α cap) {i j : ℕ}

/-- The writer's test: the slot after the one it is about to fill is its shadow position. -/
def Full : Prop := (q.sent.length + 1) % cap = q.shadow % cap

/-- The slot `j` holds no element that is still to be taken. -/
def FreeSlot (j : ℕ) : Prop := ∀ i, q.taken ≤ i → i < q.sent.length → i % cap ≠ j

theorem shadow_le_taken : q.shadow ≤ q.taken := q.le_taken _ List.mem_cons_self

theorem cap_pos (q : LaggedQueue α cap) : 0 < cap := by
  have := q.shadow_le_taken
  have := q.taken_le
  have := q.room
  omega

theorem succ_lt_of_not_full (h : ¬ q.Full) : q.sent.length + 1 < q.shadow + cap := by
  have hroom := q.room
  by_contra hge
  have he : q.sent.length + 1 = q.shadow + cap := by omega
  exact h (by rw [Full, he, Nat.add_mod_right])

theorem mod_ne_of_lt (hi : q.taken ≤ i) (hij : i < j) (hj : j ≤ q.sent.length) :
    i % cap ≠ j % cap := by
  have := q.shadow_le_taken
  have := q.room
  exact RingIndex.mod_ne_of_window hij (by omega)

theorem writeSlot_free : q.FreeSlot (q.sent.length % cap) := by
  intro i hi hlt
  exact q.mod_ne_of_lt hi hlt le_rfl

theorem nextSlot_free (h : ¬ q.Full) : q.FreeSlot ((q.sent.length + 1) % cap) := by
  intro i hi hlt
  have := q.shadow_le_taken
  have := q.succ_lt_of_not_full h
  exact RingIndex.mod_ne_of_window (by omega) (by omega)

def push (a : α) (h : ¬ q.Full) : LaggedQueue α cap where
  sent := q.sent ++ [a]
  taken := q.taken
  shadow := q.shadow
  inFlight := q.inFlight
  sorted := q.sorted
  le_taken := q.le_taken
  taken_le := by
    have := q.taken_le
    simp only [List.length_append, List.length_singleton]
    omega
  room := by
    have := q.succ_lt_of_not_full h
    simpa only [List.length_append, List.length_singleton] using this

def pop (h : q.taken < q.sent.length) : LaggedQueue α cap where
  sent := q.sent
  taken := q.taken + 1
  shadow := q.shadow
  inFlight := q.inFlight
  sorted := q.sorted
  le_taken := fun u hu => (q.le_taken u hu).trans (Nat.le_succ _)
  taken_le := h
  room := q.room

def publish : LaggedQueue α cap where
  sent := q.sent
  taken := q.taken
  shadow := q.shadow
  inFlight := q.inFlight ++ [q.taken]
  sorted := by
    rw [← List.cons_append, List.pairwise_append]
    refine ⟨q.sorted, List.pairwise_singleton _ _, ?_⟩
    intro u hu v hv
    rw [List.mem_singleton.mp hv]
    exact q.le_taken u hu
  le_taken := by
    intro u hu
    rw [← List.cons_append, List.mem_append, List.mem_singleton] at hu
    rcases hu with hu | rfl
    · exact q.le_taken u hu
    · exact le_rfl
  taken_le := q.taken_le
  room := q.room

def arrive {u : ℕ} {us : List ℕ} (h : q.inFlight = u :: us) : LaggedQueue α cap where
  sent := q.sent
  taken := q.taken
  shadow := u
  inFlight := us
  sorted := h ▸ q.sorted.of_cons
  le_taken := by
    intro v hv
    exact q.le_taken v (List.mem_cons_of_mem _ (h ▸ hv))
  taken_le := q.taken_le
  room := by
    have hle : q.shadow ≤ u := (List.pairwise_cons.mp q.sorted).1 u (by simp [h])
    have := q.room
    omega

def publishIf (b : Bool) : LaggedQueue α cap := if b then q.publish else q

section Simp

variable (a : α) (hf : ¬ q.Full) (hp : q.taken < q.sent.length) {u : ℕ} {us : List ℕ}
  (hu : q.inFlight = u :: us)

@[simp] theorem push_sent : (q.push a hf).sent = q.sent ++ [a] := rfl
@[simp] theorem push_taken : (q.push a hf).taken = q.taken := rfl
@[simp] theorem push_shadow : (q.push a hf).shadow = q.shadow := rfl
@[simp] theorem push_inFlight : (q.push a hf).inFlight = q.inFlight := rfl
@[simp] theorem pop_sent : (q.pop hp).sent = q.sent := rfl
@[simp] theorem pop_taken : (q.pop hp).taken = q.taken + 1 := rfl
@[simp] theorem pop_shadow : (q.pop hp).shadow = q.shadow := rfl
@[simp] theorem pop_inFlight : (q.pop hp).inFlight = q.inFlight := rfl
@[simp] theorem publish_sent : q.publish.sent = q.sent := rfl
@[simp] theorem publish_taken : q.publish.taken = q.taken := rfl
@[simp] theorem publish_shadow : q.publish.shadow = q.shadow := rfl
@[simp] theorem publish_inFlight : q.publish.inFlight = q.inFlight ++ [q.taken] := rfl
@[simp] theorem arrive_sent : (q.arrive hu).sent = q.sent := rfl
@[simp] theorem arrive_taken : (q.arrive hu).taken = q.taken := rfl
@[simp] theorem arrive_shadow : (q.arrive hu).shadow = u := rfl
@[simp] theorem arrive_inFlight : (q.arrive hu).inFlight = us := rfl

@[simp] theorem publishIf_sent (b : Bool) : (q.publishIf b).sent = q.sent := by
  cases b <;> rfl

@[simp] theorem publishIf_taken (b : Bool) : (q.publishIf b).taken = q.taken := by
  cases b <;> rfl

@[simp] theorem publishIf_shadow (b : Bool) : (q.publishIf b).shadow = q.shadow := by
  cases b <;> rfl

@[simp] theorem publishIf_inFlight (b : Bool) :
    (q.publishIf b).inFlight = q.inFlight ++ if b then [q.taken] else [] := by
  cases b
  · exact (List.append_nil _).symm
  · rfl

end Simp

theorem push_sent_cases {a x : α} {hf : ¬ q.Full} (h : (q.push a hf).sent[i]? = some x) :
    q.sent[i]? = some x ∨ i = q.sent.length ∧ x = a := by
  rw [push_sent, List.getElem?_append] at h
  split at h
  · exact Or.inl h
  · rename_i hi
    obtain ⟨hlt, hx⟩ := List.getElem?_eq_some_iff.mp h
    have h0 : i - q.sent.length = 0 := by simpa using hlt
    refine Or.inr ⟨by omega, ?_⟩
    simpa [h0] using hx.symm

theorem freeSlot_of_push {a : α} {hf : ¬ q.Full} (h : (q.push a hf).FreeSlot j) :
    q.FreeSlot j ∧ j ≠ q.sent.length % cap := by
  refine ⟨fun i hi hlt => h i hi ?_, fun he => h _ q.taken_le ?_ he.symm⟩
  · rw [push_sent, List.length_append]
    omega
  · simp

theorem freeSlot_of_pop {hp : q.taken < q.sent.length} (h : (q.pop hp).FreeSlot j)
    (hj : j ≠ q.taken % cap) : q.FreeSlot j := by
  intro i hi hlt
  rcases Nat.eq_or_lt_of_le hi with rfl | hgt
  · exact hj.symm
  · exact h i hgt hlt

/-- The newest position that the writer has seen or is about to see. -/
def lastPublished : ℕ := (q.shadow :: q.inFlight).getLast (by simp)

theorem lastPublished_of_inFlight_nil (h : q.inFlight = []) : q.lastPublished = q.shadow := by
  simp [lastPublished, h]

theorem lastPublished_le_taken : q.lastPublished ≤ q.taken := q.le_taken _ (List.getLast_mem _)

@[simp] theorem lastPublished_publish : q.publish.lastPublished = q.taken := by
  simp [lastPublished]

theorem lastPublished_le_publishIf (b : Bool) :
    q.lastPublished ≤ (q.publishIf b).lastPublished := by
  cases b with
  | false => exact le_rfl
  | true =>
    change q.lastPublished ≤ q.publish.lastPublished
    rw [lastPublished_publish]
    exact q.lastPublished_le_taken

theorem lastPublished_arrive {u : ℕ} {us : List ℕ} (h : q.inFlight = u :: us) :
    (q.arrive h).lastPublished = q.lastPublished := by
  simp [lastPublished, h]

theorem not_full_of_lag (h : q.inFlight = [])
    (hlag : q.sent.length + 1 < q.lastPublished + cap) : ¬ q.Full := by
  rw [q.lastPublished_of_inFlight_nil h] at hlag
  intro hfull
  have := q.shadow_le_taken
  have := q.taken_le
  exact RingIndex.mod_ne_of_window (by omega) hlag hfull.symm

end LaggedQueue
