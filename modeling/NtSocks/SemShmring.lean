import NtSocks.Lib.GuardedRing
import NtSocks.Lib.RingLog

/-!
# The ring with semaphores

`sem_shmring` is a ring in shared memory for any number of producers and one consumer. All its slots
may be in use, so that equal indices mean an empty or a full ring; the flag `is_full` tells the two
apart. Of the semaphores `buf_count_sem` counts free slots, `spool_signal_sem` counts announced
elements and `mutex_sem` admits one producer at a time: `slots`, `signals` and `mutex` of
`GuardedRing`.

The caller of a push names an element and a length, here the list of these bytes; no more than a
slot is copied. `pushed` and `popped` are histories, read by no step: the bytes that the sections
copied in and out.
-/

namespace NtSocks

open Function

/-- `next_index`, which subtracts the size until the index is below it. -/
def nextIndex (currentIdx maxSize : ℕ) : ℕ := (currentIdx + 1) % maxSize

def memcpyBytes (len : ℕ) (source target : List UInt8) : List UInt8 :=
  source.take len ++ target.drop len

structure SemShmringBuf where
  eleSize : ℕ
  capacity : ℕ
  writeIdx : ℕ
  readIdx : ℕ
  isFull : Bool
  data : ℕ → List UInt8
  pushed : List (List UInt8)
  popped : List (List UInt8)

namespace SemShmringBuf

def create (eleSize capacity : ℕ) (data : ℕ → List UInt8) : SemShmringBuf where
  eleSize := eleSize
  capacity := capacity
  writeIdx := 0
  readIdx := 0
  isFull := false
  data := data
  pushed := []
  popped := []

variable (r : SemShmringBuf)

def clip (eleLen : ℕ) : ℕ := if r.eleSize < eleLen then r.eleSize else eleLen

def push (element : List UInt8) : SemShmringBuf :=
  let eleLen := r.clip element.length
  let writeIdx := nextIndex r.writeIdx r.capacity
  { r with
    data := update r.data r.writeIdx (memcpyBytes eleLen element (r.data r.writeIdx))
    writeIdx := writeIdx
    isFull := if writeIdx = r.readIdx then true else r.isFull
    pushed := r.pushed ++ [element.take eleLen] }

/-- The bytes of the slot at `read_idx` that are copied out for a caller with room for `eleLen`. -/
def nextElement (eleLen : ℕ) : List UInt8 := (r.data r.readIdx).take (r.clip eleLen)

def pop (eleLen : ℕ) : SemShmringBuf :=
  { r with
    isFull := false
    readIdx := nextIndex r.readIdx r.capacity
    popped := r.popped ++ [r.nextElement eleLen] }

/-- `none` is the value `-1`. -/
def semShmringFront (eleLen : ℕ) : Option (List UInt8) :=
  if r.writeIdx = r.readIdx then none else some (r.nextElement eleLen)

def semShmringEmpty : Bool := !r.isFull && r.writeIdx = r.readIdx

def semShmringFull : Bool := r.isFull

def semShmringSize : ℕ :=
  if r.isFull then r.capacity
  else if r.readIdx ≤ r.writeIdx then r.writeIdx - r.readIdx
  else r.capacity + r.writeIdx - r.readIdx

/-- The semaphores are not touched. The histories begin again. -/
def semShmringReset : SemShmringBuf :=
  { r with writeIdx := 0, readIdx := 0, isFull := false, pushed := [], popped := [] }

/-- Of what each pop has handed out, the bytes that its push had written. -/
def elements : List (List UInt8) :=
  List.zipWith (fun element bytes => bytes.take element.length) r.pushed r.popped

def unpopped : ℕ := r.pushed.length - r.popped.length

/-- What the slots held when they were written and when they were read, against the indices, the
flag and the histories. -/
structure Stored (written readOut : List (List UInt8)) : Prop where
  pos : 0 < r.capacity
  log : RingLog r.capacity r.writeIdx r.readIdx r.data written readOut
  pushed : List.Forall₂ (· <+: ·) r.pushed written
  popped : List.Forall₂ (· <+: ·) r.popped readOut
  bound : written.length ≤ readOut.length + r.capacity
  isFull : r.isFull = true ↔ written.length = readOut.length + r.capacity
  slot_length : ∀ i, (r.data i).length = r.eleSize
  written_length : ∀ slot ∈ written, slot.length = r.eleSize

end SemShmringBuf

theorem length_memcpyBytes {len : ℕ} {source target : List UInt8} (hsource : len ≤ source.length)
    (htarget : len ≤ target.length) : (memcpyBytes len source target).length = target.length := by
  rw [memcpyBytes, List.length_append, List.length_take, List.length_drop]
  omega

namespace SemShmringBuf

variable {r : SemShmringBuf} {written readOut : List (List UInt8)} {eleSize capacity : ℕ}

theorem clip_le (r : SemShmringBuf) (eleLen : ℕ) : r.clip eleLen ≤ eleLen := by
  unfold clip
  split <;> omega

theorem clip_le_eleSize (r : SemShmringBuf) (eleLen : ℕ) : r.clip eleLen ≤ r.eleSize := by
  unfold clip
  split <;> omega

namespace Stored

theorem create (hcap : 0 < capacity) {data : ℕ → List UInt8}
    (hdata : ∀ i, (data i).length = eleSize) :
    (SemShmringBuf.create eleSize capacity data).Stored [] [] where
  pos := hcap
  log := RingLog.init _ _
  pushed := List.Forall₂.nil
  popped := List.Forall₂.nil
  bound := Nat.zero_le _
  isFull := by
    have hne : ¬ 0 = 0 + capacity := by omega
    exact iff_of_false Bool.false_ne_true hne
  slot_length := hdata
  written_length := List.forall_mem_nil _

variable (h : r.Stored written readOut)
include h

theorem unpopped_eq : r.unpopped = written.length - readOut.length := by
  rw [unpopped, h.pushed.length_eq, h.popped.length_eq]

theorem readOut_le : readOut.length ≤ written.length :=
  h.log.order.length_le

theorem push (hroom : r.unpopped < r.capacity) (element : List UInt8) :
    (r.push element).Stored (written ++
      [memcpyBytes (r.clip element.length) element (r.data r.writeIdx)]) readOut := by
  have hle := h.readOut_le
  rw [h.unpopped_eq] at hroom
  have hnext : nextIndex r.writeIdx r.capacity = (written.length + 1) % r.capacity := by
    rw [nextIndex, h.log.writeIndex, Nat.mod_add_mod]
  have hslot : (memcpyBytes (r.clip element.length) element (r.data r.writeIdx)).length =
      r.eleSize := by
    rw [length_memcpyBytes (r.clip_le _), h.slot_length]
    rw [h.slot_length]
    exact r.clip_le_eleSize _
  refine ⟨h.pos, ?_, ?_, h.popped, ?_, ?_, ?_, ?_⟩
  · dsimp only [SemShmringBuf.push]
    rw [hnext]
    exact h.log.write (by omega) _
  · apply List.rel_append h.pushed
    exact List.Forall₂.cons (List.prefix_append _ _) List.Forall₂.nil
  · rw [List.length_append, List.length_singleton]
    exact Nat.succ_le_of_lt (by dsimp only [SemShmringBuf.push]; omega)
  · -- the indices meet again exactly when the last free slot was filled
    have hfull : r.isFull = false := by
      rw [← Bool.not_eq_true, h.isFull]
      omega
    have hmeet : (written.length + 1) % r.capacity = readOut.length % r.capacity ↔ _ :=
      RingIndex.mod_eq_iff_of_window (by omega) (by omega)
    dsimp only [SemShmringBuf.push]
    rw [hnext, h.log.readIndex, List.length_append, List.length_singleton, hfull]
    split
    case isTrue hidx => exact iff_of_true rfl ((hmeet.mp hidx).resolve_left (by omega))
    case isFalse hidx =>
      exact iff_of_false Bool.false_ne_true fun hlast => hidx (hmeet.mpr (Or.inr hlast))
  · exact (forall_update_iff r.data fun _ slot => slot.length = _).mpr
      ⟨hslot, fun i _ => h.slot_length i⟩
  · intro slot hmem
    rcases List.mem_append.mp hmem with hold | hnew
    · exact h.written_length slot hold
    · rw [List.mem_singleton.mp hnew]
      exact hslot

theorem pop (hne : 0 < r.unpopped) (eleLen : ℕ) :
    (r.pop eleLen).Stored written (readOut ++ [r.data r.readIdx]) := by
  have hbound := h.bound
  rw [h.unpopped_eq] at hne
  have hnext : nextIndex r.readIdx r.capacity = (readOut.length + 1) % r.capacity := by
    rw [nextIndex, h.log.readIndex, Nat.mod_add_mod]
  refine ⟨h.pos, ?_, h.pushed, ?_, ?_, ?_, h.slot_length, h.written_length⟩
  · dsimp only [SemShmringBuf.pop]
    rw [hnext]
    exact h.log.read (by omega)
  · apply List.rel_append h.popped
    exact List.Forall₂.cons (List.take_prefix _ _) List.Forall₂.nil
  · rw [List.length_append, List.length_singleton]
    dsimp only [SemShmringBuf.pop]
    omega
  · dsimp only [SemShmringBuf.pop]
    rw [List.length_append, List.length_singleton]
    exact iff_of_false Bool.false_ne_true (by omega)

theorem writeIdx_eq_readIdx_iff :
    r.writeIdx = r.readIdx ↔ r.unpopped = 0 ∨ r.unpopped = r.capacity := by
  have hle := h.readOut_le
  rw [h.log.writeIndex, h.log.readIndex, RingIndex.mod_eq_iff_of_window hle h.bound, h.unpopped_eq]
  omega

theorem semShmringFull_iff : r.semShmringFull = true ↔ r.unpopped = r.capacity := by
  have hle := h.readOut_le
  have hpos := h.pos
  rw [semShmringFull, h.isFull, h.unpopped_eq]
  omega

theorem semShmringSize_eq : r.semShmringSize = r.unpopped := by
  have hle := h.readOut_le
  have hbound := h.bound
  have hunpopped := h.unpopped_eq
  unfold semShmringSize
  split
  case isTrue hfull => exact (h.semShmringFull_iff.mp hfull).symm
  case isFalse hfull =>
    rw [h.isFull] at hfull
    have hwrite := Nat.mod_lt written.length h.pos
    have hread := Nat.mod_lt readOut.length h.pos
    have hlt : written.length < readOut.length + r.capacity := by omega
    have hgap := RingIndex.gap_mod hle hlt
    rw [h.log.writeIndex, h.log.readIndex, hunpopped]
    split
    case isTrue horder =>
      have hwrap : r.capacity ≤
        written.length % r.capacity + r.capacity - readOut.length % r.capacity := by omega
      rw [Nat.mod_eq_sub_mod hwrap, Nat.mod_eq_of_lt (by omega)] at hgap
      omega
    case isFalse horder =>
      have hshort : written.length % r.capacity + r.capacity - readOut.length % r.capacity <
        r.capacity := by omega
      rw [Nat.mod_eq_of_lt hshort] at hgap
      omega

theorem semShmringEmpty_iff : r.semShmringEmpty = true ↔ r.unpopped = 0 := by
  have hpos := h.pos
  have hfull := h.semShmringFull_iff
  rw [semShmringFull] at hfull
  rw [semShmringEmpty, Bool.and_eq_true, Bool.not_eq_true', ← Bool.not_eq_true, hfull,
    decide_eq_true_iff, h.writeIdx_eq_readIdx_iff]
  omega

theorem prefix_slot {k : ℕ} (hk : k < r.pushed.length)
    (hle : r.popped.length ≤ k) : r.pushed[k] <+: r.data (k % r.capacity) := by
  have hkw : k < written.length := by
    rw [← h.pushed.length_eq]
    exact hk
  rw [h.log.unread k hkw (by rw [← h.popped.length_eq]; exact hle)]
  exact h.pushed.get hk hkw

theorem prefix_or_prefix {i : ℕ} (hi : i < r.popped.length) (hi' : i < r.pushed.length) :
    r.popped[i] <+: r.pushed[i] ∨ r.pushed[i] <+: r.popped[i] := by
  have hread : i < readOut.length := by
    rw [← h.popped.length_eq]
    exact hi
  have hwritten : i < written.length := lt_of_lt_of_le hread h.readOut_le
  have hsame : readOut[i] = written[i] := h.log.order.getElem hread
  have hpopped : r.popped[i] <+: readOut[i] := h.popped.get hi hread
  have hpushed : r.pushed[i] <+: written[i] := h.pushed.get hi' hwritten
  rw [hsame] at hpopped
  exact List.prefix_or_prefix_of_prefix hpopped hpushed

end Stored

theorem Stored.elements_eq (h : r.Stored written readOut) :
    r.elements = List.zipWith (fun element len => element.take len) r.pushed
      (r.popped.map List.length) := by
  rw [elements, List.zipWith_map_right]
  apply List.ext_getElem
  · rw [List.length_zipWith, List.length_zipWith]
  · intro i hi _
    rw [List.length_zipWith] at hi
    rw [List.getElem_zipWith, List.getElem_zipWith]
    rcases h.prefix_or_prefix (i := i) (by omega) (by omega) with hpre | hpre
    · rw [List.take_of_length_le hpre.length_le]
      exact List.prefix_iff_eq_take.mp hpre
    · rw [List.take_of_length_le (l := r.pushed[i]) hpre.length_le]
      exact (List.prefix_iff_eq_take.mp hpre).symm

theorem eq_of_forall₂_isPrefix {xs ys : List (List UInt8)} (h : List.Forall₂ (· <+: ·) xs ys)
    {n : ℕ} (hxs : ∀ x ∈ xs, x.length = n) (hys : ∀ y ∈ ys, y.length = n) : xs = ys := by
  induction h with
  | nil => rfl
  | cons hxy _ ih =>
    rw [hxy.eq_of_length ((hxs _ List.mem_cons_self).trans (hys _ List.mem_cons_self).symm),
      ih (fun x hx => hxs x (List.mem_cons_of_mem _ hx))
        (fun y hy => hys y (List.mem_cons_of_mem _ hy))]

/-- Where only whole elements are pushed and popped, they come out as they went in. -/
theorem Stored.popped_prefix (h : r.Stored written readOut)
    (hpushed : ∀ element ∈ r.pushed, element.length = r.eleSize)
    (hpopped : ∀ element ∈ r.popped, element.length = r.eleSize) : r.popped <+: r.pushed := by
  have hread : ∀ slot ∈ readOut, slot.length = r.eleSize :=
    fun slot hslot => h.written_length slot (h.log.order.subset hslot)
  rw [eq_of_forall₂_isPrefix h.pushed hpushed h.written_length,
    eq_of_forall₂_isPrefix h.popped hpopped hread]
  exact h.log.order

def Sound (eleSize capacity : ℕ) (r : SemShmringBuf) : Prop :=
  r.eleSize = eleSize ∧ r.capacity = capacity ∧ ∃ written readOut, r.Stored written readOut

/-- The rings differ in the bytes of their slots at most, and in what these bytes have brought into
the pops. -/
structure Alike (r r' : SemShmringBuf) : Prop where
  eleSize : r.eleSize = r'.eleSize
  capacity : r.capacity = r'.capacity
  writeIdx : r.writeIdx = r'.writeIdx
  readIdx : r.readIdx = r'.readIdx
  isFull : r.isFull = r'.isFull
  slots : ∀ i, (r.data i).length = (r'.data i).length
  pushed : r.pushed = r'.pushed
  popped : r.popped.map List.length = r'.popped.map List.length

namespace Alike

variable {r' : SemShmringBuf}

theorem clip (h : r.Alike r') (eleLen : ℕ) : r.clip eleLen = r'.clip eleLen := by
  rw [SemShmringBuf.clip, SemShmringBuf.clip, h.eleSize]

theorem push (h : r.Alike r') (element : List UInt8) :
    (r.push element).Alike (r'.push element) where
  eleSize := h.eleSize
  capacity := h.capacity
  writeIdx := by
    dsimp only [SemShmringBuf.push]
    rw [h.writeIdx, h.capacity]
  readIdx := h.readIdx
  isFull := by
    dsimp only [SemShmringBuf.push]
    rw [h.writeIdx, h.capacity, h.readIdx, h.isFull]
  slots := by
    intro i
    dsimp only [SemShmringBuf.push]
    rw [h.writeIdx, h.clip]
    by_cases hi : i = r'.writeIdx
    · rw [hi, update_self, update_self, memcpyBytes, memcpyBytes,
        List.length_append, List.length_append, List.length_drop, List.length_drop, h.slots]
    · rw [update_of_ne hi, update_of_ne hi]
      exact h.slots i
  pushed := by
    dsimp only [SemShmringBuf.push]
    rw [h.pushed, h.clip]
  popped := h.popped

theorem pop (h : r.Alike r') (eleLen : ℕ) : (r.pop eleLen).Alike (r'.pop eleLen) where
  eleSize := h.eleSize
  capacity := h.capacity
  writeIdx := h.writeIdx
  readIdx := by
    dsimp only [SemShmringBuf.pop]
    rw [h.readIdx, h.capacity]
  isFull := rfl
  slots := h.slots
  pushed := h.pushed
  popped := by
    dsimp only [SemShmringBuf.pop, nextElement]
    rw [List.map_append, List.map_append, h.popped, List.map_singleton, List.map_singleton,
      List.length_take, List.length_take, h.clip, h.readIdx, h.slots]

theorem semShmringSize (h : r.Alike r') : r.semShmringSize = r'.semShmringSize := by
  rw [SemShmringBuf.semShmringSize, SemShmringBuf.semShmringSize, h.isFull, h.capacity, h.writeIdx,
    h.readIdx]

theorem elements (h : r.Alike r') (hr : Sound eleSize capacity r)
    (hr' : Sound eleSize capacity r') : r.elements = r'.elements := by
  obtain ⟨-, -, written, readOut, hstored⟩ := hr
  obtain ⟨-, -, written', readOut', hstored'⟩ := hr'
  rw [hstored.elements_eq, hstored'.elements_eq, h.pushed, h.popped]

end Alike

def sections : GuardedRing.Sections (List UInt8) ℕ SemShmringBuf where
  write := fun element r => r.push element
  read := fun eleLen r => r.pop eleLen

theorem sections_lawful (eleSize capacity : ℕ) :
    GuardedRing.Lawful sections capacity (Sound eleSize capacity) unpopped where
  write := by
    rintro r element ⟨hsize, hcap, written, readOut, h⟩ hroom
    exact ⟨hsize, hcap, _, _, h.push (hcap ▸ hroom) element⟩
  size_write := by
    rintro r element ⟨-, hcap, written, readOut, h⟩ hroom
    have hle := h.readOut_le
    rw [h.unpopped_eq] at hroom ⊢
    rw [sections, (h.push (by rw [h.unpopped_eq, hcap]; exact hroom) element).unpopped_eq,
      List.length_append, List.length_singleton]
    omega
  read := by
    rintro r eleLen ⟨hsize, hcap, written, readOut, h⟩ hne
    exact ⟨hsize, hcap, _, _, h.pop hne eleLen⟩
  size_read := by
    rintro r eleLen ⟨-, -, written, readOut, h⟩ hne
    rw [sections, (h.pop hne eleLen).unpopped_eq, List.length_append, List.length_singleton]
    rw [h.unpopped_eq] at hne ⊢
    omega

end SemShmringBuf

abbrev SemShmring (P : Type*) := GuardedRing.State P (List UInt8) SemShmringBuf

namespace SemShmring

open GuardedRing (Action Guarded State popCall pushCall)
open SemShmringBuf (sections)

variable {P : Type*}

def create (P : Type*) (eleSize capacity : ℕ) (data : ℕ → List UInt8) : SemShmring P :=
  State.init P (List UInt8) capacity (SemShmringBuf.create eleSize capacity data)

variable [DecidableEq P] [Fintype P] {s : SemShmring P} {eleSize capacity : ℕ}
  {data : ℕ → List UInt8} {as : List (Action P (List UInt8) ℕ)}

theorem guarded_of_run (hcap : 0 < capacity) (hdata : ∀ i, (data i).length = eleSize)
    (hrun : Runs.run (State.step sections) (create P eleSize capacity data) as = some s) :
    Guarded capacity (SemShmringBuf.Sound eleSize capacity) SemShmringBuf.unpopped s := by
  have hsound : SemShmringBuf.Sound eleSize capacity
      (SemShmringBuf.create eleSize capacity data) :=
    ⟨rfl, rfl, [], [], SemShmringBuf.Stored.create hcap hdata⟩
  exact (Guarded.init hsound rfl).run (SemShmringBuf.sections_lawful eleSize capacity) hrun

/-- In every interleaving the ring is a bounded queue. What is popped was pushed, in the order of
the critical sections and each element once, as far as the lengths of the two calls go and entirely
for whole elements; once no new call is made the parties come to rest with every element popped. One
producer at a time is in its section, the slot that it writes holds no element still to be popped,
and those slots begin with their elements. The three queries tell how many there are. -/
theorem sem_shmring_bounded_queue (hcap : 0 < capacity) (hdata : ∀ i, (data i).length = eleSize)
    (hrun : Runs.run (State.step sections) (create P eleSize capacity data) as = some s) :
    (s.ring.popped.length ≤ s.ring.pushed.length ∧
      (∀ i (hi : i < s.ring.popped.length) (hi' : i < s.ring.pushed.length),
        s.ring.popped[i] <+: s.ring.pushed[i] ∨ s.ring.pushed[i] <+: s.ring.popped[i]) ∧
      ((∀ element ∈ s.ring.pushed ++ s.ring.popped, element.length = eleSize) →
        s.ring.popped <+: s.ring.pushed)) ∧
    (∀ bs t, Runs.run (State.step sections) s bs = some t → (∀ b ∈ bs, b.starts = false) →
      bs.length ≤ s.stepsLeft ∧
        ((∀ a : Action P (List UInt8) ℕ, a.proceeds = true → State.step sections t a = none) →
          t.ring.popped.length = t.ring.pushed.length)) ∧
    ((∀ p q e e', s.producer p = .critical e → s.producer q = .critical e' → p = q) ∧
      (∀ p e, s.producer p = .critical e → ∀ k, s.ring.popped.length ≤ k →
        k < s.ring.pushed.length → k % capacity ≠ s.ring.writeIdx) ∧
      (∀ k (hk : k < s.ring.pushed.length), s.ring.popped.length ≤ k →
        s.ring.pushed[k] <+: s.ring.data (k % capacity))) ∧
    s.ring.semShmringSize = s.ring.pushed.length - s.ring.popped.length ∧
    (s.ring.semShmringEmpty = true ↔ s.ring.pushed.length - s.ring.popped.length = 0) ∧
    (s.ring.semShmringFull = true ↔ s.ring.pushed.length - s.ring.popped.length = capacity) := by
  have hs := guarded_of_run hcap hdata hrun
  obtain ⟨heleSize, hcapacity, written, readOut, h⟩ := hs.inv
  have hle : s.ring.popped.length ≤ s.ring.pushed.length := by
    rw [h.pushed.length_eq, h.popped.length_eq]
    exact h.readOut_le
  refine ⟨⟨hle, fun i hi hi' => h.prefix_or_prefix hi hi', ?_⟩, ?_, ⟨?_, ?_, ?_⟩,
    h.semShmringSize_eq, h.semShmringEmpty_iff, ?_⟩
  · intro hwhole
    rw [← heleSize] at hwhole
    exact h.popped_prefix (fun e he => hwhole e (List.mem_append_left _ he))
      fun e he => hwhole e (List.mem_append_right _ he)
  · intro bs t hbs hstarts
    refine ⟨GuardedRing.length_le_stepsLeft hbs hstarts, fun hrest => ?_⟩
    have ht := hs.run (SemShmringBuf.sections_lawful eleSize capacity) hbs
    have hzero := ht.size_eq_zero_of_rest hrest
    obtain ⟨-, -, written', readOut', h'⟩ := ht.inv
    have hle' := h'.readOut_le
    rw [h'.unpopped_eq] at hzero
    rw [h'.pushed.length_eq, h'.popped.length_eq]
    omega
  · exact fun p q e e' hp hq => hs.critical_unique hp hq
  · intro p e hp k hpopped hpushed
    have hroom := hs.room hp
    rw [SemShmringBuf.unpopped] at hroom
    rw [h.log.writeIndex, hcapacity, ← h.pushed.length_eq]
    exact RingIndex.mod_ne_of_window hpushed (by omega)
  · intro k hk hpopped
    rw [← hcapacity]
    exact h.prefix_slot hk hpopped
  · rw [h.semShmringFull_iff, hcapacity, SemShmringBuf.unpopped]

def crossedPushes : List (Action Bool (List UInt8) ℕ) :=
  [.push false [7, 8], .push true [9], .waitSlots false, .waitSlots true, .waitMutex true,
    .writeSection true, .postMutex true, .waitMutex false, .writeSection false, .postMutex false,
    .postSignals false, .waitSignals, .readSection 2, .postSlots]

theorem crossedPushes_bounded_queue :
    ∃ s, Runs.run (State.step sections) (create Bool 2 2 fun _ => [0, 0]) crossedPushes = some s ∧
      s.ring.pushed = [[9], [7, 8]] ∧ s.ring.popped = [[9, 0]] ∧
      s.ring.semShmringSize = s.ring.pushed.length - s.ring.popped.length := by
  obtain ⟨s, hrun, hpushed, hpopped⟩ : ∃ s, Runs.run (State.step sections)
      (create Bool 2 2 fun _ => [0, 0]) crossedPushes = some s ∧
      s.ring.pushed = [[9], [7, 8]] ∧ s.ring.popped = [[9, 0]] := ⟨_, rfl, rfl, rfl⟩
  have hdata : ∀ i : ℕ, ((fun _ => [0, 0] : ℕ → List UInt8) i).length = 2 := fun _ => rfl
  obtain ⟨-, -, -, hsize, -⟩ := sem_shmring_bounded_queue (by decide) hdata hrun
  exact ⟨s, hrun, hpushed, hpopped, hsize⟩

def semShmringReset (s : SemShmring P) : SemShmring P := { s with ring := s.ring.semShmringReset }

/-- What the callers see of a ring: how many elements it has and which ones came out. -/
def observe (s : SemShmring P) : ℕ × List (List UInt8) := (s.ring.semShmringSize, s.ring.elements)

/-- After every sequence of steps the two rings show the same, or neither allows the sequence. -/
def Behaves (s t : SemShmring P) : Prop :=
  ∀ bs : List (Action P (List UInt8) ℕ),
    (Runs.run (State.step sections) s bs).map observe =
      (Runs.run (State.step sections) t bs).map observe

theorem behaves_create (hcap : 0 < capacity) {data data' : ℕ → List UInt8}
    (hdata : ∀ i, (data i).length = eleSize) (hdata' : ∀ i, (data' i).length = eleSize) :
    Behaves (create P eleSize capacity data) (create P eleSize capacity data') := by
  intro bs
  have hring : (SemShmringBuf.create eleSize capacity data).Alike
      (SemShmringBuf.create eleSize capacity data') :=
    ⟨rfl, rfl, rfl, rfl, rfl, fun i => (hdata i).trans (hdata' i).symm, rfl, rfl⟩
  have halike : GuardedRing.Alike SemShmringBuf.Alike (create P eleSize capacity data)
      (create P eleSize capacity data') := ⟨rfl, rfl, rfl, rfl, rfl, rfl, hring⟩
  have hwrite : ∀ e r r', SemShmringBuf.Alike r r' →
      SemShmringBuf.Alike (sections.write e r) (sections.write e r') := fun e _ _ h => h.push e
  have hruns := halike.run hwrite (fun eleLen _ _ h => h.pop eleLen) bs
  cases hs : Runs.run (State.step sections) (create P eleSize capacity data) bs with
  | none =>
    rw [hs] at hruns
    generalize Runs.run _ (create P eleSize capacity data') bs = after at hruns ⊢
    cases hruns
    rfl
  | some s =>
    cases ht : Runs.run (State.step sections) (create P eleSize capacity data') bs with
    | none =>
      rw [hs, ht] at hruns
      cases hruns
    | some t =>
      rw [hs, ht] at hruns
      cases hruns with
      | some h =>
        have hsound := (guarded_of_run hcap hdata hs).inv
        have hsound' := (guarded_of_run hcap hdata' ht).inv
        rw [Option.map_some, Option.map_some, observe, observe, h.ring.semShmringSize,
          h.ring.elements hsound hsound']

/-- A reset ring with no call under way behaves like a new one of its capacity if and only if it
held no element at the reset and no failed push has kept a slot: the semaphores stay as they were.
-/
theorem reset_behaves_iff (hcap : 0 < capacity) (hdata : ∀ i, (data i).length = eleSize)
    (hrun : Runs.run (State.step sections) (create P eleSize capacity data) as = some s)
    (hquiet : s.Quiet) {data' : ℕ → List UInt8} (hdata' : ∀ i, (data' i).length = eleSize) :
    Behaves (semShmringReset s) (create P eleSize capacity data') ↔
      s.ring.pushed.length - s.ring.popped.length = 0 ∧ s.lost = 0 := by
  have hs := guarded_of_run hcap hdata hrun
  obtain ⟨hslots, hsignals, hmutex⟩ := hs.of_quiet hquiet
  rw [SemShmringBuf.unpopped] at hslots hsignals
  constructor
  · intro hbehaves
    have hempty : s.ring.pushed.length - s.ring.popped.length = 0 := by
      -- a pop would not wait
      by_contra hne
      have hpop := hbehaves [.waitSignals]
      have hready : 0 < (semShmringReset s).signals := by
        change 0 < s.signals
        omega
      have hstands : (semShmringReset s).consumer = .atSignals := hquiet.2
      simp [Runs.run_cons, State.step, hstands, hready, create, State.init] at hpop
    refine ⟨hempty, ?_⟩
    -- fewer pushes would go through than slots are there
    by_contra hlost
    rcases isEmpty_or_nonempty P with hP | ⟨⟨p⟩⟩
    · exact hlost (GuardedRing.lost_of_isEmpty hrun)
    · have hidle : (semShmringReset s).producer p = .idle := hquiet.1 p
      have hidle' : (create P eleSize capacity data').producer p = .idle := rfl
      have hpushes := congrArg Option.isSome (hbehaves (GuardedRing.failingPushes p [] capacity))
      rw [Option.isSome_map, Option.isSome_map, Bool.eq_iff_iff,
        GuardedRing.run_failingPushes_isSome_iff hidle,
        GuardedRing.run_failingPushes_isSome_iff hidle'] at hpushes
      have hless : capacity ≤ s.slots := hpushes.mpr le_rfl
      omega
  · rintro ⟨hempty, hlost⟩
    obtain ⟨heleSize, hcapacity, written, readOut, h⟩ := hs.inv
    have hnew : semShmringReset s = create P eleSize capacity s.ring.data := by
      obtain ⟨hproducers, hconsumer⟩ := hquiet
      obtain ⟨slots, signals, mutex, ring, producer, consumer, lost⟩ := s
      obtain rfl : producer = fun _ => .idle := funext hproducers
      simp only at hslots hsignals hmutex hconsumer hlost hempty heleSize hcapacity
      simp only [semShmringReset, SemShmringBuf.semShmringReset, create, State.init,
        SemShmringBuf.create, heleSize, hcapacity, hconsumer, hlost, hmutex, hsignals, hempty]
      congr
      omega
    rw [hnew]
    exact behaves_create hcap (fun i => (h.slot_length i).trans heleSize) hdata'

theorem reset_after_pop :
    ∃ s, Runs.run (State.step sections) (create (Fin 1) 1 2 fun _ => [0])
        (pushCall 0 [5] ++ popCall 1) = some s ∧
      s.Quiet ∧ Behaves (semShmringReset s) (create (Fin 1) 1 2 fun _ => [0]) := by
  obtain ⟨s, hrun, hquiet, hempty, hlost⟩ : ∃ s, Runs.run (State.step sections)
      (create (Fin 1) 1 2 fun _ => [0]) (pushCall 0 [5] ++ popCall 1) = some s ∧ s.Quiet ∧
      s.ring.pushed.length - s.ring.popped.length = 0 ∧ s.lost = 0 :=
    ⟨_, rfl, ⟨Fin.forall_fin_one.mpr rfl, rfl⟩, rfl, rfl⟩
  have hdata : ∀ i : ℕ, ((fun _ => [0] : ℕ → List UInt8) i).length = 1 := fun _ => rfl
  exact ⟨s, hrun, hquiet,
    (reset_behaves_iff (by decide) hdata hrun hquiet hdata).mpr ⟨hempty, hlost⟩⟩

/-- The element is still there at the reset: the next pop does not wait. -/
theorem reset_keeps_signal :
    ∃ s, Runs.run (State.step sections) (create (Fin 1) 1 2 fun _ => [0])
        (pushCall 0 [5]) = some s ∧
      s.Quiet ∧ (semShmringReset s).ring.semShmringEmpty = true ∧
      (Runs.run (State.step sections) (semShmringReset s) (popCall 1)).isSome = true ∧
      Runs.run (State.step sections) (create (Fin 1) 1 2 fun _ => [0]) (popCall 1) = none ∧
      ¬ Behaves (semShmringReset s) (create (Fin 1) 1 2 fun _ => [0]) := by
  refine ⟨_, rfl, ⟨Fin.forall_fin_one.mpr rfl, rfl⟩, rfl, rfl, rfl, fun hbehaves => ?_⟩
  cases congrArg Option.isSome (hbehaves (popCall 1))

end SemShmring

end NtSocks
