import NtSocks.Lib.BucketWalk
import NtSocks.Ntkv.HashmapFree

/-!
# The iterator of the linked hash map

An iterator counts the keys that it has visited, and stops when there are as many as the map counts.
It goes along the chain of an entry of the table, and from its end to the next entry that is used.
-/

namespace NtSocks.Ntkv

open BlockHeap BucketWalk

variable {K V : Type}

/-- `entry` is the place of the current element: its entry of the table and how far it is along the
chain. -/
structure Iterator where
  entry : Option (ℕ × ℕ)
  iteratorCount : ℕ
  idx : ℕ
  isHead : Bool

def newIterator : Iterator where
  entry := none
  iteratorCount := 0
  idx := 0
  isHead := false

namespace Iterator

variable (m : Hashmap K V) (it : Iterator)

def hasNext : Bool := it.iteratorCount < m.size

def chained : Option (ℕ × ℕ) :=
  it.entry.bind fun (i, k) => if k + 1 < (m.bucket i).cells.length then some (i, k + 1) else none

/-- Without a result the source returns `NULL`. -/
def next : Option Iterator :=
  if it.hasNext m then
    match it.chained m with
    | some entry =>
      some { it with
        iteratorCount := it.iteratorCount + 1
        entry := some entry
        isHead := false }
    | none =>
      (scan (fun i => (m.bucket i).cells) (m.tableSize - it.idx) it.idx).map fun i =>
        { entry := some (i, 0), iteratorCount := it.iteratorCount + 1, idx := i + 1,
          isHead := true }
  else none

def current : Option (K × V) := it.entry.bind fun (i, k) => (m.bucket i).cells[k]?

def visitAll (fuel : ℕ) : Option (List (K × V)) :=
  BucketWalk.visitAll (hasNext m) (next m) (current m) fuel it

def cursor : Cursor := ⟨it.entry, it.idx⟩

variable {m it} {e : K × V} {es : List (K × V)}

theorem next_of_ahead (hmore : it.hasNext m = true)
    (hahead : it.cursor.ahead (fun i => (m.bucket i).cells) m.tableSize = e :: es) :
    ∃ it', it.next m = some it' ∧ it'.current m = some e ∧
      it'.iteratorCount = it.iteratorCount + 1 ∧
      it'.cursor.ahead (fun i => (m.bucket i).cells) m.tableSize = es := by
  obtain ⟨c, hadvance, helement, hrest⟩ := Cursor.advance_of_ahead hahead
  have hchained : it.chained m = if (it.cursor.chain fun i => (m.bucket i).cells).isEmpty then none
      else it.entry.map fun p => (p.1, p.2 + 1) := by
    rw [chained, Cursor.chain, cursor]
    cases it.entry with
    | none => rfl
    | some p =>
      simp only [Option.bind_some, Option.map_some, List.isEmpty_iff, List.drop_eq_nil_iff]
      by_cases hlt : p.2 + 1 < (m.bucket p.1).cells.length
      · rw [if_pos hlt, if_neg (by omega)]
      · rw [if_neg hlt, if_pos (by omega)]
  rw [Cursor.advance] at hadvance
  rw [next, if_pos hmore, hchained]
  split at hadvance
  · rename_i hempty
    obtain ⟨i, hi, rfl⟩ := Option.map_eq_some_iff.mp hadvance
    rw [if_pos hempty]
    dsimp only
    have hscan : scan (fun i => (m.bucket i).cells) (m.tableSize - it.idx) it.idx = some i := hi
    rw [hscan]
    exact ⟨_, rfl, helement, rfl, hrest⟩
  · rename_i hempty
    obtain ⟨p, hp, rfl⟩ := Option.map_eq_some_iff.mp hadvance
    have hentry : it.entry = some p := hp
    rw [if_neg hempty, hentry]
    exact ⟨_, rfl, helement, rfl, hrest⟩

structure Ahead (m : Hashmap K V) (it : Iterator) (es : List (K × V)) : Prop where
  ahead : it.cursor.ahead (fun i => (m.bucket i).cells) m.tableSize = es
  count : it.iteratorCount + es.length = m.size

theorem visitAll_of_ahead {fuel : ℕ} (h : Ahead m it es) (hfuel : es.length ≤ fuel) :
    it.visitAll m fuel = some es := by
  refine BucketWalk.visitAll_eq ?_ ?_ h hfuel
  · intro it h
    have hcount := h.count
    rw [List.length_nil] at hcount
    rw [hasNext, decide_eq_false_iff_not]
    omega
  · intro it e es h
    have hcount := h.count
    rw [List.length_cons] at hcount
    have hmore : it.hasNext m = true := by
      rw [hasNext, decide_eq_true_iff]
      omega
    obtain ⟨it', hnext, hcurrent, hcount', hahead'⟩ := next_of_ahead hmore h.ahead
    exact ⟨hmore, it', hnext, hcurrent, hahead', by omega⟩

end Iterator

variable {keys : Keys K} {supply : ℕ → Bool} {tableSize : ℕ} {m : Hashmap K V} {h : Heap}
  {s : MapState K V}

/-- After every run of operations on a new map the iterator visits each key with its value once and
stops by itself: as often as the map counts, without ever returning `NULL` before. -/
theorem iterator_visits_each_once (htable : tableSize < 2 ^ 32)
    (hnew : Hashmap.newHashmap tableSize (Heap.empty supply) = .ok (m, h)) {ops : List (MapOp K V)}
    (hrun : Runs.run (MapState.step keys) ⟨m, h⟩ ops = some s) :
    ∃ visited, (∀ fuel, s.map.size ≤ fuel → newIterator.visitAll s.map fuel = some visited) ∧
      visited.length = s.map.size ∧ (s.map.size < 2 ^ 31 → s.map.defaultLen = visited.length) ∧
      visited.Pairwise (fun e e' => keys.text e.1 ≠ keys.text e'.1) ∧
      (∀ e, e ∈ visited ↔ ∃ i < s.map.tableSize, e ∈ (s.map.bucket i).cells) ∧
      ∀ e ∈ visited, s.map.defaultGet keys e.1 = .ok (some e.2) := by
  obtain ⟨hs, -⟩ := MapState.inOrder_of_run htable hnew hrun
  have hlength : s.map.entries.length = s.map.size := hs.sound.size_eq.symm
  refine ⟨s.map.entries, fun fuel hfuel => ?_, hlength, fun hsmall => ?_, ?_,
    fun e => Hashmap.mem_entries, fun e he => ?_⟩
  · have hstart : Iterator.Ahead s.map newIterator s.map.entries := by
      refine ⟨Cursor.ahead_start, ?_⟩
      rw [hlength]
      exact Nat.zero_add _
    exact Iterator.visitAll_of_ahead hstart (hlength ▸ hfuel)
  · rw [Hashmap.defaultLen, if_pos hsmall, hlength]
  · refine hs.placed.distinct_entries.imp fun {e e'} hne heq => ?_
    rw [keys.equal_iff.mpr heq] at hne
    cases hne
  · have hmeets : Faults.Meets (fun _ => True) _ (s.map.defaultGet keys e.1) :=
      hs.placed.defaultGet_meets fun _ => hs.placed.readable he
    obtain ⟨v, hget, rfl⟩ := Faults.exists_of_meets hmeets
    rw [hget, hs.placed.distinct_entries.find_of_mem keys.keyEquiv he ((Keys.keyEquiv _).refl _)]
    rfl

theorem iterator_visits_three : ∃ (m : Hashmap (List UInt8) Bool) (h : Heap)
    (s : MapState (List UInt8) Bool),
    Hashmap.newHashmap 4 (Heap.empty fun _ => true) = .ok (m, h) ∧
    Runs.run (MapState.step byteKeys) ⟨m, h⟩
      [.put [97] true, .put [101] false, .put [98] true] = some s ∧
    newIterator.visitAll s.map 3 = some [([97], true), ([101], false), ([98], true)] := by
  obtain ⟨m, h, s, hnew, hrun, hsize, hentries⟩ : ∃ (m : Hashmap (List UInt8) Bool) (h : Heap)
      (s : MapState (List UInt8) Bool),
      Hashmap.newHashmap 4 (Heap.empty fun _ => true) = .ok (m, h) ∧
      Runs.run (MapState.step byteKeys) ⟨m, h⟩
        [.put [97] true, .put [101] false, .put [98] true] = some s ∧ s.map.size = 3 ∧
      newIterator.visitAll s.map 9 = some [([97], true), ([101], false), ([98], true)] :=
    ⟨_, _, _, rfl, rfl, rfl, by decide⟩
  obtain ⟨visited, hvisit, -⟩ := iterator_visits_each_once (by decide) hnew hrun
  refine ⟨m, h, s, hnew, hrun, ?_⟩
  rw [hvisit 3 hsize.le, ← hvisit 9 (by omega), hentries]

end NtSocks.Ntkv
