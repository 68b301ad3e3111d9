import NtSocks.Lib.BlockHeap
import NtSocks.Lib.LittleEndian

/-!
# Batches of items

Items are collected in a queue that counts them and the bytes that they will take. A queue that
reaches its maximum is written out: a header with the number of bytes, and for each item its two
lengths, its key and its value. The client writes its requests this way and the server the replies
to a batch of gets; they differ in where the bytes of an item lie.
-/

namespace NtSocks.Ntkv

open BlockHeap Faults LittleEndian

def batchQueueSize : ℕ := 10

def dataHeaderSize : ℕ := 4

def batchHeaderSize : ℕ := 5

structure BatchNode (D : Type) where
  keyLen : ℕ
  valueLen : ℕ
  data : D

def BatchNode.size {D : Type} (item : BatchNode D) : ℕ :=
  dataHeaderSize + item.keyLen + item.valueLen

def BatchNode.encode {D : Type} (item : BatchNode D) (bytes : List UInt8) : List UInt8 :=
  LittleEndian.encode 2 item.keyLen ++ LittleEndian.encode 2 item.valueLen ++ bytes

/-- A batch message and a batch reply begin with a byte and the number of bytes that follow. -/
def batchHeader (first : UInt8) (dataLen : ℕ) : List UInt8 := first :: LittleEndian.encode 4 dataLen

structure BatchData (D : Type) where
  maxQueueSize : ℕ
  queueSize : ℕ
  dataSize : ℕ
  items : List (BatchNode D)

namespace BatchData

variable {D : Type}

def init (queueSize : ℕ) : BatchData D where
  maxQueueSize := if 0 < queueSize then queueSize else 1000
  queueSize := 0
  dataSize := 0
  items := []

variable (q : BatchData D)

def append (item : BatchNode D) : BatchData D :=
  { q with
    queueSize := (q.queueSize + 1) % 2 ^ 32
    dataSize := (q.dataSize + item.size) % 2 ^ 32
    items := q.items ++ [item] }

def Full : Prop := q.maxQueueSize ≤ q.queueSize

instance : Decidable q.Full := inferInstanceAs (Decidable (_ ≤ _))

/-- `batch_pop` of a queue whose counter is not 0; the caller reads the item without a check. -/
def pop : Except Fault (BatchNode D × BatchData D) :=
  match q.items with
  | [] => .error .nullPointer
  | item :: items =>
    .ok (item, { q with
      queueSize := (q.queueSize + (2 ^ 32 - 1)) % 2 ^ 32
      dataSize := (q.dataSize + (2 ^ 32 - item.size % 2 ^ 32)) % 2 ^ 32
      items := items })

/-- The loop that empties the queue, with the function that reads the bytes of an item. -/
def drain (read : BatchNode D → Except Fault (List UInt8)) :
    ℕ → BatchData D → Except Fault (List UInt8 × BatchData D)
  | 0, q => .ok ([], q)
  | n + 1, q => do
      let (item, q) ← q.pop
      let bytes ← read item
      let (rest, q) ← drain read n q
      pure (item.encode bytes ++ rest, q)

/-- `batch_write` and `batch_write_get_reply`: the buffer has room for `data_size` bytes behind the
header and was filled with zeros. -/
def write (read : BatchNode D → Except Fault (List UInt8)) (first : UInt8) :
    Except Fault (List UInt8 × BatchData D) := do
  let (body, q') ← drain read q.queueSize q
  check (body.length ≤ q.dataSize) .badWrite
  pure (batchHeader first q.dataSize ++ body ++ List.replicate (q.dataSize - body.length) 0, q')

structure Counted : Prop where
  queueSize : q.queueSize = q.items.length
  dataSize : q.dataSize = (q.items.map BatchNode.size).sum
  queueSize_lt : q.queueSize < 2 ^ 32
  dataSize_lt : q.dataSize < 2 ^ 32

variable {q} {read : BatchNode D → Except Fault (List UInt8)} {bad : Fault → Prop}
  {bytes : BatchNode D → List UInt8} {item : BatchNode D} {n : ℕ}

theorem sum_map_le {α : Type} {f : α → ℕ} {l : List α} (hle : ∀ a ∈ l, f a ≤ n) :
    (l.map f).sum ≤ l.length * n := by
  simpa using List.sum_le_card_nsmul (l.map f) n (by simpa using hle)

theorem Counted.pop {items : List (BatchNode D)} (hq : q.Counted) (hitems : q.items = item :: items)
    :
    ∃ q', q.pop = .ok (item, q') ∧ q'.Counted ∧ q'.items = items ∧
      q'.maxQueueSize = q.maxQueueSize := by
  obtain ⟨hqueue, hdata, hqueue_lt, hdata_lt⟩ := hq
  rw [hitems, List.length_cons] at hqueue
  rw [hitems, List.map_cons, List.sum_cons] at hdata
  rw [BatchData.pop, hitems]
  refine ⟨_, rfl, ⟨?_, ?_, Nat.mod_lt _ (by norm_num), Nat.mod_lt _ (by norm_num)⟩, rfl, rfl⟩
  · dsimp only
    omega
  · dsimp only
    omega

theorem Counted.drain (hq : q.Counted) (hread : ∀ item ∈ q.items, read item = .ok (bytes item)) :
    ∃ q', drain read q.queueSize q =
        .ok (q.items.flatMap fun item => item.encode (bytes item), q') ∧
      q'.Counted ∧ q'.items = [] ∧ q'.maxQueueSize = q.maxQueueSize := by
  rw [hq.queueSize]
  generalize hl : q.items = l at hread
  induction l generalizing q with
  | nil => exact ⟨q, rfl, hq, hl, rfl⟩
  | cons item items ih =>
    obtain ⟨q₁, hpop, hq₁, hitems₁, hmax₁⟩ := hq.pop hl
    obtain ⟨q', hdrain, hq', hitems', hmax'⟩ :=
      ih hq₁ hitems₁ fun i hi => hread i (List.mem_cons_of_mem _ hi)
    refine ⟨q', ?_, hq', hitems', hmax'.trans hmax₁⟩
    rw [List.length_cons, BatchData.drain, hpop]
    change (read item).bind _ = _
    rw [hread item List.mem_cons_self]
    change (BatchData.drain read items.length q₁).bind _ = _
    rw [hdrain]
    rfl

theorem BatchNode.length_encode (item : BatchNode D) (bytes : List UInt8) :
    (item.encode bytes).length = dataHeaderSize + bytes.length := by
  simp only [BatchNode.encode, List.length_append, LittleEndian.length_encode, dataHeaderSize]

/-- What is written for a queue whose counters are right and whose items have the bytes that their
lengths announce: the header says how many bytes follow. -/
theorem Counted.write (hq : q.Counted) (hread : ∀ item ∈ q.items, read item = .ok (bytes item))
    (hlen : ∀ item ∈ q.items, (bytes item).length = item.keyLen + item.valueLen) (first : UInt8) :
    ∃ q', q.write read first = .ok (batchHeader first q.dataSize ++
        (q.items.flatMap fun item => item.encode (bytes item)), q') ∧
      (q.items.flatMap fun item => item.encode (bytes item)).length = q.dataSize ∧
      q'.Counted ∧ q'.items = [] ∧ q'.maxQueueSize = q.maxQueueSize := by
  have hsize : (q.items.flatMap fun item => item.encode (bytes item)).length = q.dataSize := by
    rw [List.length_flatMap, hq.dataSize]
    refine congrArg List.sum (List.map_congr_left fun item hitem => ?_)
    rw [BatchNode.length_encode, hlen item hitem, BatchNode.size, Nat.add_assoc]
  obtain ⟨q', hdrain, hq', hitems', hmax'⟩ := hq.drain hread
  refine ⟨q', ?_, hsize, hq', hitems', hmax'⟩
  rw [BatchData.write, hdrain]
  change (check _ _).bind _ = _
  rw [check, if_pos hsize.le]
  change Except.ok _ = _
  rw [hsize, Nat.sub_self, List.replicate_zero, List.append_nil]

def bytesOf (read : BatchNode D → Except Fault (List UInt8)) (item : BatchNode D) : List UInt8 :=
  (read item).toOption.getD []

theorem read_bytesOf {bytes : List UInt8} (hread : read item = .ok bytes) :
    read item = .ok (bytesOf read item) := by
  rw [bytesOf, hread]
  rfl

theorem readable_of_drain {r : List UInt8 × BatchData D} (hn : q.items.length = n)
    (hdrain : drain read n q = .ok r) : ∀ item ∈ q.items, read item = .ok (bytesOf read item) := by
  induction n generalizing q r with
  | zero =>
    rw [List.length_eq_zero_iff.mp hn]
    exact nofun
  | succ n ih =>
    rw [BatchData.drain] at hdrain
    obtain ⟨⟨item, q₁⟩, hpop, hdrain⟩ := bind_eq_ok.mp hdrain
    obtain ⟨bytes, hread, hdrain⟩ := bind_eq_ok.mp hdrain
    obtain ⟨r₁, hrest, -⟩ := bind_eq_ok.mp hdrain
    have hitems : q.items = item :: q₁.items := by
      rw [BatchData.pop] at hpop
      split at hpop
      · cases hpop
      · next hq =>
          cases hpop
          exact hq
    rw [hitems, List.length_cons] at hn
    rw [hitems]
    rintro a (_ | ⟨_, ha⟩)
    · exact read_bytesOf hread
    · exact ih (by omega) hrest a ha

theorem Counted.write_meets (hq : q.Counted)
    (hread : ∀ e, bad e → ∀ item ∈ q.items, ∃ bytes, read item = .ok bytes)
    (hlen : ∀ item ∈ q.items, ∀ bytes, read item = .ok bytes →
      bytes.length = item.keyLen + item.valueLen) (first : UInt8) :
    Meets bad (fun r => (∀ item ∈ q.items, read item = .ok (bytesOf read item)) ∧
        r.1 = batchHeader first q.dataSize ++
          (q.items.flatMap fun item => item.encode (bytesOf read item)) ∧
        (q.items.flatMap fun item => item.encode (bytesOf read item)).length = q.dataSize ∧
        r.2.Counted ∧ r.2.items = [] ∧ r.2.maxQueueSize = q.maxQueueSize)
      (q.write read first) := by
  by_cases hall : ∀ item ∈ q.items, read item = .ok (bytesOf read item)
  · obtain ⟨q', hwrite, hrest⟩ :=
      hq.write hall (fun item hitem => hlen item hitem _ (hall item hitem)) first
    rw [hwrite]
    exact ⟨hall, rfl, hrest⟩
  · cases hwrite : q.write read first with
    | ok r =>
      rw [BatchData.write] at hwrite
      obtain ⟨r', hdrain, -⟩ := bind_eq_ok.mp hwrite
      exact absurd (readable_of_drain hq.queueSize.symm hdrain) hall
    | error e =>
      intro hbad
      refine hall fun item hitem => ?_
      obtain ⟨bytes, hbytes⟩ := hread e hbad item hitem
      exact read_bytesOf hbytes

theorem write_meets (hread : ∀ item, Meets bad (fun _ => True) (read item))
    (hnull : ¬ bad .nullPointer) (hwrite : ¬ bad .badWrite) (q : BatchData D) (first : UInt8) :
    Meets bad (fun _ => True) (q.write read first) := by
  have hdrain : ∀ n, ∀ q : BatchData D, Meets bad (fun _ => True) (BatchData.drain read n q) := by
    intro n
    induction n with
    | zero => exact fun _ => trivial
    | succ n ih =>
      intro q
      have hpop : Meets bad (fun _ => True) q.pop := by
        rw [BatchData.pop]
        split
        · exact hnull
        · trivial
      refine hpop.bind fun r _ => (hread r.1).bind fun bytes _ => (ih r.2).bind fun _ _ => ?_
      trivial
  refine (hdrain q.queueSize q).bind fun r _ => ?_
  exact (check_meets fun hb => absurd hb hwrite).bind fun _ _ => trivial

theorem Counted.append (hq : q.Counted) (hqueue : q.queueSize + 1 < 2 ^ 32)
    (hdata : q.dataSize + item.size < 2 ^ 32) : (q.append item).Counted := by
  refine ⟨?_, ?_, Nat.mod_lt _ (by norm_num), Nat.mod_lt _ (by norm_num)⟩
  · simp only [BatchData.append, List.length_append, List.length_singleton, ← hq.queueSize]
    exact Nat.mod_eq_of_lt hqueue
  · simp only [BatchData.append, List.map_append, List.map_singleton, List.sum_append,
      List.sum_singleton, ← hq.dataSize]
    exact Nat.mod_eq_of_lt hdata

theorem init_counted (queueSize : ℕ) : (init queueSize : BatchData D).Counted :=
  ⟨rfl, rfl, Nat.two_pow_pos 32, Nat.two_pow_pos 32⟩

end BatchData

end NtSocks.Ntkv
