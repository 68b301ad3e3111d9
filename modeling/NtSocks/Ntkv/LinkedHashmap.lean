import NtSocks.Lib.BlockHeap
import NtSocks.Lib.KeyedList

/-!
# The linked hash map of ntkv

A table of `tableSize` entries. The first key of an entry lies in the table itself, the others in
elements that are chained to it and that are blocks of the pool, as the table is. Keys are addresses
of C strings. The table is rebuilt with twice the size when it has as many keys as entries, and with
half of it when fewer than half as many remain.

The rebuilding counts with the number of keys where it goes through the old table: it looks at the
first `size` entries only.
-/

namespace NtSocks.Ntkv

open BlockHeap Faults

inductive MapStatus
  | ok
  | replace
  | missing
  | omem
  | err
  deriving DecidableEq, Repr

def MapStatus.code : MapStatus → UInt8
  | .ok => 0
  | .replace => 1
  | .missing => 2
  | .omem => 3
  | .err => 4

/-- The hash function of a map, and the strings at its keys; an address at which no string can be
read has none. -/
structure Keys (K : Type) where
  hashcode : ℕ → List UInt8 → ℕ
  hashcode_lt : ∀ tableSize s, 0 < tableSize → hashcode tableSize s < tableSize
  text : K → Option (List UInt8)

def hashStep (h : UInt64) (c : UInt8) : UInt64 :=
  let h := (h <<< 4) + UInt64.ofInt c.toInt8.toInt
  let g := h &&& 0xF0000000
  let h := if g ≠ 0 then h ^^^ (g >>> 24) else h
  h &&& ~~~g

def defaultHashcode (tableSize : ℕ) (s : List UInt8) : ℕ := (s.foldl hashStep 0).toNat % tableSize

theorem defaultHashcode_lt (tableSize : ℕ) (s : List UInt8) (hpos : 0 < tableSize) :
    defaultHashcode tableSize s < tableSize := Nat.mod_lt _ hpos

structure Ele (K V : Type) where
  addr : ℕ
  key : K
  value : V

/-- A place of the table; it is unused where the source has a null key. -/
inductive Entry (K V : Type)
  | unused
  | used (key : K) (value : V) (next : List (Ele K V))

namespace Entry

variable {K V : Type}

def cells : Entry K V → List (K × V)
  | .unused => []
  | .used key value next => (key, value) :: next.map fun e => (e.key, e.value)

def nodes : Entry K V → List ℕ
  | .unused => []
  | .used _ _ next => next.map Ele.addr

/-- A new element comes directly behind the first one. -/
def chain (entry : Entry K V) (e : Ele K V) : Entry K V :=
  match entry with
  | .unused => .unused
  | .used key value next => .used key value (e :: next)

def setValue (entry : Entry K V) (i : ℕ) (v : V) : Entry K V :=
  match entry, i with
  | .unused, _ => .unused
  | .used key _ next, 0 => .used key v next
  | .used key value next, i + 1 => .used key value (next.modify i fun e => { e with value := v })

/-- Where the first key is removed, the second one moves into its place. -/
def removeAt (entry : Entry K V) (i : ℕ) : Entry K V :=
  match entry, i with
  | .unused, _ => .unused
  | .used _ _ [], 0 => .unused
  | .used _ _ (e :: next), 0 => .used e.key e.value next
  | .used key value next, i + 1 => .used key value (next.eraseIdx i)

/-- The block that is freed by a removal: that of the second element, which has moved, or that of
the removed one. -/
def freedAt (entry : Entry K V) (i : ℕ) : Option ℕ := entry.nodes[i - 1]?

def cut : Entry K V → Entry K V
  | .unused => .unused
  | .used key value _ => .used key value []

end Entry

structure Hashmap (K V : Type) where
  size : ℕ
  tableSize : ℕ
  /-- The block of the table. -/
  entry : Option ℕ
  bucket : ℕ → Entry K V

namespace Hashmap

variable {K V : Type}

def initSize : ℕ := 4096

def hashmapBytes : ℕ := 72

def eleBytes : ℕ := 24

/-- `new_hashmap`; both requests are written to without a check of their result. -/
def newHashmap (tableSize : ℕ) (h : Heap) : Except Fault (Hashmap K V × Heap) := do
  let (_, h) ← h.request hashmapBytes none
  let tableSize := if tableSize = 0 then initSize else tableSize
  let (table, h) ← h.request (tableSize * eleBytes) none
  pure ({ size := 0, tableSize := tableSize, entry := some table, bucket := fun _ => .unused }, h)

variable (m : Hashmap K V) (keys : Keys K) (h : Heap) (key : K) (value : V)

def hash : Except Fault ℕ :=
  match keys.text key with
  | some s => .ok (keys.hashcode m.tableSize s)
  | none => .error .badRead

def locate (keys : Keys K) (key : K) : List K → Except Fault (Option ℕ)
  | [] => .ok none
  | k :: ks =>
    match keys.text k, keys.text key with
    | some s, some t =>
      if s = t then .ok (some 0) else (locate keys key ks).map fun i => i.map (· + 1)
    | _, _ => .error .badRead

def search : Except Fault (ℕ × Option ℕ) := do
  let idx ← m.hash keys key
  let i ← locate keys key ((m.bucket idx).cells.map Prod.fst)
  pure (idx, i)

def setEntry (idx : ℕ) (entry : Entry K V) (size : ℕ) : Hashmap K V :=
  { m with size := size, bucket := Function.update m.bucket idx entry }

/-- `size++` and `size--` of an `unsigned int`. -/
def succSize : ℕ := (m.size + 1) % 2 ^ 32

def predSize : ℕ := (m.size + (2 ^ 32 - 1)) % 2 ^ 32

def insert : Except Fault (Hashmap K V × Heap × MapStatus) := do
  let (idx, i) ← m.search keys key
  match m.bucket idx, i with
  | .unused, _ => pure (m.setEntry idx (.used key value []) m.succSize, h, .ok)
  | entry, some i => pure (m.setEntry idx (entry.setValue i value) m.size, h, .replace)
  | entry, none =>
    let (addr, h) ← h.request eleBytes none
    pure (m.setEntry idx (entry.chain ⟨addr, key, value⟩) m.succSize, h, .ok)

def cellsBelow (n : ℕ) : List (K × V) := (List.range n).flatMap fun i => (m.bucket i).cells

def nodesBelow (n : ℕ) : List ℕ := (List.range n).flatMap fun i => (m.bucket i).nodes

def cleared (tableSize : ℕ) (table : Option ℕ) : Hashmap K V where
  size := 0
  tableSize := tableSize
  entry := table
  bucket := fun _ => .unused

def storeAll (put : Hashmap K V → Heap → K → V → Except Fault (Hashmap K V × Heap × MapStatus))
    (m : Hashmap K V) (h : Heap) (es : List (K × V)) : Except Fault (Hashmap K V × Heap) :=
  es.foldlM (fun s e => (put s.1 s.2 e.1 e.2).map fun r => (r.1, r.2.1)) (m, h)

/-- `resize`, with the function that stores a key. The first `size` entries of the table are
collected in an array of `size` elements, and then all elements of the array are stored: those that
were not filled have a null key. -/
def resizeWith (put : Hashmap K V → Heap → K → V → Except Fault (Hashmap K V × Heap × MapStatus))
    (newSize : ℕ) : Except Fault (Hashmap K V × Heap × MapStatus) := do
  -- `old_size` is an `int`, and the loop reads `old_entry[i]` for all `i` below it
  check (m.size < 2 ^ 31 ∧ m.size ≤ m.tableSize) .badWrite
  let (entrys, h) := h.alloc (m.size * eleBytes) none
  -- `memset` of no bytes does not look at its address
  check (entrys.isSome ∨ m.size = 0) .nullPointer
  check ((m.cellsBelow m.size).length ≤ m.size) .badWrite
  let h ← h.freeAll (m.nodesBelow m.size)
  let h ← h.freeBlock m.entry
  match h.alloc (newSize * eleBytes) none with
  | (none, h) => if newSize = 0 then pure (cleared newSize none, h, .omem) else throw .nullPointer
  | (some table, h) =>
    let (m', h) ← storeAll put (cleared newSize (some table)) h (m.cellsBelow m.size)
    check ((m.cellsBelow m.size).length = m.size) .nullPointer
    let h ← h.freeBlock entrys
    pure (m', h, .ok)

/-- Storing a key and rebuilding the table call each other; `depth` bounds the calls. -/
def putWithin (keys : Keys K) :
    ℕ → Hashmap K V → Heap → K → V → Except Fault (Hashmap K V × Heap × MapStatus)
  | 0, _, _, _, _ => .error .tooDeep
  | depth + 1, m, h, key, value => do
      let (m, h, status) ← m.insert keys h key value
      if status = .ok ∧ m.tableSize ≤ m.size then
        m.resizeWith h (putWithin keys depth) (2 * m.tableSize % 2 ^ 32)
      else pure (m, h, status)

def defaultPut : Except Fault (Hashmap K V × Heap × MapStatus) := putWithin keys 2 m h key value

def resize (newSize : ℕ) : Except Fault (Hashmap K V × Heap × MapStatus) :=
  m.resizeWith h (fun m h key value => m.defaultPut keys h key value) newSize

/-- The value is that of `MAP_OK`; without one the key is missing. -/
def defaultGet : Except Fault (Option V) := do
  let (idx, i) ← m.search keys key
  pure (i.bind fun i => (m.bucket idx).cells[i]?.map Prod.snd)

/-- Where the key is found, the address of the stored key is returned as well. -/
def defaultRemove : Except Fault (Hashmap K V × Heap × MapStatus × Option K) := do
  match ← m.search keys key with
  | (_, none) => pure (m, h, .missing, none)
  | (idx, some i) =>
    let entry := m.bucket idx
    let h ← h.freeAll (entry.freedAt i).toList
    let keyAddr := entry.cells[i]?.map Prod.fst
    let m := m.setEntry idx (entry.removeAt i) m.predSize
    if initSize < m.tableSize ∧ m.size < m.tableSize / 2 then
      let (m, h, status) ← m.resize keys h (m.tableSize / 2)
      pure (m, h, status, keyAddr)
    else pure (m, h, .ok, keyAddr)

/-- `default_free`: the chains are freed, the first key of each entry stays. -/
def defaultFree : Except Fault (Hashmap K V × Heap) := do
  let h ← h.freeAll (m.nodesBelow m.tableSize)
  pure ({ m with size := 0, bucket := fun i => (m.bucket i).cut }, h)

/-- `default_len` returns an `int`. -/
def defaultLen : ℤ := if m.size < 2 ^ 31 then m.size else (m.size : ℤ) - 2 ^ 32

end Hashmap

end NtSocks.Ntkv
