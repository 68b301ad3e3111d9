import NtSocks.Lib.BlockHeap
import NtSocks.Lib.FieldLayout
import NtSocks.Lib.Runs
import NtSocks.Lib.Spans

/-!
# The memory pool of ntkv

The pool takes chunks from the system and cuts them into nodes. A node begins with a header, which
holds its size, whether it is free, and the links of the list it is in, and ends with a pointer to
its beginning; between the two lie the bytes that are handed out. All this is memory: the fields of
the nodes are written to the same bytes as the data of the callers. The headers of the chunks and of
the pool are kept apart from it.
-/

namespace NtSocks.Ntkv

open BlockHeap (Fault)

/-- The fields of the `node_t` at an address, and the pointer in front of the address at which a
node ends. -/
inductive NodeField
  | nodeSize (node : ℕ)
  | isFree (node : ℕ)
  | pre (node : ℕ)
  | next (node : ℕ)
  | tailer (stop : ℕ)
  deriving DecidableEq

def nodeHeaderSize : ℕ := 32

def nodeTailerSize : ℕ := 8

def nodeLayout : FieldLayout NodeField where
  addr
    | .nodeSize node => node
    | .isFree node => node + 8
    | .pre node => node + 16
    | .next node => node + 24
    | .tailer stop => stop - nodeTailerSize
  width
    | .isFree _ => 1
    | _ => 8

def getField (m : Memory) (f : NodeField) : ℕ := nodeLayout.get m f

def setField (m : Memory) (f : NodeField) (v : ℕ) : Memory := nodeLayout.set m f v

def nodeDelete (m : Memory) (head x : ℕ) : Memory × ℕ :=
  if getField m (.pre x) = 0 then
    let head := getField m (.next x)
    (if getField m (.next x) = 0 then m else setField m (.pre (getField m (.next x))) 0, head)
  else
    let m := setField m (.next (getField m (.pre x))) (getField m (.next x))
    (if getField m (.next x) = 0 then m
      else setField m (.pre (getField m (.next x))) (getField m (.pre x)), head)

def nodeInsert (m : Memory) (head x : ℕ) : Memory × ℕ :=
  let m := setField m (.pre x) 0
  let m := setField m (.next x) head
  (if head = 0 then m else setField m (.pre head) x, x)

structure Chunk where
  start : ℕ
  mempoolSize : ℕ
  allocChunkSize : ℕ
  allocDataSize : ℕ
  freeList : ℕ
  allocList : ℕ
  deriving DecidableEq

def chunkHeaderSize : ℕ := 64

def initChunk (m : Memory) (start chunkSize : ℕ) : Memory × Chunk :=
  let m := setField m (.isFree start) 1
  let m := setField m (.next start) 0
  let m := setField m (.pre start) 0
  let m := setField m (.nodeSize start) chunkSize
  (m, { start := start
        mempoolSize := chunkSize
        allocChunkSize := 0
        allocDataSize := 0
        freeList := start
        allocList := 0 })

structure Mempool where
  autoExtend : Bool
  eachChunkSize : ℕ
  totalChunkSize : ℕ
  maxMempoolSize : ℕ
  memory : Memory
  chunkList : List Chunk

def mempoolInit (m : Memory) (eachChunkSize maxPoolSize : ℕ) (chunk : Option ℕ) : Option Mempool :=
  if maxPoolSize < eachChunkSize then none
  else chunk.map fun chunk =>
    let init := initChunk m (chunk + chunkHeaderSize) eachChunkSize
    { autoExtend := eachChunkSize < maxPoolSize
      eachChunkSize := eachChunkSize
      totalChunkSize := eachChunkSize
      maxMempoolSize := maxPoolSize
      memory := init.1
      chunkList := [init.2] }

/-- `ALIGN_SIZE`; a multiple of eight is raised to the next one. -/
def alignSize (n : ℕ) : ℕ := (n + 8 - (7 &&& n)) % 2 ^ 64

def totalNeedSize (nodeDataSize : ℕ) : ℕ :=
  alignSize ((nodeHeaderSize + nodeDataSize + nodeTailerSize) % 2 ^ 64)

/-- The first node of the free list that is large enough; `fuel` bounds the length of the list. -/
def findFree (m : Memory) (need : ℕ) : ℕ → ℕ → Except Fault (Option ℕ)
  | fuel, free =>
    if free = 0 then .ok none
    else match fuel with
      | 0 => .error .tooDeep
      | fuel + 1 =>
        if need ≤ getField m (.nodeSize free) then .ok (some free)
        else findFree m need fuel (getField m (.next free))

/-- The struct assignment, for nodes that do not overlap: all fields are read before any is written.
Only sizes cut to 64 bits make them overlap. -/
def copyNode (m : Memory) (x y : ℕ) : Memory :=
  let copied := setField m (.nodeSize y) (getField m (.nodeSize x))
  let copied := setField copied (.isFree y) (getField m (.isFree x))
  let copied := setField copied (.pre y) (getField m (.pre x))
  setField copied (.next y) (getField m (.next x))

/-- The neighbours of the node that `x` was copied from are made those of `x`, with the new head of
the list. -/
def relinkNode (m : Memory) (head x : ℕ) : Memory × ℕ :=
  let head' := if getField m (.pre x) = 0 then x else head
  let m := if getField m (.pre x) = 0 then m else setField m (.next (getField m (.pre x))) x
  (if getField m (.next x) = 0 then m else setField m (.pre (getField m (.next x))) x, head')

def splitNode (m : Memory) (freeList need notFree : ℕ) : Memory × ℕ :=
  let free := notFree + need
  let m := copyNode m notFree free
  let m := setField m (.nodeSize free) (getField m (.nodeSize free) - need)
  let m := setField m (.tailer (free + getField m (.nodeSize free))) free
  let linked := relinkNode m freeList free
  let m := setField linked.1 (.isFree notFree) 0
  let m := setField m (.nodeSize notFree) need
  let m := setField m (.tailer (notFree + need)) notFree
  (m, linked.2)

def takeNode (m : Memory) (c : Chunk) (need node : ℕ) : Memory × Chunk :=
  let cut :=
    if need + nodeHeaderSize + nodeTailerSize < getField m (.nodeSize node) then
      splitNode m c.freeList need node
    else
      let deleted := nodeDelete m c.freeList node
      (setField deleted.1 (.isFree node) 0, deleted.2)
  let inserted := nodeInsert cut.1 c.allocList node
  let m := inserted.1
  (m, { c with
    freeList := cut.2
    allocList := inserted.2
    allocChunkSize := c.allocChunkSize + getField m (.nodeSize node)
    allocDataSize := c.allocDataSize +
      (getField m (.nodeSize node) - nodeHeaderSize - nodeTailerSize) })

/-- A chunk that has not enough free bytes is passed over. -/
def searchChunk (eachChunkSize need : ℕ) (m : Memory) (c : Chunk) : Except Fault (Option ℕ) :=
  if eachChunkSize - c.allocChunkSize < need then .ok none
  else findFree m need eachChunkSize c.freeList

def allocInChunks (eachChunkSize need : ℕ) (m : Memory) :
    List Chunk → Except Fault (Option (Memory × List Chunk × ℕ))
  | [] => .ok none
  | c :: cs =>
    (searchChunk eachChunkSize need m c).bind fun
      | some node =>
        let taken := takeNode m c need node
        .ok (some (taken.1, taken.2 :: cs, node + nodeHeaderSize))
      | none =>
        (allocInChunks eachChunkSize need m cs).map fun r =>
          r.map fun (m, cs, addr) => (m, c :: cs, addr)

namespace Mempool

variable (s : Mempool)

def extendChunkList (chunkSize chunk : ℕ) : Mempool :=
  let init := initChunk s.memory (chunk + chunkHeaderSize) chunkSize
  { s with
    memory := init.1
    chunkList := init.2 :: s.chunkList
    totalChunkSize := (s.totalChunkSize + chunkSize) % 2 ^ 64 }

def needAddSize : ℕ :=
  if s.eachChunkSize ≤ s.maxMempoolSize - s.eachChunkSize then s.eachChunkSize
  else s.maxMempoolSize - s.eachChunkSize

/-- The search of `mempool_alloc`, which begins again with every chunk that the system gives; its
answers are taken from the list. -/
def allocWith (need : ℕ) (answers : List (Option ℕ)) (s : Mempool) :
    Except Fault (Mempool × Option ℕ) :=
  (allocInChunks s.eachChunkSize need s.memory s.chunkList).bind fun
    | some (m, cs, addr) => .ok ({ s with memory := m, chunkList := cs }, some addr)
    | none =>
      if s.autoExtend ∧ s.totalChunkSize < s.maxMempoolSize then
        match answers with
        | [] => .error .tooDeep
        | none :: _ => .ok (s, none)
        | some chunk :: answers =>
          allocWith need answers (s.extendChunkList s.needAddSize chunk)
      else .ok (s, none)

def mempoolAlloc (nodeDataSize : ℕ) (answers : List (Option ℕ)) :
    Except Fault (Mempool × Option ℕ) :=
  if nodeDataSize = 0 then .ok (s, none)
  else if s.eachChunkSize < totalNeedSize nodeDataSize then .ok (s, none)
  else allocWith (totalNeedSize nodeDataSize) answers s

end Mempool

def mergeBack (m : Memory) (start : ℕ) : ℕ → ℕ → ℕ → Except Fault ℕ
  | 0, _, _ => .error .tooDeep
  | fuel + 1, next, curr =>
    if getField m (.isFree next) = 0 then .ok curr
    else if next - nodeTailerSize - nodeHeaderSize ≤ start then .ok next
    else mergeBack m start fuel (getField m (.tailer next)) next

def nodeSpan (m : Memory) (node : ℕ) : Span where
  start := node
  stop := node + getField m (.nodeSize node)
  start_le := Nat.le_add_right _ _

/-- The second loop of `merge_free_node`: it joins the free nodes from `next` on to `curr`. With the
memory and the head of the list come the nodes that were joined. -/
def mergeForward (stop curr : ℕ) : ℕ → Memory → ℕ → ℕ → Except Fault (Memory × ℕ × List Span)
  | 0, _, _, _ => .error .tooDeep
  | fuel + 1, m, freeList, next =>
    if next < stop ∧ getField m (.isFree next) ≠ 0 then
      let deleted := nodeDelete m freeList next
      let m := deleted.1
      let m := setField m (.nodeSize curr)
        (getField m (.nodeSize curr) + getField m (.nodeSize next))
      (mergeForward stop curr fuel m deleted.2 (next + getField m (.nodeSize next))).map
        fun (m', freeList, joined) => (m', freeList, nodeSpan m next :: joined)
    else .ok (m, freeList, [])

def mergeFreeNode (eachChunkSize : ℕ) (m : Memory) (c : Chunk) (node : ℕ) :
    Except Fault (Memory × Chunk × List Span) :=
  (mergeBack m c.start (eachChunkSize + 1) node node).bind fun curr =>
    (mergeForward (c.start + eachChunkSize) curr (eachChunkSize + 1) m c.freeList
        (curr + getField m (.nodeSize curr))).map fun (m', freeList, joined) =>
      (setField m' (.tailer (curr + getField m' (.nodeSize curr))) curr,
        { c with freeList := freeList }, nodeSpan m curr :: joined)

def freeNode (eachChunkSize : ℕ) (m : Memory) (c : Chunk) (node : ℕ) :
    Except Fault (Memory × Chunk × List Span) :=
  let deleted := nodeDelete m c.allocList node
  let inserted := nodeInsert deleted.1 c.freeList node
  let m := setField inserted.1 (.isFree node) 1
  mergeFreeNode eachChunkSize m
    { c with
      allocList := deleted.2
      freeList := inserted.2
      allocChunkSize := c.allocChunkSize - getField m (.nodeSize node)
      allocDataSize := c.allocDataSize -
        (getField m (.nodeSize node) - nodeHeaderSize - nodeTailerSize) } node

structure Freed where
  chunk : Chunk
  joined : List Span

def freeInChunks (eachChunkSize : ℕ) (m : Memory) (addr : ℕ) :
    List Chunk → Except Fault (Memory × List Chunk × Freed)
  | [] => .error .nullPointer
  | c :: cs =>
    if c.start ≤ addr ∧ addr < c.start + eachChunkSize then
      (freeNode eachChunkSize m c (addr - nodeHeaderSize)).map
        fun (m, c', joined) => (m, c' :: cs, { chunk := c, joined := joined })
    else (freeInChunks eachChunkSize m addr cs).map fun (m, cs, freed) => (m, c :: cs, freed)

def Mempool.mempoolFree (s : Mempool) (addr : ℕ) : Except Fault (Mempool × Freed) :=
  (freeInChunks s.eachChunkSize s.memory addr s.chunkList).map fun (m, cs, freed) =>
    ({ s with memory := m, chunkList := cs }, freed)

/-- The system may give this block for the next chunk: it lies apart from those it gave before. -/
def Mempool.Offers (s : Mempool) (chunk : ℕ) : Prop :=
  0 < chunk ∧ chunk + chunkHeaderSize + s.needAddSize ≤ 2 ^ 64 ∧
    ∀ c ∈ s.chunkList, chunk + chunkHeaderSize + s.needAddSize + chunkHeaderSize ≤ c.start ∨
      c.start + c.mempoolSize ≤ chunk

instance (s : Mempool) (chunk : ℕ) : Decidable (s.Offers chunk) :=
  inferInstanceAs (Decidable (_ ∧ _ ∧ _))

structure HeldBlock where
  addr : ℕ
  size : ℕ
  deriving DecidableEq

structure PoolState where
  pool : Mempool
  blocks : List HeldBlock

inductive PoolAct
  /-- A call of `mempool_alloc`, with the answer of the system to a request for a chunk. -/
  | alloc (size : ℕ) (chunk : Option ℕ)
  | free (addr : ℕ)
  /-- A caller writes to a block. -/
  | write (addr offset : ℕ) (data : List UInt8)

namespace PoolState

variable (s : PoolState)

def step : PoolAct → Option PoolState
  | .alloc size chunk =>
    (s.pool.mempoolAlloc size [chunk]).toOption.map fun (pool, addr) =>
      { pool := pool
        blocks := (addr.map fun a => { addr := a, size := size }).toList ++ s.blocks }
  | .free addr =>
    (s.pool.mempoolFree addr).toOption.map fun (pool, _) =>
      { pool := pool, blocks := s.blocks.eraseP fun b => b.addr = addr }
  | .write addr offset data =>
    some { s with pool := { s.pool with memory := s.pool.memory.store (addr + offset) data } }

/-- What a caller may do: ask for a size for which the size of the node is not cut to 64 bits, give
back a block that it holds, and write to the bytes of one that it has asked for. -/
def Allows : PoolAct → Prop
  | .alloc size chunk =>
    size + nodeHeaderSize + nodeTailerSize + 8 < 2 ^ 64 ∧ ∀ a ∈ chunk, s.pool.Offers a
  | .free addr => ∃ b ∈ s.blocks, b.addr = addr
  | .write addr offset data => ∃ b ∈ s.blocks, b.addr = addr ∧ offset + data.length ≤ b.size

instance : ∀ act, Decidable (s.Allows act)
  | .alloc _ _ => inferInstanceAs (Decidable (_ ∧ _))
  | .free _ => inferInstanceAs (Decidable (∃ b ∈ _, _))
  | .write _ _ _ => inferInstanceAs (Decidable (∃ b ∈ _, _))

end PoolState

end NtSocks.Ntkv
