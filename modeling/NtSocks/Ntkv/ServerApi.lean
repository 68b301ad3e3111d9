import NtSocks.Ntkv.BatchApi
import NtSocks.Ntkv.LinkedHashmap

/-!
# The commands of the ntkv server

A command comes with the bytes that were read for it. They go into a block of the pool, and what
the map stores are addresses in such blocks: a put stores the start of its block as the key and an
address inside it as the value, a batch of puts stores addresses inside its block for both. A value
has no length there; the replies to gets take it up to its first zero byte.
-/

namespace NtSocks.Ntkv

open BlockHeap Faults LittleEndian

inductive Command
  | put (keyLen : ℕ) (data : List UInt8)
  | get (data : List UInt8)
  | batchPut (data : List UInt8)
  | batchGet (data : List UInt8)
  | remove (data : List UInt8)
  | free
  | len
  | unknown
  deriving DecidableEq

structure Server where
  map : Hashmap Ptr Ptr
  heap : Heap
  queue : BatchData Ptr
  /-- The byte that is found in a variable that was not assigned. -/
  junk : UInt8

def batchDataBytes : ℕ := 40

def batchNodeBytes : ℕ := 28

def replySize : ℕ := 5

def encodeReply (errNo : UInt8) (keyLen valueLen : ℕ) : List UInt8 :=
  errNo :: (LittleEndian.encode 2 keyLen ++ LittleEndian.encode 2 valueLen)

def serverKeys (h : Heap) : Keys Ptr where
  hashcode := defaultHashcode
  hashcode_lt := defaultHashcode_lt
  text := h.cstring

namespace Server

def init (supply : ℕ → Bool) (junk : UInt8) : Except Fault Server := do
  let (map, heap) ← Hashmap.newHashmap 0 (Heap.empty supply)
  let (_, heap) ← heap.request batchDataBytes none
  pure { map := map, heap := heap, queue := .init batchQueueSize, junk := junk }

variable (s : Server)

/-- `cmd_put`. A request for no bytes gets a null pointer, which is then hashed. -/
def cmdPut (keyLen : ℕ) (data : List UInt8) : Except Fault (Server × List UInt8) := do
  let (b, heap) ← s.heap.request data.length (some data)
  let (map, heap, status) ← s.map.defaultPut (serverKeys heap) heap ⟨b, 0⟩ ⟨b, keyLen⟩
  pure ({ s with map := map, heap := heap }, encodeReply status.code 0 0)

def dataHeader (data : List UInt8) (cur : ℕ) : Except Fault (ℕ × ℕ) :=
  if cur + dataHeaderSize ≤ data.length then
    .ok (decode ((data.drop cur).take 2), decode ((data.drop (cur + 2)).take 2))
  else .error .badRead

/-- The loop of `cmd_batch_put`; an iteration goes on by at least the size of a header, so that
`fuel` does not run out. -/
def batchPutLoop (b : ℕ) (data : List UInt8) :
    ℕ → ℕ → Server → UInt8 → Except Fault (Server × UInt8)
  | 0, _, _, _ => .error .tooDeep
  | fuel + 1, cur, s, errNo =>
    if cur < data.length then do
      let (keyLen, valueLen) ← dataHeader data cur
      let key := cur + dataHeaderSize
      let (map, heap, status) ←
        s.map.defaultPut (serverKeys s.heap) s.heap ⟨b, key⟩ ⟨b, key + keyLen⟩
      let s := { s with map := map, heap := heap }
      if status = .ok ∨ status = .replace then
        batchPutLoop b data fuel (cur + (dataHeaderSize + keyLen + valueLen)) s status.code
      else pure (s, status.code)
    else pure (s, errNo)

/-- `cmd_batch_put`. Without data nothing is done, and the error code is not assigned. -/
def cmdBatchPut (data : List UInt8) : Except Fault (Server × List UInt8) :=
  if data = [] then pure (s, batchHeader s.junk 0)
  else do
    let (b, heap) ← s.heap.request data.length (some data)
    let (s, errNo) ← batchPutLoop b data (data.length + 1) 0 { s with heap := heap } s.junk
    pure (s, batchHeader errNo 0)

def readBytes (h : Heap) (p : Ptr) (n : ℕ) : Except Fault (List UInt8) :=
  match h.read p n with
  | some bytes => .ok bytes
  | none => .error .badRead

/-- The bytes of an item of a reply: `item->data` is `key_len` bytes before the value. -/
def readItem (h : Heap) (item : BatchNode Ptr) : Except Fault (List UInt8) :=
  if item.data.offset < item.keyLen then .error .badRead
  else
    readBytes h ⟨item.data.block, item.data.offset - item.keyLen⟩ (item.keyLen + item.valueLen)

def batchWriteGetReply (errNo : UInt8) : Except Fault (Server × List UInt8) :=
  if s.queue.queueSize = 0 then pure (s, [])
  else do
    let (_, heap) ← s.heap.request (batchHeaderSize + s.queue.dataSize) none
    let (out, queue) ← s.queue.write (readItem heap) errNo
    pure ({ s with heap := heap, queue := queue }, out)

def batchPush (item : BatchNode Ptr) : Except Fault (Server × List UInt8) :=
  let s := { s with queue := s.queue.append item }
  if s.queue.Full then s.batchWriteGetReply 0 else pure (s, [])

def valueLength (h : Heap) (value : Ptr) : Except Fault ℕ :=
  match h.cstring value with
  | some str => .ok ((str.length + 1) % 2 ^ 16)
  | none => .error .badRead

def batchGetLoop (b : ℕ) (data : List UInt8) :
    ℕ → ℕ → Server → UInt8 → Except Fault (Server × UInt8 × List UInt8)
  | 0, _, _, _ => .error .tooDeep
  | fuel + 1, cur, s, errNo =>
    if cur < data.length then do
      let (keyLen, _) ← dataHeader data cur
      match ← s.map.defaultGet (serverKeys s.heap) ⟨b, cur + dataHeaderSize⟩ with
      | none => pure (s, MapStatus.missing.code, [])
      | some value =>
        let (_, heap) ← s.heap.request batchNodeBytes none
        let valueLen ← valueLength heap value
        let (s, out) ← ({ s with heap := heap } : Server).batchPush ⟨keyLen, valueLen, value⟩
        let (s, errNo, out') ← batchGetLoop b data fuel (cur + (dataHeaderSize + keyLen)) s
          MapStatus.ok.code
        pure (s, errNo, out ++ out')
    else pure (s, errNo, [])

def cmdBatchGet (data : List UInt8) : Except Fault (Server × List UInt8) :=
  if data = [] then s.batchWriteGetReply s.junk
  else do
    let (b, heap) ← s.heap.request data.length (some data)
    let (s, errNo, out) ← batchGetLoop b data (data.length + 1) 0 { s with heap := heap } s.junk
    let (s, out') ← s.batchWriteGetReply errNo
    pure (s, out ++ out')

/-- `cmd_get`: the key is freed before the reply is built, and the reply after it was written. -/
def cmdGet (data : List UInt8) : Except Fault (Server × List UInt8) := do
  let (b, heap) ← s.heap.request data.length (some data)
  let found ← s.map.defaultGet (serverKeys heap) ⟨b, 0⟩
  let heap ← heap.free ⟨b, 0⟩
  match found with
  | none =>
    let (out, heap) ← heap.request replySize none
    let heap ← heap.free ⟨out, 0⟩
    pure ({ s with heap := heap }, encodeReply MapStatus.missing.code 0 0)
  | some value =>
    let valueLen ← valueLength heap value
    let (out, heap) ← heap.request (replySize + valueLen) none
    let bytes ← readBytes heap value valueLen
    let heap ← heap.free ⟨out, 0⟩
    pure ({ s with heap := heap }, encodeReply MapStatus.ok.code 0 valueLen ++ bytes)

def mapRemove (data : List UInt8) :
    Except Fault (ℕ × Hashmap Ptr Ptr × Heap × MapStatus × Option Ptr) := do
  let (b, heap) ← s.heap.request data.length (some data)
  let r ← s.map.defaultRemove (serverKeys heap) heap ⟨b, 0⟩
  pure (b, r)

/-- `cmd_remove`: where the key was removed, the address of the stored key is freed. -/
def cmdRemove (data : List UInt8) : Except Fault (Server × List UInt8) := do
  let (b, map, heap, status, keyAddr) ← s.mapRemove data
  let heap ← heap.free ⟨b, 0⟩
  match status, keyAddr with
  | .ok, some key =>
    let heap ← heap.free key
    pure ({ s with map := map, heap := heap }, encodeReply status.code 0 0)
  | _, _ => pure ({ s with map := map, heap := heap }, encodeReply status.code 0 0)

def cmdFree : Except Fault (Server × List UInt8) := do
  let (map, heap) ← s.map.defaultFree s.heap
  pure ({ s with map := map, heap := heap }, [])

/-- `cmd_len` sends the length in a `uint16_t`. -/
def cmdLen : List UInt8 :=
  encodeReply MapStatus.ok.code (s.map.defaultLen % 2 ^ 16).toNat 0

/-- One command of `handle_connection`. An unknown one is answered with no bytes: the counter of
the loop that writes the reply has kept the size of the header, which is that of the reply. -/
def exec : Command → Except Fault (Server × List UInt8)
  | .put keyLen data => s.cmdPut keyLen data
  | .get data => s.cmdGet data
  | .batchPut data => s.cmdBatchPut data
  | .batchGet data => s.cmdBatchGet data
  | .remove data => s.cmdRemove data
  | .free => s.cmdFree
  | .len => .ok (s, s.cmdLen)
  | .unknown => .ok (s, [])

end Server

end NtSocks.Ntkv
