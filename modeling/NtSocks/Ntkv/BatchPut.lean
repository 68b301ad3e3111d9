import NtSocks.Ntkv.BatchClient
import NtSocks.Ntkv.Ownership

/-!
# Batches of puts

The server keeps the data of a batch in one block and goes through it with a cursor: at each item it
stores the addresses behind the header as key and value. Over all batches that a client writes, the
pairs that are stored are the ones that were pushed, in their order.
-/

namespace NtSocks.Ntkv

open BlockHeap Faults LittleEndian

namespace Server

def put (s : Server) (key value : Ptr) : Option Server :=
  match s.map.defaultPut (serverKeys s.heap) s.heap key value with
  | .ok (map, heap, status) =>
    if status = .ok ∨ status = .replace then some { s with map := map, heap := heap } else none
  | .error _ => none

def putItems (b : ℕ) : ℕ → List BatchItem → Server → Option Server
  | _, [], s => some s
  | cur, item :: items, s => do
      let key := cur + dataHeaderSize
      let s ← s.put ⟨b, key⟩ ⟨b, key + item.key.length⟩
      putItems b (cur + item.node.size) items s

def storeBatch (s : Server) (batch : List BatchItem) : Option Server :=
  if s.heap.supply s.heap.next = true then
    putItems s.heap.next 0 batch { s with heap := s.heap.extend (some (encodeItems batch)) }
  else none

/-- `Performs s items s'` says that the server comes from `s` to `s'` by a `PUT` for each item, at
addresses where the key and the value of the item lie, and by new blocks for data in between. -/
inductive Performs : Server → List BatchItem → Server → Prop
  | done (s : Server) : Performs s [] s
  | data {s s' : Server} {items : List BatchItem} (bytes : List UInt8)
      (hrest : Performs { s with heap := s.heap.extend (some bytes) } items s') :
      Performs s items s'
  | put {s s₁ s' : Server} {item : BatchItem} {items : List BatchItem} (key value : Ptr)
      (hkey : s.heap.read key item.key.length = some item.key)
      (hvalue : s.heap.read value item.value.length = some item.value)
      (hput : s.put key value = some s₁) (hrest : Performs s₁ items s') :
      Performs s (item :: items) s'

variable {s s' s₁ : Server} {b : ℕ} {item : BatchItem} {items : List BatchItem}

theorem Performs.trans {items' : List BatchItem} (h : Performs s items s₁)
    (h' : Performs s₁ items' s') : Performs s (items ++ items') s' := by
  induction h with
  | done => exact h'
  | data bytes _ ih => exact .data bytes (ih h')
  | put key value hkey hvalue hput _ ih => exact .put key value hkey hvalue hput (ih h')

theorem put_eq_some {key value : Ptr} (h : s.put key value = some s') :
    ∃ map heap status,
      s.map.defaultPut (serverKeys s.heap) s.heap key value = .ok (map, heap, status) ∧
      (status = .ok ∨ status = .replace) ∧ s' = { s with map := map, heap := heap } := by
  rw [put] at h
  split at h
  · next map heap status hput =>
      split_ifs at h with hstatus
      cases h
      exact ⟨map, heap, status, hput, hstatus, rfl⟩
  · cases h

end Server

theorem BatchItem.encode_append (item : BatchItem) (rest : List UInt8) :
    item.encode ++ rest = LittleEndian.encode 2 item.key.length ++
      (LittleEndian.encode 2 item.value.length ++ (item.key ++ (item.value ++ rest))) := by
  simp only [BatchItem.encode, BatchNode.encode, BatchItem.node, List.append_assoc]

theorem encodeItems_cons (item : BatchItem) (items : List BatchItem) :
    encodeItems (item :: items) = item.encode ++ encodeItems items := List.flatMap_cons

theorem length_le_encodeItems (items : List BatchItem) :
    items.length ≤ (encodeItems items).length := by
  induction items with
  | nil => exact le_rfl
  | cons item items ih =>
    rw [encodeItems_cons, List.length_cons, List.length_append, item.length_encode,
      BatchNode.size, dataHeaderSize]
    omega

theorem length_append_encode (front : List UInt8) (item : BatchItem) :
    front.length + item.node.size = (front ++ item.encode).length := by
  rw [List.length_append, item.length_encode]

theorem length_lt_encodeItems (front : List UInt8) (item : BatchItem) (items : List BatchItem) :
    front.length < (front ++ encodeItems (item :: items)).length := by
  rw [encodeItems_cons, ← List.append_assoc, List.length_append, ← length_append_encode,
    BatchNode.size, dataHeaderSize]
  omega

theorem encodeItems_ne_nil {items : List BatchItem} (hne : items ≠ []) :
    encodeItems items ≠ [] := by
  intro hnil
  have hle := length_le_encodeItems items
  rw [hnil] at hle
  exact hne (List.length_eq_zero_iff.mp (Nat.le_zero.mp hle))

theorem Server.dataHeader_encode (front rest : List UInt8) (item : BatchItem) :
    Server.dataHeader (front ++ (item.encode ++ rest)) front.length =
      .ok (item.key.length, item.value.length) := by
  have hkey : ((front ++ (item.encode ++ rest)).drop front.length).take 2 =
      LittleEndian.encode 2 item.key.length := by
    rw [List.drop_left, item.encode_append, List.take_left' (length_encode 2 _)]
  have hvalue : ((front ++ (item.encode ++ rest)).drop (front.length + 2)).take 2 =
      LittleEndian.encode 2 item.value.length := by
    rw [← List.drop_drop, List.drop_left, item.encode_append,
      List.drop_left' (length_encode 2 _), List.take_left' (length_encode 2 _)]
  have hlen : front.length + dataHeaderSize ≤ (front ++ (item.encode ++ rest)).length := by
    rw [List.length_append, List.length_append, item.length_encode, BatchNode.size]
    omega
  rw [Server.dataHeader, if_pos hlen, hkey, hvalue, decode_encode_of_lt item.key_lt,
    decode_encode_of_lt item.value_lt]

variable {h : Heap} {b : ℕ}

theorem tail_item (front rest : List UInt8) (item : BatchItem) (hlive : h.live b = true)
    (hbytes : h.bytes b = some (front ++ (item.encode ++ rest))) :
    h.tail ⟨b, front.length + dataHeaderSize⟩ = some (item.key ++ (item.value ++ rest)) := by
  have hlens : (LittleEndian.encode 2 item.key.length ++
      LittleEndian.encode 2 item.value.length).length = dataHeaderSize := by
    rw [List.length_append, length_encode, length_encode]
    rfl
  rw [Heap.tail, if_pos hlive, hbytes, Option.map_some, ← List.drop_drop, List.drop_left,
    item.encode_append, ← List.append_assoc, List.drop_left' hlens]

theorem read_item (front rest : List UInt8) (item : BatchItem) (hlive : h.live b = true)
    (hbytes : h.bytes b = some (front ++ (item.encode ++ rest))) :
    h.read ⟨b, front.length + dataHeaderSize⟩ item.key.length = some item.key ∧
      h.read ⟨b, front.length + dataHeaderSize + item.key.length⟩ item.value.length =
        some item.value := by
  have htail := tail_item front rest item hlive hbytes
  refine ⟨Heap.read_eq_some_iff.mpr ⟨_, htail⟩, Heap.read_eq_some_iff.mpr ⟨rest, ?_⟩⟩
  rw [Heap.tail_add, htail, Option.map_some, List.drop_left]

namespace Server

variable {s s' : Server} {b : ℕ} {items : List BatchItem} {front : List UInt8}

theorem batchPutLoop_items {fuel : ℕ} (hfuel : items.length < fuel)
    (hput : putItems b front.length items s = some s') (errNo : UInt8) :
    ∃ errNo', batchPutLoop b (front ++ encodeItems items) fuel front.length s errNo =
      .ok (s', errNo') := by
  induction items generalizing s front fuel errNo with
  | nil =>
    obtain ⟨fuel, rfl⟩ := Nat.exists_eq_add_one_of_ne_zero (Nat.ne_zero_of_lt hfuel)
    cases hput
    refine ⟨errNo, ?_⟩
    rw [batchPutLoop, if_neg]
    · rfl
    · simp [encodeItems]
  | cons item items ih =>
    obtain ⟨fuel, rfl⟩ := Nat.exists_eq_add_one_of_ne_zero (Nat.ne_zero_of_lt hfuel)
    rw [putItems] at hput
    obtain ⟨s₁, hfirst, hrest⟩ := Option.bind_eq_some_iff.mp hput
    obtain ⟨map, heap, status, hmap, hstatus, rfl⟩ := put_eq_some hfirst
    rw [length_append_encode] at hrest
    obtain ⟨errNo', hloop⟩ := ih (Nat.lt_of_succ_lt_succ hfuel) hrest status.code
    refine ⟨errNo', ?_⟩
    rw [batchPutLoop, if_pos (length_lt_encodeItems front item items), encodeItems_cons,
      dataHeader_encode]
    change (s.map.defaultPut _ _ _ _).bind _ = _
    rw [hmap]
    change (if _ then _ else _) = _
    rw [if_pos hstatus, ← encodeItems_cons]
    rw [List.append_assoc, ← encodeItems_cons, ← length_append_encode] at hloop
    exact hloop

/-- The puts of a batch keep what the map owns, and every one is of the pair that was sent. -/
theorem performs_putItems (hown : Owns s.map s.heap) (hlive : s.heap.live b = true)
    (hbytes : s.heap.bytes b = some (front ++ encodeItems items))
    (hother : ∀ e ∈ s.map.entries, e.1.offset = 0 → e.1.block ≠ b)
    (hput : putItems b front.length items s = some s') :
    Performs s items s' ∧ Owns s'.map s'.heap := by
  induction items generalizing s front with
  | nil =>
    cases hput
    exact ⟨.done _, hown⟩
  | cons item items ih =>
    rw [putItems] at hput
    obtain ⟨s₁, hfirst, hrest⟩ := Option.bind_eq_some_iff.mp hput
    obtain ⟨map, heap, status, hmap, -, rfl⟩ := put_eq_some hfirst
    rw [encodeItems_cons] at hbytes
    obtain ⟨hkey, hvalue⟩ := read_item front (encodeItems items) item hlive hbytes
    have hdata : s.heap.HasData b := ⟨hlive, by rw [hbytes]; rfl⟩
    have hpos : front.length + dataHeaderSize ≠ 0 := by simp [dataHeaderSize]
    obtain ⟨hown', hext, hkeys⟩ := (hown.defaultPut_meets hdata (front.length + dataHeaderSize)
      (front.length + dataHeaderSize + item.key.length) hother
      fun hzero => absurd hzero hpos).of_ok hmap
    rw [length_append_encode] at hrest
    obtain ⟨hperf, hown''⟩ := ih (s := { s with map := map, heap := heap }) hown'
      ((hext.live b hdata.2).trans hlive) (by
        rw [List.append_assoc, ← hbytes]
        exact hext.bytes b hdata.2)
      (fun e he hzero => by
        rcases hkeys e he with hnew | ⟨e', he', heq⟩
        · rw [hnew] at hzero
          exact absurd hzero hpos
        · rw [← heq] at hzero ⊢
          exact hother e' he' hzero) hrest
    exact ⟨.put _ _ hkey hvalue hfirst hperf, hown''⟩

theorem cmdBatchPut_storeBatch (hown : Owns s.map s.heap) (hne : items ≠ [])
    (hstore : s.storeBatch items = some s') :
    ∃ errNo, s.cmdBatchPut (encodeItems items) = .ok (s', batchHeader errNo 0) ∧
      Performs s items s' ∧ Owns s'.map s'.heap := by
  rw [storeBatch] at hstore
  split_ifs at hstore with hsupply
  have hlen := length_le_encodeItems items
  have hdata := encodeItems_ne_nil hne
  have hrequest : s.heap.request (encodeItems items).length (some (encodeItems items)) =
      .ok (s.heap.next, s.heap.extend (some (encodeItems items))) := by
    rw [Heap.request_eq, if_pos ⟨fun h => hdata (List.length_eq_zero_iff.mp h), hsupply⟩]
  change putItems _ ([] : List UInt8).length _ _ = _ at hstore
  obtain ⟨errNo, hloop⟩ := batchPutLoop_items (Nat.lt_succ_of_le hlen) hstore s.junk
  have hbytes : (s.heap.extend (some (encodeItems items))).bytes s.heap.next =
      some ([] ++ encodeItems items) := Function.update_self ..
  obtain ⟨hperf, hown'⟩ := performs_putItems
    (s := { s with heap := s.heap.extend (some (encodeItems items)) })
    (hown.extend (some (encodeItems items))) (Function.update_self ..) hbytes
    (fun e he _ => (hown.ne_next he).1) hstore
  refine ⟨errNo, ?_, .data _ hperf, hown'⟩
  rw [cmdBatchPut, if_neg hdata, hrequest]
  change (batchPutLoop _ _ _ _ _ _).bind _ = _
  rw [List.nil_append, List.length_nil] at hloop
  rw [hloop]
  rfl

end Server

namespace BatchClient

variable {c : BatchClient} {pending batch : List BatchItem} {s' : Server}

theorem readReply_put (errNo : UInt8) :
    BatchOp.put.readReply ([] ++ batchHeader errNo 0) = .ok (batchHeader errNo 0, []) := by
  have hlen : (batchHeader errNo 0).length = batchHeaderSize := rfl
  rw [List.nil_append, BatchOp.readReply, readWhole_self hlen]
  rfl

structure Synced (s : Server) (written : List (List BatchItem)) (c : BatchClient) : Prop where
  owns : Owns c.server.map c.server.heap
  performs : Server.Performs s written.flatten c.server
  requests : c.requests = written.map fun batch => (Command.batchPut (encodeItems batch)).encode
  replies : c.replies.length = written.length
  whole : ∀ reply ∈ c.replies, reply.length = batchHeaderSize
  unread : c.unread = []

variable {s : Server} {written : List (List BatchItem)} {acts : List Act}

theorem Synced.write (hc : Synced s written c) (hq : Waits c.queue batch) (hne : batch ≠ [])
    (hlen : batch.length ≤ batchQueueSize) (hstore : c.server.storeBatch batch = some s') :
    ∃ c', c.batchWrite .put = .ok c' ∧ c'.server = s' ∧ Waits c'.queue [] ∧
      Synced s (written ++ [batch]) c' := by
  obtain ⟨errNo, hexec, hperf, hown⟩ := Server.cmdBatchPut_storeBatch hc.owns hne hstore
  have hexec' : c.server.exec (BatchOp.put.command (encodeItems batch)) =
      .ok (s', batchHeader errNo 0) := hexec
  have hreply := readReply_put errNo
  rw [← hc.unread] at hreply
  obtain ⟨q', hq', hwrite⟩ := batchWrite_ok hq hne hlen hexec' hreply
  refine ⟨_, hwrite, rfl, hq', ⟨hown, ?_, ?_, ?_, ?_, hc.unread⟩⟩
  · rw [List.flatten_append, List.flatten_singleton]
    exact hc.performs.trans hperf
  · rw [List.map_append, ← hc.requests]
    rfl
  · rw [List.length_append, List.length_append, hc.replies]
    rfl
  · exact List.forall_mem_append.mpr ⟨hc.whole, List.forall_mem_singleton.mpr rfl⟩

theorem Synced.run (hc : Synced s written c) (hq : Waits c.queue pending)
    (hlen : pending.length < batchQueueSize)
    (hstore : (batches pending acts).1.foldlM Server.storeBatch c.server = some s') :
    ∃ c', run .put acts c = .ok c' ∧ c'.server = s' ∧ Waits c'.queue (batches pending acts).2 ∧
      Synced s (written ++ (batches pending acts).1) c' := by
  induction acts generalizing c pending written with
  | nil =>
    cases hstore
    exact ⟨c, rfl, rfl, hq, by rw [batches, List.append_nil]; exact hc⟩
  | cons act acts ih =>
    rw [BatchClient.run, List.foldlM_cons]
    cases act with
    | push item =>
      have hq' := hq.append hlen item
      have hc' : Synced s written { c with queue := c.queue.append item.node } := { hc with }
      have hlen' : (pending ++ [item]).length = pending.length + 1 := List.length_append
      rw [batches] at hstore ⊢
      change ∃ c', (c.batchPush .put item).bind _ = _ ∧ _
      rw [batchPush]
      have hfull := hq.full_iff hlen item
      by_cases hten : pending.length + 1 = batchQueueSize
      · rw [if_pos (hfull.mpr hten)]
        rw [if_pos hten] at hstore ⊢
        obtain ⟨s₁, hfirst, hrest⟩ := Option.bind_eq_some_iff.mp hstore
        obtain ⟨c₁, hwrite, rfl, hq₁, hc₁⟩ := hc'.write hq'
          (List.append_ne_nil_of_right_ne_nil _ (List.cons_ne_nil _ _)) (hlen'.trans hten).le hfirst
        rw [hwrite]
        obtain ⟨c', hrun, hserver, hq₂, hc₂⟩ := ih hc₁ hq₁ (by decide) hrest
        exact ⟨c', hrun, hserver, hq₂, by rwa [List.append_assoc] at hc₂⟩
      · rw [if_neg (fun h => hten (hfull.mp h))]
        rw [if_neg hten] at hstore ⊢
        exact ih hc' hq' (by omega) hstore
    | flush =>
      rw [batches] at hstore ⊢
      change ∃ c', (c.batchWrite .put).bind _ = _ ∧ _
      by_cases hnil : pending = []
      · subst hnil
        rw [if_pos rfl] at hstore ⊢
        rw [batchWrite_nil hq]
        exact ih hc hq hlen hstore
      · rw [if_neg hnil] at hstore ⊢
        obtain ⟨s₁, hfirst, hrest⟩ := Option.bind_eq_some_iff.mp hstore
        obtain ⟨c₁, hwrite, rfl, hq₁, hc₁⟩ := hc.write hq hnil hlen.le hfirst
        rw [hwrite]
        obtain ⟨c', hrun, hserver, hq₂, hc₂⟩ := ih hc₁ hq₁ (by decide) hrest
        exact ⟨c', hrun, hserver, hq₂, by rwa [List.append_assoc] at hc₂⟩

/-- For all that a client does with its queue: the server performs `PUT` on exactly the pushed
pairs in the order of the pushes, up to those that still wait in the queue; each request announces
the length of what follows it, and each is answered by one reply. -/
theorem pushed_pairs_performed (s s' : Server) (hown : Owns s.map s.heap) (acts : List Act)
    (hstore : (batches [] acts).1.foldlM Server.storeBatch s = some s') :
    ∃ c, run .put acts (init s) = .ok c ∧ c.server = s' ∧
      Server.Performs s (batches [] acts).1.flatten s' ∧
      (batches [] acts).1.flatten ++ (batches [] acts).2 = pushed acts ∧
      Waits c.queue (batches [] acts).2 ∧
      c.requests = (batches [] acts).1.map (fun batch =>
        batchHeader 3 (encodeItems batch).length ++ encodeItems batch) ∧
      (∀ batch ∈ (batches [] acts).1, batch ≠ []) ∧
      c.replies.length = (batches [] acts).1.length ∧
      (∀ reply ∈ c.replies, reply.length = batchHeaderSize) ∧ c.unread = [] := by
  have hinit : Synced s [] (init s) := ⟨hown, .done s, rfl, rfl, nofun, rfl⟩
  obtain ⟨c, hrun, rfl, hq, hc⟩ := hinit.run Waits.init (by decide) hstore
  rw [List.nil_append] at hc
  exact ⟨c, hrun, rfl, hc.performs, flatten_batches [] acts, hq, hc.requests,
    batches_ne_nil [] acts, hc.replies, hc.whole, hc.unread⟩

section Sample

theorem pushed_pairs_performed_two :
    ∃ (s s' : Server) (acts : List Act), Server.init (fun _ => true) 0 = .ok s ∧
      (pushed acts).map BatchItem.key = [[97, 0], [98, 0]] ∧
      ∃ c, run .put acts (init s) = .ok c ∧ Server.Performs s (pushed acts) s' ∧
        c.replies.length = 1 := by
  let first : BatchItem := ⟨[97, 0], [1], by decide, by decide, by decide⟩
  let second : BatchItem := ⟨[98, 0], [], by decide, by decide, by decide⟩
  obtain ⟨s, hs⟩ : ∃ s, Server.init (fun _ => true) 0 = .ok s := ⟨_, rfl⟩
  have hown : Owns s.map s.heap := ((Server.init_meets (fun _ => true) 0).of_ok hs).1
  cases hs
  obtain ⟨c, hrun, -, hperf, -, -, -, -, hreplies, -, -⟩ :=
    pushed_pairs_performed _ _ hown [.push first, .push second, .flush] rfl
  exact ⟨_, _, _, rfl, rfl, c, hrun, hperf, hreplies⟩

end Sample

end BatchClient

end NtSocks.Ntkv
