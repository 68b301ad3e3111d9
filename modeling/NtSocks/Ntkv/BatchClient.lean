import NtSocks.Ntkv.Receive

/-!
# A client with a batch queue

The client pushes items to a queue of `BATCH_QUEUE_SIZE` places. The tenth item writes the queue
out, and so does the client at any time; a queue without items is not written. What is written is
one request, and the client then reads one reply. Reads and writes deliver whole buffers here.
-/

namespace NtSocks.Ntkv

open BlockHeap Faults LittleEndian

inductive Halt
  /-- The server has stopped. -/
  | fault (f : Fault)
  /-- The server waits for the rest of a request, or the client for a reply. -/
  | outOfStep
  deriving DecidableEq

def liftFault {α : Type} (x : Except Fault α) : Except Halt α := x.mapError .fault

theorem liftFault_eq_ok {α : Type} {x : Except Fault α} {a : α} :
    liftFault x = .ok a ↔ x = .ok a := by
  cases x with
  | ok b | error e => simp [liftFault, Except.mapError]

def delivered (bytes : List UInt8) : ByteSource := ⟨bytes, fun _ => 2 ^ 32⟩

variable {bytes : List UInt8} {n k : ℕ}

theorem read_delivered (hle : k ≤ bytes.length) (hk : k ≤ 2 ^ 32) :
    (delivered bytes).read k = some (bytes.take k, delivered (bytes.drop k)) := by
  rw [ByteSource.read]
  split_ifs with hzero hempty
  · rw [hzero]
    rfl
  · have hlen := congrArg List.length hempty
    rw [List.length_nil] at hlen
    change bytes.length = 0 at hlen
    omega
  · have hmin : max 1 (min (2 ^ 32) k) = k := by omega
    change some (bytes.take (max 1 (min (2 ^ 32) k)),
      delivered (bytes.drop (max 1 (min (2 ^ 32) k)))) = _
    rw [hmin]

theorem whole_delivered (hle : k ≤ bytes.length) (hk : k ≤ 2 ^ 32) : (delivered bytes).Whole k := by
  intro bs s' hread
  rw [read_delivered hle hk] at hread
  cases hread
  rw [List.length_take]
  omega

def Server.answer (s : Server) (request : List UInt8) : Except Halt (Server × List UInt8) :=
  match receive (delivered request) with
  | .ok (c, source) => if source.bytes = [] then liftFault (s.exec c) else .error .outOfStep
  | .error _ => .error .outOfStep

variable {c : Command}

theorem Command.WellFormed.payload_lt (hc : c.WellFormed) :
    c.retried = true → c.payload.length < 2 ^ 32 := by
  cases c with
  | batchPut data | batchGet data => exact fun _ => hc
  | remove data => exact fun _ => lt_trans hc (by norm_num)
  | _ => nofun

theorem Server.answer_encode (hc : c.WellFormed) (s : Server) :
    s.answer c.encode = liftFault (s.exec c) := by
  have hhead : messageSize ≤ c.encode.length := by
    rw [c.length_encode]
    exact Nat.le_add_right _ _
  have hwhole : WholeFor (delivered c.encode) c := by
    refine ⟨whole_delivered hhead (by decide), fun hretried head s' hread => ?_⟩
    rw [read_delivered hhead (by decide)] at hread
    cases hread
    refine whole_delivered ?_ (hc.payload_lt hretried).le
    rw [List.length_drop, c.length_encode, Nat.add_sub_cancel_left]
  have hbytes : (delivered c.encode).bytes = c.encode ++ [] := (List.append_nil _).symm
  obtain ⟨source, hreceive, hrest⟩ := receive_encode hc hbytes hwhole
  rw [Server.answer, hreceive]
  exact if_pos hrest

def readWhole (unread : List UInt8) (n : ℕ) : Except Halt (List UInt8 × List UInt8) :=
  if n ≤ unread.length then .ok (unread.take n, unread.drop n) else .error .outOfStep

theorem readWhole_append (hn : bytes.length = n) (rest : List UInt8) :
    readWhole (bytes ++ rest) n = .ok (bytes, rest) := by
  subst hn
  rw [readWhole, if_pos (by rw [List.length_append]; omega), List.take_left, List.drop_left]

theorem readWhole_self (hn : bytes.length = n) : readWhole bytes n = .ok (bytes, []) := by
  simpa using readWhole_append hn []

inductive BatchOp
  | put
  | get

namespace BatchOp

def code : BatchOp → UInt8
  | put => 3
  | get => 4

def command : BatchOp → List UInt8 → Command
  | put => .batchPut
  | get => .batchGet

def readReply (op : BatchOp) (unread : List UInt8) : Except Halt (List UInt8 × List UInt8) := do
  let (head, unread) ← readWhole unread batchHeaderSize
  match op with
  | put => pure (head, unread)
  | get =>
    let (data, unread) ← readWhole unread (decode (head.drop 1))
    pure (head ++ data, unread)

end BatchOp

structure BatchItem where
  key : List UInt8
  value : List UInt8
  key_lt : key.length < 2 ^ 16
  value_lt : value.length < 2 ^ 16
  terminated : 0 ∈ key

namespace BatchItem

variable (item : BatchItem)

def node : BatchNode (List UInt8) := ⟨item.key.length, item.value.length, item.key ++ item.value⟩

def encode : List UInt8 := item.node.encode (item.key ++ item.value)

theorem length_encode : item.encode.length = item.node.size := by
  rw [encode, BatchData.BatchNode.length_encode, List.length_append, BatchNode.size, Nat.add_assoc]
  rfl

theorem size_lt : item.node.size < 2 ^ 18 := by
  have hkey := item.key_lt
  have hvalue := item.value_lt
  change 4 + item.key.length + item.value.length < 2 ^ 18
  omega

end BatchItem

def encodeItems (items : List BatchItem) : List UInt8 := items.flatMap BatchItem.encode

def readNode (node : BatchNode (List UInt8)) : Except Fault (List UInt8) :=
  if node.keyLen + node.valueLen ≤ node.data.length then
    .ok (node.data.take (node.keyLen + node.valueLen))
  else .error .badRead

theorem readNode_node (item : BatchItem) : readNode item.node = .ok (item.key ++ item.value) := by
  have hlen : item.node.keyLen + item.node.valueLen = item.node.data.length :=
    List.length_append.symm
  rw [readNode, if_pos hlen.le, hlen, List.take_length]
  rfl

structure BatchClient where
  queue : BatchData (List UInt8)
  server : Server
  /-- The requests that were written, and the replies that were read. -/
  requests : List (List UInt8)
  replies : List (List UInt8)
  unread : List UInt8

namespace BatchClient

def init (server : Server) : BatchClient where
  queue := .init batchQueueSize
  server := server
  requests := []
  replies := []
  unread := []

variable (c : BatchClient) (op : BatchOp)

def batchWrite : Except Halt BatchClient :=
  if c.queue.queueSize = 0 then pure c
  else do
    let (out, queue) ← liftFault (c.queue.write readNode op.code)
    let (server, answer) ← c.server.answer out
    let (reply, unread) ← op.readReply (c.unread ++ answer)
    pure
      { queue := queue
        server := server
        requests := c.requests ++ [out]
        replies := c.replies ++ [reply]
        unread := unread }

def batchPush (item : BatchItem) : Except Halt BatchClient :=
  let c := { c with queue := c.queue.append item.node }
  if c.queue.Full then c.batchWrite op else pure c

inductive Act
  | push (item : BatchItem)
  | flush

def step (op : BatchOp) (c : BatchClient) : Act → Except Halt BatchClient
  | .push item => c.batchPush op item
  | .flush => c.batchWrite op

def run (op : BatchOp) (acts : List Act) (c : BatchClient) : Except Halt BatchClient :=
  acts.foldlM (step op) c

end BatchClient

open BatchClient (Act)

def pushed : List Act → List BatchItem
  | [] => []
  | .push item :: acts => item :: pushed acts
  | .flush :: acts => pushed acts

/-- The batches that are to be written, and the items that remain, where some items wait. -/
def batches : List BatchItem → List Act → List (List BatchItem) × List BatchItem
  | pending, [] => ([], pending)
  | pending, .push item :: acts =>
    if pending.length + 1 = batchQueueSize then
      ((pending ++ [item]) :: (batches [] acts).1, (batches [] acts).2)
    else batches (pending ++ [item]) acts
  | pending, .flush :: acts =>
    if pending = [] then batches [] acts
    else (pending :: (batches [] acts).1, (batches [] acts).2)

theorem flatten_batches (pending : List BatchItem) (acts : List Act) :
    (batches pending acts).1.flatten ++ (batches pending acts).2 = pending ++ pushed acts := by
  induction acts generalizing pending with
  | nil => rw [batches, pushed, List.flatten_nil, List.nil_append, List.append_nil]
  | cons act acts ih =>
    cases act with
    | push item =>
      rw [batches, pushed]
      split_ifs
      · rw [List.flatten_cons, List.append_assoc, ih, List.append_assoc]
        rfl
      · rw [ih, List.append_assoc]
        rfl
    | flush =>
      rw [batches, pushed]
      split_ifs with hnil
      · rw [ih, hnil]
      · rw [List.flatten_cons, List.append_assoc, ih]
        rfl

theorem batches_ne_nil (pending : List BatchItem) (acts : List Act) :
    ∀ batch ∈ (batches pending acts).1, batch ≠ [] := by
  induction acts generalizing pending with
  | nil => exact nofun
  | cons act acts ih =>
    cases act with
    | push item =>
      rw [batches]
      split_ifs
      · rintro batch (_ | ⟨_, hmem⟩)
        · exact List.append_ne_nil_of_right_ne_nil _ (List.cons_ne_nil _ _)
        · exact ih [] batch hmem
      · exact ih _
    | flush =>
      rw [batches]
      split_ifs with hnil
      · exact ih []
      · rintro batch (_ | ⟨_, hmem⟩)
        · exact hnil
        · exact ih [] batch hmem

structure Waits (q : BatchData (List UInt8)) (pending : List BatchItem) : Prop where
  counted : q.Counted
  items : q.items = pending.map BatchItem.node
  max : q.maxQueueSize = batchQueueSize

namespace Waits

variable {q : BatchData (List UInt8)} {pending : List BatchItem}

theorem init : Waits (.init batchQueueSize) [] :=
  ⟨BatchData.init_counted _, rfl, rfl⟩

theorem queueSize (hq : Waits q pending) : q.queueSize = pending.length := by
  rw [hq.counted.queueSize, hq.items, List.length_map]

theorem length_encodeItems (hq : Waits q pending) : (encodeItems pending).length = q.dataSize := by
  rw [hq.counted.dataSize, hq.items, List.map_map, encodeItems, List.length_flatMap]
  exact congrArg List.sum (List.map_congr_left fun item _ => item.length_encode)

theorem sum_size_le (items : List BatchItem) :
    (encodeItems items).length ≤ items.length * 2 ^ 18 := by
  rw [encodeItems, List.length_flatMap]
  exact BatchData.sum_map_le fun item _ => item.length_encode.trans_le item.size_lt.le

theorem append (hq : Waits q pending) (hlen : pending.length < batchQueueSize) (item : BatchItem) :
    Waits (q.append item.node) (pending ++ [item]) := by
  have hten : pending.length < 10 := hlen
  have hsize := sum_size_le pending
  rw [hq.length_encodeItems] at hsize
  have hlt := item.size_lt
  refine ⟨hq.counted.append ?_ ?_, ?_, hq.max⟩
  · rw [hq.queueSize]
    omega
  · omega
  · rw [List.map_append, ← hq.items]
    rfl

theorem full_iff (hq : Waits q pending) (hlen : pending.length < batchQueueSize) (item : BatchItem)
    : (q.append item.node).Full ↔ pending.length + 1 = batchQueueSize := by
  have hq' := hq.append hlen item
  rw [BatchData.Full, hq'.queueSize, hq'.max, List.length_append, List.length_singleton]
  omega

theorem write (hq : Waits q pending) (op : BatchOp) :
    ∃ q', q.write readNode op.code = .ok ((op.command (encodeItems pending)).encode, q') ∧
      Waits q' [] := by
  have hread : ∀ node ∈ q.items, readNode node = .ok node.data := by
    rw [hq.items]
    intro node hnode
    obtain ⟨item, -, rfl⟩ := List.mem_map.mp hnode
    exact readNode_node item
  have hlen : ∀ node ∈ q.items, node.data.length = node.keyLen + node.valueLen := by
    rw [hq.items]
    intro node hnode
    obtain ⟨item, -, rfl⟩ := List.mem_map.mp hnode
    exact List.length_append
  obtain ⟨q', hwrite, -, hq', hitems', hmax'⟩ := hq.counted.write hread hlen op.code
  refine ⟨q', ?_, hq', hitems', hmax'.trans hq.max⟩
  rw [hwrite, ← hq.length_encodeItems, hq.items, List.flatMap_map]
  cases op <;> rfl

end Waits

theorem BatchOp.wellFormed (op : BatchOp) {pending : List BatchItem}
    (hlen : pending.length ≤ batchQueueSize) : (op.command (encodeItems pending)).WellFormed := by
  have hten : pending.length ≤ 10 := hlen
  have hlt : (encodeItems pending).length < 2 ^ 32 := by
    have hsize := Waits.sum_size_le pending
    omega
  cases op with
  | put | get => exact hlt

namespace BatchClient

variable {c : BatchClient} {pending : List BatchItem} {op : BatchOp}

theorem batchWrite_nil (hq : Waits c.queue []) : c.batchWrite op = .ok c := if_pos hq.queueSize

theorem batchWrite_eq (hq : Waits c.queue pending) (hne : pending ≠ [])
    (hlen : pending.length ≤ batchQueueSize) (op : BatchOp) :
    ∃ q', Waits q' [] ∧ c.batchWrite op =
      (liftFault (c.server.exec (op.command (encodeItems pending)))).bind fun (server, answer) =>
        (op.readReply (c.unread ++ answer)).bind fun (reply, unread) =>
          .ok
            { queue := q'
              server := server
              requests := c.requests ++ [(op.command (encodeItems pending)).encode]
              replies := c.replies ++ [reply]
              unread := unread } := by
  obtain ⟨q', hwrite, hq'⟩ := hq.write op
  refine ⟨q', hq', ?_⟩
  have hsize : c.queue.queueSize ≠ 0 := by
    rw [hq.queueSize]
    exact fun h => hne (List.length_eq_zero_iff.mp h)
  rw [batchWrite, if_neg hsize, hwrite]
  change (c.server.answer _).bind _ = _
  rw [Server.answer_encode (op.wellFormed hlen)]
  rfl

theorem batchWrite_ok (hq : Waits c.queue pending) (hne : pending ≠ [])
    (hlen : pending.length ≤ batchQueueSize) {s' : Server} {answer reply unread : List UInt8}
    (hexec : c.server.exec (op.command (encodeItems pending)) = .ok (s', answer))
    (hreply : op.readReply (c.unread ++ answer) = .ok (reply, unread)) :
    ∃ q', Waits q' [] ∧ c.batchWrite op = .ok
      { queue := q'
        server := s'
        requests := c.requests ++ [(op.command (encodeItems pending)).encode]
        replies := c.replies ++ [reply]
        unread := unread } := by
  obtain ⟨q', hq', hwrite⟩ := batchWrite_eq hq hne hlen op
  refine ⟨q', hq', ?_⟩
  rw [hwrite, hexec]
  simp only [liftFault, Except.mapError, Except.bind, hreply]

theorem waits_of_batchWrite (hq : Waits c.queue pending) (hlen : pending.length ≤ batchQueueSize)
    {c' : BatchClient} (hwrite : c.batchWrite op = .ok c') : Waits c'.queue [] := by
  by_cases hne : pending = []
  · subst hne
    rw [batchWrite_nil hq] at hwrite
    cases hwrite
    exact hq
  · obtain ⟨q', hq', heq⟩ := batchWrite_eq hq hne hlen op
    rw [heq] at hwrite
    obtain ⟨r, -, hwrite⟩ := bind_eq_ok.mp hwrite
    obtain ⟨r', -, hwrite⟩ := bind_eq_ok.mp hwrite
    cases hwrite
    exact hq'

theorem run_pushes {items : List BatchItem} (hq : Waits c.queue pending)
    (hlt : pending.length < batchQueueSize)
    (hlen : pending.length + items.length ≤ batchQueueSize) :
    ∃ q, Waits q (pending ++ items) ∧
      run op (items.map Act.push ++ [.flush]) c = ({ c with queue := q }).batchWrite op := by
  induction items generalizing c pending with
  | nil =>
    refine ⟨c.queue, by rwa [List.append_nil], ?_⟩
    change (c.batchWrite op).bind _ = c.batchWrite op
    cases c.batchWrite op <;> rfl
  | cons item items ih =>
    have hq' := hq.append hlt item
    have hlen' : (pending ++ [item]).length = pending.length + 1 := List.length_append
    have hfull := hq.full_iff hlt item
    rw [List.length_cons] at hlen
    rw [List.map_cons, List.cons_append, run, List.foldlM_cons]
    change ∃ q, _ ∧ (c.batchPush op item).bind _ = _
    rw [batchPush]
    by_cases hten : pending.length + 1 = batchQueueSize
    · have hnil : items = [] := List.length_eq_zero_iff.mp (by omega)
      subst hnil
      rw [if_pos (hfull.mpr hten)]
      refine ⟨c.queue.append item.node, hq', ?_⟩
      cases hwrite : ({ c with queue := c.queue.append item.node } : BatchClient).batchWrite op with
      | error e => rfl
      | ok c' =>
        have hq'' := waits_of_batchWrite
          (c := { c with queue := c.queue.append item.node }) hq' (by omega) hwrite
        change (c'.batchWrite op).bind _ = _
        rw [batchWrite_nil hq'']
        rfl
    · rw [if_neg (fun h => hten (hfull.mp h))]
      obtain ⟨q, hq'', hrun⟩ := ih (c := { c with queue := c.queue.append item.node }) hq'
        (by omega) (by omega)
      rw [List.append_assoc] at hq''
      exact ⟨q, hq'', hrun⟩

end BatchClient

theorem readWhole_eq {unread rest : List UInt8} (h : readWhole unread n = .ok (bytes, rest)) :
    unread = bytes ++ rest := by
  rw [readWhole] at h
  split_ifs at h
  cases h
  exact (List.take_append_drop n unread).symm

theorem BatchOp.readReply_eq {op : BatchOp} {reply rest : List UInt8}
    (h : op.readReply bytes = .ok (reply, rest)) : bytes = reply ++ rest := by
  rw [BatchOp.readReply] at h
  obtain ⟨⟨head, unread⟩, hhead, h⟩ := bind_eq_ok.mp h
  have hbytes := readWhole_eq hhead
  cases op with
  | put =>
    cases h
    exact hbytes
  | get =>
    obtain ⟨⟨data, unread'⟩, hdata, h⟩ := bind_eq_ok.mp h
    cases h
    rw [hbytes, readWhole_eq hdata, List.append_assoc]

theorem BatchOp.readReply_get (errNo : UInt8) {data : List UInt8} (hdata : data.length < 2 ^ 32) :
    BatchOp.get.readReply (batchHeader errNo data.length ++ data) =
      .ok (batchHeader errNo data.length ++ data, []) := by
  have hhead : (batchHeader errNo data.length).length = batchHeaderSize := by
    rw [batchHeader, List.length_cons, length_encode]
    rfl
  have hlen : decode ((batchHeader errNo data.length).drop 1) = data.length :=
    decode_encode_of_lt hdata
  rw [BatchOp.readReply, readWhole_append hhead]
  change (readWhole data _).bind _ = _
  rw [hlen, readWhole_self rfl]
  rfl

end NtSocks.Ntkv
