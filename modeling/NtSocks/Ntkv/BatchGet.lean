import NtSocks.Ntkv.BatchPut
import NtSocks.Ntkv.Contents

/-!
# Batches of gets

The server looks the keys of a batch up one by one and collects an item for each, up to the first
key that is missing. An item has no value of its own: its value length is computed again from the
string at the stored address, and its bytes are those from `key_len` bytes before that address. The
items are written when the tenth one is collected or at the end, and a queue without items is not
written at all.
-/

namespace NtSocks.Ntkv

open BlockHeap Faults LittleEndian

namespace BatchItem

def str (item : BatchItem) : List UInt8 := item.key.takeWhile (· ≠ 0)

theorem key_eq (item : BatchItem) : ∃ rest, item.key = item.str ++ 0 :: rest ∧ 0 ∉ item.str :=
  Heap.exists_terminated item.terminated

end BatchItem

def found (present : List UInt8 → Bool) (keys : List BatchItem) : List BatchItem :=
  keys.takeWhile fun k => present k.str

def foundCode (present : List UInt8 → Bool) (keys : List BatchItem) : UInt8 :=
  if keys.all fun k => present k.str then MapStatus.ok.code else MapStatus.missing.code

namespace Server

structure NodeFor (m : Hashmap Ptr Ptr) (h : Heap) (key : BatchItem) (node : BatchNode Ptr) :
    Prop where
  keyLen : node.keyLen = key.key.length
  data : lookup m h key.str = some node.data
  valueLen : valueLength h node.data = .ok node.valueLen

structure Gathering (m : Hashmap Ptr Ptr) (h : Heap) (nodes : List (BatchNode Ptr)) (s : Server) :
    Prop where
  map : s.map = m
  ext : h.Extends s.heap
  owns : Owns m s.heap
  served : s.heap.Served
  queue : Queued s.queue nodes

def encodeNodes (h : Heap) (nodes : List (BatchNode Ptr)) : List UInt8 :=
  nodes.flatMap fun node => node.encode (BatchData.bytesOf (readItem h) node)

structure Written (h : Heap) (nodes : List (BatchNode Ptr)) (errNo : UInt8) (out : List UInt8) :
    Prop where
  read : ∀ node ∈ nodes, readItem h node = .ok (BatchData.bytesOf (readItem h) node)
  out : out = batchHeader errNo (encodeNodes h nodes).length ++ encodeNodes h nodes

variable {m : Hashmap Ptr Ptr} {h h' : Heap} {s s' : Server} {nodes : List (BatchNode Ptr)}
  {node : BatchNode Ptr} {key : BatchItem} {keys : List BatchItem} {b : ℕ} {bad : Fault → Prop}
  {p : List UInt8 → Bool} {done : List (BatchNode Ptr)} {bytes front value : List UInt8} {n : ℕ}

theorem valueLength_lt {p : Ptr} (hn : valueLength h p = .ok n) : n < 2 ^ 16 := by
  rw [valueLength] at hn
  split at hn
  · cases hn
    exact Nat.mod_lt _ (by norm_num)
  · cases hn

theorem valueLength_extends (hext : h.Extends h') {p : Ptr} (hp : h.HasData p.block) :
    valueLength h' p = valueLength h p := by
  rw [valueLength, valueLength, hext.cstring hp.2]

theorem readItem_extends (hext : h.Extends h') (hp : h.HasData node.data.block) :
    readItem h' node = readItem h node := by
  have hread := hext.read (p := ⟨node.data.block, node.data.offset - node.keyLen⟩) hp.2
    (node.keyLen + node.valueLen)
  rw [readItem, readItem, readBytes, readBytes, hread]

theorem readItem_length (hread : readItem h node = .ok bytes) :
    bytes.length = node.keyLen + node.valueLen := by
  rw [readItem] at hread
  split_ifs at hread
  rw [readBytes] at hread
  split at hread
  · next bs hbs =>
      cases hread
      obtain ⟨tail, -, hsome⟩ := Option.bind_eq_some_iff.mp hbs
      split_ifs at hsome with hlen
      rw [← Option.some.inj hsome, List.length_take, Nat.min_eq_left hlen]
  · cases hread

theorem NodeFor.hasData (hbase : Owns m h) (hnode : NodeFor m h key node) :
    h.HasData node.data.block := hbase.owned.hasData_of_lookup hnode.data

theorem NodeFor.size_lt (hnode : NodeFor m h key node) : node.size < 2 ^ 18 := by
  have hkey := key.key_lt
  have hvalue := valueLength_lt hnode.valueLen
  have hlen := hnode.keyLen
  rw [BatchNode.size, dataHeaderSize]
  omega

theorem Queued.append {q : BatchData Ptr} (hq : Queued q nodes)
    (hlen : nodes.length < batchQueueSize)
    (hnode : node.size < 2 ^ 18) : Queued (q.append node) (nodes ++ [node]) := by
  have hten : nodes.length < 10 := hlen
  have hsum := BatchData.sum_map_le fun n hn => (hq.small n hn).le
  have hdata := hq.counted.dataSize
  have hqueue := hq.counted.queueSize
  rw [hq.items] at hdata hqueue
  refine ⟨hq.counted.append (by omega) (by omega), ?_, hq.max, ?_⟩
  · rw [← hq.items]
    rfl
  · exact List.forall_mem_append.mpr ⟨hq.small, List.forall_mem_singleton.mpr hnode⟩

theorem Gathering.extend (hg : Gathering m h nodes s) :
    Gathering m h nodes { s with heap := s.heap.extend none } where
  map := hg.map
  ext := hg.ext.trans (Heap.extends_extend none)
  owns := hg.owns.extend none
  served := (Heap.extends_extend none).served hg.served
  queue := hg.queue

theorem Gathering.request (hg : Gathering m h nodes s) (hn : n ≠ 0) :
    s.heap.request n none = .ok (s.heap.next, s.heap.extend none) := by
  rw [Heap.request_eq, if_pos ⟨hn, hg.served _⟩]

theorem Gathering.batchWriteGetReply_nil (hg : Gathering m h [] s) (errNo : UInt8) :
    s.batchWriteGetReply errNo = .ok (s, []) := by
  have hsize : s.queue.queueSize = 0 := by
    rw [hg.queue.counted.queueSize, hg.queue.items]
    rfl
  rw [batchWriteGetReply, if_pos hsize]
  rfl

theorem Gathering.batchWriteGetReply (hbase : Owns m h) (hg : Gathering m h nodes s)
    (hne : nodes ≠ []) (hfor : ∀ node ∈ nodes, ∃ key, NodeFor m h key node)
    (hread : ∀ e, bad e → ∀ node ∈ nodes, ∃ bytes, readItem h node = .ok bytes) (errNo : UInt8) :
    Meets bad (fun r => Gathering m h [] r.1 ∧ Written h nodes errNo r.2)
      (s.batchWriteGetReply errNo) := by
  have hsize : s.queue.queueSize ≠ 0 := by
    rw [hg.queue.counted.queueSize, hg.queue.items]
    exact fun hzero => hne (List.length_eq_zero_iff.mp hzero)
  have hsame : ∀ node ∈ nodes, readItem (s.heap.extend none) node = readItem h node := by
    intro node hmem
    obtain ⟨key, hnode⟩ := hfor node hmem
    exact readItem_extends hg.extend.ext (hnode.hasData hbase)
  have hwrite : Meets bad (fun r => r.2.Counted ∧ r.2.items = [] ∧
      r.2.maxQueueSize = batchQueueSize ∧ Written h nodes errNo r.1)
      (s.queue.write (readItem (s.heap.extend none)) errNo) := by
    refine (hg.queue.counted.write_meets ?_ ?_ errNo).mono ?_
    · rw [hg.queue.items]
      intro e hbad node hmem
      rw [hsame node hmem]
      exact hread e hbad node hmem
    · exact fun node _ bytes hbytes => readItem_length hbytes
    · rintro ⟨out, q'⟩ ⟨hall, hout, hlen, hq', hitems', hmax'⟩
      rw [hg.queue.items] at hall hout hlen
      have hbytes : ∀ node ∈ nodes, BatchData.bytesOf (readItem (s.heap.extend none)) node =
          BatchData.bytesOf (readItem h) node :=
        fun node hmem => congrArg (fun r => r.toOption.getD []) (hsame node hmem)
      have hflat : _ = encodeNodes h nodes :=
        List.flatMap_congr fun node hmem => congrArg node.encode (hbytes node hmem)
      refine ⟨hq', hitems', hmax'.trans hg.queue.max, ⟨fun node hmem => ?_, ?_⟩⟩
      · rw [← hsame node hmem, ← hbytes node hmem]
        exact hall node hmem
      · rw [hout, ← hlen, hflat]
  rw [Server.batchWriteGetReply, if_neg hsize, hg.request (by simp [batchHeaderSize])]
  refine hwrite.bind ?_
  rintro ⟨out, q'⟩ ⟨hq', hitems', hmax', hwritten⟩
  have hg' := hg.extend
  exact ⟨⟨hg'.map, hg'.ext, hg'.owns, hg'.served, ⟨hq', hitems', hmax', List.forall_mem_nil _⟩⟩,
    hwritten⟩

def Fine (m : Hashmap Ptr Ptr) (h : Heap) (key : BatchItem) : Prop :=
  ∃ node bytes, NodeFor m h key node ∧ readItem h node = .ok bytes

def present (m : Hashmap Ptr Ptr) (h : Heap) (str : List UInt8) : Bool := (lookup m h str).isSome

/-- The items that the loop has collected for some keys, and what it has written: the queue is
either still waiting, or was written when it had ten items. -/
structure Collected (m : Hashmap Ptr Ptr) (h : Heap) (done : List (BatchNode Ptr))
    (keys : List BatchItem) (nodes : List (BatchNode Ptr)) (r : Server × UInt8 × List UInt8) :
    Prop where
  each : List.Forall₂ (NodeFor m h) (found (present m h) keys) nodes
  code : r.2.1 = foundCode (present m h) keys
  out : (r.2.2 = [] ∧ Gathering m h (done ++ nodes) r.1) ∨
    (r.2.1 = MapStatus.ok.code ∧ done ++ nodes ≠ [] ∧ Gathering m h [] r.1 ∧
      Written h (done ++ nodes) MapStatus.ok.code r.2.2)

theorem NodeFor.unique {node' : BatchNode Ptr} (hnode : NodeFor m h key node)
    (hnode' : NodeFor m h key node') : node' = node := by
  obtain ⟨keyLen, valueLen, data⟩ := node
  obtain ⟨keyLen', valueLen', data'⟩ := node'
  obtain ⟨rfl, hdata, hvalue⟩ := hnode
  obtain ⟨rfl, hdata', hvalue'⟩ := hnode'
  have hsame : data' = data := Option.some.inj (hdata'.symm.trans hdata)
  subst hsame
  cases hvalue'.symm.trans hvalue
  rfl

theorem Fine.read (hfine : Fine m h key) (hnode : NodeFor m h key node) :
    ∃ bytes, readItem h node = .ok bytes := by
  obtain ⟨node', bytes, hnode', hbytes⟩ := hfine
  rw [hnode'.unique hnode]
  exact ⟨bytes, hbytes⟩

theorem exists_nodeFor (heach : List.Forall₂ (NodeFor m h) keys nodes) :
    ∀ node ∈ nodes, ∃ key ∈ keys, NodeFor m h key node := by
  induction heach with
  | nil => exact nofun
  | cons hnode _ ih =>
    rintro a (_ | ⟨_, ha⟩)
    · exact ⟨_, List.mem_cons_self, hnode⟩
    · obtain ⟨key, hkey, hfor⟩ := ih a ha
      exact ⟨key, List.mem_cons_of_mem _ hkey, hfor⟩

theorem Gathering.push (hg : Gathering m h nodes s) (hnode : NodeFor m h key node)
    (hlen : nodes.length < batchQueueSize) :
    Gathering m h (nodes ++ [node])
      { s with heap := s.heap.extend none, queue := s.queue.append node } where
  map := hg.map
  ext := hg.extend.ext
  owns := hg.extend.owns
  served := hg.extend.served
  queue := hg.queue.append hlen hnode.size_lt

theorem Gathering.full_iff (hg : Gathering m h nodes s) (hnode : NodeFor m h key node)
    (hlen : nodes.length < batchQueueSize) :
    (s.queue.append node).Full ↔ nodes.length + 1 = batchQueueSize := by
  have hg' := hg.push hnode hlen
  have hsize := hg'.queue.counted.queueSize
  rw [hg'.queue.items, List.length_append, List.length_singleton] at hsize
  rw [BatchData.Full, hsize]
  change s.queue.maxQueueSize ≤ _ ↔ _
  rw [hg.queue.max]
  omega

theorem Gathering.defaultGet_item (hbase : Owns m h) (hlive : h.live b = true)
    (hbytes : h.bytes b = some (front ++ (key.encode ++ encodeItems keys)))
    (hg : Gathering m h done s) :
    s.map.defaultGet (serverKeys s.heap) ⟨b, front.length + dataHeaderSize⟩ =
      .ok (lookup m h key.str) := by
  have hdata : h.HasData b := ⟨hlive, by rw [hbytes]; rfl⟩
  have hstr : s.heap.cstring ⟨b, front.length + dataHeaderSize⟩ = some key.str := by
    obtain ⟨rest, hkey, hnot⟩ := key.key_eq
    have htail := tail_item front (encodeItems keys) key hlive hbytes
    rw [hg.ext.cstring hdata.2]
    rw [hkey, List.append_assoc, List.cons_append] at htail
    exact Heap.cstring_of_tail hnot htail
  rw [hg.map, hg.owns.defaultGet_eq hstr, hbase.owned.lookup_extends hg.ext]

theorem found_cons (hyes : p key.str = true) : found p (key :: keys) = key :: found p keys := by
  rw [found, List.takeWhile_cons, hyes, if_pos rfl, found]

theorem foundCode_cons (hyes : p key.str = true) :
    foundCode p (key :: keys) = foundCode p keys := by
  rw [foundCode, List.all_cons, hyes, Bool.true_and, foundCode]

theorem collected_missing (hno : present m h key.str = false) (hg : Gathering m h done s) :
    Collected m h done (key :: keys) [] (s, MapStatus.missing.code, []) := by
  refine ⟨?_, ?_, Or.inl ⟨rfl, ?_⟩⟩
  · rw [found, List.takeWhile_cons, hno]
    exact .nil
  · rw [foundCode, List.all_cons, hno]
    rfl
  · rw [List.append_nil]
    exact hg

theorem Collected.cons {r : Server × UInt8 × List UInt8} (hyes : present m h key.str = true)
    (hnode : NodeFor m h key node) (hc : Collected m h (done ++ [node]) keys nodes r) :
    Collected m h done (key :: keys) (node :: nodes) r := by
  refine ⟨?_, ?_, ?_⟩
  · rw [found_cons hyes]
    exact .cons hnode hc.each
  · rw [foundCode_cons hyes]
    exact hc.code
  · have hout := hc.out
    rwa [List.append_assoc, List.singleton_append] at hout

theorem Gathering.batchGetLoop {fuel : ℕ} {errNo : UInt8} (hbase : Owns m h)
    (hlive : h.live b = true) (hbytes : h.bytes b = some (front ++ encodeItems keys))
    (hvalue : ∀ key ∈ keys, key.value = []) (hg : Gathering m h done s)
    (hfor : ∀ node ∈ done, ∃ key, NodeFor m h key node) (hdone : done.length < batchQueueSize)
    (hroom : done.length + keys.length ≤ batchQueueSize) (hfuel : keys.length ≤ fuel)
    (herr : keys = [] → errNo = MapStatus.ok.code)
    (hread : ∀ e, bad e → (∀ node ∈ done, ∃ bytes, readItem h node = .ok bytes) ∧
      ∀ key ∈ found (present m h) keys, Fine m h key) :
    Meets bad (fun r => ∃ nodes, Collected m h done keys nodes r)
      (batchGetLoop b (front ++ encodeItems keys) (fuel + 1) front.length s errNo) := by
  induction keys generalizing s front done fuel errNo with
  | nil =>
    rw [Server.batchGetLoop, if_neg (by simp [encodeItems])]
    refine ⟨[], .nil, herr rfl, Or.inl ⟨rfl, ?_⟩⟩
    rw [List.append_nil]
    exact hg
  | cons key keys ih =>
    obtain ⟨fuel, rfl⟩ := Nat.exists_eq_add_one_of_ne_zero (Nat.ne_zero_of_lt hfuel)
    rw [encodeItems_cons] at hbytes
    have hsize : front.length + (dataHeaderSize + key.key.length) =
        (front ++ key.encode).length := by
      rw [← length_append_encode, BatchNode.size, BatchItem.node,
        hvalue key List.mem_cons_self, List.length_nil, Nat.add_zero]
    rw [Server.batchGetLoop, if_pos (length_lt_encodeItems front key keys), encodeItems_cons,
      dataHeader_encode]
    change Meets _ _ ((s.map.defaultGet _ _).bind _)
    rw [hg.defaultGet_item hbase hlive hbytes]
    cases hlookup : lookup m h key.str with
    | none =>
      have hno : present m h key.str = false := by
        rw [present, hlookup]
        rfl
      exact ⟨[], collected_missing hno hg⟩
    | some value =>
      have hyes : present m h key.str = true := by
        rw [present, hlookup]
        rfl
      rw [found_cons hyes] at hread
      change Meets _ _ ((s.heap.request batchNodeBytes none).bind _)
      rw [hg.request (by decide)]
      change Meets _ _ ((valueLength _ _).bind _)
      rw [valueLength_extends hg.extend.ext (hbase.owned.hasData_of_lookup hlookup)]
      cases hlength : valueLength h value with
      | error e =>
        intro hbad
        obtain ⟨node, -, hnode, -⟩ := (hread e hbad).2 key List.mem_cons_self
        cases hlookup.symm.trans hnode.data
        rw [hnode.valueLen] at hlength
        cases hlength
      | ok n =>
        have hnode : NodeFor m h key ⟨key.key.length, n, value⟩ := ⟨rfl, hlookup, hlength⟩
        have hg' := hg.push hnode hdone
        have hfor' : ∀ node ∈ done ++ [⟨key.key.length, n, value⟩],
            ∃ key, NodeFor m h key node :=
          List.forall_mem_append.mpr ⟨hfor, List.forall_mem_singleton.mpr ⟨key, hnode⟩⟩
        have hread' : ∀ e, bad e → ∀ node ∈ done ++ [⟨key.key.length, n, value⟩],
            ∃ bytes, readItem h node = .ok bytes :=
          fun e hbad => List.forall_mem_append.mpr ⟨(hread e hbad).1, List.forall_mem_singleton.mpr
              (((hread e hbad).2 key List.mem_cons_self).read hnode)⟩
        have hfull := hg.full_iff hnode hdone
        have hlen' : (done ++ [(⟨key.key.length, n, value⟩ : BatchNode Ptr)]).length =
            done.length + 1 := List.length_append
        change Meets _ _ ((Server.batchPush _ _).bind _)
        rw [batchPush]
        rw [List.length_cons] at hroom hfuel
        by_cases hten : done.length + 1 = batchQueueSize
        · -- the tenth item is the last one, and the loop ends behind it
          have hnil : keys = [] := List.length_eq_zero_iff.mp (by omega)
          subst hnil
          rw [if_pos (hfull.mpr hten)]
          refine (Gathering.batchWriteGetReply hbase hg' (by simp) hfor' hread' 0).bind ?_
          rintro ⟨s', out⟩ ⟨hg'', hwritten⟩
          dsimp only
          rw [Server.batchGetLoop, if_neg (by rw [hsize]; simp [encodeItems])]
          refine ⟨_, .cons hyes hnode ⟨.nil, rfl, Or.inr ⟨rfl, by simp, hg'', ?_⟩⟩⟩
          change Written _ _ _ (out ++ [])
          rw [List.append_nil, List.append_nil]
          exact hwritten
        · rw [if_neg (fun hf => hten (hfull.mp hf))]
          change Meets _ _ ((Server.batchGetLoop _ _ _ _ _ _).bind _)
          rw [hsize, ← List.append_assoc]
          refine (ih (by rw [List.append_assoc]; exact hbytes)
            (fun k hk => hvalue k (List.mem_cons_of_mem _ hk)) hg' hfor' (by omega) (by omega)
            (by omega) (fun _ => rfl) (fun e hbad => ⟨hread' e hbad, fun k hk =>
              (hread e hbad).2 k (List.mem_cons_of_mem _ hk)⟩)).bind ?_
          rintro ⟨s', errNo', out⟩ ⟨nodes, hcollected⟩
          exact ⟨_ :: nodes, hcollected.cons hyes hnode⟩

theorem cmdBatchGet_found (hown : Owns s.map s.heap) (hserved : s.heap.Served)
    (hqueue : Queued s.queue []) (hne : keys ≠ []) (hlen : keys.length ≤ batchQueueSize)
    (hvalue : ∀ key ∈ keys, key.value = []) (hh : h = s.heap.extend (some (encodeItems keys)))
    (hread : ∀ e, bad e → ∀ key ∈ found (present s.map h) keys, Fine s.map h key) :
    Meets bad (fun r => ∃ nodes,
        List.Forall₂ (NodeFor s.map h) (found (present s.map h) keys) nodes ∧
        (nodes = [] → r.2 = []) ∧
        (nodes ≠ [] → Written h nodes (foundCode (present s.map h) keys) r.2))
      (s.cmdBatchGet (encodeItems keys)) := by
  have hdata : encodeItems keys ≠ [] := encodeItems_ne_nil hne
  have hbase : Owns s.map h := hh ▸ hown.extend _
  have hg : Gathering s.map h [] { s with heap := h } :=
    ⟨rfl, .refl h, hbase, hh ▸ (Heap.extends_extend _).served hserved, hqueue⟩
  have hbytes : h.bytes s.heap.next = some ([] ++ encodeItems keys) :=
    hh ▸ Function.update_self ..
  have hlive : h.live s.heap.next = true := hh ▸ Function.update_self ..
  have hrequest : s.heap.request (encodeItems keys).length (some (encodeItems keys)) =
      .ok (s.heap.next, h) := by
    rw [Heap.request_eq, hh,
      if_pos ⟨fun hzero => hdata (List.length_eq_zero_iff.mp hzero), hserved _⟩]
  rw [cmdBatchGet, if_neg hdata, hrequest]
  have hloop : Meets bad (fun r => ∃ nodes, Collected s.map h [] keys nodes r)
      (batchGetLoop s.heap.next ([] ++ encodeItems keys) ((encodeItems keys).length + 1)
        ([] : List UInt8).length { s with heap := h } s.junk) :=
    Gathering.batchGetLoop hbase hlive hbytes hvalue hg (List.forall_mem_nil _) (by decide)
      (by rw [List.length_nil]; omega) (length_le_encodeItems keys)
      (fun hnil => absurd hnil hne) (fun e hbad => ⟨List.forall_mem_nil _, hread e hbad⟩)
  refine hloop.bind ?_
  rintro ⟨s', errNo, out⟩ ⟨nodes, hcollected⟩
  obtain ⟨heach, rfl, hout⟩ := hcollected
  rw [List.nil_append] at hout
  dsimp only at hout ⊢
  rcases hout with ⟨rfl, hg'⟩ | ⟨hok, hnodes, hg', hwritten⟩
  · by_cases hnil : nodes = []
    · subst hnil
      rw [hg'.batchWriteGetReply_nil]
      exact ⟨[], heach, fun _ => rfl, fun hno => absurd rfl hno⟩
    · have hfor := exists_nodeFor heach
      have hread' : ∀ e, bad e → ∀ node ∈ nodes, ∃ bytes, readItem h node = .ok bytes := by
        intro e hbad node hmem
        obtain ⟨key, hkey, hnode⟩ := hfor node hmem
        exact (hread e hbad key hkey).read hnode
      refine (Gathering.batchWriteGetReply hbase hg' hnil
        (fun node hmem => (hfor node hmem).imp fun _ h => h.2) hread' _).bind ?_
      rintro ⟨s'', out'⟩ ⟨-, hwritten⟩
      exact ⟨nodes, heach, fun hno => absurd hno hnil, fun _ => hwritten⟩
  · rw [hg'.batchWriteGetReply_nil]
    refine ⟨nodes, heach, fun hno => absurd hno hnodes, fun _ => ?_⟩
    change Written _ _ _ (out ++ [])
    rw [List.append_nil, hok]
    exact hwritten

/-- The value of a key ends at its first zero byte, or has the length of its string modulo `2 ^ 16`,
and the key lies directly before it. -/
def Echoed (m : Hashmap Ptr Ptr) (h : Heap) (f : List UInt8 → Option (List UInt8))
    (key : BatchItem) : Prop :=
  ∀ p value, lookup m h key.str = some p → f key.str = some value →
    (∃ str, h.cstring p = some str ∧ (str.length + 1) % 2 ^ 16 = value.length) ∧
    key.key.length ≤ p.offset ∧
    h.read ⟨p.block, p.offset - key.key.length⟩ key.key.length = some key.key

variable {f : List UInt8 → Option (List UInt8)}

theorem Stores.present_eq (hstores : Stores m h f) : present m h = fun str => (f str).isSome := by
  funext str
  rw [present]
  rcases hstores str with ⟨hf, hlookup⟩ | ⟨value, p, hf, hlookup, -⟩ <;>
  · rw [hf, hlookup]
    rfl

theorem Stores.of_some (hstores : Stores m h f) {str : List UInt8} (hf : f str = some value) :
    ∃ p, lookup m h str = some p ∧ value.length < 2 ^ 16 ∧ h.read p value.length = some value := by
  rcases hstores str with ⟨hnone, -⟩ | ⟨value', p, hf', hread⟩
  · rw [hnone] at hf
    cases hf
  · cases hf'.symm.trans hf
    exact ⟨p, hread⟩

theorem echoed_extends_iff (hown : Owns m h) (hext : h.Extends h') :
    Echoed m h' f key ↔ Echoed m h f key := by
  rw [Echoed, Echoed, hown.owned.lookup_extends hext]
  refine forall_congr' fun p => forall_congr' fun value => imp_congr_right fun hlookup => ?_
  have hdata := (hown.owned.hasData_of_lookup hlookup).2
  rw [hext.cstring hdata, hext.read (p := ⟨p.block, p.offset - key.key.length⟩) hdata]

theorem readItem_eq_ok_iff :
    readItem h node = .ok bytes ↔ node.keyLen ≤ node.data.offset ∧
      h.read ⟨node.data.block, node.data.offset - node.keyLen⟩ (node.keyLen + node.valueLen) =
        some bytes := by
  rw [readItem, readBytes]
  split_ifs with hlt
  · simp [hlt]
  · rw [not_lt] at hlt
    cases h.read ⟨node.data.block, node.data.offset - node.keyLen⟩
        (node.keyLen + node.valueLen) with
    | none => simp
    | some bs => simp [hlt]

theorem valueLength_eq_ok_iff {p : Ptr} :
    valueLength h p = .ok n ↔ ∃ str, h.cstring p = some str ∧ (str.length + 1) % 2 ^ 16 = n := by
  rw [valueLength]
  cases h.cstring p with
  | none | some str => simp

theorem Stores.echoed_iff (hstores : Stores m h f) (hf : f key.str = some value)
    (hnode : lookup m h key.str = some node.data) (hkeyLen : node.keyLen = key.key.length) :
    Echoed m h f key ↔ valueLength h node.data = .ok value.length ∧
      readItem h { node with valueLen := value.length } = .ok (key.key ++ value) := by
  obtain ⟨p, hlookup, -, hvalue⟩ := hstores.of_some hf
  cases hlookup.symm.trans hnode
  rw [valueLength_eq_ok_iff, readItem_eq_ok_iff]
  dsimp only
  rw [hkeyLen, ← List.length_append, Heap.read_append_iff]
  constructor
  · intro hecho
    obtain ⟨hstr, hle, hkey⟩ := hecho _ _ hnode hf
    refine ⟨hstr, hle, hkey, ?_⟩
    rw [Nat.sub_add_cancel hle]
    exact hvalue
  · rintro ⟨hstr, hle, hkey, -⟩ p value' hlookup hf'
    cases hlookup.symm.trans hnode
    cases hf'.symm.trans hf
    exact ⟨hstr, hle, hkey⟩

end Server

def encodePair (key value : List UInt8) : List UInt8 :=
  LittleEndian.encode 2 key.length ++ LittleEndian.encode 2 value.length ++ (key ++ value)

theorem length_encodePair (key value : List UInt8) :
    (encodePair key value).length = 4 + key.length + value.length := by
  simp only [encodePair, List.length_append, length_encode]
  omega

/-- The pairs of the keys that precede the first missing one. -/
def encodeFound (f : List UInt8 → Option (List UInt8)) (keys : List BatchItem) : List UInt8 :=
  (found (fun str => (f str).isSome) keys).flatMap fun key =>
    encodePair key.key ((f key.str).getD [])

def batchGetReply (f : List UInt8 → Option (List UInt8)) (keys : List BatchItem) : List UInt8 :=
  batchHeader (foundCode (fun str => (f str).isSome) keys) (encodeFound f keys).length ++
    encodeFound f keys

theorem encode_append_inj {D : Type} {node : BatchNode D} {bytes key value rest rest' : List UInt8}
    (hkey : node.keyLen = key.length) (hlen : bytes.length = node.keyLen + node.valueLen)
    (hnode : node.valueLen < 2 ^ 16) (hvalue : value.length < 2 ^ 16)
    (heq : node.encode bytes ++ rest = encodePair key value ++ rest') :
    node.valueLen = value.length ∧ bytes = key ++ value ∧ rest = rest' := by
  simp only [BatchNode.encode, encodePair, List.append_assoc, hkey] at heq
  obtain ⟨-, heq⟩ := List.append_inj heq rfl
  obtain ⟨hlens, heq⟩ := List.append_inj heq (by rw [length_encode, length_encode])
  have hvalueLen : node.valueLen = value.length := by
    have hdecode := congrArg decode hlens
    rwa [decode_encode_of_lt hnode, decode_encode_of_lt hvalue] at hdecode
  rw [← List.append_assoc key] at heq
  obtain ⟨hbytes, hrest⟩ := List.append_inj heq (by
    rw [hlen, hkey, hvalueLen, List.length_append])
  exact ⟨hvalueLen, hbytes, hrest⟩

namespace Server

variable {m : Hashmap Ptr Ptr} {h : Heap} {s : Server} {nodes : List (BatchNode Ptr)}
  {node : BatchNode Ptr} {key : BatchItem} {keys : List BatchItem}
  {f : List UInt8 → Option (List UInt8)}

theorem Stores.node_echoed_iff (hstores : Stores m h f) {value : List UInt8}
    (hf : f key.str = some value) (hnode : NodeFor m h key node)
    (hread : readItem h node = .ok (BatchData.bytesOf (readItem h) node)) :
    node.valueLen = value.length ∧ BatchData.bytesOf (readItem h) node = key.key ++ value ↔
      Echoed m h f key := by
  rw [hstores.echoed_iff hf hnode.data hnode.keyLen]
  constructor
  · rintro ⟨hlen, hbytes⟩
    have hsame : { node with valueLen := value.length } = node := by rw [← hlen]
    rw [hsame, ← hbytes, ← hlen]
    exact ⟨hnode.valueLen, hread⟩
  · rintro ⟨hlen, hitem⟩
    have hvalueLen : node.valueLen = value.length := by
      rw [hnode.valueLen] at hlen
      exact Except.ok.inj hlen
    have hsame : { node with valueLen := value.length } = node := by rw [← hvalueLen]
    rw [hsame, hread] at hitem
    exact ⟨hvalueLen, Except.ok.inj hitem⟩

theorem Stores.flatMap_eq_iff (hstores : Stores m h f)
    (heach : List.Forall₂ (NodeFor m h) keys nodes) (hfound : ∀ key ∈ keys, (f key.str).isSome)
    (hread : ∀ node ∈ nodes, readItem h node = .ok (BatchData.bytesOf (readItem h) node)) :
    (encodeNodes h nodes = keys.flatMap fun key => encodePair key.key ((f key.str).getD [])) ↔
      ∀ key ∈ keys, Echoed m h f key := by
  rw [encodeNodes]
  induction heach with
  | nil => simp
  | @cons key node keys nodes hnode _ ih =>
    obtain ⟨value, hf⟩ := Option.isSome_iff_exists.mp (hfound key List.mem_cons_self)
    obtain ⟨-, -, hlt, -⟩ := hstores.of_some hf
    have hone := hread node List.mem_cons_self
    have hrest := ih (fun k hk => hfound k (List.mem_cons_of_mem _ hk))
      fun n hn => hread n (List.mem_cons_of_mem _ hn)
    rw [List.flatMap_cons, List.flatMap_cons, List.forall_mem_cons, ← hrest,
      ← hstores.node_echoed_iff hf hnode hone, hf, Option.getD_some]
    constructor
    · intro heq
      obtain ⟨hlen, hbytes, htail⟩ := encode_append_inj hnode.keyLen (readItem_length hone)
        (valueLength_lt hnode.valueLen) hlt heq
      exact ⟨⟨hlen, hbytes⟩, htail⟩
    · rintro ⟨⟨hlen, hbytes⟩, htail⟩
      rw [htail, hbytes, BatchNode.encode, hnode.keyLen, hlen, encodePair]

theorem fine_of_echoed (hstores : Stores m h f) (hf : (f key.str).isSome)
    (hecho : Echoed m h f key) : Fine m h key := by
  obtain ⟨value, hf⟩ := Option.isSome_iff_exists.mp hf
  obtain ⟨p, hlookup, -⟩ := hstores.of_some hf
  let node : BatchNode Ptr := ⟨key.key.length, value.length, p⟩
  have hnode : lookup m h key.str = some node.data := hlookup
  obtain ⟨hlen, hitem⟩ := (hstores.echoed_iff hf hnode rfl).mp hecho
  exact ⟨_, _, ⟨rfl, hlookup, hlen⟩, hitem⟩

theorem Stores.length_lt (hstores : Stores m h f) (str : List UInt8) :
    ((f str).getD []).length < 2 ^ 16 := by
  rcases hstores str with ⟨hnone, -⟩ | ⟨value, -, hf, -, hlt, -⟩
  · rw [hnone]
    norm_num
  · rw [hf]
    exact hlt

theorem Stores.length_encodeFound (hstores : Stores m h f) (hlen : keys.length ≤ batchQueueSize) :
    (encodeFound f keys).length < 2 ^ 32 := by
  have hten : keys.length ≤ 10 := hlen
  have hsub := (List.takeWhile_sublist (l := keys) fun k => (f k.str).isSome).length_le
  have hbound : (encodeFound f keys).length ≤
      (found (fun str => (f str).isSome) keys).length * 2 ^ 18 := by
    rw [encodeFound, List.length_flatMap]
    refine BatchData.sum_map_le fun key _ => ?_
    have hkey := key.key_lt
    have hvalue := hstores.length_lt key.str
    rw [length_encodePair]
    omega
  rw [found] at hbound
  omega

/-- The reply of the server is the right one exactly if the first key is present and all keys before
the first missing one are echoed. -/
theorem Ready.cmdBatchGet_iff (hs : s.Ready f) (hne : keys ≠ [])
    (hlen : keys.length ≤ batchQueueSize) (hvalue : ∀ key ∈ keys, key.value = []) :
    (∃ s', s.cmdBatchGet (encodeItems keys) = .ok (s', batchGetReply f keys)) ↔
      found (fun str => (f str).isSome) keys ≠ [] ∧
        ∀ key ∈ found (fun str => (f str).isSome) keys, Echoed s.map s.heap f key := by
  obtain ⟨h, hh⟩ : ∃ h, h = s.heap.extend (some (encodeItems keys)) := ⟨_, rfl⟩
  have hext : s.heap.Extends h := hh ▸ Heap.extends_extend _
  have hstores : Stores s.map h f := hs.stores.extends hs.owns.owned hext
  have hpresent : present s.map h = fun str => (f str).isSome := hstores.present_eq
  have hfound : ∀ key ∈ found (fun str => (f str).isSome) keys, (f key.str).isSome :=
    List.all_eq_true.mp List.all_takeWhile
  have hecho : (∀ key ∈ found (fun str => (f str).isSome) keys, Echoed s.map s.heap f key) ↔
      ∀ key ∈ found (fun str => (f str).isSome) keys, Echoed s.map h f key :=
    forall₂_congr fun key _ => (echoed_extends_iff hs.owns hext).symm
  rw [hecho]
  constructor
  · rintro ⟨s', hcmd⟩
    have hmeets : Meets (fun _ => False) _ (s.cmdBatchGet (encodeItems keys)) :=
      cmdBatchGet_found hs.owns hs.served hs.queue hne hlen hvalue hh nofun
    obtain ⟨nodes, heach, hnil, hwritten⟩ := hmeets.of_ok hcmd
    rw [hpresent] at heach hwritten
    have hnodes : nodes ≠ [] := by
      intro hno
      have hout := hnil hno
      rw [batchGetReply, batchHeader] at hout
      cases hout
    obtain ⟨hread, hout⟩ := hwritten hnodes
    refine ⟨fun hno => hnodes ?_, (hstores.flatMap_eq_iff heach hfound hread).mp ?_⟩
    · rw [hno] at heach
      exact List.forall₂_nil_left_iff.mp heach
    · exact (List.append_inj hout (by simp [batchHeader])).2.symm
  · rintro ⟨hsome, hall⟩
    have hfine : ∀ key ∈ found (present s.map h) keys, Fine s.map h key := by
      rw [hpresent]
      exact fun key hkey => fine_of_echoed hstores (hfound key hkey) (hall key hkey)
    have hmeets : Meets (fun _ => True) _ (s.cmdBatchGet (encodeItems keys)) :=
      cmdBatchGet_found hs.owns hs.served hs.queue hne hlen hvalue hh fun _ _ => hfine
    obtain ⟨⟨s', out⟩, hcmd, nodes, heach, -, hwritten⟩ := exists_of_meets hmeets
    rw [hpresent] at heach hwritten
    have hnodes : nodes ≠ [] := by
      rintro rfl
      exact hsome (List.forall₂_nil_right_iff.mp heach)
    obtain ⟨hread, rfl⟩ := hwritten hnodes
    rw [(hstores.flatMap_eq_iff heach hfound hread).mpr hall] at hcmd
    exact ⟨s', hcmd⟩

end Server

namespace BatchClient

/-- A client that pushes up to `BATCH_QUEUE_SIZE` keys and flushes gets exactly one reply, with the
pairs of the keys before the first missing one, exactly if the first key is present and each of
these keys lies directly before its value, which ends at its first zero byte. -/
theorem batch_get_reply_iff (s : Server) (f : List UInt8 → Option (List UInt8)) (hs : s.Ready f)
    (keys : List BatchItem) (hne : keys ≠ []) (hlen : keys.length ≤ batchQueueSize)
    (hvalue : ∀ key ∈ keys, key.value = []) :
    (∃ c, run .get (keys.map Act.push ++ [.flush]) (init s) = .ok c ∧
        c.replies = [batchGetReply f keys] ∧ c.unread = []) ↔
      found (fun str => (f str).isSome) keys ≠ [] ∧
        ∀ key ∈ found (fun str => (f str).isSome) keys, Server.Echoed s.map s.heap f key := by
  obtain ⟨q, hq, hrun⟩ : ∃ q, Waits q ([] ++ keys) ∧
      run .get (keys.map Act.push ++ [.flush]) (init s) =
        ({ init s with queue := q }).batchWrite .get :=
    run_pushes Waits.init (by decide) (by rw [List.length_nil]; omega)
  rw [List.nil_append] at hq
  rw [← hs.cmdBatchGet_iff hne hlen hvalue, hrun]
  constructor
  · rintro ⟨c, hwrite, hreplies, hunread⟩
    obtain ⟨q', -, heq⟩ := batchWrite_eq (c := { init s with queue := q }) hq hne hlen .get
    rw [heq] at hwrite
    obtain ⟨⟨s', answer⟩, hexec, hwrite⟩ := bind_eq_ok.mp hwrite
    obtain ⟨⟨reply, unread⟩, hreply, hwrite⟩ := bind_eq_ok.mp hwrite
    cases hwrite
    cases hreplies
    subst hunread
    have hanswer : [] ++ answer = batchGetReply f keys ++ [] := BatchOp.readReply_eq hreply
    rw [List.nil_append, List.append_nil] at hanswer
    exact ⟨s', hanswer ▸ liftFault_eq_ok.mp hexec⟩
  · rintro ⟨s', hcmd⟩
    have hexec : ({ init s with queue := q } : BatchClient).server.exec
        (BatchOp.get.command (encodeItems keys)) = .ok (s', batchGetReply f keys) := hcmd
    obtain ⟨q', -, hwrite⟩ := batchWrite_ok (c := { init s with queue := q }) hq hne hlen hexec
      (BatchOp.readReply_get _ (hs.stores.length_encodeFound hlen))
    exact ⟨_, hwrite, rfl, rfl⟩

section Sample

def sampleKey : BatchItem := ⟨[97, 0], [], by decide, by decide, by decide⟩

theorem batch_get_reply_found :
    ∃ (s : Server) (f : List UInt8 → Option (List UInt8)), s.Ready f ∧
      ∃ c, run .get [.push sampleKey, .flush] (init s) = .ok c ∧
        c.replies = [[0, 8, 0, 0, 0, 2, 0, 2, 0, 97, 0, 98, 0]] ∧ c.unread = [] := by
  obtain ⟨s₀, hs₀⟩ : ∃ s, Server.init (fun _ => true) 0 = .ok s := ⟨_, rfl⟩
  obtain ⟨hready, hsound⟩ := Server.ready_init (fun _ => rfl) hs₀
  have hsize : s₀.map.size = 0 := by
    cases hs₀
    rfl
  have hmeets : Meets (fun _ => True) (s₀.PutDone ([97] ++ 0 :: []) [98, 0] [97])
      (s₀.cmdPut ([97] ++ 0 :: [] : List UInt8).length ([97] ++ 0 :: [] ++ [98, 0])) := by
    refine Server.cmdPut_done hready.owns hready.served hsound (by decide) ?_
    rintro - ⟨-, -, hpast⟩
    rw [hsize] at hpast
    exact absurd hpast (by decide)
  obtain ⟨⟨s, out⟩, -, hdone⟩ := exists_of_meets hmeets
  have hs := hdone.ready hready (by decide)
  refine ⟨s, _, hs, ?_⟩
  refine (batch_get_reply_iff s _ hs [sampleKey] (by simp) (by decide) (by simp [sampleKey])).mpr
    ⟨by decide, ?_⟩
  intro key hkey p value hlookup hf
  obtain rfl : key = sampleKey := by
    simpa using (List.takeWhile_prefix _).subset hkey
  cases hdone.lookup.symm.trans hlookup
  cases hf
  have htail : s.heap.tail ⟨s₀.heap.next, 0 + 2⟩ = some [98, 0] := by
    rw [Heap.tail_add, hdone.tail]
    rfl
  refine ⟨⟨[98], ?_, by decide⟩, le_refl 2, ?_⟩
  · exact Heap.cstring_of_tail (by decide) htail
  · exact Heap.read_eq_some_iff.mpr ⟨[98, 0], hdone.tail⟩

/-- A new server sends no reply for a missing key, and the client waits. -/
theorem missing_key_gets_no_reply :
    ∃ s : Server, Server.init (fun _ => true) 0 = .ok s ∧ s.Ready (fun _ => none) ∧
      (∃ s', s.exec (.batchGet (encodeItems [sampleKey])) = .ok (s', [])) ∧
      run .get [.push sampleKey, .flush] (init s) = .error .outOfStep ∧
      batchGetReply (fun _ => none) [sampleKey] = [2, 0, 0, 0, 0] := by
  refine ⟨_, rfl, (Server.ready_init (fun _ => rfl) rfl).1, ⟨_, rfl⟩, rfl, rfl⟩

end Sample

end BatchClient

end NtSocks.Ntkv
