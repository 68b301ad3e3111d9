import NtSocks.HashMapRefinement
import NtSocks.Lib.BucketWalk

/-!
# The entries of the hash map in memory and its iterator

The first entry of a bucket is a place of the table, the others are nodes that are chained to it. A
removal copies the second entry over the first one and frees its node, or frees the node of the
removed entry; the rebuilding frees all nodes and reallocates the table, which may move or not. An
iterator keeps the address of its current entry, and reads through it.

Addresses of nodes are not handed out again, so that an address of a node that was freed leads
nowhere. What `realloc` does is read from `moves`.
-/

namespace NtSocks

open BucketWalk Function

namespace HashMap

variable {K V : Type*} {ops : KeyOps K} (m : HashMap ops V)

theorem store_list_of_ne {key : K} {value : V} {j : ℕ} (hj : j ≠ m.index key) :
    (m.store key value).2.list j = m.list j := by
  rw [store]
  split
  · exact update_of_ne hj _ _
  · split
    · exact update_of_ne hj _ _
    · exact update_of_ne hj _ _

theorem length_store_list (key : K) (value : V) :
    ((m.store key value).2.list (m.index key)).length =
      (m.list (m.index key)).length + if (m.store key value).1 then 1 else 0 := by
  rw [store]
  split
  · rename_i hnil
    rw [hnil]
    simp [setBucket]
  · rename_i head next hcons
    rw [hcons]
    split <;> simp [setBucket]

end HashMap

inductive EntryPtr
  | slot (table index : ℕ)
  | node (bucket addr : ℕ)
  deriving DecidableEq

structure EntryMap {K : Type*} (ops : KeyOps K) (V : Type*) extends HashMap ops V where
  table : ℕ
  chain : ℕ → List ℕ
  /-- Addresses from here on were never used. -/
  fresh : ℕ
  moves : ℕ → Bool

/-- `hashCode` is one more than in the source, where it begins at -1. -/
structure HashMapIterator where
  entry : Option EntryPtr
  count : ℕ
  hashCode : ℕ

def createHashMapIterator : HashMapIterator where
  entry := none
  count := 0
  hashCode := 0

namespace EntryMap

variable {K V : Type*} {ops : KeyOps K}

def createHashMap (moves : ℕ → Bool) : EntryMap ops V where
  toHashMap := HashMap.createHashMap
  table := 0
  chain := fun _ => []
  fresh := 1
  moves := moves

variable (m : EntryMap ops V)

def place : EntryPtr → Option (ℕ × ℕ)
  | .slot table i => if table = m.table ∧ i < m.listSize then some (i, 0) else none
  | .node i addr =>
    if addr ∈ m.chain i then some (i, (m.chain i).idxOf addr + 1) else none

def read (p : EntryPtr) : Option (K × V) := (m.place p).bind fun q => (m.list q.1)[q.2]?

def hasNextHashMapIterator (it : HashMapIterator) : Bool := it.count < m.size

/-- The loop of `nextHashMapIterator` over the table; at its end the iterator stays at its entry. -/
def nextBucket (it : HashMapIterator) : HashMapIterator :=
  match scan m.list (m.listSize - it.hashCode) it.hashCode with
  | some i => { entry := some (.slot m.table i), count := it.count + 1, hashCode := i + 1 }
  | none => { it with hashCode := max it.hashCode m.listSize + 1 }

/-- There is no result if the current entry was freed. -/
def nextHashMapIterator (it : HashMapIterator) : Option HashMapIterator :=
  if m.hasNextHashMapIterator it then
    match it.entry with
    | none => some (m.nextBucket it)
    | some p =>
      (m.place p).map fun (i, k) =>
        match (m.chain i)[k]? with
        | some addr => { it with entry := some (.node i addr), count := it.count + 1 }
        | none => m.nextBucket it
  else some it

def current (it : HashMapIterator) : Option (K × V) := it.entry.bind m.read

def visitAll (fuel : ℕ) : Option (List (K × V)) :=
  BucketWalk.visitAll m.hasNextHashMapIterator m.nextHashMapIterator m.current fuel
    createHashMapIterator

variable (key : K) (value : V)

def store : Bool × EntryMap ops V :=
  let r := m.toHashMap.store key value
  let i := m.index key
  if r.1 ∧ (m.list i).isEmpty = false then
    (r.1, { m with
      toHashMap := r.2
      chain := update m.chain i (m.fresh :: m.chain i)
      fresh := m.fresh + 1 })
  else (r.1, { m with toHashMap := r.2 })

def cleared (listSize : ℕ) : EntryMap ops V :=
  { m with
    size := 0
    listSize := listSize
    list := fun _ => []
    table := if m.moves m.fresh then m.fresh else m.table
    chain := fun _ => []
    fresh := m.fresh + 1 }

def resetHashMap (put : EntryMap ops V → K → V → Option (EntryMap ops V)) (listSize : ℕ) :
    Option (EntryMap ops V) :=
  if listSize < 8 then some m
  else
    (m.visitAll m.size).bind fun tempList =>
      tempList.foldlM (fun m e => put m e.1 e.2) (m.cleared listSize)

def putWithin : ℕ → EntryMap ops V → K → V → Option (EntryMap ops V)
  | 0, _, _, _ => none
  | depth + 1, m, key, value =>
    let (added, m') := m.store key value
    if added ∧ m'.autoAssign ∧ m'.listSize ≤ m'.size then
      m'.resetHashMap (fun m k v => putWithin depth m k v) (m'.listSize * 2)
    else some m'

def defaultPut : Option (EntryMap ops V) := putWithin 2 m key value

/-- The entry at place `k` of a bucket is removed. The node of the first one is that of the second,
which was copied over it. -/
def erase (i k : ℕ) : EntryMap ops V :=
  { m with
    size := m.size - 1
    list := update m.list i ((m.list i).eraseIdx k)
    chain := update m.chain i ((m.chain i).eraseIdx (k - 1)) }

def defaultRemove : Option (Option K × EntryMap ops V) :=
  let i := m.index key
  match m.list i, (m.list i).findIdx? fun e => ops.equal e.1 key with
  | [], _ => some (none, m)
  | head :: _, none => some (some head.1, m)
  | head :: _, some k =>
    let m' := m.erase i k
    if m'.autoAssign ∧ m'.size < m'.listSize / 2 then
      (m'.resetHashMap (fun m k v => m.defaultPut k v) (m'.listSize / 2)).map
        fun m' => (some head.1, m')
    else some (some head.1, m')

structure Laid (m : EntryMap ops V) : Prop where
  length : ∀ i, (m.chain i).length = (m.list i).length - 1
  nodup : ∀ i, (m.chain i).Nodup
  lt : ∀ i, ∀ a ∈ m.chain i, a < m.fresh

structure WellFormed (m : EntryMap ops V) : Prop where
  sound : m.toHashMap.Sound
  laid : m.Laid

variable {m key value} {put : EntryMap ops V → K → V → Option (EntryMap ops V)} {n : ℕ}
  {it : HashMapIterator} {c : Cursor}

/-! ### The iterator on a map that is not modified -/

structure At (m : EntryMap ops V) (it : HashMapIterator) (c : Cursor) : Prop where
  next : c.next = it.hashCode
  current : c.current = it.entry.bind m.place
  live : ∀ p, it.entry = some p → (m.place p).isSome = true

theorem at_start (m : EntryMap ops V) : m.At createHashMapIterator Cursor.start :=
  ⟨rfl, rfl, fun _ hp => by cases hp⟩

theorem Laid.place_node (hm : m.Laid) {i k addr : ℕ} (haddr : (m.chain i)[k]? = some addr) :
    m.place (.node i addr) = some (i, k + 1) := by
  obtain ⟨hk, rfl⟩ := List.getElem?_eq_some_iff.mp haddr
  rw [place, if_pos (List.getElem_mem hk), (hm.nodup i).idxOf_getElem k hk]

theorem Laid.chain_isEmpty_iff (hm : m.Laid) (i k : ℕ) :
    ((m.list i).drop (k + 1)).isEmpty = true ↔ (m.chain i)[k]? = none := by
  have hlength := hm.length i
  rw [List.isEmpty_iff, List.drop_eq_nil_iff, List.getElem?_eq_none_iff]
  omega

theorem nextBucket_eq (h : m.At it c) {i : ℕ}
    (hscan : scan m.list (m.listSize - c.next) c.next = some i) :
    (m.nextBucket it).count = it.count + 1 ∧ m.At (m.nextBucket it) ⟨some (i, 0), i + 1⟩ := by
  have hlt : i < m.listSize := by
    obtain ⟨hle, hlt, -⟩ := scan_eq_some hscan
    omega
  have hplace : m.place (.slot m.table i) = some (i, 0) := if_pos ⟨rfl, hlt⟩
  rw [h.next] at hscan
  rw [nextBucket, hscan]
  refine ⟨rfl, rfl, hplace.symm, ?_⟩
  intro p hp
  cases hp
  rw [hplace]
  rfl

theorem At.next_of_advance {c' : Cursor} (h : m.At it c) (hm : m.Laid)
    (hmore : m.hasNextHashMapIterator it = true) (hadvance : c.advance m.list m.listSize = some c')
    : ∃ it', m.nextHashMapIterator it = some it' ∧ it'.count = it.count + 1 ∧ m.At it' c' := by
  rw [nextHashMapIterator, if_pos hmore]
  rw [Cursor.advance, Cursor.chain] at hadvance
  cases hentry : it.entry with
  | none =>
    have hnone : c.current = none := by rw [h.current, hentry]; rfl
    rw [hnone] at hadvance
    obtain ⟨i, hscan, rfl⟩ := Option.map_eq_some_iff.mp hadvance
    obtain ⟨hcount, hat⟩ := nextBucket_eq h hscan
    exact ⟨_, rfl, hcount, hat⟩
  | some p =>
    obtain ⟨⟨i, k⟩, hplace⟩ := Option.isSome_iff_exists.mp (h.live p hentry)
    have hcurrent : c.current = some (i, k) := by
      rw [h.current, hentry]
      exact hplace
    rw [hcurrent] at hadvance
    dsimp only at hadvance ⊢
    rw [hplace, Option.map_some]
    dsimp only
    cases hchain : (m.chain i)[k]? with
    | none =>
      rw [if_pos ((hm.chain_isEmpty_iff i k).mpr hchain)] at hadvance
      obtain ⟨j, hscan, rfl⟩ := Option.map_eq_some_iff.mp hadvance
      obtain ⟨hcount, hat⟩ := nextBucket_eq h hscan
      exact ⟨_, rfl, hcount, hat⟩
    | some addr =>
      have hne : ¬ ((m.list i).drop (k + 1)).isEmpty = true := by
        rw [hm.chain_isEmpty_iff, hchain]
        exact Option.some_ne_none addr
      rw [if_neg hne] at hadvance
      cases hadvance
      have hnode := hm.place_node hchain
      refine ⟨_, rfl, rfl, h.next, hnode.symm, ?_⟩
      intro q hq
      cases hq
      rw [hnode]
      rfl

theorem At.current_eq (h : m.At it c) : m.current it = c.element m.list := by
  rw [EntryMap.current, Cursor.element, h.current]
  cases it.entry <;> rfl

structure Ahead (m : EntryMap ops V) (it : HashMapIterator) (es : List (K × V)) : Prop where
  exists_cursor : ∃ c, m.At it c ∧ c.ahead m.list m.listSize = es
  count : it.count + es.length = m.size

theorem WellFormed.visitAll_eq (hm : m.WellFormed) {fuel : ℕ} (hfuel : m.size ≤ fuel) :
    m.visitAll fuel = some m.entries := by
  have hstart : m.Ahead createHashMapIterator m.entries := by
    refine ⟨⟨Cursor.start, m.at_start, Cursor.ahead_start⟩, ?_⟩
    rw [hm.sound.size]
    exact Nat.zero_add _
  refine BucketWalk.visitAll_eq ?_ ?_ hstart (hm.sound.size ▸ hfuel)
  · intro it h
    have hcount := h.count
    rw [List.length_nil] at hcount
    rw [hasNextHashMapIterator, decide_eq_false_iff_not]
    omega
  · intro it e es h
    have hcount := h.count
    rw [List.length_cons] at hcount
    have hmore : m.hasNextHashMapIterator it = true := by
      rw [hasNextHashMapIterator, decide_eq_true_iff]
      omega
    obtain ⟨c, hat, hahead⟩ := h.exists_cursor
    obtain ⟨c', hadvance, helement, hrest⟩ := Cursor.advance_of_ahead hahead
    obtain ⟨it', hnext, hcount', hat'⟩ := hat.next_of_advance hm.laid hmore hadvance
    exact ⟨hmore, it', hnext, hat'.current_eq.trans helement, ⟨c', hat', hrest⟩, by omega⟩

theorem WellFormed.next_start (hm : m.WellFormed) (hpos : 0 < m.size) :
    ∃ it e, m.nextHashMapIterator createHashMapIterator = some it ∧ it.count = 1 ∧
      m.current it = some e := by
  have hmore : m.hasNextHashMapIterator createHashMapIterator = true := decide_eq_true hpos
  rw [hm.sound.size] at hpos
  obtain ⟨e, es, hentries⟩ := List.exists_cons_of_ne_nil (List.ne_nil_of_length_pos hpos)
  have hahead : Cursor.start.ahead m.list m.listSize = e :: es := Cursor.ahead_start.trans hentries
  obtain ⟨c, hadvance, helement, -⟩ := Cursor.advance_of_ahead hahead
  obtain ⟨it, hnext, hcount, hat⟩ := m.at_start.next_of_advance hm.laid hmore hadvance
  exact ⟨it, e, hnext, hcount, hat.current_eq.trans helement⟩

theorem WellFormed.mem_of_current (hm : m.WellFormed) {e : K × V} (he : m.current it = some e) :
    e ∈ m.entries := by
  obtain ⟨p, -, hread⟩ := Option.bind_eq_some_iff.mp he
  obtain ⟨⟨i, k⟩, -, hget⟩ := Option.bind_eq_some_iff.mp hread
  have hmem : e ∈ m.list i := List.mem_of_getElem? hget
  have hlt := hm.sound.index_lt e.1
  rw [hm.sound.hash i e hmem] at hlt
  exact List.mem_flatMap.mpr ⟨i, List.mem_range.mpr hlt, hmem⟩

theorem count_le_nextBucket (m : EntryMap ops V) (it : HashMapIterator) :
    it.count ≤ (m.nextBucket it).count := by
  rw [nextBucket]
  split
  · exact Nat.le_succ _
  · exact le_rfl

theorem count_le_of_next {it' : HashMapIterator} (hnext : m.nextHashMapIterator it = some it') :
    it.count ≤ it'.count := by
  rw [nextHashMapIterator] at hnext
  split at hnext
  · cases hentry : it.entry with
    | none =>
      rw [hentry] at hnext
      cases hnext
      exact m.count_le_nextBucket it
    | some p =>
      rw [hentry] at hnext
      obtain ⟨⟨i, k⟩, -, rfl⟩ := Option.map_eq_some_iff.mp hnext
      dsimp only
      split
      · exact Nat.le_succ _
      · exact m.count_le_nextBucket it
  · cases hnext
    exact le_rfl

/-! ### Rebuilding the table -/

theorem store_eq (m : EntryMap ops V) (key : K) (value : V) :
    (m.store key value).1 = (m.toHashMap.store key value).1 ∧
      (m.store key value).2.toHashMap = (m.toHashMap.store key value).2 := by
  rw [store]
  dsimp only
  split <;> exact ⟨rfl, rfl⟩

theorem cleared_wellFormed (m : EntryMap ops V) (hn : 0 < n) : (m.cleared n).WellFormed := by
  refine ⟨⟨hn, ?_, ?_, ?_⟩, fun _ => rfl, fun _ => List.nodup_nil, ?_⟩
  · exact fun _ _ he => absurd he List.not_mem_nil
  · exact fun _ => List.Pairwise.nil
  · simp [HashMap.entries, cleared]
  · exact fun _ _ ha => absurd ha List.not_mem_nil

theorem Laid.of_bucket (hm : m.Laid) {m' : EntryMap ops V} (i : ℕ)
    (hlist : ∀ j, j ≠ i → m'.list j = m.list j) (hchain : ∀ j, j ≠ i → m'.chain j = m.chain j)
    (hfresh : m.fresh ≤ m'.fresh) (hlength : (m'.chain i).length = (m'.list i).length - 1)
    (hnodup : (m'.chain i).Nodup) (hlt : ∀ a ∈ m'.chain i, a < m'.fresh) : m'.Laid := by
  constructor
  · intro j
    rcases eq_or_ne j i with rfl | hj
    · exact hlength
    · rw [hchain j hj, hlist j hj]
      exact hm.length j
  · intro j
    rcases eq_or_ne j i with rfl | hj
    · exact hnodup
    · rw [hchain j hj]
      exact hm.nodup j
  · intro j
    rcases eq_or_ne j i with rfl | hj
    · exact hlt
    · rw [hchain j hj]
      exact fun a ha => (hm.lt j a ha).trans_le hfresh

theorem Laid.store (hm : m.Laid) (key : K) (value : V) : (m.store key value).2.Laid := by
  have hother : ∀ j, j ≠ m.index key → (m.toHashMap.store key value).2.list j = m.list j :=
    fun j hj => m.toHashMap.store_list_of_ne hj
  have hlength := m.toHashMap.length_store_list key value
  have hold := hm.length (m.index key)
  rw [EntryMap.store]
  dsimp only
  split
  · rename_i hadd
    have hpos : 0 < (m.list (m.index key)).length := by
      rw [List.length_pos_iff, ne_eq, ← List.isEmpty_iff, hadd.2]
      exact Bool.false_ne_true
    rw [if_pos hadd.1] at hlength
    refine hm.of_bucket (m.index key) hother (fun j hj => update_of_ne hj _ _)
      (Nat.le_succ _) ?_ ?_ ?_
    all_goals
      dsimp only
      rw [update_self]
    · rw [List.length_cons, hlength]
      omega
    · exact List.nodup_cons.mpr ⟨fun hmem => lt_irrefl _ (hm.lt _ _ hmem), hm.nodup _⟩
    · intro a ha
      rcases List.mem_cons.mp ha with rfl | hmem
      · exact Nat.lt_succ_self _
      · exact (hm.lt _ a hmem).trans (Nat.lt_succ_self _)
  · rename_i hsame
    refine hm.of_bucket (m.index key) hother (fun _ _ => rfl) le_rfl ?_ (hm.nodup _) (hm.lt _)
    dsimp only
    rw [hlength, hold]
    by_cases hadded : (m.toHashMap.store key value).1 = true
    · -- the first entry of a bucket needs no node
      have hnil : (m.list (m.index key)).isEmpty = true :=
        Bool.not_eq_false _ ▸ fun hempty => hsame ⟨hadded, hempty⟩
      rw [if_pos hadded, List.isEmpty_iff.mp hnil]
      rfl
    · rw [if_neg hadded]
      rfl

theorem WellFormed.store (hm : m.WellFormed) (hnew : m.find key = none) (value : V) :
    (m.store key value).2.WellFormed := by
  obtain ⟨m', hstore, hsound, -⟩ := hm.sound.store_new hnew value
  refine ⟨?_, hm.laid.store key value⟩
  rw [(m.store_eq key value).2, hstore]
  exact hsound

def storeOnly (m : EntryMap ops V) (key : K) (value : V) : Option (EntryMap ops V) :=
  some (m.store key value).2

theorem putWithin_eq_storeOnly (depth : ℕ) (h : m.toHashMap.Sound) (hnew : m.find key = none)
    (hroom : m.size + 1 < m.listSize) :
    putWithin (depth + 1) m key value = m.storeOnly key value := by
  obtain ⟨m', hstore, -, hsize, hlist, -⟩ := h.store_new hnew value
  have heq := (m.store_eq key value).2
  rw [hstore] at heq
  have hfits : ¬ (m.store key value).2.listSize ≤ (m.store key value).2.size := by
    rw [heq, hlist, hsize]
    omega
  rw [putWithin, storeOnly]
  dsimp only
  rw [if_neg fun hfull => hfits hfull.2.2]

/-- Storing entries with new keys one after the other, while there is room: each put only stores,
and the buckets are those of the map without addresses. -/
theorem foldlM_put
    (hput : ∀ m key value, m.toHashMap.Sound → m.find key = none → m.size + 1 < m.listSize →
      put m key value = m.storeOnly key value) {es : List (K × V)}
    (hes : KeyedList.Distinct ops.equal es) (hm : m.WellFormed) (hnew : ∀ e ∈ es, m.find e.1 = none)
    (hroom : m.size + es.length < m.listSize) :
    ∃ m', es.foldlM (fun m e => put m e.1 e.2) m = some m' ∧
      es.foldlM (fun m e => m.storeOnly e.1 e.2) m = some m' ∧ m'.WellFormed ∧
      es.foldlM (fun (m : HashMap ops V) e => some (m.store e.1 e.2).2) m.toHashMap =
        some m'.toHashMap := by
  induction es generalizing m with
  | nil => exact ⟨m, rfl, rfl, hm, rfl⟩
  | cons e es ih =>
    obtain ⟨hhead, htail⟩ := List.pairwise_cons.mp hes
    have hnewe := hnew e List.mem_cons_self
    rw [List.length_cons] at hroom
    obtain ⟨m₁, hstore, -, hsize₁, hlist₁, -, hfind₁⟩ := hm.sound.store_new hnewe e.2
    have heq := (m.store_eq e.1 e.2).2
    rw [hstore] at heq
    have hnew₁ : ∀ d ∈ es, (m.store e.1 e.2).2.find d.1 = none := by
      intro d hd
      rw [heq, hfind₁, hhead d hd]
      exact hnew d (List.mem_cons_of_mem e hd)
    have hroom₁ : (m.store e.1 e.2).2.size + es.length < (m.store e.1 e.2).2.listSize := by
      rw [heq, hsize₁, hlist₁]
      omega
    obtain ⟨m', hfold, hfold', hwell', hmap⟩ := ih htail (hm.store hnewe e.2) hnew₁ hroom₁
    refine ⟨m', ?_, hfold', hwell', ?_⟩
    · rw [List.foldlM_cons, hput m e.1 e.2 hm.sound hnewe (by omega)]
      exact hfold
    · rw [List.foldlM_cons, ← (m.store_eq e.1 e.2).2]
      exact hmap

theorem WellFormed.resetHashMap
    (hput : ∀ m key value, m.toHashMap.Sound → m.find key = none → m.size + 1 < m.listSize →
      put m key value = m.storeOnly key value) (hm : m.WellFormed) (hn : 8 ≤ n) (hroom : m.size < n)
    :
    ∃ m', m.resetHashMap put n = some m' ∧ m.resetHashMap storeOnly n = some m' ∧ m'.WellFormed ∧
      m'.size = m.size ∧ m'.listSize = n ∧ m'.autoAssign = m.autoAssign ∧
      ∀ k, m'.find k = m.find k := by
  have hcleared : (m.cleared n).WellFormed := m.cleared_wellFormed (by omega)
  have hlength : (m.cleared n).size + m.entries.length < (m.cleared n).listSize := by
    change 0 + m.entries.length < n
    rw [← hm.sound.size]
    omega
  obtain ⟨m', hfold, hfold', hwell, hmap⟩ :=
    foldlM_put hput hm.sound.distinct_entries hcleared (fun _ _ => rfl) hlength
  have hstores : HashMap.StoresSmall fun (m : HashMap ops V) k v => some (m.store k v).2 :=
    fun _ _ _ _ _ _ => rfl
  obtain ⟨m'', hreset, -, hsize, hlist, hauto, hfind⟩ :=
    hm.sound.resetHashMap hstores hn hroom
  obtain rfl : m'.toHashMap = m'' := by
    rw [HashMap.resetHashMap, if_neg (by omega), hm.sound.size, List.take_length] at hreset
    exact Option.some.inj (hmap.symm.trans hreset)
  refine ⟨m', ?_, ?_, hwell, hsize, hlist, hauto, hfind⟩
  · rw [EntryMap.resetHashMap, if_neg (by omega), hm.visitAll_eq le_rfl, Option.bind_some]
    exact hfold
  · rw [EntryMap.resetHashMap, if_neg (by omega), hm.visitAll_eq le_rfl, Option.bind_some]
    exact hfold'

end EntryMap

namespace HashMap

variable {K V : Type*} {ops : KeyOps K} {m m' : HashMap ops V}

theorem Sound.mem_entries_iff (h : m.Sound) {e : K × V} : e ∈ m.entries ↔ m.find e.1 = some e := by
  rw [← h.find_entries]
  constructor
  · exact fun he => h.distinct_entries.find_of_mem ops.equiv he (ops.equiv.refl e.1)
  · exact KeyedList.mem_of_find

theorem Sound.nodup_entries (h : m.Sound) : m.entries.Nodup := by
  refine h.distinct_entries.imp fun {e e'} hne heq => ?_
  rw [heq, ops.equiv.refl] at hne
  cases hne

theorem Sound.perm_of_find (h : m.Sound) (h' : m'.Sound) (hfind : ∀ k, m'.find k = m.find k) :
    m'.entries.Perm m.entries := by
  rw [List.perm_ext_iff_of_nodup h'.nodup_entries h.nodup_entries]
  intro e
  rw [h'.mem_entries_iff, h.mem_entries_iff, hfind]

end HashMap

namespace EntryMap

variable {K V : Type*} {ops : KeyOps K} {m : EntryMap ops V} {key : K}

/-! ### Removing an entry -/

structure Valid (m : EntryMap ops V) : Prop where
  valid : m.toHashMap.Valid
  laid : m.Laid

theorem Valid.wellFormed (h : m.Valid) : m.WellFormed := ⟨h.valid.toSound, h.laid⟩

theorem Laid.erase (hm : m.Laid) {i k : ℕ} (hk : k < (m.list i).length) : (m.erase i k).Laid := by
  have hlength := hm.length i
  refine hm.of_bucket i (fun j hj => update_of_ne hj _ _)
    (fun j hj => update_of_ne hj _ _) le_rfl ?_ ?_ ?_
  all_goals rw [EntryMap.erase]; dsimp only; rw [update_self]
  · rw [update_self, List.length_eraseIdx, List.length_eraseIdx, if_pos hk]
    split <;> omega
  · exact (hm.nodup i).eraseIdx _
  · exact fun a ha => hm.lt i a (List.mem_of_mem_eraseIdx ha)

theorem Valid.erase (h : m.Valid) {k : ℕ}
    (hk : ((m.list (m.index key)).findIdx? fun e => ops.equal e.1 key) = some k) :
    (m.erase (m.index key) k).WellFormed ∧ (m.erase (m.index key) k).size + 1 = m.size ∧
      ∀ k', (m.erase (m.index key) k).find k' = if ops.equal key k' then none else m.find k' := by
  obtain ⟨hlt, hequal, -⟩ := List.findIdx?_eq_some_iff_getElem.mp hk
  have hexists : m.defaultExists key = true := by
    rw [HashMap.defaultExists, List.any_eq_true]
    exact ⟨_, List.getElem_mem hlt, hequal⟩
  rw [HashMap.defaultExists_eq] at hexists
  have heq : (m.erase (m.index key) k).toHashMap = m.setBucket (m.index key)
      ((m.list (m.index key)).eraseP fun e => ops.equal e.1 key) (m.size - 1) := by
    rw [List.eraseP_eq_eraseIdx, hk]
    rfl
  obtain ⟨hsound, hfind⟩ := h.valid.toSound.eraseKey hexists
  have hpos : 0 < m.size := by
    rw [h.valid.size]
    exact List.length_pos_of_mem (List.mem_flatMap.mpr ⟨m.index key,
      List.mem_range.mpr (h.valid.index_lt key), List.getElem_mem hlt⟩)
  refine ⟨⟨heq ▸ hsound, h.laid.erase hlt⟩, Nat.sub_add_cancel hpos, ?_⟩
  intro k'
  rw [heq, hfind]

theorem Valid.remove (h : m.Valid) (hpresent : (m.find key).isSome = true) :
    ∃ r m', m.defaultRemove key = some (r, m') ∧ m'.Valid ∧ m'.size + 1 = m.size ∧
      ∀ k, m'.find k = if ops.equal key k then none else m.find k := by
  have hany : m.defaultExists key = true := by rw [HashMap.defaultExists_eq, hpresent]
  rw [HashMap.defaultExists, ← List.findIdx?_isSome] at hany
  obtain ⟨k, hk⟩ := Option.isSome_iff_exists.mp hany
  obtain ⟨hwell, hsize, hfind⟩ := h.erase hk
  have height := h.valid.eight_le
  have hroom := h.valid.room
  have hsame : (m.erase (m.index key) k).Valid :=
    ⟨⟨hwell.sound, height, h.valid.auto, show (m.erase (m.index key) k).size < m.listSize by omega⟩,
      hwell.laid⟩
  rw [defaultRemove]
  cases hbucket : m.list (m.index key) with
  | nil =>
    rw [hbucket] at hk
    cases hk
  | cons head next =>
    rw [hbucket] at hk
    rw [hk]
    dsimp only
    by_cases hshrink : (m.erase (m.index key) k).size < m.listSize / 2
    · rw [if_pos ⟨h.valid.auto, hshrink⟩]
      by_cases hsmall : m.listSize / 2 < 8
      · refine ⟨some head.1, _, ?_, hsame, hsize, hfind⟩
        exact congrArg (Option.map fun m' => (some head.1, m')) (if_pos hsmall)
      · obtain ⟨m', hreset, -, hwell', hsize', hlist', hauto', hfind'⟩ :=
          hwell.resetHashMap (fun m key value => putWithin_eq_storeOnly 1)
            (not_lt.mp hsmall) hshrink
        refine ⟨some head.1, m', ?_, ⟨⟨hwell'.sound, ?_, hauto'.trans h.valid.auto, ?_⟩,
          hwell'.laid⟩, ?_, ?_⟩
        · exact congrArg (Option.map fun m' => (some head.1, m')) hreset
        · omega
        · rw [hsize', hlist']
          exact hshrink
        · rw [hsize', hsize]
        · intro k'
          rw [hfind', hfind]
    · rw [if_neg fun hboth => hshrink hboth.2]
      exact ⟨some head.1, _, rfl, hsame, hsize, hfind⟩

/-! ### Rebuilding and visiting -/

/-- On every well-formed map the loop over the iterator visits each entry once and stops, and
rebuilding the table with room for the entries ends with the same entries in a well-formed table of
the new size. No put of the rebuilding does more than to store. -/
theorem rehash_preserves_entries (hm : m.WellFormed) {n : ℕ} (hn : 8 ≤ n) (hroom : m.size < n) :
    (∃ m', m.resetHashMap (fun m k v => m.defaultPut k v) n = some m' ∧
      m.resetHashMap storeOnly n = some m' ∧ m'.WellFormed ∧ m'.listSize = n ∧
      m'.size = m.size ∧ m'.entries.Perm m.entries) ∧
    ∃ visited, (∀ fuel, m.size ≤ fuel → m.visitAll fuel = some visited) ∧
      visited.length = m.size ∧ visited.Nodup ∧
      ∀ e, e ∈ visited ↔ ∃ i < m.listSize, e ∈ m.list i := by
  constructor
  · obtain ⟨m', hreset, hstores, hwell, hsize, hlist, -, hfind⟩ :=
      hm.resetHashMap (fun m key value => putWithin_eq_storeOnly 1) hn hroom
    exact ⟨m', hreset, hstores, hwell, hlist, hsize, hm.sound.perm_of_find hwell.sound hfind⟩
  · refine ⟨m.entries, fun fuel hfuel => hm.visitAll_eq hfuel, hm.sound.size.symm,
      hm.sound.nodup_entries, fun e => ?_⟩
    simp [HashMap.entries]

def sampleMap : EntryMap HashMap.natKeys Bool :=
  let empty := (createHashMap fun _ => true).cleared 8
  (((empty.store 0 true).2.store 8 false).2.store 3 true).2

theorem sampleMap_wellFormed : sampleMap.WellFormed :=
  (((cleared_wellFormed _ (Nat.succ_pos 7)).store rfl true).store rfl false).store rfl true

theorem rehash_of_three :
    (∃ m', sampleMap.resetHashMap (fun m k v => m.defaultPut k v) 16 = some m' ∧
      sampleMap.resetHashMap storeOnly 16 = some m' ∧ m'.WellFormed ∧ m'.listSize = 16 ∧
      m'.size = 3 ∧ m'.entries.Perm [(0, true), (8, false), (3, true)]) ∧
    ∃ visited, (∀ fuel, 3 ≤ fuel → sampleMap.visitAll fuel = some visited) ∧
      visited.length = 3 ∧ visited.Nodup ∧
      ∀ e, e ∈ visited ↔ ∃ i < 8, e ∈ sampleMap.list i :=
  rehash_preserves_entries sampleMap_wellFormed (by decide) (by decide)

end EntryMap

end NtSocks
