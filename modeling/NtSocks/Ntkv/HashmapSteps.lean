import NtSocks.Ntkv.LinkedHashmap

/-!
# Steps of the linked hash map

Each key is in the entry of its hash code, and no string is there twice. What the operations do is
said about the list of all keys with their values, up to its order, and about the blocks that the
table and the chains occupy, together with other blocks that their caller holds. The faults that
are excluded decide what is asked of the map: without a read fault the strings must be readable,
without a failing request all requests must be served.
-/

namespace NtSocks.Ntkv

open BlockHeap Faults Function

variable {K V : Type}

namespace Keys

variable (keys : Keys K)

def equal (k k' : K) : Bool := keys.text k == keys.text k'

theorem keyEquiv : KeyEquiv keys.equal where
  refl := fun _ => beq_self_eq_true _
  symm := fun _ _ => Bool.beq_comm
  trans := fun _ _ _ h₁ h₂ => beq_iff_eq.mpr ((beq_iff_eq.mp h₁).trans (beq_iff_eq.mp h₂))

theorem equal_iff {k k' : K} : keys.equal k k' = true ↔ keys.text k = keys.text k' := beq_iff_eq

end Keys

namespace Entry

variable {entry : Entry K V} {i : ℕ}

theorem chain_cells (hused : entry ≠ .unused) (e : Ele K V) :
    ∃ pre es, entry.cells = pre ++ es ∧ (entry.chain e).cells = pre ++ (e.key, e.value) :: es := by
  cases entry with
  | unused => exact absurd rfl hused
  | used key value next => exact ⟨[(key, value)], _, rfl, rfl⟩

theorem chain_nodes (hused : entry ≠ .unused) (e : Ele K V) :
    (entry.chain e).nodes = e.addr :: entry.nodes := by
  cases entry with
  | unused => exact absurd rfl hused
  | used key value next => rfl

theorem map_modify {α β : Type} (f : α → α) (f' : β → β) (g : α → β)
    (hcomm : ∀ a, g (f a) = f' (g a)) (l : List α) (i : ℕ) :
    (l.modify i f).map g = (l.map g).modify i f' := by
  induction l generalizing i with
  | nil => cases i <;> rfl
  | cons a l ih =>
    cases i with
    | zero => exact congrArg (· :: l.map g) (hcomm a)
    | succ i => exact congrArg (g a :: ·) (ih i)

theorem setValue_nodes (entry : Entry K V) (i : ℕ) (v : V) :
    (entry.setValue i v).nodes = entry.nodes := by
  cases entry with
  | unused => rfl
  | used key value next =>
    cases i with
    | zero => rfl
    | succ i =>
      have hmap := map_modify (fun e : Ele K V => { e with value := v }) id Ele.addr
        (fun _ => rfl) next i
      rwa [List.modify_id] at hmap

theorem setValue_cells (entry : Entry K V) (i : ℕ) (v : V) :
    (entry.setValue i v).cells = entry.cells.modify i fun e => (e.1, v) := by
  cases entry with
  | unused => cases i <;> rfl
  | used key value next =>
    cases i with
    | zero => rfl
    | succ i =>
      refine congrArg ((key, value) :: ·) ?_
      exact map_modify _ (fun e : K × V => (e.1, v)) _ (fun _ => rfl) next i

theorem modify_findIdx {equal : K → K → Bool} {es : List (K × V)} {key : K}
    (hfind : es.findIdx? (fun e => equal e.1 key) = some i) (v : V) :
    es.modify i (fun e => (e.1, v)) = KeyedList.assign equal key v es := by
  induction es generalizing i with
  | nil => cases hfind
  | cons e es ih =>
    rw [List.findIdx?_cons] at hfind
    rw [KeyedList.assign]
    by_cases hek : equal e.1 key = true
    · rw [if_pos hek] at hfind
      cases hfind
      rw [if_pos hek]
      rfl
    · rw [if_neg hek, Option.map_eq_some_iff] at hfind
      obtain ⟨j, hj, rfl⟩ := hfind
      rw [if_neg hek, List.modify_succ_cons, ih hj]

theorem removeAt_cells (entry : Entry K V) (i : ℕ) :
    (entry.removeAt i).cells = entry.cells.eraseIdx i := by
  cases entry with
  | unused => rfl
  | used key value next =>
    cases i with
    | zero => cases next <;> rfl
    | succ i =>
      have herase : (next.eraseIdx i).map (fun e => (e.key, e.value)) =
          (next.map fun e => (e.key, e.value)).eraseIdx i := (List.eraseIdx_map _ next i).symm
      cases next <;> exact congrArg ((key, value) :: ·) herase

theorem removeAt_nodes (hi : i < entry.cells.length) :
    entry.nodes.Perm ((entry.freedAt i).toList ++ (entry.removeAt i).nodes) := by
  cases entry with
  | unused => exact .refl _
  | used key value next =>
    cases i with
    | zero => cases next <;> exact .refl _
    | succ i =>
      have hlt : i < (next.map Ele.addr).length := by simpa [cells] using hi
      have hfreed : (used key value next).freedAt (i + 1) = some (next.map Ele.addr)[i] :=
        List.getElem?_eq_getElem hlt
      have hnodes : ((used key value next).removeAt (i + 1)).nodes =
          (next.map Ele.addr).eraseIdx i := by
        rw [List.eraseIdx_map]
        cases next <;> rfl
      rw [hfreed, hnodes]
      exact (List.getElem_cons_eraseIdx_perm hlt).symm

theorem cut_nodes (entry : Entry K V) : entry.cut.nodes = [] := by cases entry <;> rfl

theorem cut_cells_sublist (entry : Entry K V) : entry.cut.cells.Sublist entry.cells := by
  cases entry with
  | unused => exact .refl _
  | used key value next => exact (List.nil_sublist _).cons_cons _

end Entry

namespace Hashmap

variable (m : Hashmap K V) (keys : Keys K)

def index (key : K) : ℕ :=
  match keys.text key with
  | some s => keys.hashcode m.tableSize s
  | none => 0

def entries : List (K × V) := m.cellsBelow m.tableSize

def blocks : List ℕ := m.entry.toList ++ m.nodesBelow m.tableSize

structure Placed : Prop where
  table_pos : 0 < m.tableSize
  table : m.entry.isSome
  hashed : ∀ i, ∀ e ∈ (m.bucket i).cells, m.hash keys e.1 = .ok i
  distinct : ∀ i, KeyedList.Distinct keys.equal (m.bucket i).cells

variable {m keys} {h h' : Heap} {key : K} {value : V} {extra : List ℕ} {bad : Fault → Prop}
  {idx size : ℕ} {keyAddr : Option K} {m₁ : Hashmap K V} {status : MapStatus}
  {r : Hashmap K V × Heap × MapStatus} {es : List (K × V)} {entry : Entry K V} {newSize n i : ℕ}
  {e : K × V}

theorem hash_eq_ok_iff :
    m.hash keys key = .ok idx ↔ (keys.text key).isSome ∧ m.index keys key = idx := by
  rw [hash, index]
  cases keys.text key with
  | none | some s => simp

theorem index_congr {k k' : K} (hk : keys.equal k k' = true) :
    m.index keys k = m.index keys k' := by
  rw [index, index, keys.equal_iff.mp hk]

theorem Placed.index_lt (hp : m.Placed keys) (key : K) : m.index keys key < m.tableSize := by
  rw [index]
  split
  · exact keys.hashcode_lt _ _ hp.table_pos
  · exact hp.table_pos

theorem Placed.index_of_mem (hp : m.Placed keys) (he : e ∈ (m.bucket i).cells) :
    m.index keys e.1 = i := (hash_eq_ok_iff.mp (hp.hashed i e he)).2

theorem Placed.readable_of_mem (hp : m.Placed keys) (he : e ∈ (m.bucket i).cells) :
    (keys.text e.1).isSome :=
  (hash_eq_ok_iff.mp (hp.hashed i e he)).1

theorem Placed.distinct_entries (hp : m.Placed keys) : KeyedList.Distinct keys.equal m.entries :=
  KeyedList.distinct_buckets (m.index keys) (fun _ _ he => hp.index_of_mem he)
    (fun _ _ hk => index_congr hk) hp.distinct m.tableSize

theorem Placed.find_entries (hp : m.Placed keys) (key : K) :
    KeyedList.find keys.equal m.entries key =
      KeyedList.find keys.equal (m.bucket (m.index keys key)).cells key :=
  KeyedList.find_buckets (m.index keys) (fun _ _ he => hp.index_of_mem he)
    (fun _ _ hk => index_congr hk) (List.mem_range.mpr (hp.index_lt key))

theorem mem_entries : e ∈ m.entries ↔ ∃ i < m.tableSize, e ∈ (m.bucket i).cells := by
  simp [entries, cellsBelow]

theorem Placed.readable (hp : m.Placed keys) (he : e ∈ m.entries) : (keys.text e.1).isSome := by
  obtain ⟨i, -, hmem⟩ := mem_entries.mp he
  exact hp.readable_of_mem hmem

theorem Placed.congr {keys' : Keys K} (hp : m.Placed keys) (hcode : keys'.hashcode = keys.hashcode)
    (htext : ∀ e ∈ m.entries, keys'.text e.1 = keys.text e.1) : m.Placed keys' := by
  have htext' : ∀ i, ∀ e ∈ (m.bucket i).cells, keys'.text e.1 = keys.text e.1 := by
    intro i e he
    refine htext e (mem_entries.mpr ⟨i, ?_, he⟩)
    rw [← hp.index_of_mem he]
    exact hp.index_lt e.1
  refine ⟨hp.table_pos, hp.table, fun i e he => ?_, fun i => ?_⟩
  · have hold := hp.hashed i e he
    rw [hash] at hold ⊢
    rwa [htext' i e he, hcode]
  · refine (hp.distinct i).imp_of_mem fun {a b} ha hb hab => ?_
    rw [Keys.equal] at hab ⊢
    rwa [htext' i a ha, htext' i b hb]

theorem locate_eq (hkey : (keys.text key).isSome) {ks : List K}
    (hks : ∀ k ∈ ks, (keys.text k).isSome) :
    locate keys key ks = .ok (ks.findIdx? fun k => keys.equal k key) := by
  obtain ⟨t, ht⟩ := Option.isSome_iff_exists.mp hkey
  induction ks with
  | nil => rfl
  | cons k ks ih =>
    obtain ⟨s, hs⟩ := Option.isSome_iff_exists.mp (hks k List.mem_cons_self)
    have hequal : keys.equal k key = decide (s = t) := by
      rw [Keys.equal, hs, ht, Bool.eq_iff_iff]
      simp
    rw [locate, hs, ht, List.findIdx?_cons, hequal,
      ih fun k hk => hks k (List.mem_cons_of_mem _ hk)]
    by_cases hst : s = t
    · simp [hst]
    · simp [hst, Except.map]

theorem Placed.search_meets (hp : m.Placed keys) (hread : bad .badRead → (keys.text key).isSome) :
    Meets bad (fun r => (keys.text key).isSome ∧ r = (m.index keys key,
      (m.bucket (m.index keys key)).cells.findIdx? fun e => keys.equal e.1 key))
      (m.search keys key) := by
  by_cases hkey : (keys.text key).isSome = true
  · have hhash : m.hash keys key = .ok (m.index keys key) := hash_eq_ok_iff.mpr ⟨hkey, rfl⟩
    have hlocate : locate keys key ((m.bucket (m.index keys key)).cells.map Prod.fst) = _ :=
      locate_eq hkey (by simpa using fun k v he => hp.readable_of_mem he)
    rw [search, hhash]
    change Meets bad _ ((locate keys key _).bind _)
    rw [hlocate, List.findIdx?_map]
    exact ⟨hkey, rfl⟩
  · have hnone : keys.text key = none := by simpa using hkey
    have hsearch : m.search keys key = .error .badRead := by rw [search, hash, hnone]; rfl
    rw [hsearch]
    exact fun hbad => hkey (hread hbad)

theorem setEntry_size (m : Hashmap K V) (idx : ℕ) (entry : Entry K V) (size : ℕ) :
    (m.setEntry idx entry size).size = size := rfl

theorem setEntry_tableSize (m : Hashmap K V) (idx : ℕ) (entry : Entry K V) (size : ℕ) :
    (m.setEntry idx entry size).tableSize = m.tableSize := rfl

theorem setEntry_entries (hidx : idx < m.tableSize) (entry : Entry K V) (size : ℕ) :
    ∃ rest, m.entries.Perm ((m.bucket idx).cells ++ rest) ∧
      (m.setEntry idx entry size).entries.Perm (entry.cells ++ rest) := by
  obtain ⟨rest, hold, hnew⟩ := KeyedList.exists_perm_buckets (fun i => (m.bucket i).cells) hidx
  refine ⟨rest, hold, ?_⟩
  have hupdate : (fun i => ((m.setEntry idx entry size).bucket i).cells) =
      update (fun i => (m.bucket i).cells) idx entry.cells :=
    comp_update Entry.cells m.bucket idx entry
  rw [entries, cellsBelow, hupdate]
  exact hnew entry.cells

theorem setEntry_blocks (hidx : idx < m.tableSize) (entry : Entry K V) (size : ℕ) :
    ∃ rest, m.blocks.Perm ((m.bucket idx).nodes ++ rest) ∧
      (m.setEntry idx entry size).blocks.Perm (entry.nodes ++ rest) := by
  obtain ⟨rest, hold, hnew⟩ := KeyedList.exists_perm_buckets (fun i => (m.bucket i).nodes) hidx
  have hupdate : (fun i => ((m.setEntry idx entry size).bucket i).nodes) =
      update (fun i => (m.bucket i).nodes) idx entry.nodes :=
    comp_update Entry.nodes m.bucket idx entry
  refine ⟨m.entry.toList ++ rest, ?_, ?_⟩
  · exact (hold.append_left m.entry.toList).trans (List.perm_append_comm_assoc _ _ _)
  · rw [blocks, nodesBelow, hupdate]
    exact ((hnew entry.nodes).append_left m.entry.toList).trans (List.perm_append_comm_assoc _ _ _)

theorem Placed.setEntry (hp : m.Placed keys) (hhash : ∀ e ∈ entry.cells, m.hash keys e.1 = .ok idx)
    (hdistinct : KeyedList.Distinct keys.equal entry.cells) (size : ℕ) :
    (m.setEntry idx entry size).Placed keys where
  table_pos := hp.table_pos
  table := hp.table
  hashed := (forall_update_iff m.bucket fun i entry => ∀ e ∈ entry.cells,
    m.hash keys e.1 = .ok i).mpr ⟨hhash, fun i _ => hp.hashed i⟩
  distinct := (forall_update_iff m.bucket fun _ entry => KeyedList.Distinct keys.equal
    entry.cells).mpr ⟨hdistinct, fun i _ => hp.distinct i⟩

/-- What storing a key does to the list of all keys. A key that is there keeps its address. -/
inductive Stored (keys : Keys K) (key : K) (value : V) (es : List (K × V)) :
    MapStatus → List (K × V) → Prop
  | added {es' : List (K × V)} (hnew : ∀ e ∈ es, keys.equal e.1 key = false)
      (hperm : es'.Perm ((key, value) :: es)) : Stored keys key value es .ok es'
  | replaced {es' : List (K × V)} (k : K) (v : V) (rest : List (K × V))
      (hk : keys.equal k key = true) (hold : es.Perm ((k, v) :: rest))
      (hperm : es'.Perm ((k, value) :: rest)) : Stored keys key value es .replace es'

structure Inserted (m : Hashmap K V) (keys : Keys K) (h : Heap) (key : K) (value : V)
    (extra : List ℕ) (r : Hashmap K V × Heap × MapStatus) : Prop where
  tableSize : r.1.tableSize = m.tableSize
  placed : r.1.Placed keys
  holds : r.2.1.Holds (r.1.blocks ++ extra)
  ext : h.Extends r.2.1
  stored : Stored keys key value m.entries r.2.2 r.1.entries
  size : r.1.size = if r.2.2 = .replace then m.size else m.succSize

theorem holds_setEntry (hown : h.Holds (m.blocks ++ extra)) (hidx : idx < m.tableSize)
    (hnodes : entry.nodes = (m.bucket idx).nodes) (size : ℕ) :
    h.Holds ((m.setEntry idx entry size).blocks ++ extra) := by
  obtain ⟨rest, hold, hnew⟩ := setEntry_blocks hidx entry size
  rw [hnodes] at hnew
  exact hown.perm ((hold.trans hnew.symm).append_right extra)

theorem Placed.setEntry_added (hp : m.Placed keys) (hkey : (keys.text key).isSome)
    (hnew : KeyedList.find keys.equal (m.bucket (m.index keys key)).cells key = none)
    {pre : List (K × V)} (hcells : (m.bucket (m.index keys key)).cells = pre ++ es)
    (entry : Entry K V) (hcells' : entry.cells = pre ++ (key, value) :: es) (size : ℕ) :
    (m.setEntry (m.index keys key) entry size).Placed keys ∧
      Stored keys key value m.entries .ok (m.setEntry (m.index keys key) entry size).entries := by
  constructor
  · refine hp.setEntry ?_ ?_ size
    · intro e he
      rw [hcells', List.mem_append, List.mem_cons] at he
      rcases he with he | rfl | he
      · exact hp.hashed _ e (hcells ▸ List.mem_append_left es he)
      · exact hash_eq_ok_iff.mpr ⟨hkey, rfl⟩
      · exact hp.hashed _ e (hcells ▸ List.mem_append_right pre he)
    · have hdistinct := hp.distinct (m.index keys key)
      rw [hcells] at hdistinct hnew
      rw [hcells']
      exact hdistinct.insert keys.keyEquiv hnew
  · obtain ⟨rest, hold, hperm⟩ := setEntry_entries (hp.index_lt key) entry size
    refine .added (KeyedList.find_eq_none_iff.mp ((hp.find_entries key).trans hnew)) ?_
    rw [hcells] at hold
    rw [hcells'] at hperm
    refine hperm.trans ?_
    rw [List.append_assoc] at hold ⊢
    exact List.perm_middle.trans (hold.symm.cons _)

theorem Placed.insert_meets (hp : m.Placed keys) (hown : h.Holds (m.blocks ++ extra))
    (hread : bad .badRead → (keys.text key).isSome) (hserve : bad .nullPointer → h.Served)
    (value : V) : Meets bad (m.Inserted keys h key value extra) (m.insert keys h key value) := by
  rw [insert]
  refine (hp.search_meets hread).bind ?_
  rintro _ ⟨hkey, rfl⟩
  have hidx := hp.index_lt key
  cases hfind : (m.bucket (m.index keys key)).cells.findIdx? fun e => keys.equal e.1 key with
  | none =>
    have hnew := KeyedList.find_eq_none_of_findIdx hfind
    cases hentry : m.bucket (m.index keys key) with
    | unused =>
      have hcells : (m.bucket (m.index keys key)).cells = [] ++ [] := by rw [hentry]; rfl
      obtain ⟨hplaced, hstored⟩ := hp.setEntry_added hkey hnew hcells
        (.used key value []) rfl m.succSize
      simp only [hentry, meets_pure]
      refine ⟨rfl, hplaced, ?_, .refl h, hstored, rfl⟩
      exact holds_setEntry hown hidx (by rw [hentry]; rfl) _
    | used k v next =>
      simp only [hentry]
      refine (Heap.request_meets hserve (by decide) none).bind ?_
      rintro _ rfl
      have hused : m.bucket (m.index keys key) ≠ .unused := by simp [hentry]
      obtain ⟨pre, es, hcells, hcells'⟩ := Entry.chain_cells hused ⟨h.next, key, value⟩
      obtain ⟨hplaced, hstored⟩ := hp.setEntry_added hkey hnew hcells _ hcells' m.succSize
      rw [← hentry]
      refine ⟨rfl, hplaced, ?_, Heap.extends_extend none, hstored, rfl⟩
      obtain ⟨rest, hold, hperm⟩ := setEntry_blocks hidx
        ((m.bucket (m.index keys key)).chain ⟨h.next, key, value⟩) m.succSize
      rw [Entry.chain_nodes hused] at hperm
      refine hown.extend_cons.perm ?_
      exact ((hold.cons _).trans hperm.symm).append_right extra
  | some i =>
    have hassign := Entry.modify_findIdx hfind value
    cases hentry : m.bucket (m.index keys key) with
    | unused =>
      rw [hentry] at hfind
      cases hfind
    | used k v next =>
      simp only [hentry, meets_pure]
      rw [← hentry]
      rw [← Entry.setValue_cells] at hassign
      obtain ⟨e, he⟩ := KeyedList.exists_find hfind
      obtain ⟨rest, hperm, -, hassigned⟩ := KeyedList.exists_perm_of_find he
      refine ⟨rfl, hp.setEntry ?_ ?_ _, ?_, .refl h, ?_, rfl⟩
      · intro e he
        have hfst : e.1 ∈ (m.bucket (m.index keys key)).cells.map Prod.fst := by
          rw [← KeyedList.assign_keys key value, ← hassign]
          exact List.mem_map_of_mem he
        obtain ⟨e', he', heq⟩ := List.mem_map.mp hfst
        rw [← heq]
        exact hp.hashed _ e' he'
      · rw [hassign]
        exact (hp.distinct _).assign key value
      · exact holds_setEntry hown hidx (Entry.setValue_nodes _ i value) _
      · obtain ⟨others, hold, hnew⟩ := setEntry_entries hidx
          ((m.bucket (m.index keys key)).setValue i value) m.size
        rw [hassign] at hnew
        refine .replaced e.1 e.2 (rest ++ others) (KeyedList.find_some_key he) ?_ ?_
        · exact hold.trans (hperm.append_right others)
        · exact hnew.trans ((hassigned value).append_right others)

theorem cleared_placed (hpos : 0 < newSize) (table : ℕ) :
    (cleared newSize (some table) : Hashmap K V).Placed keys where
  table_pos := hpos
  table := rfl
  hashed := fun _ _ he => nomatch he
  distinct := fun _ => List.Pairwise.nil

theorem cleared_entries (newSize : ℕ) (table : Option ℕ) :
    (cleared newSize table : Hashmap K V).entries = [] := by
  simp [entries, cellsBelow, cleared, Entry.cells]

theorem cleared_blocks (newSize table : ℕ) :
    (cleared newSize (some table) : Hashmap K V).blocks = [table] := by
  simp [blocks, nodesBelow, cleared, Entry.nodes]

theorem Placed.putWithin_meets_of_lt (hp : m.Placed keys) (hown : h.Holds (m.blocks ++ extra))
    (hread : bad .badRead → (keys.text key).isSome) (hserve : bad .nullPointer → h.Served)
    (hroom : m.succSize < m.tableSize) (value : V) (depth : ℕ) :
    Meets bad (m.Inserted keys h key value extra) (putWithin keys (depth + 1) m h key value) := by
  rw [putWithin]
  refine (hp.insert_meets hown hread hserve value).bind ?_
  rintro ⟨m', h', status⟩ hins
  have hsmall : ¬ (status = .ok ∧ m'.tableSize ≤ m'.size) := by
    rintro ⟨rfl, hfull⟩
    have hsize := hins.size
    have htable := hins.tableSize
    simp only at hsize htable
    rw [htable, hsize] at hfull
    exact absurd hroom (not_lt.mpr hfull)
  dsimp only
  rw [if_neg hsmall]
  exact hins

structure Refilled (keys : Keys K) (newSize : ℕ) (h : Heap) (extra : List ℕ) (done : List (K × V))
    (s : Hashmap K V × Heap) : Prop where
  tableSize : s.1.tableSize = newSize
  placed : s.1.Placed keys
  holds : s.2.Holds (s.1.blocks ++ extra)
  ext : h.Extends s.2
  size : s.1.size = done.length
  entries : s.1.entries.Perm done

theorem storeAll_meets {table depth : ℕ} (hdistinct : KeyedList.Distinct keys.equal es)
    (hreadable : ∀ e ∈ es, (keys.text e.1).isSome) (hlt : es.length < newSize)
    (hbound : es.length < 2 ^ 32) (hown : h.Holds (table :: extra))
    (hserve : bad .nullPointer → h.Served) :
    Meets bad (Refilled keys newSize h extra es)
      (storeAll (putWithin keys (depth + 1)) (cleared newSize (some table)) h es) := by
  refine Meets.foldlM (Refilled keys newSize h extra) es ?_ ?_
  · rintro done e rest ⟨m, h'⟩ hes hre
    have hlen : done.length + 1 ≤ es.length := by rw [hes]; simp
    have hroom : m.succSize < m.tableSize := by
      have hsize : m.size = done.length := hre.size
      have htable : m.tableSize = newSize := hre.tableSize
      rw [succSize, hsize, htable, Nat.mod_eq_of_lt (by omega)]
      omega
    refine Meets.map ((hre.placed.putWithin_meets_of_lt hre.holds ?_ ?_ hroom e.2 depth).mono ?_)
    · exact fun _ => hreadable e (by rw [hes]; simp)
    · exact fun hb => hre.ext.served (hserve hb)
    rintro ⟨m', h'', status⟩ hins
    have hfresh : ∀ d ∈ done, keys.equal d.1 e.1 = false := by
      rw [hes, KeyedList.Distinct, List.pairwise_append] at hdistinct
      exact fun d hd => hdistinct.2.2 d hd e List.mem_cons_self
    cases hins.stored with
    | added hnew hperm =>
      refine ⟨hins.tableSize.trans hre.tableSize, hins.placed, hins.holds, hre.ext.trans hins.ext,
        ?_, ?_⟩
      · have hsize : m'.size = m.succSize := hins.size
        have hdone : m.size = done.length := hre.size
        rw [hsize, succSize, hdone, List.length_append, List.length_singleton]
        exact Nat.mod_eq_of_lt (by omega)
      · exact (hperm.trans (hre.entries.cons e)).trans (List.perm_append_singleton e done).symm
    | replaced k v rest hk hold hperm =>
      have hmem : (k, v) ∈ done := (hold.symm.trans hre.entries).subset List.mem_cons_self
      rw [hfresh (k, v) hmem] at hk
      cases hk
  · refine ⟨rfl, cleared_placed (by omega) table, ?_, .refl h, rfl, ?_⟩
    · rw [cleared_blocks]
      exact hown
    · rw [cleared_entries]

theorem cellsBelow_le {n' : ℕ} (hn : n ≤ n') :
    ∃ rest, m.cellsBelow n' = m.cellsBelow n ++ rest ∧
      ∀ e ∈ rest, ∃ i, n ≤ i ∧ e ∈ (m.bucket i).cells := by
  obtain ⟨k, rfl⟩ := Nat.exists_eq_add_of_le hn
  rw [cellsBelow, List.range_add, List.flatMap_append]
  refine ⟨_, rfl, fun e he => ?_⟩
  obtain ⟨i, hi, hmem⟩ := List.mem_flatMap.mp he
  obtain ⟨j, -, rfl⟩ := List.mem_map.mp hi
  exact ⟨n + j, Nat.le_add_right n j, hmem⟩

theorem cellsBelow_sublist (hn : n ≤ m.tableSize) : (m.cellsBelow n).Sublist m.entries := by
  obtain ⟨rest, hrest, -⟩ := m.cellsBelow_le hn
  rw [entries, hrest]
  exact List.sublist_append_left _ rest

theorem nodesBelow_le {n' : ℕ} (hn : n ≤ n') :
    ∃ rest, m.nodesBelow n' = m.nodesBelow n ++ rest := by
  obtain ⟨k, rfl⟩ := Nat.exists_eq_add_of_le hn
  rw [nodesBelow, List.range_add, List.flatMap_append]
  exact ⟨_, rfl⟩

structure Resized (m : Hashmap K V) (keys : Keys K) (h : Heap) (newSize : ℕ) (extra : List ℕ)
    (r : Hashmap K V × Heap × MapStatus) : Prop where
  status : r.2.2 = .ok
  size_ne : m.size ≠ 0
  size_lt : m.size < 2 ^ 31
  size_le : m.size ≤ m.tableSize
  found : (m.cellsBelow m.size).length = m.size
  refilled : Refilled keys newSize h extra (m.cellsBelow m.size) (r.1, r.2.1)

theorem Placed.resizeWith_meets (hp : m.Placed keys) (hown : h.Holds (m.blocks ++ extra))
    (hnew : m.size < 2 ^ 31 → m.size ≤ m.tableSize → m.size < newSize)
    (hwrite : bad .badWrite → m.size < 2 ^ 31 ∧ m.size ≤ m.tableSize ∧
      (m.cellsBelow m.size).length ≤ m.size)
    (hnull : bad .nullPointer → h.Served ∧ (m.cellsBelow m.size).length = m.size)
    (hfree : bad .badFree → m.size ≠ 0) (depth : ℕ) :
    Meets bad (m.Resized keys h newSize extra)
      (m.resizeWith h (putWithin keys (depth + 1)) newSize) := by
  rw [resizeWith]
  refine (check_meets fun hb => ⟨(hwrite hb).1, (hwrite hb).2.1⟩).bind ?_
  rintro - ⟨hbound, hle⟩
  have hroom := hnew hbound hle
  have hown₁ := hown.alloc (m.size * eleBytes)
  have hext₁ := h.extends_alloc (m.size * eleBytes) none
  have hentrys : h.Served → (h.alloc (m.size * eleBytes) none).1.isSome ∨ m.size = 0 :=
    fun hs => (h.alloc_isSome hs _ none).imp_right fun hz => by simpa [eleBytes] using hz
  have hne : (h.alloc (m.size * eleBytes) none).1.isSome → m.size ≠ 0 := by
    intro hsome hzero
    simp [Heap.alloc, hzero] at hsome
  generalize h.alloc (m.size * eleBytes) none = r at hown₁ hext₁ hentrys hne ⊢
  obtain ⟨entrys, h₁⟩ := r
  dsimp only at hown₁ hext₁ hentrys hne ⊢
  refine (check_meets fun hb => hentrys (hnull hb).1).bind fun _ hsome => ?_
  refine (check_meets fun hb => (hwrite hb).2.2).bind fun _ hfits => ?_
  -- the chains that are not reached stay allocated, and nothing points at them any more
  obtain ⟨table, htable⟩ := Option.isSome_iff_exists.mp hp.table
  obtain ⟨lost, hlost⟩ := m.nodesBelow_le hle
  have hown₂ : h₁.Holds (m.nodesBelow m.size ++ table :: (entrys.toList ++ extra)) := by
    have hperm : (entrys.toList ++ (m.blocks ++ extra)).Perm
        (lost ++ (m.nodesBelow m.size ++ table :: (entrys.toList ++ extra))) := by
      rw [blocks, htable, hlost, ← Multiset.coe_eq_coe]
      simp only [Option.toList_some, ← Multiset.coe_add, ← Multiset.cons_coe,
        List.singleton_append, Multiset.cons_add, Multiset.add_cons]
      ac_rfl
    exact (hown₁.perm hperm).sublist (List.sublist_append_right _ _)
  obtain ⟨h₂, hfreeAll, hown₃, hext₂, -⟩ := hown₂.freeAll
  obtain ⟨hfreeTable, hown₄, hext₃⟩ := hown₃.free
  rw [hfreeAll, htable]
  change Meets bad _ ((h₂.free ⟨table, 0⟩).bind _)
  rw [hfreeTable]
  dsimp only [Except.bind]
  have hext₄ := (hext₁.trans hext₂).trans hext₃
  rcases (h₂.release table).alloc_cases (newSize * eleBytes) none with ⟨halloc, -⟩ | ⟨halloc, hno⟩
  · rw [halloc]
    have hdistinct := hp.distinct_entries.sublist (cellsBelow_sublist hle)
    refine (storeAll_meets hdistinct ?_ (by omega) (by omega) hown₄.extend_cons ?_).bind ?_
    · intro e he
      obtain ⟨i, -, hmem⟩ := List.mem_flatMap.mp he
      exact hp.readable_of_mem hmem
    · exact fun hb => (hext₄.trans (Heap.extends_extend none)).served (hnull hb).1
    rintro ⟨m', h₃⟩ hre
    refine (check_meets fun hb => (hnull hb).2).bind fun _ hfound => ?_
    cases entrys with
    | none => exact fun hb => hfree hb (hsome.resolve_left (by simp))
    | some b =>
      have hold : h₃.Holds (b :: (m'.blocks ++ extra)) :=
        hre.holds.perm List.perm_middle
      obtain ⟨hfreed, hown₅, hext₅⟩ := hold.free
      change Meets bad _ ((h₃.free ⟨b, 0⟩).bind _)
      rw [hfreed]
      refine ⟨rfl, hne rfl, hbound, hle, hfound, hre.tableSize, hre.placed, hown₅, ?_, hre.size,
        hre.entries⟩
      exact ((hext₄.trans (Heap.extends_extend none)).trans hre.ext).trans hext₅
  · rw [show (h₂.release table).alloc (newSize * eleBytes) none = (none, _) from
      Prod.ext halloc rfl]
    dsimp only
    rw [if_neg (by omega)]
    intro hb
    refine hno.elim (fun hz => ?_) fun hs => hs (hext₄.served (hnull hb).1)
    rw [eleBytes] at hz
    omega

theorem Resized.subperm (hres : m.Resized keys h newSize extra r) :
    r.1.entries.Subperm m.entries := by
  exact hres.refilled.entries.subperm.trans (cellsBelow_sublist hres.size_le).subperm

structure Sound (m : Hashmap K V) : Prop where
  size_eq : m.size = m.entries.length
  size_lt : m.size < m.tableSize
  table_lt : m.tableSize < 2 ^ 32

theorem Sound.succSize (hs : m.Sound) : m.succSize = m.size + 1 := by
  have hlt := hs.size_lt
  have htable := hs.table_lt
  rw [Hashmap.succSize]
  exact Nat.mod_eq_of_lt (by omega)

theorem Resized.perm (hres : m.Resized keys h newSize extra r) (hsize : m.size = m.entries.length) :
    r.1.entries.Perm m.entries := by
  have hlen : m.entries.length ≤ r.1.entries.length := by
    rw [hres.refilled.entries.length_eq, hres.found, hsize]
  exact hres.subperm.perm_of_length_le hlen

theorem Resized.sound (hres : m.Resized keys h newSize extra r) (hlt : m.size < newSize)
    (hbound : newSize < 2 ^ 32) : r.1.Sound := by
  have hsize := hres.refilled.size
  have htable := hres.refilled.tableSize
  have hfound := hres.found
  have hlen := hres.refilled.entries.length_eq
  dsimp only at hsize htable hlen
  exact ⟨by omega, by omega, by omega⟩

def Grows (m : Hashmap K V) (keys : Keys K) (key : K) : Prop :=
  (∀ e ∈ m.entries, keys.equal e.1 key = false) ∧ m.tableSize ≤ m.size + 1

structure PutResult (m : Hashmap K V) (keys : Keys K) (h : Heap) (key : K) (value : V)
    (extra : List ℕ) (r : Hashmap K V × Heap × MapStatus) : Prop where
  placed : r.1.Placed keys
  holds : r.2.1.Holds (r.1.blocks ++ extra)
  ext : h.Extends r.2.1
  stored : ∃ es, Stored keys key value m.entries r.2.2 es ∧ r.1.entries.Subperm es
  sound : m.Sound → r.1.Sound ∧ Stored keys key value m.entries r.2.2 r.1.entries
  grown : m.Sound → m.Grows keys key → m.size + 1 < 2 ^ 31

theorem Stored.perm {es' es'' : List (K × V)} (hstored : Stored keys key value es status es')
    (hperm : es''.Perm es') : Stored keys key value es status es'' := by
  cases hstored with
  | added hnew hes => exact .added hnew (hperm.trans hes)
  | replaced k v rest hk hold hes => exact .replaced k v rest hk hold (hperm.trans hes)

theorem Inserted.sound (hins : m.Inserted keys h key value extra r) (hs : m.Sound)
    (hroom : ¬ (r.2.2 = .ok ∧ r.1.tableSize ≤ r.1.size)) : r.1.Sound := by
  obtain ⟨m', h', status⟩ := r
  have hsize := hins.size
  have htable := hins.tableSize
  have hstored := hins.stored
  dsimp only at hsize htable hstored hroom ⊢
  have hold := hs.size_eq
  have hlt := hs.size_lt
  have hbound := hs.table_lt
  cases hstored with
  | added hnew hperm =>
    have hlen := hperm.length_eq
    rw [if_neg (by nofun), hs.succSize] at hsize
    rw [List.length_cons] at hlen
    refine ⟨by omega, ?_, by omega⟩
    exact not_le.mp fun hle => hroom ⟨rfl, hle⟩
  | replaced k v rest hk hes hperm =>
    have hlen := hperm.length_eq
    have hlen' := hes.length_eq
    rw [if_pos rfl] at hsize
    rw [List.length_cons] at hlen hlen'
    exact ⟨by omega, by omega, by omega⟩

theorem Inserted.grow_meets {m' : Hashmap K V}
    (hins : m.Inserted keys h key value extra (m', h', .ok)) (hle : m'.tableSize ≤ m'.size)
    (hnull : bad .nullPointer → h.Served ∧ m.Sound)
    (hwrite : bad .badWrite → m.Sound ∧ (m.Grows keys key → m.size + 1 < 2 ^ 31)) :
    Meets bad (m.PutResult keys h key value extra)
      (m'.resizeWith h' (putWithin keys 1) (2 * m'.tableSize % 2 ^ 32)) := by
  obtain ⟨htable, hplaced, hholds, hext, hstored, hsize⟩ := hins
  dsimp only at htable hplaced hholds hext hstored hsize
  have hpos := hplaced.table_pos
  rw [if_neg (by nofun)] at hsize
  obtain ⟨hnew, hperm⟩ : (∀ e ∈ m.entries, keys.equal e.1 key = false) ∧
      m'.entries.Perm ((key, value) :: m.entries) := by
    cases hstored with
    | added hnew hperm => exact ⟨hnew, hperm⟩
  -- a map whose size is right has as many keys as entries now
  have hright : m.Sound → m'.size = m'.entries.length ∧ m'.size = m'.tableSize := by
    intro hs
    have hold := hs.size_eq
    have hlt := hs.size_lt
    have hlen := hperm.length_eq
    rw [List.length_cons] at hlen
    rw [hs.succSize] at hsize
    exact ⟨by omega, by omega⟩
  have hfound : m.Sound → (m'.cellsBelow m'.size).length = m'.size := by
    intro hs
    obtain ⟨hlen, heq⟩ := hright hs
    have hall : m'.cellsBelow m'.size = m'.entries := by rw [entries, heq]
    rw [hall, hlen]
  refine (hplaced.resizeWith_meets hholds ?_ ?_ ?_ ?_ 0).mono ?_
  · omega
  · intro hb
    obtain ⟨hs, hgrow⟩ := hwrite hb
    have hsucc := hs.succSize
    have hbound := hgrow ⟨hnew, by omega⟩
    exact ⟨by omega, (hright hs).2.le, (hfound hs).le⟩
  · exact fun hb => ⟨hext.served (hnull hb).1, hfound (hnull hb).2⟩
  · omega
  · rintro ⟨m'', h'', status⟩ hres
    obtain rfl : status = .ok := hres.status
    have hbound := hres.size_lt
    refine ⟨hres.refilled.placed, hres.refilled.holds, hext.trans hres.refilled.ext,
      ⟨_, hstored, hres.subperm⟩, fun hs => ?_, fun hs _ => ?_⟩
    · obtain ⟨hlen, heq⟩ := hright hs
      exact ⟨hres.sound (by omega) (by omega), hstored.perm (hres.perm hlen)⟩
    · have hsucc := hs.succSize
      omega

theorem Placed.defaultPut_meets (hp : m.Placed keys) (hown : h.Holds (m.blocks ++ extra))
    (hread : bad .badRead → (keys.text key).isSome) (hnull : bad .nullPointer → h.Served ∧ m.Sound)
    (hwrite : bad .badWrite → m.Sound ∧ (m.Grows keys key → m.size + 1 < 2 ^ 31)) (value : V) :
    Meets bad (m.PutResult keys h key value extra) (m.defaultPut keys h key value) := by
  rw [defaultPut, putWithin]
  refine (hp.insert_meets hown hread (fun hb => (hnull hb).1) value).bind ?_
  rintro ⟨m', h', status⟩ hins
  dsimp only
  by_cases hfull : status = .ok ∧ m'.tableSize ≤ m'.size
  · rw [if_pos hfull]
    obtain ⟨rfl, hle⟩ := hfull
    exact hins.grow_meets hle hnull hwrite
  · rw [if_neg hfull]
    refine ⟨hins.placed, hins.holds, hins.ext, ⟨_, hins.stored, List.Subperm.refl _⟩, fun hs => ?_,
      fun hs hgrow => ?_⟩
    · exact ⟨hins.sound hs hfull, hins.stored⟩
    · have hlt := (hins.sound hs hfull).size_lt
      obtain ⟨htable, -, -, -, hstored, hsize⟩ := hins
      dsimp only at htable hstored hsize hlt
      cases hstored with
      | added hnew hperm =>
        have hsucc := hs.succSize
        rw [if_neg (by nofun)] at hsize
        have hfull' := hgrow.2
        omega
      | replaced k v rest hk hold hperm =>
        rw [hgrow.1 (k, v) (hold.symm.subset List.mem_cons_self)] at hk
        cases hk

def dropKey (m : Hashmap K V) (keys : Keys K) (key : K) : Option (Hashmap K V) :=
  ((m.bucket (m.index keys key)).cells.findIdx? fun e => keys.equal e.1 key).map fun i =>
    m.setEntry (m.index keys key) ((m.bucket (m.index keys key)).removeAt i) m.predSize

theorem dropKey_tableSize (hdrop : m.dropKey keys key = some m₁) : m₁.tableSize = m.tableSize := by
  obtain ⟨i, -, rfl⟩ := Option.map_eq_some_iff.mp hdrop
  exact setEntry_tableSize ..

def Shrinks (m : Hashmap K V) : Prop := initSize < m.tableSize ∧ m.size < m.tableSize / 2

instance (m : Hashmap K V) : Decidable m.Shrinks := instDecidableAnd

inductive Erased (keys : Keys K) (key : K) (es : List (K × V)) :
    MapStatus → Option K → List (K × V) → Prop
  | missing {es' : List (K × V)} (hno : ∀ e ∈ es, keys.equal e.1 key = false)
      (hperm : es'.Perm es) : Erased keys key es .missing none es'
  | removed {es' : List (K × V)} (k : K) (v : V) (hk : keys.equal k key = true)
      (hperm : es.Perm ((k, v) :: es')) : Erased keys key es .ok (some k) es'

theorem Erased.perm {es' es'' : List (K × V)} (herased : Erased keys key es status keyAddr es')
    (hperm : es''.Perm es') : Erased keys key es status keyAddr es'' := by
  cases herased with
  | missing hno hes => exact .missing hno (hperm.trans hes)
  | removed k v hk hes => exact .removed k v hk (hes.trans (hperm.symm.cons _))

structure Dropped (m : Hashmap K V) (keys : Keys K) (h : Heap) (key : K) (extra : List ℕ)
    (m₁ : Hashmap K V) (h₁ : Heap) (keyAddr : Option K) : Prop where
  drop : m.dropKey keys key = some m₁
  placed : m₁.Placed keys
  tableSize : m₁.tableSize = m.tableSize
  size : m₁.size = m.predSize
  erased : Erased keys key m.entries .ok keyAddr m₁.entries
  holds : h₁.Holds (m₁.blocks ++ extra)
  ext : h.Extends h₁
  next : h₁.next = h.next

theorem Placed.drop (hp : m.Placed keys) (hown : h.Holds (m.blocks ++ extra))
    (hfind : (m.bucket (m.index keys key)).cells.findIdx? (fun e => keys.equal e.1 key) = some i) :
    ∃ h₁, h.freeAll ((m.bucket (m.index keys key)).freedAt i).toList = .ok h₁ ∧
      m.Dropped keys h key extra
        (m.setEntry (m.index keys key) ((m.bucket (m.index keys key)).removeAt i) m.predSize) h₁
        ((m.bucket (m.index keys key)).cells[i]?.map Prod.fst) := by
  have hidx := hp.index_lt key
  obtain ⟨e, he⟩ := KeyedList.exists_find hfind
  obtain ⟨rest, hperm, herase, -⟩ := KeyedList.exists_perm_of_find he
  have hcells : ((m.bucket (m.index keys key)).removeAt i).cells = rest := by
    rw [Entry.removeAt_cells, ← herase, List.eraseP_eq_eraseIdx, hfind]
  have hlt : i < (m.bucket (m.index keys key)).cells.length :=
    (List.findIdx?_eq_some_iff_getElem.mp hfind).1
  obtain ⟨h₁, hfreed, hown₁, hext₁, hnext₁⟩ : ∃ h₁,
      h.freeAll ((m.bucket (m.index keys key)).freedAt i).toList = .ok h₁ ∧
        h₁.Holds ((m.setEntry (m.index keys key) ((m.bucket (m.index keys key)).removeAt i)
          m.predSize).blocks ++ extra) ∧ h.Extends h₁ ∧ h₁.next = h.next := by
    obtain ⟨others, hold, hnew⟩ := setEntry_blocks hidx
      ((m.bucket (m.index keys key)).removeAt i) m.predSize
    have hnodes := Entry.removeAt_nodes hlt
    refine Heap.Holds.freeAll (hown.perm ?_)
    have hall := hold.trans (hnodes.append_right others)
    rw [List.append_assoc] at hall
    rw [← List.append_assoc]
    exact (hall.trans (hnew.symm.append_left _)).append_right extra
  refine ⟨h₁, hfreed, ?_, hp.setEntry ?_ ?_ _, setEntry_tableSize .., setEntry_size .., ?_, hown₁,
    hext₁, hnext₁⟩
  · rw [dropKey, hfind, Option.map_some]
  · intro d hd
    rw [hcells] at hd
    exact hp.hashed _ d (hperm.symm.subset (List.mem_cons_of_mem _ hd))
  · rw [hcells, ← herase]
    exact (hp.distinct _).eraseP key
  · obtain ⟨others, hold, hnew⟩ := setEntry_entries hidx
      ((m.bucket (m.index keys key)).removeAt i) m.predSize
    rw [KeyedList.getElem_findIdx hfind, he]
    refine .removed e.1 e.2 (KeyedList.find_some_key he) ?_
    rw [hcells] at hnew
    exact (hold.trans (hperm.append_right others)).trans (hnew.symm.cons e)

theorem Placed.defaultRemove_cases (hp : m.Placed keys) (hown : h.Holds (m.blocks ++ extra))
    (hkey : (keys.text key).isSome) :
    (m.dropKey keys key = none ∧ (∀ e ∈ m.entries, keys.equal e.1 key = false) ∧
        m.defaultRemove keys h key = .ok (m, h, .missing, none)) ∨
      ∃ m₁ h₁ keyAddr, m.Dropped keys h key extra m₁ h₁ keyAddr ∧ m.defaultRemove keys h key =
          if m₁.Shrinks then
            (m₁.resize keys h₁ (m₁.tableSize / 2)).map fun r => (r.1, r.2.1, r.2.2, keyAddr)
          else .ok (m₁, h₁, .ok, keyAddr) := by
  have hsearch : Meets (fun _ => True) _ (m.search keys key) := hp.search_meets fun _ => hkey
  obtain ⟨_, hsearch, -, rfl⟩ := exists_of_meets hsearch
  rw [defaultRemove, hsearch]
  cases hfind : (m.bucket (m.index keys key)).cells.findIdx? fun e => keys.equal e.1 key with
  | none =>
    refine Or.inl ⟨by rw [dropKey, hfind]; rfl, ?_, rfl⟩
    exact KeyedList.find_eq_none_iff.mp
      ((hp.find_entries key).trans (KeyedList.find_eq_none_of_findIdx hfind))
  | some i =>
    obtain ⟨h₁, hfreed, hdropped⟩ := hp.drop hown hfind
    refine Or.inr ⟨_, h₁, _, hdropped, ?_⟩
    change (h.freeAll _).bind _ = _
    rw [hfreed]
    generalize m.setEntry (m.index keys key) ((m.bucket (m.index keys key)).removeAt i)
      m.predSize = m₁
    by_cases hshrink : m₁.Shrinks
    · rw [if_pos hshrink]
      refine (if_pos hshrink).trans ?_
      cases m₁.resize keys h₁ (m₁.tableSize / 2) <;> rfl
    · rw [if_neg hshrink]
      exact if_neg hshrink

theorem Sound.drop (hs : m.Sound) (herased : Erased keys key m.entries .ok keyAddr m₁.entries)
    (hsize : m₁.size = m.predSize) (htable : m₁.tableSize = m.tableSize) : m₁.Sound := by
  have hold := hs.size_eq
  have hlt := hs.size_lt
  have hbound := hs.table_lt
  cases herased with
  | removed k v hk hperm =>
    have hlen := hperm.length_eq
    rw [List.length_cons] at hlen
    rw [predSize] at hsize
    exact ⟨by omega, by omega, by omega⟩

/-- The result of `default_remove`. A removal that shrinks the table returns only if the map is not
empty and all its keys are found. -/
structure RemoveResult (m : Hashmap K V) (keys : Keys K) (h : Heap) (key : K) (extra : List ℕ)
    (r : Hashmap K V × Heap × MapStatus × Option K) : Prop where
  placed : r.1.Placed keys
  holds : r.2.1.Holds (r.1.blocks ++ extra)
  ext : h.Extends r.2.1
  erased : ∃ es, Erased keys key m.entries r.2.2.1 r.2.2.2 es ∧ r.1.entries.Subperm es
  sound : m.Sound → r.1.Sound ∧ Erased keys key m.entries r.2.2.1 r.2.2.2 r.1.entries
  shrunk : ∀ m₁, m.dropKey keys key = some m₁ → m₁.Shrinks →
    m₁.size ≠ 0 ∧ (m₁.cellsBelow m₁.size).length = m₁.size

theorem Placed.defaultRemove_of_unreadable (hkey : keys.text key = none) :
    m.defaultRemove keys h key = .error .badRead := by
  rw [defaultRemove, search, hash, hkey]
  rfl

theorem Placed.defaultRemove_meets (hp : m.Placed keys) (hown : h.Holds (m.blocks ++ extra))
    (hread : bad .badRead → (keys.text key).isSome)
    (hnull : bad .nullPointer → h.Served ∧ ∀ m₁, m.dropKey keys key = some m₁ → m₁.Shrinks →
      (m₁.cellsBelow m₁.size).length = m₁.size) (hwrite : bad .badWrite → m.Sound)
    (hfree : bad .badFree → ∀ m₁, m.dropKey keys key = some m₁ → m₁.Shrinks → m₁.size ≠ 0) :
    Meets bad (m.RemoveResult keys h key extra) (m.defaultRemove keys h key) := by
  by_cases hkey : (keys.text key).isSome = true
  swap
  · rw [defaultRemove_of_unreadable (by simpa using hkey)]
    exact fun hb => hkey (hread hb)
  rcases hp.defaultRemove_cases hown hkey with ⟨hdrop, hno, heq⟩ | ⟨m₁, h₁, keyAddr, hd, heq⟩
  · rw [heq]
    refine ⟨hp, hown, .refl h, ⟨_, .missing hno (.refl _), List.Subperm.refl _⟩, ?_, ?_⟩
    · exact fun hs => ⟨hs, .missing hno (.refl _)⟩
    · rw [hdrop]
      nofun
  · have honly : ∀ m₂, m.dropKey keys key = some m₂ → m₂ = m₁ := by
      intro m₂ hm₂
      rw [hd.drop] at hm₂
      exact (Option.some.inj hm₂).symm
    have hsound : m.Sound → m₁.Sound := fun hs => hs.drop hd.erased hd.size hd.tableSize
    rw [heq]
    by_cases hshrink : m₁.Shrinks
    · rw [if_pos hshrink]
      have hhalf : m₁.size < m₁.tableSize / 2 := hshrink.2
      refine Meets.map ((hd.placed.resizeWith_meets hd.holds (fun _ _ => hhalf) ?_ ?_ ?_ 1).mono ?_)
      · intro hb
        have hs := hsound (hwrite hb)
        have hbound := hs.table_lt
        refine ⟨by omega, hs.size_lt.le, ?_⟩
        rw [hs.size_eq]
        exact hs.size_eq ▸ (cellsBelow_sublist hs.size_lt.le).length_le
      · exact fun hb => ⟨hd.ext.served (hnull hb).1, (hnull hb).2 m₁ hd.drop hshrink⟩
      · exact fun hb => hfree hb m₁ hd.drop hshrink
      rintro ⟨m', h', status⟩ hres
      obtain rfl : status = .ok := hres.status
      refine ⟨hres.refilled.placed, hres.refilled.holds, hd.ext.trans hres.refilled.ext,
        ⟨_, hd.erased, hres.subperm⟩, fun hs => ?_, ?_⟩
      · have hs₁ := hsound hs
        have hbound := hs₁.table_lt
        exact ⟨hres.sound hhalf (by omega), hd.erased.perm (hres.perm hs₁.size_eq)⟩
      · rintro m₂ hm₂ -
        rw [honly m₂ hm₂]
        exact ⟨hres.size_ne, hres.found⟩
    · rw [if_neg hshrink]
      refine ⟨hd.placed, hd.holds, hd.ext, ⟨_, hd.erased, List.Subperm.refl _⟩, ?_, ?_⟩
      · exact fun hs => ⟨hsound hs, hd.erased⟩
      · intro m₂ hm₂ hs₂
        exact absurd (honly m₂ hm₂ ▸ hs₂) hshrink

/-- Shrinking the table of an empty map ends with freeing an array that was never allocated, if
there is memory for the new table. -/
theorem Placed.resizeWith_empty (hp : m.Placed keys) (hown : h.Holds (m.blocks ++ extra))
    (hsize : m.size = 0) (hnew : newSize ≠ 0)
    (put : Hashmap K V → Heap → K → V → Except Fault (Hashmap K V × Heap × MapStatus)) :
    m.resizeWith h put newSize = .error (if h.supply h.next then .badFree else .nullPointer) := by
  obtain ⟨table, htable⟩ := Option.isSome_iff_exists.mp hp.table
  have hlive : h.live table = true := hown.live table (by simp [blocks, htable])
  have hcells : m.cellsBelow m.size = [] := by rw [hsize]; rfl
  have hnodes : m.nodesBelow m.size = [] := by rw [hsize]; rfl
  have halloc : h.alloc (m.size * eleBytes) none = (none, h) := by
    rw [hsize, Nat.zero_mul, Heap.alloc, if_pos rfl]
  have hnewBytes : newSize * eleBytes ≠ 0 := Nat.mul_ne_zero hnew (by decide)
  have hsupply : (h.release table).supply (h.release table).next = h.supply h.next := rfl
  rw [resizeWith, hcells, hnodes, halloc, htable]
  simp only [check, hsize, Nat.two_pow_pos, Nat.zero_le, and_self, or_true, if_true,
    List.length_nil, le_refl]
  change ((h.free ⟨table, 0⟩).bind _) = _
  rw [Heap.free_start hlive]
  dsimp only [Except.bind]
  rw [Heap.alloc, if_neg hnewBytes, hsupply]
  cases h.supply h.next with
  | true => rfl
  | false => exact if_neg hnew

theorem Placed.defaultRemove_empty (hp : m.Placed keys) (hown : h.Holds (m.blocks ++ extra))
    (hdrop : m.dropKey keys key = some m₁) (hshrink : m₁.Shrinks) (hsize : m₁.size = 0)
    (hkey : (keys.text key).isSome) :
    m.defaultRemove keys h key = .error (if h.supply h.next then .badFree else .nullPointer) := by
  rcases hp.defaultRemove_cases hown hkey with ⟨hnone, -, -⟩ | ⟨m₂, h₁, keyAddr, hd, heq⟩
  · rw [hnone] at hdrop
    cases hdrop
  · obtain rfl : m₂ = m₁ := Option.some.inj (hd.drop.symm.trans hdrop)
    have hhalf : m₂.size < m₂.tableSize / 2 := hshrink.2
    rw [heq, if_pos hshrink, resize, hd.placed.resizeWith_empty hd.holds hsize (by omega),
      hd.next, hd.ext.supply]
    rfl

theorem Placed.defaultGet_meets (hp : m.Placed keys)
    (hread : bad .badRead → (keys.text key).isSome) :
    Meets bad (fun r => r = (KeyedList.find keys.equal m.entries key).map Prod.snd)
      (m.defaultGet keys key) := by
  rw [defaultGet]
  refine (hp.search_meets hread).bind ?_
  rintro _ ⟨hkey, rfl⟩
  rw [hp.find_entries]
  cases hfind : (m.bucket (m.index keys key)).cells.findIdx? fun e => keys.equal e.1 key with
  | none =>
    rw [KeyedList.find_eq_none_of_findIdx hfind]
    rfl
  | some i =>
    rw [← KeyedList.getElem_findIdx hfind]
    rfl

theorem Placed.defaultFree_meets (hp : m.Placed keys) (hown : h.Holds (m.blocks ++ extra)) :
    Meets bad (fun r => r.1.Placed keys ∧ r.2.Holds (r.1.blocks ++ extra) ∧ h.Extends r.2 ∧
      r.1.entries.Sublist m.entries) (m.defaultFree h) := by
  have hsplit : (m.blocks ++ extra).Perm
      (m.nodesBelow m.tableSize ++ (m.entry.toList ++ extra)) := by
    rw [blocks, List.append_assoc]
    exact List.perm_append_comm_assoc _ _ _
  obtain ⟨h', hfree, hown', hext, -⟩ := (hown.perm hsplit).freeAll
  rw [defaultFree, hfree]
  refine ⟨⟨hp.table_pos, hp.table, ?_, ?_⟩, ?_, hext, ?_⟩
  · exact fun i e he => hp.hashed i e ((m.bucket i).cut_cells_sublist.subset he)
  · exact fun i => (hp.distinct i).sublist (m.bucket i).cut_cells_sublist
  · have hnone : ((List.range m.tableSize).flatMap fun i => (m.bucket i).cut.nodes) = [] := by
      simp [Entry.cut_nodes]
    simp only [blocks, nodesBelow, hnone, List.append_nil]
    exact hown'
  · exact List.Sublist.flatMap_right _ fun i _ => (m.bucket i).cut_cells_sublist

theorem newHashmap_meets (keys : Keys K) (tableSize : ℕ) (hown : h.Holds extra)
    (hserve : bad .nullPointer → h.Served) :
    Meets bad (fun r => r.1.Placed keys ∧ r.2.Holds (r.1.blocks ++ extra) ∧ h.Extends r.2 ∧
      r.1.entries = [] ∧ r.1.size = 0 ∧
      r.1.tableSize = if tableSize = 0 then initSize else tableSize)
      (newHashmap tableSize h : Except Fault (Hashmap K V × Heap)) := by
  have hpos : 0 < if tableSize = 0 then initSize else tableSize := by
    split
    · decide
    · omega
  rw [newHashmap]
  refine (Heap.request_meets hserve (by decide) none).bind ?_
  rintro _ rfl
  have hext := Heap.extends_extend (h := h) none
  refine (Heap.request_meets (fun hb => hext.served (hserve hb)) ?_ none).bind ?_
  · rw [eleBytes]
    omega
  rintro _ rfl
  have hcleared : (cleared _ _ : Hashmap K V).Placed keys :=
    cleared_placed hpos (h.extend none).next
  refine ⟨hcleared, ?_, hext.trans (Heap.extends_extend none), cleared_entries _ _, rfl, rfl⟩
  have hblocks := cleared_blocks (K := K) (V := V) (if tableSize = 0 then initSize else tableSize)
    (h.extend none).next
  rw [cleared] at hblocks
  rw [hblocks]
  exact (hown.extend none).extend_cons

/-- All keys are in the first `n` entries of the table exactly if their hash codes are below `n`. -/
theorem Placed.cellsBelow_length_iff (hp : m.Placed keys) (hn : n ≤ m.tableSize) :
    (m.cellsBelow n).length = m.entries.length ↔ ∀ e ∈ m.entries, m.index keys e.1 < n := by
  obtain ⟨rest, hrest, hlate⟩ := m.cellsBelow_le hn
  have hentries : m.entries = m.cellsBelow n ++ rest := hrest
  have hlen : (m.cellsBelow n).length = m.entries.length ↔ rest = [] := by
    rw [hentries, List.length_append, ← List.length_eq_zero_iff]
    omega
  rw [hlen]
  constructor
  · rintro rfl e he
    rw [hentries, List.append_nil] at he
    obtain ⟨i, hi, hmem⟩ := List.mem_flatMap.mp he
    rw [hp.index_of_mem hmem]
    exact List.mem_range.mp hi
  · intro hall
    rw [List.eq_nil_iff_forall_not_mem]
    intro e he
    obtain ⟨i, hi, hmem⟩ := hlate e he
    have hlt := hall e (hentries ▸ List.mem_append_right _ he)
    rw [hp.index_of_mem hmem] at hlt
    omega

end Hashmap

end NtSocks.Ntkv
