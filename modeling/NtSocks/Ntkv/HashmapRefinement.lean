import Mathlib.Data.Finmap
import NtSocks.Lib.Runs
import NtSocks.Ntkv.HashmapSteps

/-!
# Histories of the linked hash map

The results of a map are compared with those of a finite map from strings to values, operation by
operation. They are the same along a history exactly if the counts stay in the range of an `int`
and every removal that shrinks the table leaves at least one key and, in the old table, only keys
whose hash codes are below the number of keys.
-/

namespace NtSocks.Ntkv

open BlockHeap Faults

variable {K V : Type}

abbrev StringMap (V : Type) := Finmap fun _ : List UInt8 => V

inductive MapOp (K V : Type)
  | put (key : K) (value : V)
  | get (key : K)
  | remove (key : K)
  | len

inductive MapResult (V : Type)
  | status (s : MapStatus)
  | value (v : Option V)
  | length (n : ℤ)

def MapOp.spec (str : K → List UInt8) (f : StringMap V) : MapOp K V → StringMap V × MapResult V
  | .put key value =>
    (f.insert (str key) value, .status (if str key ∈ f then .replace else .ok))
  | .get key => (f, .value (f.lookup (str key)))
  | .remove key => (f.erase (str key), .status (if str key ∈ f then .ok else .missing))
  | .len => (f, .length f.keys.card)

structure MapState (K V : Type) where
  map : Hashmap K V
  heap : Heap

def MapState.exec (keys : Keys K) (s : MapState K V) :
    MapOp K V → Except Fault (MapState K V × MapResult V)
  | .put key value =>
    (s.map.defaultPut keys s.heap key value).map fun r => (⟨r.1, r.2.1⟩, .status r.2.2)
  | .get key => (s.map.defaultGet keys key).map fun v => (s, .value v)
  | .remove key =>
    (s.map.defaultRemove keys s.heap key).map fun r => (⟨r.1, r.2.1⟩, .status r.2.2.1)
  | .len => .ok (s, .length s.map.defaultLen)

def Keys.ofStrings (hashcode : ℕ → List UInt8 → ℕ)
    (hashcode_lt : ∀ tableSize s, 0 < tableSize → hashcode tableSize s < tableSize)
    (str : K → List UInt8) : Keys K where
  hashcode := hashcode
  hashcode_lt := hashcode_lt
  text := fun k => some (str k)

def Shows (str : K → List UInt8) (es : List (K × V)) (f : StringMap V) : Prop :=
  f.entries = (es.map fun e => (⟨str e.1, e.2⟩ : Sigma fun _ : List UInt8 => V))

namespace Shows

variable {str : K → List UInt8} {es es' : List (K × V)} {f : StringMap V} {k : K} {v : V}
  {s : List UInt8}

theorem perm (hshow : Shows str es f) (hperm : es.Perm es') : Shows str es' f := by
  rw [Shows] at hshow ⊢
  rw [hshow, Multiset.coe_eq_coe]
  exact hperm.map _

theorem lookup_eq_some_iff (hshow : Shows str es f) :
    f.lookup s = some v ↔ ∃ k, str k = s ∧ (k, v) ∈ es := by
  rw [Finmap.lookup_eq_some_iff, show f.entries = _ from hshow, Multiset.mem_coe]
  simp only [List.mem_map, Sigma.mk.injEq, heq_eq_eq, Prod.exists]
  constructor
  · rintro ⟨k, v, hmem, rfl, rfl⟩
    exact ⟨k, rfl, hmem⟩
  · rintro ⟨k, rfl, hmem⟩
    exact ⟨k, v, hmem, rfl, rfl⟩

theorem mem_iff (hshow : Shows str es f) : s ∈ f ↔ ∃ e ∈ es, str e.1 = s := by
  rw [Finmap.mem_iff]
  constructor
  · rintro ⟨v, hv⟩
    obtain ⟨k, hk, hmem⟩ := hshow.lookup_eq_some_iff.mp hv
    exact ⟨(k, v), hmem, hk⟩
  · rintro ⟨⟨k, v⟩, hmem, hk⟩
    exact ⟨v, hshow.lookup_eq_some_iff.mpr ⟨k, hk, hmem⟩⟩

theorem card_keys (hshow : Shows str es f) : f.keys.card = es.length := by
  rw [Finmap.keys, Finset.card_mk, show f.entries = _ from hshow, Multiset.coe_keys,
    Multiset.coe_card]
  simp [List.keys]

theorem added (hshow : Shows str es f) (hnew : ∀ e ∈ es, str e.1 ≠ str k) (v : V) :
    Shows str ((k, v) :: es) (f.insert (str k) v) := by
  have hnot : str k ∉ f := by
    rw [hshow.mem_iff]
    rintro ⟨e, he, heq⟩
    exact hnew e he heq
  rw [Shows, Finmap.entries_insert_of_notMem hnot, show f.entries = _ from hshow]
  rfl

theorem exists_insert (hshow : Shows str ((k, v) :: es) f) :
    ∃ g : StringMap V, Shows str es g ∧ str k ∉ g ∧ f = g.insert (str k) v := by
  have hnodup := f.nodupKeys
  rw [show f.entries = _ from hshow, List.map_cons, Multiset.coe_nodupKeys,
    List.nodupKeys_cons] at hnodup
  let g : StringMap V := ⟨_, Multiset.coe_nodupKeys.mpr hnodup.2⟩
  have hg : Shows str es g := rfl
  have hnot : str k ∉ g := by
    rw [Finmap.mem_def]
    exact hnodup.1
  refine ⟨g, hg, hnot, Finmap.ext ?_⟩
  rw [Finmap.entries_insert_of_notMem hnot, show f.entries = _ from hshow]
  rfl

theorem replaced (hshow : Shows str ((k, v) :: es) f) (v' : V) :
    Shows str ((k, v') :: es) (f.insert (str k) v') := by
  obtain ⟨g, hg, hnot, rfl⟩ := hshow.exists_insert
  rw [Finmap.insert_insert]
  refine hg.added ?_ v'
  intro e he heq
  exact hnot (hg.mem_iff.mpr ⟨e, he, heq⟩)

theorem removed (hshow : Shows str ((k, v) :: es) f) : Shows str es (f.erase (str k)) := by
  obtain ⟨g, hg, hnot, rfl⟩ := hshow.exists_insert
  have herase : (g.insert (str k) v).erase (str k) = g := by
    refine Finmap.ext_lookup fun s => ?_
    by_cases hs : s = str k
    · rw [hs, Finmap.lookup_erase, Finmap.lookup_eq_none.mpr hnot]
    · rw [Finmap.lookup_erase_ne hs, Finmap.lookup_insert_of_ne _ hs]
  rw [herase]
  exact hg

end Shows

structure Traced (K V : Type) where
  state : MapState K V
  spec : StringMap V

def Traced.step (keys : Keys K) (str : K → List UInt8) (s : Traced K V) (op : MapOp K V) :
    Option (Traced K V) :=
  (s.state.exec keys op).toOption.map fun r => ⟨r.1, (op.spec str s.spec).1⟩

def Traced.Refines (keys : Keys K) (str : K → List UInt8) (s : Traced K V) (op : MapOp K V) :
    Prop :=
  ∃ state, s.state.exec keys op = .ok (state, (op.spec str s.spec).2)

/-- A growth and a length count fewer than 2³¹ keys; a removal that shrinks the table leaves a key,
and only keys with hash codes, in the old table, below their number. -/
def Harmless (keys : Keys K) (m : Hashmap K V) : MapOp K V → Prop
  | .put key _ => m.Grows keys key → m.size + 1 < 2 ^ 31
  | .get _ => True
  | .remove key => ∀ m₁, m.dropKey keys key = some m₁ → m₁.Shrinks →
      m₁.size ≠ 0 ∧ ∀ e ∈ m₁.entries, m₁.index keys e.1 < m₁.size
  | .len => m.size < 2 ^ 31

structure MapState.Valid (keys : Keys K) (s : MapState K V) : Prop where
  placed : s.map.Placed keys
  holds : s.heap.Holds (s.map.blocks ++ [])
  served : s.heap.Served
  sound : s.map.Sound

section Step

variable {hashcode : ℕ → List UInt8 → ℕ}
  {hashcode_lt : ∀ tableSize s, 0 < tableSize → hashcode tableSize s < tableSize}
  {str : K → List UInt8} {s : MapState K V} {f : StringMap V} {key : K} {value : V} {op : MapOp K V}
  {es : List (K × V)} {status : MapStatus}

theorem Keys.ofStrings_equal_iff {k k' : K} :
    (Keys.ofStrings hashcode hashcode_lt str).equal k k' = true ↔ str k = str k' := by
  rw [Keys.equal_iff]
  exact Option.some_inj

theorem Keys.ofStrings_equal_eq_false_iff {k k' : K} :
    (Keys.ofStrings hashcode hashcode_lt str).equal k k' = false ↔ str k ≠ str k' := by
  rw [← Bool.not_eq_true, Keys.ofStrings_equal_iff]

theorem Shows.stored {es' : List (K × V)} (hshow : Shows str es f)
    (hstored : Hashmap.Stored (.ofStrings hashcode hashcode_lt str) key value es status es') :
    Shows str es' (f.insert (str key) value) ∧ status = if str key ∈ f then .replace else .ok := by
  cases hstored with
  | added hnew hperm =>
    have hne : ∀ e ∈ es, str e.1 ≠ str key :=
      fun e he => Keys.ofStrings_equal_eq_false_iff.mp (hnew e he)
    refine ⟨(hshow.added hne value).perm hperm.symm, (if_neg ?_).symm⟩
    rw [hshow.mem_iff]
    rintro ⟨e, he, heq⟩
    exact hne e he heq
  | replaced k v rest hk hold hperm =>
    have hk' : str k = str key := Keys.ofStrings_equal_iff.mp hk
    have hshow' := hshow.perm hold
    rw [← hk']
    refine ⟨(hshow'.replaced value).perm hperm.symm, (if_pos ?_).symm⟩
    exact hshow'.mem_iff.mpr ⟨(k, v), List.mem_cons_self, rfl⟩

theorem Shows.erased {es' : List (K × V)} (hshow : Shows str es f) {keyAddr : Option K}
    (herased : Hashmap.Erased (.ofStrings hashcode hashcode_lt str) key es status keyAddr es') :
    Shows str es' (f.erase (str key)) ∧ status = if str key ∈ f then .ok else .missing := by
  cases herased with
  | missing hno hperm =>
    have hnot : str key ∉ f := by
      rw [hshow.mem_iff]
      rintro ⟨e, he, heq⟩
      exact Keys.ofStrings_equal_eq_false_iff.mp (hno e he) heq
    have herase : f.erase (str key) = f := by
      refine Finmap.ext_lookup fun s => ?_
      by_cases hs : s = str key
      · rw [hs, Finmap.lookup_erase, Finmap.lookup_eq_none.mpr hnot]
      · rw [Finmap.lookup_erase_ne hs]
    rw [herase]
    exact ⟨hshow.perm hperm.symm, (if_neg hnot).symm⟩
  | removed k v hk hperm =>
    have hk' : str k = str key := Keys.ofStrings_equal_iff.mp hk
    have hshow' := hshow.perm hperm
    rw [← hk']
    refine ⟨hshow'.removed, (if_pos ?_).symm⟩
    exact hshow'.mem_iff.mpr ⟨(k, v), List.mem_cons_self, rfl⟩

theorem Shows.get (hshow : Shows str s.map.entries f) (key : K) :
    (KeyedList.find (Keys.ofStrings hashcode hashcode_lt str).equal s.map.entries key).map
      Prod.snd = f.lookup (str key) := by
  cases hfind : KeyedList.find (Keys.ofStrings hashcode hashcode_lt str).equal s.map.entries
      key with
  | none =>
    have hno := KeyedList.find_eq_none_iff.mp hfind
    symm
    rw [Option.map_none, Finmap.lookup_eq_none, hshow.mem_iff]
    rintro ⟨e, he, heq⟩
    exact Keys.ofStrings_equal_eq_false_iff.mp (hno e he) heq
  | some e =>
    have hkey := Keys.ofStrings_equal_iff.mp (KeyedList.find_some_key hfind)
    exact (hshow.lookup_eq_some_iff.mpr ⟨e.1, hkey, KeyedList.mem_of_find hfind⟩).symm

/-- In a map whose size is right, the entries that a shrinking looks at hold all keys exactly if the
hash codes of the keys are below their number. -/
theorem MapState.Valid.dropKey_found_iff {keys : Keys K} (hv : s.Valid keys)
    {m₁ : Hashmap K V} (hdrop : s.map.dropKey keys key = some m₁) :
    (m₁.cellsBelow m₁.size).length = m₁.size ↔ ∀ e ∈ m₁.entries, m₁.index keys e.1 < m₁.size := by
  obtain ⟨i, hfind, rfl⟩ := Option.map_eq_some_iff.mp hdrop
  obtain ⟨h₁, -, hd⟩ := hv.placed.drop hv.holds hfind
  have hs₁ := hv.sound.drop hd.erased hd.size hd.tableSize
  rw [← hd.placed.cellsBelow_length_iff hs₁.size_lt.le, ← hs₁.size_eq]

theorem MapState.Valid.exec (hv : s.Valid (.ofStrings hashcode hashcode_lt str))
    (hshow : Shows str s.map.entries f)
    (hharm : Harmless (.ofStrings hashcode hashcode_lt str) s.map op) :
    ∃ s', s.exec (.ofStrings hashcode hashcode_lt str) op = .ok (s', (op.spec str f).2) ∧
      s'.Valid (.ofStrings hashcode hashcode_lt str) ∧
      Shows str s'.map.entries (op.spec str f).1 := by
  cases op with
  | put key value =>
    obtain ⟨⟨m', h', status⟩, hput, hres⟩ := exists_of_meets
      (hv.placed.defaultPut_meets hv.holds (fun _ => rfl) (fun _ => ⟨hv.served, hv.sound⟩)
        (fun _ => ⟨hv.sound, hharm⟩) value)
    obtain ⟨hsound, hstored⟩ := hres.sound hv.sound
    obtain ⟨hshow', hstatus⟩ := hshow.stored hstored
    refine ⟨⟨m', h'⟩, ?_, ⟨hres.placed, hres.holds, hres.ext.served hv.served, hsound⟩, hshow'⟩
    rw [MapState.exec, hput, MapOp.spec, ← hstatus]
    rfl
  | get key =>
    have hmeets : Meets (fun _ => True) _ (s.map.defaultGet _ key) :=
      hv.placed.defaultGet_meets fun _ => rfl
    obtain ⟨v, hget, rfl⟩ := exists_of_meets hmeets
    refine ⟨s, ?_, hv, hshow⟩
    rw [MapState.exec, hget, hshow.get]
    rfl
  | remove key =>
    obtain ⟨⟨m', h', status, keyAddr⟩, hremove, hres⟩ := exists_of_meets
      (hv.placed.defaultRemove_meets hv.holds (fun _ => rfl)
        (fun _ => ⟨hv.served, fun m₁ hdrop hshrink =>
          (hv.dropKey_found_iff hdrop).mpr (hharm m₁ hdrop hshrink).2⟩)
        (fun _ => hv.sound) (fun _ m₁ hdrop hshrink => (hharm m₁ hdrop hshrink).1))
    obtain ⟨hsound, herased⟩ := hres.sound hv.sound
    obtain ⟨hshow', hstatus⟩ := hshow.erased herased
    refine ⟨⟨m', h'⟩, ?_, ⟨hres.placed, hres.holds, hres.ext.served hv.served, hsound⟩, hshow'⟩
    rw [MapState.exec, hremove, MapOp.spec, ← hstatus]
    rfl
  | len =>
    refine ⟨s, ?_, hv, hshow⟩
    have hlt : s.map.size < 2 ^ 31 := hharm
    rw [MapState.exec, Hashmap.defaultLen, if_pos hlt, MapOp.spec, hshow.card_keys,
      hv.sound.size_eq]

theorem MapState.Valid.harmless (hv : s.Valid (.ofStrings hashcode hashcode_lt str))
    (hshow : Shows str s.map.entries f)
    (href : Traced.Refines (.ofStrings hashcode hashcode_lt str) str ⟨s, f⟩ op) :
    Harmless (.ofStrings hashcode hashcode_lt str) s.map op := by
  obtain ⟨s', hexec⟩ := href
  cases op with
  | put key value =>
    obtain ⟨r, hput, -⟩ := map_eq_ok.mp hexec
    have hmeets : Meets (fun _ => False) _ (s.map.defaultPut _ s.heap key value) :=
      hv.placed.defaultPut_meets hv.holds nofun nofun nofun value
    exact (hmeets.of_ok hput).grown hv.sound
  | get key => trivial
  | remove key =>
    obtain ⟨r, hremove, -⟩ := map_eq_ok.mp hexec
    have hmeets : Meets (fun _ => False) _ (s.map.defaultRemove _ s.heap key) :=
      hv.placed.defaultRemove_meets hv.holds nofun nofun nofun nofun
    intro m₁ hdrop hshrink
    obtain ⟨hne, hfound⟩ := (hmeets.of_ok hremove).shrunk m₁ hdrop hshrink
    exact ⟨hne, (hv.dropKey_found_iff hdrop).mp hfound⟩
  | len =>
    simp only [MapState.exec, MapOp.spec, Except.ok.injEq, Prod.mk.injEq, MapResult.length.injEq,
      hshow.card_keys, ← hv.sound.size_eq, Hashmap.defaultLen] at hexec
    have hlen := hexec.2
    change s.map.size < 2 ^ 31
    by_contra hlarge
    rw [if_neg hlarge] at hlen
    omega

end Step

/-- The results of a history on a new map, with any hash function and strings as keys, are those of
a finite map if and only if every operation is harmless in the map that it meets. -/
theorem finite_map_results_iff (hashcode : ℕ → List UInt8 → ℕ)
    (hashcode_lt : ∀ tableSize s, 0 < tableSize → hashcode tableSize s < tableSize)
    (str : K → List UInt8) (tableSize : ℕ) (htable : tableSize < 2 ^ 32) (ops : List (MapOp K V)) :
    ∃ m h, Hashmap.newHashmap tableSize (Heap.empty fun _ => true) = .ok (m, h) ∧
      (Runs.Along (Traced.step (.ofStrings hashcode hashcode_lt str) str)
          (Traced.Refines (.ofStrings hashcode hashcode_lt str) str) ⟨⟨m, h⟩, ∅⟩ ops ↔
        Runs.Along (Traced.step (.ofStrings hashcode hashcode_lt str) str)
          (fun s => Harmless (.ofStrings hashcode hashcode_lt str) s.state.map)
          ⟨⟨m, h⟩, ∅⟩ ops) := by
  have hempty : (Heap.empty fun _ => true).Holds [] := ⟨List.nodup_nil, nofun, nofun⟩
  obtain ⟨⟨m, h⟩, hnew, hp, hown, hext, hentries, hsize, htableSize⟩ :=
    exists_of_meets (Hashmap.newHashmap_meets (.ofStrings hashcode hashcode_lt str) tableSize
      hempty fun _ _ => rfl)
  refine ⟨m, h, hnew, ?_⟩
  refine Runs.along_congr (C := fun _ => True)
    (I := fun s : Traced K V => s.state.Valid (.ofStrings hashcode hashcode_lt str) ∧
      Shows str s.state.map.entries s.spec) ?_ ?_ ⟨⟨hp, hown, hext.served fun _ => rfl, ?_⟩, ?_⟩
    fun _ _ => trivial
  · rintro ⟨s, f⟩ op ⟨hv, hshow⟩ -
    constructor
    · exact hv.harmless hshow
    · intro hharm
      obtain ⟨s', hexec, -⟩ := hv.exec hshow hharm
      exact ⟨s', hexec⟩
  · rintro ⟨s, f⟩ op t ⟨hv, hshow⟩ - hharm hstep
    obtain ⟨s', hexec, hv', hshow'⟩ := hv.exec hshow hharm
    rw [Traced.step, hexec] at hstep
    cases hstep
    exact ⟨hv', hshow'⟩
  · have hpos := hp.table_pos
    dsimp only at hsize hentries htableSize hpos ⊢
    refine ⟨by rw [hsize, hentries]; rfl, by omega, ?_⟩
    rw [htableSize]
    split
    · decide
    · exact htable
  · rw [Shows, show m.entries = [] from hentries]
    rfl

section Sample

def byteKeys : Keys (List UInt8) := .ofStrings defaultHashcode defaultHashcode_lt id

theorem finite_map_results_default_size :
    ∃ m h, Hashmap.newHashmap 0 (Heap.empty fun _ => true) = .ok (m, h) ∧
      Runs.Along (Traced.step byteKeys id) (Traced.Refines byteKeys id) ⟨⟨m, h⟩, ∅⟩
        [.put [97] 1, .put [98] 2, .len, .remove [97]] := by
  obtain ⟨m, h, hnew, hiff⟩ := finite_map_results_iff defaultHashcode defaultHashcode_lt id 0
    (by decide) [.put [97] 1, .put [98] 2, .len, .remove [97]]
  refine ⟨m, h, hnew, hiff.mpr ?_⟩
  cases hnew
  refine ⟨fun _ => by decide, fun s₁ h₁ => ?_⟩
  cases h₁
  refine ⟨fun _ => by decide, fun s₂ h₂ => ?_⟩
  cases h₂
  refine ⟨show 2 < 2 ^ 31 by decide, fun s₃ h₃ => ?_⟩
  cases h₃
  refine ⟨fun m₁ hdrop hshrink => ?_, fun _ _ => trivial⟩
  have htable : m₁.tableSize = Hashmap.initSize := Hashmap.dropKey_tableSize hdrop
  exact absurd hshrink.1 (htable ▸ lt_irrefl _)

/-- The removal of one of two keys shrinks the table, and the other one, with the hash code 98, is
not among the first entries: its place in the array keeps a null key. -/
theorem shrinking_removal_crashes :
    ∃ m h s, Hashmap.newHashmap 8192 (Heap.empty fun _ => true) = .ok (m, h) ∧
      Runs.run (Traced.step byteKeys id) ⟨⟨m, h⟩, ∅⟩ [.put [97] 1, .put [98] 2] = some s ∧
      s.state.exec byteKeys (.remove [97]) = .error .nullPointer :=
  ⟨_, _, _, rfl, rfl, by rfl⟩

end Sample

end NtSocks.Ntkv
