import NtSocks.Ntkv.HashmapRefinement

/-!
# What is left of a map after FREE

Whatever a run of operations has returned, the map is in order: its keys are where their hash codes
say, and its size is their number. `default_free` frees the chains and sets the size to zero, but it
leaves the first key of every entry of the table where it is. The map then finds, replaces and
removes these keys as before, and behaves as a new one only if it had no key.
-/

namespace NtSocks.Ntkv

open BlockHeap Faults

variable {K V : Type}

def Hashmap.emptied (m : Hashmap K V) : Hashmap K V :=
  { m with size := 0, bucket := fun i => (m.bucket i).cut }

namespace MapState

def step (keys : Keys K) (s : MapState K V) (op : MapOp K V) : Option (MapState K V) :=
  (s.exec keys op).toOption.map Prod.fst

def free (s : MapState K V) : Except Fault (MapState K V) :=
  (s.map.defaultFree s.heap).map fun r => ⟨r.1, r.2⟩

structure InOrder (keys : Keys K) (s : MapState K V) : Prop where
  placed : s.map.Placed keys
  holds : s.heap.Holds (s.map.blocks ++ [])
  sound : s.map.Sound

variable {keys : Keys K} {s s' : MapState K V} {supply : ℕ → Bool} {tableSize : ℕ}
  {m : Hashmap K V} {h : Heap}

theorem inOrder_new (htable : tableSize < 2 ^ 32)
    (hnew : Hashmap.newHashmap tableSize (Heap.empty supply) = .ok (m, h)) :
    InOrder keys ⟨m, h⟩ ∧ (Heap.empty supply).Extends h := by
  have hempty : (Heap.empty supply).Holds [] := ⟨List.nodup_nil, nofun, nofun⟩
  have hmeets : Meets (fun _ => False) _
      (Hashmap.newHashmap tableSize (Heap.empty supply) : Except Fault (Hashmap K V × Heap)) :=
    Hashmap.newHashmap_meets keys tableSize hempty nofun
  obtain ⟨hp, hown, hext, hentries, hsize, htableSize⟩ := hmeets.of_ok hnew
  dsimp only at hp hown hext hentries hsize htableSize
  have hpos := hp.table_pos
  refine ⟨⟨hp, hown, ?_, ?_, ?_⟩, hext⟩
  · rw [hsize, hentries]
    rfl
  · dsimp only
    omega
  · dsimp only
    rw [htableSize]
    split
    · decide
    · exact htable

theorem InOrder.step {op : MapOp K V} (hs : s.InOrder keys) (hstep : s.step keys op = some s') :
    s'.InOrder keys ∧ s.heap.Extends s'.heap := by
  obtain ⟨⟨_, result⟩, hexec, rfl⟩ := Option.map_eq_some_iff.mp hstep
  have hok := toOption_eq_some.mp hexec
  cases op with
  | put key value =>
    obtain ⟨r, hput, heq⟩ := map_eq_ok.mp hok
    have hmeets : Meets (fun _ => False) _ (s.map.defaultPut keys s.heap key value) :=
      hs.placed.defaultPut_meets hs.holds nofun nofun nofun value
    have hres := hmeets.of_ok hput
    cases heq
    exact ⟨⟨hres.placed, hres.holds, (hres.sound hs.sound).1⟩, hres.ext⟩
  | get key =>
    obtain ⟨v, -, heq⟩ := map_eq_ok.mp hok
    cases heq
    exact ⟨hs, .refl _⟩
  | remove key =>
    obtain ⟨r, hremove, heq⟩ := map_eq_ok.mp hok
    have hmeets : Meets (fun _ => False) _ (s.map.defaultRemove keys s.heap key) :=
      hs.placed.defaultRemove_meets hs.holds nofun nofun nofun nofun
    have hres := hmeets.of_ok hremove
    cases heq
    exact ⟨⟨hres.placed, hres.holds, (hres.sound hs.sound).1⟩, hres.ext⟩
  | len =>
    cases hok
    exact ⟨hs, .refl _⟩

theorem inOrder_of_run (htable : tableSize < 2 ^ 32)
    (hnew : Hashmap.newHashmap tableSize (Heap.empty supply) = .ok (m, h)) {ops : List (MapOp K V)}
    (hrun : Runs.run (step keys) ⟨m, h⟩ ops = some s) :
    s.InOrder keys ∧ (Heap.empty supply).Extends s.heap := by
  refine Runs.invariant (I := fun s : MapState K V =>
    s.InOrder keys ∧ (Heap.empty supply).Extends s.heap) ?_ (inOrder_new htable hnew) hrun
  rintro s op s' ⟨hs, hext⟩ hstep
  obtain ⟨hs', hext'⟩ := hs.step hstep
  exact ⟨hs', hext.trans hext'⟩

theorem InOrder.free (hs : s.InOrder keys) :
    ∃ s', s.free = .ok s' ∧ s'.map.Placed keys ∧ s'.heap.Holds (s'.map.blocks ++ []) ∧
      s.heap.Extends s'.heap ∧ s'.map.entries.Sublist s.map.entries ∧
      s'.map = s.map.emptied := by
  have hmeets : Meets (fun _ => True) _ (s.map.defaultFree s.heap) :=
    hs.placed.defaultFree_meets hs.holds
  obtain ⟨⟨m', h'⟩, hfree, hp, hown, hext, hsub⟩ := exists_of_meets hmeets
  refine ⟨⟨m', h'⟩, ?_, hp, hown, hext, hsub, ?_⟩
  · rw [MapState.free, hfree]
    rfl
  · obtain ⟨h₁, -, heq⟩ := bind_eq_ok.mp hfree
    cases heq
    rfl

theorem exists_mem_cut {e : K × V} (he : e ∈ s.map.entries) (hmap : s'.map = s.map.emptied) :
    ∃ d, d ∈ s'.map.entries := by
  obtain ⟨i, hi, hmem⟩ := Hashmap.mem_entries.mp he
  rw [hmap]
  cases hbucket : s.map.bucket i with
  | unused =>
    rw [hbucket] at hmem
    cases hmem
  | used key value next =>
    refine ⟨(key, value), Hashmap.mem_entries.mpr ⟨i, hi, ?_⟩⟩
    change (key, value) ∈ (s.map.bucket i).cut.cells
    rw [hbucket]
    exact List.mem_cons_self

/-- What the operations return on a new map; a key that is put counts. -/
structure BehavesFresh (keys : Keys K) (s : MapState K V) : Prop where
  len : s.exec keys .len = .ok (s, .length 0)
  get : ∀ key, s.exec keys (.get key) = .ok (s, .value none)
  remove : ∀ key, ∃ s', s.exec keys (.remove key) = .ok (s', .status .missing)
  put : ∀ key value, ∃ s', s.exec keys (.put key value) = .ok (s', .status .ok) ∧
    s'.exec keys .len = .ok (s', .length 1)

section Strings

variable {hashcode : ℕ → List UInt8 → ℕ}
  {hashcode_lt : ∀ tableSize s, 0 < tableSize → hashcode tableSize s < tableSize}
  {str : K → List UInt8}

theorem Valid.behavesFresh (hv : s.Valid (.ofStrings hashcode hashcode_lt str))
    (hentries : s.map.entries = []) : s.BehavesFresh (.ofStrings hashcode hashcode_lt str) := by
  have hshow : Shows str s.map.entries (∅ : StringMap V) := by
    rw [Shows, hentries]
    rfl
  have hsize : s.map.size = 0 := by
    rw [hv.sound.size_eq, hentries]
    rfl
  have hsmall : s.map.size + 1 < 2 ^ 31 := by
    rw [hsize]
    decide
  refine ⟨?_, fun key => ?_, fun key => ?_, fun key value => ?_⟩
  · rw [MapState.exec, Hashmap.defaultLen, hsize]
    rfl
  · have hmeets : Meets (fun _ => True) _ (s.map.defaultGet _ key) :=
      hv.placed.defaultGet_meets fun _ => rfl
    obtain ⟨v, hget, rfl⟩ := exists_of_meets hmeets
    rw [MapState.exec, hget, hentries]
    rfl
  · have hdrop : ∀ m₁, s.map.dropKey (.ofStrings hashcode hashcode_lt str) key ≠ some m₁ := by
      intro m₁ hdrop
      obtain ⟨i, hfind, -⟩ := Option.map_eq_some_iff.mp hdrop
      obtain ⟨e, he⟩ := KeyedList.exists_find hfind
      rw [← hv.placed.find_entries, hentries] at he
      cases he
    have hharm : Harmless (.ofStrings hashcode hashcode_lt str) s.map (.remove key) :=
      fun m₁ hm₁ => absurd hm₁ (hdrop m₁)
    obtain ⟨s', hexec, -⟩ := hv.exec hshow hharm
    refine ⟨s', hexec.trans ?_⟩
    rw [MapOp.spec, if_neg (Finmap.notMem_empty)]
  · have hharm : Harmless (.ofStrings hashcode hashcode_lt str) s.map (.put key value) :=
      fun _ => hsmall
    obtain ⟨s', hexec, hv', hshow'⟩ := hv.exec hshow hharm
    have hcard : s'.map.entries.length = 1 := by
      rw [← hshow'.card_keys]
      rfl
    refine ⟨s', hexec.trans ?_, ?_⟩
    · rw [MapOp.spec, if_neg (Finmap.notMem_empty)]
    · rw [MapState.exec, Hashmap.defaultLen, hv'.sound.size_eq, hcard]
      rfl

/-- After every run of operations on a new map, `FREE` makes the map behave as a new one if and only
if it has no key. -/
theorem free_behavesFresh_iff (hashcode : ℕ → List UInt8 → ℕ)
    (hashcode_lt : ∀ tableSize s, 0 < tableSize → hashcode tableSize s < tableSize)
    (str : K → List UInt8) (htable : tableSize < 2 ^ 32)
    (hnew : Hashmap.newHashmap tableSize (Heap.empty fun _ => true) = .ok (m, h))
    {ops : List (MapOp K V)}
    (hrun : Runs.run (step (.ofStrings hashcode hashcode_lt str)) ⟨m, h⟩ ops = some s) :
    ∃ s', s.free = .ok s' ∧
      (s'.BehavesFresh (.ofStrings hashcode hashcode_lt str) ↔ s.map.size = 0) := by
  obtain ⟨hs, hext⟩ := inOrder_of_run htable hnew hrun
  obtain ⟨s', hfree, hp, hown, hext', hsub, hmap⟩ := hs.free
  refine ⟨s', hfree, fun hfresh => ?_, fun hsize => ?_⟩
  · by_contra hne
    rw [hs.sound.size_eq] at hne
    obtain ⟨e, he⟩ := List.exists_mem_of_length_pos (Nat.pos_of_ne_zero hne)
    obtain ⟨d, hd⟩ := exists_mem_cut he hmap
    have hmeets : Meets (fun _ => True) _ (s'.map.defaultGet _ d.1) :=
      hp.defaultGet_meets fun _ => rfl
    obtain ⟨v, hget, rfl⟩ := exists_of_meets hmeets
    have hnone := hfresh.get d.1
    rw [exec, hget] at hnone
    have hfind : KeyedList.find (Keys.ofStrings hashcode hashcode_lt str).equal s'.map.entries d.1 =
        none := by
      simpa [Except.map] using hnone
    have hself := KeyedList.find_eq_none_iff.mp hfind d hd
    rw [(Keys.keyEquiv _).refl] at hself
    cases hself
  · have hnil : s.map.entries = [] := List.length_eq_zero_iff.mp (hs.sound.size_eq ▸ hsize)
    have hnil' : s'.map.entries = [] := List.sublist_nil.mp (hnil ▸ hsub)
    have hserved : s'.heap.Served := (hext.trans hext').served fun _ => rfl
    refine Valid.behavesFresh ⟨hp, hown, hserved, ?_, ?_, ?_⟩ hnil'
    · rw [hnil', hmap]
      rfl
    · rw [hmap]
      exact hs.placed.table_pos
    · rw [hmap]
      exact hs.sound.table_lt

end Strings

theorem free_after_remove_fresh : ∃ (m : Hashmap (List UInt8) Bool) (h : Heap)
    (s s' : MapState (List UInt8) Bool),
    Hashmap.newHashmap 4 (Heap.empty fun _ => true) = .ok (m, h) ∧
    Runs.run (step byteKeys) ⟨m, h⟩ [.put [97] true, .remove [97]] = some s ∧ s.map.size = 0 ∧
    s.free = .ok s' ∧ s'.BehavesFresh byteKeys := by
  obtain ⟨m, h, s, hnew, hrun, hsize⟩ : ∃ (m : Hashmap (List UInt8) Bool) (h : Heap)
      (s : MapState (List UInt8) Bool),
      Hashmap.newHashmap 4 (Heap.empty fun _ => true) = .ok (m, h) ∧
      Runs.run (step byteKeys) ⟨m, h⟩ [.put [97] true, .remove [97]] = some s ∧ s.map.size = 0 :=
    ⟨_, _, _, rfl, rfl, rfl⟩
  obtain ⟨s', hfree, hiff⟩ :=
    free_behavesFresh_iff defaultHashcode defaultHashcode_lt id (by decide) hnew hrun
  exact ⟨m, h, s, s', hnew, hrun, hsize, hfree, hiff.mpr hsize⟩

/-- A key that is there at `FREE` is found afterwards, and a put of it replaces its value. -/
theorem free_keeps_first_key : ∃ (m : Hashmap (List UInt8) Bool) (h : Heap)
    (s s' t : MapState (List UInt8) Bool),
    Hashmap.newHashmap 4 (Heap.empty fun _ => true) = .ok (m, h) ∧
    Runs.run (step byteKeys) ⟨m, h⟩ [.put [97] true] = some s ∧ s.free = .ok s' ∧
    s'.exec byteKeys (.get [97]) = .ok (s', .value (some true)) ∧
    s'.exec byteKeys (.put [97] false) = .ok (t, .status .replace) ∧ t.map.size = 0 :=
  ⟨_, _, _, _, _, rfl, rfl, rfl, rfl, rfl, rfl⟩

end MapState

end NtSocks.Ntkv
