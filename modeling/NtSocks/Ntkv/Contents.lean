import NtSocks.Ntkv.Ownership

/-!
# What the map of the server holds

A map of addresses holds, under a string, the address of a value. It is what `GET` returns, it does
not change when blocks are allocated, and after `PUT` it is the address that was put. The contents
of the map are the values at these addresses, which have lengths that only their senders know.
-/

namespace NtSocks.Ntkv

open BlockHeap Faults Function

def lookup (m : Hashmap Ptr Ptr) (h : Heap) (str : List UInt8) : Option Ptr :=
  (m.entries.find? fun e => h.cstring e.1 == some str).map Prod.snd

section Lookup

variable {m m' : Hashmap Ptr Ptr} {h h' : Heap} {key value : Ptr} {str : List UInt8}

theorem find_eq (hkey : h.cstring key = some str) (es : List (Ptr × Ptr)) :
    KeyedList.find (serverKeys h).equal es key = es.find? fun e => h.cstring e.1 == some str := by
  rw [KeyedList.find]
  refine List.find?_congr fun e _ => ?_
  rw [Keys.equal, ← hkey]
  rfl

theorem Owns.defaultGet_eq (hown : Owns m h) (hkey : h.cstring key = some str) :
    m.defaultGet (serverKeys h) key = .ok (lookup m h str) := by
  have hread : ((serverKeys h).text key).isSome := by
    change (h.cstring key).isSome = true
    rw [hkey]
    rfl
  have hmeets : Meets (fun _ => True) _ (m.defaultGet (serverKeys h) key) :=
    hown.placed.defaultGet_meets fun _ => hread
  obtain ⟨r, hget, rfl⟩ := exists_of_meets hmeets
  rw [hget, find_eq hkey]
  rfl

theorem mem_of_lookup (hlookup : lookup m h str = some value) :
    ∃ key, (key, value) ∈ m.entries ∧ h.cstring key = some str := by
  obtain ⟨⟨key, v⟩, hfind, rfl⟩ := Option.map_eq_some_iff.mp hlookup
  have hstr := List.find?_some hfind
  exact ⟨key, List.mem_of_find?_eq_some hfind, by simpa using hstr⟩

theorem Owned.hasData_of_lookup (hown : Owned m.entries h) (hlookup : lookup m h str = some value) :
    h.HasData value.block := by
  obtain ⟨key, hmem, -⟩ := mem_of_lookup hlookup
  exact (hown.live _ hmem).2

theorem Owned.lookup_extends (hown : Owned m.entries h) (hext : h.Extends h') (str : List UInt8) :
    lookup m h' str = lookup m h str := by
  refine congrArg (Option.map Prod.snd) (List.find?_congr fun e he => ?_)
  rw [hext.cstring (hown.live e he).1.2]

theorem lookup_of_mem (hp : m.Placed (serverKeys h)) (hmem : (key, value) ∈ m.entries)
    (hkey : h.cstring key = some str) : lookup m h str = some value := by
  have hfind := hp.distinct_entries.find_of_mem (serverKeys h).keyEquiv hmem
    ((serverKeys h).keyEquiv.refl key)
  rw [find_eq hkey] at hfind
  rw [lookup, hfind]
  rfl

theorem lookup_eq_some_iff (hp : m.Placed (serverKeys h)) :
    lookup m h str = some value ↔ ∃ key, (key, value) ∈ m.entries ∧ h.cstring key = some str := by
  refine ⟨mem_of_lookup, ?_⟩
  rintro ⟨key, hmem, hkey⟩
  exact lookup_of_mem hp hmem hkey

theorem lookup_eq_none_iff (hkey : h.cstring key = some str) :
    lookup m h str = none ↔ ∀ e ∈ m.entries, (serverKeys h).equal e.1 key = false := by
  rw [← KeyedList.find_eq_none_iff, find_eq hkey, lookup, Option.map_eq_none_iff]

theorem lookup_stored {status : MapStatus} (hp' : m'.Placed (serverKeys h))
    (hstored : Hashmap.Stored (serverKeys h) key value m.entries status m'.entries)
    (hkey : h.cstring key = some str) : lookup m' h str = some value := by
  cases hstored with
  | added _ hperm => exact lookup_of_mem hp' (hperm.symm.subset List.mem_cons_self) hkey
  | replaced k v rest hk _ hperm =>
    refine lookup_of_mem hp' (hperm.symm.subset List.mem_cons_self) ?_
    exact ((Keys.equal_iff _).mp hk).trans hkey

theorem lookup_stored_of_ne {status : MapStatus} (hp : m.Placed (serverKeys h))
    (hp' : m'.Placed (serverKeys h))
    (hstored : Hashmap.Stored (serverKeys h) key value m.entries status m'.entries)
    (hkey : h.cstring key = some str) {str' : List UInt8} (hne : str' ≠ str) :
    lookup m' h str' = lookup m h str' := by
  refine Option.ext fun v => ?_
  rw [lookup_eq_some_iff hp', lookup_eq_some_iff hp]
  refine exists_congr fun k => and_congr_left fun hk => ?_
  have hk' : h.cstring k ≠ some str := by
    rw [hk]
    exact fun h => hne (Option.some.inj h)
  cases hstored with
  | added _ hperm =>
    rw [hperm.mem_iff, List.mem_cons, or_iff_right]
    rintro ⟨⟩
    exact hk' hkey
  | replaced k₀ v₀ rest hk₀ hold hperm =>
    have hk₀' : h.cstring k₀ = some str := ((Keys.equal_iff _).mp hk₀).trans hkey
    rw [hperm.mem_iff, hold.mem_iff, List.mem_cons, List.mem_cons, or_iff_right, or_iff_right]
    · rintro ⟨⟩
      exact hk' hk₀'
    · rintro ⟨⟩
      exact hk' hk₀'

end Lookup

namespace Server

/-- What the map holds: under each string either nothing, or the address of a value. -/
def Stores (m : Hashmap Ptr Ptr) (h : Heap) (f : List UInt8 → Option (List UInt8)) : Prop :=
  ∀ str, (f str = none ∧ lookup m h str = none) ∨
    ∃ value p, f str = some value ∧ lookup m h str = some p ∧ value.length < 2 ^ 16 ∧
      h.read p value.length = some value

variable {m m' : Hashmap Ptr Ptr} {h h' : Heap} {f : List UInt8 → Option (List UInt8)} {s : Server}
  {bad : Fault → Prop}

theorem Stores.extends (hown : Owned m.entries h) (hext : h.Extends h') (hstores : Stores m h f) :
    Stores m h' f := by
  intro str
  rw [hown.lookup_extends hext]
  rcases hstores str with hnone | ⟨value, p, hf, hlookup, hlt, hread⟩
  · exact Or.inl hnone
  · refine Or.inr ⟨value, p, hf, hlookup, hlt, ?_⟩
    rw [hext.read (hown.hasData_of_lookup hlookup).2, hread]

theorem Stores.stored {key value : Ptr} {status : MapStatus} {str bytes : List UInt8}
    (hstores : Stores m h f) (hp : m.Placed (serverKeys h)) (hp' : m'.Placed (serverKeys h))
    (hstored : Hashmap.Stored (serverKeys h) key value m.entries status m'.entries)
    (hkey : h.cstring key = some str) (hlen : bytes.length < 2 ^ 16)
    (hread : h.read value bytes.length = some bytes) : Stores m' h (update f str (some bytes)) := by
  intro str'
  by_cases hstr : str' = str
  · subst hstr
    rw [update_self, lookup_stored hp' hstored hkey]
    exact Or.inr ⟨bytes, value, rfl, rfl, hlen, hread⟩
  · rw [update_of_ne hstr, lookup_stored_of_ne hp hp' hstored hkey hstr]
    exact hstores str'

structure Queued (q : BatchData Ptr) (nodes : List (BatchNode Ptr)) : Prop where
  counted : q.Counted
  items : q.items = nodes
  max : q.maxQueueSize = batchQueueSize
  small : ∀ node ∈ nodes, node.size < 2 ^ 18

structure Ready (s : Server) (f : List UInt8 → Option (List UInt8)) : Prop where
  owns : Owns s.map s.heap
  served : s.heap.Served
  queue : Queued s.queue []
  stores : Stores s.map s.heap f

/-- Storing a new string would double the table beyond what its rebuilding can count. -/
def GrowsPast (s : Server) (str : List UInt8) : Prop :=
  lookup s.map s.heap str = none ∧ s.map.tableSize ≤ s.map.size + 1 ∧ 2 ^ 31 ≤ s.map.size + 1

structure PutDone (s : Server) (key value str : List UInt8) (r : Server × List UInt8) : Prop where
  reply : ∃ status : MapStatus, r.2 = encodeReply status.code 0 0
  owns : Owns r.1.map r.1.heap
  sound : r.1.map.Sound
  ext : (s.heap.extend (some (key ++ value))).Extends r.1.heap
  queue : r.1.queue = s.queue
  fits : ¬ s.GrowsPast str
  lookup : lookup r.1.map r.1.heap str = some ⟨s.heap.next, key.length⟩
  tail : r.1.heap.tail ⟨s.heap.next, 0⟩ = some (key ++ value)
  stores : ∀ f, Stores s.map s.heap f → value.length < 2 ^ 16 →
    Stores r.1.map r.1.heap (update f str (some value))

theorem cmdPut_done {str rest value : List UInt8} (hown : Owns s.map s.heap)
    (hserved : s.heap.Served) (hsound : s.map.Sound) (hnot : 0 ∉ str)
    (hfits : bad .badWrite → ¬ s.GrowsPast str) :
    Meets bad (s.PutDone (str ++ 0 :: rest) value str)
      (s.cmdPut (str ++ 0 :: rest).length (str ++ 0 :: rest ++ value)) := by
  obtain ⟨data, hdata⟩ : ∃ data, str ++ 0 :: rest ++ value = data := ⟨_, rfl⟩
  obtain ⟨h, hh⟩ : ∃ h, s.heap.extend (some data) = h := ⟨_, rfl⟩
  have hne : data.length ≠ 0 := by
    rw [← hdata]
    simp
  have hext : s.heap.Extends h := hh ▸ Heap.extends_extend _
  have hown' : Owns s.map h := hh ▸ hown.extend _
  have hlive : h.HasData s.heap.next := hh ▸ s.heap.hasData_extend data
  have htail : h.tail ⟨s.heap.next, 0⟩ = some data := hh ▸ s.heap.tail_extend data
  have hkey : h.cstring ⟨s.heap.next, 0⟩ = some str := by
    have htail' := htail
    rw [← hdata, List.append_assoc, List.cons_append] at htail'
    exact Heap.cstring_of_tail hnot htail'
  have hvalue : h.read ⟨s.heap.next, (str ++ 0 :: rest).length⟩ value.length = some value := by
    have hall : h.read ⟨s.heap.next, 0⟩ (str ++ 0 :: rest ++ value).length =
        some (str ++ 0 :: rest ++ value) :=
      Heap.read_eq_some_iff.mpr ⟨[], by rw [htail, hdata, List.append_nil]⟩
    have hsecond := (Heap.read_append_iff.mp hall).2
    rwa [Nat.zero_add] at hsecond
  have hgrows : s.map.Grows (serverKeys h) ⟨s.heap.next, 0⟩ ↔
      lookup s.map s.heap str = none ∧ s.map.tableSize ≤ s.map.size + 1 := by
    rw [Hashmap.Grows, ← lookup_eq_none_iff hkey, hown.owned.lookup_extends hext]
  have hput : Meets bad (s.map.PutResult (serverKeys h) h ⟨s.heap.next, 0⟩
      ⟨s.heap.next, (str ++ 0 :: rest).length⟩ []) (s.map.defaultPut (serverKeys h) h
        ⟨s.heap.next, 0⟩ ⟨s.heap.next, (str ++ 0 :: rest).length⟩) := by
    refine hown'.placed.defaultPut_meets hown'.holds (fun _ => ?_)
      (fun _ => ⟨hext.served hserved, hsound⟩) (fun hbad => ⟨hsound, fun hg => ?_⟩) _
    · change (h.cstring _).isSome = true
      rw [hkey]
      rfl
    · by_contra hlt
      have hg' := hgrows.mp hg
      exact hfits hbad ⟨hg'.1, hg'.2, by omega⟩
  rw [hdata, cmdPut, Heap.request_eq, if_pos ⟨hne, hserved _⟩, hh]
  change Meets bad _ ((s.map.defaultPut _ _ _ _).bind _)
  refine hput.bind ?_
  rintro ⟨m', h', status⟩ hres
  obtain ⟨hsound', hstored⟩ := hres.sound hsound
  have howned : Owned m'.entries h := by
    refine hown'.owned.stored hstored rfl hlive (fun e he _ => (hown.ne_next he).1) ?_
    exact fun _ e he => hown.ne_next he
  refine ⟨⟨status, rfl⟩, ⟨?_, hres.holds, howned.mono fun _ => hres.ext.hasData⟩, hsound', ?_, rfl,
    ?_, ?_, ?_, ?_⟩
  · exact hres.placed.congr rfl fun e he => hres.ext.cstring (howned.live e he).1.2
  · rw [hdata, hh]
    exact hres.ext
  · rintro ⟨hnone, htable, hsize⟩
    have := hres.grown hsound (hgrows.mpr ⟨hnone, htable⟩)
    omega
  · dsimp only
    rw [howned.lookup_extends hres.ext]
    exact lookup_stored hres.placed hstored hkey
  · dsimp only
    rw [hres.ext.tail hlive.2, htail, hdata]
  · intro f hstores hlen
    refine Stores.extends howned hres.ext ?_
    exact (hstores.extends hown.owned hext).stored hown'.placed hres.placed hstored hkey hlen hvalue

theorem PutDone.ready {key value str : List UInt8} {r : Server × List UInt8}
    (hput : s.PutDone key value str r) (hs : s.Ready f) (hlen : value.length < 2 ^ 16) :
    r.1.Ready (update f str (some value)) where
  owns := hput.owns
  served := hput.ext.served ((Heap.extends_extend _).served hs.served)
  queue := hput.queue ▸ hs.queue
  stores := hput.stores f hs.stores hlen

theorem ready_init {supply : ℕ → Bool} {junk : UInt8} (hsupply : ∀ n, supply n = true)
    (hinit : init supply junk = .ok s) : s.Ready (fun _ => none) ∧ s.map.Sound := by
  have hown := ((init_meets supply junk).of_ok hinit).1
  obtain ⟨⟨m, h⟩, hmap, hrest⟩ := bind_eq_ok.mp hinit
  have hnone : (Heap.empty supply).Holds [] := ⟨List.nodup_nil, nofun, nofun⟩
  have hmeets : Meets (fun _ => False) _
      (Hashmap.newHashmap 0 (Heap.empty supply) : Except Fault (Hashmap Ptr Ptr × Heap)) :=
    Hashmap.newHashmap_meets (serverKeys (Heap.empty supply)) 0 hnone nofun
  obtain ⟨-, -, hext, hentries, hsize, htable⟩ := hmeets.of_ok hmap
  obtain ⟨⟨b, h'⟩, hrequest, hs⟩ := bind_eq_ok.mp hrest
  have hheap : h' = h.extend none := by
    rw [Heap.request_eq] at hrequest
    split_ifs at hrequest
    cases hrequest
    rfl
  cases hs
  refine ⟨⟨hown, ?_, ⟨BatchData.init_counted _, rfl, rfl, nofun⟩, fun str => Or.inl ⟨rfl, ?_⟩⟩, ?_⟩
  · intro n
    rw [hheap]
    change h.supply n = true
    rw [hext.supply]
    exact hsupply n
  · rw [lookup, hentries]
    rfl
  · refine ⟨?_, ?_, ?_⟩
    · rw [hsize, hentries]
      rfl
    · rw [hsize, htable]
      decide
    · rw [htable]
      decide

end Server

end NtSocks.Ntkv
