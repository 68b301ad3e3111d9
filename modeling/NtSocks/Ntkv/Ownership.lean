import NtSocks.Lib.Runs
import NtSocks.Ntkv.HashmapSteps
import NtSocks.Ntkv.ServerApi

/-!
# What the server frees

The blocks of the table and of its chains are held by the map. The other blocks that matter are the
ones with the bytes of a command: a key that a put has stored is the start of such a block, and no
other key or value lies in the same block; a removal frees it. A key that a batch has stored lies
inside the block of the batch. Along every sequence of commands nothing is freed but starts of live
blocks, and nothing is stored that points into a freed block, exactly if no removal returns a key of
a batch and no removal of the last key shrinks the table.
-/

namespace NtSocks.Ntkv

open BlockHeap Faults

/-- Freeing the block of the first key does not concern the second pair. -/
def Apart (e e' : Ptr × Ptr) : Prop :=
  e.1.offset = 0 → e'.1.block ≠ e.1.block ∧ e'.2.block ≠ e.1.block

/-- The stored keys and values point into live blocks, and the keys of puts have theirs alone. -/
structure Owned (es : List (Ptr × Ptr)) (h : Heap) : Prop where
  live : ∀ e ∈ es, h.HasData e.1.block ∧ h.HasData e.2.block
  apart : es.Pairwise fun e e' => Apart e e' ∧ Apart e' e

namespace Owned

variable {es es' : List (Ptr × Ptr)} {h h' : Heap} {b : ℕ} {key value : Ptr}

theorem perm (hown : Owned es h) (hperm : es'.Perm es) : Owned es' h where
  live := fun e he => hown.live e (hperm.subset he)
  apart := (hperm.symm.pairwise_iff fun hab => ⟨hab.2, hab.1⟩).mp hown.apart

theorem subperm (hown : Owned es h) (hsub : es'.Subperm es) : Owned es' h := by
  obtain ⟨l, hperm, hsub⟩ := hsub
  have hl : Owned l h := ⟨fun e he => hown.live e (hsub.subset he), hown.apart.sublist hsub⟩
  exact hl.perm hperm.symm

theorem mono (hown : Owned es h) (hlive : ∀ c, h.HasData c → h'.HasData c) : Owned es h' where
  live := fun e he => ⟨hlive _ (hown.live e he).1, hlive _ (hown.live e he).2⟩
  apart := hown.apart

theorem stored {keys : Keys Ptr} {status : MapStatus} (hown : Owned es h)
    (hstored : Hashmap.Stored keys key value es status es') (hblock : value.block = key.block)
    (hdata : h.HasData key.block) (hother : ∀ e ∈ es, e.1.offset = 0 → e.1.block ≠ key.block)
    (hnew : key.offset = 0 → ∀ e ∈ es, e.1.block ≠ key.block ∧ e.2.block ≠ key.block) :
    Owned es' h := by
  cases hstored with
  | added _ hperm =>
    refine Owned.perm ⟨?_, ?_⟩ hperm
    · rintro e (_ | ⟨_, he⟩)
      · exact ⟨hdata, hblock ▸ hdata⟩
      · exact hown.live e he
    · refine List.pairwise_cons.mpr ⟨fun e he => ⟨?_, ?_⟩, hown.apart⟩
      · exact fun hzero => hnew hzero e he
      · intro hzero
        have hne := (hother e he hzero).symm
        exact ⟨hne, hblock ▸ hne⟩
  | replaced k v rest _ hold hperm =>
    have hown' := hown.perm hold.symm
    obtain ⟨hhead, hrest⟩ := List.pairwise_cons.mp hown'.apart
    refine Owned.perm ⟨?_, ?_⟩ hperm
    · rintro e (_ | ⟨_, he⟩)
      · exact ⟨(hown'.live (k, v) List.mem_cons_self).1, hblock ▸ hdata⟩
      · exact hown'.live e (List.mem_cons_of_mem _ he)
    · refine List.pairwise_cons.mpr ⟨fun e he => ⟨(hhead e he).1, fun hzero => ?_⟩, hrest⟩
      refine ⟨((hhead e he).2 hzero).1, ?_⟩
      have hmem : e ∈ es := hold.symm.subset (List.mem_cons_of_mem _ he)
      exact hblock ▸ (hother e hmem hzero).symm

end Owned

structure Owns (m : Hashmap Ptr Ptr) (h : Heap) : Prop where
  placed : m.Placed (serverKeys h)
  holds : h.Holds (m.blocks ++ [])
  owned : Owned m.entries h

namespace Owns

variable {m : Hashmap Ptr Ptr} {h h' : Heap} {b : ℕ}

variable (hown : Owns m h)
include hown

theorem mono (hext : h.Extends h') (hholds : h'.Holds (m.blocks ++ [])) : Owns m h' where
  placed := hown.placed.congr rfl fun e he => hext.cstring (hown.owned.live e he).1.2
  holds := hholds
  owned := hown.owned.mono fun _ => hext.hasData

theorem extend (contents : Option (List UInt8)) : Owns m (h.extend contents) :=
  hown.mono (Heap.extends_extend contents) (hown.holds.extend contents)

theorem notMem_blocks (hb : h.HasData b) : b ∉ m.blocks ++ [] := by
  intro hmem
  have hbare := hown.holds.bare b hmem
  have hsome := hb.2
  rw [hbare] at hsome
  cases hsome

theorem release (hb : h.HasData b)
    (hfree : ∀ e ∈ m.entries, e.1.block ≠ b ∧ e.2.block ≠ b) : Owns m (h.release b) where
  placed := hown.placed.congr rfl fun e he => Heap.cstring_release (hfree e he).1
  holds := hown.holds.release_of_notMem (hown.notMem_blocks hb)
  owned := ⟨fun e he => ⟨(hown.owned.live e he).1.release (hfree e he).1,
    (hown.owned.live e he).2.release (hfree e he).2⟩, hown.owned.apart⟩

theorem ne_next {e : Ptr × Ptr} (he : e ∈ m.entries) : e.1.block ≠ h.next ∧ e.2.block ≠ h.next :=
  ⟨(hown.owned.live e he).1.lt_next.ne, (hown.owned.live e he).2.lt_next.ne⟩

theorem defaultPut_meets (hdata : h.HasData b) (key value : ℕ)
    (hother : ∀ e ∈ m.entries, e.1.offset = 0 → e.1.block ≠ b)
    (hnew : key = 0 → ∀ e ∈ m.entries, e.1.block ≠ b ∧ e.2.block ≠ b) :
    Meets (· = .badFree) (fun r => Owns r.1 r.2.1 ∧ h.Extends r.2.1 ∧
        ∀ e ∈ r.1.entries, e.1 = ⟨b, key⟩ ∨ ∃ e' ∈ m.entries, e'.1 = e.1)
      (m.defaultPut (serverKeys h) h ⟨b, key⟩ ⟨b, value⟩) := by
  refine (hown.placed.defaultPut_meets hown.holds nofun nofun nofun _).mono ?_
  rintro ⟨m', h', status⟩ hres
  obtain ⟨es, hstored, hsub⟩ := hres.stored
  have howned : Owned m'.entries h :=
    (hown.owned.stored hstored rfl hdata hother hnew).subperm hsub
  refine ⟨⟨?_, hres.holds, howned.mono fun _ => hres.ext.hasData⟩, hres.ext, fun e he => ?_⟩
  · exact hres.placed.congr rfl fun e he => hres.ext.cstring (howned.live e he).1.2
  · have hmem : e ∈ es := hsub.subset he
    cases hstored with
    | added _ hperm =>
      rcases List.mem_cons.mp (hperm.subset hmem) with rfl | hold
      · exact Or.inl rfl
      · exact Or.inr ⟨e, hold, rfl⟩
    | replaced k v rest _ hold hperm =>
      rcases List.mem_cons.mp (hperm.subset hmem) with rfl | hrest
      · exact Or.inr ⟨(k, v), hold.symm.subset List.mem_cons_self, rfl⟩
      · exact Or.inr ⟨e, hold.symm.subset (List.mem_cons_of_mem _ hrest), rfl⟩

theorem defaultGet_meets (key : Ptr) :
    Meets (· = .badFree) (fun _ => True) (m.defaultGet (serverKeys h) key) :=
  (hown.placed.defaultGet_meets nofun).mono fun _ _ => trivial

theorem release_next (data : List UInt8) :
    (h.extend (some data)).free ⟨h.next, 0⟩ = .ok ((h.extend (some data)).release h.next) ∧
      Owns m ((h.extend (some data)).release h.next) := by
  have hdata := h.hasData_extend data
  exact ⟨Heap.free_start hdata.1, (hown.extend (some data)).release hdata fun e he =>
    hown.ne_next he⟩

theorem free_extend :
    (h.extend none).free ⟨h.next, 0⟩ = .ok ((h.extend none).release h.next) ∧
      Owns m ((h.extend none).release h.next) := by
  obtain ⟨hfree, hholds, hext⟩ := hown.holds.extend_cons.free
  exact ⟨hfree, hown.mono ((Heap.extends_extend none).trans hext) hholds⟩

theorem removed {key : Ptr} {m' : Hashmap Ptr Ptr} {status : MapStatus} {keyAddr : Option Ptr}
    (hres : m.RemoveResult (serverKeys h) h key [] (m', h', status, keyAddr)) :
    Owns m' h' ∧ (∀ e ∈ m'.entries, e ∈ m.entries) ∧
      ∀ k, keyAddr = some k → h'.HasData k.block ∧ (∃ v, (k, v) ∈ m.entries) ∧
        (k.offset = 0 → ∀ e ∈ m'.entries, e.1.block ≠ k.block ∧ e.2.block ≠ k.block) := by
  obtain ⟨es, herased, hsub⟩ := hres.erased
  have hall : ∀ e ∈ es, e ∈ m.entries := by
    intro e he
    cases herased with
    | missing _ hperm => exact hperm.subset he
    | removed k v _ hperm => exact hperm.symm.subset (List.mem_cons_of_mem _ he)
  have hes : Owned es h := by
    cases herased with
    | missing _ hperm => exact hown.owned.perm hperm
    | removed k v _ hperm =>
      exact (hown.owned.perm hperm.symm).subperm (List.sublist_cons_self (k, v) es).subperm
  have howned : Owned m'.entries h := hes.subperm hsub
  refine ⟨⟨?_, hres.holds, howned.mono fun _ => hres.ext.hasData⟩,
    fun e he => hall e (hsub.subset he), ?_⟩
  · exact hres.placed.congr rfl fun e he => hres.ext.cstring (howned.live e he).1.2
  · rintro k rfl
    cases herased with
    | removed _ v _ hperm =>
      have hmem : (k, v) ∈ m.entries := hperm.symm.subset List.mem_cons_self
      obtain ⟨hhead, -⟩ := List.pairwise_cons.mp (hown.owned.perm hperm.symm).apart
      refine ⟨hres.ext.hasData (hown.owned.live _ hmem).1, ⟨v, hmem⟩, fun hzero e he => ?_⟩
      exact (hhead e (hsub.subset he)).1 hzero

end Owns

namespace Server

/-- The map has only keys that it had before, and new ones. -/
structure Keeps (m : Hashmap Ptr Ptr) (N : Ptr → Prop) (s : Server) : Prop where
  owns : Owns s.map s.heap
  keys : ∀ e ∈ s.map.entries, N e.1 ∨ ∃ e' ∈ m.entries, e'.1 = e.1

variable {s s' : Server} {m : Hashmap Ptr Ptr} {N : Ptr → Prop} {cmds : List Command} {c : Command}
  {e : Ptr × Ptr} {r : Hashmap Ptr Ptr × Heap × MapStatus × Option Ptr} {data : List UInt8} {b : ℕ}

theorem Keeps.of_subset (hown : Owns s.map s.heap) (hsub : ∀ e ∈ s.map.entries, e ∈ m.entries) :
    Keeps m N s := ⟨hown, fun e he => Or.inr ⟨e, hsub e he, rfl⟩⟩

theorem Keeps.refl (hown : Owns s.map s.heap) : Keeps s.map N s := .of_subset hown fun _ => id

theorem Keeps.trans (h : Keeps m N s) (h' : Keeps s.map N s') : Keeps m N s' := by
  refine ⟨h'.owns, fun e he => ?_⟩
  rcases h'.keys e he with hnew | ⟨e', he', heq⟩
  · exact Or.inl hnew
  · exact heq ▸ h.keys e' he'

theorem cmdPut_meets (hown : Owns s.map s.heap) (keyLen : ℕ) (data : List UInt8) :
    Meets (· = .badFree) (fun r => Keeps s.map (· = ⟨s.heap.next, 0⟩) r.1)
      (s.cmdPut keyLen data) := by
  rw [cmdPut]
  by_cases hdata : data.length = 0
  · rw [hdata]
    exact nofun
  refine (Heap.request_meets nofun hdata (some data)).bind ?_
  rintro _ rfl
  refine ((hown.extend (some data)).defaultPut_meets (s.heap.hasData_extend data) 0 keyLen
    ?_ ?_).bind ?_
  · exact fun e he _ => (hown.ne_next he).1
  · exact fun _ e he => hown.ne_next he
  · exact fun r hr => ⟨hr.1, hr.2.2⟩

theorem dataHeader_meets (data : List UInt8) (cur : ℕ) :
    Meets (· = .badFree) (fun _ => True) (dataHeader data cur) := by
  rw [dataHeader]
  split
  · trivial
  · exact nofun

theorem batchPutLoop_meets (fuel cur : ℕ) (errNo : UInt8) (hown : Owns s.map s.heap)
    (hb : s.heap.HasData b) (hother : ∀ e ∈ s.map.entries, e.1.offset = 0 → e.1.block ≠ b) :
    Meets (· = .badFree) (fun r => Keeps s.map (·.offset ≠ 0) r.1)
      (batchPutLoop b data fuel cur s errNo) := by
  induction fuel generalizing s cur errNo with
  | zero => exact nofun
  | succ fuel ih =>
    rw [batchPutLoop]
    split
    · refine (dataHeader_meets data cur).bind fun lens _ => ?_
      dsimp only
      refine (hown.defaultPut_meets hb (cur + dataHeaderSize) _ hother ?_).bind ?_
      · intro hzero
        exact absurd hzero (by simp [dataHeaderSize])
      rintro ⟨m', h', status⟩ ⟨hown', hext, hkeys⟩
      dsimp only
      have hkeeps : Keeps s.map (·.offset ≠ 0) { s with map := m', heap := h' } := by
        refine ⟨hown', fun e he => (hkeys e he).imp_left fun hkey => ?_⟩
        simp [hkey, dataHeaderSize]
      split
      · refine (ih (s := { s with map := m', heap := h' }) _ _ hown' (hext.hasData hb)
          fun e he hzero => ?_).mono fun _ => hkeeps.trans
        rcases hkeys e he with hkey | ⟨e', he', heq⟩
        · rw [hkey] at hzero
          exact absurd hzero (by simp [dataHeaderSize])
        · rw [← heq] at hzero ⊢
          exact hother e' he' hzero
      · exact hkeeps
    · exact .refl hown

theorem cmdBatchPut_meets (hown : Owns s.map s.heap) (data : List UInt8) :
    Meets (· = .badFree) (fun r => Keeps s.map (·.offset ≠ 0) r.1) (s.cmdBatchPut data) := by
  rw [cmdBatchPut]
  split
  · exact .refl hown
  · rename_i hne
    refine (Heap.request_meets nofun ?_ (some data)).bind ?_
    · exact fun hlen => hne (List.length_eq_zero_iff.mp hlen)
    rintro _ rfl
    refine (batchPutLoop_meets (s := { s with heap := s.heap.extend (some data) }) _ _ _
      (hown.extend (some data)) (s.heap.hasData_extend data) ?_).bind fun _ => id
    exact fun e he _ => (hown.ne_next he).1

theorem readBytes_meets (h : Heap) (p : Ptr) (n : ℕ) :
    Meets (· = .badFree) (fun _ => True) (readBytes h p n) := by
  rw [readBytes]
  split
  · trivial
  · exact nofun

theorem readItem_meets (h : Heap) (item : BatchNode Ptr) :
    Meets (· = .badFree) (fun _ => True) (readItem h item) := by
  rw [readItem]
  split
  · exact nofun
  · exact readBytes_meets ..

theorem valueLength_meets (h : Heap) (value : Ptr) :
    Meets (· = .badFree) (fun _ => True) (valueLength h value) := by
  rw [valueLength]
  split
  · trivial
  · exact nofun

theorem batchWriteGetReply_meets (hown : Owns s.map s.heap) (errNo : UInt8) :
    Meets (· = .badFree) (fun r => Keeps s.map N r.1) (s.batchWriteGetReply errNo) := by
  rw [batchWriteGetReply]
  split
  · exact .refl hown
  · refine (Heap.request_meets nofun (by simp [batchHeaderSize]) none).bind ?_
    rintro _ rfl
    refine (BatchData.write_meets (readItem_meets _) nofun nofun _ _).bind fun r _ => ?_
    exact .of_subset (hown.extend none) fun _ => id

theorem batchPush_meets (hown : Owns s.map s.heap) (item : BatchNode Ptr) :
    Meets (· = .badFree) (fun r => Keeps s.map N r.1) (s.batchPush item) := by
  rw [batchPush]
  dsimp only
  split
  · exact batchWriteGetReply_meets (s := { s with queue := s.queue.append item }) hown 0
  · exact .of_subset hown fun _ => id

theorem batchGetLoop_meets (fuel cur : ℕ) (errNo : UInt8) (hown : Owns s.map s.heap) :
    Meets (· = .badFree) (fun r => Keeps s.map N r.1) (batchGetLoop b data fuel cur s errNo) := by
  induction fuel generalizing s cur errNo with
  | zero => exact nofun
  | succ fuel ih =>
    rw [batchGetLoop]
    split
    · refine (dataHeader_meets data cur).bind fun lens _ => ?_
      refine (hown.defaultGet_meets _).bind fun found _ => ?_
      cases found with
      | none => exact .refl hown
      | some value =>
        refine (Heap.request_meets nofun (by decide) none).bind ?_
        rintro _ rfl
        refine (valueLength_meets _ value).bind fun valueLen _ => ?_
        have hown' : Owns s.map (s.heap.extend none) := hown.extend none
        refine (batchPush_meets (s := { s with heap := s.heap.extend none }) hown' _
          (N := N)).bind ?_
        rintro ⟨s', out⟩ (hkeeps : Keeps s.map N s')
        exact (ih _ _ hkeeps.owns).bind fun r hr => hkeeps.trans hr
    · exact .refl hown

theorem cmdBatchGet_meets (hown : Owns s.map s.heap) (data : List UInt8) :
    Meets (· = .badFree) (fun r => Keeps s.map N r.1) (s.cmdBatchGet data) := by
  rw [cmdBatchGet]
  split
  · exact batchWriteGetReply_meets hown _
  · rename_i hne
    refine (Heap.request_meets nofun ?_ (some data)).bind ?_
    · exact fun hlen => hne (List.length_eq_zero_iff.mp hlen)
    rintro _ rfl
    have hown' : Owns s.map (s.heap.extend (some data)) := hown.extend (some data)
    refine (batchGetLoop_meets (s := { s with heap := s.heap.extend (some data) }) _ _ _
      hown' (N := N)).bind ?_
    rintro ⟨s', errNo, out⟩ (hkeeps : Keeps s.map N s')
    exact (batchWriteGetReply_meets hkeeps.owns errNo).bind fun r hr => hkeeps.trans hr

theorem cmdGet_meets (hown : Owns s.map s.heap) (data : List UInt8) :
    Meets (· = .badFree) (fun r => Keeps s.map N r.1) (s.cmdGet data) := by
  rw [cmdGet]
  by_cases hdata : data.length = 0
  · rw [hdata]
    exact nofun
  refine (Heap.request_meets nofun hdata (some data)).bind ?_
  rintro _ rfl
  refine ((hown.extend (some data)).defaultGet_meets _).bind fun found _ => ?_
  obtain ⟨hfree, hown₁⟩ := hown.release_next data
  dsimp only
  rw [hfree]
  obtain ⟨hfree', hown₂⟩ := hown₁.free_extend
  cases found with
  | none =>
    refine (Heap.request_meets nofun (by decide) none).bind ?_
    rintro _ rfl
    dsimp only
    rw [hfree']
    exact .of_subset hown₂ fun _ => id
  | some value =>
    refine (valueLength_meets _ value).bind fun valueLen _ => ?_
    refine (Heap.request_meets nofun (by simp [replySize]) none).bind ?_
    rintro _ rfl
    refine (readBytes_meets ..).bind fun bytes _ => ?_
    dsimp only
    rw [hfree']
    exact .of_subset hown₂ fun _ => id

theorem cmdFree_meets (hown : Owns s.map s.heap) :
    Meets (· = .badFree) (fun r => Keeps s.map N r.1) s.cmdFree := by
  refine (hown.placed.defaultFree_meets hown.holds).bind ?_
  rintro ⟨m', h'⟩ ⟨hp, hholds, hext, hsub⟩
  have howned : Owned m'.entries s.heap := hown.owned.subperm hsub.subperm
  refine .of_subset ⟨hp.congr rfl fun e he => hext.cstring (howned.live e he).1.2, hholds, ?_⟩
    fun e he => hsub.subset he
  exact howned.mono fun _ => hext.hasData

def ShrinksEmpty (s : Server) (data : List UInt8) : Prop :=
  ∃ m₁, s.map.dropKey (serverKeys (s.heap.extend (some data))) ⟨s.heap.next, 0⟩ = some m₁ ∧
    m₁.Shrinks ∧ m₁.size = 0

/-- The pair stored under the string that the data begins with. -/
def StoredAt (s : Server) (data : List UInt8) (e : Ptr × Ptr) : Prop :=
  e ∈ s.map.entries ∧ (serverKeys (s.heap.extend (some data))).equal e.1 ⟨s.heap.next, 0⟩ = true

/-- The key of the pair that a removal takes out is the start of a block, and the removal does not
shrink the table of an empty map, if the requests for the key and for the new table are served. -/
def FreesOwned (s : Server) : Command → Prop
  | .remove data =>
    (∀ r, s.mapRemove data = .ok r → ∀ e, s.StoredAt data e → e.1.offset = 0) ∧
    (s.heap.supply s.heap.next = true → s.heap.supply (s.heap.next + 1) = true →
      ¬ s.ShrinksEmpty data)
  | _ => True

theorem mapRemove_eq (s : Server) (data : List UInt8) :
    s.mapRemove data = if data ≠ [] ∧ s.heap.supply s.heap.next = true then
        (s.map.defaultRemove (serverKeys (s.heap.extend (some data))) (s.heap.extend (some data))
          ⟨s.heap.next, 0⟩).map fun r => (s.heap.next, r)
      else .error .nullPointer := by
  have hlen : data.length ≠ 0 ↔ data ≠ [] := not_congr List.length_eq_zero_iff
  rw [mapRemove, Heap.request_eq]
  by_cases hserved : data ≠ [] ∧ s.heap.supply s.heap.next = true
  · rw [if_pos hserved, if_pos ⟨hlen.mpr hserved.1, hserved.2⟩]
    change (s.map.defaultRemove _ _ _).bind _ = _
    cases s.map.defaultRemove (serverKeys (s.heap.extend (some data))) (s.heap.extend (some data))
      ⟨s.heap.next, 0⟩ <;> rfl
  · rw [if_neg hserved, if_neg (fun h => hserved ⟨hlen.mp h.1, h.2⟩)]
    rfl

theorem ShrinksEmpty.readable (hown : Owns s.map s.heap) (hempty : s.ShrinksEmpty data) :
    ((serverKeys (s.heap.extend (some data))).text ⟨s.heap.next, 0⟩).isSome := by
  obtain ⟨m₁, hdrop, -, -⟩ := hempty
  obtain ⟨i, hfind, -⟩ := Option.map_eq_some_iff.mp hdrop
  obtain ⟨e, he⟩ := KeyedList.exists_find hfind
  rw [← (Keys.equal_iff _).mp (KeyedList.find_some_key he)]
  exact (hown.extend (some data)).placed.readable_of_mem (KeyedList.mem_of_find he)

theorem ShrinksEmpty.mapRemove (hown : Owns s.map s.heap) (hempty : s.ShrinksEmpty data) :
    s.mapRemove data =
      .error (if s.heap.supply s.heap.next = true ∧ s.heap.supply (s.heap.next + 1) = true then
        .badFree else .nullPointer) := by
  have hkey := hempty.readable hown
  obtain ⟨m₁, hdrop, hshrink, hsize⟩ := hempty
  have hne : data ≠ [] := by
    rintro rfl
    simp [serverKeys, Heap.cstring, Heap.tail, Heap.extend] at hkey
  have hown' := hown.extend (some data)
  rw [mapRemove_eq, hown'.placed.defaultRemove_empty hown'.holds hdrop hshrink hsize hkey]
  have hsupply : (s.heap.extend (some data)).supply (s.heap.extend (some data)).next =
      s.heap.supply (s.heap.next + 1) := rfl
  rw [hsupply]
  cases s.heap.supply s.heap.next with
  | true => simp [hne, Except.map]
  | false => simp

theorem removeResult_of_ok (hown : Owns s.map s.heap) (hremove : s.mapRemove data = .ok (b, r)) :
    b = s.heap.next ∧ s.map.RemoveResult (serverKeys (s.heap.extend (some data)))
      (s.heap.extend (some data)) ⟨s.heap.next, 0⟩ [] r := by
  have hown₁ := hown.extend (some data)
  rw [mapRemove_eq] at hremove
  split at hremove
  · have hmeets : Meets (fun _ => False) (s.map.RemoveResult _ _ ⟨s.heap.next, 0⟩ [])
        (s.map.defaultRemove (serverKeys (s.heap.extend (some data))) _ _) :=
      hown₁.placed.defaultRemove_meets hown₁.holds False.elim False.elim False.elim False.elim
    cases hr : s.map.defaultRemove (serverKeys (s.heap.extend (some data)))
        (s.heap.extend (some data)) ⟨s.heap.next, 0⟩ with
    | error e =>
      rw [hr] at hremove
      cases hremove
    | ok r' =>
      rw [hr] at hremove hmeets
      cases hremove
      exact ⟨rfl, hmeets⟩
  · cases hremove

/-- A removal that ends returns the key of the pair stored under the string. -/
theorem removed_key (hown : Owns s.map s.heap) (hremove : s.mapRemove data = .ok (b, r))
    (he : s.StoredAt data e) : r.2.2 = (.ok, some e.1) := by
  obtain ⟨m', h', status, keyAddr⟩ := r
  obtain ⟨es, herased, -⟩ := (removeResult_of_ok hown hremove).2.erased
  cases herased with
  | missing hno _ =>
    have hfalse := hno e he.1
    rw [he.2] at hfalse
    cases hfalse
  | removed k v hk hperm =>
    have hdistinct := (hown.extend (some data)).placed.distinct_entries
    have hequiv := (serverKeys (s.heap.extend (some data))).keyEquiv
    have hkv := hdistinct.find_of_mem hequiv (hperm.symm.subset List.mem_cons_self) hk
    obtain rfl : e = (k, v) :=
      Option.some.inj ((hdistinct.find_of_mem hequiv he.1 he.2).symm.trans hkv)
    rfl

theorem cmdRemove_meets (hown : Owns s.map s.heap) (hcond : s.FreesOwned (.remove data)) :
    Meets (· = .badFree) (fun r => Keeps s.map N r.1) (s.cmdRemove data) := by
  obtain ⟨hkey, hempty⟩ := hcond
  by_cases hse : s.ShrinksEmpty data
  · rw [cmdRemove, hse.mapRemove hown, if_neg fun h => hempty h.1 h.2 hse]
    exact nofun
  rw [cmdRemove]
  by_cases hserved : data ≠ [] ∧ s.heap.supply s.heap.next = true
  swap
  · rw [mapRemove_eq, if_neg hserved]
    exact nofun
  have hown₁ := hown.extend (some data)
  have hmap : Meets (· = Fault.badFree) (fun r => r.1 = s.heap.next ∧
      s.map.RemoveResult (serverKeys (s.heap.extend (some data))) (s.heap.extend (some data))
        ⟨s.heap.next, 0⟩ [] r.2) (s.mapRemove data) := by
    rw [mapRemove_eq, if_pos hserved]
    refine Meets.map ((hown₁.placed.defaultRemove_meets hown₁.holds nofun nofun nofun ?_).mono ?_)
    · exact fun _ m₁ hdrop hshrink hsize => hse ⟨m₁, hdrop, hshrink, hsize⟩
    · exact fun r hr => ⟨rfl, hr⟩
  cases hremove : s.mapRemove data with
  | error e =>
    rw [hremove] at hmap
    exact hmap
  | ok r =>
    rw [hremove] at hmap
    obtain ⟨b, m', h', status, keyAddr⟩ := r
    obtain ⟨rfl, hres⟩ := hmap
    obtain ⟨hown', hold, hfreed⟩ := hown₁.removed hres
    have hdata := hres.ext.hasData (s.heap.hasData_extend data)
    have hown₂ : Owns m' (h'.release s.heap.next) :=
      hown'.release hdata fun e he => hown.ne_next (hold e he)
    change Meets _ _ ((h'.free ⟨s.heap.next, 0⟩).bind _)
    rw [Heap.free_start hdata.1]
    dsimp only [Except.bind]
    split
    · rename_i k
      obtain ⟨hlive, ⟨v, hmem⟩, hapart⟩ := hfreed k rfl
      obtain ⟨es, herased, -⟩ := hres.erased
      have hzero : k.offset = 0 := by
        cases herased with
        | removed _ v hk hperm =>
          exact hkey _ hremove (k, v) ⟨hperm.symm.subset List.mem_cons_self, hk⟩
      have hlive' := hlive.release (hown.ne_next hmem).1
      have hfree : (h'.release s.heap.next).free k =
          .ok ((h'.release s.heap.next).release k.block) :=
        if_pos ⟨hzero, hlive'.1⟩
      rw [hfree]
      exact .of_subset (hown₂.release hlive' (hapart hzero)) hold
    · exact .of_subset hown₂ hold

theorem freesOwned_of_meets (hown : Owns s.map s.heap) {post}
    (hmeets : Meets (· = .badFree) post (s.cmdRemove data)) : s.FreesOwned (.remove data) := by
  refine ⟨?_, fun hserved hserved' hempty => ?_⟩
  · rintro ⟨b, map, heap, status, keyAddr⟩ hremove e he
    obtain ⟨rfl, rfl⟩ : status = .ok ∧ keyAddr = some e.1 :=
      Prod.mk.injEq .. ▸ removed_key hown hremove he
    by_contra hzero
    rw [cmdRemove, hremove] at hmeets
    change Meets _ _ ((heap.free ⟨b, 0⟩).bind _) at hmeets
    rw [Heap.free] at hmeets
    split at hmeets
    · change Meets _ _ (((heap.release b).free e.1).bind _) at hmeets
      rw [Heap.free, if_neg fun h => hzero h.1] at hmeets
      exact hmeets rfl
    · exact hmeets rfl
  · rw [cmdRemove, hempty.mapRemove hown, if_pos ⟨hserved, hserved'⟩] at hmeets
    exact hmeets rfl

def AllLive (s : Server) : Prop :=
  ∀ e ∈ s.map.entries, s.heap.live e.1.block = true ∧ s.heap.live e.2.block = true

def step (s : Server) (c : Command) : Option Server := (s.exec c).toOption.map Prod.fst

/-- A command frees nothing but starts of live blocks, and afterwards nothing is stored that points
into a freed block. -/
def Safe (s : Server) (c : Command) : Prop :=
  Meets (· = .badFree) (fun r => r.1.AllLive) (s.exec c)

/-- The keys that a command may enter: a put the start of its block, a batch a place inside. -/
def NewKey (s : Server) : Command → Ptr → Prop
  | .put _ _, p => p = ⟨s.heap.next, 0⟩
  | .batchPut _, p => p.offset ≠ 0
  | _, _ => False

theorem exec_meets (hown : Owns s.map s.heap) (hcond : s.FreesOwned c) :
    Meets (· = .badFree) (fun r => Keeps s.map (s.NewKey c) r.1) (s.exec c) := by
  cases c with
  | put keyLen data => exact cmdPut_meets hown keyLen data
  | get data => exact cmdGet_meets hown data
  | batchPut data => exact cmdBatchPut_meets hown data
  | batchGet data => exact cmdBatchGet_meets hown data
  | remove data => exact cmdRemove_meets hown hcond
  | free => exact cmdFree_meets hown
  | len | unknown => exact .refl hown

theorem safe_iff (hown : Owns s.map s.heap) (c : Command) : s.Safe c ↔ s.FreesOwned c := by
  constructor
  · intro hsafe
    cases c with
    | remove data => exact freesOwned_of_meets hown hsafe
    | _ => trivial
  · intro hcond
    refine (exec_meets hown hcond).mono fun r hr e he => ?_
    exact ⟨(hr.owns.owned.live e he).1.1, (hr.owns.owned.live e he).2.1⟩

theorem init_meets (supply : ℕ → Bool) (junk : UInt8) :
    Meets (· = .badFree) (fun s => Owns s.map s.heap ∧ s.map.entries = []) (init supply junk) := by
  have hnone : (Heap.empty supply).Holds [] := ⟨List.nodup_nil, nofun, nofun⟩
  refine (Hashmap.newHashmap_meets (serverKeys (Heap.empty supply)) 0 hnone nofun).bind ?_
  rintro ⟨m, h⟩ ⟨hp, hholds, -, hentries, -, -⟩
  refine (Heap.request_meets nofun (by decide) none).bind ?_
  rintro _ rfl
  have hown : Owns m h := by
    refine ⟨hp.congr rfl ?_, hholds, ?_, ?_⟩
    · simp [show m.entries = [] from hentries]
    · simp [show m.entries = [] from hentries]
    · simp [show m.entries = [] from hentries]
  exact ⟨hown.extend none, hentries⟩

theorem keeps_of_step (hown : Owns s.map s.heap) (hcond : s.FreesOwned c)
    (hstep : s.step c = some s') : Keeps s.map (s.NewKey c) s' := by
  have hmeets := exec_meets hown hcond
  rw [step] at hstep
  cases hexec : s.exec c with
  | error e =>
    rw [hexec] at hstep
    cases hstep
  | ok r =>
    rw [hexec] at hstep hmeets
    cases hstep
    exact hmeets

/-- The addresses of the blocks that the puts of a run have taken for their keys. -/
def putKeys : Server → List Command → List Ptr
  | _, [] => []
  | s, c :: cs =>
    let later := ((s.step c).map fun s' => putKeys s' cs).getD []
    match c with
    | .put _ _ => ⟨s.heap.next, 0⟩ :: later
    | _ => later

theorem putKeys_offset {p : Ptr} (hp : p ∈ putKeys s cmds) : p.offset = 0 := by
  induction cmds generalizing s with
  | nil => cases hp
  | cons c cmds ih =>
    have hlater : p ∈ ((s.step c).map fun s' => putKeys s' cmds).getD [] → p.offset = 0 := by
      cases s.step c with
      | none => simp
      | some s' => exact ih
    cases c with
    | put =>
      rcases List.mem_cons.mp hp with rfl | hp
      · rfl
      · exact hlater hp
    | _ => exact hlater hp

/-- A stored key is the start of a block exactly if a put has stored it. -/
theorem offset_eq_zero_iff_put {supply : ℕ → Bool} {junk : UInt8} (hinit : init supply junk = .ok s)
    (halong : Runs.Along step FreesOwned s cmds) (hrun : Runs.run step s cmds = some s')
    (he : e ∈ s'.map.entries) : e.1.offset = 0 ↔ e.1 ∈ putKeys s cmds := by
  obtain ⟨hown, hempty⟩ := (init_meets supply junk).of_ok hinit
  refine ⟨fun hzero => ?_, putKeys_offset⟩
  -- over the commands, with the keys of the map at the start
  have hgen : e.1 ∈ putKeys s cmds ∨ ∃ e' ∈ s.map.entries, e'.1 = e.1 := by
    clear hempty hinit
    induction cmds generalizing s with
    | nil =>
      cases hrun
      exact Or.inr ⟨e, he, rfl⟩
    | cons c cmds ih =>
      obtain ⟨s₁, hstep, hrun⟩ := Runs.run_cons_eq_some.mp hrun
      have hkeeps := keeps_of_step hown halong.1 hstep
      rcases ih (halong.2 s₁ hstep) hrun hkeeps.owns with hlater | ⟨e₁, he₁, heq⟩
      · left
        cases c <;> simp [putKeys, hstep, hlater]
      · rcases hkeeps.keys e₁ he₁ with hnew | hold
        · rw [heq] at hnew
          cases c with
          | put =>
            left
            simp [putKeys, show e.1 = _ from hnew]
          | batchPut => exact absurd hzero hnew
          | _ => exact hnew.elim
        · exact Or.inr (heq ▸ hold)
  rcases hgen with hput | ⟨e', he', -⟩
  · exact hput
  · rw [hempty] at he'
    cases he'

/-- Along every sequence of commands of a connection all that is freed is owned and all that is
stored is live, if and only if every removal that ends takes out a key that a put has stored and
none shrinks the table of an empty map. -/
theorem frees_owned_iff (supply : ℕ → Bool) (junk : UInt8) (s : Server)
    (hinit : init supply junk = .ok s) (cmds : List Command) :
    Runs.Along step Safe s cmds ↔ Runs.Along step FreesOwned s cmds := by
  refine Runs.along_congr (C := fun _ => True) (I := fun s : Server => Owns s.map s.heap) ?_ ?_
    ((init_meets supply junk).of_ok hinit).1 fun _ _ => trivial
  · exact fun s c hown _ => safe_iff hown c
  · exact fun s c s' hown _ hcond hstep => (keeps_of_step hown hcond hstep).owns

section Sample

theorem frees_owned_put_remove :
    ∃ s, init (fun _ => true) 0 = .ok s ∧
      Runs.Along step Safe s [.put 2 [97, 0, 98, 0], .remove [97, 0]] := by
  refine ⟨_, rfl, (frees_owned_iff (fun _ => true) 0 _ rfl _).mpr ⟨trivial, fun s₁ h₁ => ?_⟩⟩
  obtain ⟨hown, hempty⟩ := (init_meets (fun _ => true) 0).of_ok rfl
  have hkeeps := keeps_of_step (c := .put 2 [97, 0, 98, 0]) hown trivial h₁
  cases h₁
  refine ⟨⟨fun _ _ e he => ?_, fun _ _ => ?_⟩, fun _ _ => trivial⟩
  · rcases hkeeps.keys e he.1 with hnew | ⟨e', he', -⟩
    · exact congrArg Ptr.offset hnew
    · rw [hempty] at he'
      cases he'
  · rintro ⟨m₁, hdrop, hshrink, -⟩
    have htable : m₁.tableSize = Hashmap.initSize := Hashmap.dropKey_tableSize hdrop
    exact absurd hshrink.1 (htable ▸ lt_irrefl _)

/-- A key that a batch has stored lies behind the header of its item. Its removal frees an address
inside the block of the batch. -/
theorem batch_key_removal_frees_inside :
    ∃ s s₁, init (fun _ => true) 0 = .ok s ∧
      step s (.batchPut [2, 0, 2, 0, 97, 0, 98, 0]) = some s₁ ∧
      s₁.exec (.remove [97, 0]) = .error .badFree :=
  ⟨_, _, rfl, rfl, by rfl⟩

end Sample

end Server

end NtSocks.Ntkv
