import NtSocks.Lib.Faults

/-!
# A heap of blocks

A heap hands out blocks. A block has an identity that is never given to another one, so that a
pointer into a block that was freed is told from a pointer into a live one. A block with contents
is one whose bytes are read; the contents of the others are kept by whoever holds them. A request
may fail: which ones do is part of the heap.
-/

namespace BlockHeap

open Faults Function

inductive Fault
  | nullPointer
  | badRead
  | badWrite
  | badFree
  | tooDeep
  deriving DecidableEq

structure Ptr where
  block : ℕ
  offset : ℕ
  deriving DecidableEq

structure Heap where
  /-- Which of the requests are served. -/
  supply : ℕ → Bool
  next : ℕ
  live : ℕ → Bool
  bytes : ℕ → Option (List UInt8)
  lt_next_of_live : ∀ b, live b = true → b < next
  bytes_of_next_le : ∀ b, next ≤ b → bytes b = none

namespace Heap

def empty (supply : ℕ → Bool) : Heap where
  supply := supply
  next := 0
  live := fun _ => false
  bytes := fun _ => none
  lt_next_of_live := by simp
  bytes_of_next_le := fun _ _ => rfl

variable (h : Heap)

def extend (contents : Option (List UInt8)) : Heap where
  supply := h.supply
  next := h.next + 1
  live := update h.live h.next true
  bytes := update h.bytes h.next contents
  lt_next_of_live := by
    intro b hb
    rcases eq_or_ne b h.next with rfl | hne
    · exact Nat.lt_succ_self _
    · rw [update_of_ne hne] at hb
      exact Nat.lt_succ_of_lt (h.lt_next_of_live b hb)
  bytes_of_next_le := by
    intro b hb
    rw [update_of_ne (by omega)]
    exact h.bytes_of_next_le b (by omega)

def skip : Heap :=
  { h with
    next := h.next + 1
    lt_next_of_live := fun b hb => Nat.lt_succ_of_lt (h.lt_next_of_live b hb)
    bytes_of_next_le := fun b hb => h.bytes_of_next_le b (by omega) }

/-- A request for no bytes gets none. -/
def alloc (n : ℕ) (contents : Option (List UInt8)) : Option ℕ × Heap :=
  if n = 0 then (none, h)
  else if h.supply h.next then (some h.next, h.extend contents)
  else (none, h.skip)

def request (n : ℕ) (contents : Option (List UInt8)) : Except Fault (ℕ × Heap) :=
  match h.alloc n contents with
  | (none, _) => .error .nullPointer
  | (some b, h) => .ok (b, h)

def release (b : ℕ) : Heap :=
  { h with
    live := update h.live b false
    lt_next_of_live := by
      intro c hc
      rcases eq_or_ne c b with rfl | hne
      · simp at hc
      · rw [update_of_ne hne] at hc
        exact h.lt_next_of_live c hc }

/-- Only the start of a live block can be freed. -/
def free (p : Ptr) : Except Fault Heap :=
  if p.offset = 0 ∧ h.live p.block = true then .ok (h.release p.block) else .error .badFree

def freeBlock : Option ℕ → Except Fault Heap
  | none => .error .badFree
  | some b => h.free ⟨b, 0⟩

def freeAll (h : Heap) (bs : List ℕ) : Except Fault Heap :=
  bs.foldlM (fun h b => h.free ⟨b, 0⟩) h

def tail (p : Ptr) : Option (List UInt8) :=
  if h.live p.block then (h.bytes p.block).map (List.drop p.offset) else none

def read (p : Ptr) (n : ℕ) : Option (List UInt8) :=
  (h.tail p).bind fun bs => if n ≤ bs.length then some (bs.take n) else none

def cstring (p : Ptr) : Option (List UInt8) :=
  (h.tail p).bind fun bs => if 0 ∈ bs then some (bs.takeWhile (· ≠ 0)) else none

structure Holds (bs : List ℕ) : Prop where
  nodup : bs.Nodup
  live : ∀ b ∈ bs, h.live b = true
  bare : ∀ b ∈ bs, h.bytes b = none

def HasData (b : ℕ) : Prop := h.live b = true ∧ (h.bytes b).isSome

def Served : Prop := ∀ n, h.supply n = true

structure Extends (h h' : Heap) : Prop where
  supply : h'.supply = h.supply
  next : h.next ≤ h'.next
  bytes : ∀ b, (h.bytes b).isSome → h'.bytes b = h.bytes b
  live : ∀ b, (h.bytes b).isSome → h'.live b = h.live b

variable {h} {h' h'' : Heap} {b n : ℕ} {bs cs : List ℕ} {p : Ptr}

theorem Extends.refl (h : Heap) : h.Extends h := ⟨rfl, le_rfl, fun _ _ => rfl, fun _ _ => rfl⟩

theorem Extends.trans (h₁ : h.Extends h') (h₂ : h'.Extends h'') : h.Extends h'' where
  supply := h₂.supply.trans h₁.supply
  next := h₁.next.trans h₂.next
  bytes := fun b hb => by
    have hb' : (h'.bytes b).isSome := by rw [h₁.bytes b hb]; exact hb
    rw [h₂.bytes b hb', h₁.bytes b hb]
  live := fun b hb => by
    have hb' : (h'.bytes b).isSome := by rw [h₁.bytes b hb]; exact hb
    rw [h₂.live b hb', h₁.live b hb]

theorem Extends.served (hext : h.Extends h') (hs : h.Served) : h'.Served :=
  fun n => by rw [hext.supply]; exact hs n

theorem Extends.tail (hext : h.Extends h') (hp : (h.bytes p.block).isSome) :
    h'.tail p = h.tail p := by
  rw [Heap.tail, Heap.tail, hext.bytes _ hp, hext.live _ hp]

theorem Extends.hasData (hext : h.Extends h') (hb : h.HasData b) : h'.HasData b := by
  rw [HasData, hext.live b hb.2, hext.bytes b hb.2]
  exact hb

theorem HasData.lt_next (hb : h.HasData b) : b < h.next := h.lt_next_of_live b hb.1

theorem hasData_extend (h : Heap) (bytes : List UInt8) :
    (h.extend (some bytes)).HasData h.next := by
  simp [HasData, Heap.extend]

theorem tail_extend (h : Heap) (bytes : List UInt8) :
    (h.extend (some bytes)).tail ⟨h.next, 0⟩ = some bytes := by
  simp [Heap.tail, Heap.extend]

theorem tail_release (hp : p.block ≠ b) : (h.release b).tail p = h.tail p := by
  have hlive : (h.release b).live p.block = h.live p.block := update_of_ne hp _ _
  rw [Heap.tail, Heap.tail, hlive]
  rfl

theorem cstring_release (hp : p.block ≠ b) : (h.release b).cstring p = h.cstring p := by
  rw [Heap.cstring, Heap.cstring, tail_release hp]

theorem HasData.release {c : ℕ} (hc : h.HasData c) (hne : c ≠ b) : (h.release b).HasData c :=
  ⟨(update_of_ne hne _ _).trans hc.1, hc.2⟩

theorem Extends.cstring (hext : h.Extends h') (hp : (h.bytes p.block).isSome) :
    h'.cstring p = h.cstring p := by
  rw [Heap.cstring, Heap.cstring, hext.tail hp]

theorem tail_add (h : Heap) (b o n : ℕ) :
    h.tail ⟨b, o + n⟩ = (h.tail ⟨b, o⟩).map (List.drop n) := by
  rw [Heap.tail, Heap.tail]
  split_ifs
  · rw [Option.map_map]
    refine congrArg (fun f => Option.map f _) (funext fun bs => ?_)
    exact List.drop_drop.symm
  · rfl

theorem read_eq_some_iff {x : List UInt8} :
    h.read p x.length = some x ↔ ∃ rest, h.tail p = some (x ++ rest) := by
  rw [Heap.read]
  cases h.tail p with
  | none => simp
  | some bs =>
    rw [Option.bind_some]
    constructor
    · intro hread
      split_ifs at hread with hlen
      have htake : bs.take x.length = x := Option.some.inj hread
      exact ⟨bs.drop x.length, by rw [← List.take_append_drop x.length bs, htake]; simp⟩
    · rintro ⟨rest, hbs⟩
      cases hbs
      rw [if_pos (by rw [List.length_append]; omega), List.take_left]

theorem read_append_iff {b o : ℕ} {x y : List UInt8} :
    h.read ⟨b, o⟩ (x ++ y).length = some (x ++ y) ↔
      h.read ⟨b, o⟩ x.length = some x ∧ h.read ⟨b, o + x.length⟩ y.length = some y := by
  rw [read_eq_some_iff, read_eq_some_iff, read_eq_some_iff, tail_add]
  constructor
  · rintro ⟨rest, htail⟩
    rw [htail]
    refine ⟨⟨y ++ rest, by rw [List.append_assoc]⟩, rest, ?_⟩
    rw [Option.map_some, List.append_assoc, List.drop_left]
  · rintro ⟨⟨rest, htail⟩, rest', htail'⟩
    rw [htail, Option.map_some, List.drop_left, Option.some.injEq] at htail'
    exact ⟨rest', by rw [htail, htail', List.append_assoc]⟩

theorem exists_terminated {l : List UInt8} (hl : 0 ∈ l) :
    ∃ rest, l = l.takeWhile (· ≠ 0) ++ 0 :: rest ∧ 0 ∉ l.takeWhile (· ≠ 0) := by
  induction l with
  | nil => cases hl
  | cons a l ih =>
    by_cases ha : a = 0
    · subst ha
      exact ⟨l, by simp⟩
    · have hl' : 0 ∈ l := (List.mem_cons.mp hl).resolve_left (Ne.symm ha)
      obtain ⟨rest, hrest, hnot⟩ := ih hl'
      have htake : (a :: l).takeWhile (· ≠ 0) = a :: l.takeWhile (· ≠ 0) := by
        simp [ha]
      rw [htake]
      refine ⟨rest, ?_, ?_⟩
      · rw [List.cons_append, ← hrest]
      · rw [List.mem_cons, not_or]
        exact ⟨Ne.symm ha, hnot⟩

theorem cstring_of_tail {x rest : List UInt8} (hx : 0 ∉ x)
    (htail : h.tail p = some (x ++ 0 :: rest)) : h.cstring p = some x := by
  have hmem : (0 : UInt8) ∈ x ++ 0 :: rest := by simp
  have hall : ∀ a ∈ x, decide (a ≠ 0) = true := by
    intro a ha
    exact decide_eq_true (ne_of_mem_of_not_mem ha hx)
  rw [Heap.cstring, htail, Option.bind_some, if_pos hmem, List.takeWhile_append_of_pos hall]
  simp

theorem Extends.read (hext : h.Extends h') (hp : (h.bytes p.block).isSome) (n : ℕ) :
    h'.read p n = h.read p n := by
  rw [Heap.read, Heap.read, hext.tail hp]

theorem ne_next_of_bytes (hb : (h.bytes b).isSome) : b ≠ h.next := by
  rintro rfl
  rw [h.bytes_of_next_le _ le_rfl] at hb
  cases hb

theorem extends_extend (contents : Option (List UInt8)) : h.Extends (h.extend contents) where
  supply := rfl
  next := Nat.le_succ _
  bytes := fun _ hb => update_of_ne (ne_next_of_bytes hb) _ _
  live := fun _ hb => update_of_ne (ne_next_of_bytes hb) _ _

theorem extends_skip : h.Extends h.skip := ⟨rfl, Nat.le_succ _, fun _ _ => rfl, fun _ _ => rfl⟩

theorem extends_release (hb : h.bytes b = none) : h.Extends (h.release b) where
  supply := rfl
  next := le_rfl
  bytes := fun _ _ => rfl
  live := fun c hc => by
    refine update_of_ne ?_ _ _
    rintro rfl
    rw [hb] at hc
    cases hc

theorem extends_alloc (h : Heap) (n : ℕ) (contents : Option (List UInt8)) :
    h.Extends (h.alloc n contents).2 := by
  rw [alloc]
  split_ifs
  · exact .refl h
  · exact extends_extend contents
  · exact extends_skip

theorem alloc_cases (h : Heap) (n : ℕ) (contents : Option (List UInt8)) :
    h.alloc n contents = (some h.next, h.extend contents) ∧ n ≠ 0 ∨
      (h.alloc n contents).1 = none ∧ (n = 0 ∨ ¬ h.Served) := by
  rw [alloc]
  split_ifs with hn hserved
  · exact Or.inr ⟨rfl, Or.inl hn⟩
  · exact Or.inl ⟨rfl, hn⟩
  · exact Or.inr ⟨rfl, Or.inr fun hs => hserved (hs _)⟩

theorem request_eq (h : Heap) (n : ℕ) (contents : Option (List UInt8)) :
    h.request n contents = if n ≠ 0 ∧ h.supply h.next = true then .ok (h.next, h.extend contents)
      else .error .nullPointer := by
  rw [request, alloc]
  by_cases hn : n = 0
  · simp [hn]
  · cases hs : h.supply h.next <;> simp [hn]

theorem request_meets {bad : Fault → Prop} (hserve : bad .nullPointer → h.Served) (hn : n ≠ 0)
    (contents : Option (List UInt8)) :
    Meets bad (fun r => r = (h.next, h.extend contents)) (h.request n contents) := by
  rw [request]
  rcases h.alloc_cases n contents with ⟨halloc, -⟩ | ⟨halloc, hno⟩
  · rw [halloc]
    rfl
  · rw [show h.alloc n contents = (none, (h.alloc n contents).2) from Prod.ext halloc rfl]
    exact fun hbad => hno.elim hn fun hs => hs (hserve hbad)

theorem Holds.perm (hold : h.Holds bs) (hperm : bs.Perm cs) : h.Holds cs where
  nodup := hperm.nodup_iff.mp hold.nodup
  live := fun b hb => hold.live b (hperm.mem_iff.mpr hb)
  bare := fun b hb => hold.bare b (hperm.mem_iff.mpr hb)

theorem Holds.sublist (hold : h.Holds bs) (hsub : cs.Sublist bs) : h.Holds cs where
  nodup := hold.nodup.sublist hsub
  live := fun b hb => hold.live b (hsub.subset hb)
  bare := fun b hb => hold.bare b (hsub.subset hb)

theorem Holds.lt_next (hold : h.Holds bs) (hb : b ∈ bs) : b < h.next :=
  h.lt_next_of_live b (hold.live b hb)

theorem Holds.extend (hold : h.Holds bs) (contents : Option (List UInt8)) :
    (h.extend contents).Holds bs := by
  have hne : ∀ b ∈ bs, b ≠ h.next := fun b hb => (hold.lt_next hb).ne
  refine ⟨hold.nodup, fun b hb => ?_, fun b hb => ?_⟩
  · exact (update_of_ne (hne b hb) _ _).trans (hold.live b hb)
  · exact (update_of_ne (hne b hb) _ _).trans (hold.bare b hb)

theorem Holds.extend_cons (hold : h.Holds bs) : (h.extend none).Holds (h.next :: bs) := by
  have hold' := hold.extend none
  refine ⟨List.nodup_cons.mpr ⟨fun hmem => (hold.lt_next hmem).ne rfl, hold.nodup⟩, ?_, ?_⟩
  · rintro b (_ | ⟨_, hb⟩)
    · exact update_self ..
    · exact hold'.live b hb
  · rintro b (_ | ⟨_, hb⟩)
    · exact update_self ..
    · exact hold'.bare b hb

theorem Holds.skip (hold : h.Holds bs) : h.skip.Holds bs := ⟨hold.nodup, hold.live, hold.bare⟩

theorem Holds.alloc (hold : h.Holds bs) (n : ℕ) :
    (h.alloc n none).2.Holds ((h.alloc n none).1.toList ++ bs) := by
  rw [Heap.alloc]
  split_ifs
  · exact hold
  · exact hold.extend_cons
  · exact hold.skip

theorem alloc_isSome (hs : h.Served) (n : ℕ) (contents : Option (List UInt8)) :
    (h.alloc n contents).1.isSome ∨ n = 0 := by
  rcases h.alloc_cases n contents with ⟨halloc, -⟩ | ⟨-, hzero | hno⟩
  · rw [halloc]
    exact Or.inl rfl
  · exact Or.inr hzero
  · exact absurd hs hno

theorem Holds.release_of_notMem (hold : h.Holds bs) (hb : b ∉ bs) : (h.release b).Holds bs := by
  refine ⟨hold.nodup, fun c hc => ?_, hold.bare⟩
  have hne : c ≠ b := fun heq => hb (heq ▸ hc)
  exact (update_of_ne hne _ _).trans (hold.live c hc)

theorem free_start (hb : h.live b = true) : h.free ⟨b, 0⟩ = .ok (h.release b) := by
  rw [free, if_pos ⟨rfl, hb⟩]

theorem Holds.free (hold : h.Holds (b :: bs)) :
    h.free ⟨b, 0⟩ = .ok (h.release b) ∧ (h.release b).Holds bs ∧ h.Extends (h.release b) := by
  have hmem : b ∈ b :: bs := List.mem_cons_self
  obtain ⟨hnot, -⟩ := List.nodup_cons.mp hold.nodup
  refine ⟨free_start (hold.live b hmem), ?_, extends_release (hold.bare b hmem)⟩
  exact (hold.sublist (List.sublist_cons_self b bs)).release_of_notMem hnot

theorem Holds.freeAll (hold : h.Holds (bs ++ cs)) :
    ∃ h', h.freeAll bs = .ok h' ∧ h'.Holds cs ∧ h.Extends h' ∧ h'.next = h.next := by
  induction bs generalizing h with
  | nil => exact ⟨h, rfl, hold, .refl h, rfl⟩
  | cons b bs ih =>
    obtain ⟨hfree, hold', hext⟩ := hold.free
    obtain ⟨h', hall, hrest, hext', hnext⟩ := ih hold'
    refine ⟨h', ?_, hrest, hext.trans hext', hnext⟩
    rw [Heap.freeAll, List.foldlM_cons, hfree]
    exact hall

end Heap

end BlockHeap
