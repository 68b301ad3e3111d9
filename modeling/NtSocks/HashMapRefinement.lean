import NtSocks.HashMapOps
import NtSocks.Lib.Runs

/-!
# Histories of the hash map

A map is compared with the function that gives for a key the value of its last put, if it was not
removed since. A put of a key that is in the table writes the value into the first entry of the
bucket, which is that of another key if the bucket has several. The two agree along a history
exactly if no such put changes anything.
-/

namespace NtSocks.HashMap

variable {K V : Type*} {ops : KeyOps K}

inductive Op (K V : Type*)
  | put (key : K) (value : V)
  | get (key : K)
  | existsKey (key : K)
  | remove (key : K)

def step (m : HashMap ops V) : Op K V → Option (HashMap ops V)
  | .put key value => m.defaultPut key value
  | .get _ => some m
  | .existsKey _ => some m
  | .remove key => (m.defaultRemove key).map Prod.snd

def Op.apply (ops : KeyOps K) : Op K V → (K → Option V) → K → Option V
  | .put key value, f, k => if ops.equal key k then some value else f k
  | .get _, f, k => f k
  | .existsKey _, f, k => f k
  | .remove key, f, k => if ops.equal key k then none else f k

/-- The map is the finite map `f`; the keys present are counted up to `equal`. -/
structure Represents (m : HashMap ops V) (f : K → Option V) : Prop where
  get : ∀ k, m.defaultGet k = f k
  existsKey : ∀ k, m.defaultExists k = (f k).isSome
  size : ∃ ks : List K, ks.Pairwise (fun a b => ops.equal a b = false) ∧
    (∀ k, (f k).isSome = ks.any fun a => ops.equal a k) ∧ m.size = ks.length

structure Traced (ops : KeyOps K) (V : Type*) where
  map : HashMap ops V
  spec : K → Option V

def Traced.init : Traced ops V where
  map := createHashMap
  spec := fun _ => none

def Traced.step (s : Traced ops V) (op : Op K V) : Option (Traced ops V) :=
  (s.map.step op).map fun m => { map := m, spec := op.apply ops s.spec }

def Traced.Refines (s : Traced ops V) (op : Op K V) : Prop :=
  ∃ m, s.map.step op = some m ∧ m.Represents (op.apply ops s.spec)

/-- A put of a key that is in its bucket behind the first entry repeats the value of the key and of
the first entry. -/
def Harmless (m : HashMap ops V) : Op K V → Prop
  | .put key value => ∀ head next e, m.list (m.index key) = head :: next → m.find key = some e →
      ops.equal head.1 key = false → head.2 = value ∧ e.2 = value
  | .get _ => True
  | .existsKey _ => True
  | .remove _ => True

variable {m : HashMap ops V} {f : K → Option V} {acts : List (Op K V)} {op : Op K V}
  {m' : HashMap ops V} {v value : V} {next : List (K × V)} {e head : K × V} {k key : K}

theorem defaultExists_eq_isSome (m : HashMap ops V) (k : K) :
    m.defaultExists k = (m.defaultGet k).isSome := by
  rw [defaultGet_eq, defaultExists_eq, Option.isSome_map]

theorem Valid.represents (h : m.Valid) (hget : ∀ k, m.defaultGet k = f k) : m.Represents f := by
  have hsome : ∀ k, m.defaultExists k = (f k).isSome := by
    intro k
    rw [← hget, defaultExists_eq_isSome]
  refine ⟨hget, hsome, m.entries.map Prod.fst, ?_, ?_, ?_⟩
  · exact List.pairwise_map.mpr h.distinct_entries
  · intro k
    rw [← hsome, defaultExists_eq, ← h.find_entries, KeyedList.find, List.any_map,
      Bool.eq_iff_iff, List.find?_isSome, List.any_eq_true]
    rfl
  · rw [h.size, List.length_map]

theorem defaultGet_congr {k' : K} (hk : ops.equal k k' = true) :
    m.defaultGet k = m.defaultGet k' := by
  rw [defaultGet_eq, defaultGet_eq, find_congr hk]

theorem Valid.get_put_present (h : m.Valid) (hfind : m.find key = some e)
    (hbucket : m.list (m.index key) = head :: next) (value : V) :
    ∃ m', m.defaultPut key value = some m' ∧ m'.Valid ∧
      ∀ k, m'.defaultGet k = if ops.equal head.1 k then some value else m.defaultGet k := by
  obtain ⟨m', hput, h', hfind'⟩ := h.put_present hfind hbucket value
  refine ⟨m', hput, h', ?_⟩
  intro k
  rw [defaultGet_eq, hfind', defaultGet_eq]
  split <;> rfl

/-- The two keys at which a put of a present key can go wrong are its own and that of the entry it
writes. -/
theorem Valid.values_of_get (h : m.Valid) (hfind : m.find key = some e)
    (hbucket : m.list (m.index key) = head :: next)
    (hget' : ∀ k, m'.defaultGet k = if ops.equal head.1 k then some value else m.defaultGet k)
    (hkey : m'.defaultGet key = some value) (hhead : m'.defaultGet head.1 = m.defaultGet head.1)
    (hother : ops.equal head.1 key = false) : head.2 = value ∧ e.2 = value := by
  rw [hget', if_pos (ops.equiv.refl _), defaultGet_eq, h.find_head hbucket] at hhead
  rw [hget', if_neg (Bool.eq_false_iff.mp hother), defaultGet_eq, hfind] at hkey
  exact ⟨(Option.some.inj hhead).symm, Option.some.inj hkey⟩

theorem Valid.put_present_iff (h : m.Valid) (hget : ∀ k, m.defaultGet k = f k)
    (hfind : m.find key = some e) (hbucket : m.list (m.index key) = head :: next)
    (hget' : ∀ k, m'.defaultGet k = if ops.equal head.1 k then some value else m.defaultGet k) :
    (∀ k, m'.defaultGet k = (Op.put key value).apply ops f k) ↔
      (ops.equal head.1 key = false → head.2 = value ∧ e.2 = value) := by
  have hkey : m.defaultGet key = some e.2 := by rw [defaultGet_eq, hfind]; rfl
  have hhead : m.defaultGet head.1 = some head.2 := by
    rw [defaultGet_eq, h.find_head hbucket]
    rfl
  constructor
  · intro hspec hother
    refine h.values_of_get hfind hbucket hget' ?_ ?_ hother
    · rw [hspec, Op.apply, if_pos (ops.equiv.refl key)]
    · rw [hspec, Op.apply, ops.equiv.symm, hother, hget]
      rfl
  · intro hharmless k
    rw [hget', Op.apply, ← hget]
    by_cases hsame : ops.equal head.1 key = true
    · have hkeys : ops.equal head.1 k = ops.equal key k := by
        rw [ops.equiv.symm, ops.equiv.congr_right hsame, ops.equiv.symm]
      rw [hkeys]
    · obtain ⟨hheadValue, hkeyValue⟩ := hharmless (Bool.eq_false_iff.mpr hsame)
      by_cases hk : ops.equal head.1 k = true
      · rw [← defaultGet_congr hk, hhead, hheadValue]
        simp [hk]
      · by_cases hk' : ops.equal key k = true
        · rw [← defaultGet_congr hk', hkey, hkeyValue]
          simp [hk']
        · simp [hk, hk']

/-- Where the map is right, an operation keeps it right exactly if it is harmless. -/
theorem refines_iff (h : m.Valid) (hget : ∀ k, m.defaultGet k = f k) (op : Op K V) :
    Traced.Refines { map := m, spec := f } op ↔ m.Harmless op := by
  cases op with
  | put key value =>
    cases hfind : m.find key with
    | none =>
      refine iff_of_true ?_ fun head next e _ he => by rw [hfind] at he; cases he
      obtain ⟨m', hput, h', hfind'⟩ := h.put_new hfind value
      refine ⟨m', hput, h'.represents fun k => ?_⟩
      rw [defaultGet_eq, hfind', Op.apply]
      split
      · rfl
      · rw [← defaultGet_eq, hget]
    | some e =>
      obtain ⟨head, next, hbucket⟩ := bucket_of_find hfind
      obtain ⟨m', hput, h', hget'⟩ := h.get_put_present hfind hbucket value
      have hiff := h.put_present_iff hget hfind hbucket hget'
      constructor
      · rintro ⟨m₁, hput₁, hrep⟩ head₁ next₁ e₁ hbucket₁ hfind₁
        obtain rfl : m' = m₁ := Option.some.inj (hput.symm.trans hput₁)
        rw [hbucket] at hbucket₁
        rw [hfind] at hfind₁
        cases hbucket₁
        cases hfind₁
        exact hiff.mp hrep.get
      · intro hharmless
        exact ⟨m', hput, h'.represents (hiff.mpr (hharmless head next e hbucket hfind))⟩
  | get key | existsKey key => exact iff_of_true ⟨m, rfl, h.represents hget⟩ trivial
  | remove key =>
    refine iff_of_true ?_ trivial
    obtain ⟨r, m', hremove, h', hfind'⟩ := h.remove key
    refine ⟨m', by rw [HashMap.step, hremove]; rfl, h'.represents fun k => ?_⟩
    rw [defaultGet_eq, hfind', Op.apply]
    split
    · rfl
    · rw [← defaultGet_eq, hget]

/-- The key of the entry that a put writes: of the first entry of the bucket if the key is present,
of a new entry otherwise. -/
def putTarget (m : HashMap ops V) (key : K) : K :=
  match m.list (m.index key), m.find key with
  | head :: _, some _ => head.1
  | _, _ => key

theorem Valid.get_put (h : m.Valid) (key : K) (value : V) :
    ∃ m', m.defaultPut key value = some m' ∧ m'.Valid ∧
      ∀ k, m'.defaultGet k = if ops.equal (m.putTarget key) k then some value
        else m.defaultGet k := by
  cases hfind : m.find key with
  | none =>
    obtain ⟨m', hput, h', hfind'⟩ := h.put_new hfind value
    refine ⟨m', hput, h', fun k => ?_⟩
    have htarget : m.putTarget key = key := by
      rw [putTarget, hfind]
      split <;> simp_all
    rw [htarget, defaultGet_eq, hfind', defaultGet_eq]
    split <;> rfl
  | some e =>
    obtain ⟨head, next, hbucket⟩ := bucket_of_find hfind
    have htarget : m.putTarget key = head.1 := by
      rw [putTarget, hbucket, hfind]
    rw [htarget]
    exact h.get_put_present hfind hbucket value

def Op.Stores (v : V) : Op K V → Prop
  | .put _ value => value = v
  | .get _ => False
  | .existsKey _ => False
  | .remove _ => False

/-- The operation neither writes nor removes the entry of a key equal to `target`. -/
def Spares (target : K) (m : HashMap ops V) : Op K V → Prop
  | .put key _ => ops.equal (m.putTarget key) target = false
  | .get _ => True
  | .existsKey _ => True
  | .remove key => ops.equal key target = false

instance (v : V) [DecidableEq V] : DecidablePred (Op.Stores v : Op K V → Prop) := fun op =>
  match op with
  | .put _ value => inferInstanceAs (Decidable (value = v))
  | .get _ => isFalse id
  | .existsKey _ => isFalse id
  | .remove _ => isFalse id

instance (target : K) (m : HashMap ops V) : DecidablePred (m.Spares target) := fun op =>
  match op with
  | .put key _ => inferInstanceAs (Decidable (ops.equal (m.putTarget key) target = false))
  | .get _ => isTrue trivial
  | .existsKey _ => isTrue trivial
  | .remove key => inferInstanceAs (Decidable (ops.equal key target = false))

/-- A history of the map in which the value `v` is put once, under `key`: into the map `met`, which
becomes `made`, and `later` are the operations from there to `m`. -/
structure PutOnce (key : K) (v : V) (met made : HashMap ops V) (later : List (Op K V))
    (m : HashMap ops V) : Prop where
  before : ∃ acts, Runs.run HashMap.step createHashMap acts = some met ∧ ∀ op ∈ acts, ¬ op.Stores v
  put : met.defaultPut key v = some made
  later_run : Runs.run HashMap.step made later = some m
  fresh : ∀ op ∈ later, ¬ op.Stores v

theorem spares_congr {target : K} (hk : ops.equal target k = true) :
    m.Spares target op ↔ m.Spares k op := by
  cases op with
  | put key value | remove key => simp only [Spares, ops.equiv.congr_right hk]
  | get key | existsKey key => exact Iff.rfl

theorem Valid.get_cases (h : m.Valid) (hstep : m.step op = some m') :
    m'.Valid ∧ ∀ k, m'.defaultGet k = m.defaultGet k ∧ m.Spares k op ∨
      ¬ m.Spares k op ∧ ∀ v, m'.defaultGet k = some v → op.Stores v := by
  cases op with
  | put key value =>
    obtain ⟨m₁, hput, h₁, hget⟩ := h.get_put key value
    obtain rfl : m₁ = m' := Option.some.inj (hput.symm.trans hstep)
    refine ⟨h₁, fun k => ?_⟩
    rw [hget]
    by_cases hk : ops.equal (m.putTarget key) k = true
    · rw [if_pos hk]
      exact .inr ⟨by simp [Spares, hk], fun v => Option.some.inj⟩
    · exact .inl ⟨if_neg hk, Bool.eq_false_iff.mpr hk⟩
  | get key | existsKey key =>
    cases hstep
    exact ⟨h, fun k => .inl ⟨rfl, trivial⟩⟩
  | remove key =>
    obtain ⟨r, m₁, hremove, h₁, hfind⟩ := h.remove key
    rw [HashMap.step, hremove] at hstep
    cases hstep
    refine ⟨h₁, fun k => ?_⟩
    rw [defaultGet_eq, hfind]
    by_cases hk : ops.equal key k = true
    · rw [if_pos hk]
      exact .inr ⟨by simp [Spares, hk], fun v hv => nomatch hv⟩
    · rw [if_neg hk, defaultGet_eq]
      exact .inl ⟨rfl, Bool.eq_false_iff.mpr hk⟩

theorem Valid.step (h : m.Valid) (hstep : m.step op = some m') : m'.Valid := (h.get_cases hstep).1

theorem Valid.get_step (h : m.Valid) (hfresh : ¬ op.Stores v) (hstep : m.step op = some m')
    (hk : m'.defaultGet k = some v) :
    m.defaultGet k = some v ∧ ∀ target, ops.equal target k = true → m.Spares target op := by
  rcases (h.get_cases hstep).2 k with ⟨hsame, hspares⟩ | ⟨-, hstores⟩
  · exact ⟨hsame ▸ hk, fun target htarget => (spares_congr htarget).mpr hspares⟩
  · exact absurd (hstores v hk) hfresh

theorem Valid.get_spared (h : m.Valid) (hstep : m.step op = some m') {target : K}
    (hspares : m.Spares target op) (hk : ops.equal target k = true) :
    m'.defaultGet k = m.defaultGet k := by
  rcases (h.get_cases hstep).2 k with ⟨hsame, -⟩ | ⟨hwritten, -⟩
  · exact hsame
  · exact absurd ((spares_congr hk).mp hspares) hwritten

theorem Valid.get_of_run (h : m.Valid) (hrun : Runs.run HashMap.step m acts = some m')
    (hfresh : ∀ op ∈ acts, ¬ op.Stores v) (hk : m'.defaultGet k = some v) :
    m.defaultGet k = some v ∧ ∀ target, ops.equal target k = true →
      Runs.Along HashMap.step (fun m op => m.Spares target op) m acts := by
  induction acts generalizing m with
  | nil =>
    cases hrun
    exact ⟨hk, fun _ _ => trivial⟩
  | cons op acts ih =>
    obtain ⟨m₁, hstep, hrun⟩ := Runs.run_cons_eq_some.mp hrun
    obtain ⟨hop, hacts⟩ := List.forall_mem_cons.mp hfresh
    obtain ⟨hk₁, hspared⟩ := ih (h.step hstep) hrun hacts
    obtain ⟨hk₀, hspares⟩ := h.get_step hop hstep hk₁
    refine ⟨hk₀, fun target htarget => ?_⟩
    exact (Runs.along_cons_iff hstep).mpr ⟨hspares target htarget, hspared target htarget⟩

theorem Valid.get_run_spared (h : m.Valid) (hrun : Runs.run HashMap.step m acts = some m')
    {target : K} (hspared : Runs.Along HashMap.step (fun m op => m.Spares target op) m acts)
    (hk : ops.equal target k = true) : m'.defaultGet k = m.defaultGet k := by
  induction acts generalizing m with
  | nil =>
    cases hrun
    rfl
  | cons op acts ih =>
    obtain ⟨m₁, hstep, hrun⟩ := Runs.run_cons_eq_some.mp hrun
    obtain ⟨hspares, hspared⟩ := (Runs.along_cons_iff hstep).mp hspared
    rw [ih (h.step hstep) hrun hspared, h.get_spared hstep hspares hk]

/-- A value that is put once is found under the keys of the entry it went to, as long as no
operation writes or removes that entry, and under no other key. -/
theorem PutOnce.get_iff {met made : HashMap ops V} {later : List (Op K V)}
    (h : PutOnce key v met made later m) (k : K) :
    m.defaultGet k = some v ↔ ops.equal (met.putTarget key) k = true ∧
      Runs.Along HashMap.step (fun m op => m.Spares (met.putTarget key) op) made later := by
  obtain ⟨acts, hacts, hbefore⟩ := h.before
  have hmet : met.Valid :=
    Runs.invariant (I := fun m : HashMap ops V => m.Valid) (fun _ _ _ hm hstep => hm.step hstep)
      createHashMap_valid hacts
  obtain ⟨m₁, hput, hvalid, hget⟩ := hmet.get_put key v
  obtain rfl : m₁ = made := Option.some.inj (hput.symm.trans h.put)
  constructor
  · intro hk
    obtain ⟨hk, hspared⟩ := hvalid.get_of_run h.later_run h.fresh hk
    suffices htarget : ops.equal (met.putTarget key) k = true from ⟨htarget, hspared _ htarget⟩
    rw [hget] at hk
    split at hk
    · assumption
    · -- the map before the put holds no entry with the value
      have hnew := (createHashMap_valid.get_of_run hacts hbefore hk).1
      cases hnew
  · rintro ⟨hk, hspared⟩
    rw [hvalid.get_run_spared h.later_run hspared hk, hget, if_pos hk]

/-- Along a history the map is the finite map of the last puts, after every operation, if and only
if every put is harmless in the map that it meets. -/
theorem finite_map_iff (acts : List (Op K V)) :
    Runs.Along Traced.step Traced.Refines (Traced.init : Traced ops V) acts ↔
      Runs.Along Traced.step (fun s op => s.map.Harmless op) (Traced.init : Traced ops V) acts := by
  refine Runs.along_congr (C := fun _ => True)
    (I := fun s : Traced ops V => s.map.Valid ∧ ∀ k, s.map.defaultGet k = s.spec k) ?_ ?_
    ⟨createHashMap_valid, fun _ => rfl⟩ (fun _ _ => trivial)
  · rintro s op ⟨h, hget⟩ -
    exact refines_iff h hget op
  · rintro s op s' ⟨h, hget⟩ - hharmless hstep
    obtain ⟨m', hm', hrep⟩ := (refines_iff h hget op).mpr hharmless
    have hm : s.map.step op = some m' := hm'
    rw [Traced.step, hm] at hstep
    cases hstep
    exact ⟨h.step hm, hrep.get⟩

section Sample

def natKeys : KeyOps ℕ where
  hashCode := fun listSize k => k % listSize
  equal := fun k k' => k == k'
  equiv := ⟨by simp, fun k k' => Bool.beq_comm, by simp⟩
  hashCode_lt := fun _ _ h => Nat.mod_lt _ h
  hashCode_congr := by simp

theorem finite_map_iff_two_keys :
    Runs.Along Traced.step Traced.Refines (Traced.init : Traced natKeys ℕ)
      [.put 1 10, .put 4097 20, .put 1 30, .remove 1] := by
  rw [finite_map_iff]
  refine ⟨?_, fun s₁ h₁ => ?_⟩
  · intro head next e hbucket
    cases hbucket
  cases h₁
  refine ⟨?_, fun s₂ h₂ => ?_⟩
  · intro head next e hbucket hfind
    cases hfind
  cases h₂
  refine ⟨?_, fun s₃ h₃ => ?_⟩
  · intro head next e hbucket hfind hother
    cases hbucket
    cases hother
  exact ⟨trivial, fun _ _ => trivial⟩

/-- The second value of the key 4097 goes to the key 1. -/
theorem put_overwrites_other_key :
    ∃ m : HashMap natKeys ℕ,
      Runs.run step createHashMap [.put 1 10, .put 4097 20, .put 4097 30] = some m ∧
      m.defaultGet 1 = some 30 ∧ m.defaultGet 4097 = some 20 :=
  ⟨_, rfl, rfl, rfl⟩

end Sample

end NtSocks.HashMap
