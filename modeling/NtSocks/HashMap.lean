import NtSocks.Lib.KeyedList

/-!
# The hash map

A table of `listSize` buckets. The first entry of a bucket lies in the table itself and the others
are chained to it; here a bucket is the list of its entries, empty where the source has a null key.
The table is rebuilt with twice the size when it has as many entries as buckets, and with half of it
when fewer than half as many remain.
-/

namespace NtSocks

open Function

/-- The functions that a map is created with. A hash code is an index into the table for every size
of it, and equal keys have equal hash codes. -/
structure KeyOps (K : Type*) where
  hashCode : ℕ → K → ℕ
  equal : K → K → Bool
  equiv : KeyEquiv equal
  hashCode_lt : ∀ listSize k, 0 < listSize → hashCode listSize k < listSize
  hashCode_congr : ∀ listSize k k', equal k k' = true → hashCode listSize k = hashCode listSize k'

structure HashMap {K : Type*} (ops : KeyOps K) (V : Type*) where
  size : ℕ
  listSize : ℕ
  autoAssign : Bool
  list : ℕ → List (K × V)

namespace HashMap

variable {K V : Type*} {ops : KeyOps K}

def defaultHashmapSize : ℕ := 4096

def createHashMap : HashMap ops V where
  size := 0
  listSize := defaultHashmapSize
  autoAssign := true
  list := fun _ => []

variable (m : HashMap ops V) (key : K) (value : V)

def index : ℕ := ops.hashCode m.listSize key

def setBucket (i : ℕ) (bucket : List (K × V)) (size : ℕ) : HashMap ops V :=
  { m with size := size, list := update m.list i bucket }

def entries : List (K × V) := (List.range m.listSize).flatMap m.list

/-- `defaultPut` up to the growth of the table, with whether an entry was added. Where the key is
found anywhere in the bucket, the value goes into the first entry of the bucket. -/
def store : Bool × HashMap ops V :=
  match m.list (m.index key) with
  | [] => (true, m.setBucket (m.index key) [(key, value)] (m.size + 1))
  | head :: next =>
    if (head :: next).any fun e => ops.equal key e.1 then
      (false, m.setBucket (m.index key) ((head.1, value) :: next) m.size)
    else (true, m.setBucket (m.index key) (head :: (key, value) :: next) (m.size + 1))

def resetHashMap (put : HashMap ops V → K → V → Option (HashMap ops V)) (listSize : ℕ) :
    Option (HashMap ops V) :=
  if listSize < 8 then some m
  else
    (m.entries.take m.size).foldlM (fun m e => put m e.1 e.2)
      { m with size := 0, listSize := listSize, list := fun _ => [] }

/-- Storing an entry and rebuilding the table call each other; `depth` bounds the calls, and there
is no result when the bound is reached. -/
def putWithin : ℕ → HashMap ops V → K → V → Option (HashMap ops V)
  | 0, _, _, _ => none
  | depth + 1, m, key, value =>
    let (added, m') := m.store key value
    if added ∧ m'.autoAssign ∧ m'.listSize ≤ m'.size then
      m'.resetHashMap (fun m k v => putWithin depth m k v) (m'.listSize * 2)
    else some m'

def defaultPut : Option (HashMap ops V) := putWithin 2 m key value

def defaultExists : Bool := (m.list (m.index key)).any fun e => ops.equal e.1 key

def defaultGet : Option V :=
  if m.defaultExists key then
    ((m.list (m.index key)).find? fun e => ops.equal e.1 key).map Prod.snd
  else none

/-- The returned key is that of the first entry of the bucket. Removing the first entry moves the
second one into its place. -/
def defaultRemove : Option (Option K × HashMap ops V) :=
  match m.list (m.index key) with
  | [] => some (none, m)
  | head :: next =>
    if (head :: next).any fun e => ops.equal e.1 key then
      let bucket := (head :: next).eraseP fun e => ops.equal e.1 key
      let m' := m.setBucket (m.index key) bucket (m.size - 1)
      if m'.autoAssign ∧ m'.size < m'.listSize / 2 then
        (m'.resetHashMap (fun m k v => m.defaultPut k v) (m'.listSize / 2)).map
          fun m' => (some head.1, m')
      else some (some head.1, m')
    else some (some head.1, m)

def find : Option (K × V) := KeyedList.find ops.equal (m.list (m.index key)) key

theorem defaultExists_eq : m.defaultExists key = (m.find key).isSome := by
  rw [Bool.eq_iff_iff, defaultExists, find, KeyedList.find, List.find?_isSome, List.any_eq_true]

theorem defaultGet_eq : m.defaultGet key = (m.find key).map Prod.snd := by
  rw [defaultGet, defaultExists_eq]
  cases hfind : m.find key with
  | none => rfl
  | some e =>
    rw [find, KeyedList.find] at hfind
    simp [hfind]

theorem find_setBucket (i : ℕ) (bucket : List (K × V)) (size : ℕ) :
    (m.setBucket i bucket size).find key =
      if m.index key = i then KeyedList.find ops.equal bucket key else m.find key := by
  rw [find]
  change KeyedList.find ops.equal (update m.list i bucket (m.index key)) key = _
  by_cases hi : m.index key = i
  · rw [if_pos hi, hi, update_self]
  · rw [if_neg hi, update_of_ne hi]
    rfl

/-- Every entry lies in the bucket of its key, no bucket has a key twice, and `size` counts the
entries. -/
structure Sound (m : HashMap ops V) : Prop where
  pos : 0 < m.listSize
  hash : ∀ i, ∀ e ∈ m.list i, m.index e.1 = i
  distinct : ∀ i, KeyedList.Distinct ops.equal (m.list i)
  size : m.size = m.entries.length

structure Valid (m : HashMap ops V) : Prop extends Sound m where
  eight_le : 8 ≤ m.listSize
  auto : m.autoAssign = true
  room : m.size < m.listSize

theorem createHashMap_valid : (createHashMap : HashMap ops V).Valid where
  pos := Nat.succ_pos 4095
  hash := fun _ _ he => absurd he List.not_mem_nil
  distinct := fun _ => List.Pairwise.nil
  size := by simp [entries, createHashMap]
  eight_le := Nat.le_add_left 8 4088
  auto := rfl
  room := Nat.succ_pos 4095

variable {m key value} {bucket : List (K × V)}

theorem Sound.index_lt (h : m.Sound) (key : K) : m.index key < m.listSize :=
  ops.hashCode_lt m.listSize key h.pos

theorem index_congr {key key' : K} (heq : ops.equal key key' = true) :
    m.index key = m.index key' := ops.hashCode_congr m.listSize key key' heq

theorem find_congr {key key' : K} (heq : ops.equal key key' = true) : m.find key = m.find key' := by
  rw [find, find, index_congr heq, KeyedList.find_congr ops.equiv heq]

theorem find_setBucket_key {i size : ℕ} {entry : Option (K × V)} (hkey : m.index key = i)
    (hbucket : ∀ k, m.index k = i →
      KeyedList.find ops.equal bucket k = if ops.equal key k then entry else m.find k) (k : K) :
    (m.setBucket i bucket size).find k = if ops.equal key k then entry else m.find k := by
  rw [find_setBucket]
  by_cases hk : m.index k = i
  · rw [if_pos hk, hbucket k hk]
  · have hne : ¬ ops.equal key k = true := fun heq => hk ((index_congr heq).symm.trans hkey)
    rw [if_neg hk, if_neg hne]

theorem Sound.setBucket (h : m.Sound) {i n : ℕ} (hi : i < m.listSize)
    (hhash : ∀ e ∈ bucket, m.index e.1 = i) (hdistinct : KeyedList.Distinct ops.equal bucket)
    (hn : n + (m.list i).length = m.size + bucket.length) : (m.setBucket i bucket n).Sound where
  pos := h.pos
  hash := (forall_update_iff m.list fun j bucket => ∀ e ∈ bucket, m.index e.1 = j).mpr
    ⟨hhash, fun j _ => h.hash j⟩
  distinct := (forall_update_iff m.list fun _ => KeyedList.Distinct ops.equal).mpr
    ⟨hdistinct, fun j _ => h.distinct j⟩
  size := by
    have hlength := KeyedList.length_update_bucket m.list hi bucket
    have hsize := h.size
    change n = ((List.range m.listSize).flatMap (update m.list i bucket)).length
    rw [entries] at hsize
    omega

theorem Sound.insert (h : m.Sound) {pre next : List (K × V)}
    (hbucket : m.list (m.index key) = pre ++ next) (hnew : m.find key = none) (value : V) :
    (m.setBucket (m.index key) (pre ++ (key, value) :: next) (m.size + 1)).Sound ∧
      ∀ k, (m.setBucket (m.index key) (pre ++ (key, value) :: next) (m.size + 1)).find k =
        if ops.equal key k then some (key, value) else m.find k := by
  rw [find, hbucket] at hnew
  have hmem : ∀ e ∈ pre ++ (key, value) :: next, e = (key, value) ∨ e ∈ pre ++ next := by
    intro e he
    simp only [List.mem_append, List.mem_cons] at he ⊢
    tauto
  refine ⟨h.setBucket (h.index_lt key) ?_ ?_ ?_, find_setBucket_key rfl ?_⟩
  · intro e he
    rcases hmem e he with rfl | hold
    · rfl
    · exact h.hash _ e (hbucket ▸ hold)
  · exact KeyedList.Distinct.insert ops.equiv (hbucket ▸ h.distinct (m.index key)) hnew
  · rw [hbucket, List.length_append, List.length_append, List.length_cons]
    omega
  · intro k hk
    rw [KeyedList.find_insert ops.equiv pre hnew, ← hbucket, ← hk]
    rfl

theorem Sound.store_new (h : m.Sound) (hnew : m.find key = none) (value : V) :
    ∃ m', m.store key value = (true, m') ∧ m'.Sound ∧ m'.size = m.size + 1 ∧
      m'.listSize = m.listSize ∧ m'.autoAssign = m.autoAssign ∧
      ∀ k, m'.find k = if ops.equal key k then some (key, value) else m.find k := by
  cases hbucket : m.list (m.index key) with
  | nil =>
    have hempty : m.list (m.index key) = [] ++ [] := hbucket
    obtain ⟨hsound, hfind⟩ := h.insert hempty hnew value
    refine ⟨_, ?_, hsound, rfl, rfl, rfl, hfind⟩
    simp only [store, hbucket, List.nil_append]
  | cons head next =>
    have hhead : m.list (m.index key) = [head] ++ next := hbucket
    obtain ⟨hsound, hfind⟩ := h.insert hhead hnew value
    have hnone : ((head :: next).any fun e => ops.equal key e.1) = false := by
      rw [find, hbucket, KeyedList.find_eq_none_iff] at hnew
      rw [List.any_eq_false]
      intro e he
      rw [ops.equiv.symm, hnew e he]
      exact Bool.false_ne_true
    refine ⟨_, ?_, hsound, rfl, rfl, rfl, hfind⟩
    simp only [store, hbucket, hnone, Bool.false_eq_true, if_false, List.singleton_append]

end HashMap

end NtSocks
