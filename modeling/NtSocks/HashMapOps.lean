import NtSocks.HashMap

/-!
# What the operations of the hash map do

Every operation keeps the table valid. Its effect is stated through `find`, the entry that is found
for a key; rebuilding the table does not change it.
-/

namespace NtSocks.HashMap

variable {K V : Type*} {ops : KeyOps K} {m m' : HashMap ops V} {key : K} {value : V}
  {put : HashMap ops V → K → V → Option (HashMap ops V)} {next : List (K × V)} {e head : K × V}

theorem Sound.find_entries (h : m.Sound) (k : K) :
    KeyedList.find ops.equal m.entries k = m.find k :=
  KeyedList.find_buckets m.index h.hash (fun _ _ => index_congr)
    (List.mem_range.mpr (h.index_lt k))

theorem Sound.distinct_entries (h : m.Sound) : KeyedList.Distinct ops.equal m.entries :=
  KeyedList.distinct_buckets m.index h.hash (fun _ _ => index_congr) h.distinct m.listSize

theorem bucket_of_find (hfind : m.find key = some e) :
    ∃ head next, m.list (m.index key) = head :: next :=
  List.exists_cons_of_ne_nil (List.ne_nil_of_mem (KeyedList.mem_of_find hfind))

theorem Sound.find_head (h : m.Sound) (hbucket : m.list (m.index key) = head :: next) :
    m.find head.1 = some head := by
  have hindex : m.index head.1 = m.index key := h.hash _ head (hbucket ▸ List.mem_cons_self)
  rw [find, hindex, hbucket, KeyedList.find_cons, ops.equiv.refl]
  rfl

def StoresSmall (put : HashMap ops V → K → V → Option (HashMap ops V)) : Prop :=
  ∀ m key value, m.Sound → m.find key = none → m.size + 1 < m.listSize →
    put m key value = some (m.store key value).2

theorem putWithin_storesSmall (depth : ℕ) :
    StoresSmall fun (m : HashMap ops V) k v => putWithin (depth + 1) m k v := by
  intro m key value h hnew hroom
  obtain ⟨m', hstore, -, hsize, hlist, -⟩ := h.store_new hnew value
  have hfits : ¬ (m'.autoAssign = true ∧ m'.listSize ≤ m'.size) := by
    rintro ⟨-, hle⟩
    omega
  simp [putWithin, hstore, hfits]

theorem foldlM_put (hput : StoresSmall put) {es : List (K × V)}
    (hes : KeyedList.Distinct ops.equal es) (h : m.Sound) (hnew : ∀ e ∈ es, m.find e.1 = none)
    (hroom : m.size + es.length < m.listSize) :
    ∃ m', es.foldlM (fun m e => put m e.1 e.2) m = some m' ∧ m'.Sound ∧
      m'.size = m.size + es.length ∧ m'.listSize = m.listSize ∧ m'.autoAssign = m.autoAssign ∧
      ∀ k, m'.find k = (KeyedList.find ops.equal es k).or (m.find k) := by
  induction es generalizing m with
  | nil => exact ⟨m, rfl, h, rfl, rfl, rfl, fun k => (Option.none_or).symm⟩
  | cons e es ih =>
    obtain ⟨hhead, htail⟩ := List.pairwise_cons.mp hes
    have hnewe := hnew e List.mem_cons_self
    rw [List.length_cons] at hroom
    obtain ⟨m₁, hstore, h₁, hsize₁, hlist₁, hauto₁, hfind₁⟩ := h.store_new hnewe e.2
    have hput₁ : put m e.1 e.2 = some m₁ := by
      rw [hput m e.1 e.2 h hnewe (by omega), hstore]
    have hnew₁ : ∀ d ∈ es, m₁.find d.1 = none := by
      intro d hd
      rw [hfind₁, hhead d hd]
      exact hnew d (List.mem_cons_of_mem e hd)
    obtain ⟨m', hfold, h', hsize', hlist', hauto', hfind'⟩ :=
      ih htail h₁ hnew₁ (by omega)
    refine ⟨m', ?_, h', ?_, hlist'.trans hlist₁, hauto'.trans hauto₁, ?_⟩
    · rw [List.foldlM_cons, hput₁]
      exact hfold
    · rw [hsize', hsize₁, List.length_cons]
      omega
    · intro k
      rw [hfind', hfind₁, KeyedList.find_cons]
      by_cases hk : ops.equal e.1 k = true
      · -- no other entry has the key
        have hnone : KeyedList.find ops.equal es k = none := by
          rw [← KeyedList.find_congr ops.equiv hk, KeyedList.find_eq_none_iff]
          intro d hd
          rw [ops.equiv.symm]
          exact hhead d hd
        rw [hnone, if_pos hk, if_pos hk, Option.none_or, Option.some_or]
      · rw [if_neg hk, if_neg hk]

theorem Sound.resetHashMap (hput : StoresSmall put) (h : m.Sound) {n : ℕ} (hn : 8 ≤ n)
    (hroom : m.size < n) :
    ∃ m', m.resetHashMap put n = some m' ∧ m'.Sound ∧ m'.size = m.size ∧ m'.listSize = n ∧
      m'.autoAssign = m.autoAssign ∧ ∀ k, m'.find k = m.find k := by
  let start : HashMap ops V := { m with size := 0, listSize := n, list := fun _ => [] }
  have hstart : start.Sound :=
    ⟨show 0 < n by omega, fun _ _ he => absurd he List.not_mem_nil, fun _ => List.Pairwise.nil,
      by simp [entries, start]⟩
  have hlength : 0 + m.entries.length < n := by
    rw [← h.size]
    omega
  obtain ⟨m', hfold, h', hsize', hlist', hauto', hfind'⟩ :=
    foldlM_put hput h.distinct_entries hstart (fun _ _ => rfl) hlength
  refine ⟨m', ?_, h', ?_, hlist', hauto', ?_⟩
  · rw [HashMap.resetHashMap, if_neg (by omega), h.size, List.take_length]
    exact hfold
  · rw [hsize', h.size]
    exact Nat.zero_add _
  · intro k
    rw [hfind', h.find_entries]
    exact Option.or_none

theorem Valid.put_new (h : m.Valid) (hnew : m.find key = none) (value : V) :
    ∃ m', m.defaultPut key value = some m' ∧ m'.Valid ∧
      ∀ k, m'.find k = if ops.equal key k then some (key, value) else m.find k := by
  obtain ⟨m₁, hstore, h₁, hsize₁, hlist₁, hauto₁, hfind₁⟩ := h.toSound.store_new hnew value
  have height := h.eight_le
  by_cases hfull : m₁.listSize ≤ m₁.size
  · have hroom := h.room
    obtain ⟨m', hreset, h', hsize', hlist', hauto', hfind'⟩ :=
      h₁.resetHashMap (putWithin_storesSmall 0) (n := m₁.listSize * 2) (by omega) (by omega)
    refine ⟨m', ?_, ⟨h', by omega, ?_, by omega⟩, ?_⟩
    · simp only [defaultPut, putWithin, hstore, hauto₁, h.auto, hfull, and_self, if_true]
      exact hreset
    · rw [hauto', hauto₁, h.auto]
    · intro k
      rw [hfind', hfind₁]
  · refine ⟨m₁, ?_, ⟨h₁, by omega, by rw [hauto₁, h.auto], by omega⟩, hfind₁⟩
    simp [defaultPut, putWithin, hstore, hfull]

theorem Valid.put_present (h : m.Valid) (hfind : m.find key = some e)
    (hbucket : m.list (m.index key) = head :: next) (value : V) :
    ∃ m', m.defaultPut key value = some m' ∧ m'.Valid ∧
      ∀ k, m'.find k = if ops.equal head.1 k then some (head.1, value) else m.find k := by
  have hany : ((head :: next).any fun e => ops.equal key e.1) = true := by
    rw [find, hbucket] at hfind
    rw [List.any_eq_true]
    exact ⟨e, KeyedList.mem_of_find hfind, by rw [ops.equiv.symm, KeyedList.find_some_key hfind]⟩
  have hhead : m.index head.1 = m.index key :=
    h.hash _ head (hbucket ▸ List.mem_cons_self)
  have hnext : ∀ d ∈ next, d ∈ m.list (m.index key) := fun d hd =>
    hbucket ▸ List.mem_cons_of_mem head hd
  have hdistinct := h.distinct (m.index key)
  rw [hbucket, KeyedList.Distinct, List.pairwise_cons] at hdistinct
  have hsound : (m.setBucket (m.index key) ((head.1, value) :: next) m.size).Sound := by
    refine h.toSound.setBucket (h.index_lt key) ?_ (List.pairwise_cons.mpr hdistinct) ?_
    · exact List.forall_mem_cons.mpr ⟨hhead, fun d hd => h.hash _ d (hnext d hd)⟩
    · rw [hbucket, List.length_cons, List.length_cons]
  refine ⟨_, ?_, ⟨hsound, h.eight_le, h.auto, h.room⟩, find_setBucket_key hhead ?_⟩
  · simp [defaultPut, putWithin, store, hbucket, hany]
  · intro k hk
    rw [KeyedList.find_cons, find, hk, hbucket, KeyedList.find_cons]
    split <;> rfl

theorem defaultPut_storesSmall :
    StoresSmall fun (m : HashMap ops V) k v => m.defaultPut k v := putWithin_storesSmall 1

theorem Sound.eraseKey (h : m.Sound) (hpresent : (m.find key).isSome) :
    (m.setBucket (m.index key) ((m.list (m.index key)).eraseP fun e => ops.equal e.1 key)
      (m.size - 1)).Sound ∧
    ∀ k, (m.setBucket (m.index key) ((m.list (m.index key)).eraseP fun e => ops.equal e.1 key)
      (m.size - 1)).find k = if ops.equal key k then none else m.find k := by
  have hlt := h.index_lt key
  obtain ⟨e, hfind⟩ := Option.isSome_iff_exists.mp hpresent
  have hmem : e ∈ m.list (m.index key) := KeyedList.mem_of_find hfind
  have hlength := List.length_eraseP_of_mem (p := fun e : K × V => ops.equal e.1 key) hmem
    (KeyedList.find_some_key hfind)
  have hpos := List.length_pos_of_mem hmem
  have hsize : 0 < m.size := by
    rw [h.size]
    exact List.length_pos_of_mem
      (List.mem_flatMap.mpr ⟨m.index key, List.mem_range.mpr hlt, hmem⟩)
  refine ⟨h.setBucket hlt ?_ ((h.distinct _).eraseP key) (by omega), find_setBucket_key rfl ?_⟩
  · intro d hd
    exact h.hash _ d (List.mem_of_mem_eraseP hd)
  · intro k hk
    rw [(h.distinct _).find_eraseP ops.equiv, find, hk]

theorem remove_absent (hnone : m.find key = none) : ∃ r, m.defaultRemove key = some (r, m) := by
  have hexists := m.defaultExists_eq key
  rw [defaultExists, hnone, Option.isSome_none] at hexists
  cases hbucket : m.list (m.index key) with
  | nil => exact ⟨none, by simp only [defaultRemove, hbucket]⟩
  | cons head next =>
    rw [hbucket] at hexists
    refine ⟨some head.1, ?_⟩
    simp only [defaultRemove, hbucket, hexists, Bool.false_eq_true, if_false]

theorem Valid.remove_present (h : m.Valid) (hpresent : (m.find key).isSome = true) :
    ∃ r m', m.defaultRemove key = some (r, m') ∧ m'.Valid ∧
      ∀ k, m'.find k = if ops.equal key k then none else m.find k := by
  have hexists := m.defaultExists_eq key
  rw [defaultExists, hpresent] at hexists
  obtain ⟨hsound, hfind⟩ := h.toSound.eraseKey hpresent
  have hroom := h.room
  have hsmaller : m.size - 1 < m.listSize := by omega
  cases hbucket : m.list (m.index key) with
  | nil =>
    rw [hbucket] at hexists
    cases hexists
  | cons head next =>
    rw [hbucket] at hexists hsound hfind
    by_cases hshrink : m.size - 1 < m.listSize / 2
    · by_cases height : m.listSize / 2 < 8
      · refine ⟨some head.1, _, ?_, ⟨hsound, h.eight_le, h.auto, hsmaller⟩, hfind⟩
        simp [defaultRemove, hbucket, hexists, resetHashMap, setBucket, h.auto, hshrink, height]
      · obtain ⟨m', hreset, h', hsize', hlist', hauto', hfind'⟩ :=
          hsound.resetHashMap defaultPut_storesSmall (n := m.listSize / 2) (by omega) hshrink
        refine ⟨some head.1, m', ?_, ⟨h', by omega, hauto'.trans h.auto, ?_⟩, ?_⟩
        · simp only [defaultRemove, hbucket, hexists, if_true]
          rw [if_pos ⟨h.auto, hshrink⟩]
          exact congrArg (Option.map fun m' => (some head.1, m')) hreset
        · rw [hsize', hlist']
          exact hshrink
        · intro k
          rw [hfind', hfind]
    · refine ⟨some head.1, _, ?_, ⟨hsound, h.eight_le, h.auto, hsmaller⟩, hfind⟩
      simp only [defaultRemove, hbucket, hexists, if_true]
      rw [if_neg fun hboth => hshrink hboth.2]

theorem Valid.remove (h : m.Valid) (key : K) :
    ∃ r m', m.defaultRemove key = some (r, m') ∧ m'.Valid ∧
      ∀ k, m'.find k = if ops.equal key k then none else m.find k := by
  by_cases hpresent : (m.find key).isSome = true
  · exact h.remove_present hpresent
  · have hnone : m.find key = none := Option.not_isSome_iff_eq_none.mp hpresent
    obtain ⟨r, hremove⟩ := remove_absent hnone
    refine ⟨r, m, hremove, h, fun k => ?_⟩
    split
    case isTrue hk => rw [← find_congr hk, hnone]
    · rfl

end NtSocks.HashMap
