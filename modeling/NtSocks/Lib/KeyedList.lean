import Mathlib.Tactic

/-!
# Lists of keyed entries

Lists of pairs of a key and a value whose keys are compared by an equivalence that need not be
equality. A list is observed through `find`, the first entry with a key; a list is distinct if no
two of its keys are equivalent. A table that spreads its entries over buckets by a function of the
key is observed through the bucket of the key.
-/

structure KeyEquiv {K : Type*} (equal : K → K → Bool) : Prop where
  refl : ∀ k, equal k k = true
  symm : ∀ k k', equal k k' = equal k' k
  trans : ∀ k₁ k₂ k₃, equal k₁ k₂ = true → equal k₂ k₃ = true → equal k₁ k₃ = true

namespace KeyEquiv

variable {K : Type*} {equal : K → K → Bool}

theorem congr_right (h : KeyEquiv equal) {k k' : K} (hk : equal k k' = true) (x : K) :
    equal x k = equal x k' := by
  rw [Bool.eq_iff_iff]
  constructor
  · intro hx
    exact h.trans x k k' hx hk
  · intro hx
    exact h.trans x k' k hx (by rw [h.symm, hk])

end KeyEquiv

namespace KeyedList

open Function

variable {K V : Type*} {equal : K → K → Bool}

def find (equal : K → K → Bool) (es : List (K × V)) (k : K) : Option (K × V) :=
  es.find? fun e => equal e.1 k

def Distinct (equal : K → K → Bool) (es : List (K × V)) : Prop :=
  es.Pairwise fun a b => equal a.1 b.1 = false

variable {es es' : List (K × V)} {e : K × V} {k k' : K}

@[simp] theorem find_nil : find equal ([] : List (K × V)) k = none := rfl

theorem find_cons : find equal (e :: es) k = if equal e.1 k then some e else find equal es k := by
  rw [find, List.find?_cons]
  cases equal e.1 k <;> rfl

theorem find_append :
    find equal (es ++ es') k = (find equal es k).or (find equal es' k) := List.find?_append

theorem find_congr (h : KeyEquiv equal) (hk : equal k k' = true) (es : List (K × V)) :
    find equal es k = find equal es k' := by
  simp only [find, h.congr_right hk]

theorem find_eq_none_iff : find equal es k = none ↔ ∀ e ∈ es, equal e.1 k = false := by
  simp [find]

theorem find_some_key (hfind : find equal es k = some e) : equal e.1 k = true := by
  rw [find] at hfind
  simpa using List.find?_some hfind

theorem mem_of_find (hfind : find equal es k = some e) : e ∈ es := List.mem_of_find?_eq_some hfind

theorem getElem_findIdx {i : ℕ} (hi : (es.findIdx? fun e => equal e.1 k) = some i) :
    es[i]? = find equal es k := by
  induction es generalizing i with
  | nil => cases hi
  | cons e es ih =>
    rw [List.findIdx?_cons] at hi
    rw [find_cons]
    by_cases hek : equal e.1 k = true
    · rw [if_pos hek] at hi ⊢
      cases hi
      rfl
    · rw [if_neg hek, Option.map_eq_some_iff] at hi
      obtain ⟨j, hj, rfl⟩ := hi
      rw [if_neg hek, ← ih hj]
      rfl

theorem exists_find {i : ℕ} (hi : (es.findIdx? fun e => equal e.1 k) = some i) :
    ∃ e, find equal es k = some e := by
  obtain ⟨hlt, -⟩ := List.findIdx?_eq_some_iff_getElem.mp hi
  exact ⟨es[i], (getElem_findIdx hi).symm.trans (List.getElem?_eq_getElem hlt)⟩

theorem find_eq_none_of_findIdx (hnone : (es.findIdx? fun e => equal e.1 k) = none) :
    find equal es k = none := by
  rw [find_eq_none_iff]
  simpa using List.findIdx?_eq_none_iff.mp hnone

theorem Distinct.find_of_mem (hdistinct : Distinct equal es) (h : KeyEquiv equal) (hmem : e ∈ es)
    (hk : equal e.1 k = true) : find equal es k = some e := by
  induction es with
  | nil => cases hmem
  | cons a es ih =>
    obtain ⟨ha, hes⟩ := List.pairwise_cons.mp hdistinct
    rw [find_cons]
    rcases List.mem_cons.mp hmem with rfl | hmem
    · rw [if_pos hk]
    · have hne : equal a.1 k = false := by
        have hae := ha e hmem
        rwa [h.congr_right hk] at hae
      rw [if_neg (by rw [hne]; exact Bool.false_ne_true)]
      exact ih hes hmem

theorem Distinct.find_eraseP (h : KeyEquiv equal) (hdistinct : Distinct equal es) (k k' : K) :
    find equal (es.eraseP fun e => equal e.1 k) k' =
      if equal k k' then none else find equal es k' := by
  induction es with
  | nil => simp
  | cons e es ih =>
    obtain ⟨hhead, htail⟩ := List.pairwise_cons.mp hdistinct
    by_cases hek : equal e.1 k = true
    · have herase : (e :: es).eraseP (fun e => equal e.1 k) = es :=
        List.eraseP_cons_of_pos (p := fun e : K × V => equal e.1 k) hek
      rw [herase]
      by_cases hkk : equal k k' = true
      · rw [if_pos hkk, find_eq_none_iff]
        intro d hd
        rw [← h.congr_right (h.trans _ _ _ hek hkk), h.symm]
        exact hhead d hd
      · have hek' : equal e.1 k' = false := by
          rw [h.symm, h.congr_right hek, h.symm]
          exact Bool.eq_false_iff.mpr hkk
        rw [if_neg hkk, find_cons, hek']
        rfl
    · have herase : (e :: es).eraseP (fun e => equal e.1 k) = e :: es.eraseP fun e => equal e.1 k :=
        List.eraseP_cons_of_neg (p := fun e : K × V => equal e.1 k) hek
      rw [herase, find_cons, find_cons, ih htail]
      by_cases hkk : equal k k' = true
      · have hek' : equal e.1 k' = false := by
          rw [← h.congr_right hkk]
          exact Bool.eq_false_iff.mpr hek
        simp [hkk, hek']
      · simp [hkk]

theorem Distinct.eraseP (hdistinct : Distinct equal es) (k : K) :
    Distinct equal (es.eraseP fun e => equal e.1 k) :=
  List.Pairwise.sublist List.eraseP_sublist hdistinct

theorem find_insert (h : KeyEquiv equal) {v : V} (pre : List (K × V))
    (hnew : find equal (pre ++ es) k = none) (k' : K) :
    find equal (pre ++ (k, v) :: es) k' =
      if equal k k' then some (k, v) else find equal (pre ++ es) k' := by
  rw [find_append, find_cons, find_append]
  by_cases hkk : equal k k' = true
  · have hpre : find equal pre k' = none := by
      rw [← find_congr h hkk]
      rw [find_append, Option.or_eq_none_iff] at hnew
      exact hnew.1
    rw [hpre, if_pos hkk, if_pos hkk, Option.none_or]
  · rw [if_neg hkk, if_neg hkk]

theorem Distinct.insert (h : KeyEquiv equal) {v : V} {pre : List (K × V)}
    (hdistinct : Distinct equal (pre ++ es)) (hnew : find equal (pre ++ es) k = none) :
    Distinct equal (pre ++ (k, v) :: es) := by
  have hno := find_eq_none_iff.mp hnew
  rw [Distinct, List.pairwise_append] at hdistinct ⊢
  obtain ⟨hpre, hes, hcross⟩ := hdistinct
  refine ⟨hpre, List.pairwise_cons.mpr ⟨?_, hes⟩, ?_⟩
  · intro e he
    rw [h.symm]
    exact hno e (List.mem_append_right pre he)
  · intro a ha b hb
    rcases List.mem_cons.mp hb with rfl | hb
    · exact hno a (List.mem_append_left es ha)
    · exact hcross a ha b hb

def assign (equal : K → K → Bool) (k : K) (v : V) : List (K × V) → List (K × V)
  | [] => []
  | e :: es => if equal e.1 k then (e.1, v) :: es else e :: assign equal k v es

theorem assign_keys (k : K) (v : V) (es : List (K × V)) :
    (assign equal k v es).map Prod.fst = es.map Prod.fst := by
  induction es with
  | nil => rfl
  | cons e es ih =>
    rw [assign]
    split
    · rfl
    · rw [List.map_cons, List.map_cons, ih]

theorem Distinct.assign (hdistinct : Distinct equal es) (k : K) (v : V) :
    Distinct equal (assign equal k v es) := by
  rw [Distinct, ← List.pairwise_map (f := Prod.fst) (R := fun a b => equal a b = false)] at *
  rw [assign_keys]
  exact hdistinct

theorem exists_perm_of_find (hfind : find equal es k = some e) :
    ∃ rest, es.Perm (e :: rest) ∧ (es.eraseP fun e => equal e.1 k) = rest ∧
      ∀ v, (assign equal k v es).Perm ((e.1, v) :: rest) := by
  induction es with
  | nil => cases hfind
  | cons a es ih =>
    rw [find_cons] at hfind
    by_cases hak : equal a.1 k = true
    · rw [if_pos hak] at hfind
      cases hfind
      refine ⟨es, .refl _, List.eraseP_cons_of_pos (p := fun e : K × V => equal e.1 k) hak, ?_⟩
      intro v
      rw [KeyedList.assign, if_pos hak]
    · rw [if_neg hak] at hfind
      obtain ⟨rest, hperm, herase, hassign⟩ := ih hfind
      refine ⟨a :: rest, (hperm.cons a).trans (.swap e a rest), ?_, ?_⟩
      · rw [List.eraseP_cons_of_neg (p := fun e : K × V => equal e.1 k) hak, herase]
      · intro v
        rw [KeyedList.assign, if_neg hak]
        exact ((hassign v).cons a).trans (.swap _ a rest)

section Buckets

theorem exists_perm_buckets {α : Type*} (bucket : ℕ → List α) {n i : ℕ} (hi : i < n) :
    ∃ rest, ((List.range n).flatMap bucket).Perm (bucket i ++ rest) ∧
      ∀ b, ((List.range n).flatMap (update bucket i b)).Perm (b ++ rest) := by
  have hrange : (List.range n).Perm (i :: (List.range n).erase i) :=
    List.perm_cons_erase (List.mem_range.mpr hi)
  refine ⟨((List.range n).erase i).flatMap bucket, ?_, fun b => ?_⟩
  · exact hrange.flatMap_right bucket
  · refine (hrange.flatMap_right _).trans ?_
    rw [List.flatMap_cons, update_self]
    refine List.Perm.append_left b (List.Perm.of_eq (List.flatMap_congr fun j hj => ?_))
    rw [update_of_ne ((List.Nodup.mem_erase_iff List.nodup_range).mp hj).1]

variable {bucket : ℕ → List (K × V)} (code : K → ℕ)

theorem find_buckets (hcode : ∀ i, ∀ e ∈ bucket i, code e.1 = i)
    (hcongr : ∀ k k', equal k k' = true → code k = code k') {is : List ℕ} (hk : code k ∈ is) :
    find equal (is.flatMap bucket) k = find equal (bucket (code k)) k := by
  have hother : ∀ i, i ≠ code k → find equal (bucket i) k = none := by
    intro i hi
    rw [find_eq_none_iff]
    intro e he
    by_contra hne
    have hcode' := hcongr e.1 k (by simpa using hne)
    exact hi ((hcode i e he).symm.trans hcode')
  have hall : ∀ is : List ℕ, find equal (is.flatMap bucket) k =
      if code k ∈ is then find equal (bucket (code k)) k else none := by
    intro is
    induction is with
    | nil => rfl
    | cons i is ih =>
      rw [List.flatMap_cons, find_append, ih]
      by_cases hi : i = code k
      · subst hi
        simp only [List.mem_cons_self, if_true]
        split
        · exact Option.or_self
        · exact Option.or_none
      · rw [hother i hi, Option.none_or]
        simp [Ne.symm hi]
  rw [hall, if_pos hk]

theorem distinct_buckets (hcode : ∀ i, ∀ e ∈ bucket i, code e.1 = i)
    (hcongr : ∀ k k', equal k k' = true → code k = code k')
    (hdistinct : ∀ i, Distinct equal (bucket i)) (n : ℕ) :
    Distinct equal ((List.range n).flatMap bucket) := by
  rw [Distinct, List.pairwise_flatMap]
  refine ⟨fun i _ => hdistinct i, ?_⟩
  refine List.Pairwise.imp ?_ List.nodup_range
  intro i j hij a ha b hb
  by_contra hne
  have hcode' := hcongr a.1 b.1 (by simpa using hne)
  exact hij ((hcode i a ha).symm.trans (hcode'.trans (hcode j b hb)))

theorem length_update_bucket (bucket : ℕ → List (K × V)) {n i : ℕ} (hi : i < n) (b : List (K × V)) :
    ((List.range n).flatMap (update bucket i b)).length + (bucket i).length =
      ((List.range n).flatMap bucket).length + b.length := by
  have hbelow : ∀ n ≤ i, (List.range n).flatMap (update bucket i b) =
      (List.range n).flatMap bucket := by
    intro n hn
    refine List.flatMap_congr fun j hj => ?_
    have hlt := List.mem_range.mp hj
    rw [update_of_ne (by omega)]
  induction n with
  | zero => omega
  | succ n ih =>
    simp only [List.range_succ, List.flatMap_append, List.flatMap_singleton, List.length_append]
    by_cases hn : i = n
    · subst hn
      rw [hbelow i le_rfl, update_self]
      omega
    · have := ih (by omega)
      rw [update_of_ne (Ne.symm hn)]
      omega

end Buckets

end KeyedList
