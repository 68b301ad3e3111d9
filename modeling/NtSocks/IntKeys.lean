import Mathlib.Data.List.TakeWhile
import NtSocks.HashMapRefinement
import NtSocks.NtpRecv

/-!
# Integers as keys of the default hash map

A map that is created without functions of its own takes a key for the address of a C string. Where
the key is the address of a 32-bit integer, it reads the bytes of the integer, least significant
first, and goes on behind it unless one of them is zero.
-/

namespace NtSocks

/-- The address of an integer: the integer, and the bytes behind it up to a zero byte. -/
structure IntKey where
  int : UInt32
  following : List UInt8
  deriving DecidableEq, Repr

def intBytes (x : UInt32) : List UInt8 :=
  [x.toUInt8, (x >>> 8).toUInt8, (x >>> 16).toUInt8, (x >>> 24).toUInt8]

def intCut (x : UInt32) : List UInt8 := (intBytes x).takeWhile (· ≠ 0)

namespace IntKey

def cstring (key : IntKey) : List UInt8 := (intBytes key.int ++ key.following).takeWhile (· ≠ 0)

/-- One iteration of `defaultHashCode`; a `char` is signed. -/
def hashStep (h : UInt64) (c : UInt8) : UInt64 :=
  let h := (h <<< 4) + UInt64.ofInt c.toInt8.toInt
  let g := h &&& 0xF0000000
  let h := if g ≠ 0 then h ^^^ (g >>> 24) else h
  h &&& ~~~g

def defaultHashCode (listSize : ℕ) (key : IntKey) : ℕ :=
  (key.cstring.foldl hashStep 0).toNat % listSize

/-- `strcmp` is 0 for equal strings only. -/
def defaultEqual (key key' : IntKey) : Bool := key.cstring = key'.cstring

def defaultOps : KeyOps IntKey where
  hashCode := defaultHashCode
  equal := defaultEqual
  equiv := ⟨by simp [defaultEqual], by simp [defaultEqual, eq_comm],
    by simp only [defaultEqual, decide_eq_true_eq]; exact fun _ _ _ => Eq.trans⟩
  hashCode_lt := fun _ _ h => Nat.mod_lt _ h
  hashCode_congr := by
    intro listSize key key' heq
    have hstring : key.cstring = key'.cstring := by simpa [defaultEqual] using heq
    rw [defaultHashCode, defaultHashCode, hstring]

end IntKey

namespace HashMap

open IntKey (defaultOps)

variable {V : Type*}

def Op.key : Op IntKey V → IntKey
  | .put key _ => key
  | .get key => key
  | .existsKey key => key
  | .remove key => key

def Op.applyInt : Op IntKey V → (UInt32 → Option V) → UInt32 → Option V
  | .put key value, f, x => if key.int = x then some value else f x
  | .get _, f, x => f x
  | .existsKey _, f, x => f x
  | .remove key, f, x => if key.int = x then none else f x

/-- A map and the values last put for the integers. -/
structure IntTraced (V : Type*) where
  map : HashMap defaultOps V
  spec : UInt32 → Option V

def IntTraced.init : IntTraced V where
  map := createHashMap
  spec := fun _ => none

def IntTraced.step (s : IntTraced V) (op : Op IntKey V) : Option (IntTraced V) :=
  (s.map.step op).map fun m => { map := m, spec := op.applyInt s.spec }

/-- After the operation every key with an integer of `S`, whatever follows it in memory, gives the
value last put for the integer, if it was not removed since. -/
def IntTraced.KeyedByInt (S : Set UInt32) (s : IntTraced V) (op : Op IntKey V) : Prop :=
  ∃ m, s.map.step op = some m ∧ ∀ key : IntKey, key.int ∈ S →
    m.defaultGet key = op.applyInt s.spec key.int ∧
    m.defaultExists key = (op.applyInt s.spec key.int).isSome

/-- The integer has a zero byte, and no other one of `S` agrees with it in front of that byte. -/
structure Separate (S : Set UInt32) (x : UInt32) : Prop where
  zero_mem : 0 ∈ intBytes x
  eq_of_cut : ∀ y ∈ S, intCut y = intCut x → y = x

def Op.Separated (S : Set UInt32) : Op IntKey V → Prop
  | .put key _ => Separate S key.int
  | .get _ => True
  | .existsKey _ => True
  | .remove _ => True

end HashMap

namespace IntKey

variable {key : IntKey}

theorem cstring_of_zero_mem (h : 0 ∈ intBytes key.int) : key.cstring = intCut key.int := by
  rw [cstring, intCut, List.takeWhile_append, if_neg]
  intro hlength
  have hself := (List.takeWhile_prefix _).eq_of_length hlength
  rw [← hself] at h
  exact absurd (List.mem_takeWhile_imp h) (by decide)

theorem cstring_of_zero_notMem (h : 0 ∉ intBytes key.int) :
    key.cstring = intBytes key.int ++ key.following.takeWhile (· ≠ 0) := by
  rw [cstring, List.takeWhile_append_of_pos]
  intro b hb
  rw [decide_eq_true_eq]
  rintro rfl
  exact h hb

theorem length_intCut_lt {x : UInt32} (h : 0 ∈ intBytes x) : (intCut x).length < 4 := by
  refine lt_of_le_of_ne (List.takeWhile_prefix _).length_le fun hlength => ?_
  have hself : intCut x = intBytes x := (List.takeWhile_prefix _).eq_of_length hlength
  rw [← hself] at h
  exact absurd (List.mem_takeWhile_imp h) (by decide)

theorem zero_mem_of_cstring_eq {key' : IntKey} (hkey : 0 ∈ intBytes key.int)
    (heq : key.cstring = key'.cstring) : 0 ∈ intBytes key'.int := by
  by_contra hnot
  have hlength := length_intCut_lt hkey
  rw [← cstring_of_zero_mem hkey, heq, cstring_of_zero_notMem hnot, List.length_append] at hlength
  have hfour : (intBytes key'.int).length = 4 := rfl
  omega

theorem defaultEqual_iff {S : Set UInt32} {key' : IntKey} (hkey : HashMap.Separate S key.int)
    (hkey' : key'.int ∈ S) : defaultEqual key key' = true ↔ key.int = key'.int := by
  rw [defaultEqual, decide_eq_true_eq]
  constructor
  · intro heq
    have hzero := zero_mem_of_cstring_eq hkey.zero_mem heq
    rw [cstring_of_zero_mem hkey.zero_mem, cstring_of_zero_mem hzero] at heq
    exact (hkey.eq_of_cut _ hkey' heq.symm).symm
  · intro hint
    rw [cstring_of_zero_mem hkey.zero_mem, cstring_of_zero_mem (hint ▸ hkey.zero_mem), hint]

end IntKey

namespace HashMap

open IntKey (defaultOps)

variable {K V : Type*}

section Keys

variable {ops : KeyOps K} {m : HashMap ops V}

theorem Valid.put_keys (h : m.Valid) (key : K) (value : V) :
    ∃ m', m.defaultPut key value = some m' ∧ m'.Valid ∧
      (∀ k, m'.defaultExists k = (ops.equal key k || m.defaultExists k)) ∧
      ∀ k e, m'.find k = some e → e.1 = key ∨ ∃ k' e', m.find k' = some e' ∧ e'.1 = e.1 := by
  cases hfind : m.find key with
  | none =>
    obtain ⟨m', hput, h', hfind'⟩ := h.put_new hfind value
    refine ⟨m', hput, h', ?_, ?_⟩
    · intro k
      rw [defaultExists_eq, defaultExists_eq, hfind']
      cases ops.equal key k <;> rfl
    · intro k e he
      rw [hfind'] at he
      split at he
      · cases he
        exact Or.inl rfl
      · exact Or.inr ⟨k, e, he, rfl⟩
  | some e₀ =>
    obtain ⟨head, next, hbucket⟩ := bucket_of_find hfind
    obtain ⟨m', hput, h', hfind'⟩ := h.put_present hfind hbucket value
    have hhead := h.find_head hbucket
    refine ⟨m', hput, h', ?_, ?_⟩
    · intro k
      rw [defaultExists_eq, defaultExists_eq, hfind']
      by_cases hk : ops.equal head.1 k = true
      · rw [← find_congr hk, hhead]
        simp [hk]
      · by_cases hk' : ops.equal key k = true
        · rw [← find_congr hk', hfind]
          simp [hk, hk']
        · simp [hk, hk']
    · intro k e he
      rw [hfind'] at he
      split at he
      · cases he
        exact Or.inr ⟨head.1, head, hhead, rfl⟩
      · exact Or.inr ⟨k, e, he, rfl⟩

end Keys

/-- The map gives the values last put for the integers, and holds no other keys than separate
ones. -/
structure IntTraced.Inv (S : Set UInt32) (s : IntTraced V) : Prop where
  valid : s.map.Valid
  get : ∀ key : IntKey, key.int ∈ S → s.map.defaultGet key = s.spec key.int
  stored : ∀ key e, s.map.find key = some e → e.1.int ∈ S ∧ Separate S e.1.int

variable {S : Set UInt32} {s s' : IntTraced V}

namespace IntTraced

variable {op : Op IntKey V}

theorem keyedByInt_of_get {m : HashMap defaultOps V} (hstep : s.map.step op = some m)
    (hget : ∀ key : IntKey, key.int ∈ S → m.defaultGet key = op.applyInt s.spec key.int) :
    s.KeyedByInt S op :=
  ⟨m, hstep, fun key hkey => ⟨hget key hkey, by rw [defaultExists_eq_isSome, hget key hkey]⟩⟩

variable {key : IntKey}

theorem Inv.absent_of_ne (h : s.Inv S) {key' : IntKey} (hkey : key.int ∈ S) (hkey' : key'.int ∈ S)
    (hne : ¬ (defaultOps.equal key key' = true ↔ key.int = key'.int)) : s.map.find key' = none := by
  cases hfind : s.map.find key' with
  | none => rfl
  | some e =>
    obtain ⟨hmem, hsep⟩ := h.stored key' e hfind
    have hequal : defaultOps.equal e.1 key' = true := KeyedList.find_some_key hfind
    have hint : e.1.int = key'.int := (IntKey.defaultEqual_iff hsep hkey').mp hequal
    rw [hint] at hsep
    refine absurd ?_ hne
    rw [defaultOps.equiv.symm, @eq_comm _ key.int]
    exact IntKey.defaultEqual_iff hsep hkey

theorem Inv.get_remove (h : s.Inv S) (hkey : key.int ∈ S) :
    ∃ r m, s.map.defaultRemove key = some (r, m) ∧ m.Valid ∧
      (∀ k : IntKey, k.int ∈ S → m.defaultGet k = (Op.remove key).applyInt s.spec k.int) ∧
      ∀ k e, m.find k = some e → s.map.find k = some e := by
  obtain ⟨r, m, hremove, hvalid, hfind⟩ := h.valid.remove key
  refine ⟨r, m, hremove, hvalid, ?_, ?_⟩
  · intro k hk
    rw [defaultGet_eq, hfind, Op.applyInt, ← h.get k hk, defaultGet_eq]
    by_cases hiff : defaultOps.equal key k = true ↔ key.int = k.int
    · simp only [hiff]
      split <;> rfl
    · rw [h.absent_of_ne hkey hk hiff]
      simp
  · intro k e he
    rw [hfind] at he
    split at he
    · cases he
    · exact he

/-- A put can be right only for a separate integer. -/
theorem Inv.separate_of_put (h : s.Inv S) (hkey : key.int ∈ S) {value : V}
    (hright : s.KeyedByInt S (.put key value)) : Separate S key.int := by
  cases hfind : s.map.find key with
  | some e =>
    obtain ⟨-, hsep⟩ := h.stored key e hfind
    rwa [(IntKey.defaultEqual_iff hsep hkey).mp (KeyedList.find_some_key hfind)] at hsep
  | none =>
    obtain ⟨m, hput, hright⟩ := hright
    obtain ⟨m₁, hput₁, -, hfind₁⟩ := h.valid.put_new hfind value
    obtain rfl : m₁ = m := Option.some.inj (hput₁.symm.trans hput)
    have hspec : s.spec key.int = none := by rw [← h.get key hkey, defaultGet_eq, hfind]; rfl
    have hzero : 0 ∈ intBytes key.int := by
      by_contra hnot
      -- the same integer with one more byte behind it is not found
      let k : IntKey := ⟨key.int, 1 :: key.following⟩
      have hother : key.cstring ≠ k.cstring := by
        intro heq
        have hlength := congrArg List.length heq
        have hk : k.cstring = _ := IntKey.cstring_of_zero_notMem hnot
        rw [IntKey.cstring_of_zero_notMem hnot, hk] at hlength
        simp [k] at hlength
      have hequal : ¬ defaultOps.equal key k = true := by
        simpa [defaultOps, IntKey.defaultEqual] using hother
      have hget := (hright k hkey).1
      rw [defaultGet_eq, hfind₁, if_neg hequal, ← defaultGet_eq, h.get k hkey, hspec,
        Op.applyInt, if_pos rfl] at hget
      cases hget
    refine ⟨hzero, fun y hy hcut => by_contra fun hne => ?_⟩
    -- the other integer is found
    let k : IntKey := ⟨y, []⟩
    have hequal : defaultOps.equal key k = true := by
      have hk : k.cstring = intCut y := by rw [IntKey.cstring, List.append_nil]; rfl
      simp [defaultOps, IntKey.defaultEqual, hk, hcut, IntKey.cstring_of_zero_mem hzero]
    have hget := (hright k hy).1
    rw [defaultGet_eq, hfind₁, if_pos hequal, Op.applyInt, if_neg fun heq => hne heq.symm,
      ← h.get k hy, defaultGet_eq, ← find_congr hequal, hfind] at hget
    cases hget

/-- For a separate integer a put is right exactly if it is harmless. -/
theorem Inv.put_iff (h : s.Inv S) (hkey : key.int ∈ S) (hsep : Separate S key.int) (value : V) :
    s.KeyedByInt S (.put key value) ↔ s.map.Harmless (.put key value) := by
  have hequal : ∀ k : IntKey, k.int ∈ S → (defaultOps.equal key k = true ↔ key.int = k.int) :=
    fun k hk => IntKey.defaultEqual_iff hsep hk
  constructor
  · rintro ⟨m, hput, hright⟩ head next e hbucket hfind hother
    obtain ⟨m₁, hput₁, -, hget⟩ := h.valid.get_put_present hfind hbucket value
    obtain rfl : m₁ = m := Option.some.inj (hput₁.symm.trans hput)
    obtain ⟨hhead, -⟩ := h.stored head.1 head (h.valid.find_head hbucket)
    have hne : ¬ key.int = head.1.int := by
      rw [← hequal _ hhead, defaultOps.equiv.symm, hother]
      exact Bool.false_ne_true
    refine h.valid.values_of_get hfind hbucket hget ?_ ?_ hother
    · rw [(hright key hkey).1, Op.applyInt, if_pos rfl]
    · rw [(hright head.1 hhead).1, Op.applyInt, if_neg hne, h.get head.1 hhead]
  · intro hharmless
    obtain ⟨m, hput, hrep⟩ := (refines_iff h.valid (fun _ => rfl) _).mpr hharmless
    refine keyedByInt_of_get hput fun k hk => ?_
    rw [hrep.get]
    simp only [Op.apply, Op.applyInt, hequal k hk, h.get k hk]

theorem Inv.op_iff (h : s.Inv S) (hkey : op.key.int ∈ S) :
    s.KeyedByInt S op ↔ op.Separated S ∧ s.map.Harmless op := by
  cases op with
  | put key value =>
    constructor
    · intro hright
      have hsep := h.separate_of_put hkey hright
      exact ⟨hsep, (h.put_iff hkey hsep value).mp hright⟩
    · rintro ⟨hsep, hharmless⟩
      exact (h.put_iff hkey hsep value).mpr hharmless
  | get key | existsKey key => exact iff_of_true (keyedByInt_of_get rfl h.get) ⟨trivial, trivial⟩
  | remove key =>
    refine iff_of_true ?_ ⟨trivial, trivial⟩
    rw [Op.key] at hkey
    obtain ⟨r, m, hremove, -, hget, -⟩ := h.get_remove hkey
    exact keyedByInt_of_get (by rw [HashMap.step, hremove]; rfl) hget

theorem Inv.step (h : s.Inv S) (hkey : op.key.int ∈ S) (hop : op.Separated S ∧ s.map.Harmless op)
    (hstep : s.step op = some s') : s'.Inv S := by
  obtain ⟨m, hm, hright⟩ := (h.op_iff hkey).mpr hop
  rw [IntTraced.step, hm] at hstep
  cases hstep
  refine ⟨h.valid.step hm, fun key hkey => (hright key hkey).1, fun key e he => ?_⟩
  cases op with
  | put key₀ value =>
    obtain ⟨m₁, hput, -, -, hstored⟩ := h.valid.put_keys key₀ value
    obtain rfl : m₁ = m := Option.some.inj (hput.symm.trans hm)
    rcases hstored key e he with hnew | ⟨k', e', hold, heq⟩
    · rw [hnew]
      exact ⟨hkey, hop.1⟩
    · rw [← heq]
      exact h.stored k' e' hold
  | get key₀ | existsKey key₀ =>
    cases hm
    exact h.stored key e he
  | remove key₀ =>
    rw [Op.key] at hkey
    obtain ⟨r, m₁, hremove, -, -, hstored⟩ := h.get_remove hkey
    rw [HashMap.step, hremove] at hm
    cases hm
    exact h.stored key e (hstored key e he)

/-- Along a history with the integers of `S` as keys the default map is, after every operation, the
map of the values last put for the integers, if and only if every put is for an integer with a zero
byte that agrees with no other one in front of it, and is harmless in the map that it meets. -/
theorem keyedByInt_iff (S : Set UInt32) {acts : List (Op IntKey V)}
    (hkeys : ∀ op ∈ acts, op.key.int ∈ S) :
    Runs.Along IntTraced.step (KeyedByInt S) (init : IntTraced V) acts ↔
      Runs.Along IntTraced.step (fun s op => op.Separated S ∧ s.map.Harmless op)
        (init : IntTraced V) acts :=
  Runs.along_congr (I := fun s => s.Inv S) (fun _ _ h hkey => h.op_iff hkey)
    (fun _ _ _ h hkey hop hstep => h.step hkey hop hstep)
    ⟨createHashMap_valid, fun _ _ => rfl, fun _ _ he => by cases he⟩ hkeys

theorem keyedByInt_iff_small_ids :
    Runs.Along IntTraced.step (KeyedByInt {1, 2, 3}) (init : IntTraced ℕ)
      [.put ⟨1, []⟩ 10, .put ⟨2, [7]⟩ 20, .put ⟨1, [7]⟩ 30, .remove ⟨2, []⟩] := by
  have hsep : ∀ x ∈ ({1, 2, 3} : Set UInt32), Separate {1, 2, 3} x := by
    rintro x (rfl | rfl | rfl) <;> refine ⟨by decide, ?_⟩ <;> rintro y (rfl | rfl | rfl) <;>
      decide
  rw [keyedByInt_iff _ (by simp [Op.key])]
  refine ⟨⟨hsep 1 (by simp), ?_⟩, fun s₁ h₁ => ?_⟩
  · intro head next e hbucket
    cases hbucket
  cases h₁
  refine ⟨⟨hsep 2 (by simp), ?_⟩, fun s₂ h₂ => ?_⟩
  · intro head next e hbucket
    cases hbucket
  cases h₂
  refine ⟨⟨hsep 1 (by simp), ?_⟩, fun s₃ h₃ => ?_⟩
  · intro head next e hbucket hfind hother
    cases hbucket
    cases hother
  exact ⟨⟨trivial, trivial⟩, fun _ _ => trivial⟩

end IntTraced

/-- What the lookups of a proxy in its table `port2conn` give; `following` are the bytes behind the
variable with the id. -/
def lookups (m : HashMap defaultOps ConnPtr) (following : List UInt8) : Port2Conn :=
  fun connId => m.defaultGet ⟨connId, following⟩

theorem PutOnce.lookups_iff {key : IntKey} {conn : ConnPtr} {met made : HashMap defaultOps ConnPtr}
    {later : List (Op IntKey ConnPtr)} {m : HashMap defaultOps ConnPtr}
    (h : PutOnce key conn met made later m) (following : List UInt8) (connId : UInt32) :
    m.lookups following connId = some conn ↔
      (met.putTarget key).cstring = IntKey.cstring ⟨connId, following⟩ ∧
      Runs.Along step (fun m op => m.Spares (met.putTarget key) op) made later := by
  rw [lookups, h.get_iff]
  simp [defaultOps, IntKey.defaultEqual]

/-- A connection with the ports (2, 1) is found under the ports (3, 1); and one with the ports
(257, 257) is not found under these ports if the bytes behind the two copies of its id differ. -/
theorem conn_id_confused :
    (∃ m : HashMap defaultOps ℕ,
      Runs.run step createHashMap [.put ⟨createConnId 2 1, []⟩ 7] = some m ∧
      m.defaultGet ⟨createConnId 3 1, []⟩ = some 7 ∧ createConnId 3 1 ≠ createConnId 2 1) ∧
    ∃ m : HashMap defaultOps ℕ,
      Runs.run step createHashMap [.put ⟨createConnId 257 257, [1]⟩ 7] = some m ∧
      m.defaultExists ⟨createConnId 257 257, []⟩ = false := by
  refine ⟨⟨_, rfl, by decide +kernel, by decide⟩, ⟨_, rfl, by decide +kernel⟩⟩

end HashMap

end NtSocks
