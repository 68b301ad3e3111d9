import NtSocks.IntKeys

/-!
# Routing of descriptors

The library stands in for the socket calls of a process. A call on a descriptor goes to the library
if the number is in `fd_table`, and to the real system call otherwise. The wrappers of `socket` and
`accept` enter the descriptors that the library returns; no wrapper takes one out, and the table
compares numbers as C strings.

`opened` and `isOpen` are histories, read by no step.
-/

namespace NtSocks.Nts

open Function

open IntKey (defaultOps)

def afInet : ℤ := 2

def sockStream : ℤ := 1

def sockDgram : ℤ := 2

def fdHashmapSize : ℕ := 65536

/-- The values of the table are null. -/
abbrev FdTable := HashMap defaultOps Unit

def initFdTable : Option FdTable :=
  HashMap.createHashMap.resetHashMap (fun m k v => m.defaultPut k v) fdHashmapSize

/-- `opened` has the descriptors that were entered into the table, with the memory behind their
copies; `isOpen` tells which numbers were returned for a socket of the library and not closed
since. -/
structure FdState where
  fdTable : FdTable
  opened : List IntKey
  isOpen : UInt32 → Bool

inductive FdCall
  | socket (domain type : ℤ) (fd : IntKey)
  | accept (sockfd fd : IntKey)
  | close (sockfd : IntKey)
  deriving DecidableEq, Repr

inductive Target
  | nts
  | real
  deriving DecidableEq, Repr

namespace FdState

variable (s : FdState)

def ntsFdisused (fd : IntKey) : Bool := s.fdTable.defaultExists fd

def route (sockfd : IntKey) : Target := if s.ntsFdisused sockfd then .nts else .real

def ntsFdRemap (fd : IntKey) : Option FdState :=
  (s.fdTable.defaultPut fd ()).map fun table =>
    { fdTable := table, opened := fd :: s.opened, isOpen := update s.isOpen fd.int true }

def init : Option FdState :=
  initFdTable.map fun table => { fdTable := table, opened := [], isOpen := fun _ => false }

def returned (fd : IntKey) : Option FdState :=
  if 0 ≤ fd.int.toInt32 then s.ntsFdRemap fd else some s

def step : FdCall → Option FdState
  | .socket domain type fd =>
    if domain ≠ afInet ∨ (type ≠ sockStream ∧ type ≠ sockDgram) then some s else s.returned fd
  | .accept sockfd fd =>
    match s.route sockfd with
    | .nts => s.returned fd
    | .real => some s
  | .close sockfd => some { s with isOpen := update s.isOpen sockfd.int false }

/-- Calls on the numbers of `D` reach the library exactly where the number is that of an open
socket of the library. -/
def Exact (D : Set UInt32) : Prop :=
  ∀ fd : IntKey, fd.int ∈ D → s.route fd = if s.isOpen fd.int then .nts else .real

/-- Nothing was closed, and no number of `D` looks like an open descriptor without being one. -/
structure Kept (D : Set UInt32) : Prop where
  isOpen : ∀ k ∈ s.opened, s.isOpen k.int = true
  zero_mem : ∀ k ∈ s.opened, 0 ∈ intBytes k.int
  twins : ∀ k ∈ s.opened, ∀ y ∈ D, 0 ∈ intBytes y → intCut y = intCut k.int → s.isOpen y = true

structure Inv (D : Set UInt32) : Prop where
  valid : s.fdTable.Valid
  exists_eq : ∀ fd, s.ntsFdisused fd = s.opened.any fun k => IntKey.defaultEqual k fd
  opened : ∀ x, s.isOpen x = true → ∃ k ∈ s.opened, k.int = x
  mem : ∀ k ∈ s.opened, k.int ∈ D

end FdState

def FdCall.Within (D : Set UInt32) : FdCall → Prop
  | .socket _ _ fd => fd.int ∈ D
  | .accept _ fd => fd.int ∈ D
  | .close _ => True

theorem initFdTable_valid : ∃ t, initFdTable = some t ∧ t.Valid ∧ ∀ k, t.find k = none := by
  have hstart : (HashMap.createHashMap : FdTable).Sound := HashMap.createHashMap_valid.toSound
  obtain ⟨t, ht, hsound, hsize, hlist, hauto, hfind⟩ :=
    hstart.resetHashMap HashMap.defaultPut_storesSmall (n := fdHashmapSize) (by decide) (by decide)
  have height : 8 ≤ t.listSize := by
    rw [hlist]
    decide
  have hroom : t.size < t.listSize := by
    rw [hsize, hlist]
    decide
  exact ⟨t, ht, ⟨hsound, height, hauto, hroom⟩, hfind⟩

theorem intCut_of_lt {x : UInt32} (hpos : 0 < x) (hlt : x < 256) : intCut x = [x.toUInt8] := by
  rw [UInt32.lt_iff_toNat_lt] at hpos hlt
  have hbyte : x.toUInt8 ≠ 0 := by
    intro hzero
    have hnat := congrArg UInt8.toNat hzero
    simp at hnat hpos hlt
    omega
  have hnext : (x >>> 8).toUInt8 = 0 := by
    apply UInt8.toNat_inj.mp
    simp [Nat.shiftRight_eq_div_pow] at hlt ⊢
    omega
  simp [intCut, intBytes, hbyte, hnext]

theorem exists_unseen (x : UInt32) (hx : 0 ∉ intBytes x) (ks : List IntKey) :
    ∃ fd : IntKey, fd.int = x ∧ ∀ k ∈ ks, k.cstring ≠ fd.cstring := by
  let longest := (ks.map fun k => k.cstring.length).sum
  have hstays : (List.replicate longest (1 : UInt8)).takeWhile (· ≠ 0) =
      List.replicate longest 1 := by
    rw [List.takeWhile_eq_self_iff]
    intro b hb
    rw [List.eq_of_mem_replicate hb]
    decide
  refine ⟨⟨x, List.replicate longest 1⟩, rfl, ?_⟩
  intro k hk heq
  have hle : k.cstring.length ≤ longest :=
    List.single_le_sum (fun _ _ => Nat.zero_le _) _ (List.mem_map_of_mem hk)
  have hlength : k.cstring.length = 4 + longest := by
    rw [heq, IntKey.cstring_of_zero_notMem hx, hstays, List.length_append, List.length_replicate]
    rfl
  omega

namespace FdState

variable {s s' : FdState} {D : Set UInt32}

theorem exists_init : ∃ s, init = some s ∧ s.Inv D := by
  obtain ⟨t, ht, hvalid, hfind⟩ := initFdTable_valid
  refine ⟨{ fdTable := t, opened := [], isOpen := fun _ => false }, by rw [init, ht]; rfl, hvalid,
    fun fd => ?_, nofun, nofun⟩
  rw [ntsFdisused, HashMap.defaultExists_eq, hfind]
  rfl

theorem Inv.exists_returned (h : s.Inv D) {fd : IntKey} (hfd : fd.int ∈ D) :
    ∃ s', s.returned fd = some s' ∧ s'.Inv D := by
  unfold returned
  split
  · obtain ⟨t, hput, hvalid, hexists, -⟩ := h.valid.put_keys fd ()
    refine ⟨_, by rw [ntsFdRemap, hput]; rfl, hvalid, fun k => ?_, fun x hx => ?_, fun k hk => ?_⟩
    · have hold : s.fdTable.defaultExists k = _ := h.exists_eq k
      change t.defaultExists k = _
      rw [hexists, hold]
      rfl
    · by_cases hsame : x = fd.int
      · exact ⟨fd, List.mem_cons_self, hsame.symm⟩
      · have hopen : s.isOpen x = true := by
          rw [← hx]
          exact (update_of_ne hsame _ _).symm
        obtain ⟨k, hk, hkx⟩ := h.opened x hopen
        exact ⟨k, List.mem_cons_of_mem fd hk, hkx⟩
    · rcases List.mem_cons.mp hk with rfl | hk
      · exact hfd
      · exact h.mem k hk
  · exact ⟨s, rfl, h⟩

theorem Inv.exists_step (h : s.Inv D) {call : FdCall} (hcall : call.Within D) :
    ∃ s', s.step call = some s' ∧ s'.Inv D := by
  cases call with
  | socket domain type fd =>
    simp only [step]
    split
    · exact ⟨s, rfl, h⟩
    · exact h.exists_returned hcall
  | accept sockfd fd =>
    simp only [step]
    cases s.route sockfd with
    | nts => exact h.exists_returned hcall
    | real => exact ⟨s, rfl, h⟩
  | close sockfd =>
    refine ⟨_, rfl, h.valid, h.exists_eq, ?_, h.mem⟩
    exact (forall_update_iff s.isOpen fun x isOpen => isOpen = true → ∃ fd ∈ s.opened,
      fd.int = x).mpr ⟨nofun, fun x _ => h.opened x⟩

theorem route_eq_nts_iff (h : s.Inv D) (fd : IntKey) :
    s.route fd = .nts ↔ ∃ k ∈ s.opened, k.cstring = fd.cstring := by
  rw [route, h.exists_eq, List.any_eq]
  simp [IntKey.defaultEqual]

theorem Inv.kept_of_exact (h : s.Inv D) (hexact : s.Exact D) : s.Kept D := by
  have hfound : ∀ k ∈ s.opened, ∀ fd : IntKey, fd.int ∈ D → k.cstring = fd.cstring →
      s.isOpen fd.int = true := by
    intro k hk fd hfd heq
    have hroute := hexact fd hfd
    rw [(route_eq_nts_iff h fd).mpr ⟨k, hk, heq⟩] at hroute
    by_contra hclosed
    rw [if_neg hclosed] at hroute
    cases hroute
  have hopen : ∀ k ∈ s.opened, s.isOpen k.int = true := fun k hk =>
    hfound k hk k (h.mem k hk) rfl
  have hzero : ∀ k ∈ s.opened, 0 ∈ intBytes k.int := by
    intro k hk
    by_contra hnot
    obtain ⟨fd, hint, hunseen⟩ := exists_unseen k.int hnot s.opened
    have hroute := hexact fd (hint ▸ h.mem k hk)
    rw [hint, if_pos (hopen k hk), route_eq_nts_iff h] at hroute
    obtain ⟨k', hk', heq⟩ := hroute
    exact hunseen k' hk' heq
  refine ⟨hopen, hzero, ?_⟩
  intro k hk y hy hyzero hcut
  refine hfound k hk ⟨y, []⟩ hy ?_
  rw [IntKey.cstring_of_zero_mem (hzero k hk), IntKey.cstring_of_zero_mem hyzero, hcut]

theorem Inv.exact_of_kept (h : s.Inv D) (hkept : s.Kept D) : s.Exact D := by
  intro fd hfd
  split
  case isTrue hopen =>
    obtain ⟨k, hk, hint⟩ := h.opened fd.int hopen
    have hzero := hkept.zero_mem k hk
    refine (route_eq_nts_iff h fd).mpr ⟨k, hk, ?_⟩
    rw [IntKey.cstring_of_zero_mem hzero, IntKey.cstring_of_zero_mem (hint ▸ hzero), hint]
  case isFalse hclosed =>
    by_contra hroute
    have hnts : s.route fd = .nts := by
      cases hr : s.route fd with
      | nts => rfl
      | real => exact absurd hr hroute
    obtain ⟨k, hk, heq⟩ := (route_eq_nts_iff h fd).mp hnts
    have hzero := hkept.zero_mem k hk
    have hfdzero := IntKey.zero_mem_of_cstring_eq hzero heq
    rw [IntKey.cstring_of_zero_mem hzero, IntKey.cstring_of_zero_mem hfdzero] at heq
    exact hclosed (hkept.twins k hk fd.int hfd hfdzero heq.symm)

/-- After every history, the descriptors that reach the library are the open ones exactly if none of
them was ever closed and none has a twin, a number with the same bytes in front of the first zero
byte. -/
theorem routes_exactly_iff (D : Set UInt32) (calls : List FdCall)
    (hcalls : ∀ call ∈ calls, call.Within D) :
    ∃ s, init.bind (fun s => Runs.run step s calls) = some s ∧ (s.Exact D ↔ s.Kept D) := by
  obtain ⟨s₀, hinit, hinv₀⟩ := exists_init (D := D)
  obtain ⟨s, hrun, hinv⟩ := Runs.exists_run (P := FdCall.Within D)
    (fun _ _ hinv hcall => Inv.exists_step hinv hcall) hinv₀ hcalls
  refine ⟨s, ?_, hinv.kept_of_exact, hinv.exact_of_kept⟩
  rw [hinit]
  exact hrun

theorem routes_exactly_open_socket :
    ∃ s, init.bind (fun s => Runs.run step s [.socket afInet sockStream ⟨5, []⟩]) = some s ∧
      s.Exact { x | 0 < x ∧ x < 256 } := by
  obtain ⟨s, hrun, hiff⟩ := routes_exactly_iff { x | 0 < x ∧ x < 256 }
    [.socket afInet sockStream ⟨5, []⟩] (by simp [FdCall.Within])
  refine ⟨s, hrun, hiff.mpr ?_⟩
  cases hrun
  refine ⟨?_, ?_, ?_⟩
  · intro k hk
    obtain rfl := List.mem_singleton.mp hk
    rfl
  · intro k hk
    obtain rfl := List.mem_singleton.mp hk
    decide
  · rintro k hk y ⟨hpos, hlt⟩ - hcut
    obtain rfl := List.mem_singleton.mp hk
    obtain rfl : y = 5 := by
      rw [intCut_of_lt hpos hlt, intCut_of_lt (by decide) (by decide), List.cons.injEq] at hcut
      have hbyte := congrArg UInt8.toNat hcut.1
      rw [UInt32.toNat_toUInt8] at hbyte
      rw [UInt32.lt_iff_toNat_lt] at hlt
      apply UInt32.toNat_inj.mp
      simp at hbyte hlt ⊢
      omega
    rfl

/-- The descriptor 5 is closed, and calls on the number still reach the library. -/
theorem closed_descriptor_reaches_library :
    ∃ s, init.bind (fun s => Runs.run step s
        [.socket afInet sockStream ⟨5, []⟩, .close ⟨5, []⟩]) = some s ∧
      s.isOpen 5 = false ∧ s.route ⟨5, []⟩ = .nts :=
  ⟨_, rfl, rfl, by decide +kernel⟩

end FdState

end NtSocks.Nts
