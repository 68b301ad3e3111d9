import NtSocks.HashMapIterator
import NtSocks.IntKeys

/-!
# Cleaning up the maps of the epoll instances

`nts_close_epoll_socket`, where the monitor did not answer as expected, and `nts_context_destroy` go
through a map with an iterator and remove each entry while they are at it. A value is the address of
a socket or of an epoll instance; its key is the address of the id in it.
-/

namespace NtSocks.Nts

open Function

/-- The iterator is at an entry that was freed or emptied; an instance is used after it was
released; or the loop does not end. -/
inductive CleanupFault
  | staleEntry
  | releasedContext
  | endless
  deriving DecidableEq, Repr

structure EpollFields where
  epoll : UInt32
  epData : UInt64
  events : UInt32
  deriving DecidableEq, Repr

def ntsEpollNone : UInt32 := 0

section Loops

variable {K ι S : Type*} {ops : KeyOps K}

def cleanup (idOf : ι → K) (visit : S → ι → Except CleanupFault S) :
    ℕ → EntryMap ops ι → HashMapIterator → S → Except CleanupFault (EntryMap ops ι × S)
  | 0, _, _, _ => .error .endless
  | fuel + 1, m, iter, s =>
    if m.hasNextHashMapIterator iter then
      match m.nextHashMapIterator iter with
      | none => .error .staleEntry
      | some iter =>
        match m.current iter with
        | none => .error .staleEntry
        | some (_, value) =>
          (visit s value).bind fun s =>
            match m.defaultRemove (idOf value) with
            | none => .error .endless
            | some (_, m) => cleanup idOf visit fuel m iter s
    else .ok (m, s)

variable [DecidableEq ι]

def resetSocket (sockets : ι → EpollFields) (sock : ι) : Except CleanupFault (ι → EpollFields) :=
  .ok (update sockets sock { epoll := ntsEpollNone, epData := 0, events := 0 })

def releaseContext (released : ι → Bool) (epollCtx : ι) : Except CleanupFault (ι → Bool) :=
  if released epollCtx then .error .releasedContext
  else .ok (update released epollCtx true)

def closeEpollSockets (idOf : ι → K) (m : EntryMap ops ι) (sockets : ι → EpollFields) :
    Except CleanupFault (EntryMap ops ι × (ι → EpollFields)) :=
  cleanup idOf resetSocket (m.size + 1) m createHashMapIterator sockets

def destroyEpollContexts (idOf : ι → K) (m : EntryMap ops ι) (released : ι → Bool) :
    Except CleanupFault (EntryMap ops ι × (ι → Bool)) :=
  cleanup idOf releaseContext (m.size + 1) m createHashMapIterator released

end Loops

section Reached

variable {K ι S : Type*} {ops : KeyOps K} {idOf : ι → K} {m m' : EntryMap ops ι}

structure Registered (idOf : ι → K) (m : EntryMap ops ι) : Prop where
  valid : m.Valid
  keyed : ∀ e ∈ m.entries, ops.equal e.1 (idOf e.2) = true

theorem Registered.remove (h : Registered idOf m) {e : K × ι} (he : e ∈ m.entries) :
    ∃ r m', m.defaultRemove (idOf e.2) = some (r, m') ∧ Registered idOf m' ∧
      m'.size + 1 = m.size ∧ ∀ d ∈ m'.entries, d ∈ m.entries ∧ d.2 ≠ e.2 := by
  have hsound := h.valid.wellFormed.sound
  have hfind : m.find (idOf e.2) = some e := by
    rw [← HashMap.find_congr (h.keyed e he)]
    exact hsound.mem_entries_iff.mp he
  obtain ⟨r, m', hremove, hvalid', hsize, hfind'⟩ := h.valid.remove (Option.isSome_of_eq_some hfind)
  have hkept : ∀ d ∈ m'.entries, d ∈ m.entries ∧ ¬ ops.equal (idOf e.2) d.1 = true := by
    intro d hd
    have hfound := hvalid'.wellFormed.sound.mem_entries_iff.mp hd
    rw [hfind'] at hfound
    split at hfound
    · cases hfound
    · rename_i hne
      exact ⟨hsound.mem_entries_iff.mpr hfound, hne⟩
  refine ⟨r, m', hremove, ⟨hvalid', fun d hd => h.keyed d (hkept d hd).1⟩, hsize, ?_⟩
  intro d hd
  obtain ⟨hmem, hne⟩ := hkept d hd
  refine ⟨hmem, fun heq => hne ?_⟩
  rw [← heq, ops.equiv.symm]
  exact h.keyed d hmem

/-- What a visit does: it succeeds on a value that was not visited, and concerns no other one. -/
def Marks (visit : S → ι → Except CleanupFault S) (Untouched : S → ι → Prop) : Prop :=
  ∀ s v, Untouched s v → ∃ s', visit s v = .ok s' ∧ ∀ w, w ≠ v → Untouched s w → Untouched s' w

variable {visit : S → ι → Except CleanupFault S} {Untouched : S → ι → Prop} {iter : HashMapIterator}
  {s s' : S} {fuel : ℕ}

inductive Iteration (idOf : ι → K) (visit : S → ι → Except CleanupFault S)
    (Untouched : S → ι → Prop) (fuel : ℕ) (m : EntryMap ops ι) (iter : HashMapIterator) (s : S) :
    Prop
  | ended (hmore : ¬ iter.count < m.size)
      (hloop : cleanup idOf visit (fuel + 1) m iter s = .ok (m, s))
  | stale (hstale : ∀ iter', m.nextHashMapIterator iter = some iter' → m.current iter' = none)
      (hloop : cleanup idOf visit (fuel + 1) m iter s = .error .staleEntry)
  | visited (hmore : iter.count < m.size) {iter' : HashMapIterator} {e : K × ι}
      {m' : EntryMap ops ι} {s' : S} (hnext : m.nextHashMapIterator iter = some iter')
      (hcurrent : m.current iter' = some e) (hmem : e ∈ m.entries)
      (hvisit : visit s e.2 = .ok s')
      (hregistered : Registered idOf m') (hsize : m'.size + 1 = m.size)
      (hrest : ∀ d ∈ m'.entries, d ∈ m.entries)
      (huntouched : ∀ d ∈ m'.entries, Untouched s' d.2)
      (hloop : cleanup idOf visit (fuel + 1) m iter s = cleanup idOf visit fuel m' iter' s')

theorem cleanup_of_not_lt (hmore : ¬ iter.count < m.size) :
    cleanup idOf visit (fuel + 1) m iter s = .ok (m, s) := by
  have hhas : ¬ m.hasNextHashMapIterator iter = true := by
    rw [EntryMap.hasNextHashMapIterator, decide_eq_true_iff]
    exact hmore
  rw [cleanup, if_neg hhas]

section Cleanup

variable (h : Registered idOf m) (hmarks : Marks visit Untouched)
  (hs : ∀ e ∈ m.entries, Untouched s e.2)
include h hmarks hs

theorem Registered.iteration (fuel : ℕ) (iter : HashMapIterator) :
    Iteration idOf visit Untouched fuel m iter s := by
  by_cases hmore : iter.count < m.size
  · have hhas : m.hasNextHashMapIterator iter = true := decide_eq_true hmore
    cases hnext : m.nextHashMapIterator iter with
    | none =>
      refine .stale (fun iter' hiter => absurd (hnext.symm.trans hiter) (by simp)) ?_
      rw [cleanup, if_pos hhas, hnext]
    | some iter' =>
      cases hcurrent : m.current iter' with
      | none =>
        refine .stale ?_ ?_
        · intro it hit
          rw [hnext] at hit
          cases hit
          exact hcurrent
        · rw [cleanup, if_pos hhas, hnext]
          dsimp only
          rw [hcurrent]
      | some e =>
        have hmem := h.valid.wellFormed.mem_of_current hcurrent
        obtain ⟨s', hvisit, hothers⟩ := hmarks s e.2 (hs e hmem)
        obtain ⟨r, m', hremove, hregistered, hsize, hrest⟩ := h.remove hmem
        refine .visited hmore hnext hcurrent hmem hvisit hregistered hsize
          (fun d hd => (hrest d hd).1)
          (fun d hd => hothers d.2 (hrest d hd).2 (hs d (hrest d hd).1)) ?_
        rw [cleanup, if_pos hhas, hnext]
        dsimp only
        rw [hcurrent]
        dsimp only
        rw [hvisit]
        dsimp only [Except.bind]
        rw [hremove]
  · exact .ended hmore (cleanup_of_not_lt hmore)

theorem Registered.cleanup_ends (hfuel : m.size < fuel) {fault : CleanupFault}
    (hloop : cleanup idOf visit fuel m iter s = .error fault) : fault = .staleEntry := by
  induction fuel generalizing m iter s with
  | zero => omega
  | succ fuel ih =>
    rcases h.iteration hmarks hs fuel iter with
      ⟨-, hstep⟩ | ⟨-, hstep⟩ | ⟨-, -, -, -, -, hregistered, hsize, -, huntouched, hstep⟩
    · rw [hstep] at hloop
      cases hloop
    · rw [hstep] at hloop
      cases hloop
      rfl
    · rw [hstep] at hloop
      exact ih hregistered huntouched (by omega) hloop

/-- Once a value was counted, the loop ends with a value that was not visited: the count never comes
back, and every removal takes one from the size. -/
theorem Registered.exists_untouched (hcount : 1 ≤ iter.count) (hpos : 0 < m.size)
    (hloop : cleanup idOf visit fuel m iter s = .ok (m', s')) :
    ∃ e ∈ m.entries, Untouched s' e.2 := by
  induction fuel generalizing m iter s with
  | zero => cases hloop
  | succ fuel ih =>
    rcases h.iteration hmarks hs fuel iter with
      ⟨-, hstep⟩ | ⟨-, hstep⟩ |
        ⟨hmore, hnext, -, -, -, hregistered, hsize, hrest, huntouched, hstep⟩
    · rw [hstep] at hloop
      cases hloop
      rw [h.valid.valid.size] at hpos
      obtain ⟨e, he⟩ := List.exists_mem_of_length_pos hpos
      exact ⟨e, he, hs e he⟩
    · rw [hstep] at hloop
      cases hloop
    · rw [hstep] at hloop
      have hle := EntryMap.count_le_of_next hnext
      obtain ⟨e, he, hresult⟩ :=
        ih hregistered huntouched (by omega) (by omega) hloop
      exact ⟨e, hrest e he, hresult⟩

theorem Registered.exists_untouched_of_two (htwo : 2 ≤ m.size)
    (hloop : cleanup idOf visit fuel m createHashMapIterator s = .ok (m', s')) :
    ∃ e ∈ m.entries, Untouched s' e.2 := by
  obtain ⟨first, -, hfirst, hcount, -⟩ := h.valid.wellFormed.next_start (by omega : 0 < m.size)
  cases fuel with
  | zero => cases hloop
  | succ fuel =>
    rcases h.iteration hmarks hs fuel createHashMapIterator with
      ⟨hmore, -⟩ | ⟨-, hstep⟩ | ⟨-, hnext, -, -, -, hregistered, hsize, hrest, huntouched, hstep⟩
    · exact absurd (by omega : 0 < m.size) hmore
    · rw [hstep] at hloop
      cases hloop
    · rw [hfirst] at hnext
      cases hnext
      rw [hstep] at hloop
      obtain ⟨e, he, hresult⟩ :=
        hregistered.exists_untouched hmarks huntouched (by omega) (by omega) hloop
      exact ⟨e, hrest e he, hresult⟩

theorem Registered.cleanup_of_le_one (hone : m.size ≤ 1) :
    ∃ m' s', cleanup idOf visit (m.size + 1) m createHashMapIterator s = .ok (m', s') ∧
      ∀ e ∈ m.entries, visit s e.2 = .ok s' := by
  rcases h.iteration hmarks hs m.size createHashMapIterator with
    ⟨hmore, hloop⟩ | ⟨hstale, -⟩ |
      ⟨hmore, -, -, hmem, hvisit, -, hsize, -, -, hloop⟩
  · have hempty : m.entries = [] := by
      rw [← List.length_eq_zero_iff, ← h.valid.valid.size]
      exact Nat.le_zero.mp (not_lt.mp hmore)
    refine ⟨m, s, hloop, ?_⟩
    rw [hempty]
    exact fun e he => absurd he List.not_mem_nil
  · by_cases hpos : 0 < m.size
    · -- the first entry is always found
      obtain ⟨first, e, hfirst, -, hcurrent⟩ := h.valid.wellFormed.next_start hpos
      rw [hstale first hfirst] at hcurrent
      cases hcurrent
    · refine ⟨m, s, cleanup_of_not_lt hpos, ?_⟩
      intro e he
      rw [h.valid.valid.size] at hpos
      exact absurd (List.length_pos_of_mem he) hpos
  · have hlast : m.size = 0 + 1 := by
      have hlt : 0 < m.size := hmore
      omega
    rw [hlast] at hloop ⊢
    refine ⟨_, _, hloop.trans (cleanup_of_not_lt (by omega)), ?_⟩
    rw [h.valid.valid.size, List.length_eq_one_iff] at hlast
    obtain ⟨only, honly⟩ := hlast
    rw [honly] at hmem ⊢
    intro e he
    rw [List.mem_singleton.mp he, ← List.mem_singleton.mp hmem]
    exact hvisit

end Cleanup

end Reached

section Main

variable {K ι : Type*} [DecidableEq ι] {ops : KeyOps K} {idOf : ι → K} {m : EntryMap ops ι}

theorem resetSocket_marks :
    Marks (resetSocket : (ι → EpollFields) → ι → _) fun sockets v =>
      (sockets v).epoll ≠ ntsEpollNone := by
  intro sockets v _
  refine ⟨_, rfl, ?_⟩
  intro w hw huntouched
  rw [update_of_ne hw]
  exact huntouched

theorem releaseContext_marks :
    Marks (releaseContext : (ι → Bool) → ι → _) fun released v => released v = false := by
  intro released v huntouched
  refine ⟨update released v true, ?_, ?_⟩
  · rw [releaseContext, huntouched]
    rfl
  · intro w hw hother
    rw [update_of_ne hw]
    exact hother

/-- On every map that has its values under their ids, the loop over the sockets resets all of them,
and the loop over the epoll instances releases all of them, if and only if there is at most one. All
that can go wrong in the loops is that the iterator is left with an entry that is not there. -/
theorem cleanup_reaches_all_iff (h : Registered idOf m) {sockets : ι → EpollFields}
    (hsockets : ∀ e ∈ m.entries, (sockets e.2).epoll ≠ ntsEpollNone) {released : ι → Bool}
    (hreleased : ∀ e ∈ m.entries, released e.2 = false) :
    ((∃ m' sockets', closeEpollSockets idOf m sockets = .ok (m', sockets') ∧
        ∀ e ∈ m.entries, sockets' e.2 = { epoll := 0, epData := 0, events := 0 }) ↔
      m.size ≤ 1) ∧
    ((∃ m' released', destroyEpollContexts idOf m released = .ok (m', released') ∧
        ∀ e ∈ m.entries, released' e.2 = true) ↔ m.size ≤ 1) ∧
    ∀ fault, closeEpollSockets idOf m sockets = .error fault ∨
      destroyEpollContexts idOf m released = .error fault → fault = .staleEntry := by
  refine ⟨⟨?_, fun hone => ?_⟩, ⟨?_, fun hone => ?_⟩, ?_⟩
  · rintro ⟨m', sockets', hloop, hreset⟩
    by_contra htwo
    obtain ⟨e, he, huntouched⟩ :=
      h.exists_untouched_of_two resetSocket_marks hsockets (by omega) hloop
    rw [hreset e he] at huntouched
    exact huntouched rfl
  · obtain ⟨m', sockets', hloop, hvisit⟩ := h.cleanup_of_le_one resetSocket_marks hsockets hone
    refine ⟨m', sockets', hloop, ?_⟩
    intro e he
    cases hvisit e he
    exact update_self _ _ _
  · rintro ⟨m', released', hloop, hrelease⟩
    by_contra htwo
    obtain ⟨e, he, huntouched⟩ :=
      h.exists_untouched_of_two releaseContext_marks hreleased (by omega) hloop
    rw [hrelease e he] at huntouched
    cases huntouched
  · obtain ⟨m', released', hloop, hvisit⟩ := h.cleanup_of_le_one releaseContext_marks hreleased hone
    refine ⟨m', released', hloop, ?_⟩
    intro e he
    have hresult := hvisit e he
    rw [releaseContext, hreleased e he] at hresult
    cases hresult
    exact update_self _ _ _
  · rintro fault (hloop | hloop)
    · exact h.cleanup_ends resetSocket_marks hsockets (Nat.lt_succ_self _) hloop
    · exact h.cleanup_ends releaseContext_marks hreleased (Nat.lt_succ_self _) hloop

end Main

section Sample

open IntKey (defaultOps)

def watched (_ : ℕ) : EpollFields := { epoll := 0x19, epData := 7, events := 0x19 }

def unreleased (_ : ℕ) : Bool := false

def oneSocket : EntryMap HashMap.natKeys ℕ :=
  (((EntryMap.createHashMap fun _ => true).cleared 8).store 5 5).2

theorem oneSocket_registered : Registered id oneSocket := by
  have hwell : oneSocket.WellFormed :=
    (EntryMap.cleared_wellFormed _ (Nat.succ_pos 7)).store rfl 5
  refine ⟨⟨⟨hwell.sound, le_rfl, rfl, by decide⟩, hwell.laid⟩, ?_⟩
  have hentries : oneSocket.entries = [(5, 5)] := rfl
  rw [hentries]
  decide

theorem one_socket_reset :
    ∃ m' sockets', closeEpollSockets id oneSocket watched = .ok (m', sockets') ∧
      ∀ e ∈ oneSocket.entries, sockets' e.2 = { epoll := 0, epData := 0, events := 0 } := by
  have hreleased : ∀ e ∈ oneSocket.entries, unreleased e.2 = false := fun _ _ => rfl
  have hwatched : ∀ e ∈ oneSocket.entries, (watched e.2).epoll ≠ ntsEpollNone := by
    intro e _
    change (0x19 : UInt32) ≠ 0
    decide
  exact (cleanup_reaches_all_iff oneSocket_registered hwatched hreleased).1.mpr (by decide)

def socketKey (sock : ℕ) : IntKey := ⟨UInt32.ofNat sock, []⟩

def register (moves : ℕ → Bool) (socks : List ℕ) : Option (EntryMap defaultOps ℕ) :=
  socks.foldlM (fun m sock => m.defaultPut (socketKey sock) sock) (EntryMap.createHashMap moves)

/-- Of two sockets only the first one is reset; of three, with a table that moves, the iterator goes
on at a place of the old table. -/
theorem second_socket_not_reset :
    ((register (fun _ => false) [1, 2]).map fun m =>
      (closeEpollSockets socketKey m watched).map fun r => (r.2 1, r.2 2)) =
        some (.ok ({ epoll := 0, epData := 0, events := 0 }, watched 2)) ∧
    ((register (fun _ => true) [1, 2, 3]).map fun m =>
      (closeEpollSockets socketKey m watched).map fun r => r.2 1) = some (.error .staleEntry) ∧
    ((register (fun _ => false) [1, 2]).map fun m =>
      (destroyEpollContexts socketKey m unreleased).map fun r => (r.2 1, r.2 2)) =
        some (.ok (true, false)) := by
  refine ⟨?_, ?_, ?_⟩ <;> decide +kernel

end Sample

end NtSocks.Nts
