import NtSocks.Lib.Runs
import NtSocks.NtSocket

/-!
# Histories of the socket allocator

`free_socket` takes a socket id, which is one more than the index of the socket, and uses it as the
index. `allocate_socket` goes on with the null pointer when no socket is free. So a history is as it
should be exactly if it frees nothing and allocates no more sockets than there are.
-/

namespace NtSocks.Ntm

inductive SockOp
  | allocate (socktype : ℤ)
  | free (id : ℕ)
  deriving DecidableEq, Repr

structure SockPool where
  capacity : ℕ
  ctx : NtSockContext
  inUse : List ℕ

namespace SockPool

open NtSocks.Ntm.NtSockContext (sockid)

def init (maxConcurrency : ℕ) : SockPool where
  capacity := maxConcurrency
  ctx := NtSockContext.initSocketContext maxConcurrency
  inUse := []

/-- A call with the id of the socket that it returns, where `none` is the null pointer. A call
without a result does not return; an id that is not in use is not freed. -/
def call (pool : SockPool) : SockOp → Option (Option ℕ × SockPool)
  | .allocate socktype =>
    (pool.ctx.allocateSocket socktype).map fun (i, ctx) =>
      (some (sockid i), { pool with ctx := ctx, inUse := sockid i :: pool.inUse })
  | .free id =>
    if id ∈ pool.inUse then
      some (none, { pool with ctx := pool.ctx.freeSocket id, inUse := pool.inUse.erase id })
    else none

def step (pool : SockPool) (op : SockOp) : Option SockPool := (pool.call op).map Prod.snd

/-- The free list, followed from its head, holds each socket that is not in use exactly once. -/
def ListsFree (pool : SockPool) : Prop :=
  ∃ es, pool.ctx.freeNtsock.Follows pool.ctx.freeNtsock.first es ∧ es.Nodup ∧
    ∀ i, i ∈ es ↔ i < pool.capacity ∧ sockid i ∉ pool.inUse

/-- An allocation returns an id that is not in use, or the null pointer if all are. Freeing an id
makes it available. Neither changes another socket, and the free list is right afterwards. -/
def Correct (pool : SockPool) : SockOp → Prop
  | .allocate socktype =>
    if pool.inUse.length < pool.capacity then
      ∃ i pool', pool.call (.allocate socktype) = some (some (sockid i), pool') ∧
        sockid i ∉ pool.inUse ∧ (∀ k, k ≠ i → pool'.ctx.ntsock k = pool.ctx.ntsock k) ∧
        pool'.ListsFree
    else ∃ pool', pool.call (.allocate socktype) = some (none, pool')
  | .free id => id ∈ pool.inUse → ∃ pool', pool.call (.free id) = some (none, pool') ∧
      (∀ k, sockid k ≠ id → pool'.ctx.ntsock k = pool.ctx.ntsock k) ∧ pool'.ListsFree

/-- A socket is free when one is allocated, and no socket is freed. -/
def Grows (pool : SockPool) : SockOp → Prop
  | .allocate _ => pool.inUse.length < pool.capacity
  | .free id => id ∉ pool.inUse

instance (pool : SockPool) : (op : SockOp) → Decidable (pool.Grows op)
  | .allocate _ => inferInstanceAs (Decidable (pool.inUse.length < pool.capacity))
  | .free id => inferInstanceAs (Decidable (id ∉ pool.inUse))

structure Growing (pool : SockPool) (es : List ℕ) : Prop where
  holds : pool.ctx.freeNtsock.Holds es
  mem_iff : ∀ i, i ∈ es ↔ i < pool.capacity ∧ sockid i ∉ pool.inUse
  unused : ∀ i ∈ es, (pool.ctx.ntsock i).socktype = ntSockUnused
  length_eq : es.length + pool.inUse.length = pool.capacity
  inUse_nodup : pool.inUse.Nodup
  inUse_id : ∀ id ∈ pool.inUse, ∃ i < pool.capacity, sockid i = id

variable {pool pool' : SockPool} {es : List ℕ} {i n : ℕ}

theorem Growing.listsFree (h : pool.Growing es) : pool.ListsFree :=
  ⟨es, h.holds.follows, h.holds.nodup, h.mem_iff⟩

theorem init_growing (n : ℕ) : (init n).Growing (List.range n) where
  holds := Tailq.holds_range n
  mem_iff := by simp [init]
  unused := fun _ _ => rfl
  length_eq := by simp [init]
  inUse_nodup := List.nodup_nil
  inUse_id := by simp [init]

theorem Growing.allocate (h : pool.Growing (i :: es)) (socktype : ℤ) :
    ∃ pool', pool.call (.allocate socktype) = some (some (sockid i), pool') ∧
      pool'.Growing es ∧ ∀ k, k ≠ i → pool'.ctx.ntsock k = pool.ctx.ntsock k := by
  have hfirst : pool.ctx.freeNtsock.first = some i := h.holds.first_eq
  have hnot : i ∉ es := (List.nodup_cons.mp h.holds.nodup).1
  simp only [call, NtSockContext.allocateSocket, hfirst, Option.map_some]
  obtain ⟨hlt, hfree⟩ := (h.mem_iff i).mp List.mem_cons_self
  refine ⟨_, rfl, ⟨h.holds.remove_head, ?_, ?_, ?_, List.nodup_cons.mpr ⟨hfree, h.inUse_nodup⟩, ?_⟩,
    ?_⟩
  · intro k
    have hiff := h.mem_iff k
    simp only [List.mem_cons, sockid, Nat.add_right_cancel_iff] at hiff ⊢
    constructor
    · intro hk
      obtain ⟨hlt, hfree⟩ := hiff.mp (Or.inr hk)
      exact ⟨hlt, not_or.mpr ⟨fun hki => hnot (hki ▸ hk), hfree⟩⟩
    · rintro ⟨hlt, hfree⟩
      exact (hiff.mpr ⟨hlt, (not_or.mp hfree).2⟩).resolve_left (not_or.mp hfree).1
  · intro k hk
    have hne : k ≠ i := fun hki => hnot (hki ▸ hk)
    rw [NtSockContext.modify_ntsock_of_ne _ hne]
    exact h.unused k (List.mem_cons_of_mem i hk)
  · have hlength := h.length_eq
    simp only [List.length_cons] at hlength ⊢
    omega
  · exact List.forall_mem_cons.mpr ⟨⟨i, hlt, rfl⟩, h.inUse_id⟩
  · intro k hk
    rw [NtSockContext.modify_ntsock_of_ne _ hk]

theorem Growing.allocate_exhausted (h : pool.Growing []) (socktype : ℤ) :
    pool.call (.allocate socktype) = none := by
  have hfirst : pool.ctx.freeNtsock.first = none := h.holds.first_eq
  simp only [call, NtSockContext.allocateSocket, hfirst, Option.map_none]

theorem Growing.freeSocket (h : pool.Growing es) (id : ℕ) :
    (pool.ctx.freeSocket id).freeNtsock.Holds es ∨
      (pool.ctx.freeSocket id).freeNtsock.Holds (es ++ [id]) := by
  rw [NtSockContext.freeSocket]
  split
  · exact Or.inl h.holds
  case isFalse hused =>
    exact Or.inr (h.holds.insertTail fun hmem => hused (h.unused id hmem))

theorem Growing.not_correct_free (h : pool.Growing es) {id : ℕ} (hid : id ∈ pool.inUse) :
    ¬ pool.Correct (.free id) := by
  intro hcorrect
  obtain ⟨pool', hcall, -, es', hfollows, -, hmem⟩ := hcorrect hid
  simp only [call, if_pos hid, Option.some.injEq, Prod.mk.injEq, true_and] at hcall
  subst hcall
  obtain ⟨i, hlt, rfl⟩ := h.inUse_id id hid
  have havailable : i ∈ es' := (hmem i).mpr ⟨hlt, h.inUse_nodup.not_mem_erase⟩
  have hnot : i ∉ es := fun hi => ((h.mem_iff i).mp hi).2 hid
  rcases h.freeSocket (sockid i) with hsame | hnext
  · exact hnot (hfollows.unique hsame.follows ▸ havailable)
  · have hi : i ∈ es ++ [sockid i] := hfollows.unique hnext.follows ▸ havailable
    rcases List.mem_append.mp hi with hi | hi
    · exact hnot hi
    · rw [List.mem_singleton, sockid] at hi
      omega

theorem Growing.correct_iff (h : pool.Growing es) (op : SockOp) :
    pool.Correct op ↔ pool.Grows op := by
  cases op with
  | allocate socktype =>
    rw [Correct, Grows]
    have hlength := h.length_eq
    split
    case isTrue hroom =>
      refine iff_of_true ?_ hroom
      obtain ⟨i, es, rfl⟩ : ∃ i es', es = i :: es' :=
        List.exists_cons_of_ne_nil fun hnil => by rw [hnil, List.length_nil] at hlength; omega
      obtain ⟨pool', hcall, hgrowing, hframe⟩ := h.allocate socktype
      have hfree := ((h.mem_iff i).mp List.mem_cons_self).2
      exact ⟨i, pool', hcall, hfree, hframe, hgrowing.listsFree⟩
    case isFalse hfull =>
      refine iff_of_false ?_ hfull
      rintro ⟨pool', hcall⟩
      obtain rfl : es = [] := List.length_eq_zero_iff.mp (by omega)
      rw [h.allocate_exhausted socktype] at hcall
      cases hcall
  | free id =>
    rw [Grows]
    constructor
    · intro hcorrect hid
      exact h.not_correct_free hid hcorrect
    · intro hid hid'
      exact absurd hid' hid

theorem Growing.step {op : SockOp} (h : pool.Growing es) (hgrows : pool.Grows op)
    (hstep : pool.step op = some pool') : ∃ es', pool'.Growing es' := by
  cases op with
  | allocate socktype =>
    cases es with
    | nil =>
      rw [SockPool.step, h.allocate_exhausted socktype] at hstep
      cases hstep
    | cons i es =>
      obtain ⟨pool₁, hcall, hgrowing, -⟩ := h.allocate socktype
      rw [SockPool.step, hcall] at hstep
      cases hstep
      exact ⟨es, hgrowing⟩
  | free id =>
    rw [SockPool.step, call, if_neg hgrows] at hstep
    cases hstep

/-- Every call of a history is correct if and only if no socket in use is freed and every
allocation finds a free socket. -/
theorem socket_allocator_correct_iff (n : ℕ) (ops : List SockOp) :
    Runs.Along step Correct (init n) ops ↔ Runs.Along step Grows (init n) ops := by
  refine Runs.along_congr (C := fun _ => True) (I := fun pool => ∃ es, pool.Growing es) ?_ ?_
    ⟨_, init_growing n⟩ (fun _ _ => trivial)
  · rintro pool op ⟨es, h⟩ -
    exact h.correct_iff op
  · rintro pool op pool' ⟨es, h⟩ - hgrows hstep
    exact h.step hgrows hstep

theorem socket_allocator_correct_iff_two_sockets :
    Runs.Along step Correct (init 2) [.allocate 1, .allocate ntSockPipe] := by
  rw [socket_allocator_correct_iff]
  refine ⟨by decide, fun pool₁ h₁ => ?_⟩
  cases h₁
  exact ⟨by decide, fun _ _ => trivial⟩

/-- Both sockets of a table are in use; after `free_socket(1)` the id 2, which is still in use, is
handed out again. And a socket of type 1, the value of `SOCK_STREAM`, is taken for a free one, so
that freeing the id before it does nothing. -/
theorem freeing_socket_frees_next :
    (∃ pool pool', Runs.run step (init 2)
        [.allocate ntSockPipe, .allocate ntSockPipe, .free 1] = some pool ∧
      2 ∈ pool.inUse ∧ pool.call (.allocate ntSockPipe) = some (some 2, pool')) ∧
    ∃ pool, Runs.run step (init 2) [.allocate 1, .allocate 1, .free 1] = some pool ∧
      1 ∉ pool.inUse ∧ pool.call (.allocate 1) = none := by
  refine ⟨⟨_, _, rfl, by decide, rfl⟩, ⟨_, rfl, by decide, rfl⟩⟩

end SockPool

end NtSocks.Ntm
