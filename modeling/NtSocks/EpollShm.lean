import NtSocks.Lib.Runs
import NtSocks.Shmring

/-!
# The epoll control channel

`epoll_shm_send` and `epoll_shm_recv` keep the result of a ring operation, which is 0 on success, in
a `bool` and repeat the operation while that is false. So a send pushes until the ring is full and a
receive pops until it is empty or its retries are used up.
-/

namespace NtSocks

def epollRetryTimes : ℕ := 5

def defaultMaxNumMsg : ℕ := 16

namespace EpollShm

variable {α : Type*}

/-- The loop of `epoll_shm_send`, from one push on. The result `FAILED` of a push into a full ring,
here `none`, is -1 and so true as a `bool`; it ends the loop. -/
def sendLoop (msg : α) : ℕ → Shmring α → Option (Shmring α)
  | 0, _ => none
  | fuel + 1, r =>
    match r.shmringPush msg with
    | none => some r
    | some r' => sendLoop msg fuel r'

def epollShmSend (r : Shmring α) (msg : α) : Option (ℤ × Shmring α) :=
  (sendLoop msg r.capacity r).map fun r' => (0, r')

/-- The loop of `epoll_shm_recv` after a pop, with the number of retries that are left. The result
`FAILED` of a pop from an empty ring ends the loop as well. -/
def recvLoop : ℕ → Option (α × Shmring α) → α → Shmring α → ℤ × α × Shmring α
  | _, none, recvMsg, r => (0, recvMsg, r)
  | 0, some (recvMsg, r), _, _ => (-1, recvMsg, r)
  | retries + 1, some (recvMsg, r), _, _ => recvLoop retries r.shmringPop recvMsg r

def epollShmRecv (r : Shmring α) (recvMsg : α) : ℤ × α × Shmring α :=
  recvLoop epollRetryTimes r.shmringPop recvMsg r

inductive Act (α : Type*)
  | send (msg : α)
  | recv (recvMsg : α)

def step (r : Shmring α) : Act α → Option (Shmring α)
  | .send msg => (epollShmSend r msg).map Prod.snd
  | .recv recvMsg => some (epollShmRecv r recvMsg).2.2

def Full (r : Shmring α) : Prop := r.contents.length + 1 = r.capacity

/-- What a message queue does: a send into a ring that is not full adds one copy of the message; a
receive that returns 0 takes the oldest message and any other takes none, as on an empty ring. -/
def Correct (r : Shmring α) : Act α → Prop
  | .send msg => ¬ Full r →
      ∃ r', epollShmSend r msg = some (0, r') ∧ r'.contents = r.contents ++ [msg]
  | .recv recvMsg =>
    let result := epollShmRecv r recvMsg
    (r.contents = [] → result.1 = -1) ∧
      (result.1 = 0 → r.contents = result.2.1 :: result.2.2.contents) ∧
      (result.1 ≠ 0 → result.2.2.contents = r.contents)

/-- A send finds at most one free element, and a receive finds one message. -/
def Single (r : Shmring α) : Act α → Prop
  | .send _ => r.capacity ≤ r.contents.length + 2
  | .recv _ => r.contents.length = 1

variable {r : Shmring α} {cap : ℕ} {q : List α} {msg recvMsg : α}

theorem sendLoop_fills (msg : α) {k : ℕ} (h : r.Holds cap q) (hk : q.length + 1 + k = cap)
    {fuel : ℕ} (hfuel : k < fuel) :
    ∃ r', sendLoop msg fuel r = some r' ∧ r'.Holds cap (q ++ List.replicate k msg) := by
  induction k generalizing r q fuel with
  | zero =>
    obtain ⟨fuel, rfl⟩ := Nat.exists_eq_succ_of_ne_zero (n := fuel) (by omega)
    simp only [sendLoop, h.push_full (x := msg) hk]
    exact ⟨r, rfl, by simpa using h⟩
  | succ k ih =>
    obtain ⟨fuel, rfl⟩ := Nat.exists_eq_succ_of_ne_zero (n := fuel) (by omega)
    obtain ⟨r₁, hpush, h₁⟩ := h.push (x := msg) (by omega)
    obtain ⟨r', hloop, h'⟩ := ih h₁ (by simp; omega) (show k < fuel by omega)
    refine ⟨r', ?_, ?_⟩
    · simp only [sendLoop, hpush, hloop]
    · rwa [List.append_assoc, List.singleton_append, ← List.replicate_succ] at h'

theorem epollShmSend_fills (h : r.Holds cap q) (msg : α) :
    ∃ r', epollShmSend r msg = some (0, r') ∧
      r'.Holds cap (q ++ List.replicate (cap - 1 - q.length) msg) := by
  have hlt := h.length_lt
  obtain ⟨r', hloop, h'⟩ := sendLoop_fills msg (k := cap - 1 - q.length) h (by omega)
    (show _ < r.capacity by rw [h.capacity]; omega)
  exact ⟨r', by rw [epollShmSend, hloop]; rfl, h'⟩

theorem recvLoop_empty (retries : ℕ) (recvMsg : α) (r : Shmring α) :
    recvLoop retries none recvMsg r = (0, recvMsg, r) := by
  cases retries <;> rfl

theorem recvLoop_pop (retries : ℕ) (recvMsg x : α) (r r' : Shmring α) :
    recvLoop (retries + 1) (some (x, r')) recvMsg r = recvLoop retries r'.shmringPop x r' := rfl

theorem recvLoop_holds (retries : ℕ) (h : r.Holds cap q) (recvMsg : α) :
    ∃ q', (recvLoop retries r.shmringPop recvMsg r).2.2.Holds cap q' ∧ q'.length ≤ q.length := by
  induction retries generalizing r q recvMsg with
  | zero =>
    cases q with
    | nil =>
      rw [h.pop_empty, recvLoop_empty]
      exact ⟨[], h, le_rfl⟩
    | cons x q =>
      obtain ⟨r₁, hpop, h₁⟩ := h.pop
      rw [hpop]
      exact ⟨q, h₁, Nat.le_succ _⟩
  | succ retries ih =>
    cases q with
    | nil =>
      rw [h.pop_empty, recvLoop_empty]
      exact ⟨[], h, le_rfl⟩
    | cons x q =>
      obtain ⟨r₁, hpop, h₁⟩ := h.pop
      rw [hpop, recvLoop_pop]
      obtain ⟨q', h', hle⟩ := ih h₁ x
      exact ⟨q', h', hle.trans (Nat.le_succ _)⟩

theorem correct_send_iff (h : r.Holds cap q) (msg : α) :
    Correct r (.send msg) ↔ Single r (.send msg) := by
  obtain ⟨r', hsend, h'⟩ := epollShmSend_fills h msg
  have hlt := h.length_lt
  rw [Correct, Single, Full, hsend, h.contents_eq, h.capacity]
  constructor
  · intro hcorrect
    by_contra hroom
    obtain ⟨r₁, heq, hcontents⟩ := hcorrect (by omega)
    cases heq
    have hlength := congrArg List.length (h'.contents_eq.symm.trans hcontents)
    simp only [List.length_append, List.length_replicate, List.length_singleton] at hlength
    omega
  · intro hroom hfull
    have hone : cap - 1 - q.length = 1 := by omega
    rw [hone, List.replicate_one] at h'
    exact ⟨r', rfl, h'.contents_eq⟩

theorem epollShmRecv_single {x : α} (h : r.Holds cap [x]) (recvMsg : α) :
    ∃ r', epollShmRecv r recvMsg = (0, x, r') ∧ r'.Holds cap [] := by
  obtain ⟨r', hpop, h'⟩ := h.pop
  refine ⟨r', ?_, h'⟩
  rw [epollShmRecv, hpop, epollRetryTimes, recvLoop_pop, h'.pop_empty, recvLoop_empty]

theorem epollShmRecv_many {x y : α} (h : r.Holds cap (x :: y :: q)) (recvMsg : α) :
    (epollShmRecv r recvMsg).2.2.contents.length ≤ q.length := by
  obtain ⟨r₁, hpop₁, h₁⟩ := h.pop
  obtain ⟨r₂, hpop₂, h₂⟩ := h₁.pop
  obtain ⟨q', h', hle⟩ := recvLoop_holds 3 h₂ y
  rw [epollShmRecv, hpop₁, epollRetryTimes, recvLoop_pop, hpop₂, recvLoop_pop, h'.contents_eq]
  exact hle

theorem correct_recv_iff (h : r.Holds cap q) (recvMsg : α) :
    Correct r (.recv recvMsg) ↔ Single r (.recv recvMsg) := by
  rw [Correct, Single, h.contents_eq]
  cases q with
  | nil =>
    refine iff_of_false ?_ (by simp)
    rw [epollShmRecv, h.pop_empty, recvLoop_empty]
    rintro ⟨hempty, -⟩
    have hret : (0 : ℤ) = -1 := hempty rfl
    exact absurd hret (by decide)
  | cons x q =>
    cases q with
    | nil =>
      obtain ⟨r', hrecv, h'⟩ := epollShmRecv_single h recvMsg
      simp only [hrecv, h'.contents_eq]
      simp
    | cons y q =>
      refine iff_of_false ?_ (by simp)
      have hle := epollShmRecv_many h recvMsg
      rintro ⟨-, hzero, hnonzero⟩
      by_cases hret : (epollShmRecv r recvMsg).1 = 0
      · have hlength := congrArg List.length (hzero hret)
        simp only [List.length_cons] at hlength
        omega
      · have hlength := congrArg List.length (hnonzero hret)
        simp only [List.length_cons] at hlength
        omega

theorem holds_step {r' : Shmring α} {a : Act α} (h : ∃ q, r.Holds cap q)
    (hstep : step r a = some r') : ∃ q, r'.Holds cap q := by
  obtain ⟨q, h⟩ := h
  cases a with
  | send msg =>
    obtain ⟨r₁, hsend, h₁⟩ := epollShmSend_fills h msg
    rw [step, hsend] at hstep
    cases hstep
    exact ⟨_, h₁⟩
  | recv recvMsg =>
    cases hstep
    obtain ⟨q', h', -⟩ := recvLoop_holds epollRetryTimes h recvMsg
    exact ⟨q', h'⟩

/-- The calls of a sequence are those of a message queue if and only if every send finds at most one
free element and every receive finds exactly one message. -/
theorem message_queue_iff {r : Shmring α} {q : List α} (h : r.Holds defaultMaxNumMsg q)
    (acts : List (Act α)) : Runs.Along step Correct r acts ↔ Runs.Along step Single r acts := by
  refine Runs.along_congr (C := fun _ => True) (I := fun r => ∃ q, r.Holds defaultMaxNumMsg q)
    ?_ ?_ ⟨q, h⟩ (fun _ _ => trivial)
  · rintro r a ⟨q, h⟩ -
    cases a with
    | send msg => exact correct_send_iff h msg
    | recv recvMsg => exact correct_recv_iff h recvMsg
  · intro r a r' h _ _ hstep
    exact holds_step h hstep

section Sample

def emptyChannel : Shmring ℕ := Shmring.shmringCreate defaultMaxNumMsg fun _ => 0

def almostFullChannel : Shmring ℕ where
  capacity := defaultMaxNumMsg
  writeIdx := 14
  readIdx := 0
  data := id

theorem almostFullChannel_holds : almostFullChannel.Holds defaultMaxNumMsg (List.range 14) := by
  refine ⟨List.range 14, 0, ⟨rfl, rfl, rfl, Nat.zero_le _, by decide, ?_⟩, rfl⟩
  intro k hk _
  rw [List.length_range] at hk
  rw [List.getElem_range]
  exact Nat.mod_eq_of_lt (hk.trans (by decide))

theorem message_queue_iff_almost_full : Runs.Along step Correct almostFullChannel [.send 14] := by
  rw [message_queue_iff almostFullChannel_holds]
  refine ⟨?_, fun _ _ => trivial⟩
  rw [Single, almostFullChannel_holds.contents_eq]
  decide

/-- On a new channel, a receive returns 0, and a send fills the channel with its message. -/
theorem new_channel_fills :
    (epollShmRecv emptyChannel 9).1 = 0 ∧
      ∃ r, epollShmSend emptyChannel 7 = some (0, r) ∧ r.contents = List.replicate 15 7 := by
  have hnew : emptyChannel.Holds defaultMaxNumMsg [] := Shmring.Holds.init (by decide) _
  refine ⟨by rw [epollShmRecv, hnew.pop_empty, recvLoop_empty], ?_⟩
  obtain ⟨r, hsend, hr⟩ := epollShmSend_fills hnew 7
  exact ⟨r, hsend, hr.contents_eq⟩

end Sample

end EpollShm

end NtSocks
