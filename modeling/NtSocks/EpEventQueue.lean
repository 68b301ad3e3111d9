import NtSocks.NtpRecv
import NtSocks.SemShmring

/-!
# The event queue of an epoll instance

The monitor and the proxy push events of sockets into a ring in shared memory, and the library takes
them out. The ring is guarded like `sem_shmring`: `empty_sem` counts free slots, `full_sem` counts
events and `mutex_sem` admits one producer at a time. A counter of its own tells how many events
there are; `ep_event_queue_front`, like `sem_shmring_front`, compares the indices instead.
-/

namespace NtSocks

/-- The queue in shared memory; the source calls `endIdx` `end`. The counters are 64 bits wide.
`pushed` and `popped` are histories, read by no step. -/
structure NtsEventQueue where
  start : ℕ
  endIdx : ℕ
  size : ℕ
  numEvents : ℕ
  events : ℕ → EpollEvent
  pushed : List EpollEvent
  popped : List EpollEvent

namespace NtsEventQueue

def create (size : ℕ) (events : ℕ → EpollEvent) : NtsEventQueue where
  start := 0
  endIdx := 0
  size := size
  numEvents := 0
  events := events
  pushed := []
  popped := []

variable (q : NtsEventQueue)

def push (event : EpollEvent) : NtsEventQueue :=
  { q with
    events := Function.update q.events q.endIdx event
    endIdx := nextIndex q.endIdx q.size
    numEvents := (q.numEvents + 1) % 2 ^ 64
    pushed := q.pushed ++ [event] }

def pop : NtsEventQueue :=
  { q with
    start := nextIndex q.start q.size
    numEvents := (q.numEvents + (2 ^ 64 - 1)) % 2 ^ 64
    popped := q.popped ++ [q.events q.start] }

/-- `none` is the value `-1`. -/
def epEventQueueFront : Option EpollEvent :=
  if q.endIdx = q.start then none else some (q.events q.start)

def unpopped : ℕ := q.pushed.length - q.popped.length

structure Sound (cap : ℕ) (q : NtsEventQueue) : Prop where
  size : q.size = cap
  pos : 0 < cap
  small : cap < 2 ^ 64
  log : RingLog cap q.endIdx q.start q.events q.pushed q.popped
  bound : q.pushed.length ≤ q.popped.length + cap
  numEvents : q.numEvents = q.pushed.length - q.popped.length

namespace Sound

variable {q} {cap : ℕ}

theorem create (hpos : 0 < cap) (hsmall : cap < 2 ^ 64) (events : ℕ → EpollEvent) :
    Sound cap (NtsEventQueue.create cap events) where
  size := rfl
  pos := hpos
  small := hsmall
  log := RingLog.init _ _
  bound := Nat.zero_le _
  numEvents := rfl

theorem popped_le (h : Sound cap q) : q.popped.length ≤ q.pushed.length := h.log.order.length_le

theorem push (h : Sound cap q) (hroom : q.unpopped < cap) (event : EpollEvent) :
    Sound cap (q.push event) := by
  have hle := h.popped_le
  have hsmall := h.small
  have hnum := h.numEvents
  rw [unpopped] at hroom
  refine ⟨h.size, h.pos, hsmall, ?_, ?_, ?_⟩
  · dsimp only [NtsEventQueue.push]
    rw [nextIndex, h.size, h.log.writeIndex, Nat.mod_add_mod, ← h.log.writeIndex]
    exact h.log.write (by omega) event
  · dsimp only [NtsEventQueue.push]
    rw [List.length_append, List.length_singleton]
    omega
  · dsimp only [NtsEventQueue.push]
    rw [List.length_append, List.length_singleton, Nat.mod_eq_of_lt] <;> omega

theorem pop (h : Sound cap q) (hne : 0 < q.unpopped) : Sound cap q.pop := by
  have hbound := h.bound
  have hsmall := h.small
  have hnum := h.numEvents
  rw [unpopped] at hne
  refine ⟨h.size, h.pos, hsmall, ?_, ?_, ?_⟩
  · dsimp only [NtsEventQueue.pop]
    rw [nextIndex, h.size, h.log.readIndex, Nat.mod_add_mod, ← h.log.readIndex]
    exact h.log.read (by omega)
  · dsimp only [NtsEventQueue.pop]
    rw [List.length_append, List.length_singleton]
    omega
  · dsimp only [NtsEventQueue.pop]
    rw [List.length_append, List.length_singleton]
    omega

theorem endIdx_eq_start_iff (h : Sound cap q) :
    q.endIdx = q.start ↔ q.unpopped = 0 ∨ q.unpopped = cap := by
  have hle := h.popped_le
  rw [h.log.writeIndex, h.log.readIndex, RingIndex.mod_eq_iff_of_window hle h.bound, unpopped]
  omega

end Sound

def sections : GuardedRing.Sections EpollEvent Unit NtsEventQueue where
  write := fun event q => q.push event
  read := fun _ q => q.pop

theorem sections_lawful (size : ℕ) : GuardedRing.Lawful sections size (Sound size) unpopped where
  write := fun _ event h hroom => h.push hroom event
  size_write := by
    intro q event h _
    have hle := h.popped_le
    simp only [sections, unpopped, push, List.length_append, List.length_singleton]
    omega
  read := fun _ _ h hne => h.pop hne
  size_read := by
    intro q _ _ hne
    rw [unpopped] at hne
    simp only [sections, unpopped, pop, List.length_append, List.length_singleton]
    omega

/-- The call returns -1 exactly on an empty queue, and else what the next pop would return. -/
def FrontAgrees : Prop :=
  q.epEventQueueFront =
    if q.pushed.length - q.popped.length = 0 then none else q.pop.popped.getLast?

theorem Sound.frontAgrees_iff {q : NtsEventQueue} {size : ℕ} (h : Sound size q) :
    q.FrontAgrees ↔ q.pushed.length - q.popped.length ≠ size := by
  have hpos := h.pos
  have hmeet := h.endIdx_eq_start_iff
  rw [unpopped] at hmeet
  rw [FrontAgrees, epEventQueueFront, NtsEventQueue.pop, List.getLast?_concat]
  split
  case isTrue hidx =>
    split
    · exact iff_of_true rfl (by omega)
    case isFalse hne =>
      exact iff_of_false (fun hsome => by cases hsome) fun hfull =>
        hfull ((hmeet.mp hidx).resolve_left hne)
  case isFalse hidx =>
    rw [if_neg fun hempty => hidx (hmeet.mpr (Or.inl hempty))]
    exact iff_of_true rfl fun hfull => hidx (hmeet.mpr (Or.inr hfull))

end NtsEventQueue

abbrev EpEventQueue (P : Type*) := GuardedRing.State P EpollEvent NtsEventQueue

def EpEventQueue.create (P : Type*) (size : ℕ) (events : ℕ → EpollEvent) : EpEventQueue P :=
  GuardedRing.State.init P EpollEvent size (NtsEventQueue.create size events)

theorem EpEventQueue.guarded_of_run {P : Type*} [DecidableEq P] [Fintype P] {s : EpEventQueue P}
    {size : ℕ} (hpos : 0 < size) (hsmall : size < 2 ^ 64) {events : ℕ → EpollEvent}
    {as : List (GuardedRing.Action P EpollEvent Unit)}
    (hrun : Runs.run (GuardedRing.State.step NtsEventQueue.sections) (create P size events) as =
      some s) : GuardedRing.Guarded size (NtsEventQueue.Sound size) NtsEventQueue.unpopped s := by
  have hempty : (NtsEventQueue.create size events).unpopped = 0 := rfl
  exact (GuardedRing.Guarded.init (NtsEventQueue.Sound.create hpos hsmall events) hempty).run
    (NtsEventQueue.sections_lawful size) hrun

/-- The call returns -1 exactly on an empty ring, and else what the next pop would return. -/
def SemShmringBuf.FrontAgrees (r : SemShmringBuf) : Prop :=
  ∀ eleLen, r.semShmringFront eleLen =
    if r.pushed.length - r.popped.length = 0 then none else (r.pop eleLen).popped.getLast?

theorem SemShmringBuf.Stored.frontAgrees_iff {r : SemShmringBuf}
    {written readOut : List (List UInt8)} (h : r.Stored written readOut) :
    r.FrontAgrees ↔ r.pushed.length - r.popped.length ≠ r.capacity := by
  have hpos := h.pos
  have hmeet := h.writeIdx_eq_readIdx_iff
  rw [SemShmringBuf.unpopped] at hmeet
  constructor
  · intro hagrees hfull
    have hfront := hagrees 0
    rw [SemShmringBuf.semShmringFront, if_pos (hmeet.mpr (Or.inr hfull)), if_neg (by omega),
      SemShmringBuf.pop, List.getLast?_concat] at hfront
    cases hfront
  · intro hfull eleLen
    rw [SemShmringBuf.semShmringFront, SemShmringBuf.pop, List.getLast?_concat]
    split
    case isTrue hidx => rw [if_pos ((hmeet.mp hidx).resolve_right hfull)]
    case isFalse hidx => rw [if_neg fun hempty => hidx (hmeet.mpr (Or.inl hempty))]

section Front

open GuardedRing (Action State pushCall)

variable {P : Type*} [DecidableEq P] [Fintype P]

/-- In every reachable state of the two queues, looking at the front agrees with the next pop if and
only if the queue is not full. -/
theorem front_agrees_iff_not_full :
    (∀ {eleSize capacity : ℕ} {data : ℕ → List UInt8} {as : List (Action P (List UInt8) ℕ)}
        {s : SemShmring P}, 0 < capacity → (∀ i, (data i).length = eleSize) →
      Runs.run (State.step SemShmringBuf.sections) (SemShmring.create P eleSize capacity data) as =
        some s →
      (s.ring.FrontAgrees ↔ s.ring.pushed.length - s.ring.popped.length ≠ capacity)) ∧
    ∀ {size : ℕ} {events : ℕ → EpollEvent} {as : List (Action P EpollEvent Unit)}
        {s : EpEventQueue P}, 0 < size → size < 2 ^ 64 →
      Runs.run (State.step NtsEventQueue.sections) (EpEventQueue.create P size events) as = some s →
      (s.ring.FrontAgrees ↔ s.ring.pushed.length - s.ring.popped.length ≠ size) := by
  constructor
  · intro eleSize capacity data as s hcap hdata hrun
    obtain ⟨-, hcapacity, written, readOut, h⟩ := (SemShmring.guarded_of_run hcap hdata hrun).inv
    rw [h.frontAgrees_iff, hcapacity]
  · intro size events as s hpos hsmall hrun
    exact (EpEventQueue.guarded_of_run hpos hsmall hrun).inv.frontAgrees_iff

def sampleEvent : EpollEvent := { sockid := 2, data := 2, events := 1 }

theorem front_agrees_half_full :
    (∃ s, Runs.run (State.step SemShmringBuf.sections) (SemShmring.create (Fin 1) 1 2 fun _ => [0])
        (pushCall 0 [5]) = some s ∧ s.ring.FrontAgrees) ∧
    ∃ s, Runs.run (State.step NtsEventQueue.sections)
        (EpEventQueue.create (Fin 1) 2 fun _ => sampleEvent) (pushCall 0 sampleEvent) = some s ∧
      s.ring.FrontAgrees := by
  have hdata : ∀ i : ℕ, ((fun _ => [0] : ℕ → List UInt8) i).length = 1 := fun _ => rfl
  have hrun : Runs.run (State.step SemShmringBuf.sections)
      (SemShmring.create (Fin 1) 1 2 fun _ => [0]) (pushCall 0 [5]) = some _ := rfl
  have hrun' : Runs.run (State.step NtsEventQueue.sections)
      (EpEventQueue.create (Fin 1) 2 fun _ => sampleEvent) (pushCall 0 sampleEvent) = some _ := rfl
  exact ⟨⟨_, hrun, (front_agrees_iff_not_full.1 (by decide) hdata hrun).mpr (by decide)⟩, _, hrun',
    (front_agrees_iff_not_full.2 (by decide) (by decide) hrun').mpr (by decide)⟩

/-- After one push into queues of one slot there is nothing at the front, and a pop returns the
element. -/
theorem front_misses_full_queue :
    (∃ s, Runs.run (State.step SemShmringBuf.sections) (SemShmring.create (Fin 1) 1 1 fun _ => [0])
        (pushCall 0 [5]) = some s ∧
      s.ring.semShmringFront 1 = none ∧ (s.ring.pop 1).popped = [[5]] ∧ ¬ s.ring.FrontAgrees) ∧
    ∃ s, Runs.run (State.step NtsEventQueue.sections)
        (EpEventQueue.create (Fin 1) 1 fun _ => sampleEvent) (pushCall 0 sampleEvent) = some s ∧
      s.ring.epEventQueueFront = none ∧ s.ring.pop.popped = [sampleEvent] ∧
      ¬ s.ring.FrontAgrees := by
  refine ⟨⟨_, rfl, rfl, rfl, fun hagrees => ?_⟩, _, rfl, rfl, rfl, fun hagrees => ?_⟩
  · cases hagrees 1
  · cases hagrees

end Front

end NtSocks
