import NtSocks.ShmringSpsc

/-!
# The rings of messages between the processes

`nts_shmring.c`, `ntm_ntp_shmring.c` and `ntp_ntm_shmring.c` are one ring with different messages.
Its indices are advanced with a mask, and a message is copied over the older one in its slot. The
calls are cut as those of `shmring`; `nts_shmring_pop` of the library loads the read index before
the write index, the other pops the write index first. A push takes no lock, and the receiving
threads of the monitor share the ring to the proxy, so any number of threads may push.

`effects` and `returns` are histories as for `Spsc`; a message is named in them by what its copy
leaves in the slot.
-/

namespace NtSocks

open Fifo Function

def maskIncrement (currentIdx mask : ℕ) : ℕ := (currentIdx + 1) &&& mask

/-- How far a pop is, with its variables. -/
inductive PopAt (M : Type*)
  | idle
  | loaded (wIdx : ℕ)
  | readFirst (rIdx : ℕ)
  | notEmpty (rIdx : ℕ)
  | copied (message : M) (rIdx : ℕ)

structure MsgRing (P M : Type*) where
  mask : ℕ
  writeIndex : ℕ
  readIndex : ℕ
  buf : ℕ → M
  producer : P → Producer M
  consumer : PopAt M
  element : M
  effects : List (Event M)
  returns : List (Event M)

namespace MsgRing

variable {P M : Type*}

/-- The rings to the library have this size, those between the monitor and the proxy have 1024. -/
def ntsMaxBufs : ℕ := 16

inductive Act (P M : Type*)
  /-- A call of a thread, up to the load of the write index. -/
  | push (p : P) (element : M)
  | producer (p : P)
  /-- A call of the consumer, up to the load of the write index. -/
  | pop
  /-- A call of the library's pop, up to the load of the read index. -/
  | popReadFirst
  | consumer

def init (P : Type*) {M : Type*} (maxBufs : ℕ) (buf : ℕ → M) (element : M) : MsgRing P M where
  mask := maxBufs - 1
  writeIndex := 0
  readIndex := 0
  buf := buf
  producer := fun _ => .idle
  consumer := .idle
  element := element
  effects := []
  returns := []

variable [DecidableEq P] (copy : M → M → M) (s : MsgRing P M)

def moveTo (p : P) (phase : Producer M) : MsgRing P M :=
  { s with producer := update s.producer p phase }

def finish (e : Event M) : MsgRing P M :=
  { s with effects := s.effects ++ [e], returns := s.returns ++ [e] }

/-- `copy src target` is what a copy of the message `src` leaves in `target`. -/
def producerStep (p : P) : Option (MsgRing P M) :=
  match s.producer p with
  | .idle => none
  | .loaded x w =>
    if maskIncrement w s.mask = s.readIndex then
      some ((s.finish (.push (copy x (s.buf w)) false)).moveTo p .idle)
    else some (s.moveTo p (.notFull x w))
  | .notFull x w =>
    let message := copy x (s.buf w)
    some { s.moveTo p (.copied message w) with buf := update s.buf w message }
  | .copied message w =>
    some { (s.finish (.push message true)).moveTo p .idle with
      writeIndex := maskIncrement w s.mask }

def consumerStep : Option (MsgRing P M) :=
  match s.consumer with
  | .idle => none
  | .loaded w =>
    if w = s.readIndex then some { s with consumer := .idle, returns := s.returns ++ [.pop none] }
    else some { s with consumer := .notEmpty s.readIndex }
  | .readFirst r =>
    if s.writeIndex = r then some { s.finish (.pop none) with consumer := .idle }
    else some { s with consumer := .notEmpty r }
  | .notEmpty r =>
    -- the slot is found by loading the index once more
    let message := s.buf s.readIndex
    some { s with consumer := .copied message r, element := copy message s.element }
  | .copied message r =>
    some { s.finish (.pop (some message)) with
      readIndex := maskIncrement r s.mask
      consumer := .idle }

def step : Act P M → Option (MsgRing P M)
  | .push p element =>
    match s.producer p with
    | .idle => some (s.moveTo p (.loaded element s.writeIndex))
    | _ => none
  | .producer p => s.producerStep copy p
  | .pop =>
    match s.consumer with
    | .idle =>
      some { s with
        consumer := .loaded s.writeIndex
        effects :=
          if s.writeIndex = s.readIndex then s.effects ++ [.pop none] else s.effects }
    | _ => none
  | .popReadFirst =>
    match s.consumer with
    | .idle => some { s with consumer := .readFirst s.readIndex }
    | _ => none
  | .consumer => s.consumerStep copy

/-- No thread pushes while another one does. -/
def Alone (s : MsgRing P M) : Act P M → Prop
  | .push _ _ => ∀ p, s.producer p = .idle
  | _ => True

def ring : Shmring M := ⟨s.mask + 1, s.writeIndex, s.readIndex, s.buf⟩

/-! ### With one thread at a time -/

/-- A pop that has loaded only the read index has not begun: the index is its own. -/
def asConsumer : PopAt M → Consumer M
  | .idle | .readFirst _ => .idle
  | .loaded w => .loaded .pop w
  | .notEmpty r => .notEmpty .pop r
  | .copied message r => .copied message r

/-- What the thread will have in the slot is determined as long as no other one writes there. -/
def asProducer (buf : ℕ → M) : Producer M → Producer M
  | .idle => .idle
  | .loaded x w => .loaded (copy x (buf w)) w
  | .notFull x w => .notFull (copy x (buf w)) w
  | .copied message w => .copied message w

/-- The ring as `Spsc` has it, with the thread `p` as its producer. -/
def spsc (p : P) : Spsc M where
  ring := s.ring
  producer := asProducer copy s.buf (s.producer p)
  consumer := asConsumer s.consumer
  effects := s.effects
  returns := s.returns

variable {copy s} {s' : MsgRing P M} {p : P} {b : ℕ}

omit [DecidableEq P] in
theorem maskIncrement_eq (hmask : s.mask + 1 = 2 ^ b) (i : ℕ) :
    maskIncrement i s.mask = Shmring.increment i (s.mask + 1) := by
  rw [maskIncrement, Nat.eq_sub_of_add_eq hmask, Nat.and_two_pow_sub_one_eq_mod, ← hmask]
  rfl

theorem spsc_producerStep (hmask : s.mask + 1 = 2 ^ b) (hstep : s.producerStep copy p = some s') :
    (s.spsc copy p).producerStep = some (s'.spsc copy p) := by
  rw [producerStep] at hstep
  cases hp : s.producer p with
  | idle => simp [hp] at hstep
  | loaded x w =>
    simp only [hp, maskIncrement_eq hmask] at hstep
    simp only [Spsc.producerStep, spsc, hp, asProducer, ring]
    split at hstep <;> cases hstep
    · rename_i hfull
      simp [hfull, moveTo, finish, Spsc.finish]
    · rename_i hroom
      simp [hroom, moveTo]
  | notFull x w =>
    simp only [hp] at hstep
    cases hstep
    simp [Spsc.producerStep, spsc, hp, asProducer, ring, moveTo]
  | copied message w =>
    simp only [hp, maskIncrement_eq hmask] at hstep
    cases hstep
    simp [Spsc.producerStep, spsc, hp, asProducer, ring, moveTo, finish, Spsc.finish]

omit [DecidableEq P] in
theorem spsc_consumerStep (hmask : s.mask + 1 = 2 ^ b)
    (hread : ∀ r, s.consumer = .notEmpty r → r = s.readIndex)
    (hbegun : ∀ r, s.consumer ≠ .readFirst r) (hstep : s.consumerStep copy = some s') :
    (s.spsc copy p).consumerStep = some (s'.spsc copy p) := by
  rw [consumerStep] at hstep
  cases hc : s.consumer with
  | idle => simp [hc] at hstep
  | readFirst r => exact absurd hc (hbegun r)
  | loaded w =>
    simp only [hc] at hstep
    simp only [Spsc.consumerStep, spsc, hc, asConsumer, ring]
    split at hstep <;> cases hstep
    · rename_i hempty
      simp [hempty, ConsumerOp.failed]
    · rename_i hmore
      simp [hmore]
  | notEmpty r =>
    simp only [hc] at hstep
    cases hstep
    simp [Spsc.consumerStep, spsc, hc, asConsumer, ring, hread r hc]
  | copied message r =>
    simp only [hc, maskIncrement_eq hmask] at hstep
    cases hstep
    simp [Spsc.consumerStep, spsc, hc, asConsumer, ring, finish, Spsc.finish]

omit [DecidableEq P] in
/-- The two loads of the library's pop that decide whether the ring is empty are the call and the
next step of a pop that loads the write index first. -/
theorem spsc_readFirst (hc : s.consumer = .readFirst s.readIndex)
    (hstep : s.consumerStep copy = some s') :
    Runs.run Spsc.step (s.spsc copy p) [.call .pop, .consumer] = some (s'.spsc copy p) := by
  rw [consumerStep, hc] at hstep
  dsimp only at hstep
  split at hstep <;> cases hstep
  · rename_i hempty
    simp [Runs.run_cons, Spsc.step, Spsc.consumerStep, spsc, hc, asConsumer, ring, hempty, finish,
      ConsumerOp.failed]
  · rename_i hmore
    simp [Runs.run_cons, Spsc.step, Spsc.consumerStep, spsc, hc, asConsumer, ring, hmore]

theorem producerStep_frame (hstep : s.producerStep copy p = some s') :
    (s'.mask = s.mask ∧ s'.readIndex = s.readIndex ∧ s'.consumer = s.consumer) ∧
      ∀ q, q ≠ p → s'.producer q = s.producer q := by
  rw [producerStep] at hstep
  split at hstep
  · cases hstep
  · split at hstep <;> cases hstep <;>
      exact ⟨⟨rfl, rfl, rfl⟩, fun q hq => update_of_ne hq _ _⟩
  all_goals
    cases hstep
    exact ⟨⟨rfl, rfl, rfl⟩, fun q hq => update_of_ne hq _ _⟩

omit [DecidableEq P] in
theorem consumerStep_frame (hstep : s.consumerStep copy = some s') :
    s'.mask = s.mask ∧ s'.producer = s.producer ∧ ∀ r, s'.consumer ≠ .readFirst r := by
  rw [consumerStep] at hstep
  split at hstep
  · cases hstep
  · split at hstep <;> cases hstep <;> exact ⟨rfl, rfl, by simp⟩
  · split at hstep <;> cases hstep <;> exact ⟨rfl, rfl, by simp⟩
  · cases hstep
    exact ⟨rfl, rfl, by simp⟩
  · cases hstep
    exact ⟨rfl, rfl, by simp⟩

/-- At most one thread is in its call, and with it the ring is one of `Spsc`. -/
structure Follows (copy : M → M → M) (b : ℕ) (s : MsgRing P M) : Prop where
  mask : s.mask + 1 = 2 ^ b
  readFirst : ∀ r, s.consumer = .readFirst r → r = s.readIndex
  thread : ∃ p xs taken, (∀ q, q ≠ p → s.producer q = .idle) ∧
    (s.spsc copy p).Consistent (2 ^ b) xs taken

namespace Follows

omit [DecidableEq P] in
theorem init [Nonempty P] (b : ℕ) (buf : ℕ → M) (element : M) :
    Follows copy b (init P (2 ^ b) buf element) where
  mask := Nat.sub_add_cancel Nat.one_le_two_pow
  readFirst := by simp [MsgRing.init]
  thread := by
    obtain ⟨p⟩ := ‹Nonempty P›
    have hinit : (MsgRing.init P (2 ^ b) buf element).spsc copy p = Spsc.init (2 ^ b) buf := by
      simp [spsc, MsgRing.init, ring, asProducer, asConsumer, Spsc.init, Shmring.shmringCreate,
        Nat.sub_add_cancel Nat.one_le_two_pow]
    refine ⟨p, [], 0, fun _ _ => rfl, ?_⟩
    rw [hinit]
    exact Spsc.consistent_init Nat.one_le_two_pow buf

theorem step {a : Act P M} (h : Follows copy b s) (ha : s.Alone a)
    (hstep : s.step copy a = some s') : Follows copy b s' := by
  obtain ⟨hmask, hfirst, p, xs, taken, hidle, hc⟩ := h
  cases a with
  | push p' x =>
    rw [MsgRing.step, ha p'] at hstep
    cases hstep
    refine ⟨hmask, hfirst, p', xs, taken, fun q hq => ?_, ?_⟩
    · exact (update_of_ne hq _ _).trans (ha q)
    · have hpush := hc.push (copy x (s.buf s.writeIndex))
      simpa [spsc, moveTo, asProducer, ring] using hpush
  | producer p' =>
    rcases eq_or_ne p' p with rfl | hne
    · obtain ⟨⟨hmask', hread', hconsumer'⟩, hothers⟩ := producerStep_frame hstep
      have hmoved : (s.spsc copy p').step .producer = some (s'.spsc copy p') :=
        spsc_producerStep hmask hstep
      obtain ⟨xs', taken', hc'⟩ := hc.step hmoved
      refine ⟨by rwa [hmask'], ?_, p', xs', taken', fun q hq => (hothers q hq).trans (hidle q hq),
        hc'⟩
      rw [hread', hconsumer']
      exact hfirst
    · rw [MsgRing.step, producerStep, hidle p' hne] at hstep
      cases hstep
  | pop =>
    rw [MsgRing.step] at hstep
    split at hstep
    · rename_i hfree
      cases hstep
      have hcall := hc.call (by simp only [spsc, hfree, asConsumer]) .pop
      exact ⟨hmask, by simp, p, xs, taken, hidle, hcall⟩
    · cases hstep
  | popReadFirst =>
    rw [MsgRing.step] at hstep
    split at hstep
    · rename_i hfree
      cases hstep
      refine ⟨hmask, by simp, p, xs, taken, hidle, ?_⟩
      simpa only [spsc, hfree, asConsumer, ring] using hc
    · cases hstep
  | consumer =>
    obtain ⟨hmask', hproducer, hbegun⟩ := consumerStep_frame hstep
    have hidle' : ∀ q, q ≠ p → s'.producer q = .idle := fun q hq => by rw [hproducer, hidle q hq]
    by_cases hearly : ∃ r, s.consumer = .readFirst r
    · obtain ⟨r, hr⟩ := hearly
      rw [hfirst r hr] at hr
      obtain ⟨t, hcall, hrest⟩ := Runs.run_cons_eq_some.mp (spsc_readFirst (p := p) hr hstep)
      obtain ⟨t', hmoved, hend⟩ := Runs.run_cons_eq_some.mp hrest
      cases hend
      obtain ⟨xs₁, taken₁, hc₁⟩ := hc.step hcall
      obtain ⟨xs', taken', hc'⟩ := hc₁.step hmoved
      exact ⟨by rwa [hmask'], fun r hr => absurd hr (hbegun r), p, xs', taken', hidle', hc'⟩
    have hread : ∀ r, s.consumer = .notEmpty r → r = s.readIndex := by
      intro r hr
      have hknows := hc.consumer
      simp only [spsc, hr, asConsumer] at hknows
      exact hknows.1
    have hmoved : (s.spsc copy p).step .consumer = some (s'.spsc copy p) :=
      spsc_consumerStep hmask hread (fun r hr => hearly ⟨r, hr⟩) hstep
    obtain ⟨xs', taken', hc'⟩ := hc.step hmoved
    exact ⟨by rwa [hmask'], fun r hr => absurd hr (hbegun r), p, xs', taken', hidle', hc'⟩

theorem of_run [Nonempty P] {buf : ℕ → M} {element : M} {acts : List (Act P M)}
    (halone : Runs.Along (MsgRing.step copy) Alone (MsgRing.init P (2 ^ b) buf element) acts)
    (hrun : Runs.run (MsgRing.step copy) (MsgRing.init P (2 ^ b) buf element) acts = some s) :
    Follows copy b s :=
  Runs.invariant_of_along (fun _ _ _ h ha hstep => h.step ha hstep) (init b buf element) halone hrun

end Follows

/-- Where the pushes of the threads do not overlap, every run is a history of a queue of one message
less than the ring has slots, and the calls return what they did. -/
theorem msgRing_refines_fifo [Nonempty P] (copy : M → M → M) (maxBufs : ℕ)
    (hsize : maxBufs = 2 ^ b) (buf : ℕ → M) (element : M) (acts : List (Act P M))
    (halone : Runs.Along (step copy) Alone (init P maxBufs buf element) acts)
    (hrun : Runs.run (step copy) (init P maxBufs buf element) acts = some s) :
    History (maxBufs - 1) s.effects s.ring.contents ∧
      s.effects.filter Event.isPush = s.returns.filter Event.isPush ∧
      (s.consumer = .idle →
        s.effects.filter (fun e => !e.isPush) = s.returns.filter (fun e => !e.isPush)) := by
  subst hsize
  obtain ⟨-, -, p, xs, taken, -, h⟩ := Follows.of_run halone hrun
  have hcontents : s.ring.contents = xs.drop taken := h.queues.contents_eq
  rw [hcontents]
  refine ⟨h.history, h.pushes, fun hidle => h.others_eq ?_⟩
  simp only [Spsc.pending, spsc, hidle, asConsumer]

theorem msgRing_refines_fifo_overlap :
    ∃ s, Runs.run (step fun m _ => m) (init Unit ntsMaxBufs (fun _ => 0) 0)
        [.push () 7, .producer (), .producer (), .pop, .producer (), .consumer] = some s ∧
      History 15 s.effects s.ring.contents ∧ s.ring.contents = [7] :=
  have h := msgRing_refines_fifo (P := Unit) (b := 4) (fun m _ => m) ntsMaxBufs rfl (fun _ => 0) 0
    [.push () 7, .producer (), .producer (), .pop, .producer (), .consumer]
    ⟨fun _ => rfl, fun _ _ => ⟨trivial, fun _ _ => ⟨trivial, fun _ _ => ⟨trivial,
      fun _ _ => ⟨trivial, fun _ _ => ⟨trivial, fun _ _ => trivial⟩⟩⟩⟩⟩⟩
    rfl
  ⟨_, rfl, h.1, rfl⟩

/-- Two threads that push at the same time, both of which have loaded the write index. -/
def overlap (p q : P) (x y : M) : List (Act P M) :=
  [.push p x, .push q y, .producer p, .producer q, .producer p, .producer q, .producer p,
    .producer q]

/-- Whenever the ring has room and two threads are about to push, both pushes may return true with
only one message added: the second one has been copied over the first. -/
theorem overlapping_pushes_lose [Nonempty P] (copy : M → M → M) (maxBufs : ℕ)
    (hsize : maxBufs = 2 ^ b) (buf : ℕ → M) (element : M) (acts : List (Act P M))
    (halone : Runs.Along (step copy) Alone (init P maxBufs buf element) acts)
    (hrun : Runs.run (step copy) (init P maxBufs buf element) acts = some s) {p q : P} (hne : p ≠ q)
    (hp : s.producer p = .idle) (hq : s.producer q = .idle)
    (hroom : s.ring.contents.length < maxBufs - 1) (x y : M) :
    ∃ s' x' y', Runs.run (step copy) s (overlap p q x y) = some s' ∧
      s'.returns = s.returns ++ [.push x' true, .push y' true] ∧
      s'.ring.contents = s.ring.contents ++ [y'] := by
  subst hsize
  obtain ⟨hmask, -, p₀, xs, taken, -, h⟩ := Follows.of_run halone hrun
  have hqueues : s.ring.Queues (2 ^ b) xs taken := h.queues
  have hle := hqueues.taken_le
  rw [hqueues.contents_eq, List.length_drop] at hroom
  have hfull : ¬ maskIncrement s.writeIndex s.mask = s.readIndex := by
    rw [maskIncrement_eq hmask]
    intro heq
    have hlen := hqueues.full_iff.mp heq
    omega
  have hmap : (Runs.run (step copy) s (overlap p q x y)).map (fun t => (t.returns, t.ring)) =
      some (s.returns ++ [.push (copy x (s.buf s.writeIndex)) true,
        .push (copy y (copy x (s.buf s.writeIndex))) true],
        { s.ring with
          data := update (update s.buf s.writeIndex (copy x (s.buf s.writeIndex)))
            s.writeIndex (copy y (copy x (s.buf s.writeIndex)))
          writeIdx := maskIncrement s.writeIndex s.mask }) := by
    simp [overlap, Runs.run_cons, step, producerStep, moveTo, finish, ring, hp, hq, hne, hne.symm,
      hfull]
  obtain ⟨s', hs', hpair⟩ := Option.map_eq_some_iff.mp hmap
  obtain ⟨hreturns, hring⟩ := Prod.mk.inj hpair
  refine ⟨s', _, _, hs', hreturns, ?_⟩
  -- both copies go to the slot behind the messages, and one store makes it one of them
  have hboth := ((hqueues.overwrite (copy x (s.buf s.writeIndex))).overwrite
    (copy y (copy x (s.buf s.writeIndex)))).publish (by omega)
  rw [hring, maskIncrement_eq hmask, hqueues.contents_eq]
  refine hboth.contents_eq.trans ?_
  rw [List.drop_append_of_le_length hle]
  exact congrArg (xs.drop taken ++ [·]) (update_self _ _ _)

theorem overlapping_pushes_lose_first :
    ∃ s' x' y', Runs.run (step fun m _ => m) (init Bool ntsMaxBufs (fun _ => 0) 0)
        (overlap true false 7 9) = some s' ∧
      s'.returns = [.push x' true, .push y' true] ∧ s'.ring.contents = [y'] := by
  exact overlapping_pushes_lose (P := Bool) (b := 4) (fun m _ => m) ntsMaxBufs rfl (fun _ => 0) 0 []
    trivial rfl (by decide : true ≠ false) rfl rfl (by decide) 7 9

end MsgRing

end NtSocks
