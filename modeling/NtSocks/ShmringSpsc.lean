import NtSocks.Lib.Fifo
import NtSocks.Lib.Runs
import NtSocks.Shmring

/-!
# One producer and one consumer at the shared memory ring

The calls of the two sides are cut at their accesses to shared memory: the loads of both indices,
the copy of the element and the store of one index. The steps of the two sides alternate in any
order. `effects` and `returns` are the histories of what the calls do and of what they return. A
call takes effect with one of its steps: a push with the store, or with the load of the read index
that refuses it; a pop with the store; `shmring_front` with its copy. A call of the consumer that
fails has taken effect already with the load of the write index, since the ring was empty then.
-/

namespace NtSocks

open Fifo Function

inductive ConsumerOp
  | pop
  | plainPop
  | front
  deriving DecidableEq

def ConsumerOp.failed {α : Type*} : ConsumerOp → Event α
  | .pop => .pop none
  | .plainPop => .drop false
  | .front => .front none

inductive Producer (α : Type*)
  | idle
  | loaded (element : α) (wIdx : ℕ)
  | notFull (element : α) (wIdx : ℕ)
  | copied (element : α) (wIdx : ℕ)

inductive Consumer (α : Type*)
  | idle
  | loaded (op : ConsumerOp) (wIdx : ℕ)
  | notEmpty (op : ConsumerOp) (rIdx : ℕ)
  | copied (element : α) (rIdx : ℕ)

structure Spsc (α : Type*) where
  ring : Shmring α
  producer : Producer α
  consumer : Consumer α
  effects : List (Event α)
  returns : List (Event α)

namespace Spsc

variable {α : Type*}

inductive Act (α : Type*)
  /-- A call of `shmring_push`, up to its first load. -/
  | push (element : α)
  /-- The next step of the producer. -/
  | producer
  /-- A call of the consumer, up to its first load. -/
  | call (op : ConsumerOp)
  /-- The next step of the consumer. -/
  | consumer

def init (capacity : ℕ) (data : ℕ → α) : Spsc α where
  ring := .shmringCreate capacity data
  producer := .idle
  consumer := .idle
  effects := []
  returns := []

variable (s : Spsc α)

def finish (e : Event α) : Spsc α :=
  { s with effects := s.effects ++ [e], returns := s.returns ++ [e] }

def producerStep : Option (Spsc α) :=
  match s.producer with
  | .idle => none
  | .loaded x w =>
    if Shmring.increment w s.ring.capacity = s.ring.readIdx then
      some { s.finish (.push x false) with producer := .idle }
    else some { s with producer := .notFull x w }
  | .notFull x w =>
    some { s with
      ring := { s.ring with data := update s.ring.data w x }
      producer := .copied x w }
  | .copied x w =>
    some { s.finish (.push x true) with
      ring := { s.ring with writeIdx := Shmring.increment w s.ring.capacity }
      producer := .idle }

def consumerStep : Option (Spsc α) :=
  match s.consumer with
  | .idle => none
  | .loaded op w =>
    if w = s.ring.readIdx then
      some { s with consumer := .idle, returns := s.returns ++ [op.failed] }
    else some { s with consumer := .notEmpty op s.ring.readIdx }
  | .notEmpty .pop r => some { s with consumer := .copied (s.ring.data r) r }
  | .notEmpty .plainPop r =>
    some { s.finish (.drop true) with
      ring := { s.ring with readIdx := Shmring.nextIndex r s.ring.capacity }
      consumer := .idle }
  | .notEmpty .front r => some { s.finish (.front (some (s.ring.data r))) with consumer := .idle }
  | .copied x r =>
    some { s.finish (.pop (some x)) with
      ring := { s.ring with readIdx := Shmring.increment r s.ring.capacity }
      consumer := .idle }

def step : Act α → Option (Spsc α)
  | .push x =>
    match s.producer with
    | .idle => some { s with producer := .loaded x s.ring.writeIdx }
    | _ => none
  | .producer => s.producerStep
  | .call op =>
    match s.consumer with
    | .idle =>
      some { s with
        consumer := .loaded op s.ring.writeIdx
        effects :=
          if s.ring.writeIdx = s.ring.readIdx then s.effects ++ [op.failed] else s.effects }
    | _ => none
  | .consumer => s.consumerStep

def pending : List (Event α) :=
  match s.consumer with
  | .loaded op w => if w = s.ring.readIdx then [op.failed] else []
  | _ => []

end Spsc

namespace Shmring.Queues

variable {α : Type*} {r : Shmring α} {cap taken : ℕ} {xs : List α}

theorem overwrite (h : Queues r cap xs taken) (x : α) :
    Queues { r with data := update r.data r.writeIdx x } cap xs taken where
  capacity := h.capacity
  writeIdx := h.writeIdx
  readIdx := h.readIdx
  taken_le := h.taken_le
  length_lt := h.length_lt
  data := by
    intro k hk hle
    have hlt := h.length_lt
    have hne : k % cap ≠ r.writeIdx := by
      rw [h.writeIdx]
      exact RingIndex.mod_ne_of_window hk (by omega)
    exact (update_of_ne hne _ _).trans (h.data k hk hle)

theorem publish (h : Queues r cap xs taken) (hroom : xs.length + 1 < taken + cap) :
    Queues { r with writeIdx := increment r.writeIdx r.capacity } cap
      (xs ++ [r.data r.writeIdx]) taken where
  capacity := h.capacity
  writeIdx := by
    rw [increment, h.capacity, h.writeIdx, Nat.mod_add_mod, List.length_append,
      List.length_singleton]
  readIdx := h.readIdx
  taken_le := by
    rw [List.length_append]
    exact h.taken_le.trans (Nat.le_add_right _ _)
  length_lt := by
    rw [List.length_append, List.length_singleton]
    exact hroom
  data := by
    intro k hk hle
    rw [List.length_append, List.length_singleton] at hk
    by_cases hlast : k = xs.length
    · subst hlast
      rw [List.getElem_concat_length rfl, h.writeIdx]
    · have hlt : k < xs.length := by omega
      rw [List.getElem_append_left hlt]
      exact h.data k hlt hle

end Shmring.Queues

namespace Spsc

variable {α : Type*} {s s' : Spsc α} {cap taken : ℕ} {xs : List α} {ring : Shmring α}

def ProducerKnows (ring : Shmring α) (cap : ℕ) (xs : List α) (taken : ℕ) : Producer α → Prop
  | .idle => True
  | .loaded _ w => w = ring.writeIdx
  | .notFull _ w => w = ring.writeIdx ∧ xs.length + 1 < taken + cap
  | .copied x w => w = ring.writeIdx ∧ xs.length + 1 < taken + cap ∧ ring.data w = x

/-- What the consumer knows; the write index that it has loaded may be an old one. -/
def ConsumerKnows (ring : Shmring α) (cap : ℕ) (xs : List α) (taken : ℕ) : Consumer α → Prop
  | .idle => True
  | .loaded _ w => ∃ k, w = k % cap ∧ taken ≤ k ∧ k ≤ xs.length
  | .notEmpty _ r => r = ring.readIdx ∧ taken < xs.length
  | .copied x r => r = ring.readIdx ∧ xs[taken]? = some x

theorem ProducerKnows.advance {p : Producer α} (h : ProducerKnows ring cap xs taken p) (readIdx : ℕ)
    : ProducerKnows { ring with readIdx := readIdx } cap xs (taken + 1) p := by
  cases p with
  | idle => trivial
  | loaded x w => exact h
  | notFull x w => exact ⟨h.1, by have := h.2; omega⟩
  | copied x w => exact ⟨h.1, by have := h.2.1; omega, h.2.2⟩

theorem ConsumerKnows.append {c : Consumer α} (h : ConsumerKnows ring cap xs taken c) (x : α)
    (writeIdx : ℕ) : ConsumerKnows { ring with writeIdx := writeIdx } cap (xs ++ [x]) taken c := by
  have hle : xs.length ≤ (xs ++ [x]).length := by simp
  cases c with
  | idle => trivial
  | loaded op w =>
    obtain ⟨k, hk, hge, hk'⟩ := h
    exact ⟨k, hk, hge, hk'.trans hle⟩
  | notEmpty op r => exact ⟨h.1, h.2.trans_le hle⟩
  | copied y r =>
    refine ⟨h.1, ?_⟩
    rw [List.getElem?_append_left (List.getElem?_eq_some_iff.mp h.2).1]
    exact h.2

/-- The ring has received `xs` and given away `taken` of them, and the effects of the calls are a
history of the queue of the others. -/
structure Consistent (s : Spsc α) (cap : ℕ) (xs : List α) (taken : ℕ) : Prop where
  queues : s.ring.Queues cap xs taken
  producer : ProducerKnows s.ring cap xs taken s.producer
  consumer : ConsumerKnows s.ring cap xs taken s.consumer
  history : History (cap - 1) s.effects (xs.drop taken)
  pushes : s.effects.filter Event.isPush = s.returns.filter Event.isPush
  others : s.effects.filter (fun e => !e.isPush) =
    s.returns.filter (fun e => !e.isPush) ++ s.pending

theorem consistent_init (hcap : 1 ≤ cap) (data : ℕ → α) : (init cap data).Consistent cap [] 0 where
  queues := Shmring.Queues.init hcap data
  producer := trivial
  consumer := trivial
  history := .nil
  pushes := rfl
  others := rfl

namespace Consistent

variable (h : s.Consistent cap xs taken) {op : ConsumerOp} {x : α} {w r : ℕ}
include h

theorem length_drop : (xs.drop taken).length + taken = xs.length := by
  have hle := h.queues.taken_le
  rw [List.length_drop]
  omega

theorem others_eq (hpending : s.pending = []) :
    s.effects.filter (fun e => !e.isPush) = s.returns.filter (fun e => !e.isPush) := by
  rw [h.others, hpending, List.append_nil]

theorem push (x : α) : Consistent { s with producer := .loaded x s.ring.writeIdx } cap xs taken :=
  { h with producer := rfl }

theorem producer_loaded (hprod : s.producer = .loaded x w) (hstep : s.producerStep = some s') :
    s'.Consistent cap xs taken := by
  have hw := h.producer
  have hlen := h.length_drop
  have hlt := h.queues.length_lt
  rw [hprod] at hw
  change w = s.ring.writeIdx at hw
  rw [producerStep, hprod] at hstep
  dsimp only at hstep
  rw [hw] at hstep
  split_ifs at hstep with hfull
  · cases hstep
    rw [h.queues.full_iff] at hfull
    refine ⟨h.queues, trivial, h.consumer, h.history.snoc (.full (by omega)), ?_, ?_⟩
    · simp only [finish, List.filter_append, h.pushes]
    · simp only [finish, List.filter_append, h.others]
      simp [Event.isPush, pending]
  · cases hstep
    rw [h.queues.full_iff] at hfull
    exact { h with producer := ⟨rfl, by omega⟩ }

theorem producer_notFull (hprod : s.producer = .notFull x w) (hstep : s.producerStep = some s') :
    s'.Consistent cap xs taken := by
  have hw := h.producer
  rw [hprod] at hw
  obtain ⟨rfl, hroom⟩ := hw
  rw [producerStep, hprod] at hstep
  cases hstep
  refine ⟨h.queues.overwrite x, ⟨rfl, hroom, update_self _ _ _⟩, ?_, h.history, h.pushes, h.others⟩
  exact h.consumer

theorem producer_copied (hprod : s.producer = .copied x w) (hstep : s.producerStep = some s') :
    s'.Consistent cap (xs ++ [x]) taken := by
  have hw := h.producer
  have hlen := h.length_drop
  rw [hprod] at hw
  obtain ⟨rfl, hroom, hdata⟩ := hw
  rw [producerStep, hprod] at hstep
  cases hstep
  have hqueues := h.queues.publish hroom
  rw [hdata] at hqueues
  refine ⟨hqueues, trivial, h.consumer.append x _, ?_, ?_, ?_⟩
  · rw [List.drop_append_of_le_length h.queues.taken_le]
    exact h.history.snoc (.push (by omega))
  · simp only [finish, List.filter_append, h.pushes]
  · simp only [finish, List.filter_append, h.others]
    simp [Event.isPush, pending]

theorem call (hidle : s.consumer = .idle) (op : ConsumerOp) :
    Consistent { s with
      consumer := .loaded op s.ring.writeIdx
      effects := if s.ring.writeIdx = s.ring.readIdx then s.effects ++ [op.failed] else s.effects }
      cap xs taken := by
  have hpending : s.pending = [] := by rw [pending, hidle]
  have hothers := h.others_eq hpending
  have hloaded : ConsumerKnows s.ring cap xs taken (.loaded op s.ring.writeIdx) :=
    ⟨xs.length, h.queues.writeIdx, h.queues.taken_le, le_rfl⟩
  have hnot : (op.failed : Event α).isPush = false := by cases op <;> rfl
  by_cases hempty : s.ring.writeIdx = s.ring.readIdx
  · have hnil : xs.drop taken = [] := by
      rw [List.drop_eq_nil_iff, h.queues.empty_iff.mp hempty]
    have hfail : Step (cap - 1) (xs.drop taken) (op.failed : Event α) (xs.drop taken) := by
      rw [hnil]
      cases op with
      | pop => exact .popEmpty
      | plainPop => exact .dropEmpty
      | front => exact .frontEmpty
    simp only [if_pos hempty]
    refine ⟨h.queues, h.producer, hloaded, h.history.snoc hfail, ?_, ?_⟩
    · simp only [List.filter_append, h.pushes]
      simp [hnot]
    · simp only [List.filter_append, hothers]
      simp [hnot, pending, hempty]
  · simp only [if_neg hempty]
    refine ⟨h.queues, h.producer, hloaded, h.history, h.pushes, ?_⟩
    simp [hothers, pending, hempty]

theorem consumer_loaded (hcons : s.consumer = .loaded op w) (hstep : s.consumerStep = some s') :
    s'.Consistent cap xs taken := by
  have hw := h.consumer
  have hothers := h.others
  have hlt := h.queues.length_lt
  have hnot : (op.failed : Event α).isPush = false := by cases op <;> rfl
  rw [hcons] at hw
  obtain ⟨k, hk, hge, hle⟩ := hw
  rw [pending, hcons] at hothers
  rw [consumerStep, hcons] at hstep
  dsimp only at hstep hothers
  split_ifs at hstep hothers with hempty
  · cases hstep
    refine ⟨h.queues, h.producer, trivial, h.history, ?_, ?_⟩
    · rw [h.pushes]
      simp [List.filter_append, hnot]
    · rw [hothers]
      simp [List.filter_append, hnot, pending]
  · cases hstep
    have hmore : taken < xs.length := by
      rcases hge.lt_or_eq with hlt' | rfl
      · exact hlt'.trans_le hle
      · exact absurd (hk.trans h.queues.readIdx.symm) hempty
    refine ⟨h.queues, h.producer, ⟨rfl, hmore⟩, h.history, h.pushes, ?_⟩
    rw [hothers]
    rfl

theorem data_readIdx (hlt : taken < xs.length) :
    xs[taken]? = some (s.ring.data s.ring.readIdx) := by
  rw [h.queues.readIdx, h.queues.data taken hlt le_rfl, List.getElem?_eq_getElem hlt]

omit h in
theorem drop_eq (hlt : taken < xs.length) (hx : xs[taken]? = some x) :
    xs.drop taken = x :: xs.drop (taken + 1) := by
  rw [List.drop_eq_getElem_cons hlt]
  rw [List.getElem?_eq_getElem hlt, Option.some.injEq] at hx
  rw [hx]

theorem take (hlt : taken < xs.length) {e : Event α}
    (he : Step (cap - 1) (xs.drop taken) e (xs.drop (taken + 1))) (hpending : s.pending = []) :
    Consistent { s.finish e with
      ring := { s.ring with readIdx := Shmring.increment s.ring.readIdx s.ring.capacity }
      consumer := .idle } cap xs (taken + 1) := by
  refine ⟨h.queues.advance hlt, h.producer.advance _, trivial, h.history.snoc he, ?_, ?_⟩
  · simp only [finish, List.filter_append, h.pushes]
  · simp only [finish, List.filter_append, h.others_eq hpending]
    simp [pending]

theorem consumer_notEmpty (hcons : s.consumer = .notEmpty op r) (hstep : s.consumerStep = some s') :
    ∃ taken', s'.Consistent cap xs taken' := by
  have hw := h.consumer
  have hpending : s.pending = [] := by rw [pending, hcons]
  rw [hcons] at hw
  obtain ⟨rfl, hlt⟩ := hw
  have hdata := h.data_readIdx hlt
  have hdrop := drop_eq hlt hdata
  rw [consumerStep, hcons] at hstep
  cases op with
  | pop =>
    cases hstep
    refine ⟨taken, h.queues, h.producer, ⟨rfl, hdata⟩, h.history, h.pushes, ?_⟩
    rw [h.others_eq hpending]
    simp [pending]
  | plainPop =>
    have hcap : 0 < s.ring.capacity := by
      rw [h.queues.capacity]
      exact h.queues.cap_pos
    dsimp only at hstep
    rw [Shmring.nextIndex_eq_increment hcap] at hstep
    cases hstep
    exact ⟨taken + 1, h.take hlt (hdrop ▸ .drop) hpending⟩
  | front =>
    cases hstep
    refine ⟨taken, h.queues, h.producer, trivial, ?_, ?_, ?_⟩
    · refine h.history.snoc ?_
      rw [hdrop]
      exact .front
    · simp only [finish, List.filter_append, h.pushes]
    · simp only [finish, List.filter_append, h.others_eq hpending]
      simp [pending]

theorem consumer_copied (hcons : s.consumer = .copied x r) (hstep : s.consumerStep = some s') :
    s'.Consistent cap xs (taken + 1) := by
  have hw := h.consumer
  have hpending : s.pending = [] := by rw [pending, hcons]
  rw [hcons] at hw
  obtain ⟨rfl, hx⟩ := hw
  obtain ⟨hlt, -⟩ := List.getElem?_eq_some_iff.mp hx
  rw [consumerStep, hcons] at hstep
  cases hstep
  exact h.take hlt (drop_eq hlt hx ▸ .pop) hpending

theorem step {act : Act α} (hstep : s.step act = some s') :
    ∃ xs' taken', s'.Consistent cap xs' taken' := by
  cases act with
  | push x =>
    rw [Spsc.step] at hstep
    split at hstep
    · cases hstep
      exact ⟨xs, taken, h.push x⟩
    · cases hstep
  | producer =>
    cases hprod : s.producer with
    | idle =>
      rw [Spsc.step, producerStep, hprod] at hstep
      cases hstep
    | loaded x w => exact ⟨xs, taken, h.producer_loaded hprod hstep⟩
    | notFull x w => exact ⟨xs, taken, h.producer_notFull hprod hstep⟩
    | copied x w => exact ⟨xs ++ [x], taken, h.producer_copied hprod hstep⟩
  | call op =>
    rw [Spsc.step] at hstep
    split at hstep
    · next hidle =>
        cases hstep
        exact ⟨xs, taken, h.call hidle op⟩
    · cases hstep
  | consumer =>
    cases hcons : s.consumer with
    | idle =>
      rw [Spsc.step, consumerStep, hcons] at hstep
      cases hstep
    | loaded op w => exact ⟨xs, taken, h.consumer_loaded hcons hstep⟩
    | notEmpty op r => exact ⟨xs, h.consumer_notEmpty hcons hstep⟩
    | copied x r => exact ⟨xs, taken + 1, h.consumer_copied hcons hstep⟩

end Consistent

/-- Every run of the two sides is a history of a queue of `capacity - 1` elements, and what a call
returns is what it did. Every call takes effect while it runs: at any time the effects of the
producer are what it has returned, and those of the consumer too, up to a call that is about to
fail. -/
theorem spsc_refines_fifo (capacity : ℕ) (hcap : 1 ≤ capacity) (data : ℕ → α) (acts : List (Act α))
    (t : Spsc α) (hrun : Runs.run step (init capacity data) acts = some t) :
    History (capacity - 1) t.effects t.ring.contents ∧
      t.effects.filter Event.isPush = t.returns.filter Event.isPush ∧
      t.effects.filter (fun e => !e.isPush) =
        t.returns.filter (fun e => !e.isPush) ++ t.pending := by
  have hinv : ∃ xs taken, t.Consistent capacity xs taken := by
    refine Runs.invariant (I := fun s : Spsc α => ∃ xs taken, s.Consistent capacity xs taken) ?_
      ⟨[], 0, consistent_init hcap data⟩ hrun
    rintro s act s' ⟨xs, taken, h⟩ hstep
    exact h.step hstep
  obtain ⟨xs, taken, h⟩ := hinv
  rw [h.queues.contents_eq]
  exact ⟨h.history, h.pushes, h.others⟩

section Sample

theorem spsc_refines_fifo_overlap :
    ∃ t, Runs.run step (init 2 fun _ => (0 : ℕ))
        [.push 7, .producer, .producer, .call .pop, .producer, .consumer] = some t ∧
      History 1 t.effects t.ring.contents ∧ t.ring.contents = [7] ∧
      t.effects.filter Event.isPush = t.returns.filter Event.isPush :=
  have h := spsc_refines_fifo 2 (by decide) (fun _ => (0 : ℕ))
    [.push 7, .producer, .producer, .call .pop, .producer, .consumer] _ rfl
  ⟨_, rfl, h.1, rfl, h.2.1⟩

end Sample

end Spsc

end NtSocks
