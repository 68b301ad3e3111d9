import NtSocks.Lib.Census
import NtSocks.Lib.Runs

/-!
# A ring that semaphores guard

Any number of producers and one consumer share a ring. `slots` counts free slots, `mutex` admits one
producer at a time to its section, and `signals` counts the entries announced to the consumer. Every
semaphore operation and every section is one step, and the steps of the parties interleave in any
way.

What the ring is and what the sections do to it is left open. If the producers' section keeps an
invariant of the ring whenever fewer than `cap` entries are in it, and the consumer's section
whenever there is one, then the invariant holds in every interleaving.
-/

namespace GuardedRing

open Function

inductive PushPhase (E : Type*) where
  | idle
  | atSlots (e : E)
  | atMutex (e : E)
  | critical (e : E)
  | leaving
  | signalling

inductive PopPhase where
  | atSignals
  | reading
  | releasing
  deriving DecidableEq

structure Sections (E X R : Type*) where
  write : E → R → R
  read : X → R → R

/-- `lost` counts the slots taken by calls that failed before they could fill them. -/
structure State (P E R : Type*) where
  slots : ℕ
  signals : ℕ
  mutex : ℕ
  ring : R
  producer : P → PushPhase E
  consumer : PopPhase
  lost : ℕ

/-- A wait that is interrupted ends the call it belongs to. -/
inductive Action (P E X : Type*) where
  | push (p : P) (e : E)
  | waitSlots (p : P)
  | interruptSlots (p : P)
  | waitMutex (p : P)
  | interruptMutex (p : P)
  | writeSection (p : P)
  | postMutex (p : P)
  | postSignals (p : P)
  | waitSignals
  | readSection (x : X)
  | postSlots

namespace PushPhase

variable {E : Type*}

def holdsSlot : PushPhase E → ℕ
  | .atMutex _ | .critical _ => 1
  | _ => 0

def holdsMutex : PushPhase E → ℕ
  | .critical _ | .leaving => 1
  | _ => 0

def owesSignal : PushPhase E → ℕ
  | .leaving | .signalling => 1
  | _ => 0

def stepsLeft : PushPhase E → ℕ
  | .idle => 0
  | .atSlots _ => 8
  | .atMutex _ => 7
  | .critical _ => 6
  | .leaving => 5
  | .signalling => 4

end PushPhase

namespace PopPhase

def owesRead : PopPhase → ℕ
  | .reading => 1
  | _ => 0

def owesSlot : PopPhase → ℕ
  | .releasing => 1
  | _ => 0

def stepsLeft : PopPhase → ℕ
  | .atSignals => 0
  | .reading => 2
  | .releasing => 1

end PopPhase

def Action.starts {P E X : Type*} : Action P E X → Bool
  | .push .. => true
  | _ => false

/-- The action is neither a new push nor an interrupted wait. -/
def Action.proceeds {P E X : Type*} : Action P E X → Bool
  | .push .. | .interruptSlots _ | .interruptMutex _ => false
  | _ => true

namespace State

variable {P E X R : Type*}

def init (P E : Type*) (cap : ℕ) (ring : R) : State P E R where
  slots := cap
  signals := 0
  mutex := 1
  ring := ring
  producer := fun _ => .idle
  consumer := .atSignals
  lost := 0

def Quiet (s : State P E R) : Prop := (∀ p, s.producer p = .idle) ∧ s.consumer = .atSignals

variable [DecidableEq P] (sec : Sections E X R) (s : State P E R)

def moveTo (p : P) (phase : PushPhase E) : State P E R :=
  { s with producer := update s.producer p phase }

def step : Action P E X → Option (State P E R)
  | .push p e =>
    match s.producer p with
    | .idle => some (s.moveTo p (.atSlots e))
    | _ => none
  | .waitSlots p =>
    match s.producer p with
    | .atSlots e =>
      if 0 < s.slots then some { s.moveTo p (.atMutex e) with slots := s.slots - 1 } else none
    | _ => none
  | .interruptSlots p =>
    match s.producer p with
    | .atSlots _ => some (s.moveTo p .idle)
    | _ => none
  | .waitMutex p =>
    match s.producer p with
    | .atMutex e =>
      if 0 < s.mutex then some { s.moveTo p (.critical e) with mutex := s.mutex - 1 } else none
    | _ => none
  | .interruptMutex p =>
    match s.producer p with
    -- the slot that was taken is not given back
    | .atMutex _ => some { s.moveTo p .idle with lost := s.lost + 1 }
    | _ => none
  | .writeSection p =>
    match s.producer p with
    | .critical e => some { s.moveTo p .leaving with ring := sec.write e s.ring }
    | _ => none
  | .postMutex p =>
    match s.producer p with
    | .leaving => some { s.moveTo p .signalling with mutex := s.mutex + 1 }
    | _ => none
  | .postSignals p =>
    match s.producer p with
    | .signalling => some { s.moveTo p .idle with signals := s.signals + 1 }
    | _ => none
  | .waitSignals =>
    match s.consumer with
    | .atSignals =>
      if 0 < s.signals then some { s with consumer := .reading, signals := s.signals - 1 }
      else none
    | _ => none
  | .readSection x =>
    match s.consumer with
    | .reading => some { s with consumer := .releasing, ring := sec.read x s.ring }
    | _ => none
  | .postSlots =>
    match s.consumer with
    | .releasing => some { s with consumer := .atSignals, slots := s.slots + 1 }
    | _ => none

inductive Step : Action P E X → State P E R → Prop
  | push {p} (e : E) (h : s.producer p = .idle) : Step (.push p e) (s.moveTo p (.atSlots e))
  | waitSlots {p e} (h : s.producer p = .atSlots e) (hfree : 0 < s.slots) :
      Step (.waitSlots p) { s.moveTo p (.atMutex e) with slots := s.slots - 1 }
  | interruptSlots {p e} (h : s.producer p = .atSlots e) :
      Step (.interruptSlots p) (s.moveTo p .idle)
  | waitMutex {p e} (h : s.producer p = .atMutex e) (hfree : 0 < s.mutex) :
      Step (.waitMutex p) { s.moveTo p (.critical e) with mutex := s.mutex - 1 }
  | interruptMutex {p e} (h : s.producer p = .atMutex e) :
      Step (.interruptMutex p) { s.moveTo p .idle with lost := s.lost + 1 }
  | writeSection {p e} (h : s.producer p = .critical e) :
      Step (.writeSection p) { s.moveTo p .leaving with ring := sec.write e s.ring }
  | postMutex {p} (h : s.producer p = .leaving) :
      Step (.postMutex p) { s.moveTo p .signalling with mutex := s.mutex + 1 }
  | postSignals {p} (h : s.producer p = .signalling) :
      Step (.postSignals p) { s.moveTo p .idle with signals := s.signals + 1 }
  | waitSignals (h : s.consumer = .atSignals) (hfree : 0 < s.signals) :
      Step .waitSignals { s with consumer := .reading, signals := s.signals - 1 }
  | readSection (x : X) (h : s.consumer = .reading) :
      Step (.readSection x) { s with consumer := .releasing, ring := sec.read x s.ring }
  | postSlots (h : s.consumer = .releasing) :
      Step .postSlots { s with consumer := .atSignals, slots := s.slots + 1 }

variable {sec s} {s' : State P E R} {a : Action P E X}

theorem step_sound (h : step sec s a = some s') : Step sec s a s' := by
  cases a with
  | push p e =>
    simp only [step] at h
    split at h <;> cases h
    exact .push e ‹_›
  | waitSlots p =>
    simp only [step] at h
    split at h
    · split at h <;> cases h
      exact .waitSlots ‹_› ‹_›
    · cases h
  | interruptSlots p =>
    simp only [step] at h
    split at h <;> cases h
    exact .interruptSlots ‹_›
  | waitMutex p =>
    simp only [step] at h
    split at h
    · split at h <;> cases h
      exact .waitMutex ‹_› ‹_›
    · cases h
  | interruptMutex p =>
    simp only [step] at h
    split at h <;> cases h
    exact .interruptMutex ‹_›
  | writeSection p =>
    simp only [step] at h
    split at h <;> cases h
    exact .writeSection ‹_›
  | postMutex p =>
    simp only [step] at h
    split at h <;> cases h
    exact .postMutex ‹_›
  | postSignals p =>
    simp only [step] at h
    split at h <;> cases h
    exact .postSignals ‹_›
  | waitSignals =>
    simp only [step] at h
    split at h
    · split at h <;> cases h
      exact .waitSignals ‹_› ‹_›
    · cases h
  | readSection x =>
    simp only [step] at h
    split at h <;> cases h
    exact .readSection x ‹_›
  | postSlots =>
    simp only [step] at h
    split at h <;> cases h
    exact .postSlots ‹_›

end State

structure Lawful {E X R : Type*} (sec : Sections E X R) (cap : ℕ) (Inv : R → Prop)
    (size : R → ℕ) : Prop where
  write : ∀ r e, Inv r → size r < cap → Inv (sec.write e r)
  size_write : ∀ r e, Inv r → size r < cap → size (sec.write e r) = size r + 1
  read : ∀ r x, Inv r → 0 < size r → Inv (sec.read x r)
  size_read : ∀ r x, Inv r → 0 < size r → size (sec.read x r) + 1 = size r

variable {P E X R : Type*} [DecidableEq P] [Fintype P] {sec : Sections E X R} {cap : ℕ}
  {Inv : R → Prop} {size : R → ℕ} {s s' : State P E R} {a : Action P E X} {as : List (Action P E X)}

structure Guarded (cap : ℕ) (Inv : R → Prop) (size : R → ℕ) (s : State P E R) : Prop where
  slots : s.slots + Census.total PushPhase.holdsSlot s.producer + s.lost + s.consumer.owesSlot +
    size s.ring = cap
  signals : s.signals + Census.total PushPhase.owesSignal s.producer + s.consumer.owesRead =
    size s.ring
  mutex : s.mutex + Census.total PushPhase.holdsMutex s.producer = 1
  inv : Inv s.ring

namespace Guarded

variable {r : R}

omit [DecidableEq P] in
theorem init (hinv : Inv r) (hsize : size r = 0) : Guarded cap Inv size (State.init P E cap r) where
  slots := by
    rw [Census.total_eq_zero PushPhase.holdsSlot _ fun _ => rfl]
    simp only [State.init, PopPhase.owesSlot]
    omega
  signals := by
    rw [Census.total_eq_zero PushPhase.owesSignal _ fun _ => rfl]
    simp only [State.init, PopPhase.owesRead]
    omega
  mutex := by
    rw [Census.total_eq_zero PushPhase.holdsMutex _ fun _ => rfl]
    rfl
  inv := hinv

variable {p : P}

omit [DecidableEq P] in
theorem room (hs : Guarded cap Inv size s) {e : E} (h : s.producer p = .critical e) :
    size s.ring < cap := by
  have hheld := Census.weight_le_total PushPhase.holdsSlot s.producer p
  rw [h, PushPhase.holdsSlot] at hheld
  have hslots := hs.slots
  omega

omit [DecidableEq P] in
theorem filled (hs : Guarded cap Inv size s) (h : s.consumer = .reading) : 0 < size s.ring := by
  have hsignals := hs.signals
  rw [h, PopPhase.owesRead] at hsignals
  omega

theorem critical_unique (hs : Guarded cap Inv size s) {q : P} {e e' : E}
    (hp : s.producer p = .critical e) (hq : s.producer q = .critical e') : p = q := by
  have hmutex := hs.mutex
  apply Census.eq_of_total_le_one PushPhase.holdsMutex s.producer (by omega)
  · rw [hp]
    exact Nat.one_pos
  · rw [hq]
    exact Nat.one_pos

/-- A producer moves on: the semaphores give or take what its phases hold, and the ring changes by
the entry that it has filled in. -/
theorem move (hs : Guarded cap Inv size s) {before : PushPhase E} (hp : s.producer p = before)
    (after : PushPhase E) {slots signals mutex lost : ℕ}
    (hslots : slots + after.holdsSlot + lost + size r =
      s.slots + before.holdsSlot + s.lost + size s.ring)
    (hsignals : signals + after.owesSignal + size s.ring = s.signals + before.owesSignal + size r)
    (hmutex : mutex + after.holdsMutex = s.mutex + before.holdsMutex) (hinv : Inv r) :
    Guarded cap Inv size { s.moveTo p after with
      slots := slots, signals := signals, mutex := mutex, ring := r, lost := lost } where
  slots := by
    have hcount := Census.total_update PushPhase.holdsSlot s.producer p after
    have hold := hs.slots
    rw [hp] at hcount
    dsimp only [State.moveTo]
    omega
  signals := by
    have hcount := Census.total_update PushPhase.owesSignal s.producer p after
    have hold := hs.signals
    rw [hp] at hcount
    dsimp only [State.moveTo]
    omega
  mutex := by
    have hcount := Census.total_update PushPhase.holdsMutex s.producer p after
    have hold := hs.mutex
    rw [hp] at hcount
    dsimp only [State.moveTo]
    omega
  inv := hinv

omit [DecidableEq P] in
theorem advance (hs : Guarded cap Inv size s) (after : PopPhase) {slots signals : ℕ}
    (hslots : slots + after.owesSlot + size r = s.slots + s.consumer.owesSlot + size s.ring)
    (hsignals : signals + after.owesRead + size s.ring = s.signals + s.consumer.owesRead + size r)
    (hinv : Inv r) :
    Guarded cap Inv size
      { s with slots := slots, signals := signals, ring := r, consumer := after } where
  slots := by
    have hold := hs.slots
    dsimp only
    omega
  signals := by
    have hold := hs.signals
    dsimp only
    omega
  mutex := hs.mutex
  inv := hinv

theorem step (hlaw : Lawful sec cap Inv size) (hs : Guarded cap Inv size s)
    (h : State.step sec s a = some s') : Guarded cap Inv size s' := by
  cases State.step_sound h with
  | push e hp => exact hs.move hp _ rfl rfl rfl hs.inv
  | waitSlots hp hfree =>
    apply hs.move hp
    · simp only [PushPhase.holdsSlot, State.moveTo]
      omega
    · rfl
    · rfl
    · exact hs.inv
  | interruptSlots hp => exact hs.move hp _ rfl rfl rfl hs.inv
  | waitMutex hp hfree =>
    apply hs.move hp
    · rfl
    · rfl
    · simp only [PushPhase.holdsMutex]
      omega
    · exact hs.inv
  | interruptMutex hp =>
    apply hs.move hp
    · simp only [PushPhase.holdsSlot, State.moveTo]
      omega
    · rfl
    · rfl
    · exact hs.inv
  | @writeSection p e hp =>
    have hsize := hlaw.size_write s.ring e hs.inv (hs.room hp)
    apply hs.move hp
    · simp only [hsize, PushPhase.holdsSlot, State.moveTo]
      omega
    · simp only [hsize, PushPhase.owesSignal, State.moveTo]
      omega
    · rfl
    · exact hlaw.write s.ring e hs.inv (hs.room hp)
  | postMutex hp | postSignals hp => exact hs.move hp _ rfl rfl rfl hs.inv
  | waitSignals hc hfree =>
    apply hs.advance _ _ _ hs.inv
    · rw [hc]
      rfl
    · rw [hc]
      simp only [PopPhase.owesRead]
      omega
  | readSection x hc =>
    have hsize := hlaw.size_read s.ring x hs.inv (hs.filled hc)
    apply hs.advance _ _ _ (hlaw.read _ x hs.inv (hs.filled hc))
    · rw [hc]
      simp only [PopPhase.owesSlot]
      omega
    · rw [hc]
      simp only [PopPhase.owesRead]
      omega
  | postSlots hc =>
    apply hs.advance _ _ _ hs.inv
    · rw [hc]
      rfl
    · rw [hc]
      rfl

theorem run (hlaw : Lawful sec cap Inv size) (hs : Guarded cap Inv size s)
    {as : List (Action P E X)} (h : Runs.run (State.step sec) s as = some s') :
    Guarded cap Inv size s' :=
  Runs.invariant (fun _ _ _ hs h => hs.step hlaw h) hs h

omit [DecidableEq P] in
theorem of_quiet (hs : Guarded cap Inv size s) (hquiet : s.Quiet) :
    s.slots + s.lost + size s.ring = cap ∧ s.signals = size s.ring ∧ s.mutex = 1 := by
  obtain ⟨hproducers, hconsumer⟩ := hquiet
  have hslots := hs.slots
  have hsignals := hs.signals
  have hmutex := hs.mutex
  rw [Census.total_eq_zero _ _ fun p => by rw [hproducers p]; rfl, hconsumer] at hslots hsignals
  rw [Census.total_eq_zero _ _ fun p => by rw [hproducers p]; rfl] at hmutex
  simp only [PopPhase.owesSlot, PopPhase.owesRead] at hslots hsignals
  exact ⟨by omega, by omega, by omega⟩

theorem size_eq_zero_of_rest [Nonempty X] (hs : Guarded cap Inv size s)
    (hrest : ∀ a : Action P E X, a.proceeds = true → State.step sec s a = none) :
    size s.ring = 0 := by
  have hconsumer : s.consumer = .atSignals := by
    cases hc : s.consumer with
    | atSignals => rfl
    | reading =>
      obtain ⟨x⟩ := ‹Nonempty X›
      have hnone := hrest (.readSection x) rfl
      simp [State.step, hc] at hnone
    | releasing =>
      have hnone := hrest .postSlots rfl
      simp [State.step, hc] at hnone
  have hsignal : s.signals = 0 := by
    have hnone := hrest .waitSignals rfl
    simp only [State.step, hconsumer] at hnone
    by_contra hne
    rw [if_pos (Nat.pos_of_ne_zero hne)] at hnone
    cases hnone
  have hproducers : Census.total PushPhase.owesSignal s.producer = 0 := by
    apply Census.total_eq_zero
    intro p
    cases hp : s.producer p with
    | leaving =>
      have hnone := hrest (.postMutex p) rfl
      simp [State.step, hp] at hnone
    | signalling =>
      have hnone := hrest (.postSignals p) rfl
      simp [State.step, hp] at hnone
    | _ => rfl
  have hsignals := hs.signals
  rw [hsignal, hproducers, hconsumer] at hsignals
  exact hsignals.symm

end Guarded

def State.stepsLeft (s : State P E R) : ℕ :=
  Census.total PushPhase.stepsLeft s.producer + 3 * s.signals + s.consumer.stepsLeft

theorem stepsLeft_move {p : P} {before : PushPhase E} (hp : s.producer p = before)
    (after : PushPhase E) {signals : ℕ}
    (hless : after.stepsLeft + 3 * signals < before.stepsLeft + 3 * s.signals) :
    Census.total PushPhase.stepsLeft (s.moveTo p after).producer + 3 * signals +
      s.consumer.stepsLeft < s.stepsLeft := by
  have hcount := Census.total_update PushPhase.stepsLeft s.producer p after
  rw [hp] at hcount
  simp only [State.stepsLeft, State.moveTo]
  omega

theorem stepsLeft_step (h : State.step sec s a = some s') (ha : a.starts = false) :
    s'.stepsLeft < s.stepsLeft := by
  cases State.step_sound h with
  | push e hp => cases ha
  | waitSlots hp hfree | interruptSlots hp | waitMutex hp hfree | interruptMutex hp
  | writeSection hp | postMutex hp =>
    apply stepsLeft_move hp
    simp [PushPhase.stepsLeft, State.moveTo]
  | postSignals hp =>
    apply stepsLeft_move hp
    simp only [PushPhase.stepsLeft]
    omega
  | waitSignals hc hfree | readSection x hc | postSlots hc =>
    simp only [State.stepsLeft, hc, PopPhase.stepsLeft]
    omega

theorem length_le_stepsLeft (hrun : Runs.run (State.step sec) s as = some s')
    (has : ∀ a ∈ as, a.starts = false) : as.length ≤ s.stepsLeft := by
  induction as generalizing s with
  | nil => exact Nat.zero_le _
  | cons a as ih =>
    obtain ⟨s₁, hstep, hrest⟩ := Runs.run_cons_eq_some.mp hrun
    have hless := stepsLeft_step hstep (has a List.mem_cons_self)
    have hlen := ih hrest fun b hb => has b (List.mem_cons_of_mem a hb)
    rw [List.length_cons]
    omega

/-! ### Two rings under the same semaphores -/

omit [Fintype P]

structure Alike (Rel : R → R → Prop) (s t : State P E R) : Prop where
  slots : s.slots = t.slots
  signals : s.signals = t.signals
  mutex : s.mutex = t.mutex
  producer : s.producer = t.producer
  consumer : s.consumer = t.consumer
  lost : s.lost = t.lost
  ring : Rel s.ring t.ring

variable {Rel : R → R → Prop} {t : State P E R}

/-- Where the sections keep the rings related, the same steps are enabled and keep the states alike.
-/
theorem Alike.step (hwrite : ∀ e r r', Rel r r' → Rel (sec.write e r) (sec.write e r'))
    (hread : ∀ x r r', Rel r r' → Rel (sec.read x r) (sec.read x r')) (h : Alike Rel s t)
    (a : Action P E X) : Option.Rel (Alike Rel) (State.step sec s a) (State.step sec t a) := by
  obtain ⟨slots, signals, mutex, ring, producer, consumer, lost⟩ := s
  obtain ⟨slots', signals', mutex', ring', producer', consumer', lost'⟩ := t
  obtain ⟨rfl, rfl, rfl, rfl, rfl, rfl, hring⟩ := h
  cases a <;> simp only [State.step, State.moveTo] <;> split <;> try split
  all_goals first
    | exact Option.Rel.none
    | exact Option.Rel.some ⟨rfl, rfl, rfl, rfl, rfl, rfl, hring⟩
    | exact Option.Rel.some ⟨rfl, rfl, rfl, rfl, rfl, rfl, hwrite _ _ _ hring⟩
    | exact Option.Rel.some ⟨rfl, rfl, rfl, rfl, rfl, rfl, hread _ _ _ hring⟩

theorem Alike.run (hwrite : ∀ e r r', Rel r r' → Rel (sec.write e r) (sec.write e r'))
    (hread : ∀ x r r', Rel r r' → Rel (sec.read x r) (sec.read x r')) (h : Alike Rel s t)
    (as : List (Action P E X)) :
    Option.Rel (Alike Rel) (Runs.run (State.step sec) s as) (Runs.run (State.step sec) t as) := by
  induction as generalizing s t with
  | nil => exact Option.Rel.some h
  | cons a as ih =>
    have hstep := h.step hwrite hread a
    rw [Runs.run_cons, Runs.run_cons]
    generalize State.step sec s a = next at hstep ⊢
    generalize State.step sec t a = next' at hstep ⊢
    cases hstep with
    | none => exact Option.Rel.none
    | some h' => exact ih h'

/-! ### Complete calls -/

def pushCall (p : P) (e : E) : List (Action P E X) :=
  [.push p e, .waitSlots p, .waitMutex p, .writeSection p, .postMutex p, .postSignals p]

def popCall (x : X) : List (Action P E X) := [.waitSignals, .readSection x, .postSlots]

/-! ### What a semaphore lets pass -/

theorem lost_of_isEmpty [IsEmpty P] (hrun : Runs.run (State.step sec) s as = some s') :
    s'.lost = s.lost := by
  refine Runs.invariant (I := fun t => t.lost = s.lost) ?_ rfl hrun
  intro t a t' ht hstep
  cases State.step_sound hstep with
  | interruptMutex hp => exact isEmptyElim ‹P›
  | _ => exact ht

def failingPushes (p : P) (e : E) : ℕ → List (Action P E X)
  | 0 => []
  | n + 1 => .push p e :: .waitSlots p :: .interruptMutex p :: failingPushes p e n

theorem run_failingPushes_isSome_iff {p : P} (hp : s.producer p = .idle) (e : E) (n : ℕ) :
    (Runs.run (State.step sec) s (failingPushes p e n)).isSome ↔ n ≤ s.slots := by
  induction n generalizing s with
  | zero => simp [failingPushes]
  | succ n ih =>
    have hpush : State.step sec s (.push p e) = some (s.moveTo p (.atSlots e)) := by
      simp only [State.step, hp]
    rw [failingPushes, Runs.run_cons, hpush, Option.bind_some, Runs.run_cons]
    by_cases hfree : 0 < s.slots
    · have hwait : State.step sec (s.moveTo p (.atSlots e)) (.waitSlots p) =
          some { s.moveTo p (.atMutex e) with slots := s.slots - 1 } := by
        simp only [State.step, State.moveTo, update_self, update_idem, hfree, if_true]
      have hfail : State.step sec { s.moveTo p (.atMutex e) with slots := s.slots - 1 }
          (.interruptMutex p) =
          some { s.moveTo p .idle with slots := s.slots - 1, lost := s.lost + 1 } := by
        simp only [State.step, State.moveTo, update_self, update_idem]
      rw [hwait, Option.bind_some, Runs.run_cons, hfail, Option.bind_some, ih]
      · change n ≤ s.slots - 1 ↔ n + 1 ≤ s.slots
        omega
      · exact update_self p _ _
    · have hblock : State.step sec (s.moveTo p (.atSlots e)) (.waitSlots p) = none := by
        simp only [State.step, State.moveTo, update_self, hfree, if_false]
      rw [hblock]
      exact iff_of_false (by simp) (by omega)

end GuardedRing
