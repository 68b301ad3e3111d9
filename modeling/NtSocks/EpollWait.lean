import NtSocks.EpEventQueue
import NtSocks.EpollEvents
import NtSocks.NtsApi

/-!
# Waiting for epoll events

`nts_epoll_wait` works on the event queue itself. While the queue is empty and the timeout is not 0
it waits on `full_sem`; then it goes through the events that it finds and posts `empty_sem` for each
one that it takes out. It repeats this while nothing was found and the timeout is not 0.

A call is cut at the top of its loop and at its wait. A complete `ep_event_queue_push` is one step,
which may come between any two steps of the call. `NtsContext.waitLoop` is a pass of the loop on the
list of the events; here the pass is the one of the code, on the indices and the counter.
-/

namespace NtSocks

def NtsEventQueue.queued (q : NtsEventQueue) : List EpollEvent := q.pushed.drop q.popped.length

def NtsEventQueue.advance (q : NtsEventQueue) : NtsEventQueue :=
  { q with
    start := if q.size ≤ q.start + 1 then 0 else q.start + 1
    numEvents := (q.numEvents + (2 ^ 64 - 1)) % 2 ^ 64
    popped := q.popped ++ [q.events q.start] }

namespace NtsEventQueue.Sound

variable {q : NtsEventQueue} {cap : ℕ}

theorem advance_eq_pop (h : Sound cap q) : q.advance = q.pop := by
  have hstart : q.start < cap := by
    rw [h.log.readIndex]
    exact Nat.mod_lt _ h.pos
  rw [NtsEventQueue.advance, NtsEventQueue.pop, nextIndex, h.size]
  by_cases hlast : cap ≤ q.start + 1
  · have hwrap : (q.start + 1) % cap = 0 := by
      rw [show q.start + 1 = cap by omega, Nat.mod_self]
    rw [if_pos hlast, hwrap]
  · have hnext : (q.start + 1) % cap = q.start + 1 := Nat.mod_eq_of_lt (by omega)
    rw [if_neg hlast, hnext]

theorem length_queued (h : Sound cap q) : q.queued.length = q.numEvents := by
  rw [queued, List.length_drop, h.numEvents]

theorem head (h : Sound cap q) {event : EpollEvent} {rest : List EpollEvent}
    (hq : q.queued = event :: rest) :
    q.events q.start = event ∧ Sound cap q.advance ∧ q.advance.queued = rest := by
  have hlt : q.popped.length < q.pushed.length := by
    by_contra hle
    rw [queued, List.drop_of_length_le (by omega)] at hq
    cases hq
  rw [queued, List.drop_eq_getElem_cons hlt] at hq
  obtain ⟨hevent, hrest⟩ := List.cons_eq_cons.mp hq
  refine ⟨?_, ?_, ?_⟩
  · rw [← hevent]
    exact h.log.slot_readIndex hlt
  · rw [h.advance_eq_pop]
    exact h.pop (by rw [unpopped]; omega)
  · rw [queued, NtsEventQueue.advance, List.length_append, List.length_singleton]
    exact hrest

end NtsEventQueue.Sound

namespace Nts

/-- What a pass of the loop works on: the queue, the semaphore that it posts and the array of the
application, as far as it is written. -/
structure Pass where
  queue : NtsEventQueue
  emptySem : ℕ
  events : List EpollEvent

namespace NtsContext

variable (lib : NtsContext)

def reports (event : EpollEvent) : Bool :=
  match lib.ntSockMap (intOf event.sockid) with
  | none => false
  | some socket => socket.sockid ≠ 0 ∧ wants socket event

/-- The library has the socket of the event; one that is reported passes the assertion. -/
def Known (event : EpollEvent) : Prop :=
  ∃ socket, lib.ntSockMap (intOf event.sockid) = some socket ∧ socket.sockid ≠ 0 ∧
    (wants socket event = true → 0 ≤ intOf event.sockid)

def Fits (maxevents : ℤ) (events : List EpollEvent) : Prop :=
  (∀ event ∈ events, lib.Known event) ∧ ((events.filter lib.reports).length : ℤ) ≤ maxevents

end NtsContext

namespace Pass

variable (lib : NtsContext) (p : Pass)

def takeEvent : Pass := { p with queue := p.queue.advance, emptySem := p.emptySem + 1 }

/-- One iteration over the events. Where the library has no socket for the event, it is taken out
and the null pointer is accessed; where the socket has the id 0, it is taken out as well, and the
next event is held against that socket. An assertion stops a reported event with a negative id. -/
def handleEvent : Option Pass :=
  match lib.ntSockMap (intOf (p.queue.events p.queue.start).sockid) with
  | none => none
  | some socket =>
    let p := if socket.sockid = 0 then p.takeEvent else p
    let event := p.queue.events p.queue.start
    if NtsContext.wants socket event then
      if intOf event.sockid < 0 then none
      else some { p.takeEvent with events := p.events ++ [event] }
    else some p.takeEvent

/-- The loop over the events. Its bound lets one event too many pass. -/
def handleEvents (maxevents : ℤ) : ℕ → Pass → Option Pass
  | 0, p => some p
  | n + 1, p =>
    if maxevents < p.events.length then some p
    else (p.handleEvent lib).bind (handleEvents maxevents n)

/-- `k` events were taken out. The counter may pass 0, so that it is known modulo its width. -/
structure Takes (k : ℕ) (p p' : Pass) : Prop where
  pushed : p'.queue.pushed = p.queue.pushed
  size : p'.queue.size = p.queue.size
  popped : p'.queue.popped.length = p.queue.popped.length + k
  emptySem : p'.emptySem = p.emptySem + k
  numEvents : (p'.queue.numEvents + k) % 2 ^ 64 = p.queue.numEvents % 2 ^ 64
  small : p.queue.numEvents < 2 ^ 64 → p'.queue.numEvents < 2 ^ 64

variable {lib p} {p' p'' : Pass} {k l n : ℕ} {maxevents : ℤ} {queue : List EpollEvent} {cap : ℕ}

theorem Takes.refl (p : Pass) : Takes 0 p p := ⟨rfl, rfl, rfl, rfl, rfl, id⟩

theorem Takes.trans (h : Takes k p p') (h' : Takes l p' p'') : Takes (k + l) p p'' where
  pushed := h'.pushed.trans h.pushed
  size := h'.size.trans h.size
  popped := by rw [h'.popped, h.popped, Nat.add_assoc]
  emptySem := by rw [h'.emptySem, h.emptySem, Nat.add_assoc]
  numEvents := by
    have h₁ := h.numEvents
    have h₂ := h'.numEvents
    omega
  small := fun hsmall => h'.small (h.small hsmall)

theorem takes_takeEvent (p : Pass) : Takes 1 p p.takeEvent where
  pushed := rfl
  size := rfl
  popped := by rw [takeEvent, NtsEventQueue.advance, List.length_append, List.length_singleton]
  emptySem := rfl
  numEvents := by
    simp only [takeEvent, NtsEventQueue.advance]
    omega
  small := fun _ => Nat.mod_lt _ (by decide)

theorem Takes.withEvents (h : Takes k p p') (events : List EpollEvent) :
    Takes k p { p' with events := events } :=
  ⟨h.pushed, h.size, h.popped, h.emptySem, h.numEvents, h.small⟩

theorem takes_handleEvent (h : p.handleEvent lib = some p') :
    Takes 1 p p' ∧ lib.Known (p.queue.events p.queue.start) ∨ Takes 2 p p' := by
  rw [handleEvent] at h
  split at h
  · cases h
  case h_2 socket hsocket =>
    by_cases hzero : socket.sockid = 0
    · right
      have htwo := p.takes_takeEvent.trans p.takeEvent.takes_takeEvent
      simp only [if_pos hzero] at h
      split at h
      · split at h
        · cases h
        · cases h
          exact htwo.withEvents _
      · cases h
        exact htwo
    · left
      simp only [if_neg hzero] at h
      split at h
      · split at h
        · cases h
        case isFalse hid =>
          cases h
          exact ⟨p.takes_takeEvent.withEvents _, socket, hsocket, hzero, fun _ => not_lt.mp hid⟩
      case isFalse hwants =>
        cases h
        exact ⟨p.takes_takeEvent, socket, hsocket, hzero, fun h => absurd h hwants⟩

theorem handleEvent_known (hknown : lib.Known (p.queue.events p.queue.start)) :
    p.handleEvent lib = some { p.takeEvent with
      events := p.events ++ [p.queue.events p.queue.start].filter lib.reports } := by
  obtain ⟨socket, hsocket, hzero, hid⟩ := hknown
  have hreports : lib.reports (p.queue.events p.queue.start) =
      NtsContext.wants socket (p.queue.events p.queue.start) := by
    simp [NtsContext.reports, hsocket, hzero]
  simp only [handleEvent, hsocket, if_neg hzero]
  cases hwants : NtsContext.wants socket (p.queue.events p.queue.start) with
  | true =>
    rw [hwants] at hreports
    rw [if_pos rfl, if_neg (not_lt.mpr (hid hwants)), List.filter_singleton, hreports]
    rfl
  | false =>
    rw [hwants] at hreports
    rw [if_neg Bool.false_ne_true, List.filter_singleton, hreports, cond_false, List.append_nil]
    rfl

theorem takes_handleEvents (h : handleEvents lib maxevents n p = some p') :
    ∃ k, Takes k p p' ∧ (maxevents < p'.events.length ∨ n ≤ k) := by
  induction n generalizing p with
  | zero =>
    cases h
    exact ⟨0, Takes.refl _, Or.inr le_rfl⟩
  | succ n ih =>
    rw [handleEvents] at h
    split at h
    case isTrue hstop =>
      cases h
      exact ⟨0, Takes.refl _, Or.inl hstop⟩
    · obtain ⟨p₁, hone, hrest⟩ := Option.bind_eq_some_iff.mp h
      obtain ⟨k, htakes, hk⟩ := ih hrest
      rcases takes_handleEvent hone with ⟨hfirst, -⟩ | hfirst
      · exact ⟨1 + k, hfirst.trans htakes, hk.imp_right fun hle => by omega⟩
      · exact ⟨2 + k, hfirst.trans htakes, hk.imp_right fun hle => by omega⟩

theorem handleEvents_of_fits (hsound : NtsEventQueue.Sound cap p.queue)
    (hqueue : p.queue.queued = queue) (hknown : ∀ event ∈ queue, lib.Known event)
    (hroom : ((p.events ++ queue.filter lib.reports).length : ℤ) ≤ maxevents) :
    ∃ p', handleEvents lib maxevents queue.length p = some p' ∧
      NtsEventQueue.Sound cap p'.queue ∧ p'.queue.queued = [] ∧
      p'.events = p.events ++ queue.filter lib.reports := by
  induction queue generalizing p with
  | nil => exact ⟨p, rfl, hsound, hqueue, (List.append_nil _).symm⟩
  | cons event rest ih =>
    obtain ⟨hevent, hsound', hqueue'⟩ := hsound.head hqueue
    have hone := handleEvent_known (hevent ▸ hknown event List.mem_cons_self)
    rw [hevent] at hone
    have hsplit : p.events ++ (event :: rest).filter lib.reports =
        p.events ++ [event].filter lib.reports ++ rest.filter lib.reports := by
      rw [List.append_assoc, ← List.filter_append, List.singleton_append]
    have hstop : ¬ maxevents < p.events.length := by
      rw [List.length_append, Nat.cast_add] at hroom
      omega
    rw [hsplit] at hroom ⊢
    obtain ⟨p', hrest, hp'⟩ := ih (p := { p.takeEvent with
        events := p.events ++ [event].filter lib.reports }) hsound' hqueue'
      (fun e he => hknown e (List.mem_cons_of_mem _ he)) hroom
    refine ⟨p', ?_, hp'⟩
    rw [List.length_cons, handleEvents, if_neg hstop, hone, Option.bind_some]
    exact hrest

/-- A pass that takes out just the events of the queue, and has not written too many, has found only
events of known sockets and has reported those to be reported. -/
theorem fits_of_handleEvents (hsound : NtsEventQueue.Sound cap p.queue)
    (hqueue : p.queue.queued = queue) (h : handleEvents lib maxevents queue.length p = some p')
    (htakes : p'.queue.popped.length = p.queue.popped.length + queue.length)
    (hroom : (p'.events.length : ℤ) ≤ maxevents) :
    (∀ event ∈ queue, lib.Known event) ∧ p'.events = p.events ++ queue.filter lib.reports := by
  induction queue generalizing p with
  | nil =>
    cases h
    exact ⟨List.forall_mem_nil _, (List.append_nil _).symm⟩
  | cons event rest ih =>
    rw [List.length_cons] at h htakes
    rw [handleEvents] at h
    split at h
    · cases h
      omega
    · obtain ⟨p₁, hone, hrest⟩ := Option.bind_eq_some_iff.mp h
      obtain ⟨k, htakes', hk⟩ := takes_handleEvents hrest
      have hk' : rest.length ≤ k := hk.resolve_left (not_lt.mpr hroom)
      have hpopped := htakes'.popped
      rcases takes_handleEvent hone with ⟨hfirst, hknown⟩ | hfirst
      · obtain ⟨hevent, hsound', hqueue'⟩ := hsound.head hqueue
        rw [handleEvent_known hknown] at hone
        cases hone
        rw [hevent] at hknown
        have hcount := hfirst.popped
        obtain ⟨hall, hevents⟩ := ih (p := { p.takeEvent with
          events := p.events ++ [p.queue.events p.queue.start].filter lib.reports })
          hsound' hqueue' hrest (by omega)
        refine ⟨List.forall_mem_cons.mpr ⟨hknown, hall⟩, ?_⟩
        rw [hevents, hevent, List.append_assoc, ← List.filter_append, List.singleton_append]
      · have hcount := hfirst.popped
        omega

/-- An iteration on the indices does what `nextEvent` and `wants` say of the list of the events. -/
theorem handleEvent_of_nextEvent {socket : NtSocket} {event : EpollEvent} {rest : List EpollEvent}
    (hsound : NtsEventQueue.Sound cap p.queue)
    (hnext : lib.nextEvent p.queue.queued = some (socket, event, rest))
    (hid : 0 ≤ intOf event.sockid) :
    ∃ p', p.handleEvent lib = some p' ∧ NtsEventQueue.Sound cap p'.queue ∧ p'.queue.queued = rest ∧
      p'.events = if NtsContext.wants socket event then p.events ++ [event] else p.events := by
  cases hqueue : p.queue.queued with
  | nil =>
    rw [hqueue] at hnext
    cases hnext
  | cons first tail =>
    obtain ⟨hfirst, hsound₁, hqueue₁⟩ := hsound.head hqueue
    rw [hqueue, NtsContext.nextEvent] at hnext
    cases hsocket : lib.ntSockMap (intOf first.sockid) with
    | none =>
      rw [hsocket] at hnext
      cases hnext
    | some found =>
      rw [hsocket] at hnext
      -- the event that is handled is the head of a sound queue, with or without the first one
      obtain ⟨p₁, hp₁, hqueue', hsound', hevents⟩ : ∃ p₁ : Pass,
          (if found.sockid = 0 then p.takeEvent else p) = p₁ ∧
          p₁.queue.queued = (if found.sockid = 0 then tail else first :: tail) ∧
          NtsEventQueue.Sound cap p₁.queue ∧ p₁.events = p.events := by
        by_cases hzero : found.sockid = 0
        · simp only [if_pos hzero]
          exact ⟨_, rfl, hqueue₁, hsound₁, rfl⟩
        · simp only [if_neg hzero]
          exact ⟨_, rfl, hqueue, hsound, rfl⟩
      simp only [← hqueue'] at hnext
      cases hq : p₁.queue.queued with
      | nil =>
        rw [hq] at hnext
        cases hnext
      | cons event' rest' =>
        rw [hq] at hnext
        cases hnext
        obtain ⟨hevent, hsound₂, hqueue₂⟩ := hsound'.head hq
        simp only [handleEvent, hfirst, hsocket, hp₁, hevent, if_neg (not_lt.mpr hid)]
        split
        · exact ⟨_, rfl, hsound₂, hqueue₂, by rw [hevents]⟩
        · exact ⟨_, rfl, hsound₂, hqueue₂, hevents⟩

/-- The pass on the indices refines the one on the list of the events. -/
theorem handleEvents_of_waitLoop {cap : ℕ} {events rest : List EpollEvent}
    (hsound : NtsEventQueue.Sound cap p.queue)
    (hids : ∀ event ∈ p.queue.queued, 0 ≤ intOf event.sockid)
    (h : lib.waitLoop maxevents n p.events.length p.queue.queued = some (events, rest)) :
    ∃ p', handleEvents lib maxevents n p = some p' ∧ NtsEventQueue.Sound cap p'.queue ∧
      p'.queue.queued = rest ∧ p'.events = p.events ++ events := by
  induction n generalizing p events with
  | zero =>
    cases h
    exact ⟨p, rfl, hsound, rfl, (List.append_nil _).symm⟩
  | succ n ih =>
    rw [NtsContext.waitLoop] at h
    rw [handleEvents]
    split at h
    case isTrue hstop =>
      cases h
      exact ⟨p, if_pos hstop, hsound, rfl, (List.append_nil _).symm⟩
    case isFalse hstop =>
      rw [if_neg hstop]
      split at h
      · cases h
      case h_2 socket event after hnext =>
        obtain ⟨hmem, hsub⟩ := List.cons_subset.mp (NtsContext.nextEvent_subset hnext)
        obtain ⟨p₁, hone, hsound₁, hqueue₁, hevents₁⟩ :=
          handleEvent_of_nextEvent hsound hnext (hids event hmem)
        have hids₁ : ∀ event ∈ p₁.queue.queued, 0 ≤ intOf event.sockid := by
          rw [hqueue₁]
          exact fun e he => hids e (hsub he)
        rw [hone, Option.bind_some]
        split at h
        case isTrue hwants =>
          obtain ⟨⟨events', rest'⟩, hloop, heq⟩ := Option.map_eq_some_iff.mp h
          cases heq
          rw [if_pos hwants] at hevents₁
          have hlen : p₁.events.length = p.events.length + 1 := by
            rw [hevents₁, List.length_append, List.length_singleton]
          rw [← hqueue₁, ← hlen] at hloop
          obtain ⟨p', hp', hsound', hqueue', hevents'⟩ := ih hsound₁ hids₁ hloop
          refine ⟨p', hp', hsound', hqueue', ?_⟩
          rw [hevents', hevents₁, List.append_assoc, List.singleton_append]
        case isFalse hwants =>
          rw [if_neg hwants] at hevents₁
          rw [← hqueue₁, ← hevents₁] at h
          obtain ⟨p', hp', hsound', hqueue', hevents'⟩ := ih hsound₁ hids₁ h
          exact ⟨p', hp', hsound', hqueue', by rw [hevents', hevents₁]⟩

end Pass

/-- A call of `nts_epoll_wait`. After a timed wait the timeout is 0. The last four fields are read
by no step: the timeout was positive at the call; the queue was empty then and no event was pushed
since; the timed wait has run out; a wait was ended by `full_sem`, and no pass over the events came
since. -/
structure WaitCall where
  maxevents : ℤ
  timeout : ℤ
  timed : Bool
  undisturbed : Bool
  timedOut : Bool
  woken : Bool
  deriving DecidableEq, Repr

inductive WaitPhase
  | idle
  | atTop (call : WaitCall)
  | asleep (call : WaitCall)
  deriving DecidableEq, Repr

/-- An epoll instance with its event queue, and the thread of the application that waits for events.
`events` is what the last pass has written into the array of the application, `result` the call that
returned last with its value. `taken` counts the waits on `full_sem` that succeeded and is read by
no step. -/
structure EpollInstance where
  queue : NtsEventQueue
  fullSem : ℕ
  emptySem : ℕ
  phase : WaitPhase
  events : List EpollEvent
  result : Option (WaitCall × ℤ)
  taken : ℕ

/-- A push by some producer, a call, and the steps of the call under way: a pass of its loop with
the sockets that the library then has, and the three ways in which its wait can end. `exit` is the
flag of the library. -/
inductive WaitAct
  | push (event : EpollEvent)
  | call (maxevents timeout : ℤ)
  | pass (lib : NtsContext)
  | woken (exit : Bool)
  | timedOut (exit : Bool)
  | interrupted

def WaitPhase.disturb : WaitPhase → WaitPhase
  | .idle => .idle
  | .atTop call => .atTop { call with undisturbed := false }
  | .asleep call => .asleep { call with undisturbed := false }

namespace EpollInstance

def create (size : ℕ) (events : ℕ → EpollEvent) : EpollInstance where
  queue := NtsEventQueue.create size events
  fullSem := 0
  emptySem := size
  phase := .idle
  events := []
  result := none
  taken := 0

variable (s : EpollInstance)

def newCall (maxevents timeout : ℤ) : WaitCall where
  maxevents := maxevents
  timeout := timeout
  timed := 0 < timeout
  undisturbed := s.queue.numEvents = 0
  timedOut := false
  woken := false

def returnFrom (call : WaitCall) (retval : ℤ) : EpollInstance :=
  { s with phase := .idle, result := some (call, retval) }

def wakeUp (call : WaitCall) (exit : Bool) : EpollInstance :=
  if exit then s.returnFrom call (-1) else { s with phase := .atTop call }

def finishPass (call : WaitCall) (p : Pass) : EpollInstance :=
  let s := { s with queue := p.queue, emptySem := p.emptySem, events := p.events }
  if p.events.length = 0 ∧ call.timeout ≠ 0 then
    { s with phase := .atTop { call with woken := false } }
  else s.returnFrom call p.events.length

def step : WaitAct → Option EpollInstance
  | .push event =>
    if 0 < s.emptySem then
      some { s with
        queue := s.queue.push event
        emptySem := s.emptySem - 1
        fullSem := s.fullSem + 1
        phase := s.phase.disturb }
    else none
  | .call maxevents timeout =>
    match s.phase with
    | .idle =>
      let call := s.newCall maxevents timeout
      let s := { s with events := [] }
      some (if maxevents ≤ 0 then s.returnFrom call (-1) else { s with phase := .atTop call })
    | _ => none
  | .pass lib =>
    match s.phase with
    | .atTop call =>
      if s.queue.numEvents = 0 ∧ call.timeout ≠ 0 then some { s with phase := .asleep call }
      else
        (Pass.handleEvents lib call.maxevents (int32 s.queue.numEvents).toNat
          { queue := s.queue, emptySem := s.emptySem, events := [] }).map (s.finishPass call)
    | _ => none
  | .woken exit =>
    match s.phase with
    | .asleep call =>
      if 0 < s.fullSem then
        let s := { s with fullSem := s.fullSem - 1, taken := s.taken + 1 }
        let timeout := if 0 < call.timeout then 0 else call.timeout
        some (s.wakeUp { call with timeout := timeout, woken := true } exit)
      else none
    | _ => none
  | .timedOut exit =>
    match s.phase with
    | .asleep call =>
      if 0 < call.timeout ∧ s.fullSem = 0 then
        some (s.wakeUp { call with timeout := 0, timedOut := true, woken := false } exit)
      else none
    | _ => none
  | .interrupted =>
    match s.phase with
    | .asleep call => some (s.returnFrom call (-1))
    | _ => none

def collecting : Option WaitCall :=
  match s.phase with
  | .atTop call => if s.queue.numEvents = 0 ∧ call.timeout ≠ 0 then none else some call
  | _ => none

inductive Step : WaitAct → EpollInstance → Prop
  | push (event : EpollEvent) (hroom : 0 < s.emptySem) :
      Step (.push event)
        { s with
          queue := s.queue.push event
          emptySem := s.emptySem - 1
          fullSem := s.fullSem + 1
          phase := s.phase.disturb }
  | refused {maxevents timeout : ℤ} (hphase : s.phase = .idle) (hmax : maxevents ≤ 0) :
      Step (.call maxevents timeout)
        ({ s with events := [] }.returnFrom (s.newCall maxevents timeout) (-1))
  | call {maxevents timeout : ℤ} (hphase : s.phase = .idle) (hmax : ¬ maxevents ≤ 0) :
      Step (.call maxevents timeout)
        { s with events := [], phase := .atTop (s.newCall maxevents timeout) }
  | sleep {lib : NtsContext} {call : WaitCall} (hphase : s.phase = .atTop call)
      (hnum : s.queue.numEvents = 0) (htimeout : call.timeout ≠ 0) :
      Step (.pass lib) { s with phase := .asleep call }
  | pass {lib : NtsContext} {call : WaitCall} {p : Pass} (hcall : s.collecting = some call)
      (hp : Pass.handleEvents lib call.maxevents (int32 s.queue.numEvents).toNat
        { queue := s.queue, emptySem := s.emptySem, events := [] } = some p) :
      Step (.pass lib) (s.finishPass call p)
  | woken {exit : Bool} {call : WaitCall} (hphase : s.phase = .asleep call)
      (hfull : 0 < s.fullSem) :
      Step (.woken exit)
        ({ s with fullSem := s.fullSem - 1, taken := s.taken + 1 }.wakeUp
          { call with timeout := if 0 < call.timeout then 0 else call.timeout, woken := true }
          exit)
  | timedOut {exit : Bool} {call : WaitCall} (hphase : s.phase = .asleep call)
      (htimeout : 0 < call.timeout) (hfull : s.fullSem = 0) :
      Step (.timedOut exit)
        (s.wakeUp { call with timeout := 0, timedOut := true, woken := false } exit)
  | interrupted {call : WaitCall} (hphase : s.phase = .asleep call) :
      Step .interrupted (s.returnFrom call (-1))

structure Holds (cap : ℕ) : Prop where
  sound : NtsEventQueue.Sound cap s.queue
  emptySem : s.emptySem + s.queue.unpopped = cap

/-- What a pass over the events has to do: it takes out the first events of the queue, in order, and
leaves the others as they were; those whose socket is open and registered for them are written into
the array, which has room for them, and the call returns how many there are. -/
def ResultCorrect (s : EpollInstance) : WaitAct → Prop
  | .pass lib => ∀ call, s.collecting = some call →
      ∃ s' k, s.step (.pass lib) = some s' ∧ NtsEventQueue.Sound s.queue.size s'.queue ∧
        s'.queue.queued = s.queue.queued.drop k ∧
        s'.events = (s.queue.queued.take k).filter lib.reports ∧
        (s'.events.length : ℤ) ≤ call.maxevents ∧
        (s'.phase = .idle → s'.result = some (call, (s'.events.length : ℤ)))
  | _ => True

def EventsFit (s : EpollInstance) : WaitAct → Prop
  | .pass lib => ∀ call, s.collecting = some call → lib.Fits call.maxevents s.queue.queued
  | _ => True

variable {s} {s' : EpollInstance} {cap : ℕ} {call : WaitCall} {lib : NtsContext} {a : WaitAct}

theorem collecting_eq_some (h : s.collecting = some call) :
    s.phase = .atTop call ∧ ¬ (s.queue.numEvents = 0 ∧ call.timeout ≠ 0) := by
  rw [collecting] at h
  split at h
  case h_1 call' hphase =>
    split at h
    · cases h
    case isFalse hgo =>
      cases h
      exact ⟨hphase, hgo⟩
  · cases h

theorem step_pass_collecting (h : s.collecting = some call) :
    s.step (.pass lib) = (Pass.handleEvents lib call.maxevents (int32 s.queue.numEvents).toNat
      { queue := s.queue, emptySem := s.emptySem, events := [] }).map (s.finishPass call) := by
  obtain ⟨hphase, hgo⟩ := collecting_eq_some h
  rw [step, hphase]
  exact if_neg hgo

theorem step_sound (h : s.step a = some s') : s.Step a s' := by
  cases a with
  | push event =>
    rw [step, Option.ite_none_right_eq_some] at h
    obtain ⟨hroom, h⟩ := h
    cases h
    exact .push event hroom
  | call maxevents timeout =>
    simp only [step] at h
    split at h
    case h_1 hphase =>
      cases h
      split
      · exact .refused hphase ‹_›
      · exact .call hphase ‹_›
    · cases h
  | pass lib =>
    cases hphase : s.phase with
    | atTop call =>
      by_cases hsleep : s.queue.numEvents = 0 ∧ call.timeout ≠ 0
      · simp only [step, hphase, if_pos hsleep] at h
        cases h
        exact .sleep hphase hsleep.1 hsleep.2
      · have hcall : s.collecting = some call := by
          simp only [collecting, hphase, if_neg hsleep]
        rw [step_pass_collecting hcall] at h
        obtain ⟨p, hp, rfl⟩ := Option.map_eq_some_iff.mp h
        exact .pass hcall hp
    | _ =>
      simp only [step, hphase] at h
      cases h
  | woken exit =>
    simp only [step] at h
    split at h
    · rw [Option.ite_none_right_eq_some] at h
      obtain ⟨hfull, h⟩ := h
      cases h
      exact .woken ‹_› hfull
    · cases h
  | timedOut exit =>
    simp only [step] at h
    split at h
    · rw [Option.ite_none_right_eq_some] at h
      obtain ⟨⟨htimeout, hfull⟩, h⟩ := h
      cases h
      exact .timedOut ‹_› htimeout hfull
    · cases h
  | interrupted =>
    simp only [step] at h
    split at h <;> cases h
    exact .interrupted ‹_›

@[simp] theorem wakeUp_queue (s : EpollInstance) (call : WaitCall) (exit : Bool) :
    (s.wakeUp call exit).queue = s.queue := by
  cases exit <;> rfl

@[simp] theorem wakeUp_emptySem (s : EpollInstance) (call : WaitCall) (exit : Bool) :
    (s.wakeUp call exit).emptySem = s.emptySem := by
  cases exit <;> rfl

@[simp] theorem finishPass_queue (s : EpollInstance) (call : WaitCall) (p : Pass) :
    (s.finishPass call p).queue = p.queue := by
  unfold finishPass
  split <;> rfl

@[simp] theorem finishPass_events (s : EpollInstance) (call : WaitCall) (p : Pass) :
    (s.finishPass call p).events = p.events := by
  unfold finishPass
  split <;> rfl

@[simp] theorem finishPass_emptySem (s : EpollInstance) (call : WaitCall) (p : Pass) :
    (s.finishPass call p).emptySem = p.emptySem := by
  unfold finishPass
  split <;> rfl

theorem finishPass_result (p : Pass) (hidle : (s.finishPass call p).phase = .idle) :
    (s.finishPass call p).result = some (call, (p.events.length : ℤ)) := by
  unfold finishPass at hidle ⊢
  split
  case isTrue hwait =>
    rw [if_pos hwait] at hidle
    cases hidle
  · rfl

namespace Holds

theorem numEvents_eq (h : s.Holds cap) : s.queue.numEvents = s.queue.queued.length :=
  h.sound.length_queued.symm

theorem bound_eq (h : s.Holds cap) (hcap : cap < 2 ^ 31) :
    (int32 s.queue.numEvents).toNat = s.queue.queued.length := by
  have hnum := h.sound.numEvents
  have hbound := h.sound.bound
  rw [← h.numEvents_eq, int32_of_lt (by omega), Int.toNat_natCast]

theorem pass (h : s.Holds cap) (hcap : cap < 2 ^ 31) (hcall : s.collecting = some call)
    (hfits : lib.Fits call.maxevents s.queue.queued) :
    ∃ p, s.step (.pass lib) = some (s.finishPass call p) ∧ NtsEventQueue.Sound cap p.queue ∧
      p.queue.queued = [] ∧ p.events = s.queue.queued.filter lib.reports := by
  obtain ⟨p, hp, hsound, hqueue, hevents⟩ := Pass.handleEvents_of_fits
    (p := { queue := s.queue, emptySem := s.emptySem, events := [] }) h.sound rfl hfits.1 hfits.2
  refine ⟨p, ?_, hsound, hqueue, hevents⟩
  rw [step_pass_collecting hcall, h.bound_eq hcap, hp]
  rfl

theorem resultCorrect_iff (h : s.Holds cap) (hcap : cap < 2 ^ 31) (a : WaitAct) :
    s.ResultCorrect a ↔ s.EventsFit a := by
  cases a with
  | pass lib =>
    refine forall_congr' fun call => forall_congr' fun hcall => ?_
    constructor
    · rintro ⟨s', k, hstep, hsound, -, -, hroom, -⟩
      rw [step_pass_collecting hcall, h.bound_eq hcap] at hstep
      obtain ⟨p, hp, rfl⟩ := Option.map_eq_some_iff.mp hstep
      rw [finishPass_queue] at hsound
      rw [finishPass_events] at hroom
      -- no event can be taken that is not there, so every iteration has taken one
      obtain ⟨l, htakes, hl⟩ := Pass.takes_handleEvents hp
      have hle := hsound.popped_le
      have hcount := htakes.popped
      have hqueued : s.queue.queued.length = s.queue.pushed.length - s.queue.popped.length :=
        List.length_drop
      have hold := h.sound.popped_le
      rw [htakes.pushed] at hle
      have hall := hl.resolve_left (not_lt.mpr hroom)
      simp only at hcount hle
      have hexact : p.queue.popped.length =
          s.queue.popped.length + s.queue.queued.length := by omega
      obtain ⟨hknown, hevents⟩ := Pass.fits_of_handleEvents
        (p := { queue := s.queue, emptySem := s.emptySem, events := [] })
        h.sound rfl hp hexact hroom
      rw [hevents] at hroom
      exact ⟨hknown, hroom⟩
    · intro hfits
      obtain ⟨p, hstep, hsound, hqueue, hevents⟩ := h.pass hcap hcall hfits
      refine ⟨_, s.queue.queued.length, hstep, ?_, ?_, ?_, ?_, fun hidle => ?_⟩
      · rw [finishPass_queue, h.sound.size]
        exact hsound
      · rw [finishPass_queue, hqueue, List.drop_length]
      · rw [finishPass_events, hevents, List.take_length]
      · rw [finishPass_events, hevents]
        exact hfits.2
      · rw [finishPass_result p hidle, finishPass_events]
  | _ => exact Iff.rfl

theorem of_queue (h : s.Holds cap) (hqueue : s'.queue = s.queue)
    (hempty : s'.emptySem = s.emptySem) : s'.Holds cap := by
  refine ⟨?_, ?_⟩
  · rw [hqueue]
    exact h.sound
  · rw [hqueue, hempty]
    exact h.emptySem

theorem step (h : s.Holds cap) (hcap : cap < 2 ^ 31) (hfit : s.EventsFit a)
    (hstep : s.step a = some s') : s'.Holds cap := by
  cases step_sound hstep with
  | push event hroom =>
    have hempty := h.emptySem
    have hle := h.sound.popped_le
    refine ⟨h.sound.push (by omega) event, ?_⟩
    rw [NtsEventQueue.unpopped] at hempty ⊢
    simp only [NtsEventQueue.push, List.length_append, List.length_singleton]
    omega
  | @pass lib call p hcall hp =>
    obtain ⟨p', hstep', hsound, hqueue, -⟩ := h.pass hcap hcall (hfit call hcall)
    obtain ⟨k, htakes, -⟩ := Pass.takes_handleEvents hp
    rw [step_pass_collecting hcall, hp] at hstep'
    have hsame : p.queue = p'.queue := by
      rw [← finishPass_queue s call p, ← finishPass_queue s call p']
      exact congrArg EpollInstance.queue (Option.some.inj hstep')
    have hempty := h.emptySem
    have hposted := htakes.emptySem
    have hpopped := htakes.popped
    have hold := h.sound.popped_le
    rw [← hsame] at hsound
    have hle := hsound.popped_le
    rw [NtsEventQueue.unpopped] at hempty
    rw [htakes.pushed] at hle
    simp only at hposted hpopped hle
    refine ⟨?_, ?_⟩
    · rw [finishPass_queue]
      exact hsound
    · rw [finishPass_emptySem, finishPass_queue, NtsEventQueue.unpopped, htakes.pushed]
      simp only
      omega
  | woken hphase hfull | timedOut hphase htimeout hfull =>
    apply h.of_queue
    · rw [wakeUp_queue]
    · rw [wakeUp_emptySem]
  | _ => exact h.of_queue rfl rfl

end Holds

theorem holds_create (hpos : 0 < cap) (hcap : cap < 2 ^ 31) (events : ℕ → EpollEvent) :
    (create cap events).Holds cap where
  sound := NtsEventQueue.Sound.create hpos (by omega) events
  emptySem := rfl

def sampleSockets : NtsContext where
  ntSockMap := Function.update (fun _ => none) 2
    (some { sockid := 2, socktype := 3, epoll := 1, epData := 2 })
  ntEpollMap := fun _ => none

def sampleWait (n : ℕ) : List WaitAct :=
  List.replicate n (.push sampleEvent) ++ [.call 1 0, .pass sampleSockets]

theorem one_event_refined :
    ∃ p', Pass.handleEvents sampleSockets 1 1
        ⟨(NtsEventQueue.create 4 fun _ => sampleEvent).push sampleEvent, 3, []⟩ = some p' ∧
      p'.queue.queued = [] ∧ p'.events = [sampleEvent] := by
  have hsound : NtsEventQueue.Sound 4 (NtsEventQueue.create 4 fun _ => sampleEvent) :=
    NtsEventQueue.Sound.create (by decide) (by decide) _
  obtain ⟨p', hp', -, hdone⟩ := Pass.handleEvents_of_waitLoop (p := ⟨_, 3, []⟩)
    (hsound.push (by decide) sampleEvent) (by decide)
    (rfl : sampleSockets.waitLoop 1 1 0 [sampleEvent] = some ([sampleEvent], []))
  exact ⟨p', hp', hdone⟩

end EpollInstance

end Nts

end NtSocks
