import NtSocks.EpollWait

/-!
# Counting epoll events

A producer posts `full_sem` for each event. `nts_epoll_wait` waits on it only while the queue is
empty, and then takes out all events that it finds. So the semaphore counts the events as long as
each pass over the events finds just the one that has woken the call; a count that is left over ends
the timed wait of a later call at once.
-/

namespace NtSocks.Nts.EpollInstance

variable {s s' : EpollInstance} {cap : ℕ} {a : WaitAct}

def Accounted (cap : ℕ) (s : EpollInstance) : Prop :=
  s.fullSem = s.queue.numEvents ∧ s.emptySem + s.queue.numEvents = cap

/-- A call with a positive timeout that returned 0, on a queue that stayed empty, has waited until
the timeout was over. -/
def WokenInTime (s : EpollInstance) : Prop :=
  ∀ call, s.result = some (call, 0) → call.timed = true → call.undisturbed = true →
    call.timedOut = true

/-- A pass over the events finds one event if the call was woken for it, and none otherwise; its
socket is known to the library. A call that is woken is not stopped by the flag of the library. -/
def WokenForEvent (s : EpollInstance) : WaitAct → Prop
  | .pass lib => ∀ call, s.collecting = some call →
      lib.Fits call.maxevents s.queue.queued ∧ s.queue.queued.length = call.woken.toNat
  | .woken exit => exit = false
  | _ => True

def pendingWake : WaitPhase → ℕ
  | .atTop call => call.woken.toNat
  | .idle => 0
  | .asleep _ => 0

/-- `taken` is the number of waits that succeeded: as many as events were taken out, apart from the
one that has woken the call under way. -/
structure Counts (cap : ℕ) (s : EpollInstance) : Prop where
  holds : s.Holds cap
  full : s.fullSem + s.taken = s.queue.pushed.length
  taken : s.taken = s.queue.popped.length + pendingWake s.phase

/-- The call under way, if the queue has stayed empty since it began. -/
def CallInOrder (s : EpollInstance) : Prop :=
  ∀ call, s.phase = .atTop call ∨ s.phase = .asleep call → call.undisturbed = true →
    s.queue.numEvents = 0 ∧ s.fullSem = 0 ∧
      (call.timed = true → call.timedOut = true ∨ 0 < call.timeout)

namespace Counts

theorem create (hpos : 0 < cap) (hcap : cap < 2 ^ 31) (events : ℕ → EpollEvent) :
    Counts cap (create cap events) :=
  ⟨holds_create hpos hcap events, rfl, rfl⟩

/-- The events in the queue are those that the semaphore counts, and the one that the call under way
was woken for. -/
theorem numEvents (h : Counts cap s) : s.queue.numEvents = s.fullSem + pendingWake s.phase := by
  have hnum := h.holds.sound.numEvents
  have hfull := h.full
  have htaken := h.taken
  omega

theorem accounted (h : Counts cap s) (hidle : s.phase = .idle) : Accounted cap s := by
  have hnum := h.numEvents
  have hunpopped := h.holds.sound.numEvents
  have hempty := h.holds.emptySem
  rw [hidle, pendingWake] at hnum
  rw [NtsEventQueue.unpopped, ← hunpopped] at hempty
  exact ⟨hnum.symm, hempty⟩

theorem pass (hcap : cap < 2 ^ 31) (h : Counts cap s) {lib : NtsContext} {call : WaitCall}
    {p : Pass} (hcall : s.collecting = some call) (ha : s.WokenForEvent (.pass lib))
    (hp : Pass.handleEvents lib call.maxevents (int32 s.queue.numEvents).toNat
      { queue := s.queue, emptySem := s.emptySem, events := [] } = some p) :
    p.queue.pushed = s.queue.pushed ∧ s.taken = p.queue.popped.length := by
  obtain ⟨hfits, hfound⟩ := ha call hcall
  obtain ⟨k, htakes, -⟩ := Pass.takes_handleEvents hp
  obtain ⟨p', hstep, hsound, hqueue, -⟩ := h.holds.pass hcap hcall hfits
  rw [step_pass_collecting hcall, hp] at hstep
  have hsame : p'.queue = p.queue := by
    rw [← finishPass_queue s call p', ← finishPass_queue s call p]
    exact (congrArg EpollInstance.queue (Option.some.inj hstep)).symm
  rw [hsame] at hsound hqueue
  refine ⟨htakes.pushed, ?_⟩
  -- the queue is emptied, and it held the event of the wake-up only
  have hdone := congrArg List.length hqueue
  have hle := hsound.popped_le
  have htaken := h.taken
  have hold := h.holds.sound.popped_le
  rw [(collecting_eq_some hcall).1, pendingWake] at htaken
  rw [NtsEventQueue.queued, List.length_drop] at hdone hfound
  rw [htakes.pushed] at hdone hle
  simp only [List.length_nil] at hdone hle
  omega

theorem step (hcap : cap < 2 ^ 31) (h : Counts cap s) (ha : s.WokenForEvent a)
    (hstep : s.step a = some s') : Counts cap s' := by
  have hfit : s.EventsFit a := by
    cases a with
    | pass lib => exact fun call hcall => (ha call hcall).1
    | _ => trivial
  have hholds := h.holds.step hcap hfit hstep
  have hfull := h.full
  have htaken := h.taken
  cases step_sound hstep with
  | push event hroom =>
    refine ⟨hholds, ?_, ?_⟩
    · simp only [NtsEventQueue.push, List.length_append, List.length_singleton]
      omega
    · cases hphase : s.phase <;> rw [hphase] at htaken <;> exact htaken
  | refused hphase hmax | call hphase hmax =>
    rw [hphase] at htaken
    exact ⟨hholds, hfull, htaken⟩
  | sleep hphase hnum htimeout =>
    have hcounted := h.numEvents
    refine ⟨hholds, hfull, ?_⟩
    simp only [pendingWake]
    omega
  | @pass lib call p hcall hp =>
    obtain ⟨hpushed, hpopped⟩ := h.pass hcap hcall ha hp
    refine ⟨hholds, ?_, ?_⟩
    · rw [finishPass_queue, hpushed, ← hfull]
      unfold finishPass
      split <;> rfl
    · rw [finishPass_queue, ← hpopped]
      unfold finishPass
      split <;> rfl
  | @woken exit call hphase hsem =>
    obtain rfl : exit = false := ha
    rw [hphase] at htaken
    refine ⟨hholds, ?_, ?_⟩
    · change s.fullSem - 1 + (s.taken + 1) = s.queue.pushed.length
      omega
    · change s.taken + 1 = s.queue.popped.length + 1
      rw [htaken]
      rfl
  | @timedOut exit call hphase htimeout hsem =>
    rw [hphase] at htaken
    cases exit with
    | true | false => exact ⟨hholds, hfull, htaken⟩
  | interrupted hphase =>
    rw [hphase] at htaken
    exact ⟨hholds, hfull, htaken⟩

end Counts

theorem wokenInTime_wakeUp (h : s.WokenInTime) (call : WaitCall) (exit : Bool) :
    (s.wakeUp call exit).WokenInTime := by
  cases exit with
  | true =>
    intro call' hresult
    cases hresult
  | false => exact h

theorem CallInOrder.step (hcounts : Counts cap s) (hcall : s.CallInOrder) (hwoken : s.WokenInTime)
    (hstep : s.step a = some s') : s'.CallInOrder ∧ s'.WokenInTime := by
  cases step_sound hstep with
  | push event hroom =>
    refine ⟨fun call hphase hundisturbed => ?_, hwoken⟩
    cases hold : s.phase with
    | idle =>
      rw [hold] at hphase
      rcases hphase with hphase | hphase <;> cases hphase
    | atTop call' | asleep call' =>
      rw [hold] at hphase
      rcases hphase with hphase | hphase <;> cases hphase
      cases hundisturbed
  | refused hphase hmax =>
    refine ⟨fun call hphase' => ?_, fun call hresult => ?_⟩
    · rcases hphase' with hphase' | hphase' <;> cases hphase'
    · cases hresult
  | @call maxevents timeout hphase hmax =>
    refine ⟨fun call hphase' hundisturbed => ?_, hwoken⟩
    have hfull := (hcounts.accounted hphase).1
    rcases hphase' with hphase' | hphase'
    · cases hphase'
      have hempty : s.queue.numEvents = 0 := of_decide_eq_true hundisturbed
      exact ⟨hempty, hfull.trans hempty, fun htimed => Or.inr (of_decide_eq_true htimed)⟩
    · cases hphase'
  | sleep hphase hnum htimeout =>
    refine ⟨fun call hphase' hundisturbed => ?_, hwoken⟩
    rcases hphase' with hphase' | hphase' <;> cases hphase'
    exact hcall _ (Or.inl hphase) hundisturbed
  | @pass lib call p hcollecting hp =>
    obtain ⟨hphase, hgo⟩ := collecting_eq_some hcollecting
    -- on a queue that stayed empty only a call that need not wait goes over the events
    have htimeout : call.undisturbed = true → call.timeout = 0 := by
      intro hundisturbed
      by_contra hne
      exact hgo ⟨(hcall call (Or.inl hphase) hundisturbed).1, hne⟩
    unfold finishPass
    split
    case isTrue hwait =>
      refine ⟨fun call' hphase' hundisturbed => ?_, hwoken⟩
      rcases hphase' with hphase' | hphase' <;> cases hphase'
      exact absurd (htimeout hundisturbed) hwait.2
    · refine ⟨fun call' hphase' => ?_, fun call' hresult htimed hundisturbed => ?_⟩
      · rcases hphase' with hphase' | hphase' <;> cases hphase'
      · obtain ⟨rfl, -⟩ := Prod.mk.inj (Option.some.inj hresult)
        have hzero := htimeout hundisturbed
        obtain ⟨-, -, hover⟩ := hcall call (Or.inl hphase) hundisturbed
        exact (hover htimed).resolve_right (by omega)
  | @woken exit call hphase hfull =>
    have hwoken' : WokenInTime { s with fullSem := s.fullSem - 1, taken := s.taken + 1 } := hwoken
    refine ⟨fun call' hphase' hundisturbed => ?_, wokenInTime_wakeUp hwoken' _ _⟩
    cases exit with
    | true => rcases hphase' with hphase' | hphase' <;> cases hphase'
    | false =>
      rcases hphase' with hphase' | hphase' <;> cases hphase'
      have hzero := (hcall call (Or.inr hphase) hundisturbed).2.1
      omega
  | @timedOut exit call hphase htimeout hfull =>
    refine ⟨fun call' hphase' hundisturbed => ?_, wokenInTime_wakeUp hwoken _ _⟩
    cases exit with
    | true => rcases hphase' with hphase' | hphase' <;> cases hphase'
    | false =>
      rcases hphase' with hphase' | hphase' <;> cases hphase'
      obtain ⟨hnum, -, -⟩ := hcall call (Or.inr hphase) hundisturbed
      exact ⟨hnum, hfull, fun _ => Or.inl rfl⟩
  | interrupted hphase =>
    refine ⟨fun call hphase' => ?_, fun call hresult => ?_⟩
    · rcases hphase' with hphase' | hphase' <;> cases hphase'
    · cases hresult

/-- For every interleaving of pushes and calls in which each pass over the events finds just the one
event that the call was woken for, or none: whenever no call is under way the semaphores count the
events and the free slots, and a timed call has returned 0 on a queue that stayed empty only when
its time was over. -/
theorem wakeup_accounting (hpos : 0 < cap) (hcap : cap < 2 ^ 31) (events : ℕ → EpollEvent)
    {as : List WaitAct} (has : Runs.Along EpollInstance.step WokenForEvent (create cap events) as)
    (hrun : Runs.run EpollInstance.step (create cap events) as = some s) (hidle : s.phase = .idle) :
    Accounted cap s ∧ s.WokenInTime := by
  have hinit : (create cap events).CallInOrder ∧ (create cap events).WokenInTime := by
    refine ⟨fun call hphase => ?_, fun call hresult => ?_⟩
    · rcases hphase with hphase | hphase <;> cases hphase
    · cases hresult
  obtain ⟨hcounts, -, hwoken⟩ := Runs.invariant_of_along
    (I := fun s => Counts cap s ∧ s.CallInOrder ∧ s.WokenInTime)
    (fun s a s' ⟨hcounts, hcall, hwoken⟩ ha hstep =>
      ⟨hcounts.step hcap ha hstep, hcall.step hcounts hwoken hstep⟩)
    ⟨Counts.create hpos hcap events, hinit⟩ has hrun
  exact ⟨hcounts.accounted hidle, hwoken⟩

/-- The application waits, and an event is pushed and wakes it. -/
def wokenByEvent : List WaitAct :=
  [.call 1 (-1), .pass sampleSockets, .push sampleEvent, .woken false, .pass sampleSockets]

theorem wokenByEvent_accounted :
    ∃ s, Runs.run EpollInstance.step (create 4 fun _ => sampleEvent) wokenByEvent = some s ∧
      s.phase = .idle ∧ Accounted 4 s ∧ s.WokenInTime := by
  have hrun : Runs.run EpollInstance.step (create 4 fun _ => sampleEvent) wokenByEvent = some _ :=
    rfl
  refine ⟨_, hrun, rfl, wakeup_accounting (by decide) (by decide) _ ?_ hrun rfl⟩
  refine ⟨trivial, fun s₁ hs₁ => ⟨?_, fun s₂ hs₂ => ⟨trivial, fun s₃ hs₃ => ⟨rfl, fun s₄ hs₄ =>
    ⟨?_, fun _ _ => trivial⟩⟩⟩⟩⟩
  · cases hs₁
    intro call hcall
    cases hcall
  · cases hs₁
    cases hs₂
    cases hs₃
    cases hs₄
    intro call hcall
    cases hcall
    refine ⟨⟨fun event hevent => ?_, by decide⟩, rfl⟩
    obtain rfl : event = sampleEvent := List.mem_singleton.mp hevent
    exact ⟨_, rfl, by decide, by decide⟩

/-- An event is pushed before the application waits: the call takes it without waiting. Then the
application waits for a second at most, and the wait ends at once, with no event. -/
def eventBeforeWait : List WaitAct :=
  [.push sampleEvent, .call 1 (-1), .pass sampleSockets, .call 1 1000, .pass sampleSockets,
    .woken false, .pass sampleSockets]

theorem eventBeforeWait_miscounted :
    (∃ s, Runs.run EpollInstance.step (create 4 fun _ => sampleEvent) (eventBeforeWait.take 3) =
        some s ∧
      s.phase = .idle ∧ s.fullSem = 1 ∧ s.queue.numEvents = 0 ∧ ¬ Accounted 4 s) ∧
    ∃ s, Runs.run EpollInstance.step (create 4 fun _ => sampleEvent) eventBeforeWait = some s ∧
      s.phase = .idle ∧ s.result.map Prod.snd = some 0 ∧ ¬ s.WokenInTime := by
  refine ⟨⟨_, rfl, rfl, rfl, rfl, fun haccounted => ?_⟩, _, rfl, rfl, rfl, fun hwoken => ?_⟩
  · exact absurd haccounted.1 (by decide)
  · cases hwoken _ rfl rfl rfl

end NtSocks.Nts.EpollInstance
