import NtSocks.EpollRegistration

/-!
# The data of epoll events

An application registers a 64-bit value for a socket and is to get it back with every event of the
socket. The value is stored in the library, in the monitor and in the proxy; but the two processes
that raise events put the id of the socket into them.
-/

namespace NtSocks

def EpollEvent.CarriesId (event : EpollEvent) : Prop := event.data = event.sockid.toUInt64

namespace RecvState

variable {cfg : NtpConfig} {port2conn : Port2Conn} {s s' : RecvState} {c : ConnPtr}
  {hdr : NtpacketHeader}

def EventsCarryIds (s : RecvState) : Prop := ∀ e ∈ s.epollEvents, e.2.CarriesId

theorem EventsCarryIds.of_eq (h : s.EventsCarryIds) (heq : s'.epollEvents = s.epollEvents) :
    s'.EventsCarryIds := by
  rw [EventsCarryIds, heq]
  exact h

theorem EventsCarryIds.pushEpollEvent (h : s.EventsCarryIds) (c : ConnPtr) :
    (s.pushEpollEvent c).EventsCarryIds := by
  unfold RecvState.pushEpollEvent
  split
  · exact List.forall_mem_append.mpr ⟨h, List.forall_mem_singleton.mpr rfl⟩
  · exact h

theorem EventsCarryIds.recvMulti (h : s.EventsCarryIds) (hstep : s.recvMulti cfg c hdr = some s') :
    s'.EventsCarryIds := by
  simp only [RecvState.recvMulti, Option.ite_none_left_eq_some] at hstep
  obtain ⟨-, hstep⟩ := hstep
  cases hstep
  apply EventsCarryIds.pushEpollEvent
  exact h.of_eq rfl

theorem EventsCarryIds.recvByType {type : UInt16} (h : s.EventsCarryIds)
    (hstep : s.recvByType cfg c hdr type = some s') : s'.EventsCarryIds := by
  simp only [RecvState.recvByType] at hstep
  split at hstep
  · cases hstep
    apply EventsCarryIds.pushEpollEvent
    exact h.of_eq rfl
  · split at hstep
    · exact h.recvMulti hstep
    · split at hstep
      · cases hstep
        exact h.of_eq rfl
      · split at hstep
        · cases hstep
          apply EventsCarryIds.pushEpollEvent
          exact h.of_eq rfl
        · cases hstep
          exact h.of_eq rfl

theorem EventsCarryIds.recvStep (h : s.EventsCarryIds)
    (hstep : s.recvStep cfg port2conn = some s') : s'.EventsCarryIds := by
  by_cases hlen : (s.header cfg).msgLen = 0
  · rw [recvStep_empty cfg port2conn hlen] at hstep
    cases hstep
    exact h
  · have haccept : (s.accept port2conn (s.header cfg)).EventsCarryIds := by
      rw [accept_eq]
      exact h
    cases hlive : (s.accept port2conn (s.header cfg)).liveConn with
    | none =>
      rw [recvStep_drop cfg port2conn hlen hlive] at hstep
      cases hstep
      exact haccept.of_eq rfl
    | some c =>
      rw [recvStep_live cfg port2conn hlen hlive] at hstep
      obtain ⟨s₁, htype, rfl⟩ := Option.map_eq_some_iff.mp hstep
      rw [publishAtInterval_eq]
      exact (haccept.recvByType htype).of_eq rfl

end RecvState

namespace Ntm

namespace NtmManager

variable {mgr mgr' : NtmManager}

def EventsCarryIds (mgr : NtmManager) : Prop := ∀ e ∈ mgr.epIoQueue, e.2.CarriesId

theorem EventsCarryIds.update (h : mgr.EventsCarryIds) (hupdate : Update mgr mgr') :
    mgr'.EventsCarryIds := by
  cases hupdate with
  | tables hnext hconns hmap hfree hevents =>
    rw [EventsCarryIds, hevents]
    exact h
  | notify c i =>
    -- the event of a listener carries the id of its socket
    exact List.forall_mem_append.mpr ⟨h, List.forall_mem_singleton.mpr rfl⟩
  | send reply hsend =>
    obtain ⟨ring, -, rfl⟩ := Option.map_eq_some_iff.mp hsend
    exact h
  | _ => exact h

end NtmManager

end Ntm

def NtpEpoll.newConn (s : NtpEpoll) (k : ConnPtr) : NtpEpoll :=
  { s with
    conns := Function.update s.conns k
      { state := .readyConn, epoll := 0, sockid := 0, recvReadIndex := 0 }
    epData := Function.update s.epData k 0
    connCtx := Function.update s.connCtx k none }

namespace Nts

open NtSocks.Ntm (EpollHost Host NtmConn NtmManager NtsRequest)

/-- An application with its library, the monitor and the proxy of its host, and the event queues of
its epoll instances. `recv` is the receive loop of the proxy. `registered` is the value that was
registered last for a socket, as long as the socket is registered. -/
structure EpollSystem where
  lib : NtsContext
  host : EpollHost
  recv : RecvState
  queueSize : ℤ → ℕ
  queues : ℤ → List EpollEvent
  registered : ℤ → Option UInt64

/-- What happens: calls of `nts_epoll_ctl` and `nts_epoll_wait`, the writes of the peer into the
ring of the receive loop and an iteration of the loop, a message of another monitor and a request of
the library handled by the monitor, and a socket that the library enters or removes. -/
inductive EpollAct
  | ctl (epid op sockid : ℤ) (event : NtsEpollEvent)
  | wait (epid maxevents : ℤ)
  | arrive (mem : Memory)
  | packet
  | peer (shmAccept : String → Bool) (ntmConn : NtmConn) (msg : NtmSockMsg)
  | request (request : NtsRequest)
  | opened (sockid : UInt32) (socktype : ℤ)
  | closed (sockid : ℤ)

namespace EpollSystem

variable (cfg : NtpConfig) (s : EpollSystem)

def epEventQueuePush (epid : ℤ) (event : EpollEvent) : Option EpollSystem :=
  if (s.queues epid).length < s.queueSize epid then
    some { s with queues := Function.update s.queues epid (s.queues epid ++ [event]) }
  else none

/-- Pushes the events of the owners in a list, each to the queue of the instance that its owner is
registered with. -/
def pushAll (s : EpollSystem) (epollCtx : ℕ → Option ℤ) : List (ℕ × EpollEvent) → Option EpollSystem
  | [] => some s
  | (owner, event) :: events =>
    match epollCtx owner with
    | none => none
    | some epid => (s.epEventQueuePush epid event).bind fun s => s.pushAll epollCtx events

def setRegistered (sockid : ℤ) (data : Option UInt64) : EpollSystem :=
  { s with registered := Function.update s.registered sockid data }

def register (op sockid : ℤ) (event : NtsEpollEvent) : EpollSystem :=
  match EpollOp.ofCode op with
  | some .add | some .mod => s.setRegistered sockid (some event.data)
  | some .del => s.setRegistered sockid none
  | none => s

/-- `nts_epoll_ctl`. A call that gets no response on its channel does not return. -/
def ctl (epid op sockid : ℤ) (event : NtsEpollEvent) : Option EpollSystem :=
  match s.lib.ntsEpollCtl epid op sockid event with
  | .returned _ _ => some s
  | .sent lib msg =>
    match s.host.handleMsgNtsEpollCtl msg with
    | some (host, (channel, resp) :: _) =>
      if (lib.ntEpollMap epid).map NtEpollContext.epollShmaddr = some channel then
        let (retval, lib) := lib.ntsEpollCtlFinish epid msg.msgId resp
        let s := { s with lib := lib, host := host }
        some (if retval = 0 then s.register op sockid event else s)
      else none
    | _ => none

def setHost (host : Host) : EpollSystem :=
  let ntp :=
    if host.ntp.nextConn = s.host.link.nextConn then s.host.ntp
    else s.host.ntp.newConn s.host.link.nextConn
  { s with host := { s.host with ntm := host.ntm, link := host.ntp, ntp := ntp } }

def step : EpollAct → Option EpollSystem
  | .ctl epid op sockid event => s.ctl epid op sockid event
  | .wait epid maxevents =>
    (s.lib.ntsEpollWait epid maxevents (s.queues epid)).map fun
      | none => s
      | some (_, queue) => { s with queues := Function.update s.queues epid queue }
  | .arrive mem => some { s with recv := { s.recv with mem := mem } }
  | .packet =>
    let recv := { s.recv with conns := s.host.ntp.conns, epollEvents := [] }
    (recv.recvStep cfg s.host.link.port2conn).bind fun recv =>
      let host := { s.host with ntp := { s.host.ntp with conns := recv.conns } }
      { s with recv := recv, host := host }.pushAll s.host.ntp.connCtx recv.epollEvents
  | .peer shmAccept ntmConn msg =>
    let host := { s.host.host with ntm := { s.host.ntm with epIoQueue := [] } }
    (host.ntmSockHandleMsg shmAccept ntmConn msg).bind fun (host, _) =>
      (s.setHost host).pushAll s.host.epollMgr.shmConnCtx host.ntm.epIoQueue
  | .request request =>
    (s.host.ntm.ntsShmHandleMsg request).map fun (ntm, _) =>
      { s with host := { s.host with ntm := ntm } }
  | .opened sockid socktype =>
    let socket : NtSocket := { sockid := sockid, socktype := socktype, epoll := 0, epData := 0 }
    some ({ s with lib := s.lib.setSocket (intOf sockid) socket }.setRegistered (intOf sockid) none)
  | .closed sockid =>
    let lib := { s.lib with ntSockMap := Function.update s.lib.ntSockMap sockid none }
    some ({ s with lib := lib }.setRegistered sockid none)

def returned : EpollAct → List EpollEvent
  | .wait epid maxevents =>
    match s.lib.ntsEpollWait epid maxevents (s.queues epid) with
    | some (some (events, _)) => events
    | _ => []
  | _ => []

/-- Every returned event of a registered socket carries the value registered last. -/
def CarriesData (a : EpollAct) : Prop :=
  ∀ event ∈ s.returned a, ∀ d, s.registered (intOf event.sockid) = some d → event.data = d

def RegistersId (a : EpollAct) : Prop :=
  ∀ event ∈ s.returned a, ∀ d, s.registered (intOf event.sockid) = some d →
    d = event.sockid.toUInt64

def QueuesCarryIds : Prop := ∀ epid, ∀ event ∈ s.queues epid, event.CarriesId

end EpollSystem

variable {queue rest : List EpollEvent} {lib : NtsContext}

theorem NtsContext.nextEvent_subset {socket : NtSocket} {event : EpollEvent}
    (h : lib.nextEvent queue = some (socket, event, rest)) : event :: rest ⊆ queue := by
  cases queue with
  | nil => cases h
  | cons first tail =>
    rw [nextEvent] at h
    split at h
    · cases h
    · split at h
      · cases h
      case h_2 hqueue =>
        cases h
        rw [← hqueue]
        split
        · exact List.subset_cons_self first tail
        · exact List.Subset.refl _

variable {maxevents : ℤ}

theorem NtsContext.waitLoop_subset {n cnt : ℕ} {events : List EpollEvent}
    (h : lib.waitLoop maxevents n cnt queue = some (events, rest)) :
    events ⊆ queue ∧ rest ⊆ queue := by
  induction n generalizing cnt queue events rest with
  | zero =>
    cases h
    exact ⟨List.nil_subset _, List.Subset.refl _⟩
  | succ n ih =>
    rw [waitLoop] at h
    split at h
    · cases h
      exact ⟨List.nil_subset _, List.Subset.refl _⟩
    · split at h
      · cases h
      case h_2 socket event after hnext =>
        obtain ⟨hevent, hafter⟩ := List.cons_subset.mp (nextEvent_subset hnext)
        split at h
        · obtain ⟨⟨events', rest'⟩, hloop, heq⟩ := Option.map_eq_some_iff.mp h
          cases heq
          obtain ⟨hevents, hrest⟩ := ih hloop
          refine ⟨List.cons_subset.mpr ⟨hevent, ?_⟩, List.Subset.trans hrest hafter⟩
          exact List.Subset.trans hevents hafter
        · obtain ⟨hevents, hrest⟩ := ih h
          exact ⟨List.Subset.trans hevents hafter, List.Subset.trans hrest hafter⟩

theorem NtsContext.ntsEpollWait_subset {epid : ℤ} {events : List EpollEvent}
    (h : lib.ntsEpollWait epid maxevents queue = some (some (events, rest))) :
    events ⊆ queue ∧ rest ⊆ queue := by
  rw [ntsEpollWait] at h
  split at h
  · cases h
  · split at h
    · cases h
    · split at h
      · cases h
      · obtain ⟨result, hloop, heq⟩ := Option.map_eq_some_iff.mp h
        cases heq
        exact waitLoop_subset hloop

namespace EpollSystem

variable {cfg : NtpConfig} {s s' : EpollSystem} {a : EpollAct}

theorem QueuesCarryIds.update (h : s.QueuesCarryIds) {epid : ℤ} {queue : List EpollEvent}
    (hqueue : ∀ event ∈ queue, event.CarriesId) :
    EpollSystem.QueuesCarryIds { s with queues := Function.update s.queues epid queue } :=
  (Function.forall_update_iff s.queues fun _ queue => ∀ event ∈ queue, event.CarriesId).mpr
    ⟨hqueue, fun epid' _ => h epid'⟩

theorem QueuesCarryIds.pushAll {epollCtx : ℕ → Option ℤ} {events : List (ℕ × EpollEvent)}
    (h : s.QueuesCarryIds) (hevents : ∀ e ∈ events, e.2.CarriesId)
    (hpush : s.pushAll epollCtx events = some s') : s'.QueuesCarryIds := by
  induction events generalizing s with
  | nil =>
    cases hpush
    exact h
  | cons e events ih =>
    obtain ⟨owner, event⟩ := e
    rw [EpollSystem.pushAll] at hpush
    split at hpush
    · cases hpush
    case h_2 epid hepid =>
      obtain ⟨s₁, hone, hrest⟩ := Option.bind_eq_some_iff.mp hpush
      rw [epEventQueuePush, Option.ite_none_right_eq_some] at hone
      obtain ⟨-, hone⟩ := hone
      cases hone
      refine ih (h.update ?_) (fun e he => hevents e (List.mem_cons_of_mem _ he)) hrest
      exact List.forall_mem_append.mpr ⟨h epid,
        List.forall_mem_singleton.mpr (hevents _ List.mem_cons_self)⟩

theorem ctl_queues {epid op sockid : ℤ} {event : NtsEpollEvent}
    (hstep : s.ctl epid op sockid event = some s') : s'.queues = s.queues := by
  simp only [ctl] at hstep
  split at hstep
  · cases hstep
    rfl
  · split at hstep
    · rw [Option.ite_none_right_eq_some] at hstep
      obtain ⟨-, hstep⟩ := hstep
      cases hstep
      split
      · unfold register
        split <;> rfl
      · rfl
    · cases hstep

theorem QueuesCarryIds.step (h : s.QueuesCarryIds) (hstep : s.step cfg a = some s') :
    s'.QueuesCarryIds := by
  cases a with
  | ctl epid op sockid event =>
    have hqueues := ctl_queues hstep
    intro epid' event' hevent'
    rw [hqueues] at hevent'
    exact h epid' event' hevent'
  | wait epid maxevents =>
    obtain ⟨result, hwait, rfl⟩ := Option.map_eq_some_iff.mp hstep
    cases result with
    | none => exact h
    | some result =>
      exact h.update fun event hevent =>
        h epid event ((NtsContext.ntsEpollWait_subset hwait).2 hevent)
  | arrive mem =>
    cases hstep
    exact h
  | packet =>
    obtain ⟨recv, hrecv, hpush⟩ := Option.bind_eq_some_iff.mp hstep
    refine QueuesCarryIds.pushAll ?_ (RecvState.EventsCarryIds.recvStep ?_ hrecv) hpush
    · exact h
    · exact fun e he => absurd he List.not_mem_nil
  | peer shmAccept ntmConn msg =>
    obtain ⟨⟨host, out⟩, hhandle, hpush⟩ := Option.bind_eq_some_iff.mp hstep
    have hupdates := Ntm.Host.ntmSockHandleMsg_updates hhandle
    have hids : host.ntm.EventsCarryIds :=
      hupdates.keeps (fun _ _ hupdate hids => hids.update hupdate)
        fun e he => absurd he List.not_mem_nil
    refine QueuesCarryIds.pushAll ?_ hids hpush
    exact h
  | request request =>
    obtain ⟨⟨ntm, out⟩, -, rfl⟩ := Option.map_eq_some_iff.mp hstep
    exact h
  | opened sockid socktype =>
    cases hstep
    exact h
  | closed sockid =>
    cases hstep
    exact h

theorem returned_carries_id (h : s.QueuesCarryIds) {event : EpollEvent}
    (hevent : event ∈ s.returned a) : event.CarriesId := by
  cases a with
  | wait epid maxevents =>
    simp only [returned] at hevent
    split at hevent
    case h_1 events rest hwait =>
      exact h epid event ((NtsContext.ntsEpollWait_subset hwait).1 hevent)
    · exact absurd hevent List.not_mem_nil
  | _ => exact absurd hevent List.not_mem_nil

/-- For every run from empty queues: all events that `nts_epoll_wait` returns carry the value that
was registered last for their socket if and only if, whenever an event of a registered socket is
returned, that value is the id of the socket. -/
theorem carries_data_iff (hempty : ∀ epid, s.queues epid = []) (as : List EpollAct) :
    Runs.Along (EpollSystem.step cfg) CarriesData s as ↔
      Runs.Along (EpollSystem.step cfg) RegistersId s as := by
  refine Runs.along_congr (C := fun _ => True) (I := QueuesCarryIds) ?_
    (fun _ _ _ hI _ _ hstep => hI.step hstep) ?_ fun _ _ => trivial
  · intro s a hI _
    refine forall_congr' fun event => forall_congr' fun hevent => forall_congr' fun d =>
      forall_congr' fun _ => ?_
    have hid : event.data = event.sockid.toUInt64 := returned_carries_id hI hevent
    rw [hid]
    exact eq_comm
  · intro epid event hevent
    rw [hempty] at hevent
    exact absurd hevent List.not_mem_nil

section Sample

open NtSocks.Ntm (withEpoll sampleLib sampleManager samplePorts sampleLink sampleSynMsg
  ntSockListener)

def sampleSystem : EpollSystem where
  lib := sampleLib 2 ntSockListener
  host := withEpoll { ntm := sampleManager samplePorts, ntp := sampleLink }
  recv := (LinkState.init (fun _ => NtbConn.mk .readyConn 0 0 0) none).recv
  queueSize := fun _ => 16
  queues := fun _ => []
  registered := fun _ => none

/-- The listener is registered with the value `data`, a connection arrives for it, and the
application waits for events. -/
def sampleActs (data : UInt64) : List EpollAct :=
  [.ctl 4 1 2 { data := data, events := ntsEpollin },
    .peer (fun _ => true) { ip := 7, clientSock := 0 } sampleSynMsg, .wait 4 8]

theorem carries_data_own_id :
    Runs.Along (EpollSystem.step .defaults) CarriesData sampleSystem (sampleActs 2) := by
  refine (carries_data_iff (fun _ => rfl) _).mpr
    ⟨fun _ hevent => absurd hevent List.not_mem_nil, fun s₁ hs₁ =>
      ⟨fun _ hevent => absurd hevent List.not_mem_nil, fun s₂ hs₂ => ⟨?_, fun _ _ => trivial⟩⟩⟩
  cases hs₁
  cases hs₂
  intro event hevent d hd
  obtain rfl : event = { sockid := 2, data := 2, events := ntsEpollin } :=
    List.mem_singleton.mp hevent
  exact (Option.some.inj hd).symm

/-- The listener is registered with the value 7, and its event carries 2. -/
theorem registered_data_lost :
    ∃ s event, Runs.run (EpollSystem.step .defaults) sampleSystem ((sampleActs 7).take 2) = some s ∧
      event ∈ s.returned (.wait 4 8) ∧ s.registered (intOf event.sockid) = some 7 ∧
      event.data = 2 ∧
      ¬ Runs.Along (EpollSystem.step .defaults) CarriesData sampleSystem (sampleActs 7) := by
  refine ⟨_, _, rfl, List.mem_cons_self, rfl, rfl, fun halong => ?_⟩
  exact absurd (halong.at_step ((sampleActs 7).take 2) [] rfl _ List.mem_cons_self 7 rfl)
    (by decide)

end Sample

end EpollSystem

end Nts

end NtSocks
