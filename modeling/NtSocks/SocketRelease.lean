import NtSocks.SocketCalls

/-!
# What the monitor holds when all sockets are closed

A socket that is closed before it is established is given up by the library alone, so its record and
its port stay with the monitor. And whatever way a socket is closed, `free_socket` takes its id for
the index of its entry, which is one less: the first entry of the table, once it was handed out, is
never free again.
-/

namespace NtSocks.Ntm

open NtSocks.Ntm.NtSockContext (sockid)

structure Fresh (n : ℕ) (mgr : NtmManager) : Prop where
  records : ∀ id, mgr.ntsShmConnMap id = none
  listeners : ∀ port, mgr.listenerMap port = none
  portSocks : ∀ port, mgr.portSockMap port = none
  sockets : mgr.ntSockCtx.freeNtsock = (NtSockContext.initSocketContext n).freeNtsock
  ports : ∀ port, mgr.ntPortCtx.status port = .unused

/-- The monitor holds no record, no entry of a socket and no port. -/
structure Released (n : ℕ) (mgr : NtmManager) : Prop where
  records : ∀ id, mgr.ntsShmConnMap id = none
  sockets : ∃ es, mgr.ntSockCtx.freeNtsock.Follows mgr.ntSockCtx.freeNtsock.first es ∧
    ∀ i < n, i ∈ es
  ports : ∀ port, mgr.ntPortCtx.status port = .unused

def FirstLost (mgr : NtmManager) : Prop := ¬ mgr.ntSockCtx.freeNtsock.Points 0

section Fresh

variable {n : ℕ} {mgr mgr' : NtmManager} {out : List NtmSockMsg}

theorem Fresh.request (h : Fresh n mgr) {request : NtsRequest} (hopens : request.opens = false)
    (hhandle : mgr.ntsShmHandleMsg request = some (mgr', out)) : mgr' = mgr := by
  cases request with
  | newSock msgId sockType shmAddrlen => cases hopens
  | bind msg =>
    simp only [NtmManager.ntsShmHandleMsg, NtmManager.handleMsgNtsBind, h.records] at hhandle
    cases hhandle
    rfl
  | listen msgId sockid backlog =>
    simp only [NtmManager.ntsShmHandleMsg, NtmManager.handleMsgNtsListen, h.records] at hhandle
    cases hhandle
    rfl
  | acceptAck sockid shmAddrlen =>
    simp only [NtmManager.ntsShmHandleMsg, NtmManager.handleMsgNtsAcceptAck, h.records] at hhandle
    cases hhandle
    rfl
  | connect tcp uninitialised msg =>
    simp only [NtmManager.ntsShmHandleMsg, NtmManager.handleMsgNtsConnect, h.records] at hhandle
    cases hhandle
  | close msgId sockid =>
    simp only [NtmManager.ntsShmHandleMsg, NtmManager.handleMsgNtsClose, h.records,
      ite_self] at hhandle
    cases hhandle
    rfl
  | fin tcp msg =>
    simp only [NtmManager.ntsShmHandleMsg, NtmManager.handleMsgNtsFin, h.records,
      ite_self] at hhandle
    cases hhandle
    rfl

theorem Fresh.findListener (h : Fresh n mgr) (port : ℕ) :
    mgr.findListener port = .error .ntListenerNotFound := by
  rw [NtmManager.findListener, h.listeners]

theorem Fresh.message {host host' : Host} (h : Fresh n host.ntm) {shmAccept : String → Bool}
    {ntmConn : NtmConn} {msg : NtmSockMsg}
    (hhandle : host.ntmSockHandleMsg shmAccept ntmConn msg = some (host', out)) :
    host'.ntm = host.ntm := by
  rw [Host.ntmSockHandleMsg] at hhandle
  split at hhandle
  · simp only [Host.handleNtSynMsg, NtmManager.findBacklog, h.findListener] at hhandle
    cases hhandle
    rfl
  · simp only [Host.handleNtSynAckMsg, NtmManager.synAckSocket, h.portSocks] at hhandle
    split at hhandle
    · cases hhandle
    · cases hhandle
      rfl
  · simp only [NtmManager.handleNtClientSynAckMsg, h.findListener] at hhandle
    split at hhandle
    · cases hhandle
    · cases hhandle
      rfl
  · simp only [NtmManager.handleNtFinAckMsg, h.portSocks, Option.map_some] at hhandle
    cases hhandle
    rfl
  all_goals
    cases hhandle
    rfl

theorem Fresh.serves (h : Fresh n mgr) (hserves : Serves mgr mgr') : Fresh n mgr' := by
  cases hserves with
  | idle => exact h
  | backlog w backlog => exact ⟨h.records, h.listeners, h.portSocks, h.sockets, h.ports⟩
  | request hopens hhandle =>
    rw [h.request hopens hhandle]
    exact h
  | message hhandle =>
    rw [h.message hhandle]
    exact h

theorem Fresh.released (h : Fresh n mgr) : Released n mgr := by
  refine ⟨h.records, ⟨List.range n, ?_, fun i hi => List.mem_range.mpr hi⟩, h.ports⟩
  rw [h.sockets]
  exact (Tailq.holds_range n).follows

theorem Fresh.newSocket (h : Fresh n mgr) {msgId : ℕ} {sockType shmAddrlen : ℤ}
    (hhandle : mgr.handleMsgNtsNewSocket msgId sockType shmAddrlen = some mgr') :
    0 < n ∧ FirstLost mgr' := by
  rw [NtmManager.handleMsgNtsNewSocket] at hhandle
  split at hhandle
  · cases hhandle
  case h_2 i sockCtx hallocate =>
    obtain ⟨hfirst, hfree, -⟩ := NtSockContext.allocateSocket_cases hallocate
    split at hhandle
    · cases hhandle
    · obtain ⟨ring, -, rfl⟩ := Option.map_eq_some_iff.mp hhandle
      rw [h.sockets] at hfirst hfree
      have hhead : (List.range n).head? = some i :=
        (Tailq.holds_range n).first_eq.symm.trans hfirst
      cases n with
      | zero => cases hhead
      | succ n =>
        rw [List.range_succ_eq_map] at hhead
        cases hhead
        refine ⟨n.succ_pos, fun hpoints => Tailq.not_points_remove_zero (n + 1) ?_⟩
        change sockCtx.freeNtsock.Points 0 at hpoints
        rw [hfree] at hpoints
        exact hpoints

end Fresh

section Lost

variable {mgr mgr' : NtmManager}

theorem FirstLost.update (h : FirstLost mgr) (hupdate : Update mgr mgr') : FirstLost mgr' := by
  rw [FirstLost] at h ⊢
  cases hupdate with
  | tables hnext hconns hmap hfree hevents =>
    rw [hfree]
    exact h
  | notify c i => exact h
  | allocate hallocate =>
    obtain ⟨-, hfree, -⟩ := NtSockContext.allocateSocket_cases hallocate
    rw [hfree]
    exact fun hpoints => h hpoints.of_remove
  | free i =>
    rw [NtSockContext.freeSocket]
    split
    · exact h
    · -- the entry that comes back has the index `i + 1`
      exact fun hpoints => hpoints.of_insertTail.elim (Nat.succ_ne_zero i).symm h
  | record c hf => exact h
  | send reply hsend =>
    obtain ⟨ring, -, rfl⟩ := Option.map_eq_some_iff.mp hsend
    exact h
  | newRecord hring | forget id => exact h

theorem FirstLost.not_released (h : FirstLost mgr) {n : ℕ} (hn : 0 < n) : ¬ Released n mgr := by
  rintro ⟨-, ⟨es, hfollows, hall⟩, -⟩
  exact h (Tailq.Follows.points (p := .head) hfollows (hall 0 hn))

end Lost

end NtSocks.Ntm

namespace NtSocks.Nts.SocketSystem

open NtSocks.Ntm Function

variable {s s' : SocketSystem} {side side' : Side}

/-- A run opens no socket on a host, whose tables stay as they were, or the first entry of its table
is lost. -/
theorem run_fresh_or_lost {n : ℕ} (hfresh : Fresh n (s.ntm side)) {as : List SocketAct}
    (hrun : Runs.run step s as = some s') :
    (∀ a ∈ as, a.opens side = false) ∧ Fresh n (s'.ntm side) ∨
      (∃ a ∈ as, a.opens side = true) ∧ 0 < n ∧ FirstLost (s'.ntm side) := by
  induction as generalizing s with
  | nil =>
    cases hrun
    exact .inl ⟨fun a ha => absurd ha List.not_mem_nil, hfresh⟩
  | cons a as ih =>
    obtain ⟨s₁, hstep, hrest⟩ := Runs.run_cons_eq_some.mp hrun
    cases hopens : a.opens side with
    | false =>
      rcases ih (hfresh.serves (step_serves hopens hstep)) hrest with
        ⟨hnone, hfresh'⟩ | ⟨⟨b, hb, hb'⟩, hlost⟩
      · exact .inl ⟨List.forall_mem_cons.mpr ⟨hopens, hnone⟩, hfresh'⟩
      · exact .inr ⟨⟨b, List.mem_cons_of_mem a hb, hb'⟩, hlost⟩
    | true =>
      obtain ⟨type, hnew⟩ := step_opens hopens hstep
      obtain ⟨hn, hlost⟩ := hfresh.newSocket hnew
      have hend : FirstLost (s'.ntm side) :=
        Runs.invariant (I := fun s => FirstLost (s.ntm side))
          (fun _ _ _ h hstep => (step_updates hstep side).keeps (fun _ _ hu h => h.update hu) h)
          hlost hrest
      exact .inr ⟨⟨a, List.mem_cons_self, hopens⟩, hn, hend⟩

/-- Whatever the applications of two hosts do, also when they close all their sockets and nothing is
pending: a monitor that was fresh holds no record, socket or port if and only if no socket was ever
opened on its host. -/
theorem released_iff_none_opened {n : ℕ} (hfresh : Fresh n (s.ntm side)) {as : List SocketAct}
    (hrun : Runs.run step s as = some s') :
    Released n (s'.ntm side) ↔ ∀ a ∈ as, a.opens side = false := by
  rcases run_fresh_or_lost hfresh hrun with ⟨hnone, hfresh'⟩ | ⟨⟨a, ha, hopens⟩, hn, hlost⟩
  · exact iff_of_true hfresh'.released hnone
  · refine iff_of_false (hlost.not_released hn) fun hnone => ?_
    rw [hnone a ha] at hopens
    cases hopens

section Sample

def freshManager : NtmManager where
  listenIp := 0
  ntSockCtx := Ntm.NtSockContext.initSocketContext 4
  ntPortCtx :=
    { status := fun _ => .unused
      numPorts := 8
      freeNtport := (List.range 8).foldl Tailq.insertTail Tailq.init }
  portSockMap := fun _ => none
  ntsShmConnMap := fun _ => none
  shmConns := fun _ => NtmManager.newSocketConn 0
  nextShmConn := 0
  listenerMap := fun _ => none
  wrappers := fun _ =>
    { socket := 0
      backlogCtx := backlogNtm 0
      acceptedConnMap := fun _ => none
      ntsShmConn := 0 }
  connMap := fun _ => none
  epIoQueue := []

theorem freshManager_fresh : Fresh 4 freshManager :=
  ⟨fun _ => rfl, fun _ => rfl, fun _ => rfl, rfl, fun _ => rfl⟩

def sampleStart : SocketSystem where
  net :=
    { host := fun _ => { ntm := freshManager, ntp := sampleLink }
      inbox := fun _ => []
      ntmConn := fun _ => { ip := 0, clientSock := 0 }
      shmAccept := fun _ _ => true }
  lib := fun _ => { ntSockMap := fun _ => none, closing := [] }
  fins := fun _ => 0

def bindAndClose : List SocketAct :=
  [.call .left (.socket 2 0), .call .left (.bind 1 { port := 5, addr := 7, strlen := 7 }),
    .call .left (.resume 1), .call .left (.close 1)]

def bindAgain : List SocketAct :=
  [.call .left (.socket 2 0), .call .left (.bind 2 { port := 5, addr := 7, strlen := 7 })]

def listenAndClose : List SocketAct :=
  [.call .left (.socket 2 0), .call .left (.bind 1 { port := 5, addr := 7, strlen := 7 }),
    .call .left (.resume 1), .call .left (.listen 1 4), .call .left (.resume 1),
    .call .left (.close 1), .call .left (.resumeClose 0)]

def refusedConnect : List SocketAct :=
  [.call .right (.socket 2 0),
    .call .right (.connect 1 { port := 5, addr := 7, strlen := 7 } sampleTcp none), .deliver .left,
    .deliver .right]

theorem allClosed_of_update {f : ℤ → Option NtSockContext}
    (hleft : (s.lib .left).ntSockMap = update f 1 none) (hf : ∀ id ≠ 1, f id = none)
    (hclosing : (s.lib .left).closing = [])
    (hright : s.lib .right = { ntSockMap := fun _ => none, closing := [] }) : s.AllClosed := by
  intro side
  cases side with
  | left =>
    refine ⟨?_, hclosing⟩
    rw [hleft]
    exact (forall_update_iff f fun _ ctx => ctx = none).mpr ⟨rfl, hf⟩
  | right =>
    rw [hright]
    exact ⟨fun _ => rfl, rfl⟩

/-- All sockets are closed and nothing is pending, and yet the monitor still has the record of the
socket and its port. The port cannot be bound again. -/
theorem bound_port_kept :
    ∃ s s', Runs.run step sampleStart bindAndClose = some s ∧ s.AllClosed ∧ s.Quiet ∧
      (s.ntm .left).ntsShmConnMap 1 = some 0 ∧ (s.ntm .left).ntPortCtx.status 5 = .used ∧
      ¬ Released 4 (s.ntm .left) ∧ Runs.run step s bindAgain = some s' ∧
      ((s'.ntm .left).sentTo 1)[1]? = some (ntsResponse 2 .bind 2 (some .inusePort)) := by
  refine ⟨_, _, rfl, ?_, ?_, rfl, rfl, ?_, rfl, rfl⟩
  · refine allClosed_of_update rfl (fun id hid => ?_) rfl rfl
    iterate 3 refine (update_of_ne hid _ _).trans ?_
    rfl
  · intro side
    cases side <;> exact ⟨rfl, rfl⟩
  · exact fun h => Option.some_ne_none 0 (h.records 1)

/-- The host of an application that is only called leaves nothing behind. After a listener is closed
its record and its port are released, but not its entry in the table. -/
theorem released_iff_none_opened_listener :
    (∃ s, Runs.run step sampleStart refusedConnect = some s ∧ Released 4 (s.ntm .left)) ∧
    ∃ s, Runs.run step sampleStart listenAndClose = some s ∧ s.AllClosed ∧ s.Quiet ∧
      (s.ntm .left).ntsShmConnMap 1 = none ∧ (s.ntm .left).ntPortCtx.status 5 = .unused ∧
      ¬ Released 4 (s.ntm .left) := by
  obtain ⟨s₁, hrefused⟩ : ∃ s, Runs.run step sampleStart refusedConnect = some s := ⟨_, rfl⟩
  refine ⟨⟨s₁, hrefused, ?_⟩, _, rfl, ?_, ?_, rfl, rfl, ?_⟩
  · have hnone : ∀ a ∈ refusedConnect, a.opens .left = false := by decide
    exact (released_iff_none_opened freshManager_fresh hrefused).mpr hnone
  · refine allClosed_of_update rfl (fun id hid => ?_) rfl rfl
    iterate 5 refine (update_of_ne hid _ _).trans ?_
    rfl
  · intro side
    cases side <;> exact ⟨rfl, rfl⟩
  · intro h
    obtain ⟨s₂, hlistener, hs₂⟩ : ∃ s, Runs.run step sampleStart listenAndClose = some s ∧
      Released 4 (s.ntm .left) := ⟨_, rfl, h⟩
    have hnone := (released_iff_none_opened freshManager_fresh hlistener).mp hs₂
    exact absurd (hnone _ List.mem_cons_self) (by decide)

end Sample

end NtSocks.Nts.SocketSystem
