import NtSocks.Handshake
import NtSocks.PortAllocator

/-!
# Failed steps of the handshake

`handle_nt_syn_msg` allocates a socket and a port and enters them into its tables before it knows
whether the connection can be made, and its failure branch is to undo this. The branch frees the
socket by its id, which is the index of the next one, and so the socket is lost.
`handle_msg_nts_connect` allocates a port; its failure branch frees it, and leaves the socket under
it in `port_sock_map`.
-/

namespace NtSocks

open Function

namespace NtPortContext

def Available (ctx : NtPortContext) (i : ℕ) : Prop :=
  ctx.status i = .unused ∧ ∃ es, ctx.freeNtport.Follows ctx.freeNtport.first es ∧ i ∈ es

structure Same (ctx ctx' : NtPortContext) : Prop where
  status : ctx'.status = ctx.status
  available : ∀ i, ctx'.Available i ↔ ctx.Available i

variable {ctx ctx' : NtPortContext} {es : List ℕ} {i : ℕ} {portid : ℕ}

theorem FreeQueue.available_iff (h : ctx.FreeQueue es) :
    ctx.Available i ↔ i < ctx.numPorts ∧ ctx.status i = .unused := by
  constructor
  · rintro ⟨hunused, es', hes', hmem⟩
    rw [hes'.unique h.holds.follows] at hmem
    exact ⟨h.lt i hmem, hunused⟩
  · rintro ⟨hlt, hunused⟩
    exact ⟨hunused, es, h.holds.follows, h.complete i hlt hunused⟩

theorem Same.of_freeQueue {es' : List ℕ} (h : ctx.FreeQueue es) (h' : ctx'.FreeQueue es')
    (hstatus : ctx'.status = ctx.status) (hnum : ctx'.numPorts = ctx.numPorts) : ctx.Same ctx' := by
  refine ⟨hstatus, fun i => ?_⟩
  rw [h'.available_iff, h.available_iff, hstatus, hnum]

theorem freePort_of_used (hlt : portid < ctx.numPorts) (hused : ctx.status portid = .used) :
    (ctx.freePort portid).status = update ctx.status portid .unused ∧
      (ctx.freePort portid).numPorts = ctx.numPorts := by
  rw [freePort, if_neg (by omega), if_neg (by rw [Int.toNat_natCast, hused]; decide)]
  exact ⟨rfl, rfl⟩

theorem FreeQueue.same_freePort (h : ctx.FreeQueue es) (halloc : ctx.allocatePort = some (i, ctx'))
    : ctx.Same (ctx'.freePort (portId i).toNat) ↔ i < 65536 := by
  obtain ⟨hlt, hunused, hstatus, hnum, es', hes', hout⟩ := h.allocatePort halloc
  constructor
  · intro hsame
    by_contra hbig
    -- the id of the port is that of another one
    have hne : i ≠ (portId i).toNat := by
      have := (portId i).toNat_lt
      omega
    have hkept : (ctx'.freePort (portId i).toNat).status i = .used := by
      rw [NtPortContext.freePort]
      split
      · rw [hstatus, update_self]
      · split
        · rw [hstatus, update_self]
        · simp only [Int.toNat_natCast]
          exact (update_of_ne hne _ _).trans (by rw [hstatus, update_self])
    rw [hsame.status, hunused] at hkept
    cases hkept
  · intro hsmall
    have hid : (portId i).toNat = i := by
      rw [portId, UInt16.toNat_ofNat']
      exact Nat.mod_eq_of_lt hsmall
    have hused : ctx'.status i = .used := by rw [hstatus, update_self]
    rw [hid]
    obtain ⟨hstatus', hnum'⟩ := freePort_of_used (hnum ▸ hlt) hused
    have hunlinked : ctx'.Unlinked (.free i) := by
      intro j hj heq hst es'' hfollows
      rw [hfollows.unique hes'.holds.follows, ← Int.ofNat_inj.mp heq]
      exact hout
    obtain ⟨es'', hes''⟩ := hes'.freePort hunlinked
    refine Same.of_freeQueue h hes'' ?_ (hnum'.trans hnum)
    rw [hstatus', hstatus, update_idem, ← hunused, update_eq_self]

theorem same_freePort_iff :
    ctx.Same (ctx.freePort portid) ↔ (portid < ctx.numPorts → ctx.status portid = .unused) := by
  constructor
  · intro hsame hlt
    by_contra hused
    have hstatus := congrFun hsame.status portid
    rw [(freePort_of_used hlt (PortStatus.used_of_ne hused)).1, update_self] at hstatus
    exact hused hstatus.symm
  · intro hunused
    have hkept : ctx.freePort portid = ctx := by
      rw [freePort]
      split
      · rfl
      case isFalse hrange => rw [Int.toNat_natCast, if_pos (hunused (by omega))]
    rw [hkept]
    exact ⟨rfl, fun _ => Iff.rfl⟩

end NtPortContext

namespace Ntm

namespace NtSockContext

theorem modify_modify (ctx : NtSockContext) (i : ℕ) (f g : NtSocket → NtSocket) :
    (ctx.modify i f).modify i g = ctx.modify i (g ∘ f) := by
  simp only [modify, update_self, update_idem, comp_apply]

def Listed (ctx : NtSockContext) (i : ℕ) : Prop :=
  ∃ es, ctx.freeNtsock.Follows ctx.freeNtsock.first es ∧ i ∈ es

structure Same (ctx ctx' : NtSockContext) : Prop where
  socktype : ∀ i, (ctx'.ntsock i).socktype = (ctx.ntsock i).socktype
  listed : ∀ i, ctx'.Listed i ↔ ctx.Listed i

theorem not_same_freeSocket {ctx ctx₁ ctx₂ : NtSockContext} {es : List ℕ} {i : ℕ} {socktype : ℤ}
    (h : ctx.freeNtsock.Holds es) (halloc : ctx.allocateSocket socktype = some (i, ctx₁))
    (hfree : ctx₂.freeNtsock = ctx₁.freeNtsock)
    (hothers : ∀ k, k ≠ i → (ctx₂.ntsock k).socktype = (ctx₁.ntsock k).socktype) :
    ¬ ctx.Same (ctx₂.freeSocket (sockid i)) := by
  obtain ⟨hfirst, hremove, -, hkept⟩ := allocateSocket_cases halloc
  intro hsame
  have hne : sockid i ≠ i := Nat.succ_ne_self i
  rw [freeSocket] at hsame
  split at hsame
  · -- the next socket is unused, and nothing is inserted
    cases es with
    | nil =>
      rw [h.first_eq] at hfirst
      cases hfirst
    | cons j es =>
      obtain rfl : j = i := Option.some.inj (h.first_eq.symm.trans hfirst)
      obtain ⟨es', hes', hmem⟩ := (hsame.listed j).mpr ⟨j :: es, h.follows, List.mem_cons_self⟩
      rw [hfree, hremove] at hes'
      rw [hes'.unique h.remove_head.follows] at hmem
      exact (List.nodup_cons.mp h.nodup).1 hmem
  · -- the next socket is in use, and is taken for unused now
    case isFalse hused =>
      have hmark := hsame.socktype (sockid i)
      rw [hothers _ hne, hkept _ hne] at hused
      simp only [modify, update_self] at hmark
      exact hused hmark.symm

end NtSockContext

open NtSocks.Ntm.NtSockContext (sockid)

namespace NtmManager

def SynFails (mgr : NtmManager) (ntmConn : NtmConn) (msg : NtmSockMsg) (pending : SynPending)
    (reply : NtpNtmMsg) : Prop :=
  reply.msgType ≠ createConn ∨
    ((mgr.synEnter ntmConn msg pending).wrappers pending.wrapper).backlogCtx.backlogPush
      (sockid pending.socket) ((mgr.synEnter ntmConn msg pending).socket pending.socket) = none

/-- The tables that the failure branch of `handle_nt_syn_msg` is to restore, the sockets apart. -/
structure SynRestored (mgr mgr' : NtmManager) (w : ℕ) : Prop where
  ports : mgr.ntPortCtx.Same mgr'.ntPortCtx
  portSockMap : mgr'.portSockMap = mgr.portSockMap
  ntsShmConnMap : mgr'.ntsShmConnMap = mgr.ntsShmConnMap
  acceptedConnMap : (mgr'.wrappers w).acceptedConnMap = (mgr.wrappers w).acceptedConnMap

structure Unentered (mgr : NtmManager) (pending : SynPending) : Prop where
  port : pending.port < 65536
  portSockMap : mgr.portSockMap (NtPortContext.portId pending.port).toNat = none
  ntsShmConnMap : mgr.ntsShmConnMap (sockid pending.socket) = none
  acceptedConnMap : (mgr.wrappers pending.wrapper).acceptedConnMap (sockid pending.socket) = none

structure SynUndone (mgr mgr' : NtmManager) (pending : SynPending) : Prop where
  ports : mgr'.ntPortCtx = mgr.ntPortCtx.freePort (NtPortContext.portId pending.port).toNat
  portSockMap : mgr'.portSockMap =
    update mgr.portSockMap (NtPortContext.portId pending.port).toNat none
  ntsShmConnMap : mgr'.ntsShmConnMap = update mgr.ntsShmConnMap (sockid pending.socket : ℤ) none
  acceptedConnMap : (mgr'.wrappers pending.wrapper).acceptedConnMap =
    update (mgr.wrappers pending.wrapper).acceptedConnMap (sockid pending.socket : ℤ) none
  sockets : ∃ f, mgr'.ntSockCtx =
    (mgr.ntSockCtx.modify pending.socket f).freeSocket (sockid pending.socket)

variable {mgr mgr' mgr₁ : NtmManager} {ntmConn : NtmConn} {msg : NtmSockMsg} {w : ℕ}
  {pending : SynPending} {reply : NtpNtmMsg} {newShmConn : Option ℕ} {out : List NtmSockMsg}

theorem synRollback_undone (mgr : NtmManager) (pending : SynPending) :
    SynUndone mgr (mgr.synRollback pending) pending where
  ports := rfl
  portSockMap := rfl
  ntsShmConnMap := rfl
  acceptedConnMap := by
    simp only [synRollback, setAccepted, modifyWrapper_self]
    rfl
  sockets := ⟨fun socket => { socket with state := .closed }, rfl⟩

theorem synEnter_rollback_undone (mgr : NtmManager) (ntmConn : NtmConn) (msg : NtmSockMsg)
    (pending : SynPending) :
    SynUndone mgr ((mgr.synEnter ntmConn msg pending).synRollback pending) pending := by
  have h := synRollback_undone (mgr.synEnter ntmConn msg pending) pending
  refine ⟨h.ports, h.portSockMap, ?_, ?_, ?_⟩
  · exact h.ntsShmConnMap.trans (update_idem _ _ _)
  · refine h.acceptedConnMap.trans ?_
    simp only [synEnter, setAccepted, modifyWrapper_self]
    exact update_idem _ _ _
  · obtain ⟨f, hf⟩ := h.sockets
    exact ⟨_, hf.trans (congrArg (NtSockContext.freeSocket · _)
      (NtSockContext.modify_modify mgr.ntSockCtx pending.socket _ f))⟩

theorem synAnswered_undone (hfail : mgr.SynFails ntmConn msg pending reply)
    (hanswered : mgr.synAnswered ntmConn msg newShmConn pending reply = some (mgr', out)) :
    SynUndone mgr mgr' pending := by
  rw [synAnswered] at hanswered
  split at hanswered
  · split at hanswered
    · cases hanswered
    · cases hanswered
      exact synRollback_undone mgr pending
  case isFalse hreply =>
    rw [synFinish] at hanswered
    simp only [hfail.resolve_left hreply] at hanswered
    cases hanswered
    exact synEnter_rollback_undone mgr ntmConn msg pending

theorem update_none_eq_iff {α β : Type*} [DecidableEq α] (f : α → Option β) (a : α) :
    update f a none = f ↔ f a = none := by
  rw [update_eq_self_iff]
  exact eq_comm

/-- A failed `NT_SYN` restores the tables if nothing was in them under the new port and id. The
socket that was allocated is lost. The backlog is shared with the library and is as it is at the
push. -/
theorem synAnswered_restores {ps ss : List ℕ} (hports : mgr.ntPortCtx.FreeQueue ps)
    (hsocks : mgr.ntSockCtx.freeNtsock.Holds ss)
    (halloc : mgr.allocateClient msg w = some (pending, mgr₁)) {backlog : NtBacklogContext}
    (hfail : (mgr₁.setBacklog w backlog).SynFails ntmConn msg pending reply)
    (hanswered : (mgr₁.setBacklog w backlog).synAnswered ntmConn msg newShmConn pending reply =
      some (mgr', out)) :
    (SynRestored mgr mgr' w ↔ Unentered mgr pending) ∧ ¬ mgr.ntSockCtx.Same mgr'.ntSockCtx := by
  have hundone := synAnswered_undone hfail hanswered
  obtain ⟨rfl, sockCtx, portCtx, hsock, hport, rfl⟩ := allocateClient_cases halloc
  have hportCtx : mgr'.ntPortCtx =
      portCtx.freePort (NtPortContext.portId pending.port).toNat := hundone.ports
  have hportSock : mgr'.portSockMap =
      update mgr.portSockMap (NtPortContext.portId pending.port).toNat none :=
    hundone.portSockMap.trans (update_idem _ _ _)
  have hshmConn : mgr'.ntsShmConnMap =
      update mgr.ntsShmConnMap (sockid pending.socket : ℤ) none := hundone.ntsShmConnMap
  have haccepted : (mgr'.wrappers pending.wrapper).acceptedConnMap =
      update (mgr.wrappers pending.wrapper).acceptedConnMap
        (sockid pending.socket : ℤ) none := by
    rw [hundone.acceptedConnMap, setBacklog, modifyWrapper_self]
    rfl
  refine ⟨?_, ?_⟩
  · constructor
    · rintro ⟨hp, hps, hshm, hacc⟩
      rw [hportCtx, hports.same_freePort hport] at hp
      rw [hportSock, update_none_eq_iff] at hps
      rw [hshmConn, update_none_eq_iff] at hshm
      rw [haccepted, update_none_eq_iff] at hacc
      exact ⟨hp, hps, hshm, hacc⟩
    · rintro ⟨hp, hps, hshm, hacc⟩
      refine ⟨?_, ?_, ?_, ?_⟩
      · rw [hportCtx, hports.same_freePort hport]
        exact hp
      · rw [hportSock, update_none_eq_iff]
        exact hps
      · rw [hshmConn, update_none_eq_iff]
        exact hshm
      · rw [haccepted, update_none_eq_iff]
        exact hacc
  · obtain ⟨g, hg⟩ := hundone.sockets
    rw [hg]
    refine NtSockContext.not_same_freeSocket hsocks hsock rfl ?_
    intro k hk
    rw [NtSockContext.modify_ntsock_of_ne _ hk]
    exact congrArg NtSocket.socktype (update_of_ne hk _ _)

section Connect

variable (tcp : Tcp) (responds : Bool) (mgr : NtmManager) (msg : NtmMsg)

def connectErrno (i : ℕ) : Option NtErrno :=
  if (mgr.socket i).state ≠ .closed ∧ (mgr.socket i).state ≠ .bound then
    some .requireClosedOrBoundFirst
  else if msg.addrlen ≤ 0 then some .invalidIp
  else if msg.port < 0 then some .invalidPort
  else none

def failedConnect (uninitialised : Option ℕ) : Option NtmManager :=
  match mgr.ntsShmConnMap msg.sockid with
  | none => none
  | some c =>
    let i := (mgr.shmConns c).socket
    match mgr.connectErrno msg i with
    | some ntErrno =>
      (mgr.ntsShmTrySend responds c (connectResponse msg (some ntErrno) none)).map fun mgr =>
        mgr.connectFail i uninitialised
    | none =>
      match (mgr.cacheServer msg c).remoteMonitor tcp c with
      | none => none
      | some (_, mgr) =>
        match mgr.allocateSourcePort i with
        | none => none
        | some (port, mgr) =>
          if tcp.sends = false then some (mgr.connectFail i port)
          else if responds then none
          else (mgr.shmConns c).ntsShmCtx.map fun _ => mgr.connectFail i port

/-- The tables that the failure branch of `handle_msg_nts_connect` is to restore. -/
structure ConnectRestored (mgr mgr' : NtmManager) : Prop where
  ports : mgr.ntPortCtx.Same mgr'.ntPortCtx
  portSockMap : mgr'.portSockMap = mgr.portSockMap

/-- There is nothing to restore: a request is refused while the variable `port` names no port in
use, or the socket was in `port_sock_map` under the port that is allocated. -/
def ConnectKeeps (i : ℕ) (uninitialised : Option ℕ) : Prop :=
  if (mgr.connectErrno msg i).isSome then
    ∀ p, uninitialised = some p → (NtPortContext.portId p).toNat < mgr.ntPortCtx.numPorts →
        mgr.ntPortCtx.status (NtPortContext.portId p).toNat = .unused
  else
    ∀ p portCtx, mgr.ntPortCtx.allocatePort = some (p, portCtx) →
      p < 65536 ∧ mgr.portSockMap (NtPortContext.portId p).toNat = some i

end Connect

section Connect

variable {tcp : Tcp} {responds : Bool} {msg : NtmMsg} {c i : ℕ} {uninitialised : Option ℕ}
  {ps : List ℕ} {port : Option ℕ}

structure SameSources (mgr mgr' : NtmManager) : Prop where
  ntPortCtx : mgr'.ntPortCtx = mgr.ntPortCtx
  portSockMap : mgr'.portSockMap = mgr.portSockMap
  ntSockCtx : mgr'.ntSockCtx = mgr.ntSockCtx

theorem ntsShmTrySend_sources {response : NtsMsg}
    (h : mgr.ntsShmTrySend responds c response = some mgr') : SameSources mgr mgr' := by
  rw [ntsShmTrySend] at h
  split at h
  all_goals
    obtain ⟨ring, -, rfl⟩ := Option.map_eq_some_iff.mp h
    exact ⟨rfl, rfl, rfl⟩

theorem remoteMonitor_sources {conn : NtmConn}
    (h : (mgr.cacheServer msg c).remoteMonitor tcp c = some (conn, mgr')) :
    SameSources mgr mgr' := by
  rw [remoteMonitor] at h
  split at h
  · cases h
    exact ⟨rfl, rfl, rfl⟩
  · split at h
    · cases h
      exact ⟨rfl, rfl, rfl⟩
    · cases h

theorem connectFail_some (hclosed : (mgr.socket i).state = .closed) (p : ℕ) :
    (mgr.connectFail i (some p)).ntPortCtx = mgr.ntPortCtx.freePort (NtPortContext.portId p).toNat ∧
      (mgr.connectFail i (some p)).portSockMap = mgr.portSockMap := by
  rw [connectFail, if_pos hclosed]
  exact ⟨rfl, rfl⟩

theorem connectFail_none (mgr : NtmManager) (i : ℕ) : mgr.connectFail i none = mgr := by
  rw [connectFail]
  split <;> rfl

theorem allocateSourcePort_closed (hclosed : (mgr.socket i).state = .closed)
    (h : mgr.allocateSourcePort i = some (port, mgr')) :
    ∃ p portCtx, port = some p ∧ mgr.ntPortCtx.allocatePort = some (p, portCtx) ∧
      mgr'.ntPortCtx = portCtx ∧ (mgr'.socket i).state = .closed ∧
      mgr'.portSockMap = update mgr.portSockMap (NtPortContext.portId p).toNat (some i) := by
  rw [allocateSourcePort, if_pos hclosed] at h
  split at h
  · cases h
  case h_2 p portCtx halloc =>
    cases h
    refine ⟨p, portCtx, rfl, halloc, rfl, ?_, rfl⟩
    simp only [socket, setPortSock, modifySocket, NtSockContext.modify_ntsock_self]
    exact hclosed

theorem connectFail_refused (hclosed : (mgr.socket i).state = .closed) :
    ConnectRestored mgr (mgr.connectFail i uninitialised) ↔ ∀ p, uninitialised = some p →
        (NtPortContext.portId p).toNat < mgr.ntPortCtx.numPorts →
          mgr.ntPortCtx.status (NtPortContext.portId p).toNat = .unused := by
  cases uninitialised with
  | none =>
    rw [connectFail_none]
    exact iff_of_true ⟨⟨rfl, fun _ => Iff.rfl⟩, rfl⟩ fun p hp => by cases hp
  | some p =>
    obtain ⟨hctx, hmap⟩ := connectFail_some hclosed p
    constructor
    · rintro ⟨hsame, -⟩ q hq
      cases hq
      rw [hctx] at hsame
      exact NtPortContext.same_freePort_iff.mp hsame
    · intro hunused
      refine ⟨?_, hmap⟩
      rw [hctx]
      exact NtPortContext.same_freePort_iff.mpr (hunused p rfl)

theorem connectFail_allocated {mgr₂ : NtmManager} (hports : mgr.ntPortCtx.FreeQueue ps)
    (hclosed : (mgr.socket i).state = .closed) (hsame : SameSources mgr mgr₁)
    (halloc : mgr₁.allocateSourcePort i = some (port, mgr₂)) :
    ConnectRestored mgr (mgr₂.connectFail i port) ↔
      ∀ p portCtx, mgr.ntPortCtx.allocatePort = some (p, portCtx) →
        p < 65536 ∧ mgr.portSockMap (NtPortContext.portId p).toNat = some i := by
  have hclosed₁ : (mgr₁.socket i).state = .closed := by
    rw [socket, hsame.ntSockCtx]
    exact hclosed
  obtain ⟨p, portCtx, rfl, hport, hctx, hclosed₂, hmap⟩ := allocateSourcePort_closed hclosed₁ halloc
  rw [hsame.ntPortCtx] at hport
  rw [hsame.portSockMap] at hmap
  obtain ⟨hctx', hmap'⟩ := connectFail_some hclosed₂ p
  rw [hctx] at hctx'
  rw [hmap] at hmap'
  have hupdate : update mgr.portSockMap (NtPortContext.portId p).toNat (some i) =
      mgr.portSockMap ↔ mgr.portSockMap (NtPortContext.portId p).toNat = some i := by
    rw [update_eq_self_iff]
    exact eq_comm
  constructor
  · rintro ⟨hrestored, hkept⟩ q portCtx' hq
    cases hport.symm.trans hq
    rw [hctx', hports.same_freePort hport] at hrestored
    rw [hmap', hupdate] at hkept
    exact ⟨hrestored, hkept⟩
  · intro hstale
    obtain ⟨hsmall, hkept⟩ := hstale p portCtx hport
    refine ⟨?_, ?_⟩
    · rw [hctx', hports.same_freePort hport]
      exact hsmall
    · rw [hmap', hupdate]
      exact hkept

/-- A failed request to connect for a closed socket restores the ports and `port_sock_map` only if
there is nothing to restore. -/
theorem failedConnect_restores (hports : mgr.ntPortCtx.FreeQueue ps)
    (hc : mgr.ntsShmConnMap msg.sockid = some c)
    (hclosed : (mgr.socket (mgr.shmConns c).socket).state = .closed)
    (hfail : failedConnect tcp responds mgr msg uninitialised = some mgr') :
    ConnectRestored mgr mgr' ↔ mgr.ConnectKeeps msg (mgr.shmConns c).socket uninitialised := by
  simp only [failedConnect, hc] at hfail
  rw [ConnectKeeps]
  cases herrno : mgr.connectErrno msg (mgr.shmConns c).socket with
  | some ntErrno =>
    simp only [herrno] at hfail
    obtain ⟨mgr₁, hrespond, rfl⟩ := Option.map_eq_some_iff.mp hfail
    have hsame := ntsShmTrySend_sources hrespond
    have hclosed₁ : (mgr₁.socket (mgr.shmConns c).socket).state = .closed := by
      rw [socket, hsame.ntSockCtx]
      exact hclosed
    rw [if_pos Option.isSome_some, ← hsame.ntPortCtx, ← connectFail_refused hclosed₁]
    constructor
    · rintro ⟨hrestored, hkept⟩
      exact ⟨hsame.ntPortCtx ▸ hrestored, hkept.trans hsame.portSockMap.symm⟩
    · rintro ⟨hrestored, hkept⟩
      exact ⟨hsame.ntPortCtx ▸ hrestored, hkept.trans hsame.portSockMap⟩
  | none =>
    simp only [herrno] at hfail
    rw [if_neg (by simp)]
    split at hfail
    · cases hfail
    case h_2 conn mgr₁ hmonitor =>
      have hsame := remoteMonitor_sources hmonitor
      split at hfail
      · cases hfail
      case h_2 port mgr₂ halloc =>
        have hmgr' : mgr' = mgr₂.connectFail (mgr.shmConns c).socket port := by
          split at hfail
          · exact (Option.some.inj hfail).symm
          · split at hfail
            · cases hfail
            · obtain ⟨ring, -, rfl⟩ := Option.map_eq_some_iff.mp hfail
              rfl
        rw [hmgr']
        exact connectFail_allocated hports hclosed hsame halloc

end Connect

section Sample

def sampleTables : NtmManager :=
  { sampleListener with
    ntSockCtx :=
      { sampleListener.ntSockCtx with
        ntsock := fun i =>
          { sampleListener.ntSockCtx.ntsock i with
            socktype := if i = 0 then 2 else if i = 1 then ntSockListener else ntSockUnused } } }

def sampleSyn : NtmSockMsg where
  srcAddr := 7
  dstAddr := 0
  sport := htons 3
  dport := htons 5
  sockid := 0
  type := .ntSyn
  partitionId := 0

def sampleReply : NtpNtmMsg where
  srcIp := 0
  dstIp := 7
  srcPort := 5
  dstPort := 3
  msgType := createConn
  partitionId := none

/-- The backlog of the listener when other threads have filled it. -/
def fullBacklog : NtBacklogContext :=
  { (sampleTables.wrappers 0).backlogCtx with writeIndex := 127 }

def sampleConnect (addrlen : ℤ) : NtmMsg where
  msgId := 1
  sockid := 1
  addrlen := addrlen
  port := 5
  address := 9

theorem sampleTables_freeQueue : sampleTables.ntPortCtx.FreeQueue (List.range 8) :=
  (NtPortContext.initPortContext_freeQueue (n := 8) rfl).setUsed 5

theorem sampleTables_holds : sampleTables.ntSockCtx.freeNtsock.Holds [2, 3] :=
  (Tailq.init_holds.insertTail List.not_mem_nil).insertTail (by decide)

end Sample

end NtmManager

end Ntm

end NtSocks
