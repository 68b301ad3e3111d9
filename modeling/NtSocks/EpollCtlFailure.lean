import NtSocks.EpollEvents

/-!
# Failed calls of `nts_epoll_ctl`

The library changes its socket before it sends the request, and the monitor changes its own before
it asks the proxy. When the call fails later, nothing goes back.
-/

namespace NtSocks

open Function

namespace Ntm.EpollHost

variable (h : EpollHost)

/-- What a request leaves behind, also where its handler waits for ever for the proxy or ends in a
null pointer access. -/
def afterCtl (msg : EpollCtlMsg) : EpollHost :=
  match h.ctlPath msg with
  | .dropped | .refused _ _ => h
  | .accepted op ctx c =>
    let i := (h.ntm.shmConns c).socket
    let h := h.setEpoll i op msg.event
    if (h.ntm.socket i).socktype = ntSockListener then
      match ctx.epSocketMap with
      | none => h
      | some map => h.setListener op msg.epid ctx map c i
    else
      match h.ask true (.ctl msg.epid msg.sockid (h.ntpCtl op c msg.event)) with
      | none => h
      | some (_, h) => h

def ctlResponses (msg : EpollCtlMsg) : Option (List (String × EpollMsg)) :=
  (h.handleMsgNtsEpollCtl msg).map Prod.snd

/-- The request sets what is set already, in the monitor and, if it gets there, in the proxy. -/
def Recorded (msg : EpollCtlMsg) : Prop :=
  ∀ op ctx c, h.ctlPath msg = .accepted op ctx c →
    (h.ntm.socket (h.ntm.shmConns c).socket).epoll = msg.event.events ∧
    h.epollMgr.epData (h.ntm.shmConns c).socket = msg.event.data ∧
    ((h.ntm.socket (h.ntm.shmConns c).socket).socktype ≠ ntSockListener → h.serving = true →
      ∃ connMap k, h.ntp.epollCtxMap msg.epid = some connMap ∧
        connMap.lookup msg.sockid = some k ∧ (h.ntp.conns k).epoll = msg.event.events)

structure SameEpoll (h h' : EpollHost) : Prop where
  epoll : ∀ i, (h'.ntm.socket i).epoll = (h.ntm.socket i).epoll
  epData : h'.epollMgr.epData = h.epollMgr.epData
  conns : ∀ k, (h'.ntp.conns k).epoll = (h.ntp.conns k).epoll

variable {h} {h' : EpollHost} {msg : EpollCtlMsg}

section Accepted

variable {op : EpollOp} {ctx : EpollContext} {c : ℕ} {ntp : NtpEpoll}

theorem setEpoll_ntp (h : EpollHost) (i : ℕ) (op : EpollOp) (event : NtsEpollEvent) :
    (h.setEpoll i op event).ntp = h.ntp ∧ (h.setEpoll i op event).link = h.link ∧
      (h.setEpoll i op event).serving = h.serving := by
  cases op <;> exact ⟨rfl, rfl, rfl⟩

theorem afterCtl_connection (hpath : h.ctlPath msg = .accepted op ctx c)
    (hlistener : (h.ntm.socket (h.ntm.shmConns c).socket).socktype ≠ ntSockListener) {rc : ℤ}
    (hntp : h.ntp.handleEpollCtlMsg h.link.port2conn msg.epid msg.sockid
      (h.ntpCtl op c msg.event) = (rc, ntp)) :
    (h.serving = true → h.afterCtl msg = { h.setEpoll (h.ntm.shmConns c).socket op msg.event with
        ntp := ntp, serving := decide (rc = 0) } ∧
      h.ctlResponses msg =
        some (if rc = 0 then [(ctx.epollShmaddr, ctlResponse msg none)] else [])) ∧
    (h.serving = false → h.afterCtl msg = h.setEpoll (h.ntm.shmConns c).socket op msg.event ∧
      h.ctlResponses msg = none) := by
  obtain ⟨hsame, hlink, hserving⟩ := setEpoll_ntp h (h.ntm.shmConns c).socket op msg.event
  have hctl := setEpoll_ntpCtl h c op msg.event
  rw [← setEpoll_socktype h _ op msg.event] at hlistener
  simp only [afterCtl, ctlResponses, handleMsgNtsEpollCtl, hpath, if_neg hlistener]
  rw [← hserving]
  generalize h.setEpoll (h.ntm.shmConns c).socket op msg.event = h₁ at hsame hlink hserving hctl ⊢
  constructor
  · intro hserve
    rw [ask_eq hserve, hctl, NtpEpoll.ntpHandleEpollMsg, hsame, hlink, hntp]
    refine ⟨rfl, ?_⟩
    by_cases hrc : rc = 0 <;> simp [hrc]
  · intro hserve
    have hask : ∀ ctl, h₁.ask true ctl = none := by
      intro ctl
      rw [ask, if_neg (by rw [hserve]; exact Bool.false_ne_true)]
    rw [hask]
    exact ⟨rfl, rfl⟩

theorem afterCtl_listener_mod (hpath : h.ctlPath msg = .accepted .mod ctx c)
    (hlistener : (h.ntm.socket (h.ntm.shmConns c).socket).socktype = ntSockListener) :
    h.afterCtl msg = h.setEpoll (h.ntm.shmConns c).socket .mod msg.event := by
  rw [← setEpoll_socktype h _ .mod msg.event] at hlistener
  simp only [afterCtl, hpath, if_pos hlistener]
  cases ctx.epSocketMap with
  | none | some map => rfl

theorem setEpoll_mod_eq {i : ℕ} {event : NtsEpollEvent}
    (hepoll : (h.ntm.socket i).epoll = event.events) (hdata : h.epollMgr.epData i = event.data) :
    h.setEpoll i .mod event = h := by
  have hsocket : { h.ntm.socket i with epoll := event.events } = h.ntm.socket i := by
    rw [← hepoll]
  have hntm : h.ntm.modifySocket i (fun socket => { socket with epoll := event.events }) =
      h.ntm := by
    unfold NtmManager.modifySocket NtSockContext.modify
    change { h.ntm with ntSockCtx := { h.ntm.ntSockCtx with
      ntsock := update h.ntm.ntSockCtx.ntsock i
        { h.ntm.socket i with epoll := event.events } } } = h.ntm
    rw [hsocket]
    unfold NtmManager.socket
    rw [update_eq_self]
  simp only [setEpoll]
  rw [hntm, ← hdata, update_eq_self]

theorem SameEpoll.recorded_epoll (hsame : h.SameEpoll (h.afterCtl msg))
    (hpath : h.ctlPath msg = .accepted .mod ctx c) :
    (h.ntm.socket (h.ntm.shmConns c).socket).epoll = msg.event.events ∧
      h.epollMgr.epData (h.ntm.shmConns c).socket = msg.event.data := by
  have hafter : (h.afterCtl msg).ntm = (h.setEpoll (h.ntm.shmConns c).socket .mod msg.event).ntm ∧
      (h.afterCtl msg).epollMgr.epData =
        (h.setEpoll (h.ntm.shmConns c).socket .mod msg.event).epollMgr.epData := by
    by_cases hlistener : (h.ntm.socket (h.ntm.shmConns c).socket).socktype = ntSockListener
    · rw [afterCtl_listener_mod hpath hlistener]
      exact ⟨rfl, rfl⟩
    · obtain ⟨hserved, hunserved⟩ := afterCtl_connection hpath hlistener rfl
      cases hserving : h.serving with
      | true =>
        rw [(hserved hserving).1]
        exact ⟨rfl, rfl⟩
      | false =>
        rw [(hunserved hserving).1]
        exact ⟨rfl, rfl⟩
  constructor
  · rw [← hsame.epoll, hafter.1, setEpoll_epoll, if_neg (by decide)]
  · rw [← hsame.epData, hafter.2]
    exact update_self _ _ _

theorem afterCtl_same_path (hpath : h.ctlPath msg = .accepted op ctx c)
    (hlistener : (h.ntm.socket (h.ntm.shmConns c).socket).socktype ≠ ntSockListener)
    {serving : Bool} (hafter : h.afterCtl msg = { h with ntp := ntp, serving := serving }) :
    (h.afterCtl msg).ctlPath msg = .accepted op ctx c ∧
      ((h.afterCtl msg).ntm.socket ((h.afterCtl msg).ntm.shmConns c).socket).socktype ≠
        ntSockListener := by
  rw [hafter]
  exact ⟨hpath, hlistener⟩

theorem ctlResponses_refused (hpath : h.ctlPath msg = .accepted .mod ctx c)
    (hlistener : (h.ntm.socket (h.ntm.shmConns c).socket).socktype ≠ ntSockListener)
    (hset : h.setEpoll (h.ntm.shmConns c).socket .mod msg.event = h) (hserving : h.serving = true)
    (hrefuses : ¬ h.ntp.Accepts h.link.port2conn msg.epid msg.sockid (.mod msg.event)) :
    (h.afterCtl msg).ctlResponses msg ≠ h.ctlResponses msg := by
  have hntp := NtpEpoll.handleEpollCtlMsg_rejects hrefuses
  obtain ⟨hafter, hresp⟩ := (afterCtl_connection hpath hlistener hntp).1 hserving
  rw [hset] at hafter
  obtain ⟨hpath', hlistener'⟩ := afterCtl_same_path hpath hlistener hafter
  have hended : (h.afterCtl msg).serving = false := by
    rw [hafter]
    rfl
  rw [((afterCtl_connection hpath' hlistener' rfl).2 hended).2, hresp]
  exact (Option.some_ne_none _).symm

theorem sameEpoll_of_recorded (hpath : h.ctlPath msg = .accepted .mod ctx c)
    (hrecorded : h.Recorded msg) :
    h.SameEpoll (h.afterCtl msg) ∧ (h.afterCtl msg).ctlResponses msg = h.ctlResponses msg := by
  obtain ⟨hepoll, hdata, hproxy⟩ := hrecorded .mod ctx c hpath
  have hset := setEpoll_mod_eq hepoll hdata
  have hunchanged : h.afterCtl msg = h →
      h.SameEpoll (h.afterCtl msg) ∧ (h.afterCtl msg).ctlResponses msg = h.ctlResponses msg := by
    intro hafter
    rw [hafter]
    exact ⟨⟨fun _ => rfl, rfl, fun _ => rfl⟩, rfl⟩
  by_cases hlistener : (h.ntm.socket (h.ntm.shmConns c).socket).socktype = ntSockListener
  · exact hunchanged ((afterCtl_listener_mod hpath hlistener).trans hset)
  · cases hserving : h.serving with
    | false =>
      exact hunchanged (((afterCtl_connection hpath hlistener rfl).2 hserving).1.trans hset)
    | true =>
      obtain ⟨connMap, k, hctx, hk, hsame⟩ := hproxy hlistener hserving
      obtain ⟨hafter, hresp⟩ := (afterCtl_connection hpath hlistener
        (NtpEpoll.handleEpollCtlMsg_mod hctx hk)).1 hserving
      rw [hset] at hafter
      obtain ⟨hpath', hlistener'⟩ := afterCtl_same_path hpath hlistener hafter
      have hctx' : (h.afterCtl msg).ntp.epollCtxMap msg.epid = some connMap := by
        rw [hafter]
        exact hctx
      have hserving' : (h.afterCtl msg).serving = true := by
        rw [hafter]
        rfl
      refine ⟨⟨?_, ?_, ?_⟩, ?_⟩
      · rw [hafter]
        exact fun _ => rfl
      · rw [hafter]
      · intro k'
        rw [hafter]
        by_cases hk' : k' = k
        · simp [NtpEpoll.setConn, hk', hsame]
        · simp [NtpEpoll.setConn, hk']
      · rw [hresp, ((afterCtl_connection hpath' hlistener'
          (NtpEpoll.handleEpollCtlMsg_mod hctx' hk)).1 hserving').2]

theorem sameEpoll_iff (hop : EpollOp.ofCode msg.epollOp = some .mod) :
    (h.SameEpoll (h.afterCtl msg) ∧ (h.afterCtl msg).ctlResponses msg = h.ctlResponses msg) ↔
      h.Recorded msg := by
  by_cases haccepted : ∃ op ctx c, h.ctlPath msg = .accepted op ctx c
  · obtain ⟨op, ctx, c, hpath⟩ := haccepted
    obtain rfl : op = .mod := Option.some.inj ((ctlPath_accepted hpath).1.symm.trans hop)
    refine ⟨?_, sameEpoll_of_recorded hpath⟩
    rintro ⟨hsame, hretry⟩ op ctx' c' hpath'
    cases hpath.symm.trans hpath'
    obtain ⟨hepoll, hdata⟩ := hsame.recorded_epoll hpath
    refine ⟨hepoll, hdata, fun hlistener hserving => ?_⟩
    have hset := setEpoll_mod_eq hepoll hdata
    by_cases haccepts : h.ntp.Accepts h.link.port2conn msg.epid msg.sockid (.mod msg.event)
    · obtain ⟨connMap, hctx, k, hk⟩ := haccepts
      refine ⟨connMap, k, hctx, hk, ?_⟩
      rw [← hsame.conns k, ((afterCtl_connection hpath hlistener
        (NtpEpoll.handleEpollCtlMsg_mod hctx hk)).1 hserving).1]
      simp [NtpEpoll.setConn]
    · exact absurd hretry (ctlResponses_refused hpath hlistener hset hserving haccepts)
  · have hafter : h.afterCtl msg = h := by
      unfold afterCtl
      cases hpath : h.ctlPath msg with
      | dropped | refused ctx ntErrno => rfl
      | accepted op ctx c => exact absurd ⟨op, ctx, c, hpath⟩ haccepted
    rw [hafter]
    refine iff_of_true ⟨⟨fun _ => rfl, rfl, fun _ => rfl⟩, rfl⟩ ?_
    intro op ctx c hpath
    exact absurd ⟨op, ctx, c, hpath⟩ haccepted

end Accepted

end Ntm.EpollHost

namespace Nts

open NtSocks.Ntm (EpollHost EpollCtlMsg EpollMsg ntSockEpoll)

namespace NtsContext

variable {lib lib' : NtsContext} {epid op sockid : ℤ} {event : NtsEpollEvent} {msg : EpollCtlMsg}

theorem ntsEpollCtl_sent (hsent : lib.ntsEpollCtl epid op sockid event = .sent lib' msg) :
    ∃ ep socket, lib.ntSockMap sockid = some socket ∧
      lib.ctlSocket epid op sockid event ep socket = .sent lib' msg := by
  unfold ntsEpollCtl at hsent
  split at hsent
  · cases hsent
  · split at hsent
    · cases hsent
    · split at hsent
      · cases hsent
      case h_2 ep hep =>
        split at hsent
        · cases hsent
        · split at hsent
          · cases hsent
          case h_2 socket hsocket =>
            split at hsent
            · cases hsent
            · exact ⟨ep, socket, hsocket, hsent⟩

/-- A request leaves the socket of the library as it was only if it modifies it to the values that
it has. The library is then the same. -/
theorem sent_same_iff (hsent : lib.ntsEpollCtl epid op sockid event = .sent lib' msg) :
    ((lib'.ntSockMap sockid).map NtSocket.epoll = (lib.ntSockMap sockid).map NtSocket.epoll ∧
      (lib'.ntSockMap sockid).map NtSocket.epData = (lib.ntSockMap sockid).map NtSocket.epData) ↔
    EpollOp.ofCode op = some .mod ∧
      (lib.ntSockMap sockid).map NtSocket.epoll = some (event.events ||| ntsEpollErrHup) ∧
      (lib.ntSockMap sockid).map NtSocket.epData = some event.data := by
  obtain ⟨ep, socket, hsocket, hctl⟩ := ntsEpollCtl_sent hsent
  rw [hsocket]
  unfold ctlSocket at hctl
  cases hop : EpollOp.ofCode op with
  | none =>
    simp only [hop] at hctl
    cases hctl
  | some o =>
    cases o with
    | add =>
      simp only [hop] at hctl
      split at hctl
      · cases hctl
      case isFalse hzero =>
        cases hctl
        simp [setSocket, not_not.mp hzero, ntsEpollErrHup]
    | mod =>
      simp only [hop] at hctl
      split at hctl
      · cases hctl
      · cases hctl
        simp [setSocket, eq_comm]
    | del =>
      simp only [hop] at hctl
      split at hctl
      · cases hctl
      case isFalse hnonzero =>
        cases hctl
        simp [setSocket, Ne.symm hnonzero]

theorem sent_mod (hsent : lib.ntsEpollCtl epid op sockid event = .sent lib' msg)
    (hop : EpollOp.ofCode op = some .mod) :
    EpollOp.ofCode msg.epollOp = some .mod ∧
      ((lib.ntSockMap sockid).map NtSocket.epoll = some (event.events ||| ntsEpollErrHup) →
        (lib.ntSockMap sockid).map NtSocket.epData = some event.data → lib' = lib) := by
  obtain ⟨ep, socket, hsocket, hctl⟩ := ntsEpollCtl_sent hsent
  simp only [ctlSocket, hop] at hctl
  split at hctl
  · cases hctl
  · cases hctl
    refine ⟨hop, fun hepoll hdata => ?_⟩
    rw [hsocket] at hepoll hdata
    rw [← Option.some.inj hepoll, ← Option.some.inj hdata, setSocket, ← hsocket, update_eq_self]

end NtsContext

/-- How the exchange with the monitor ends for the library: the request cannot be sent, or a message
is read as the response. -/
inductive Exchange
  | unsent
  | answered (resp : EpollMsg)
  deriving DecidableEq, Repr

/-- The library with the monitor and the proxy. `epollSockets` says which sockets are in the map
`epoll_sockets` of an epoll instance. -/
structure CtlSystem where
  lib : NtsContext
  host : EpollHost
  epollSockets : ℤ → ℤ → Bool

namespace CtlSystem

variable (s : CtlSystem) (epid op sockid : ℤ) (event : NtsEpollEvent)

def setEpollSocket (present : Bool) : CtlSystem :=
  { s with epollSockets :=
      update s.epollSockets epid (update (s.epollSockets epid) sockid present) }

def isClosed : Bool :=
  0 ≤ epid && epid < ntsMaxConcurrency && 0 ≤ sockid && sockid < ntsMaxConcurrency &&
    (s.lib.ntEpollMap epid).any (fun ep => ep.socktype = ntSockEpoll) &&
    (s.lib.ntSockMap sockid).isNone

def register : CtlSystem :=
  match EpollOp.ofCode op, s.lib.ntSockMap sockid with
  | some .add, some socket => s.setEpollSocket epid (intOf socket.sockid) true
  | some .del, some socket => s.setEpollSocket epid (intOf socket.sockid) false
  | _, _ => s

def ntsEpollCtl (ex : Exchange) : ℤ × CtlSystem :=
  match s.lib.ntsEpollCtl epid op sockid event with
  | .returned retval _ =>
    (retval, if s.isClosed epid sockid then s.setEpollSocket epid sockid false else s)
  | .sent lib msg =>
    match ex with
    | .unsent => (-1, { s with lib := lib })
    | .answered resp =>
      let (retval, lib) := lib.ntsEpollCtlFinish epid msg.msgId resp
      let s := { s with lib := lib, host := s.host.afterCtl msg }
      (retval, if retval = 0 then s.register epid op sockid else s)

def attempt : CtlCall × Option (List (String × EpollMsg)) :=
  let call := s.lib.ntsEpollCtl epid op sockid event
  (call, match call with
    | .returned _ _ => some []
    | .sent _ msg => s.host.ctlResponses msg)

/-- What a failed call is to leave as it was, so that the next attempt is like the first one. -/
structure Unaffected (s' : CtlSystem) : Prop where
  epoll : (s'.lib.ntSockMap sockid).map NtSocket.epoll = (s.lib.ntSockMap sockid).map NtSocket.epoll
  epData : (s'.lib.ntSockMap sockid).map NtSocket.epData =
    (s.lib.ntSockMap sockid).map NtSocket.epData
  host : s.host.SameEpoll s'.host
  epollSockets : s'.epollSockets = s.epollSockets
  retry : s'.attempt epid op sockid event = s.attempt epid op sockid event

/-- The call returns before its request, or it is `MOD` with the values that the library, the
monitor and the proxy have for the socket, as far as the request gets. -/
def ChangesNothing (ex : Exchange) : Prop :=
  match s.lib.ntsEpollCtl epid op sockid event with
  | .returned _ _ => True
  | .sent _ msg =>
    EpollOp.ofCode op = some .mod ∧
      (s.lib.ntSockMap sockid).map NtSocket.epoll = some (event.events ||| ntsEpollErrHup) ∧
      (s.lib.ntSockMap sockid).map NtSocket.epData = some event.data ∧
      (ex ≠ .unsent → s.host.Recorded msg)

variable {s epid op sockid event} {ex : Exchange} {socket : NtSocket}

theorem unaffected_self : s.Unaffected epid op sockid event s :=
  ⟨rfl, rfl, ⟨fun _ => rfl, rfl, fun _ => rfl⟩, rfl, rfl⟩

theorem isClosed_eq_false (hopen : s.lib.ntSockMap sockid = some socket) :
    s.isClosed epid sockid = false := by
  simp [isClosed, hopen]

theorem ntsEpollCtl_failed (hopen : s.lib.ntSockMap sockid = some socket)
    (hfail : (s.ntsEpollCtl epid op sockid event ex).1 = -1) :
    (s.ntsEpollCtl epid op sockid event ex).2 = match s.lib.ntsEpollCtl epid op sockid event with
      | .returned _ _ => s
      | .sent lib msg =>
        { s with lib := lib, host := if ex = .unsent then s.host else s.host.afterCtl msg } := by
  unfold ntsEpollCtl at hfail ⊢
  cases hcall : s.lib.ntsEpollCtl epid op sockid event with
  | returned retval errno =>
    simp only [isClosed_eq_false hopen, Bool.false_eq_true, if_false]
  | sent lib msg =>
    cases ex with
    | unsent => rfl
    | answered resp =>
      simp only [hcall] at hfail ⊢
      unfold NtsContext.ntsEpollCtlFinish at hfail ⊢
      split at hfail
      case isTrue hbad =>
        simp only [if_pos hbad, reduceCtorEq, if_false]
      case isFalse hgood => cases hfail


section Sample

open NtSocks.Ntm (sampleLib sampleLink ntSockPipe)
open NtSocks.Ntm.EpollHost (sampleEpollHost)

/-- The socket 1, whose port is 4 and whose peer has the port 3, and the epoll instance 4; the proxy
has the connection under the port `port`. -/
def sample (port : UInt16) : CtlSystem where
  lib := sampleLib 1 ntSockPipe
  host := sampleEpollHost (sampleLink.putConn (.create port 3 0))
  epollSockets := fun _ _ => false

def sampleResp (id : UInt64) : EpollMsg where
  id := id
  msgType := .ctl
  retval := 0
  ntErrno := none
  sockid := none
  epid := none
  epollOp := none
  shmName := none

end Sample

end CtlSystem

end Nts

end NtSocks
