import NtSocks.CloseProtocol
import NtSocks.EpollControl

/-!
# Epoll requests and their answers

Which requests about epoll instances are answered, over runs of requests. The monitor returns
without a response from most of its checks and whenever the proxy refuses, and the thread of the
proxy that serves the requests ends when it refuses one, after which the monitor waits for ever.
-/

namespace NtSocks

open Function

namespace NtpEpoll

variable {s : NtpEpoll} {port2conn : Port2Conn} {epid sockid : ℤ} {ctl : NtpEpollCtl}

/-- The proxy has what a request is about: the instance, and the connection by its ports or the
socket by its id. -/
def Accepts (s : NtpEpoll) (port2conn : Port2Conn) (epid sockid : ℤ) (ctl : NtpEpollCtl) : Prop :=
  ∃ connMap, s.epollCtxMap epid = some connMap ∧ match ctl with
    | .add srcPort dstPort _ =>
      ∃ k, port2conn (createConnId (ntohs srcPort) (ntohs dstPort)) = some k
    | .mod _ | .del => ∃ k, connMap.lookup sockid = some k

theorem handleEpollCtlMsg_rejects (h : ¬ s.Accepts port2conn epid sockid ctl) :
    s.handleEpollCtlMsg port2conn epid sockid ctl = (-1, s) := by
  unfold handleEpollCtlMsg
  cases hctx : s.epollCtxMap epid with
  | none => rfl
  | some connMap =>
    cases ctl with
    | add srcPort dstPort event =>
      cases hk : port2conn (createConnId (ntohs srcPort) (ntohs dstPort)) with
      | none => simp only [hk]
      | some k => exact absurd ⟨connMap, hctx, k, hk⟩ h
    | mod event | del =>
      cases hk : connMap.lookup sockid with
      | none => simp only [hk]
      | some k => exact absurd ⟨connMap, hctx, k, hk⟩ h

theorem handleEpollCtlMsg_accepts (h : s.Accepts port2conn epid sockid ctl) :
    (s.handleEpollCtlMsg port2conn epid sockid ctl).1 = 0 := by
  obtain ⟨connMap, hctx, hk⟩ := h
  cases ctl with
  | add srcPort dstPort event | mod event | del =>
    obtain ⟨k, hk⟩ := hk
    simp only [handleEpollCtlMsg, hctx, hk]

theorem handleEpollCtlMsg_mod {connMap : AList fun _ : ℤ => ConnPtr} {k : ConnPtr}
    {event : NtsEpollEvent} (hctx : s.epollCtxMap epid = some connMap)
    (hk : connMap.lookup sockid = some k) :
    s.handleEpollCtlMsg port2conn epid sockid (.mod event) = (0, s.setConn k event) := by
  simp only [handleEpollCtlMsg, hctx, hk]

end NtpEpoll

namespace Ntm

open NtSocks.Ntm.NtSockContext (sockid)

def EpollRequest.msgId : EpollRequest → UInt64
  | .create _ msg => msg.msgId
  | .ctl msg => msg.msgId
  | .close msg => msg.msgId

namespace EpollHost

variable {h h' : EpollHost} {request : EpollRequest}

def channelOf (h : EpollHost) : EpollRequest → Option String
  | .create _ msg => some msg.shmName
  | .ctl msg => (h.epollMgr.epollCtxMap msg.epid).map EpollContext.epollShmaddr
  | .close msg => (h.epollMgr.epollCtxMap msg.epid).map EpollContext.epollShmaddr

/-- What a request asks for has been done: both processes have the instance, or have it no more, or
the socket has the events of the request. -/
def Performed (h h' : EpollHost) (resp : EpollMsg) : EpollRequest → Prop
  | .create _ _ => ∃ id, resp.sockid = some id ∧ (h'.epollMgr.epollCtxMap id).isSome ∧
      (h'.ntp.epollCtxMap id).isSome
  | .ctl msg => ∃ op c, EpollOp.ofCode msg.epollOp = some op ∧
      h.ntm.ntsShmConnMap msg.sockid = some c ∧
      (h'.ntm.socket (h.ntm.shmConns c).socket).epoll = if op = .del then 0 else msg.event.events
  | .close msg => h'.epollMgr.epollCtxMap msg.epid = none ∧ h'.ntp.epollCtxMap msg.epid = none

/-- The monitor returns, having sent one response to the request on the channel of its sender. The
response is a failure and nothing has changed, or what was asked for has been done. The proxy goes
on to serve requests. -/
def Answered (h : EpollHost) (request : EpollRequest) : Prop :=
  ∃ h' channel resp, h.handle request = some (h', [(channel, resp)]) ∧
    h.channelOf request = some channel ∧ resp.id = request.msgId ∧
    (resp.retval = -1 ∧ h' = h ∨ resp.retval = 0 ∧ h.Performed h' resp request) ∧
    h'.serving = true

/-- A request that is well formed, about an instance and a socket that the monitor has, and that the
proxy will not refuse. -/
def Served (h : EpollHost) : EpollRequest → Prop
  | .create res msg => 0 < msg.shmAddrlen ∧ 0 ≤ msg.ioQueueSize ∧ msg.sockType = ntSockEpoll ∧
      h.ntm.ntSockCtx.freeNtsock.first ≠ none ∧
      res.shmConnect = true ∧ res.queueCreate = true ∧ res.queueInit = true
  | .ctl msg =>
    match h.ctlPath msg with
    | .dropped => False
    | .refused _ _ => True
    | .accepted op _ c =>
      (h.ntm.socket (h.ntm.shmConns c).socket).socktype = ntSockListener ∨
        h.ntp.Accepts h.link.port2conn msg.epid msg.sockid (h.ntpCtl op c msg.event)
  | .close msg => 0 ≤ msg.epid ∧ msg.sockType = ntSockEpoll ∧
      h.epollMgr.epollCtxMap msg.epid ≠ none ∧ h.ntp.epollCtxMap msg.epid ≠ none

structure Ready (h : EpollHost) : Prop where
  serving : h.serving = true
  ctxs : ∀ epid ctx, h.epollMgr.epollCtxMap epid = some ctx →
    epid = sockid ctx.socket ∧ ctx.epSocketMap.isSome

theorem not_answered_of_silent (hsilent : ∃ h', h.handle request = some (h', [])) :
    ¬ h.Answered request := by
  rintro ⟨h'', channel, resp, hhandle, -⟩
  obtain ⟨h', hsilent⟩ := hsilent
  rw [hsilent] at hhandle
  cases hhandle

theorem not_answered_of_stuck (hstuck : h.handle request = none) : ¬ h.Answered request := by
  rintro ⟨h'', channel, resp, hhandle, -⟩
  rw [hstuck] at hhandle
  cases hhandle

theorem answered_of_handle {channel : String} {resp : EpollMsg}
    (hhandle : h.handle request = some (h', [(channel, resp)]))
    (hchannel : h.channelOf request = some channel) (hid : resp.id = request.msgId)
    (hdone : resp.retval = -1 ∧ h' = h ∨ resp.retval = 0 ∧ h.Performed h' resp request)
    (hready : h'.Ready) : h.Answered request ∧ ∀ h'', h.step request = some h'' → h''.Ready := by
  refine ⟨⟨h', channel, resp, hhandle, hchannel, hid, hdone, hready.serving⟩, fun h'' hstep => ?_⟩
  rw [step, hhandle] at hstep
  cases hstep
  exact hready

theorem ask_eq (hserving : h.serving = true) (queueInit : Bool) (msg : NtpEpollMsg) :
    h.ask queueInit msg = some ((h.ntp.ntpHandleEpollMsg h.link.port2conn queueInit msg).1, { h with
          ntp := (h.ntp.ntpHandleEpollMsg h.link.port2conn queueInit msg).2
          serving :=
            decide ((h.ntp.ntpHandleEpollMsg h.link.port2conn queueInit msg).1 = 0) }) := by
  rw [ask, if_pos hserving]

theorem Ready.setCtx (hready : h.Ready) {epid : ℤ} {ctx : Option EpollContext}
    (hctx : ∀ ctx', ctx = some ctx' → epid = sockid ctx'.socket ∧ ctx'.epSocketMap.isSome) :
    (h.setCtx epid ctx).Ready where
  serving := hready.serving
  ctxs := (forall_update_iff h.epollMgr.epollCtxMap fun epid ctx => ∀ ctx', ctx = some ctx' →
    epid = sockid ctx'.socket ∧ ctx'.epSocketMap.isSome).mpr ⟨hctx, fun epid _ => hready.ctxs epid⟩

section Create

variable {res : EpollResources} {msg : EpollCreateMsg}

theorem create_answered (hready : h.Ready) (hserved : h.Served (.create res msg)) :
    h.Answered (.create res msg) ∧ ∀ h', h.step (.create res msg) = some h' → h'.Ready := by
  obtain ⟨hlen, hsize, htype, hfree, hconnect, hcreate, hinit⟩ := hserved
  obtain ⟨i, hfirst⟩ := Option.ne_none_iff_exists'.mp hfree
  obtain ⟨sockCtx, halloc⟩ := NtSockContext.allocateSocket_some hfirst msg.sockType
  have hvalid : ¬ (msg.shmAddrlen < 0 ∨ msg.ioQueueSize < 0 ∨ msg.sockType ≠ ntSockEpoll) := by
    rintro (hlt | hlt | hne)
    · omega
    · omega
    · exact hne htype
  have hopened : ¬ (res.shmConnect = false ∨ res.queueCreate = false) := by
    rw [hconnect, hcreate]
    decide
  have hask := ask_eq (h := h.withSockCtx sockCtx) hready.serving res.queueInit
    (.create (sockid i))
  have hntp : (h.withSockCtx sockCtx).ntp.ntpHandleEpollMsg (h.withSockCtx sockCtx).link.port2conn
      res.queueInit (.create (sockid i)) = (0, h.ntp.setCtx (sockid i) (some ∅)) := by
    simp only [NtpEpoll.ntpHandleEpollMsg, NtpEpoll.handleEpollCreateMsg, hinit, if_true]
    rfl
  rw [hntp] at hask
  have hhandle : ∃ h', h.handle (.create res msg) =
      some (h', [(msg.shmName, createResponse msg i)]) ∧ h'.Ready ∧
      (h'.epollMgr.epollCtxMap (sockid i)).isSome ∧ (h'.ntp.epollCtxMap (sockid i)).isSome := by
    simp only [handle, handleMsgNtsEpollCreate, if_neg hvalid, halloc, if_neg hlen.ne',
      if_neg hopened, hask, ne_eq, not_true_eq_false, if_false]
    refine ⟨_, rfl, ?_, ?_, ?_⟩
    · have hnew : ((h.withSockCtx sockCtx).setCtx (sockid i) (some
          { socket := i, epollShmaddr := msg.shmName, epSocketMap := some ∅ })).Ready := by
        refine Ready.setCtx (h := h.withSockCtx sockCtx) ⟨hready.serving, hready.ctxs⟩ ?_
        rintro ctx' ⟨⟩
        exact ⟨rfl, rfl⟩
      exact ⟨rfl, hnew.ctxs⟩
    · simp [EpollHost.setCtx]
    · simp [EpollHost.setCtx, NtpEpoll.setCtx]
  obtain ⟨h', hh', hready', hmgr, hproxy⟩ := hhandle
  exact answered_of_handle hh' rfl rfl (Or.inr ⟨rfl, sockid i, rfl, hmgr, hproxy⟩) hready'

theorem create_served (hready : h.Ready) (hanswered : h.Answered (.create res msg)) :
    h.Served (.create res msg) := by
  by_cases hvalid : msg.shmAddrlen < 0 ∨ msg.ioQueueSize < 0 ∨ msg.sockType ≠ ntSockEpoll
  · refine absurd hanswered (not_answered_of_silent ⟨h, ?_⟩)
    simp only [handle, handleMsgNtsEpollCreate, if_pos hvalid]
  · cases hfirst : h.ntm.ntSockCtx.freeNtsock.first with
    | none =>
      refine absurd hanswered (not_answered_of_stuck ?_)
      simp only [handle, handleMsgNtsEpollCreate, if_neg hvalid, NtSockContext.allocateSocket,
        hfirst]
    | some i =>
      obtain ⟨sockCtx, halloc⟩ := NtSockContext.allocateSocket_some hfirst msg.sockType
      by_cases hlen : msg.shmAddrlen = 0
      · refine absurd hanswered (not_answered_of_stuck ?_)
        simp only [handle, handleMsgNtsEpollCreate, if_neg hvalid, halloc, if_pos hlen]
      · by_cases hopened : res.shmConnect = false ∨ res.queueCreate = false
        · refine absurd hanswered (not_answered_of_silent
            ⟨(h.withSockCtx sockCtx).freeEpollSocket i, ?_⟩)
          simp only [handle, handleMsgNtsEpollCreate, if_neg hvalid, halloc, if_neg hlen,
            if_pos hopened]
        · cases hinit : res.queueInit with
          | false =>
            -- the proxy refuses
            have hask := ask_eq (h := h.withSockCtx sockCtx) hready.serving res.queueInit
              (.create (sockid i))
            simp only [NtpEpoll.ntpHandleEpollMsg, NtpEpoll.handleEpollCreateMsg, hinit,
              Bool.false_eq_true, if_false] at hask
            refine absurd hanswered (not_answered_of_silent ?_)
            simp only [handle, handleMsgNtsEpollCreate, if_neg hvalid, halloc, if_neg hlen,
              if_neg hopened, hinit, hask]
            exact ⟨_, rfl⟩
          | true =>
            push Not at hvalid
            rw [not_or, Bool.not_eq_false, Bool.not_eq_false] at hopened
            refine ⟨?_, hvalid.2.1, hvalid.2.2, ?_, hopened.1, hopened.2, hinit⟩
            · exact lt_of_le_of_ne hvalid.1 (Ne.symm hlen)
            · rw [hfirst]
              exact Option.some_ne_none i

end Create

section Ctl

variable {msg : EpollCtlMsg} {op : EpollOp} {ctx : EpollContext} {c : ℕ}

theorem ctlPath_found {path : CtlPath} (hpath : h.ctlPath msg = path) (hdrop : path ≠ .dropped) :
    ∃ op ctx c, EpollOp.ofCode msg.epollOp = some op ∧
      h.epollMgr.epollCtxMap msg.epid = some ctx ∧ h.ntm.ntsShmConnMap msg.sockid = some c ∧
      path = match ctlErrno (h.ntm.socket (h.ntm.shmConns c).socket).epoll op with
        | some ntErrno => .refused ctx ntErrno
        | none => .accepted op ctx c := by
  unfold ctlPath at hpath
  split at hpath
  · exact absurd hpath.symm hdrop
  · split at hpath
    · exact absurd hpath.symm hdrop
    · split at hpath
      · exact absurd hpath.symm hdrop
      case h_2 op hop =>
        split at hpath
        · exact absurd hpath.symm hdrop
        case h_2 ctx hctx =>
          split at hpath
          · exact absurd hpath.symm hdrop
          case h_2 c hc => exact ⟨op, ctx, c, hop, hctx, hc, hpath.symm⟩

theorem ctlPath_accepted (hpath : h.ctlPath msg = .accepted op ctx c) :
    EpollOp.ofCode msg.epollOp = some op ∧ h.epollMgr.epollCtxMap msg.epid = some ctx ∧
      h.ntm.ntsShmConnMap msg.sockid = some c := by
  obtain ⟨op', ctx', c', hop, hctx, hc, hfound⟩ := ctlPath_found hpath CtlPath.noConfusion
  split at hfound
  · cases hfound
  · cases hfound
    exact ⟨hop, hctx, hc⟩

theorem ctlPath_refused {ntErrno : EpollErrno} (hpath : h.ctlPath msg = .refused ctx ntErrno) :
    h.epollMgr.epollCtxMap msg.epid = some ctx := by
  obtain ⟨op', ctx', c', hop, hctx, hc, hfound⟩ := ctlPath_found hpath CtlPath.noConfusion
  split at hfound
  · cases hfound
    exact hctx
  · cases hfound

theorem setEpoll_epoll (h : EpollHost) (i : ℕ) (op : EpollOp) (event : NtsEpollEvent) :
    ((h.setEpoll i op event).ntm.socket i).epoll = if op = .del then 0 else event.events := by
  cases op <;> simp [setEpoll]

theorem setEpoll_socktype (h : EpollHost) (i : ℕ) (op : EpollOp) (event : NtsEpollEvent) :
    ((h.setEpoll i op event).ntm.socket i).socktype = (h.ntm.socket i).socktype := by
  cases op <;> simp [setEpoll]

theorem setEpoll_ready (hready : h.Ready) (i : ℕ) (op : EpollOp) (event : NtsEpollEvent) :
    (h.setEpoll i op event).Ready := by
  cases op <;> exact ⟨hready.serving, hready.ctxs⟩

theorem setEpoll_ntpCtl (h : EpollHost) (c : ℕ) (op : EpollOp) (event : NtsEpollEvent) :
    (h.setEpoll (h.ntm.shmConns c).socket op event).ntpCtl op c event = h.ntpCtl op c event := by
  cases op with
  | add =>
    simp only [ntpCtl, setEpoll]
    change NtpEpollCtl.add ((h.ntm.modifySocket (h.ntm.shmConns c).socket _).socket
      (h.ntm.shmConns c).socket).saddr.sinPort _ event = _
    rw [NtmManager.modifySocket_self]
    rfl
  | mod | del => rfl

theorem setListener_ready (hready : h.Ready) (hctx : h.epollMgr.epollCtxMap msg.epid = some ctx)
    (op : EpollOp) (map : AList fun _ : ℤ => ℕ) (c i : ℕ) :
    (h.setListener op msg.epid ctx map c i).Ready := by
  have hset (map : AList fun _ : ℤ => ℕ) :
      (h.setCtx msg.epid (some { ctx with epSocketMap := some map })).Ready := by
    refine hready.setCtx ?_
    rintro ctx' ⟨⟩
    exact ⟨(hready.ctxs msg.epid ctx hctx).1, rfl⟩
  cases op with
  | add => exact ⟨hready.serving, (hset _).ctxs⟩
  | mod => exact hready
  | del => exact ⟨hready.serving, (hset _).ctxs⟩

theorem setListener_ntm (h : EpollHost) (op : EpollOp) (epid : ℤ) (ctx : EpollContext)
    (map : AList fun _ : ℤ => ℕ) (c i : ℕ) : (h.setListener op epid ctx map c i).ntm = h.ntm := by
  cases op <;> rfl

/-- The request has been carried out, and the response to it says so. -/
def CtlDone (h : EpollHost) (msg : EpollCtlMsg) (op : EpollOp) (ctx : EpollContext) (c : ℕ) :
    Prop :=
  ∃ h', h.handle (.ctl msg) = some (h', [(ctx.epollShmaddr, ctlResponse msg none)]) ∧ h'.Ready ∧
    (h'.ntm.socket (h.ntm.shmConns c).socket).epoll = if op = .del then 0 else msg.event.events

theorem handle_listener (hready : h.Ready) (hpath : h.ctlPath msg = .accepted op ctx c)
    (hlistener : (h.ntm.socket (h.ntm.shmConns c).socket).socktype = ntSockListener) :
    h.CtlDone msg op ctx c := by
  obtain ⟨-, hctx, -⟩ := ctlPath_accepted hpath
  obtain ⟨map, hmap⟩ := Option.isSome_iff_exists.mp (hready.ctxs _ ctx hctx).2
  rw [← setEpoll_socktype h _ op msg.event] at hlistener
  simp only [CtlDone, handle, handleMsgNtsEpollCtl, hpath, if_pos hlistener, hmap, Option.map_some]
  refine ⟨_, rfl, setListener_ready (setEpoll_ready hready _ op msg.event) ?_ op map c _, ?_⟩
  · cases op <;> exact hctx
  · rw [setListener_ntm, setEpoll_epoll]

/-- An operation on another socket is answered if the proxy does its part. Otherwise there is no
response, and the thread of the proxy has ended. -/
theorem handle_connection (hready : h.Ready) (hpath : h.ctlPath msg = .accepted op ctx c)
    (hlistener : (h.ntm.socket (h.ntm.shmConns c).socket).socktype ≠ ntSockListener) :
    (h.ntp.Accepts h.link.port2conn msg.epid msg.sockid (h.ntpCtl op c msg.event) →
      h.CtlDone msg op ctx c) ∧
    (¬ h.ntp.Accepts h.link.port2conn msg.epid msg.sockid (h.ntpCtl op c msg.event) →
      ∃ h', h.handle (.ctl msg) = some (h', []) ∧ h'.serving = false) := by
  have hready₁ := setEpoll_ready hready (h.ntm.shmConns c).socket op msg.event
  have hepoll := setEpoll_epoll h (h.ntm.shmConns c).socket op msg.event
  have hctl := setEpoll_ntpCtl h c op msg.event
  have hntp : (h.setEpoll (h.ntm.shmConns c).socket op msg.event).ntp = h.ntp ∧
      (h.setEpoll (h.ntm.shmConns c).socket op msg.event).link = h.link := by
    cases op <;> exact ⟨rfl, rfl⟩
  rw [← setEpoll_socktype h _ op msg.event] at hlistener
  simp only [CtlDone, handle, handleMsgNtsEpollCtl, hpath, if_neg hlistener]
  generalize h.setEpoll (h.ntm.shmConns c).socket op msg.event = h₁ at hready₁ hepoll hctl hntp ⊢
  rw [ask_eq hready₁.serving, hctl, hntp.1, hntp.2, NtpEpoll.ntpHandleEpollMsg]
  constructor
  · intro haccepts
    rw [NtpEpoll.handleEpollCtlMsg_accepts haccepts]
    exact ⟨_, rfl, ⟨rfl, hready₁.ctxs⟩, hepoll⟩
  · intro hrejects
    rw [NtpEpoll.handleEpollCtlMsg_rejects hrejects]
    exact ⟨_, rfl, rfl⟩

theorem ctl_answered (hready : h.Ready) (hserved : h.Served (.ctl msg)) :
    h.Answered (.ctl msg) ∧ ∀ h', h.step (.ctl msg) = some h' → h'.Ready := by
  rw [Served] at hserved
  cases hpath : h.ctlPath msg with
  | dropped => simp only [hpath] at hserved
  | refused ctx ntErrno =>
    have hctx := ctlPath_refused hpath
    have hhandle : h.handle (.ctl msg) =
        some (h, [(ctx.epollShmaddr, ctlResponse msg (some ntErrno))]) := by
      simp only [handle, handleMsgNtsEpollCtl, hpath]
    refine answered_of_handle hhandle ?_ rfl (Or.inl ⟨rfl, rfl⟩) hready
    rw [channelOf, hctx, Option.map_some]
  | accepted op ctx c =>
    simp only [hpath] at hserved
    obtain ⟨hop, hctx, hc⟩ := ctlPath_accepted hpath
    obtain ⟨h', hhandle, hready', hepoll⟩ : h.CtlDone msg op ctx c := by
      by_cases hlistener :
          (h.ntm.socket (h.ntm.shmConns c).socket).socktype = ntSockListener
      · exact handle_listener hready hpath hlistener
      · exact (handle_connection hready hpath hlistener).1 (hserved.resolve_left hlistener)
    refine answered_of_handle hhandle ?_ rfl (Or.inr ⟨rfl, op, c, hop, hc, hepoll⟩) hready'
    rw [channelOf, hctx, Option.map_some]

theorem ctl_served (hready : h.Ready) (hanswered : h.Answered (.ctl msg)) :
    h.Served (.ctl msg) := by
  rw [Served]
  cases hpath : h.ctlPath msg with
  | dropped =>
    refine absurd hanswered (not_answered_of_silent ⟨h, ?_⟩)
    simp only [handle, handleMsgNtsEpollCtl, hpath]
  | refused ctx ntErrno => trivial
  | accepted op ctx c =>
    by_contra hrefused
    rw [not_or] at hrefused
    obtain ⟨h', hhandle, -⟩ := (handle_connection hready hpath hrefused.1).2 hrefused.2
    exact not_answered_of_silent ⟨h', hhandle⟩ hanswered

end Ctl

section Close

variable {msg : EpollCloseMsg} {ctx : EpollContext}

theorem handle_close (hready : h.Ready) (hepid : 0 ≤ msg.epid) (htype : msg.sockType = ntSockEpoll)
    (hctx : h.epollMgr.epollCtxMap msg.epid = some ctx) :
    (h.ntp.epollCtxMap msg.epid ≠ none →
      ∃ h', h.handle (.close msg) = some (h', [(ctx.epollShmaddr, closeResponse msg)]) ∧ h'.Ready ∧
        h'.epollMgr.epollCtxMap msg.epid = none ∧ h'.ntp.epollCtxMap msg.epid = none) ∧
    (h.ntp.epollCtxMap msg.epid = none → ∃ h', h.handle (.close msg) = some (h', [])) := by
  obtain ⟨hkey, hmap⟩ := hready.ctxs msg.epid ctx hctx
  obtain ⟨map, hmap⟩ := Option.isSome_iff_exists.mp hmap
  have hvalid : ¬ (msg.epid < 0 ∨ msg.sockType ≠ ntSockEpoll) := by
    rintro (hlt | hne)
    · omega
    · exact hne htype
  have hctxs : ((h.forgetListeners map).setCtx msg.epid
      (some { ctx with epSocketMap := none })).epollMgr.epollCtxMap =
        update h.epollMgr.epollCtxMap msg.epid
          (some { ctx with epSocketMap := none }) := rfl
  have hntp : ((h.forgetListeners map).setCtx msg.epid
      (some { ctx with epSocketMap := none })).ntp = h.ntp := rfl
  have hserving : ((h.forgetListeners map).setCtx msg.epid
      (some { ctx with epSocketMap := none })).serving = true := hready.serving
  simp only [handle, handleMsgNtsEpollClose, if_neg hvalid, hctx, hmap]
  generalize (h.forgetListeners map).setCtx msg.epid (some { ctx with epSocketMap := none }) = h₁
    at hctxs hntp hserving ⊢
  rw [ask_eq hserving, hntp, NtpEpoll.ntpHandleEpollMsg, NtpEpoll.handleEpollCloseMsg]
  constructor
  · intro hproxy
    obtain ⟨connMap, hproxy⟩ := Option.ne_none_iff_exists'.mp hproxy
    rw [hproxy]
    refine ⟨_, rfl, ⟨rfl, ?_⟩, ?_, update_self _ _ _⟩
    · change ∀ epid' ctx', update h₁.epollMgr.epollCtxMap _ none epid' = some ctx' → _
      rw [hctxs, ← hkey, update_idem, forall_update_iff h.epollMgr.epollCtxMap fun epid' ctx =>
        ∀ ctx', ctx = some ctx' → epid' = sockid ctx'.socket ∧ ctx'.epSocketMap.isSome]
      exact ⟨fun _ hctx' => (by cases hctx'), fun epid' _ => hready.ctxs epid'⟩
    · change update h₁.epollMgr.epollCtxMap _ none msg.epid = none
      rw [← hkey, update_self]
  · intro hproxy
    rw [hproxy]
    exact ⟨_, rfl⟩

theorem close_answered (hready : h.Ready) (hserved : h.Served (.close msg)) :
    h.Answered (.close msg) ∧ ∀ h', h.step (.close msg) = some h' → h'.Ready := by
  obtain ⟨hepid, htype, hmgr, hproxy⟩ := hserved
  obtain ⟨ctx, hctx⟩ := Option.ne_none_iff_exists'.mp hmgr
  obtain ⟨h', hhandle, hready', hgone⟩ := (handle_close hready hepid htype hctx).1 hproxy
  refine answered_of_handle hhandle ?_ rfl (Or.inr ⟨rfl, hgone⟩) hready'
  rw [channelOf, hctx, Option.map_some]

theorem close_served (hready : h.Ready) (hanswered : h.Answered (.close msg)) :
    h.Served (.close msg) := by
  by_cases hvalid : msg.epid < 0 ∨ msg.sockType ≠ ntSockEpoll
  · refine absurd hanswered (not_answered_of_silent ⟨h, ?_⟩)
    simp only [handle, handleMsgNtsEpollClose, if_pos hvalid]
  · cases hctx : h.epollMgr.epollCtxMap msg.epid with
    | none =>
      refine absurd hanswered (not_answered_of_silent ⟨h, ?_⟩)
      simp only [handle, handleMsgNtsEpollClose, if_neg hvalid, hctx]
    | some ctx =>
      push Not at hvalid
      refine ⟨hvalid.1, hvalid.2, ?_, fun hproxy => ?_⟩
      · rw [hctx]
        exact Option.some_ne_none ctx
      · obtain ⟨h', hhandle⟩ := (handle_close hready hvalid.1 hvalid.2 hctx).2 hproxy
        exact not_answered_of_silent ⟨h', hhandle⟩ hanswered

end Close

theorem answered_iff (hready : h.Ready) (request : EpollRequest) :
    h.Answered request ↔ h.Served request := by
  cases request with
  | create res msg =>
    exact ⟨create_served hready, fun hserved => (create_answered hready hserved).1⟩
  | ctl msg => exact ⟨ctl_served hready, fun hserved => (ctl_answered hready hserved).1⟩
  | close msg => exact ⟨close_served hready, fun hserved => (close_answered hready hserved).1⟩

theorem Ready.step (hready : h.Ready) (hserved : h.Served request)
    (hstep : h.step request = some h') : h'.Ready := by
  cases request with
  | create res msg => exact (create_answered hready hserved).2 h' hstep
  | ctl msg => exact (ctl_answered hready hserved).2 h' hstep
  | close msg => exact (close_answered hready hserved).2 h' hstep

section Sample

open NtSocks.Ntm.Connection (sampleEnd)

/-- A host with an accepted socket of id 1, whose port is 4 and whose peer has the port 3, and with
an epoll instance of id 4. The proxy has the connections of `link`. -/
def sampleEpollHost (link : NtbLinkCustom) : EpollHost where
  ntm := sampleEnd 4 3
  link := link
  epollMgr :=
    { epollCtxMap := fun epid =>
        if epid = 4 then some { socket := 3, epollShmaddr := "ep", epSocketMap := some ∅ } else none
      epData := fun _ => 0
      shmConnCtx := fun _ => none }
  ntp :=
    { conns := fun _ => { state := .readyConn, epoll := 0, sockid := 0, recvReadIndex := 0 }
      epData := fun _ => 0
      connCtx := fun _ => none
      epollCtxMap := fun epid => if epid = 4 then some ∅ else none }
  serving := true

theorem sampleEpollHost_ready (link : NtbLinkCustom) : (sampleEpollHost link).Ready where
  serving := rfl
  ctxs := by
    intro epid ctx hctx
    change (if epid = 4 then some _ else none) = some ctx at hctx
    split at hctx
    case isTrue hepid =>
      cases hctx
      exact ⟨hepid, rfl⟩
    · cases hctx

def sampleAdd : EpollCtlMsg where
  msgId := 2
  sockid := 1
  sockType := ntSockPipe
  epid := 4
  epollOp := 1
  event := { data := 7, events := 0x19 }

def sampleClose : EpollCloseMsg where
  msgId := 3
  epid := 4
  sockType := ntSockEpoll

end Sample

end EpollHost

end Ntm

end NtSocks
