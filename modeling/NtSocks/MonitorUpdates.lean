import NtSocks.NtsRequests
import NtSocks.SynHandler

/-!
# What the handlers of the monitor do to its tables

Every handler is a sequence of a few kinds of updates, and what it sends to the library is one of a
few kinds of responses. An invariant of the monitor is proved once for every kind of update and then
holds of every handler.
-/

namespace NtSocks

/-- The responses of the monitor: to `socket`, `bind` and `listen`, to a refused and to a dispatched
`connect`, at the ends of a handshake, to the `close` of a listener, and when the peer has closed
its end. -/
inductive MonitorReply
  | newSock (msgId i : ℕ)
  | bind (msgId : ℕ) (sockid : ℤ) (ntErrno : Option NtErrno)
  | listen (msgId : ℕ) (sockid : ℤ) (ntErrno : Option NtErrno)
  | refused (msg : NtmMsg) (ntErrno : NtErrno)
  | dispatched (msg : NtmMsg) (port : ℤ)
  | established (i : ℕ)
  | clientSynAck (sockid : ℤ)
  | closed (msgId : ℕ) (sockid : ℤ)
  | finAck (i : ℕ)
  deriving DecidableEq, Repr

def MonitorReply.msg : MonitorReply → NtsMsg
  | .newSock msgId i =>
    { Ntm.ntsResponse msgId .newSock (Ntm.NtSockContext.sockid i) none with retval := none }
  | .bind msgId sockid ntErrno => Ntm.ntsResponse msgId .bind sockid ntErrno
  | .listen msgId sockid ntErrno => Ntm.ntsResponse msgId .listen sockid ntErrno
  | .refused msg ntErrno => Ntm.NtmManager.connectResponse msg (some ntErrno) none
  | .dispatched msg port => Ntm.NtmManager.connectResponse msg none (some port)
  | .established i => Ntm.NtmManager.established i
  | .clientSynAck sockid => Ntm.NtmManager.ntsClientSynAck sockid
  | .closed msgId sockid => Ntm.ntsResponse msgId .close sockid none
  | .finAck i => Ntm.NtmManager.closeMsg i

namespace Ntm

open NtSocks.Ntm.NtSockContext (sockid)

/-- The updates that the handlers are made of. An update of the other tables leaves the records of
sockets, the queue of free sockets and the events alone, and a record keeps what was sent to its
library. -/
inductive Update : NtmManager → NtmManager → Prop
  | tables {mgr mgr' : NtmManager} (hnext : mgr'.nextShmConn = mgr.nextShmConn)
      (hconns : mgr'.shmConns = mgr.shmConns) (hmap : mgr'.ntsShmConnMap = mgr.ntsShmConnMap)
      (hfree : mgr'.ntSockCtx.freeNtsock = mgr.ntSockCtx.freeNtsock)
      (hevents : mgr'.epIoQueue = mgr.epIoQueue) : Update mgr mgr'
  | notify (mgr : NtmManager) (c i : ℕ) :
      Update mgr { mgr with epIoQueue := mgr.epIoQueue ++
        [(c, { sockid := UInt32.ofNat (sockid i)
               data := (UInt32.ofNat (sockid i)).toUInt64
               events := ntsEpollin })] }
  | allocate {mgr : NtmManager} {socktype : ℤ} {i : ℕ} {ctx : NtSockContext}
      (h : mgr.ntSockCtx.allocateSocket socktype = some (i, ctx)) :
      Update mgr { mgr with ntSockCtx := ctx }
  | free (mgr : NtmManager) (i : ℕ) :
      Update mgr { mgr with ntSockCtx := mgr.ntSockCtx.freeSocket (sockid i) }
  | record (mgr : NtmManager) (c : ℕ) {f : NtsShmConn → NtsShmConn}
      (hf : ∀ conn, (f conn).ntsShmCtx.getD [] = conn.ntsShmCtx.getD []) :
      Update mgr (mgr.modifyShmConn c f)
  | send {mgr mgr' : NtmManager} {c : ℕ} (reply : MonitorReply)
      (h : mgr.ntsShmSend c reply.msg = some mgr') : Update mgr mgr'
  | newRecord (mgr : NtmManager) {conn : NtsShmConn} (h : conn.ntsShmCtx.getD [] = []) :
      Update mgr (mgr.newShmConn conn)
  | forget (mgr : NtmManager) (id : ℤ) : Update mgr (mgr.setShmConn id none)

abbrev Updates : NtmManager → NtmManager → Prop := Relation.ReflTransGen Update

theorem Updates.keeps {I : NtmManager → Prop}
    (hupdate : ∀ mgr mgr', Update mgr mgr' → I mgr → I mgr') {mgr mgr' : NtmManager}
    (h : Updates mgr mgr') (hmgr : I mgr) : I mgr' := by
  induction h with
  | refl => exact hmgr
  | tail _ hlast ih => exact hupdate _ _ hlast ih

theorem Update.setState (mgr : NtmManager) (i : ℕ) (state : SocketState) :
    Update mgr (mgr.setState i state) := .tables rfl rfl rfl rfl rfl

namespace NtmManager

variable {mgr mgr' : NtmManager} {msg : NtmSockMsg} {out : List NtmSockMsg}

theorem releaseSocket_updates (mgr : NtmManager) (i c : ℕ) :
    Updates mgr (mgr.releaseSocket i c) := by
  have hrelease : ∀ mgr₁ : NtmManager, Update mgr mgr₁ →
      Updates mgr { mgr₁.setShmConn (sockid i) none with
        ntSockCtx := mgr₁.ntSockCtx.freeSocket (sockid i) } :=
    fun mgr₁ h => ((Relation.ReflTransGen.single h).tail (.forget mgr₁ _)).tail (.free _ i)
  simp only [releaseSocket]
  split
  · split
    · exact hrelease (mgr.setAccepted _ _ none) (.tables rfl rfl rfl rfl rfl)
    · exact hrelease mgr (.tables rfl rfl rfl rfl rfl)
  · exact hrelease mgr (.tables rfl rfl rfl rfl rfl)

theorem destroyClientNtSocketConn_updates (mgr : NtmManager) (i c p : ℕ) :
    Updates mgr (mgr.destroyClientNtSocketConn i c p) := by
  rw [destroyClientNtSocketConn_eq]
  have hport : Update mgr (mgr.releasePort p) := .tables rfl rfl rfl rfl rfl
  exact .head hport (releaseSocket_updates _ i c)

theorem destroyWithSock_updates (mgr : NtmManager) (i : ℕ) :
    Updates mgr (mgr.destroyClientNtSocketConnWithSock i) := by
  simp only [destroyClientNtSocketConnWithSock]
  split
  · split
    · exact destroyClientNtSocketConn_updates mgr i _ _
    · exact releaseSocket_updates mgr i _
  · split
    · have hport : ∀ p, Update mgr (mgr.releasePort p) := fun _ => .tables rfl rfl rfl rfl rfl
      exact .head (hport _) (.single (.free _ i))
    · exact .single (.free mgr i)

theorem handleNtFinAckMsg_updates (h : mgr.handleNtFinAckMsg msg = some mgr') :
    Updates mgr mgr' := by
  simp only [handleNtFinAckMsg] at h
  split at h
  · cases h
    exact .refl
  case h_2 i hport =>
    split at h
    · cases h
      exact .single (.setState mgr i _)
    · obtain ⟨mgr₁, hsend, rfl⟩ := Option.map_eq_some_iff.mp h
      have hsent : Updates mgr mgr₁ :=
        .head (.setState mgr i .waitClose) (.single (.send (.finAck i) hsend))
      exact (hsent.tail (.setState mgr₁ i .closed)).trans
        (destroyClientNtSocketConn_updates _ _ _ _)

theorem handleNtClientSynAckMsg_updates
    (h : mgr.handleNtClientSynAckMsg msg true = some (mgr', out)) : Updates mgr mgr' := by
  rw [handleNtClientSynAckMsg] at h
  split at h
  · cases h
  · split at h
    · cases h
      exact .refl
    · split at h
      · cases h
      · obtain ⟨mgr₁, hsend, heq⟩ := Option.map_eq_some_iff.mp h
        cases heq
        exact .head (.setState mgr _ .established) (.single (.send (.clientSynAck _) hsend))

theorem synAckFinish_updates {i : ℕ} {reply : NtpNtmMsg}
    (h : mgr.synAckFinish msg i reply = some (mgr', out)) : Updates mgr mgr' := by
  simp only [synAckFinish] at h
  split at h
  · cases h
    exact .refl
  · split at h
    · cases h
      exact .single (.setState mgr i .established)
    · obtain ⟨mgr₁, hsend, heq⟩ := Option.map_eq_some_iff.mp h
      cases heq
      refine .head (.setState mgr i .established) (.head (.record _ _ ?_)
        (.single (.send (.established i) hsend)))
      exact fun _ => rfl

theorem synRollback_updates (mgr : NtmManager) (pending : SynPending) :
    Updates mgr (mgr.synRollback pending) := by
  let mgr₁ := ({ mgr.setPortSock (NtPortContext.portId pending.port).toNat none with
    ntPortCtx := mgr.ntPortCtx.freePort (NtPortContext.portId pending.port).toNat } :
      NtmManager).setState pending.socket .closed
  have htables : Update mgr mgr₁ := .tables rfl rfl rfl rfl rfl
  have hforget := Update.forget mgr₁ (sockid pending.socket)
  have haccepted : Update (mgr₁.setShmConn (sockid pending.socket) none)
      ((mgr₁.setShmConn (sockid pending.socket) none).setAccepted pending.wrapper
        (sockid pending.socket) none) := .tables rfl rfl rfl rfl rfl
  exact .head htables (.head hforget (.head haccepted (.single (.free _ pending.socket))))

theorem synEnter_updates (mgr : NtmManager) (ntmConn : NtmConn) (pending : SynPending) :
    Updates mgr (mgr.synEnter ntmConn msg pending) :=
  .head (.newRecord mgr rfl) (.single (.tables rfl rfl rfl rfl rfl))

theorem notifyListener_update (mgr : NtmManager) (w : ℕ) : Update mgr (mgr.notifyListener w) := by
  simp only [notifyListener]
  split
  · exact .notify mgr _ _
  · exact .tables rfl rfl rfl rfl rfl

theorem synFinish_updates (mgr : NtmManager) (ntmConn : NtmConn) (pending : SynPending)
    (reply : NtpNtmMsg) : Updates mgr (mgr.synFinish ntmConn msg pending reply).1 := by
  simp only [synFinish]
  split
  · exact (synEnter_updates mgr ntmConn pending).trans (synRollback_updates _ pending)
  · have hbacklog : ∀ w backlog, Update (mgr.synEnter ntmConn msg pending)
        ((mgr.synEnter ntmConn msg pending).setBacklog w backlog) :=
      fun _ _ => .tables rfl rfl rfl rfl rfl
    exact ((synEnter_updates mgr ntmConn pending).tail (hbacklog _ _)).tail
      (notifyListener_update _ _)

theorem allocateClient_updates {w : ℕ} {pending : SynPending}
    (h : mgr.allocateClient msg w = some (pending, mgr')) : Updates mgr mgr' := by
  obtain ⟨-, sockCtx, portCtx, hsocket, -, rfl⟩ := allocateClient_cases h
  exact .head (.allocate hsocket) (.single (.tables rfl rfl rfl rfl rfl))

end NtmManager

variable {shmAccept : String → Bool} {msg : NtmSockMsg}

theorem Host.ntmSockHandleMsg_updates {h h' : Host} {ntmConn : NtmConn} {out : List NtmSockMsg}
    (hstep : h.ntmSockHandleMsg shmAccept ntmConn msg = some (h', out)) : Updates h.ntm h'.ntm := by
  rw [ntmSockHandleMsg] at hstep
  split at hstep
  · rw [handleNtSynMsg] at hstep
    split at hstep
    · cases hstep
      exact .refl
    · split at hstep
      · cases hstep
      case h_2 pending mgr₁ hallocate =>
        split at hstep
        · cases hstep
        · cases hstep
          exact (NtmManager.allocateClient_updates hallocate).trans
            (NtmManager.synFinish_updates mgr₁ ntmConn pending _)
  · rw [handleNtSynAckMsg] at hstep
    split at hstep
    · cases hstep
    · split at hstep
      · cases hstep
        exact .refl
      · split at hstep
        · cases hstep
        · obtain ⟨⟨ntm, out'⟩, hfinish, heq⟩ := Option.map_eq_some_iff.mp hstep
          cases heq
          exact NtmManager.synAckFinish_updates hfinish
  · obtain ⟨⟨ntm, out'⟩, hhandle, heq⟩ := Option.map_eq_some_iff.mp hstep
    cases heq
    exact NtmManager.handleNtClientSynAckMsg_updates hhandle
  · obtain ⟨ntm, hhandle, heq⟩ := Option.map_eq_some_iff.mp hstep
    cases heq
    exact NtmManager.handleNtFinAckMsg_updates hhandle
  all_goals
    cases hstep
    exact .refl

theorem Host.waitsForNtp_updates {h h' : Host} (hwaits : h.waitsForNtp shmAccept msg = some h') :
    Updates h.ntm h'.ntm := by
  obtain ⟨⟨ntm, request⟩, hrequest, hntp⟩ := Option.bind_eq_some_iff.mp hwaits
  have hntm : ntm = h'.ntm := by
    dsimp only at hntp
    split at hntp
    · cases hntp
    · cases hntp
      rfl
  subst hntm
  rw [Host.ntpRequest] at hrequest
  split at hrequest
  · split at hrequest
    · cases hrequest
    · obtain ⟨⟨pending, ntm⟩, halloc, heq⟩ := Option.map_eq_some_iff.mp hrequest
      rw [← (Prod.mk.inj heq).1]
      exact NtmManager.allocateClient_updates halloc
  · split at hrequest
    · cases hrequest
    · obtain ⟨i, -, heq⟩ := Option.map_eq_some_iff.mp hrequest
      rw [← (Prod.mk.inj heq).1]
  · cases hrequest

namespace NtmManager

variable {mgr mgr' : NtmManager} {out : List NtmSockMsg} {tcp : Tcp} {uninitialised : Option ℕ}
  {sockid : ℤ} {msg : NtmMsg} {msgId c : ℕ}

theorem handleMsgNtsNewSocket_updates {sockType shmAddrlen : ℤ}
    (h : mgr.handleMsgNtsNewSocket msgId sockType shmAddrlen = some mgr') : Updates mgr mgr' := by
  rw [handleMsgNtsNewSocket] at h
  split at h
  · cases h
  case h_2 i sockCtx hsocket =>
    split at h
    · cases h
    · exact .head (.allocate hsocket) (.head (.newRecord _ rfl) (.head (.setState _ i .closed)
        (.single (.send (.newSock msgId i) h))))

theorem bindSocket_updates (mgr : NtmManager) (msg : NtmMsg) (c : ℕ) :
    Updates mgr (mgr.bindSocket msg c) := by
  refine .head (.record mgr c ?_) (.single (.tables rfl rfl rfl rfl rfl))
  exact fun _ => rfl

theorem handleMsgNtsBind_updates (h : mgr.handleMsgNtsBind msg = some mgr') : Updates mgr mgr' := by
  rw [handleMsgNtsBind] at h
  split at h
  · cases h
    exact .refl
  case h_2 c hrecord =>
    have hrespond : ∀ {mgr₁ : NtmManager} {ntErrno : Option NtErrno},
        mgr₁.ntsShmSend c (ntsResponse msg.msgId .bind msg.sockid ntErrno) = some mgr' →
        Updates mgr₁ mgr' := fun hsend => .single (.send (.bind _ _ _) hsend)
    dsimp only at h
    split_ifs at h
    · exact hrespond h
    · exact hrespond h
    · exact hrespond h
    · exact hrespond h
    · split at h
      · exact hrespond h
      case h_2 p portCtx hport =>
        have hports : Update mgr { mgr with ntPortCtx := portCtx } := .tables rfl rfl rfl rfl rfl
        exact (Relation.ReflTransGen.head hports (bindSocket_updates _ msg c)).trans
          (hrespond h)

theorem handleMsgNtsListen_updates {backlog : ℤ}
    (h : mgr.handleMsgNtsListen msgId sockid backlog = some mgr') : Updates mgr mgr' := by
  rw [handleMsgNtsListen] at h
  split at h
  · cases h
    exact .refl
  case h_2 c hrecord =>
    split at h
    · exact .single (.send (.listen _ _ _) h)
    · have hlistener : ∀ backlog, Update mgr (mgr.newListener c backlog) :=
        fun _ => .tables rfl rfl rfl rfl rfl
      exact .head (hlistener _) (.single (.send (.listen _ _ _) h))

theorem handleMsgNtsAcceptAck_updates {shmAddrlen : ℤ}
    (h : mgr.handleMsgNtsAcceptAck sockid shmAddrlen = some mgr') : Updates mgr mgr' := by
  rw [handleMsgNtsAcceptAck] at h
  split at h
  · cases h
    exact .refl
  · split at h
    · cases h
    · cases h
      refine .single (.record mgr _ fun conn => ?_)
      cases conn.ntsShmCtx <;> rfl

theorem handleMsgNtsClose_updates (h : mgr.handleMsgNtsClose msgId sockid = some mgr') :
    Updates mgr mgr' := by
  simp only [handleMsgNtsClose] at h
  split at h
  · cases h
    exact .refl
  · split at h
    · cases h
      exact .refl
    case h_2 c hrecord =>
      split at h
      · cases h
        exact .refl
      · split at h
        · cases h
        case h_2 w hlistener =>
          obtain ⟨mgr₁, hsend, rfl⟩ := Option.map_eq_some_iff.mp h
          have hremoved : ∀ i w port,
              Update mgr ((mgr.setState i .waitClose).removeListener w port) :=
            fun _ _ _ => .tables rfl rfl rfl rfl rfl
          have hsent : Updates mgr mgr₁ :=
            .head (hremoved _ _ _) (.single (.send (.closed _ _) hsend))
          exact ((hsent.tail (.forget mgr₁ _)).tail (.free _ _)).tail (.setState _ _ _)

theorem handleMsgNtsFin_updates (mgr : NtmManager) (tcp : Tcp) (msg : NtmMsg) :
    Updates mgr (mgr.handleMsgNtsFin tcp msg).1 := by
  simp only [handleMsgNtsFin]
  split
  · exact .refl
  · split
    · exact .refl
    · split
      · exact .refl
      · split
        · exact .single (.setState mgr _ .waitClose)
        · split
          · exact .head (.setState mgr _ .waitClose)
              (.head (.setState _ _ .closed) (destroyWithSock_updates _ _))
          · exact .single (.setState mgr _ .waitClose)

theorem connectFail_update (mgr : NtmManager) (i : ℕ) (port : Option ℕ) :
    Update mgr (mgr.connectFail i port) := by
  simp only [connectFail]
  split
  · split
    · exact .tables rfl rfl rfl rfl rfl
    · exact .tables rfl rfl rfl rfl rfl
  · exact .tables rfl rfl rfl rfl rfl

theorem connectRefuse_updates {ntErrno : NtErrno}
    (h : mgr.connectRefuse msg c uninitialised ntErrno = some (mgr', out)) : Updates mgr mgr' := by
  obtain ⟨mgr₁, hsend, heq⟩ := Option.map_eq_some_iff.mp h
  cases heq
  exact .head (.send (.refused msg ntErrno) hsend) (.single (connectFail_update mgr₁ _ _))

theorem cacheServer_update (mgr : NtmManager) (msg : NtmMsg) (c : ℕ) :
    Update mgr (mgr.cacheServer msg c) := by
  apply Update.record
  exact fun _ => rfl

theorem remoteMonitor_updates {ntmConn : NtmConn}
    (h : mgr.remoteMonitor tcp c = some (ntmConn, mgr')) : Updates mgr mgr' := by
  simp only [remoteMonitor] at h
  split at h
  · cases h
    exact .refl
  · split at h
    · cases h
      have hconn : ∀ connMap ntmConn, Updates mgr
          ({ mgr with connMap := connMap }.modifyShmConn c fun record =>
            { record with ntmConn := ntmConn }) := by
        intro connMap ntmConn
        have htable : Update mgr { mgr with connMap := connMap } := .tables rfl rfl rfl rfl rfl
        refine .head htable (.single (.record _ c ?_))
        exact fun _ => rfl
      exact hconn _ _
    · cases h

theorem allocateSourcePort_update {i : ℕ} {port : Option ℕ}
    (h : mgr.allocateSourcePort i = some (port, mgr')) : Update mgr mgr' := by
  rw [allocateSourcePort] at h
  split at h
  · split at h
    · cases h
    · cases h
      exact .tables rfl rfl rfl rfl rfl
  · cases h
    exact .tables rfl rfl rfl rfl rfl

/-- The ways through `handle_msg_nts_connect`: the request is refused, no connection can be opened,
or a `NT_SYN` goes out unless TCP does not send. -/
theorem handleMsgNtsConnect_paths
    (h : mgr.handleMsgNtsConnect tcp msg uninitialised = some (mgr', out)) :
    ∃ c, mgr.ntsShmConnMap msg.sockid = some c ∧
      ((∃ ntErrno, mgr.connectRefuse msg c uninitialised ntErrno = some (mgr', out)) ∨
        (mgr.socket (mgr.shmConns c).socket).state ≠ .established ∧
          ((mgr.cacheServer msg c).ntsShmSend c
              (connectResponse msg (some .remoteNtmNotFound) none) = some mgr' ∧ out = [] ∨
            ∃ ntmConn mgr₁ port mgr₂,
              (mgr.cacheServer msg c).remoteMonitor tcp c = some (ntmConn, mgr₁) ∧
              mgr₁.allocateSourcePort (mgr.shmConns c).socket = some (port, mgr₂) ∧
              ((∃ syn, syn = mgr₂.syn msg (mgr.shmConns c).socket ntmConn ∧ out = [syn] ∧
                  mgr₂.ntsShmSend c (connectResponse msg none (some (ntohs syn.sport).toNat)) =
                    some mgr') ∨
                tcp.sends = false ∧ mgr' = mgr₂.connectFail (mgr.shmConns c).socket port ∧
                  out = []))) := by
  simp only [handleMsgNtsConnect] at h
  split at h
  · cases h
  case h_2 c hrecord =>
    refine ⟨c, hrecord, ?_⟩
    split at h
    · exact .inl ⟨_, h⟩
    case isFalse hstate =>
      split at h
      · exact .inl ⟨_, h⟩
      · split at h
        · exact .inl ⟨_, h⟩
        · right
          refine ⟨fun heq => hstate (by rw [heq]; decide), ?_⟩
          split at h
          · obtain ⟨mgr₁, hsend, heq⟩ := Option.map_eq_some_iff.mp h
            cases heq
            exact .inl ⟨hsend, rfl⟩
          case h_2 ntmConn mgr₁ hremote =>
            right
            split at h
            · cases h
            case h_2 port mgr₂ hport =>
              refine ⟨ntmConn, mgr₁, port, mgr₂, hremote, hport, ?_⟩
              split at h
              · obtain ⟨mgr₃, hsend, heq⟩ := Option.map_eq_some_iff.mp h
                cases heq
                exact .inl ⟨_, rfl, rfl, hsend⟩
              case isFalse hsends =>
                cases h
                exact .inr ⟨Bool.eq_false_iff.mpr hsends, rfl, rfl⟩

theorem handleMsgNtsConnect_updates
    (h : mgr.handleMsgNtsConnect tcp msg uninitialised = some (mgr', out)) : Updates mgr mgr' := by
  obtain ⟨c, -, ⟨ntErrno, hrefuse⟩ | ⟨-, ⟨hsend, -⟩ | ⟨ntmConn, mgr₁, port, mgr₂, hremote, hport,
    hend⟩⟩⟩ := handleMsgNtsConnect_paths h
  · exact connectRefuse_updates hrefuse
  · exact .head (cacheServer_update mgr msg c) (.single (.send (.refused msg _) hsend))
  · have hready : Updates mgr mgr₂ := .head (cacheServer_update mgr msg c)
      ((remoteMonitor_updates hremote).tail (allocateSourcePort_update hport))
    rcases hend with ⟨syn, -, -, hsend⟩ | ⟨-, rfl, -⟩
    · exact hready.tail (.send (.dispatched msg _) hsend)
    · exact hready.tail (connectFail_update mgr₂ _ _)

theorem eq_some_of_silent {handled : Option NtmManager}
    (h : (handled.map fun mgr => (mgr, ([] : List NtmSockMsg))) = some (mgr', out)) :
    handled = some mgr' := by
  obtain ⟨mgr₁, hhandled, heq⟩ := Option.map_eq_some_iff.mp h
  cases heq
  exact hhandled

theorem ntsShmHandleMsg_updates {request : NtsRequest}
    (h : mgr.ntsShmHandleMsg request = some (mgr', out)) : Updates mgr mgr' := by
  cases request with
  | connect tcp uninitialised msg => exact handleMsgNtsConnect_updates h
  | fin tcp msg =>
    have hupdates := handleMsgNtsFin_updates mgr tcp msg
    rw [Option.some.inj h] at hupdates
    exact hupdates
  | newSock msgId sockType shmAddrlen => exact handleMsgNtsNewSocket_updates (eq_some_of_silent h)
  | bind msg => exact handleMsgNtsBind_updates (eq_some_of_silent h)
  | listen msgId sockid backlog => exact handleMsgNtsListen_updates (eq_some_of_silent h)
  | acceptAck sockid shmAddrlen => exact handleMsgNtsAcceptAck_updates (eq_some_of_silent h)
  | close msgId sockid => exact handleMsgNtsClose_updates (eq_some_of_silent h)

end NtmManager

end Ntm

end NtSocks
