import NtSocks.Handshake
import NtSocks.ShmConnFrames

/-!
# Every request to connect is answered

A request to connect is refused with the return value `-1`, or it is dispatched and its socket is
told later that the connection stands. The refusals that the monitor of the listener sends are only
logged by the monitor that asked, and a proxy that cannot create a connection leaves its monitor
waiting.
-/

namespace NtSocks.Ntm

open NtSocks.Ntm.NtSockContext (sockid)

/-- A handled request to connect: the record of its socket, the number of messages that its library
had been sent before, and the source port of its `NT_SYN`, where one went out. -/
structure HandledConnect where
  side : Side
  record : ℕ
  before : ℕ
  sport : Option UInt16

/-- `stuck` tells on which side the thread that receives messages waits for its proxy for ever. -/
structure Session where
  net : Net
  connects : List HandledConnect
  stuck : Side → Bool

inductive SessionAct
  | request (side : Side) (request : NtsRequest)
  | deliver (side : Side)

def Answered (msgs : List NtsMsg) : Prop :=
  (∃ msg ∈ msgs, msg.retval = some (-1)) ∨
    ∃ dispatched establish, [dispatched, establish].Sublist msgs ∧
      dispatched.msgType = .dispatched ∧ establish.msgType = .establish

theorem Answered.mono {msgs msgs' : List NtsMsg} (h : Answered msgs) (hle : msgs <+: msgs') :
    Answered msgs' := by
  rcases h with ⟨msg, hmem, hret⟩ | ⟨dispatched, establish, hsub, htypes⟩
  · exact Or.inl ⟨msg, hle.subset hmem, hret⟩
  · exact Or.inr ⟨dispatched, establish, hsub.trans hle.sublist, htypes⟩

theorem Net.Moved.extends {net net' : Net} {side : Side} {host : Host} {msgs out : List NtmSockMsg}
    (h : net.Moved net' side host msgs out) (hhost : Extends (net.host side).ntm host.ntm)
    (side' : Side) : Extends (net.host side').ntm (net'.host side').ntm := by
  rcases side.eq_or_eq_peer side' with rfl | rfl
  · rw [h.self]
    exact hhost
  · rw [h.peer]
    exact Extends.refl _

namespace Session

variable (s : Session)

def logged (side : Side) (ntm : NtmManager) (out : List NtmSockMsg) :
    NtsRequest → List HandledConnect
  | .connect _ _ msg =>
    (ntm.ntsShmConnMap msg.sockid).toList.map fun c =>
      { side := side
        record := c
        before := (ntm.sentTo c).length
        sport := out.head?.map NtmSockMsg.sport }
  | _ => []

def step : SessionAct → Option Session
  | .request side request =>
    let h := s.net.host side
    (h.ntm.ntsShmHandleMsg request).map fun (ntm, out) =>
      { s with
        net := s.net.update side { h with ntm := ntm } out
        connects := s.connects ++ logged side h.ntm out request }
  | .deliver side =>
    match s.stuck side, s.net.inbox side with
    | false, msg :: msgs =>
      match (s.net.host side).waitsForNtp (s.net.shmAccept side) msg with
      | none => (s.net.step (.deliver side)).map fun net => { s with net := net }
      | some host =>
        let rest := { s.net with inbox := Function.update s.net.inbox side msgs }
        some { s with
          net := rest.update side host []
          stuck := Function.update s.stuck side true }
    | _, _ => none

def received (k : HandledConnect) : List NtsMsg :=
  ((s.net.host k.side).ntm.sentTo k.record).drop k.before

def Quiet : Prop := ∀ side, s.net.inbox side = []

/-- The condition on a step. TCP sends the `NT_SYN` of a request; a `NT_SYN` finds its listener
listening and with room in its backlog; the proxy can create the rings for it and for a
`NT_SYN_ACK`; and the port of a `NT_SYN_ACK` still leads to the record of every request that waits
for it. -/
def Served (s : Session) : SessionAct → Prop
  | .request _ (.connect tcp _ _) => tcp.sends = true
  | .request _ _ => True
  | .deliver side => ∀ msg msgs, s.net.inbox side = msg :: msgs →
      (msg.type = .ntSyn → ∃ w, (s.net.host side).ntm.findBacklog msg = .ok w) ∧
      (msg.type = .ntSyn ∨ msg.type = .ntSynAck → s.net.Creates side msg) ∧
      (msg.type = .ntSynAck → ∀ k ∈ s.connects, k.side = side → k.sport = some msg.dport →
        ¬ Answered (s.received k) →
          ∃ i, (s.net.host side).ntm.portSockMap (ntohs msg.dport).toNat = some i ∧
            (s.net.host side).ntm.ntsShmConnMap (sockid i) = some k.record)

/-- The request was dispatched, and its `NT_SYN` or the answer to it is under way. -/
def Waits (k : HandledConnect) : Prop :=
  (∃ dispatched ∈ s.received k, dispatched.msgType = .dispatched) ∧ ∃ sport, k.sport = some sport ∧
      ((∃ syn ∈ s.net.inbox k.side.peer, syn.type = .ntSyn ∧ syn.sport = sport) ∨
        ∃ ack ∈ s.net.inbox k.side, ack.type = .ntSynAck ∧ ack.dport = sport)

structure Inv : Prop where
  bounded : ∀ side, (s.net.host side).ntm.Bounded
  records : ∀ k ∈ s.connects, k.record < (s.net.host k.side).ntm.nextShmConn
  waiting : ∀ k ∈ s.connects, Answered (s.received k) ∨ s.Waits k

variable {s} {s' : Session} {out : List NtmSockMsg} {act : SessionAct} {side : Side}
  {k : HandledConnect}

theorem Inv.answered (h : s.Inv) (hquiet : s.Quiet) (hk : k ∈ s.connects) :
    Answered (s.received k) := by
  refine (h.waiting k hk).resolve_right ?_
  rintro ⟨-, sport, -, ⟨syn, hsyn, -⟩ | ⟨ack, hack, -⟩⟩
  · rw [hquiet] at hsyn
    cases hsyn
  · rw [hquiet] at hack
    cases hack

theorem step_deliver_cases (h : s.step (.deliver side) = some s') :
    ∃ msg msgs host out, s.net.inbox side = msg :: msgs ∧ s.net.Moved s'.net side host msgs out ∧
      s'.connects = s.connects ∧
      ((s.net.host side).ntmSockHandleMsg (s.net.shmAccept side) (s.net.ntmConn side) msg =
          some (host, out) ∨
        (s.net.host side).waitsForNtp (s.net.shmAccept side) msg = some host ∧ out = []) := by
  simp only [step] at h
  split at h
  case h_1 msg msgs hstuck hinbox =>
    split at h
    · obtain ⟨net, hnet, rfl⟩ := Option.map_eq_some_iff.mp h
      obtain ⟨msg, msgs, host, out, hinbox, hhandle, hmoved⟩ := Net.step_deliver_cases hnet
      exact ⟨msg, msgs, host, out, hinbox, hmoved, rfl, .inl hhandle⟩
    case h_2 host hwaits =>
      cases h
      exact ⟨msg, msgs, host, [], hinbox, s.net.take_moved side msgs host [], rfl,
        .inr ⟨hwaits, rfl⟩⟩
  · cases h

theorem step_request_cases {request : NtsRequest} (h : s.step (.request side request) = some s') :
    ∃ ntm out, (s.net.host side).ntm.ntsShmHandleMsg request = some (ntm, out) ∧
      s.net.Moved s'.net side { s.net.host side with ntm := ntm } (s.net.inbox side) out ∧
      s'.connects = s.connects ++ logged side (s.net.host side).ntm out request := by
  obtain ⟨⟨ntm, out⟩, hhandle, rfl⟩ := Option.map_eq_some_iff.mp h
  exact ⟨ntm, out, hhandle, s.net.update_moved side _ out, rfl⟩

theorem step_extends (h : s.step act = some s') (side : Side) :
    Extends (s.net.host side).ntm (s'.net.host side).ntm := by
  cases act with
  | request side' request =>
    obtain ⟨ntm, out, hhandle, hmoved, -⟩ := step_request_cases h
    exact hmoved.extends (NtmManager.ntsShmHandleMsg_updates hhandle).extends side
  | deliver side' =>
    obtain ⟨msg, msgs, host, out, -, hmoved, -, hhandle | ⟨hwaits, -⟩⟩ := step_deliver_cases h
    · exact hmoved.extends (Host.ntmSockHandleMsg_updates hhandle).extends side
    · exact hmoved.extends (Host.waitsForNtp_updates hwaits).extends side

theorem run_extends {acts : List SessionAct} (h : Runs.run step s acts = some s') (side : Side) :
    Extends (s.net.host side).ntm (s'.net.host side).ntm :=
  Runs.invariant (I := fun t => Extends (s.net.host side).ntm (t.net.host side).ntm)
    (fun _ _ _ hext hstep => hext.trans (step_extends hstep side)) (Extends.refl _) h

theorem received_mono (hstep : ∀ side, Extends (s.net.host side).ntm (s'.net.host side).ntm)
    (hk : k.record < (s.net.host k.side).ntm.nextShmConn) :
    s.received k <+: s'.received k := ((hstep k.side).sent k.record hk).drop k.before

theorem Waits.mono (h : s.Waits k) (hreceived : s.received k <+: s'.received k)
    (hinbox : ∀ side, s.net.inbox side ⊆ s'.net.inbox side) : s'.Waits k := by
  obtain ⟨⟨dispatched, hmem, hdispatched⟩, sport, hsport, hway⟩ := h
  refine ⟨⟨dispatched, hreceived.subset hmem, hdispatched⟩, sport, hsport, ?_⟩
  rcases hway with ⟨syn, hsyn, htype, heq⟩ | ⟨ack, hack, htype, heq⟩
  · exact Or.inl ⟨syn, hinbox _ hsyn, htype, heq⟩
  · exact Or.inr ⟨ack, hinbox _ hack, htype, heq⟩

theorem logged_waiting {request : NtsRequest} {ntm : NtmManager}
    (hbounded : (s.net.host side).ntm.Bounded) (hserved : s.Served (.request side request))
    (hhandle : (s.net.host side).ntm.ntsShmHandleMsg request = some (ntm, out))
    (hhost : (s'.net.host side).ntm = ntm) (hinbox : ∀ msg ∈ out, msg ∈ s'.net.inbox side.peer)
    (hk : k ∈ logged side (s.net.host side).ntm out request) :
    k.side = side ∧ k.record < (s.net.host side).ntm.nextShmConn ∧
      (Answered (s'.received k) ∨ s'.Waits k) := by
  cases request with
  | connect tcp uninitialised msg =>
    obtain ⟨c, hrecord, hcases⟩ := NtmManager.handleMsgNtsConnect_cases hbounded hhandle
    simp only [logged, hrecord, Option.toList_some, List.map_cons, List.map_nil,
      List.mem_singleton] at hk
    subst hk
    refine ⟨rfl, hbounded _ c hrecord, ?_⟩
    have hnew : ∀ reply, NtmManager.NewlySent (s.net.host side).ntm ntm c reply →
        reply ∈ s'.received ⟨side, c, ((s.net.host side).ntm.sentTo c).length,
          out.head?.map NtmSockMsg.sport⟩ := by
      rintro reply ⟨more, hmore, hreply⟩
      rw [received, hhost, hmore, List.drop_left]
      exact hreply
    rcases hcases with ⟨reply, hsent, hret⟩ | ⟨reply, syn, hsent, hdispatched, rfl, htype⟩ | htcp
    · exact Or.inl (Or.inl ⟨reply, hnew reply hsent, hret⟩)
    · exact Or.inr ⟨⟨reply, hnew reply hsent, hdispatched⟩, syn.sport, rfl,
        Or.inl ⟨syn, hinbox syn (List.mem_singleton_self syn), htype, rfl⟩⟩
    · rw [Served, htcp] at hserved
      cases hserved
  | newSock | bind | listen | acceptAck | close | fin => cases hk

theorem Inv.request {request : NtsRequest} (h : s.Inv) (hserved : s.Served (.request side request))
    (hstep : s.step (.request side request) = some s') : s'.Inv := by
  obtain ⟨ntm, out, hhandle, hmoved, hconnects⟩ := step_request_cases hstep
  have hhosts := step_extends hstep
  have hinbox : ∀ side', s.net.inbox side' ⊆ s'.net.inbox side' := by
    intro side'
    rcases side.eq_or_eq_peer side' with rfl | rfl
    · rw [hmoved.left]
      exact List.Subset.refl _
    · rw [hmoved.sent]
      exact List.subset_append_left _ _
  have hout : ∀ msg ∈ out, msg ∈ s'.net.inbox side.peer := by
    rw [hmoved.sent]
    exact fun msg hmem => List.mem_append_right _ hmem
  have hnew : ∀ k ∈ logged side (s.net.host side).ntm out request, _ := fun k =>
    logged_waiting (h.bounded side) hserved hhandle (congrArg Host.ntm hmoved.self) hout
  refine ⟨fun side' => (hhosts side').bounded (h.bounded side'), ?_, ?_⟩
  · intro k hk
    rcases List.mem_append.mp (hconnects ▸ hk) with hold | hlast
    · exact (h.records k hold).trans_le (hhosts k.side).next
    · obtain ⟨rfl, hrecord, -⟩ := hnew k hlast
      exact hrecord.trans_le (hhosts k.side).next
  · intro k hk
    rcases List.mem_append.mp (hconnects ▸ hk) with hold | hlast
    · have hreceived := received_mono hhosts (h.records k hold)
      rcases h.waiting k hold with hanswered | hwaits
      · exact Or.inl (hanswered.mono hreceived)
      · exact Or.inr (hwaits.mono hreceived hinbox)
    · exact (hnew k hlast).2.2

theorem answered_of_established {i : ℕ}
    (hdispatched : ∃ dispatched ∈ s.received k, dispatched.msgType = .dispatched)
    (hsent : NtmManager.NewlySent (s.net.host k.side).ntm (s'.net.host k.side).ntm k.record
      (NtmManager.established i)) : Answered (s'.received k) := by
  obtain ⟨dispatched, hmem, htype⟩ := hdispatched
  obtain ⟨more, hmore, hestablished⟩ := hsent
  -- something was sent after the request, so the log did not shrink below its start
  have hbefore : k.before ≤ ((s.net.host k.side).ntm.sentTo k.record).length := by
    by_contra hlt
    rw [received, List.drop_eq_nil_of_le (by omega)] at hmem
    cases hmem
  have hreceived : s'.received k = s.received k ++ more := by
    rw [received, hmore, List.drop_append_of_le_length hbefore]
    rfl
  refine Or.inr ⟨dispatched, NtmManager.established i, ?_, htype, rfl⟩
  rw [hreceived]
  exact (List.singleton_sublist.mpr hmem).append (List.singleton_sublist.mpr hestablished)

theorem Waits.deliver {msg : NtmSockMsg} {msgs : List NtmSockMsg} {host : Host} (hwaits : s.Waits k)
    (hk : k ∈ s.connects) (hanswered : ¬ Answered (s.received k))
    (hserved : s.Served (.deliver side)) (hinbox : s.net.inbox side = msg :: msgs)
    (hhandle : (s.net.host side).ntmSockHandleMsg (s.net.shmAccept side) (s.net.ntmConn side) msg =
      some (host, out)) (hmoved : s.net.Moved s'.net side host msgs out)
    (hreceived : s.received k <+: s'.received k) : Answered (s'.received k) ∨ s'.Waits k := by
  obtain ⟨hfind, -, hroute⟩ := hserved msg msgs hinbox
  obtain ⟨hdispatched, sport, hsport, hway⟩ := hwaits
  have hdispatched' : ∃ dispatched ∈ s'.received k, dispatched.msgType = .dispatched :=
    hdispatched.imp fun _ => And.imp_left fun hmem => hreceived.subset hmem
  have hkept : ∀ m ∈ s.net.inbox side.peer, m ∈ s'.net.inbox side.peer := by
    rw [hmoved.sent]
    exact fun m hmem => List.mem_append_left _ hmem
  have hleft : ∀ m ∈ s.net.inbox side, m = msg ∨ m ∈ s'.net.inbox side := by
    rw [hinbox, hmoved.left]
    exact fun m hmem => List.mem_cons.mp hmem
  rcases side.eq_or_eq_peer k.side with hside | hside
  · subst hside
    rcases hway with ⟨syn, hsyn, htype, heq⟩ | ⟨ack, hack, htype, heq⟩
    · exact Or.inr ⟨hdispatched', sport, hsport, Or.inl ⟨syn, hkept syn hsyn, htype, heq⟩⟩
    · rcases hleft ack hack with rfl | hack'
      · obtain ⟨i, hport, hrecord⟩ := hroute htype k hk rfl (heq ▸ hsport) hanswered
        rw [Host.ntmSockHandleMsg, htype] at hhandle
        obtain ⟨hnone, -⟩ | ⟨_, _, hport', -, hentered, -⟩ :=
          Host.handleNtSynAckMsg_cases hhandle
        · cases hnone.symm.trans hport
        cases hport'.symm.trans hport
        have hsent := hentered.newlySent hrecord
        rw [← hmoved.self] at hsent
        exact Or.inl (answered_of_established hdispatched hsent)
      · exact Or.inr ⟨hdispatched', sport, hsport, Or.inr ⟨ack, hack', htype, heq⟩⟩
  · have hpeer : k.side.peer = side := by rw [hside, Side.peer_peer]
    refine Or.inr ⟨hdispatched', sport, hsport, ?_⟩
    rw [hpeer, hside] at hway ⊢
    rcases hway with ⟨syn, hsyn, htype, heq⟩ | ⟨ack, hack, htype, heq⟩
    · rcases hleft syn hsyn with rfl | hsyn'
      · obtain ⟨w, hw⟩ := hfind htype
        rw [Host.ntmSockHandleMsg, htype] at hhandle
        rcases Host.handleNtSynMsg_cases hhandle with
          ⟨type, herror, -⟩ | ⟨pending, reply, -, -, -, rfl⟩
        · rw [hw] at herror
          cases herror
        · refine Or.inr ⟨NtmManager.synAck syn pending reply, ?_, rfl, heq⟩
          rw [hmoved.sent]
          exact List.mem_append_right _ (List.mem_singleton_self _)
      · exact Or.inl ⟨syn, hsyn', htype, heq⟩
    · exact Or.inr ⟨ack, hkept ack hack, htype, heq⟩

theorem Inv.deliver (h : s.Inv) (hserved : s.Served (.deliver side))
    (hstep : s.step (.deliver side) = some s') : s'.Inv := by
  obtain ⟨msg, msgs, host, out, hinbox, hmoved, hconnects, hend⟩ := step_deliver_cases hstep
  have hhandle := hend.resolve_right fun hwaits => by
    rw [Net.waitsForNtp_eq_none (hserved msg msgs hinbox).2.1] at hwaits
    cases hwaits.1
  have hhosts := step_extends hstep
  refine ⟨fun side' => (hhosts side').bounded (h.bounded side'), ?_, ?_⟩ <;> rw [hconnects]
  · exact fun k hk => (h.records k hk).trans_le (hhosts k.side).next
  intro k hk
  have hreceived := received_mono hhosts (h.records k hk)
  by_cases hanswered : Answered (s.received k)
  · exact Or.inl (hanswered.mono hreceived)
  · exact ((h.waiting k hk).resolve_left hanswered).deliver hk hanswered hserved hinbox
      hhandle hmoved hreceived

theorem Inv.step (h : s.Inv) (hserved : s.Served act) (hstep : s.step act = some s') : s'.Inv := by
  cases act with
  | request side request => exact h.request hserved hstep
  | deliver side => exact h.deliver hserved hstep

section Sample

def sampleSession : Session where
  net := sampleNet samplePorts samplePorts
  connects := []
  stuck := fun _ => false

theorem sampleSession_bounded (side : Side) : (sampleSession.net.host side).ntm.Bounded := by
  intro id c hrecord
  change (if id = 1 then some 0 else if id = 2 then some 1 else none) = some c at hrecord
  change c < 2
  grind

def sampleConnect : List SessionAct :=
  [.request .left (.connect sampleTcp none sampleRequest), .deliver .right, .deliver .left,
    .deliver .right]

theorem sampleConnect_served : Runs.Along step Served sampleSession sampleConnect := by
  refine ⟨rfl, fun s₁ hs₁ => ⟨?_, fun s₂ hs₂ => ⟨?_, fun s₃ hs₃ => ⟨?_, fun _ _ => trivial⟩⟩⟩⟩
  · cases hs₁
    intro msg msgs hinbox
    cases hinbox
    exact ⟨fun _ => ⟨0, rfl⟩, fun _ => ⟨rfl, rfl⟩, fun hack => (by cases hack)⟩
  · cases hs₁
    cases hs₂
    intro msg msgs hinbox
    cases hinbox
    refine ⟨fun hsyn => (by cases hsyn), fun _ => ⟨rfl, rfl⟩, fun _ k hk _ _ _ => ?_⟩
    cases List.mem_singleton.mp hk
    exact ⟨0, rfl, rfl⟩
  · cases hs₁
    cases hs₂
    cases hs₃
    intro msg msgs hinbox
    cases hinbox
    exact ⟨fun hsyn => (by cases hsyn), fun h => (by rcases h with h | h <;> cases h),
      fun hack => (by cases hack)⟩

theorem not_answered_of_dispatched {msgs : List NtsMsg}
    (h : msgs.map (fun msg => (msg.msgType, msg.retval)) = [(.dispatched, some 0)]) :
    ¬ Answered msgs := by
  rintro (⟨msg, hmem, hret⟩ | ⟨dispatched, establish, hsub, -⟩)
  · have hpair := List.mem_map_of_mem (f := fun msg : NtsMsg => (msg.msgType, msg.retval)) hmem
    rw [h, List.mem_singleton, hret] at hpair
    have hretval : some (-1 : ℤ) = some 0 := congrArg Prod.snd hpair
    exact absurd hretval (by decide)
  · have hlength : msgs.length = 1 := by simpa using congrArg List.length h
    have htwo : 2 ≤ 1 := hlength ▸ hsub.length_le
    exact absurd htwo (by decide)

def sampleUnserved : List SessionAct :=
  [.request .left (.connect sampleTcp none { sampleRequest with port := 6 }), .deliver .right,
    .deliver .left]

/-- The proxy of the right host can create no ring. -/
def sampleUncreated : Session :=
  { sampleSession with net := { sampleSession.net with shmAccept := fun side _ => side = .left } }

end Sample

end Session

end NtSocks.Ntm
