import NtSocks.BacklogFifo
import NtSocks.Handshake
import NtSocks.MessageRings

/-!
# Accepting connections

`nts_accept` pops a socket from the backlog of its listener, where the monitor has put it on
`NT_SYN`, and then takes the next message of the listener's ring, where the monitor has put it on
`NT_CLIENT_SYN_ACK`. The two orders agree if the confirmations are handled in the order of the
`NT_SYN` messages. The ring has room for 15 messages, and one that it has no room for is lost.
-/

namespace NtSocks.Ntm

open NtSocks.Ntm.NtSockContext (sockid)

/-- The monitor of a listener and the library that accepts from it. `received` counts the messages
of the listener's ring that the library has taken, and `popped` is the socket of a call that waits
for its message. `results` lists the popped socket and the returned id of the calls that have ended,
where `none` is the value `-1`. `pushed` and `acked` list the sockets whose `NT_SYN` and
`NT_CLIENT_SYN_ACK` were handled. -/
structure AcceptSystem where
  host : Host
  received : ℕ
  popped : Option NtBacklogSock
  results : List (ℕ × Option ℕ)
  pushed : List ℤ
  acked : List ℤ

inductive AcceptAct
  | syn (ntmConn : NtmConn) (msg : NtmSockMsg)
  | clientSynAck (msg : NtmSockMsg)
  | pop
  | recv

def ntsAcceptId (entry : NtBacklogSock) (msg : NtsMsg) : Option ℕ :=
  if msg.retval = some (-1) then none
  else if msg.msgType ≠ .clientSynAck then none
  else if msg.sockid ≠ entry.sockid then none
  else some entry.sockid

def synAcked (out : List NtmSockMsg) : List ℤ :=
  (out.filter fun msg => msg.type = .ntSynAck).map NtmSockMsg.sockid

namespace AcceptSystem

variable (shmAccept : String → Bool) (port : UInt16) (w : ℕ) (s : AcceptSystem)

def withManager (ntm : NtmManager) : AcceptSystem := { s with host := { s.host with ntm := ntm } }

def unread : List NtsMsg :=
  ((s.host.ntm.shmConns (s.host.ntm.wrappers w).ntsShmConn).ntsShmCtx.getD []).drop s.received

def hasRoom : Bool := (s.unread w).length < MsgRing.ntsMaxBufs - 1

/-- Only messages to the listener `w` on `port` are considered. The parts of `nts_accept` wait while
there is nothing to pop or to take. -/
def step : AcceptAct → Option AcceptSystem
  | .syn ntmConn msg =>
    if ntohs msg.dport = port then
      (s.host.handleNtSynMsg shmAccept ntmConn msg).map fun (host, out) =>
        { s with host := host, pushed := s.pushed ++ synAcked out }
    else none
  | .clientSynAck msg =>
    if ntohs msg.dport = port then
      (s.host.ntm.handleNtClientSynAckMsg msg (s.hasRoom w)).map fun (ntm, _) =>
        { s.withManager ntm with acked := s.acked ++ [msg.sockid] }
    else none
  | .pop =>
    match s.popped, (s.host.ntm.wrappers w).backlogCtx.backlogPop with
    | none, some (entry, backlog) =>
      some { s.withManager (s.host.ntm.setBacklog w backlog) with popped := some entry }
    | _, _ => none
  | .recv =>
    match s.popped, s.unread w with
    | some entry, msg :: _ =>
      some { s with
        received := s.received + 1
        popped := none
        results := s.results ++ [(entry.sockid, ntsAcceptId entry msg)] }
    | _, _ => none

def ended : List ℤ := s.results.map fun result => (result.1 : ℤ)

/-- Every call has returned the socket that it popped, and a confirmed socket that no call has
popped and confirmed yet still waits in both queues. -/
structure Paired : Prop where
  returned : ∀ result ∈ s.results, result.2 = some result.1
  kept : ∀ id ∈ s.acked, id ∈ s.ended ∨ NtmManager.ntsClientSynAck id ∈ s.unread w ∧
      ((∃ entry, s.popped = some entry ∧ (entry.sockid : ℤ) = id) ∨
        ∃ q, (s.host.ntm.wrappers w).backlogCtx.Holds q ∧ ∃ entry ∈ q, (entry.sockid : ℤ) = id)

/-- A confirmation is for the oldest socket that is not confirmed, and the ring has room for it. -/
def InOrder : AcceptAct → Prop
  | .clientSynAck msg => s.pushed[s.acked.length]? = some msg.sockid ∧ s.hasRoom w = true
  | _ => True

end AcceptSystem

/-- The listener `w` on `port` is in place: its socket is no free one and none of the accepted ones.
-/
structure Listening (mgr : NtmManager) (port : UInt16) (w : ℕ) : Prop where
  listener : mgr.listenerMap port.toNat = some w
  state : (mgr.socket (mgr.wrappers w).socket).state = .listening
  free : ∃ es, mgr.ntSockCtx.freeNtsock.Holds es ∧ (mgr.wrappers w).socket ∉ es
  accepted : ∀ id i, (mgr.wrappers w).acceptedConnMap id = some i → i ≠ (mgr.wrappers w).socket
  record : (mgr.wrappers w).ntsShmConn < mgr.nextShmConn

namespace Listening

variable {mgr mgr' : NtmManager} {msg : NtmSockMsg} {port : UInt16} {w : ℕ}

theorem findListener (h : Listening mgr port w) : mgr.findListener port.toNat = .ok w := by
  rw [NtmManager.findListener, h.listener]
  exact if_neg (not_not.mpr h.state)

theorem synAccepted {ntmConn : NtmConn} {msg : NtmSockMsg} {j q : ℕ} (h : Listening mgr port w)
    (hsyn : SynAccepted mgr mgr' ntmConn msg ⟨j, q, w⟩) : Listening mgr' port w := by
  obtain ⟨es, hes, hmem⟩ := h.free
  obtain ⟨es, rfl⟩ : ∃ es', es = j :: es' := by
    have hfirst := hes.first_eq.symm.trans hsyn.first
    cases es with
    | nil => cases hfirst
    | cons i es => exact ⟨es, by rw [Option.some.inj hfirst]⟩
  have hne : (mgr.wrappers w).socket ≠ j := fun heq => hmem (heq ▸ List.mem_cons_self)
  refine ⟨?_, ?_, ⟨es, ?_, ?_⟩, ?_, ?_⟩
  · rw [hsyn.listeners]
    exact h.listener
  · rw [hsyn.socket, hsyn.sockets _ hne]
    exact h.state
  · rw [hsyn.free]
    exact hes.remove_head
  · rw [hsyn.socket]
    exact fun hin => hmem (List.mem_cons_of_mem j hin)
  · rw [hsyn.socket, hsyn.accepted]
    refine (Function.forall_update_iff _ fun _ i => ∀ k, i = some k → k ≠ _).mpr
      ⟨?_, fun id _ => h.accepted id⟩
    rintro _ ⟨⟩
    exact hne.symm
  · rw [hsyn.record, hsyn.next]
    exact h.record.trans (Nat.lt_succ_self _)

theorem confirmed {id : ℤ} {i c : ℕ} (h : Listening mgr port w)
    (hi : (mgr.wrappers w).acceptedConnMap id = some i) (ring : List NtsMsg) :
    Listening ((mgr.setState i .established).setRing c ring) port w where
  listener := h.listener
  state := by
    change ((mgr.setState i .established).socket (mgr.wrappers w).socket).state = .listening
    rw [NtmManager.setState, NtmManager.modifySocket_of_ne mgr (h.accepted id i hi).symm]
    exact h.state
  free := h.free
  accepted := h.accepted
  record := h.record

theorem setBacklog (h : Listening mgr port w) (backlog : NtBacklogContext) :
    Listening (mgr.setBacklog w backlog) port w := by
  have hself : (mgr.setBacklog w backlog).wrappers w =
      { mgr.wrappers w with backlogCtx := backlog } := mgr.modifyWrapper_self w _
  refine ⟨h.listener, ?_, ?_, ?_, ?_⟩ <;> rw [hself]
  · exact h.state
  · exact h.free
  · exact h.accepted
  · exact h.record

end Listening

namespace AcceptSystem

variable {shmAccept : String → Bool} {port : UInt16} {w : ℕ} {s s' : AcceptSystem}

/-- The two queues hold the sockets of the calls to come: `socks` those of the popped entry and of
the backlog, and `acks`, the first of them, those of the messages. -/
structure Queues (w : ℕ) (s : AcceptSystem) (ring : List NtsMsg) (q : List NtBacklogSock)
    (acks socks : List ℤ) : Prop where
  ring_eq : (s.host.ntm.shmConns (s.host.ntm.wrappers w).ntsShmConn).ntsShmCtx = some ring
  received : s.received ≤ ring.length
  unread : ring.drop s.received = acks.map NtmManager.ntsClientSynAck
  backlog : (s.host.ntm.wrappers w).backlogCtx.Holds q
  waiting : socks = (s.popped.toList ++ q).map fun entry => (entry.sockid : ℤ)
  acked : s.acked = s.ended ++ acks
  pushed : s.pushed = s.ended ++ socks
  inOrder : acks <+: socks

structure Inv (port : UInt16) (w : ℕ) (s : AcceptSystem) : Prop where
  listening : Listening s.host.ntm port w
  queues : ∃ ring q acks socks, Queues w s ring q acks socks
  returned : ∀ result ∈ s.results, result.2 = some result.1

theorem Queues.unread_eq {ring : List NtsMsg} {q : List NtBacklogSock} {acks socks : List ℤ}
    (h : Queues w s ring q acks socks) : s.unread w = acks.map NtmManager.ntsClientSynAck := by
  rw [AcceptSystem.unread, h.ring_eq, Option.getD_some, h.unread]

theorem Inv.paired (h : s.Inv port w) : s.Paired w := by
  obtain ⟨ring, q, acks, socks, hq⟩ := h.queues
  refine ⟨h.returned, fun id hid => ?_⟩
  rw [hq.acked, List.mem_append] at hid
  refine hid.imp_right fun hack => ⟨?_, ?_⟩
  · rw [hq.unread_eq]
    exact List.mem_map_of_mem hack
  · have hsock := hq.inOrder.subset hack
    rw [hq.waiting, List.mem_map] at hsock
    obtain ⟨entry, hentry, rfl⟩ := hsock
    rcases List.mem_append.mp hentry with hpopped | hwait
    · exact Or.inl ⟨entry, Option.mem_toList.mp hpopped, rfl⟩
    · exact Or.inr ⟨q, hq.backlog, entry, hwait, rfl⟩

theorem Inv.syn {ntmConn : NtmConn} {msg : NtmSockMsg} (h : s.Inv port w)
    (hstep : s.step shmAccept port w (.syn ntmConn msg) = some s') : s'.Inv port w := by
  simp only [step] at hstep
  split at hstep
  case isTrue hport =>
    obtain ⟨⟨host, out⟩, hhandle, rfl⟩ := Option.map_eq_some_iff.mp hstep
    rcases Host.handleNtSynMsg_cases hhandle with
      ⟨type, hfind, rfl, rfl⟩ | ⟨⟨j, p, w'⟩, reply, hfind, -, hsyn, rfl⟩
    · have hnone : synAcked [answer msg type] = [] := by
        simp [synAcked, answer, NtmManager.findBacklog_refuses hfind]
      simp only [hnone, List.append_nil]
      exact h
    · have hlistener := NtmManager.findBacklog_listener hfind
      rw [hport, h.listening.listener, Option.some_inj] at hlistener
      subst hlistener
      obtain ⟨ring, q, acks, socks, hq⟩ := h.queues
      refine ⟨h.listening.synAccepted hsyn, ⟨ring,
        q ++ [NtBacklogContext.entryOf (sockid j) (host.ntm.socket j)], acks,
        socks ++ [(sockid j : ℤ)], ?_⟩, h.returned⟩
      refine ⟨?_, hq.received, hq.unread, hq.backlog.push hsyn.backlog, ?_, hq.acked, ?_, ?_⟩
      · rw [hsyn.record, hsyn.conns _ h.listening.record]
        exact hq.ring_eq
      · simp [hq.waiting, NtBacklogContext.entryOf]
      · change s.pushed ++ [(sockid j : ℤ)] = s.ended ++ (socks ++ [(sockid j : ℤ)])
        rw [hq.pushed, List.append_assoc]
      · exact hq.inOrder.trans (List.prefix_append _ _)
  · cases hstep

theorem Inv.clientSynAck {msg : NtmSockMsg} (h : s.Inv port w)
    (horder : s.InOrder w (.clientSynAck msg))
    (hstep : s.step shmAccept port w (.clientSynAck msg) = some s') : s'.Inv port w := by
  simp only [step] at hstep
  split at hstep
  case isTrue hport =>
    obtain ⟨⟨ntm, out⟩, hhandle, rfl⟩ := Option.map_eq_some_iff.mp hstep
    obtain ⟨ring, q, acks, socks, hq⟩ := h.queues
    rw [NtmManager.handleNtClientSynAckMsg, hport, h.listening.findListener] at hhandle
    split at hhandle
    · cases hhandle
    · dsimp only at hhandle
      split at hhandle
      · cases hhandle
      case h_2 i hi =>
        rw [horder.2, NtmManager.ntsShmTrySend, if_pos rfl,
          NtmManager.ntsShmSend_eq (s.host.ntm.setState i .established) hq.ring_eq] at hhandle
        cases hhandle
        refine ⟨h.listening.confirmed hi _, ⟨ring ++ [NtmManager.ntsClientSynAck msg.sockid], q,
          acks ++ [msg.sockid], socks, ?_⟩, h.returned⟩
        refine ⟨NtmManager.setRing_ntsShmCtx _ _ _, ?_, ?_, hq.backlog, hq.waiting, ?_,
          hq.pushed, ?_⟩
        · exact hq.received.trans (by rw [List.length_append]; exact Nat.le_add_right _ _)
        · change (ring ++ [NtmManager.ntsClientSynAck msg.sockid]).drop s.received = _
          rw [List.drop_append_of_le_length hq.received, hq.unread, List.map_append]
          rfl
        · change s.acked ++ [msg.sockid] = s.ended ++ (acks ++ [msg.sockid])
          rw [hq.acked, List.append_assoc]
        · -- the confirmation is for the socket after those confirmed before
          have hnext : socks[acks.length]? = some msg.sockid := by
            have hfirst := horder.1
            rwa [hq.acked, hq.pushed, List.length_append,
              List.getElem?_append_right (Nat.le_add_right _ _), Nat.add_sub_cancel_left]
              at hfirst
          obtain ⟨rest, rfl⟩ := hq.inOrder
          rw [List.getElem?_append_right le_rfl, Nat.sub_self] at hnext
          obtain ⟨rest, rfl⟩ := List.head?_eq_some_iff.mp (List.head?_eq_getElem? ▸ hnext)
          exact ⟨rest, by rw [List.append_assoc]; rfl⟩
  · cases hstep

theorem Inv.pop (h : s.Inv port w) (hstep : s.step shmAccept port w .pop = some s') :
    s'.Inv port w := by
  obtain ⟨ring, q, acks, socks, hq⟩ := h.queues
  simp only [step] at hstep
  split at hstep
  case h_1 entry backlog hpopped hpop =>
    cases hstep
    obtain ⟨q, rfl, hbacklog⟩ := hq.backlog.pop hpop
    have hself : ((s.host.ntm.setBacklog w backlog).wrappers w) =
        { s.host.ntm.wrappers w with backlogCtx := backlog } :=
      s.host.ntm.modifyWrapper_self w _
    refine ⟨h.listening.setBacklog backlog, ⟨ring, q, acks, socks, ?_⟩, h.returned⟩
    refine ⟨?_, hq.received, hq.unread, ?_, ?_, hq.acked, hq.pushed, hq.inOrder⟩
    · change ((s.host.ntm.setBacklog w backlog).shmConns
        ((s.host.ntm.setBacklog w backlog).wrappers w).ntsShmConn).ntsShmCtx = some ring
      rw [hself]
      exact hq.ring_eq
    · change ((s.host.ntm.setBacklog w backlog).wrappers w).backlogCtx.Holds q
      rw [hself]
      exact hbacklog
    · rw [hq.waiting, hpopped]
      rfl
  · cases hstep

theorem ntsAcceptId_own (entry : NtBacklogSock) :
    ntsAcceptId entry (NtmManager.ntsClientSynAck entry.sockid) = some entry.sockid := by
  simp [ntsAcceptId, NtmManager.ntsClientSynAck]

theorem Inv.recv (h : s.Inv port w) (hstep : s.step shmAccept port w .recv = some s') :
    s'.Inv port w := by
  obtain ⟨ring, q, acks, socks, hq⟩ := h.queues
  simp only [step] at hstep
  split at hstep
  case h_1 entry msg rest hpopped hunread =>
    cases hstep
    rw [hq.unread_eq] at hunread
    obtain ⟨ack, acks, rfl, rfl, hrest⟩ := List.map_eq_cons_iff.mp hunread
    have hwaiting := hq.waiting
    rw [hpopped] at hwaiting
    obtain ⟨socks, rfl⟩ : ∃ socks', socks = (entry.sockid : ℤ) :: socks' := ⟨_, hwaiting⟩
    obtain ⟨rfl, hprefix⟩ := List.cons_prefix_cons.mp hq.inOrder
    have hended : ∀ r, (s.results ++ [(entry.sockid, r)]).map
        (fun result : ℕ × Option ℕ => (result.1 : ℤ)) = s.ended ++ [(entry.sockid : ℤ)] :=
      fun r => List.map_append
    refine ⟨h.listening, ⟨ring, q, acks, socks, ?_⟩, ?_⟩
    · refine ⟨hq.ring_eq, ?_, ?_, hq.backlog, ?_, ?_, ?_, hprefix⟩
      · have hlength := congrArg List.length hq.unread
        rw [List.length_drop, List.length_map, List.length_cons] at hlength
        change s.received + 1 ≤ ring.length
        omega
      · change ring.drop (s.received + 1) = _
        rw [← List.drop_drop, hq.unread]
        rfl
      · exact (List.cons.inj hwaiting).2
      · change s.acked = List.map _ _ ++ acks
        rw [hended, hq.acked, List.append_assoc]
        rfl
      · change s.pushed = List.map _ _ ++ socks
        rw [hended, hq.pushed, List.append_assoc]
        rfl
    · exact List.forall_mem_append.mpr
        ⟨h.returned, List.forall_mem_singleton.mpr (ntsAcceptId_own entry)⟩
  · cases hstep

theorem Inv.step {a : AcceptAct} (h : s.Inv port w) (horder : s.InOrder w a)
    (hstep : s.step shmAccept port w a = some s') : s'.Inv port w := by
  cases a with
  | syn ntmConn msg => exact h.syn hstep
  | clientSynAck msg => exact h.clientSynAck horder hstep
  | pop => exact h.pop hstep
  | recv => exact h.recv hstep

/-- A listener to which no connection was made: its backlog is empty, and the library has taken all
messages of its ring. -/
structure Fresh (port : UInt16) (w : ℕ) (s : AcceptSystem) : Prop where
  listening : Listening s.host.ntm port w
  ring : ∃ ring, (s.host.ntm.shmConns (s.host.ntm.wrappers w).ntsShmConn).ntsShmCtx = some ring ∧
    s.received = ring.length
  backlog : (s.host.ntm.wrappers w).backlogCtx.writeIndex = 0 ∧
    (s.host.ntm.wrappers w).backlogCtx.readIndex = 0
  idle : s.popped = none ∧ s.results = [] ∧ s.pushed = [] ∧ s.acked = []

theorem Fresh.inv (h : s.Fresh port w) : s.Inv port w := by
  obtain ⟨ring, hring, hreceived⟩ := h.ring
  obtain ⟨hpopped, hresults, hpushed, hacked⟩ := h.idle
  have hended : s.ended = [] := by rw [ended, hresults, List.map_nil]
  refine ⟨h.listening, ⟨ring, [], [], [], ?_⟩, ?_⟩
  · refine ⟨hring, hreceived.le, ?_, .empty h.backlog.1 h.backlog.2, ?_, ?_, ?_, List.nil_prefix⟩
    · rw [hreceived, List.drop_length, List.map_nil]
    · rw [hpopped]
      rfl
    · rw [hacked, hended]
      rfl
    · rw [hpushed, hended]
      rfl
  · rw [hresults]
    exact fun _ hmem => absurd hmem List.not_mem_nil

/-- In every run from a fresh listener, with any number of connections and whatever happens between
the parts of a call: if each handled `NT_CLIENT_SYN_ACK` is for the oldest socket in the backlog's
order that is not confirmed yet, and the listener's ring has room for its message, then every call
of `nts_accept` returns the socket it has popped, and no confirmed socket is lost. -/
theorem accept_paired {as : List AcceptAct} (hfresh : s.Fresh port w)
    (horder : Runs.Along (step shmAccept port w) (InOrder w) s as)
    (hrun : Runs.run (step shmAccept port w) s as = some s') : s'.Paired w :=
  (Runs.invariant_of_along (I := Inv port w) (fun _ _ _ hinv hin hstep => hinv.step hin hstep)
    hfresh.inv horder hrun).paired

section Sample

def sampleAccept : AcceptSystem where
  host := { ntm := sampleListener, ntp := sampleLink }
  received := 0
  popped := none
  results := []
  pushed := []
  acked := []

theorem sampleAccept_fresh : sampleAccept.Fresh 5 0 where
  listening :=
    { listener := rfl
      state := rfl
      free := by
        have hholds : (((Tailq.init : Tailq ℕ).insertTail 2).insertTail 3).Holds [2, 3] :=
          (Tailq.init_holds.insertTail (by decide)).insertTail (by decide)
        have hmem : (1 : ℕ) ∉ [2, 3] := by decide
        exact ⟨[2, 3], hholds, hmem⟩
      accepted := fun _ _ hi => by cases hi
      record := Nat.one_lt_two }
  ring := ⟨[], rfl, rfl⟩
  backlog := ⟨rfl, rfl⟩
  idle := ⟨rfl, rfl, rfl, rfl⟩

def sampleSynFrom (port : UInt16) : AcceptAct :=
  .syn { ip := 0, clientSock := 0 }
    { srcAddr := 0
      dstAddr := 0
      sport := htons port
      dport := htons 5
      sockid := 0
      type := .ntSyn
      partitionId := 0 }

def sampleConfirm (sockid : ℤ) : AcceptAct :=
  .clientSynAck
    { srcAddr := 0
      dstAddr := 0
      sport := 0
      dport := htons 5
      sockid := sockid
      type := .ntClientSynAck
      partitionId := 0 }

theorem sampleAccept_inOrder :
    Runs.Along (step (fun _ => true) 5 0) (InOrder 0) sampleAccept
      [sampleSynFrom 3, sampleConfirm 3, .pop, .recv] := by
  refine ⟨trivial, fun s₁ hs₁ => ?_⟩
  cases hs₁
  exact ⟨⟨rfl, rfl⟩, fun _ _ => ⟨trivial, fun _ _ => ⟨trivial, fun _ _ => trivial⟩⟩⟩

theorem accept_paired_one_connection :
    ∃ s', Runs.run (step (fun _ => true) 5 0) sampleAccept
        [sampleSynFrom 3, sampleConfirm 3, .pop, .recv] = some s' ∧
      s'.results = [(3, some 3)] ∧ s'.Paired 0 :=
  ⟨_, rfl, rfl, accept_paired sampleAccept_fresh sampleAccept_inOrder rfl⟩

/-- Two connections, of which the second is confirmed first: the call that pops the socket 3 takes
the message of the socket 4 and fails. -/
theorem confirmed_out_of_order :
    sampleAccept.Fresh 5 0 ∧ ∃ s', Runs.run (step (fun _ => true) 5 0) sampleAccept
        [sampleSynFrom 3, sampleSynFrom 4, sampleConfirm 4, sampleConfirm 3, .pop, .recv] =
          some s' ∧ s'.pushed = [3, 4] ∧ s'.acked = [4, 3] ∧ s'.results = [(3, none)] ∧
      ¬ s'.Paired 0 := by
  refine ⟨sampleAccept_fresh, _, rfl, rfl, rfl, rfl, fun hpaired => ?_⟩
  cases hpaired.returned (3, none) List.mem_cons_self

end Sample

end AcceptSystem

end NtSocks.Ntm
