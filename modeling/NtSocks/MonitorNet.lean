import NtSocks.NtbMonitor

/-!
# Two hosts

Each host runs a monitor and a proxy. The monitors are connected by TCP; a step handles one request
of an application or the oldest message of a monitor's peer to its end.
-/

namespace NtSocks.Ntm

structure Host where
  ntm : NtmManager
  ntp : NtbLinkCustom

namespace Host

variable (shmAccept : String → Bool) (ntmConn : NtmConn) (msg : NtmSockMsg) (h : Host)

def handleNtSynMsg : Option (Host × List NtmSockMsg) :=
  match h.ntm.findBacklog msg with
  | .error type => some (h, [answer msg type])
  | .ok w =>
    match h.ntm.allocateClient msg w with
    | none => none
    | some (pending, ntm) =>
      match h.ntp.ntpCreateConnHandler shmAccept (createConnRequest msg (-1)) with
      | (none, _) => none
      | (some reply, ntp) =>
        let (ntm, out) := ntm.synFinish ntmConn msg pending reply
        some ({ ntm := ntm, ntp := ntp }, out)

def handleNtSynAckMsg : Option (Host × List NtmSockMsg) :=
  if msg.sockid ≤ 0 then none
  else
    match h.ntm.synAckSocket msg with
    | none => some (h, [])
    | some i =>
      match h.ntp.ntpCreateConnHandler shmAccept
          (createConnRequest msg (int8 msg.partitionId.toNat)) with
      | (none, _) => none
      | (some reply, ntp) =>
        (h.ntm.synAckFinish msg i reply).map fun (ntm, out) =>
          ({ ntm := ntm, ntp := ntp }, out)

/-- The request that the handler of a message sends to the proxy, and the tables it has left until
the answer comes. -/
def ntpRequest : Option (NtmManager × NtmNtpMsg) :=
  match msg.type with
  | .ntSyn =>
    match h.ntm.findBacklog msg with
    | .error _ => none
    | .ok w => (h.ntm.allocateClient msg w).map fun (_, ntm) => (ntm, createConnRequest msg (-1))
  | .ntSynAck =>
    if msg.sockid ≤ 0 then none
    else
      (h.ntm.synAckSocket msg).map fun _ =>
        (h.ntm, createConnRequest msg (int8 msg.partitionId.toNat))
  | _ => none

/-- The host on which the handler of a message waits for an answer that does not come. -/
def waitsForNtp : Option Host :=
  (h.ntpRequest msg).bind fun (ntm, request) =>
    match h.ntp.ntpCreateConnHandler shmAccept request with
    | (some _, _) => none
    | (none, ntp) => some { ntm := ntm, ntp := ntp }

def ntmSockHandleMsg : Option (Host × List NtmSockMsg) :=
  match msg.type with
  | .ntSyn => h.handleNtSynMsg shmAccept ntmConn msg
  | .ntSynAck => h.handleNtSynAckMsg shmAccept msg
  | .ntClientSynAck =>
    (h.ntm.handleNtClientSynAckMsg msg true).map fun (ntm, out) => ({ h with ntm := ntm }, out)
  | .ntFinAck => (h.ntm.handleNtFinAckMsg msg).map fun ntm => ({ h with ntm := ntm }, [])
  -- these handlers only log the message
  | .ntInvalidPort | .ntListenerNotFound | .ntListenerNotReady | .ntBacklogIsFull | .ntFin =>
    some (h, [])

end Host

inductive Side
  | left
  | right
  deriving DecidableEq, Repr

def Side.peer : Side → Side
  | .left => .right
  | .right => .left

@[simp] theorem Side.peer_peer (side : Side) : side.peer.peer = side := by cases side <;> rfl

theorem Side.eq_or_eq_peer (side side' : Side) : side' = side ∨ side' = side.peer := by
  cases side <;> cases side' <;> simp [Side.peer]

theorem Side.peer_ne (side : Side) : side.peer ≠ side := by cases side <;> decide

structure Net where
  host : Side → Host
  inbox : Side → List NtmSockMsg
  ntmConn : Side → NtmConn
  shmAccept : Side → String → Bool

inductive NetAct
  | connect (side : Side) (tcp : Tcp) (uninitialised : Option ℕ) (msg : NtmMsg)
  | deliver (side : Side)

namespace Net

variable (net : Net)

/-- The proxy of a side can create the rings that a message of the handshake asks for. -/
def Creates (side : Side) (msg : NtmSockMsg) : Prop :=
  net.shmAccept side (sendShmName (ntohs msg.dport) (ntohs msg.sport)) = true ∧
    net.shmAccept side (recvShmName (ntohs msg.dport) (ntohs msg.sport)) = true

def update (side : Side) (host : Host) (out : List NtmSockMsg) : Net :=
  { net with
    host := Function.update net.host side host
    inbox := Function.update net.inbox side.peer (net.inbox side.peer ++ out) }

def step : NetAct → Option Net
  | .connect side tcp uninitialised msg =>
    let h := net.host side
    (h.ntm.handleMsgNtsConnect tcp msg uninitialised).map fun (ntm, out) =>
      net.update side { h with ntm := ntm } out
  | .deliver side =>
    match net.inbox side with
    | [] => none
    | msg :: msgs =>
      let rest := { net with inbox := Function.update net.inbox side msgs }
      ((net.host side).ntmSockHandleMsg (net.shmAccept side) (net.ntmConn side) msg).map
        fun (host, out) => rest.update side host out

variable {net} {side : Side} {host : Host} {out : List NtmSockMsg} {msg : NtmSockMsg}

@[simp] theorem update_host_self : (net.update side host out).host side = host :=
  Function.update_self side _ net.host

@[simp] theorem update_host_peer : (net.update side host out).host side.peer = net.host side.peer :=
  Function.update_of_ne side.peer_ne _ net.host

@[simp] theorem update_inbox_self : (net.update side host out).inbox side = net.inbox side :=
  Function.update_of_ne side.peer_ne.symm _ net.inbox

@[simp] theorem update_inbox_peer :
    (net.update side host out).inbox side.peer = net.inbox side.peer ++ out :=
  Function.update_self side.peer _ net.inbox

structure Moved (net net' : Net) (side : Side) (host : Host) (msgs out : List NtmSockMsg) :
    Prop where
  self : net'.host side = host
  peer : net'.host side.peer = net.host side.peer
  left : net'.inbox side = msgs
  sent : net'.inbox side.peer = net.inbox side.peer ++ out

theorem update_moved (net : Net) (side : Side) (host : Host) (out : List NtmSockMsg) :
    Moved net (net.update side host out) side host (net.inbox side) out :=
  ⟨update_host_self, update_host_peer, update_inbox_self, update_inbox_peer⟩

theorem take_moved (net : Net) (side : Side) (msgs : List NtmSockMsg) (host : Host)
    (out : List NtmSockMsg) :
    Moved net (update { net with inbox := Function.update net.inbox side msgs } side host out) side
      host msgs out := by
  refine ⟨update_host_self, update_host_peer, ?_, ?_⟩
  · exact update_inbox_self.trans (Function.update_self side _ net.inbox)
  · refine update_inbox_peer.trans (congrArg (· ++ out) ?_)
    exact Function.update_of_ne side.peer_ne _ net.inbox

theorem waitsForNtp_eq_none (h : msg.type = .ntSyn ∨ msg.type = .ntSynAck → net.Creates side msg) :
    (net.host side).waitsForNtp (net.shmAccept side) msg = none := by
  rw [Host.waitsForNtp, Option.bind_eq_none_iff]
  rintro ⟨ntm, request⟩ hrequest
  obtain ⟨htype, partition, rfl⟩ : (msg.type = .ntSyn ∨ msg.type = .ntSynAck) ∧
      ∃ partition, request = createConnRequest msg partition := by
    rw [Host.ntpRequest] at hrequest
    split at hrequest
    case h_1 htype =>
      split at hrequest
      · cases hrequest
      · obtain ⟨_, -, heq⟩ := Option.map_eq_some_iff.mp hrequest
        exact ⟨.inl htype, _, (Prod.mk.inj heq).2.symm⟩
    case h_2 htype =>
      split at hrequest
      · cases hrequest
      · obtain ⟨_, -, heq⟩ := Option.map_eq_some_iff.mp hrequest
        exact ⟨.inr htype, _, (Prod.mk.inj heq).2.symm⟩
    · cases hrequest
  obtain ⟨hsend, hrecv⟩ := h htype
  obtain ⟨_, _, hcreate, -⟩ := @NtbLinkCustom.ntpCreateConnHandler_creates (net.host side).ntp _
    (createConnRequest msg partition) _ _ (by simp [createConnRequest])
    (by simp [createConnRequest]) hsend hrecv
  simp only [hcreate]

theorem step_deliver_cases {net' : Net} (h : net.step (.deliver side) = some net') :
    ∃ msg msgs host out, net.inbox side = msg :: msgs ∧
      (net.host side).ntmSockHandleMsg (net.shmAccept side) (net.ntmConn side) msg =
        some (host, out) ∧ Moved net net' side host msgs out := by
  simp only [step] at h
  split at h
  · cases h
  case h_2 msg msgs hinbox =>
    obtain ⟨⟨host, out⟩, hhandle, rfl⟩ := Option.map_eq_some_iff.mp h
    exact ⟨msg, msgs, host, out, hinbox, hhandle, net.take_moved side msgs host out⟩

theorem step_connect {tcp : Tcp} {uninitialised : Option ℕ} {msg : NtmMsg} {ntm : NtmManager}
    (hself : net.inbox side = []) (hpeer : net.inbox side.peer = [])
    (hhandle : (net.host side).ntm.handleMsgNtsConnect tcp msg uninitialised = some (ntm, out)) :
    ∃ net', net.step (.connect side tcp uninitialised msg) = some net' ∧
      net'.host side = { net.host side with ntm := ntm } ∧
      net'.host side.peer = net.host side.peer ∧ net'.inbox side = [] ∧
      net'.inbox side.peer = out ∧ net'.shmAccept = net.shmAccept ∧
      net'.ntmConn = net.ntmConn := by
  refine ⟨net.update side { net.host side with ntm := ntm } out, ?_, update_host_self,
    update_host_peer, update_inbox_self.trans hself, ?_, rfl, rfl⟩
  · simp only [step, hhandle, Option.map_some]
  · rw [update_inbox_peer, hpeer, List.nil_append]

theorem step_deliver (hself : net.inbox side = [msg]) (hpeer : net.inbox side.peer = [])
    (hhandle : (net.host side).ntmSockHandleMsg (net.shmAccept side) (net.ntmConn side) msg =
      some (host, out)) :
    ∃ net', net.step (.deliver side) = some net' ∧ net'.host side = host ∧
      net'.host side.peer = net.host side.peer ∧ net'.inbox side = [] ∧
      net'.inbox side.peer = out ∧ net'.shmAccept = net.shmAccept ∧
      net'.ntmConn = net.ntmConn := by
  let rest : Net := { net with inbox := Function.update net.inbox side [] }
  have hself' : rest.inbox side = [] := Function.update_self side _ net.inbox
  have hpeer' : rest.inbox side.peer = [] :=
    (Function.update_of_ne side.peer_ne _ net.inbox).trans hpeer
  refine ⟨rest.update side host out, ?_, update_host_self, update_host_peer,
    update_inbox_self.trans hself', ?_, rfl, rfl⟩
  · simp only [step, hself, hhandle, Option.map_some, rest]
  · rw [update_inbox_peer, hpeer', List.nil_append]

end Net

end NtSocks.Ntm
