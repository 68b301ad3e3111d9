import NtSocks.AcceptPairing
import NtSocks.ShmConnFrames

/-!
# The calls of an application

The library keeps a context for every socket. A call sends a request to the monitor of its host and
waits in the ring of the socket for the response; `nts_connect` and `nts_accept` wait for a message
of the handshake as well, and `nts_close` of an established socket waits for the end of the close
protocol. The request of a call is handled before another step is taken, and what a call does after
it has waited is a step of its own.
-/

namespace NtSocks.Ntm

def NtsRequest.opens : NtsRequest → Bool
  | .newSock _ _ _ => true
  | _ => false

inductive Serves : NtmManager → NtmManager → Prop
  | idle (mgr : NtmManager) : Serves mgr mgr
  | backlog (mgr : NtmManager) (w : ℕ) (backlog : NtBacklogContext) :
      Serves mgr (mgr.setBacklog w backlog)
  | request {mgr mgr' : NtmManager} {request : NtsRequest} {out : List NtmSockMsg}
      (hopens : request.opens = false) (h : mgr.ntsShmHandleMsg request = some (mgr', out)) :
      Serves mgr mgr'
  | message {h h' : Host} {shmAccept : String → Bool} {ntmConn : NtmConn} {msg : NtmSockMsg}
      {out : List NtmSockMsg}
      (hhandle : h.ntmSockHandleMsg shmAccept ntmConn msg = some (h', out)) : Serves h.ntm h'.ntm

theorem Serves.updates {mgr mgr' : NtmManager} (h : Serves mgr mgr') : Updates mgr mgr' := by
  cases h with
  | idle => exact .refl
  | backlog w backlog => exact .single (.tables rfl rfl rfl rfl rfl)
  | request _ h => exact NtmManager.ntsShmHandleMsg_updates h
  | message hhandle => exact Host.ntmSockHandleMsg_updates hhandle

end NtSocks.Ntm

namespace NtSocks.Nts

open NtSocks.Ntm Function

inductive Awaits
  | bind
  | listen
  | dispatched
  | establish
  | clientSynAck (entry : NtBacklogSock)
  | close
  deriving DecidableEq, Repr

/-- The context of a socket. `ring` is the record of the monitor at the other end of its ring,
`received` is the number of messages taken from it, and `awaits` is what the call in progress waits
for. The state `WAIT_FIN` has the number of the state `WAIT_ESTABLISHED` of the monitor. -/
structure NtSockContext where
  socktype : ℤ
  state : SocketState
  ntmMsgId : ℕ
  ring : Option ℕ
  received : ℕ
  awaits : Option Awaits
  deriving DecidableEq, Repr

/-- The contexts by socket id. A socket leaves the map when `nts_close` is called; `closing` lists
those whose call waits for the monitor. -/
structure NtSockLib where
  ntSockMap : ℤ → Option NtSockContext
  closing : List NtSockContext

def NtSockLib.put (lib : NtSockLib) (sockid : ℤ) (ctx : NtSockContext) : NtSockLib :=
  { lib with ntSockMap := update lib.ntSockMap sockid (some ctx) }

def NtSockLib.remove (lib : NtSockLib) (sockid : ℤ) : NtSockLib :=
  { lib with ntSockMap := update lib.ntSockMap sockid none }

structure Address where
  port : UInt16
  addr : UInt32
  strlen : ℕ
  deriving DecidableEq, Repr

def ntsShmlen : ℤ := 44

/-- Two hosts with the libraries of their applications. `fins` counts the messages
`NTP_NTS_MSG_FIN` on the way to a host. -/
structure SocketSystem where
  net : Net
  lib : Side → NtSockLib
  fins : Side → ℕ

/-- `resume` and `resumeClose` go on with a call that has waited. `readFin` is a call of `nts_read`
that finds the end of its connection. The values of fields that a message leaves unassigned are
arguments: `retval` of the response to `NTM_MSG_NEW_SOCK`, and all of `NTM_MSG_FIN` but the socket
id. -/
inductive Call
  | socket (type retval : ℤ)
  | bind (sockid : ℤ) (addr : Address)
  | listen (sockid backlog : ℤ)
  | connect (sockid : ℤ) (addr : Address) (tcp : Tcp) (uninitialised : Option ℕ)
  | accept (sockid : ℤ)
  | resume (sockid : ℤ)
  | close (sockid : ℤ)
  | resumeClose (k : ℕ)
  | readFin (sockid : ℤ) (tcp : Tcp) (unassigned : NtmMsg)

inductive SocketAct
  | call (side : Side) (call : Call)
  | deliver (side : Side)

def SocketAct.opens (side : Side) : SocketAct → Bool
  | .call side' (.socket _ _) => side' = side
  | _ => false

namespace NtSockContext

variable (ctx : NtSockContext)

/-- The context after the message that its call has waited for, unless the call is `nts_accept` or
`nts_close`. -/
def receive (msg : NtsMsg) : NtSockContext :=
  let failed := { ctx with received := ctx.received + 1, awaits := none }
  let answers := msg.msgId = some ctx.ntmMsgId ∧ msg.retval ≠ some (-1)
  match ctx.awaits with
  | some .bind =>
    if answers then { failed with state := .bound, ntmMsgId := ctx.ntmMsgId + 1 } else failed
  | some .listen =>
    if answers then
      { failed with
        state := .listening
        socktype := ntSockListener
        ntmMsgId := ctx.ntmMsgId + 1 }
    else failed
  | some .dispatched =>
    if answers ∧ msg.msgType = .dispatched then { failed with awaits := some .establish }
    else failed
  | some .establish =>
    if msg.retval ≠ some (-1) ∧ msg.msgType = .establish then
      { failed with state := .established }
    else failed
  | _ => failed

def ofBacklog (entry : NtBacklogSock) : NtSockContext where
  socktype := entry.socktype
  state := entry.state
  ntmMsgId := 1
  ring := none
  received := 0
  awaits := none

end NtSockContext

namespace SocketSystem

variable (s : SocketSystem) (side : Side)

def ntm : NtmManager := (s.net.host side).ntm

def setLib (lib : NtSockLib) : SocketSystem := { s with lib := update s.lib side lib }

def put (sockid : ℤ) (ctx : NtSockContext) : SocketSystem :=
  s.setLib side ((s.lib side).put sockid ctx)

def setNtm (ntm : NtmManager) (out : List NtmSockMsg) : SocketSystem :=
  { s with net := s.net.update side { s.net.host side with ntm := ntm } out }

def request (request : NtsRequest) : Option SocketSystem :=
  ((s.ntm side).ntsShmHandleMsg request).map fun (ntm, out) => s.setNtm side ntm out

def requestOf (sockid : ℤ) (ctx : NtSockContext) (awaits : Awaits) (request : NtsRequest) :
    Option SocketSystem :=
  (s.request side request).map fun s => s.put side sockid { ctx with awaits := some awaits }

def incoming (ctx : NtSockContext) : Option NtsMsg :=
  ctx.ring.bind fun c => ((s.ntm side).sentTo c)[ctx.received]?

/-- A call asserts that the id is not negative, and returns `-1` for a socket that the library does
not have. Calls on a socket are made one after the other. -/
def onSocket (sockid : ℤ) (f : NtSockContext → Option SocketSystem) : Option SocketSystem :=
  if sockid < 0 then none
  else
    match (s.lib side).ntSockMap sockid with
    | none => some s
    | some ctx => if ctx.awaits.isSome then none else f ctx

/-- The response is the first message in the ring of the new record. -/
def ntsSocket (type retval : ℤ) : Option SocketSystem :=
  (s.request side (.newSock 1 type ntsShmlen)).map fun s' =>
    match (s'.ntm side).sentTo (s.ntm side).nextShmConn with
    | [] => s'
    | msg :: _ =>
      if msg.msgId = some 1 ∧ retval ≠ -1 then
        s'.put side msg.sockid
          { socktype := type
            state := .closed
            ntmMsgId := 2
            ring := some (s.ntm side).nextShmConn
            received := 1
            awaits := none }
      else s'

def addressMsg (sockid : ℤ) (ctx : NtSockContext) (addr : Address) : NtmMsg where
  msgId := ctx.ntmMsgId
  sockid := sockid
  addrlen := addr.strlen + 1
  port := addr.port.toNat
  address := addr.addr

def ntsBind (sockid : ℤ) (addr : Address) : Option SocketSystem :=
  s.onSocket side sockid fun ctx =>
    if ctx.state ≠ .closed then some s
    else s.requestOf side sockid ctx .bind (.bind (addressMsg sockid ctx addr))

/-- The backlog is asserted to be positive. -/
def ntsListen (sockid backlog : ℤ) : Option SocketSystem :=
  if backlog ≤ 0 then none
  else
    s.onSocket side sockid fun ctx =>
      if ctx.state ≠ .bound then some s
      else s.requestOf side sockid ctx .listen (.listen ctx.ntmMsgId sockid backlog)

def ntsConnect (sockid : ℤ) (addr : Address) (tcp : Tcp) (uninitialised : Option ℕ) :
    Option SocketSystem :=
  s.onSocket side sockid fun ctx =>
    if ctx.state ≠ .closed then some s
    else
      s.requestOf side sockid ctx .dispatched
        (.connect tcp uninitialised (addressMsg sockid ctx addr))

/-- `nts_accept` up to the message that it waits for. The socket is popped from the backlog that the
monitor has for the record of the listener. -/
def ntsAccept (sockid : ℤ) : Option SocketSystem :=
  s.onSocket side sockid fun ctx =>
    if ctx.socktype ≠ ntSockListener ∨ ctx.state ≠ .listening then some s
    else
      ctx.ring.bind fun w =>
        (((s.ntm side).wrappers w).backlogCtx.backlogPop).map fun (entry, backlog) =>
          ((s.setNtm side ((s.ntm side).setBacklog w backlog) []).put side entry.sockid
            (.ofBacklog entry)).put side sockid { ctx with awaits := some (.clientSynAck entry) }

/-- The accepted socket is established, and the monitor is told its ring. -/
def acceptClient (entry : NtBacklogSock) : Option SocketSystem :=
  (s.request side (.acceptAck entry.sockid ntsShmlen)).map fun s =>
    let ring := (s.ntm side).ntsShmConnMap entry.sockid
    s.put side entry.sockid
      { NtSockContext.ofBacklog entry with
        state := .established
        ring := ring
        received := ring.elim 0 fun c => ((s.ntm side).sentTo c).length }

/-- Goes on with the call on a socket when its message is there. The context of a socket that is
not accepted is freed, and its entry in the map, which stays, is not used again here. -/
def resume (sockid : ℤ) : Option SocketSystem :=
  ((s.lib side).ntSockMap sockid).bind fun ctx =>
    (s.incoming side ctx).bind fun msg =>
      let s := s.put side sockid (ctx.receive msg)
      match ctx.awaits with
      | none | some .close => none
      | some (.clientSynAck entry) =>
        match ntsAcceptId entry msg with
        | some _ => s.acceptClient side entry
        | none => some (s.setLib side ((s.lib side).remove entry.sockid))
      | some _ => some s

def awaitClose (sockid : ℤ) (ctx : NtSockContext) : SocketSystem :=
  let lib := (s.lib side).remove sockid
  s.setLib side
    { lib with
      closing := lib.closing ++ [{ ctx with state := .waitEstablished, awaits := some .close }] }

/-- A socket that neither listens nor is established is given up by the library alone. An
established one sends a `FIN` over its connection, and waits for the monitor. -/
def ntsClose (sockid : ℤ) : Option SocketSystem :=
  s.onSocket side sockid fun ctx =>
    if ctx.socktype ≠ ntSockListener ∧ ctx.state ≠ .established then
      some (s.setLib side ((s.lib side).remove sockid))
    else if ctx.socktype = ntSockListener ∧ ctx.state = .listening then
      (s.request side (.close ctx.ntmMsgId sockid)).map fun s => s.awaitClose side sockid ctx
    else if ctx.state = .established then
      some { s.awaitClose side sockid ctx with
        fins := update s.fins side.peer (s.fins side.peer + 1) }
    else none

def resumeClose (k : ℕ) : Option SocketSystem :=
  ((s.lib side).closing[k]?).bind fun ctx =>
    (s.incoming side ctx).map fun _ =>
      let lib := s.lib side
      s.setLib side { lib with closing := lib.closing.eraseIdx k }

/-- Which established socket a `FIN` belongs to is left open. -/
def readFin (sockid : ℤ) (tcp : Tcp) (unassigned : NtmMsg) : Option SocketSystem :=
  if s.fins side = 0 then none
  else
    s.onSocket side sockid fun ctx =>
      if ctx.state ≠ .established then some s
      else
        (s.request side (.fin tcp { unassigned with sockid := sockid })).map fun s =>
          { s.put side sockid { ctx with state := .closed } with
            fins := update s.fins side (s.fins side - 1) }

def call : Call → Option SocketSystem
  | .socket type retval => s.ntsSocket side type retval
  | .bind sockid addr => s.ntsBind side sockid addr
  | .listen sockid backlog => s.ntsListen side sockid backlog
  | .connect sockid addr tcp uninitialised => s.ntsConnect side sockid addr tcp uninitialised
  | .accept sockid => s.ntsAccept side sockid
  | .resume sockid => s.resume side sockid
  | .close sockid => s.ntsClose side sockid
  | .resumeClose k => s.resumeClose side k
  | .readFin sockid tcp unassigned => s.readFin side sockid tcp unassigned

def step : SocketAct → Option SocketSystem
  | .call side call => s.call side call
  | .deliver side => (s.net.step (.deliver side)).map fun net => { s with net := net }

def AllClosed : Prop :=
  ∀ side, (∀ sockid, (s.lib side).ntSockMap sockid = none) ∧ (s.lib side).closing = []

def Quiet : Prop := ∀ side, s.net.inbox side = [] ∧ s.fins side = 0

variable {s side} {s' : SocketSystem} {a : SocketAct} {sockid : ℤ} {awaits : Awaits}
  {request : NtsRequest}

theorem setNtm_serves {ntm : NtmManager} {out : List NtmSockMsg} (h : Serves (s.ntm side) ntm)
    (side' : Side) : Serves (s.ntm side') ((s.setNtm side ntm out).ntm side') := by
  rcases side.eq_or_eq_peer side' with rfl | rfl
  · have hself : (s.setNtm side' ntm out).ntm side' = ntm := congrArg Host.ntm Net.update_host_self
    rw [hself]
    exact h
  · have hpeer : (s.setNtm side ntm out).ntm side.peer = s.ntm side.peer :=
      congrArg Host.ntm Net.update_host_peer
    rw [hpeer]
    exact .idle _

theorem request_serves (hopens : request.opens = false) (h : s.request side request = some s')
    (side' : Side) : Serves (s.ntm side') (s'.ntm side') := by
  obtain ⟨⟨ntm, out⟩, hhandle, rfl⟩ := Option.map_eq_some_iff.mp h
  exact setNtm_serves (.request hopens hhandle) side'

theorem requestOf_serves {ctx : NtSockContext} (hopens : request.opens = false)
    (h : s.requestOf side sockid ctx awaits request = some s') (side' : Side) :
    Serves (s.ntm side') (s'.ntm side') := by
  obtain ⟨s₁, hrequest, rfl⟩ := Option.map_eq_some_iff.mp h
  exact request_serves hopens hrequest side'

theorem onSocket_serves {f : NtSockContext → Option SocketSystem} {side' : Side}
    (h : s.onSocket side sockid f = some s')
    (hf : ∀ ctx, f ctx = some s' → Serves (s.ntm side') (s'.ntm side')) :
    Serves (s.ntm side') (s'.ntm side') := by
  rw [onSocket] at h
  split at h
  · cases h
  · split at h
    · cases h
      exact .idle _
    · split at h
      · cases h
      · exact hf _ h

theorem ntsAccept_serves (h : s.ntsAccept side sockid = some s') (side' : Side) :
    Serves (s.ntm side') (s'.ntm side') := by
  refine onSocket_serves h fun ctx hcall => ?_
  split at hcall
  · cases hcall
    exact .idle _
  · obtain ⟨w, -, hpop⟩ := Option.bind_eq_some_iff.mp hcall
    obtain ⟨⟨entry, backlog⟩, -, rfl⟩ := Option.map_eq_some_iff.mp hpop
    exact setNtm_serves (.backlog _ w backlog) side'

theorem resume_serves (h : s.resume side sockid = some s') (side' : Side) :
    Serves (s.ntm side') (s'.ntm side') := by
  obtain ⟨ctx, -, h⟩ := Option.bind_eq_some_iff.mp h
  obtain ⟨msg, -, h⟩ := Option.bind_eq_some_iff.mp h
  dsimp only at h
  split at h
  · cases h
  · cases h
  · split at h
    · obtain ⟨s₁, hrequest, rfl⟩ := Option.map_eq_some_iff.mp h
      exact request_serves (s := s.put side sockid _) rfl hrequest side'
    · cases h
      exact .idle _
  · cases h
    exact .idle _

theorem ntsClose_serves (h : s.ntsClose side sockid = some s') (side' : Side) :
    Serves (s.ntm side') (s'.ntm side') := by
  refine onSocket_serves h fun ctx hcall => ?_
  split at hcall
  · cases hcall
    exact .idle _
  · split at hcall
    · obtain ⟨s₁, hrequest, rfl⟩ := Option.map_eq_some_iff.mp hcall
      exact request_serves rfl hrequest side'
    · split at hcall
      · cases hcall
        exact .idle _
      · cases hcall

theorem readFin_serves {tcp : Tcp} {unassigned : NtmMsg}
    (h : s.readFin side sockid tcp unassigned = some s') (side' : Side) :
    Serves (s.ntm side') (s'.ntm side') := by
  rw [readFin] at h
  split at h
  · cases h
  · refine onSocket_serves h fun ctx hcall => ?_
    split at hcall
    · cases hcall
      exact .idle _
    · obtain ⟨s₁, hrequest, rfl⟩ := Option.map_eq_some_iff.mp hcall
      exact request_serves rfl hrequest side'

theorem requestOf_or_idle {P : NtSockContext → Prop} [DecidablePred P]
    {request : NtSockContext → NtsRequest} (hopens : ∀ ctx, (request ctx).opens = false)
    (h : (s.onSocket side sockid fun ctx =>
      if P ctx then some s else s.requestOf side sockid ctx awaits (request ctx)) = some s')
    (side' : Side) : Serves (s.ntm side') (s'.ntm side') := by
  refine onSocket_serves h fun ctx hcall => ?_
  split at hcall
  · cases hcall
    exact .idle _
  · exact requestOf_serves (hopens ctx) hcall side'

theorem ntsSocket_opens {type retval : ℤ} (h : s.ntsSocket side type retval = some s') :
    (s.ntm side).handleMsgNtsNewSocket 1 type ntsShmlen = some (s'.ntm side) ∧
      s'.ntm side.peer = s.ntm side.peer := by
  obtain ⟨s₁, hrequest, heq⟩ := Option.map_eq_some_iff.mp h
  obtain ⟨⟨ntm, out⟩, hhandle, rfl⟩ := Option.map_eq_some_iff.mp hrequest
  obtain ⟨ntm', hnew, hntm⟩ := Option.map_eq_some_iff.mp hhandle
  cases hntm
  have hself : (s.setNtm side ntm []).ntm side = ntm := congrArg Host.ntm Net.update_host_self
  have hpeer : (s.setNtm side ntm []).ntm side.peer = s.ntm side.peer :=
    congrArg Host.ntm Net.update_host_peer
  have hsame : s'.ntm = (s.setNtm side ntm []).ntm := by
    rw [← heq]
    split
    · rfl
    · split <;> rfl
  rw [hsame, hself, hpeer]
  exact ⟨hnew, rfl⟩

theorem step_serves (hopens : a.opens side = false) (h : s.step a = some s') :
    Serves (s.ntm side) (s'.ntm side) := by
  cases a with
  | call side' c =>
    cases c with
    | socket type retval =>
      have hne : side' ≠ side := of_decide_eq_false hopens
      obtain rfl := (side'.eq_or_eq_peer side).resolve_left hne.symm
      rw [(ntsSocket_opens h).2]
      exact .idle _
    | bind sockid addr => exact requestOf_or_idle (fun _ => rfl) h side
    | listen sockid backlog =>
      rw [step, call, ntsListen] at h
      split at h
      · cases h
      · exact requestOf_or_idle (fun _ => rfl) h side
    | connect sockid addr tcp uninitialised => exact requestOf_or_idle (fun _ => rfl) h side
    | accept sockid => exact ntsAccept_serves h side
    | resume sockid => exact resume_serves h side
    | close sockid => exact ntsClose_serves h side
    | resumeClose k =>
      obtain ⟨ctx, -, hclose⟩ := Option.bind_eq_some_iff.mp h
      obtain ⟨msg, -, rfl⟩ := Option.map_eq_some_iff.mp hclose
      exact .idle _
    | readFin sockid tcp unassigned => exact readFin_serves h side
  | deliver side' =>
    obtain ⟨net, hnet, rfl⟩ := Option.map_eq_some_iff.mp h
    obtain ⟨msg, msgs, host, out, -, hhandle, hmoved⟩ := Net.step_deliver_cases hnet
    rcases side'.eq_or_eq_peer side with rfl | rfl
    · change Serves (s.net.host side).ntm (net.host side).ntm
      rw [hmoved.self]
      exact .message hhandle
    · change Serves (s.net.host side'.peer).ntm (net.host side'.peer).ntm
      rw [hmoved.peer]
      exact .idle _

theorem step_opens (hopens : a.opens side = true) (h : s.step a = some s') :
    ∃ type, (s.ntm side).handleMsgNtsNewSocket 1 type ntsShmlen = some (s'.ntm side) := by
  cases a with
  | call side' c =>
    cases c with
    | socket type retval =>
      obtain rfl : side' = side := of_decide_eq_true hopens
      exact ⟨type, (ntsSocket_opens h).1⟩
    | _ => cases hopens
  | deliver side' => cases hopens

theorem step_updates (h : s.step a = some s') (side : Side) :
    Updates (s.ntm side) (s'.ntm side) := by
  cases hopens : a.opens side with
  | false => exact (step_serves hopens h).updates
  | true =>
    obtain ⟨type, hnew⟩ := step_opens hopens h
    exact NtmManager.handleMsgNtsNewSocket_updates hnew

end SocketSystem

end NtSocks.Nts
