import NtSocks.CloseProtocol
import NtSocks.LibRequests

/-!
# What the library reads of a response

The monitor builds responses in variables that it does not clear. A response goes through a slot of
the ring of its socket into a variable of the call that waits for it, and the call inspects some of
its fields.
-/

namespace NtSocks

open FieldReader

def NtsMsgType.flag : NtsMsgType → NtsMsgFlag
  | .newSock => .newSock
  | .bind => .bind
  | .listen => .listen
  | .dispatched => .dispatched
  | .establish => .establish
  | .close => .close
  | .clientSynAck => .clientSynAck

def NtErrno.code : NtErrno → ℤ
  | .invalidIp => 11
  | .invalidPort => 12
  | .inusePort => 13
  | .requireClosedFirst => 14
  | .requireBindFirst => 31
  | .requireClosedOrBoundFirst => 50
  | .remoteNtmNotFound => 51

def NtsMsg.assigned (msg : NtsMsg) : NtsField → Option ℤ
  | .msgId => msg.msgId.map fun id => (id : ℤ)
  | .msgType => some msg.msgType.flag.code
  | .sockid => some msg.sockid
  | .retval => msg.retval
  | .ntErrno => msg.ntErrno.map NtErrno.code
  | .port => msg.port
  | .connStatus | .addrlen | .address _ => none

namespace MonitorReply

open Reader (field)
open Ntm.NtmManager (connectResponse)

def check (f : NtsField) (bad : ℤ → Bool) (next : Reader NtsField ℤ (Option ℤ)) :
    Reader NtsField ℤ (Option ℤ) := do
  let v ← field f
  if bad v then return none else next

/-- What the library inspects, and the value that its call goes on with: `none` where it fails.
Here `expected` is the id of the request it sent, or of the socket that `nts_accept` took from the
backlog. -/
def reader (expected : ℤ) : MonitorReply → Reader NtsField ℤ (Option ℤ)
  | .newSock .. =>
    check .msgId (· != expected) <|
    check .retval (· == -1) do
      let sockid ← field .sockid
      return some sockid
  | .bind .. | .listen .. =>
    check .msgId (· != expected) <|
    check .retval (· == -1) <|
    return some 0
  | .refused .. | .dispatched .. =>
    check .msgId (· != expected) <|
    check .retval (· == -1) <|
    check .msgType (· != NtsMsgFlag.dispatched.code) do
      let port ← field .port
      return some port
  | .established .. =>
    check .retval (· == -1) <|
    check .msgType (· != NtsMsgFlag.establish.code) <|
    return some 0
  | .clientSynAck .. =>
    check .retval (· == -1) <|
    check .msgType (· != NtsMsgFlag.clientSynAck.code) <|
    check .sockid (· != expected) <|
    return some expected
  | .closed .. =>
    check .msgId (· != expected) <|
    check .msgType (· != NtsMsgFlag.close.code) <|
    check .retval (· == -1) <|
    return some 0
  | .finAck .. =>
    check .retval (· == -1) <|
    check .msgType (· != NtsMsgFlag.close.code) <|
    return some 0

/-- The library clears its variable before it waits for the end of an established socket, and
nowhere else. -/
def received (reply : MonitorReply) (h : History NtsField ℤ) : NtsField → ℤ :=
  match reply with
  | .finAck _ => ntsReceive reply.msg.assigned { h with element := fun _ => 0 }
  | _ => ntsReceive reply.msg.assigned h

/-- Whatever was in memory before, every field that the library inspects holds a value that the
monitor assigned, and the call of the library goes on in the same way. -/
structure Delivered (reply : MonitorReply) : Prop where
  carried : ∀ expected h, ∀ f ∈ (reply.reader expected).inspected (reply.received h),
    reply.msg.assigned f = some (reply.received h f)
  same : ∀ expected h h', (reply.reader expected).run (reply.received h) =
    (reply.reader expected).run (reply.received h')

def opensOrCloses : MonitorReply → Bool
  | .newSock .. | .closed .. | .finAck .. => true
  | _ => false

theorem flag_mem_copyOrder (type : NtsMsgType) : type.flag ∈ ntsCopyOrder := by
  cases type <;> decide

theorem ntsFields_build (msg : NtsMsg) (memory : NtsField → ℤ) :
    ntsLayout.fields (build msg.assigned memory) =
      .msgId :: .msgType :: ntsBranchFields (build msg.assigned memory) msg.msgType.flag :=
  Layout.fields_of_branch (NtsMsgFlag.branch_copyOrder (flag_mem_copyOrder _))

def known (reply : MonitorReply) : (NtsField → ℤ) → NtsField → Option ℤ :=
  ntsLayout.known reply.msg.assigned

variable {f : NtsField}

theorem known_of_mem (reply : MonitorReply) {memory : NtsField → ℤ} (h : f ∈ .msgId :: .msgType ::
      ntsBranchFields (build reply.msg.assigned memory) reply.msg.msgType.flag) :
    reply.known memory f = reply.msg.assigned f := by
  rw [known, Layout.known, ntsFields_build, if_pos h]

theorem known_congr (reply : MonitorReply) (memory memory' : NtsField → ℤ) :
    reply.known memory = reply.known memory' := by
  have hfields : ∀ type : NtsMsgType, ntsBranchFields (build reply.msg.assigned memory) type.flag =
      ntsBranchFields (build reply.msg.assigned memory') type.flag := by
    intro type
    cases type <;> rfl
  funext f
  rw [known, Layout.known, Layout.known, ntsFields_build, ntsFields_build, hfields]

variable {v : ℤ}

theorem received_of_known (reply : MonitorReply) (h : History NtsField ℤ)
    (hknown : reply.known h.memory f = some v) : reply.received h f = v := by
  unfold received
  split
  · exact ntsMsgcopy_copies.receive_of_known hknown
  · exact ntsMsgcopy_copies.receive_of_known hknown

theorem runKnown_check {known : NtsField → Option ℤ} {bad : ℤ → Bool}
    {next : Reader NtsField ℤ (Option ℤ)} (hf : known f = some v)
    (hnext : bad v = false → ∃ x, next.runKnown known = some x) :
    ∃ x, (check f bad next).runKnown known = some x := by
  rw [check, Reader.runKnown_bind, Reader.runKnown_field, hf, Option.bind_some]
  split
  · exact ⟨none, rfl⟩
  case isFalse hbad => exact hnext (Bool.eq_false_of_not_eq_true hbad)

variable {reply : MonitorReply}

theorem retval_copied (hreply : reply.opensOrCloses = false) (src : NtsField → ℤ) :
    .retval ∈ ntsBranchFields src reply.msg.msgType.flag := by
  cases reply with
  | newSock | closed | finAck => cases hreply
  | bind | listen | established | clientSynAck => exact List.mem_cons_of_mem _ List.mem_cons_self
  | refused | dispatched => exact List.mem_cons_self

/-- What reaches the library is enough for the call that waits. The response to a refused `connect`
has no port, and `nts_connect` does not come to inspect it. -/
theorem runKnown_reader (hreply : reply.opensOrCloses = false) (expected : ℤ)
    (memory : NtsField → ℤ) :
    ∃ x, (reply.reader expected).runKnown (reply.known memory) = some x := by
  have hmsgId : reply.known memory .msgId = reply.msg.msgId.map fun id => (id : ℤ) :=
    reply.known_of_mem List.mem_cons_self
  have hmsgType : reply.known memory .msgType = some reply.msg.msgType.flag.code :=
    reply.known_of_mem (List.mem_cons_of_mem _ List.mem_cons_self)
  have hretval : reply.known memory .retval = reply.msg.retval :=
    reply.known_of_mem (List.mem_cons_of_mem _ (List.mem_cons_of_mem _ (retval_copied hreply _)))
  cases reply with
  | newSock | closed | finAck => cases hreply
  | bind msgId sockid ntErrno | listen msgId sockid ntErrno =>
    exact runKnown_check hmsgId fun _ => runKnown_check hretval fun _ => ⟨_, rfl⟩
  | refused msg ntErrno =>
    exact runKnown_check hmsgId fun _ => runKnown_check hretval fun hok => by cases hok
  | dispatched msg port =>
    have hport : (dispatched msg port).known memory .port = some port :=
      known_of_mem _ (by simp [ntsBranchFields, MonitorReply.msg, connectResponse, NtsMsgType.flag])
    refine runKnown_check hmsgId fun _ => runKnown_check hretval fun _ =>
      runKnown_check hmsgType fun _ => ⟨some port, ?_⟩
    rw [Reader.runKnown_bind, Reader.runKnown_field, hport]
    rfl
  | established i =>
    exact runKnown_check hretval fun _ => runKnown_check hmsgType fun _ => ⟨_, rfl⟩
  | clientSynAck sockid =>
    have hsockid : (clientSynAck sockid).known memory .sockid = some sockid :=
      known_of_mem _ (List.mem_cons_of_mem _ (List.mem_cons_of_mem _ List.mem_cons_self))
    exact runKnown_check hretval fun _ => runKnown_check hmsgType fun _ =>
      runKnown_check hsockid fun _ => ⟨_, rfl⟩

theorem delivered_of_not_opensOrCloses (hreply : reply.opensOrCloses = false) :
    reply.Delivered where
  carried := by
    intro expected h f hf
    obtain ⟨x, hx⟩ := runKnown_reader hreply expected h.memory
    have hknown := (Reader.known_of_runKnown (fun f v => reply.received_of_known h) hx).2 f hf
    exact Layout.assigned_of_known hknown
  same := by
    intro expected h h'
    obtain ⟨x, hx⟩ := runKnown_reader hreply expected h.memory
    have hx' := hx
    rw [reply.known_congr h.memory h'.memory] at hx'
    rw [(Reader.known_of_runKnown (fun f v => reply.received_of_known h) hx).1,
      (Reader.known_of_runKnown (fun f v => reply.received_of_known h') hx').1]

theorem inspected_check (f : NtsField) (bad : ℤ → Bool) (next : Reader NtsField ℤ (Option ℤ))
    (msg : NtsField → ℤ) : (check f bad next).inspected msg =
      f :: if bad (msg f) then [] else next.inspected msg := by
  change f :: Reader.inspected (if bad (msg f) then pure none else next) msg = _
  split
  · rfl
  · rfl

/-- The response to `socket` has no `retval`, and `nts_socket` inspects it. -/
theorem newSock_not_delivered (msgId i : ℕ) : ¬ (newSock msgId i).Delivered := by
  intro hdelivered
  let h : History NtsField ℤ := ⟨fun _ => 0, fun _ => 0, fun _ => 0⟩
  have hid : (newSock msgId i).received h .msgId = msgId :=
    received_of_known _ h (known_of_mem _ List.mem_cons_self)
  have hretval := hdelivered.carried msgId h .retval (by
    rw [reader, inspected_check, hid, inspected_check, bne_self_eq_false]
    exact List.mem_cons_of_mem _ List.mem_cons_self)
  cases hretval

/-- The copy of the response to the `close` of a listener leaves out `retval`. -/
theorem closed_not_delivered (msgId : ℕ) (sockid : ℤ) : ¬ (closed msgId sockid).Delivered := by
  intro hdelivered
  let h : History NtsField ℤ := ⟨fun _ => 0, fun _ => 0, fun _ => 1⟩
  have hid : (closed msgId sockid).received h .msgId = msgId :=
    received_of_known _ h (known_of_mem _ List.mem_cons_self)
  have htype : (closed msgId sockid).received h .msgType = NtsMsgFlag.close.code :=
    received_of_known _ h (known_of_mem _ (List.mem_cons_of_mem _ List.mem_cons_self))
  have hretval := hdelivered.carried msgId h .retval (by
    rw [reader, inspected_check, hid, inspected_check, htype, inspected_check, bne_self_eq_false,
      bne_self_eq_false]
    exact List.mem_cons_of_mem _ (List.mem_cons_of_mem _ List.mem_cons_self))
  have hstale : (closed msgId sockid).received h .retval = 1 := by
    refine ntsReceive_of_notMem ?_ (by decide)
    rw [ntsFields_build]
    simp [ntsBranchFields, msg, Ntm.ntsResponse, NtsMsgType.flag]
  rw [hstale] at hretval
  cases hretval

theorem finAck_not_delivered (i : ℕ) : ¬ (finAck i).Delivered := by
  intro hdelivered
  let h : History NtsField ℤ := ⟨fun _ => 0, fun _ => 0, fun _ => 0⟩
  have hretval := hdelivered.carried 0 h .retval (by
    rw [reader, inspected_check]
    exact List.mem_cons_self)
  cases hretval

theorem delivered_iff (reply : MonitorReply) : reply.Delivered ↔ reply.opensOrCloses = false := by
  constructor
  · intro hdelivered
    cases reply with
    | newSock msgId i => exact absurd hdelivered (newSock_not_delivered msgId i)
    | closed msgId sockid => exact absurd hdelivered (closed_not_delivered msgId sockid)
    | finAck i => exact absurd hdelivered (finAck_not_delivered i)
    | bind | listen | refused | dispatched | established | clientSynAck => rfl
  · exact delivered_of_not_opensOrCloses

end MonitorReply

/-- Control messages carry what their receivers read, except `NTM_MSG_FIN` and the responses to
`socket` and `close`. -/
theorem control_messages_delivered_iff (env : MonitorEnv) :
    (∀ request : LibRequest, request.Delivered env ↔ request.isFin = false) ∧
      ∀ reply : MonitorReply, reply.Delivered ↔ reply.opensOrCloses = false :=
  ⟨LibRequest.delivered_iff env, MonitorReply.delivered_iff⟩

section Sample

open Ntm (sampleTcp)
open Ntm.Connection (sampleEnd)

def sampleEnv : MonitorEnv where
  tcp := sampleTcp
  uninitialised := none
  resources := { shmConnect := true, queueCreate := true, queueInit := true }
  inetAddr := fun _ => 0

def sampleAddress : CString 16 where
  chars := [49, 46, 50, 46, 51, 46, 52]
  nonzero := by simp
  length_lt := by decide

theorem bind_messages_delivered :
    (LibRequest.bind 1 1 5 sampleAddress).Delivered sampleEnv ∧
      (MonitorReply.bind 1 1 none).Delivered :=
  ⟨((control_messages_delivered_iff sampleEnv).1 _).mpr rfl,
    ((control_messages_delivered_iff sampleEnv).2 _).mpr rfl⟩

def filledWith (F : Type) (v : ℤ) : History F ℤ := ⟨fun _ => v, fun _ => v, fun _ => v⟩

def sentForFin (h : History NtmField ℤ) : Option (List NtmSockMsg) :=
  match sampleEnv.ntsShmReader.run (ntmReceive (LibRequest.fin 1).assigned h) with
  | .nts request => ((sampleEnd 3 5).ntsShmHandleMsg request).map Prod.snd
  | _ => none

/-- The same messages are read in two ways: after memory that held `-1`, `nts_close` and
`nts_socket` fail although the monitor has done its part, and after memory that held 0 the monitor
drops the request to end a connection. -/
theorem stale_fields_decide :
    ((MonitorReply.closed 1 1).reader 1).run
        ((MonitorReply.closed 1 1).received (filledWith _ 0)) = some 0 ∧
      ((MonitorReply.closed 1 1).reader 1).run
        ((MonitorReply.closed 1 1).received (filledWith _ (-1))) = none ∧
      ((MonitorReply.newSock 1 0).reader 1).run
        ((MonitorReply.newSock 1 0).received (filledWith _ 0)) = some 1 ∧
      ((MonitorReply.newSock 1 0).reader 1).run
        ((MonitorReply.newSock 1 0).received (filledWith _ (-1))) = none ∧
      sentForFin (filledWith _ 0) = some [] ∧
      (sentForFin (filledWith _ 1)).map List.length = some 1 := by
  refine ⟨?_, ?_, ?_, ?_, ?_, ?_⟩ <;> decide +kernel

end Sample

end NtSocks
