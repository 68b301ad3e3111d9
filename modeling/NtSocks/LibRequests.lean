import NtSocks.EpollControl
import NtSocks.MsgCopy
import NtSocks.NtsRequests

/-!
# What the monitor reads of a request

The library builds requests in variables that it does not always clear. A request goes through a
slot of the ring into the variable of the monitor, whose handler inspects some of its fields. Here
every sender stands with the fields it assigns, and the monitor is a reader of fields.
-/

namespace NtSocks

open FieldReader

structure CString (n : ℕ) where
  chars : List UInt8
  nonzero : ∀ c ∈ chars, c ≠ 0
  length_lt : chars.length < n
  deriving DecidableEq, Repr

def CString.values {n : ℕ} (text : CString n) : List ℤ := text.chars.map fun c => (c.toNat : ℤ)

theorem CString.values_length_lt {n : ℕ} (text : CString n) : text.values.length < n := by
  rw [values, List.length_map]
  exact text.length_lt

theorem CString.values_ne_zero {n : ℕ} (text : CString n) : ∀ v ∈ text.values, v ≠ 0 := by
  intro v hv hzero
  obtain ⟨c, hc, rfl⟩ := List.mem_map.mp hv
  apply text.nonzero c hc
  apply UInt8.toNat_inj.mp
  exact_mod_cast hzero

def EpollOp.code : EpollOp → ℤ
  | .add => 1
  | .del => ntsEpollCtlDel
  | .mod => 3

inductive LibRequest
  | newSock (msgId : UInt64) (name : CString 64) (domain sockType protocol : ℤ)
  | bind (msgId : UInt64) (sockid port : ℤ) (address : CString 16)
  | listen (msgId : UInt64) (sockid backlog : ℤ)
  | acceptAck (msgId : UInt64) (sockid : ℤ) (name : CString 64)
  | connect (msgId : UInt64) (sockid port : ℤ) (address : CString 16)
  | close (msgId : UInt64) (sockid : ℤ)
  | fin (sockid : ℤ)
  | epollCreate (msgId : UInt64) (name : CString 64) (size : ℤ)
  | epollCtl (msgId : UInt64) (sockid sockType epid : ℤ) (op : EpollOp) (event : NtsEpollEvent)
  | epollClose (msgId : UInt64) (epid : ℤ)
  deriving DecidableEq, Repr

namespace LibRequest

/-- The fields that the library assigns. The name of a ring is written without its last zero byte,
except by `nts_accept`. -/
def assigned (request : LibRequest) (f : NtmField) : Option ℤ :=
  match request with
  | .newSock msgId name domain sockType protocol => match f with
      | .msgId => some msgId.toNat
      | .msgType => some NtmMsgType.newSock.code
      | .ntsShmAddrlen => some name.values.length
      | .ntsShmName i => some (name.values[(i : ℕ)]?.getD 0)
      | .domain => some domain
      | .sockType => some sockType
      | .protocol => some protocol
      -- the message is cleared first
      | _ => some 0
  | .bind msgId sockid port address => match f with
      | .msgId => some msgId.toNat
      | .msgType => some NtmMsgType.bind.code
      | .sockid => some sockid
      | .port => some port
      | .address i => (address.values ++ [0])[(i : ℕ)]?
      | .addrlen => some (address.values.length + 1)
      | _ => none
  | .listen msgId sockid backlog => match f with
      | .msgId => some msgId.toNat
      | .msgType => some NtmMsgType.listen.code
      | .sockid => some sockid
      | .backlog => some backlog
      | _ => none
  | .acceptAck msgId sockid name => match f with
      | .msgId => some msgId.toNat
      | .msgType => some NtmMsgType.acceptAck.code
      | .sockid => some sockid
      | .ntsShmAddrlen => some name.values.length
      | .ntsShmName i => (name.values ++ [0])[(i : ℕ)]?
      | _ => none
  | .connect msgId sockid port address => match f with
      | .msgId => some msgId.toNat
      | .msgType => some NtmMsgType.connect.code
      | .sockid => some sockid
      | .port => some port
      | .address i => (address.values ++ [0])[(i : ℕ)]?
      | .addrlen => some (address.values.length + 1)
      | _ => none
  | .close msgId sockid => match f with
      | .msgId => some msgId.toNat
      | .msgType => some NtmMsgType.close.code
      | .sockid => some sockid
      | _ => none
  | .fin sockid => match f with
      | .msgType => some NtmMsgType.fin.code
      | .sockid => some sockid
      | _ => none
  | .epollCreate msgId name size => match f with
      | .msgId => some msgId.toNat
      | .msgType => some NtmMsgType.epollCreate.code
      | .ntsShmAddrlen => some name.values.length
      | .ntsShmName i => name.values[(i : ℕ)]?
      | .sockType => some Ntm.ntSockEpoll
      | .ioQueueSize => some size
      | _ => none
  | .epollCtl msgId sockid sockType epid op event => match f with
      | .msgId => some msgId.toNat
      | .msgType => some NtmMsgType.epollCtl.code
      | .sockid => some sockid
      | .sockType => some sockType
      | .epid => some epid
      | .epollOp => some op.code
      | .events => if op = .del then none else some event.events.toNat
      | .epData => if op = .del then none else some event.data.toNat
      | _ => none
  | .epollClose msgId epid => match f with
      | .msgId => some msgId.toNat
      | .msgType => some NtmMsgType.epollClose.code
      | .epid => some epid
      | .sockType => some Ntm.ntSockEpoll
      | _ => none

def isFin : LibRequest → Bool
  | .fin _ => true
  | _ => false

end LibRequest

inductive MonitorRequest
  | nts (request : Ntm.NtsRequest)
  | epoll (request : Ntm.EpollRequest)
  | ignored

/-- What a handler of the monitor uses besides the message: TCP, its uninitialised variable, the
shared memory, and the addresses that texts stand for. -/
structure MonitorEnv where
  tcp : Ntm.Tcp
  uninitialised : Option ℕ
  resources : Ntm.EpollResources
  inetAddr : List ℤ → UInt32

def ntmHandleOrder : List NtmMsgType :=
  [.init, .newSock, .bind, .listen, .accept, .acceptAck, .connect, .establish, .close, .fin,
    .epollCreate, .epollCtl, .epollClose]

def isZero (v : ℤ) : Bool := v = 0

def textOf (values : List ℤ) : String := String.ofList (values.map fun v => Char.ofNat v.toNat)

namespace MonitorEnv

open Reader (field fields fieldsUntil)

variable (env : MonitorEnv)

def readAddress : Reader NtmField ℤ (List ℤ) :=
  fieldsUntil isZero ((List.finRange 16).map .address)

/-- What the handlers of `NTM_MSG_BIND` and `NTM_MSG_CONNECT` inspect. -/
def readNtmMsg : Reader NtmField ℤ NtmMsg := do
  let msgId ← field .msgId
  let sockid ← field .sockid
  let addrlen ← field .addrlen
  let port ← field .port
  let address ← readAddress
  return { msgId := msgId.toNat, sockid, addrlen, port, address := env.inetAddr address }

def readType : NtmMsgType → Reader NtmField ℤ MonitorRequest
  | .newSock => do
      let sockType ← field .sockType
      let _domain ← field .domain
      let _protocol ← field .protocol
      let addrlen ← field .ntsShmAddrlen
      let _name ← fields (bytes .ntsShmName addrlen)
      let msgId ← field .msgId
      return .nts (.newSock msgId.toNat sockType addrlen)
  | .bind => do
      let msg ← env.readNtmMsg
      return .nts (.bind msg)
  | .listen => do
      let msgId ← field .msgId
      let sockid ← field .sockid
      let backlog ← field .backlog
      return .nts (.listen msgId.toNat sockid backlog)
  | .acceptAck => do
      let sockid ← field .sockid
      let addrlen ← field .ntsShmAddrlen
      let _name ← fields (bytes .ntsShmName addrlen)
      return .nts (.acceptAck sockid addrlen)
  | .connect => do
      let msg ← env.readNtmMsg
      return .nts (.connect env.tcp env.uninitialised msg)
  | .close => do
      let msgId ← field .msgId
      let sockid ← field .sockid
      return .nts (.close msgId.toNat sockid)
  | .fin => do
      let msgId ← field .msgId
      let sockid ← field .sockid
      let address ← readAddress
      -- the length and the port are not looked at
      return .nts (.fin env.tcp
        { msgId := msgId.toNat
          sockid
          addrlen := 0
          port := 0
          address := env.inetAddr address })
  | .epollCreate => do
      let msgId ← field .msgId
      let addrlen ← field .ntsShmAddrlen
      let ioQueueSize ← field .ioQueueSize
      let sockType ← field .sockType
      let name ← fields (bytes .ntsShmName addrlen)
      return .epoll (.create env.resources
        { msgId := UInt64.ofNat msgId.toNat
          shmAddrlen := addrlen
          shmName := textOf name
          sockType
          ioQueueSize })
  | .epollCtl => do
      let msgId ← field .msgId
      let sockid ← field .sockid
      let epid ← field .epid
      let sockType ← field .sockType
      let epollOp ← field .epollOp
      let event ← if epollOp = EpollOp.add.code ∨ epollOp = EpollOp.mod.code then do
          let data ← field .epData
          let events ← field .events
          pure (NtsEpollEvent.mk (UInt64.ofNat data.toNat) (UInt32.ofNat events.toNat))
        else pure (NtsEpollEvent.mk 0 0)
      return .epoll (.ctl
        { msgId := UInt64.ofNat msgId.toNat
          sockid
          sockType
          epid
          epollOp
          event })
  | .epollClose => do
      let msgId ← field .msgId
      let epid ← field .epid
      let sockType ← field .sockType
      return .epoll (.close { msgId := UInt64.ofNat msgId.toNat, epid, sockType })
  | .init | .accept | .establish | .shutdown | .err | .disconnect => return .ignored

def ntsShmReader : Reader NtmField ℤ MonitorRequest := do
  let msgType ← field .msgType
  match NtmMsgType.branch ntmHandleOrder msgType with
  | some type => env.readType type
  | none => return .ignored

end MonitorEnv

namespace LibRequest

variable (env : MonitorEnv)

def meaning : LibRequest → Option MonitorRequest
  | .newSock msgId name _ sockType _ =>
    some (.nts (.newSock msgId.toNat sockType name.values.length))
  | .bind msgId sockid port address =>
    some (.nts (.bind
      { msgId := msgId.toNat
        sockid := sockid
        addrlen := address.values.length + 1
        port := port
        address := env.inetAddr address.values }))
  | .listen msgId sockid backlog => some (.nts (.listen msgId.toNat sockid backlog))
  | .acceptAck _ sockid name => some (.nts (.acceptAck sockid name.values.length))
  | .connect msgId sockid port address =>
    some (.nts (.connect env.tcp env.uninitialised
      { msgId := msgId.toNat
        sockid := sockid
        addrlen := address.values.length + 1
        port := port
        address := env.inetAddr address.values }))
  | .close msgId sockid => some (.nts (.close msgId.toNat sockid))
  | .fin _ => none
  | .epollCreate msgId name size =>
    some (.epoll (.create env.resources
      { msgId := msgId
        shmAddrlen := name.values.length
        shmName := textOf name.values
        sockType := Ntm.ntSockEpoll
        ioQueueSize := size }))
  | .epollCtl msgId sockid sockType epid op event =>
    some (.epoll (.ctl
      { msgId := msgId
        sockid := sockid
        sockType := sockType
        epid := epid
        epollOp := op.code
        event := if op = .del then .mk 0 0 else event }))
  | .epollClose msgId epid =>
    some (.epoll (.close { msgId := msgId, epid := epid, sockType := Ntm.ntSockEpoll }))

def known (request : LibRequest) : (NtmField → ℤ) → NtmField → Option ℤ :=
  ntmLayout.known request.assigned

def type : LibRequest → NtmMsgType
  | .newSock .. => .newSock
  | .bind .. => .bind
  | .listen .. => .listen
  | .acceptAck .. => .acceptAck
  | .connect .. => .connect
  | .close .. => .close
  | .fin .. => .fin
  | .epollCreate .. => .epollCreate
  | .epollCtl .. => .epollCtl
  | .epollClose .. => .epollClose

section

variable (request : LibRequest)
include request

theorem assigned_msgType : request.assigned .msgType = some request.type.code := by
  cases request <;> rfl

theorem type_mem_copyOrder : request.type ∈ ntmCopyOrder := by
  cases request <;> rw [type] <;> decide

theorem branch_handleOrder :
    NtmMsgType.branch ntmHandleOrder request.type.code = some request.type := by
  cases request <;> rw [type] <;> decide

theorem ntmFields_build (memory : NtmField → ℤ) :
    ntmLayout.fields (build request.assigned memory) =
      .msgId :: .msgType :: ntmBranchFields (build request.assigned memory) request.type := by
  refine Layout.fields_of_branch ?_
  change NtmMsgType.branch ntmCopyOrder (build request.assigned memory .msgType) = _
  rw [build_of_assigned request.assigned_msgType]
  exact NtmMsgType.branch_copyOrder request.type_mem_copyOrder

theorem known_eq (memory : NtmField → ℤ) (f : NtmField) :
    request.known memory f =
      if f ∈ .msgId :: .msgType :: ntmBranchFields (build request.assigned memory) request.type then
        request.assigned f
      else none := by
  rw [known, Layout.known, ntmFields_build]

theorem known_of_mem {memory : NtmField → ℤ} {f : NtmField}
    (h : f ∈ .msgId :: .msgType :: ntmBranchFields (build request.assigned memory) request.type) :
    request.known memory f = request.assigned f := by
  rw [known_eq, if_pos h]

theorem runKnown_ntsShmReader (memory : NtmField → ℤ) :
    env.ntsShmReader.runKnown (request.known memory) =
      (env.readType request.type).runKnown (request.known memory) := by
  have htype : request.known memory .msgType = some request.type.code := by
    rw [request.known_of_mem (List.mem_cons_of_mem _ List.mem_cons_self), assigned_msgType]
  rw [MonitorEnv.ntsShmReader, Reader.runKnown_bind, Reader.runKnown_field, htype,
    Option.bind_some, branch_handleOrder]

theorem runKnown_name (memory : NtmField → ℤ) (name : CString 64)
    (hassigned : ∀ i : Fin 64, (i : ℕ) < name.values.length →
      request.assigned (.ntsShmName i) = name.values[(i : ℕ)]?)
    (hcopied : bytes .ntsShmName name.values.length ⊆
      ntmBranchFields (build request.assigned memory) request.type) :
    (Reader.fields (bytes NtmField.ntsShmName name.values.length)).runKnown
      (request.known memory) = some name.values := by
  refine Reader.runKnown_fields (bytes_map name.values_length_lt.le fun i hi => ?_)
  have hmem : NtmField.ntsShmName i ∈ bytes NtmField.ntsShmName name.values.length :=
    mem_bytes (Int.ofNat_lt.mpr hi)
  rw [known_of_mem _ (List.mem_cons_of_mem _ (List.mem_cons_of_mem _ (hcopied hmem))),
    hassigned i hi, List.getElem?_eq_getElem hi]

theorem runKnown_address (memory : NtmField → ℤ) (address : CString 16)
    (hassigned : ∀ i : Fin 16, request.assigned (.address i) = (address.values ++ [0])[(i : ℕ)]?)
    (hcopied : bytes .address (address.values.length + 1) ⊆
      ntmBranchFields (build request.assigned memory) request.type) :
    MonitorEnv.readAddress.runKnown (request.known memory) = some address.values := by
  have hlt := address.values_length_lt
  have hknown : ∀ i : Fin 16, (i : ℕ) ≤ address.values.length →
      request.known memory (.address i) = (address.values ++ [0])[(i : ℕ)]? := by
    intro i hi
    have hmem : NtmField.address i ∈ bytes NtmField.address (address.values.length + 1) :=
      mem_bytes (Int.lt_add_one_of_le (Int.ofNat_le.mpr hi))
    rw [known_of_mem _ (List.mem_cons_of_mem _ (List.mem_cons_of_mem _ (hcopied hmem))),
      hassigned i]
  have hsplit : (List.finRange 16).map NtmField.address =
      bytes NtmField.address address.values.length ++ NtmField.address ⟨_, hlt⟩ ::
        ((List.finRange 16).drop (address.values.length + 1)).map NtmField.address := by
    have hdrop := List.drop_eq_getElem_cons (hlt.trans_eq List.length_finRange.symm)
    rw [List.getElem_finRange] at hdrop
    conv_lhs => rw [← List.take_append_drop address.values.length (List.finRange 16), hdrop]
    rw [List.map_append, List.map_cons]
    rfl
  have hzero : request.known memory (.address ⟨_, hlt⟩) = some 0 := by
    rw [hknown _ le_rfl, List.getElem?_append_right le_rfl, Nat.sub_self]
    rfl
  rw [MonitorEnv.readAddress, hsplit]
  refine Reader.runKnown_fieldsUntil (bytes_map hlt.le fun i hi => ?_) ?_ hzero rfl
  · rw [hknown i hi.le, List.getElem?_append_left hi, List.getElem?_eq_getElem hi]
  · intro v hv
    exact decide_eq_false (address.values_ne_zero v hv)

/-- What reaches the monitor is enough for its handler, except that of `NTM_MSG_FIN`. -/
theorem runKnown_known (memory : NtmField → ℤ) :
    env.ntsShmReader.runKnown (request.known memory) = request.meaning env := by
  rw [runKnown_ntsShmReader]
  cases request with
  | newSock msgId name domain sockType protocol =>
    have hname := (newSock msgId name domain sockType protocol).runKnown_name memory name
      (fun i hi => by simp [assigned, List.getElem?_eq_getElem hi])
      (fun f hf => by simp [ntmBranchFields, type, build, assigned, hf])
    simp [type, MonitorEnv.readType, known_eq, ntmBranchFields, assigned, meaning, hname]
  | bind msgId sockid port address =>
    have haddress := (bind msgId sockid port address).runKnown_address memory address
      (fun i => rfl) (fun f hf => by simp [ntmBranchFields, type, build, assigned, hf])
    simp [type, MonitorEnv.readType, MonitorEnv.readNtmMsg, known_eq, ntmBranchFields, assigned,
      meaning, haddress]
  | acceptAck msgId sockid name =>
    have hname := (acceptAck msgId sockid name).runKnown_name memory name
      (fun i hi => List.getElem?_append_left hi)
      (fun f hf => by simp [ntmBranchFields, type, build, assigned, hf])
    simp [type, MonitorEnv.readType, known_eq, ntmBranchFields, assigned, meaning, hname]
  | connect msgId sockid port address =>
    have haddress := (connect msgId sockid port address).runKnown_address memory address
      (fun i => rfl) (fun f hf => by simp [ntmBranchFields, type, build, assigned, hf])
    simp [type, MonitorEnv.readType, MonitorEnv.readNtmMsg, known_eq, ntmBranchFields, assigned,
      meaning, haddress]
  | epollCreate msgId name size =>
    have hname := (epollCreate msgId name size).runKnown_name memory name
      (fun i hi => rfl) (fun f hf => by simp [ntmBranchFields, type, build, assigned, hf])
    simp [type, MonitorEnv.readType, known_eq, ntmBranchFields, assigned, meaning, hname]
  | epollCtl msgId sockid sockType epid op event =>
    cases op <;>
      simp [type, MonitorEnv.readType, known_eq, ntmBranchFields, assigned, meaning,
        EpollOp.code, ntsEpollCtlDel, build]
  | listen | close | fin | epollClose =>
    simp [type, MonitorEnv.readType, known_eq, ntmBranchFields, assigned, meaning]

end

/-- Whatever was in memory before, every field that the monitor inspects holds a value that the
library assigned, and the monitor makes the same of the message. -/
structure Delivered (request : LibRequest) : Prop where
  carried : ∀ h, ∀ f ∈ env.ntsShmReader.inspected (ntmReceive request.assigned h),
    request.assigned f = some (ntmReceive request.assigned h f)
  same : ∀ h h', env.ntsShmReader.run (ntmReceive request.assigned h) =
    env.ntsShmReader.run (ntmReceive request.assigned h')

theorem run_ntmReceive {request : LibRequest} {meaning : MonitorRequest}
    (hmeaning : request.meaning env = some meaning) (h : History NtmField ℤ) :
    env.ntsShmReader.run (ntmReceive request.assigned h) = meaning ∧
      ∀ f ∈ env.ntsShmReader.inspected (ntmReceive request.assigned h),
        request.assigned f = some (ntmReceive request.assigned h f) := by
  have hrun := (request.runKnown_known env h.memory).trans hmeaning
  obtain ⟨hresult, hknown⟩ :=
    Reader.known_of_runKnown (fun f v => ntmMsgcopy_copies.receive_of_known) hrun
  exact ⟨hresult, fun f hf => Layout.assigned_of_known (hknown f hf)⟩

theorem meaning_isSome {request : LibRequest} (hfin : request.isFin = false) :
    ∃ meaning, request.meaning env = some meaning := by
  cases request with
  | fin sockid => cases hfin
  | newSock | bind | listen | acceptAck | connect | close | epollCreate | epollCtl | epollClose =>
    exact ⟨_, rfl⟩

/-- The monitor inspects the id of `NTM_MSG_FIN`, which the library leaves unassigned. -/
theorem fin_inspects_msgId (sockid : ℤ) (h : History NtmField ℤ) :
    NtmField.msgId ∈ env.ntsShmReader.inspected (ntmReceive (fin sockid).assigned h) := by
  have htype : ntmReceive (fin sockid).assigned h .msgType = NtmMsgType.fin.code :=
    ntmMsgcopy_copies.receive_of_known
      ((fin sockid).known_of_mem (List.mem_cons_of_mem _ List.mem_cons_self))
  generalize ntmReceive (fin sockid).assigned h = msg at htype
  have hbranch : NtmMsgType.branch ntmHandleOrder (msg .msgType) = some .fin := by
    rw [htype]
    exact (fin sockid).branch_handleOrder
  change _ ∈ NtmField.msgType ::
    Reader.inspected (match NtmMsgType.branch ntmHandleOrder (msg .msgType) with
      | some type => env.readType type
      | none => return .ignored) msg
  rw [hbranch]
  exact List.mem_cons_of_mem _ List.mem_cons_self

theorem delivered_iff (request : LibRequest) : request.Delivered env ↔ request.isFin = false := by
  constructor
  · intro hdelivered
    cases request with
    | fin sockid =>
      have h : History NtmField ℤ := ⟨fun _ => 0, fun _ => 0, fun _ => 0⟩
      have hassigned := hdelivered.carried h .msgId (fin_inspects_msgId env sockid h)
      cases hassigned
    | newSock | bind | listen | acceptAck | connect | close | epollCreate | epollCtl
    | epollClose => rfl
  · intro hfin
    obtain ⟨meaning, hmeaning⟩ := meaning_isSome env hfin
    exact
      { carried := fun h => (run_ntmReceive env hmeaning h).2
        same := fun h h' => by
          rw [(run_ntmReceive env hmeaning h).1, (run_ntmReceive env hmeaning h').1] }

end LibRequest

end NtSocks
