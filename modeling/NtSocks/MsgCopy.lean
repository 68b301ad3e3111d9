import NtSocks.Lib.FieldReader
import NtSocks.NtmMsg

/-!
# The messages between the library and the monitor in memory

The structures `ntm_msg` and `nts_msg` hold the fields of all message types. A message of one type
is copied into a slot of a ring and from there into a variable of the receiver, and each copy writes
only some of the fields, by the type. A field that it does not write keeps what the slot or the
variable held before. Every byte of an array is a field of its own, and C integers and bytes are
integers here.
-/

namespace NtSocks

open FieldReader

inductive NtmMsgType
  | init
  | newSock
  | bind
  | listen
  | accept
  | acceptAck
  | connect
  | establish
  | close
  | fin
  | shutdown
  | err
  | disconnect
  | epollCreate
  | epollCtl
  | epollClose
  deriving DecidableEq, Repr

inductive NtsMsgFlag
  | init
  | newSock
  | bind
  | listen
  | accept
  | connect
  | dispatched
  | establish
  | close
  | fin
  | disconnect
  | shutdown
  | err
  | clientSynAck
  deriving DecidableEq, Repr

def NtmMsgType.bit : NtmMsgType → ℕ
  | .init => 0
  | .newSock => 1
  | .bind => 2
  | .listen => 3
  | .accept => 4
  | .acceptAck => 5
  | .connect => 6
  | .establish => 7
  | .close => 8
  | .fin => 9
  | .shutdown => 10
  | .err => 11
  | .disconnect => 12
  | .epollCreate => 13
  | .epollCtl => 14
  | .epollClose => 15

def NtsMsgFlag.bit : NtsMsgFlag → ℕ
  | .init => 0
  | .newSock => 1
  | .bind => 2
  | .listen => 3
  | .accept => 4
  | .connect => 5
  | .dispatched => 6
  | .establish => 7
  | .close => 8
  | .fin => 9
  | .disconnect => 11
  | .shutdown => 12
  | .err => 13
  | .clientSynAck => 14

def NtmMsgType.code (type : NtmMsgType) : ℤ := (2 ^ type.bit : ℕ)

def NtsMsgFlag.code (type : NtsMsgFlag) : ℤ := (2 ^ type.bit : ℕ)

def hasFlag (msgType : ℤ) (bit : ℕ) : Bool := msgType.toNat.testBit bit

def NtmMsgType.branch (order : List NtmMsgType) (msgType : ℤ) : Option NtmMsgType :=
  order.find? fun type => hasFlag msgType type.bit

def NtsMsgFlag.branch (order : List NtsMsgFlag) (msgType : ℤ) : Option NtsMsgFlag :=
  order.find? fun type => hasFlag msgType type.bit

inductive NtmField
  | msgId
  | msgType
  | sockid
  | howto
  | backlog
  | reqClientSockaddr
  | domain
  | sockType
  | ioQueueSize
  | protocol
  | ntsShmAddrlen
  | addrlen
  | port
  | epid
  | epollOp
  | events
  | epData
  | address (i : Fin 16)
  | ntsShmName (i : Fin 64)
  deriving DecidableEq, Repr

inductive NtsField
  | msgId
  | msgType
  | sockid
  | retval
  | ntErrno
  | connStatus
  | addrlen
  | port
  | address (i : Fin 16)
  deriving DecidableEq, Repr

/-- The first `len` bytes of an array. The lengths of all messages fit into their arrays. -/
def bytes {F : Type} {n : ℕ} (byte : Fin n → F) (len : ℤ) : List F :=
  ((List.finRange n).take len.toNat).map byte

def ntsEpollCtlDel : ℤ := 2

def ntmCopyOrder : List NtmMsgType :=
  [.init, .newSock, .bind, .listen, .accept, .acceptAck, .connect, .close, .shutdown, .fin,
    .epollCreate, .epollCtl, .epollClose]

def ntmBranchFields (src : NtmField → ℤ) : NtmMsgType → List NtmField
  | .newSock =>
    .ntsShmAddrlen :: bytes .ntsShmName (src .ntsShmAddrlen) ++ [.domain, .protocol, .sockType]
  | .bind => .sockid :: bytes .address (src .addrlen) ++ [.addrlen, .port]
  | .listen => [.sockid, .backlog]
  | .accept => [.sockid, .reqClientSockaddr]
  | .acceptAck => .sockid :: .ntsShmAddrlen :: bytes .ntsShmName (src .ntsShmAddrlen)
  | .connect => .sockid :: bytes .address (src .addrlen) ++ [.addrlen, .port]
  | .close => [.sockid]
  | .shutdown => [.sockid, .howto]
  | .fin => [.sockid]
  | .epollCreate =>
    .ntsShmAddrlen :: bytes .ntsShmName (src .ntsShmAddrlen) ++ [.sockType, .ioQueueSize]
  | .epollCtl =>
    [.sockid, .sockType, .epid, .epollOp] ++
      if src .epollOp ≠ ntsEpollCtlDel then [.events, .epData] else []
  | .epollClose => [.epid, .sockType]
  | .init | .establish | .err | .disconnect => []

def ntmTypeFields (src : NtmField → ℤ) : List NtmField :=
  match NtmMsgType.branch ntmCopyOrder (src .msgType) with
  | some type => ntmBranchFields src type
  | none => []

def ntmMsgcopy (src target : NtmField → ℤ) : NtmField → ℤ :=
  copyFields ([.msgId, .msgType] ++ (if 0 < src .sockid then [.sockid] else []) ++
    ntmTypeFields src) src target

def ntsCopyOrder : List NtsMsgFlag :=
  [.init, .newSock, .bind, .listen, .accept, .dispatched, .connect, .clientSynAck, .establish,
    .close, .shutdown, .disconnect, .err]

def ntsBranchFields (src : NtsField → ℤ) : NtsMsgFlag → List NtsField
  | .newSock => [.retval, .ntErrno]
  | .bind => [.sockid, .retval, .ntErrno]
  | .listen => [.sockid, .retval]
  | .accept => .sockid :: bytes .address (src .addrlen) ++ [.addrlen, .port]
  | .dispatched => [.retval, .sockid, .ntErrno, .port]
  | .connect => [.sockid, .connStatus, .retval, .ntErrno]
  | .clientSynAck => [.sockid, .retval]
  | .establish => [.sockid, .retval, .msgType]
  | .close => [.sockid]
  | .shutdown => [.sockid, .retval]
  | .disconnect => [.sockid]
  | .err => [.sockid, .ntErrno, .retval]
  | .init | .fin => []

def ntsTypeFields (src : NtsField → ℤ) : List NtsField :=
  match NtsMsgFlag.branch ntsCopyOrder (src .msgType) with
  | some type => ntsBranchFields src type
  | none => []

def ntsMsgcopy (src target : NtsField → ℤ) : NtsField → ℤ :=
  copyFields ([.msgId, .msgType] ++ (if 0 < src .sockid then [.sockid] else []) ++
    ntsTypeFields src) src target

theorem NtmMsgType.branch_copyOrder {type : NtmMsgType} (h : type ∈ ntmCopyOrder) :
    NtmMsgType.branch ntmCopyOrder type.code = some type := by
  revert h
  cases type <;> decide

theorem NtsMsgFlag.branch_copyOrder {type : NtsMsgFlag} (h : type ∈ ntsCopyOrder) :
    NtsMsgFlag.branch ntsCopyOrder type.code = some type := by
  revert h
  cases type <;> decide

variable {n : ℕ} {F : Type} {byte : Fin n → F}

theorem mem_bytes {len : ℤ} {i : Fin n} (h : ((i : ℕ) : ℤ) < len) : byte i ∈ bytes byte len := by
  refine List.mem_map_of_mem (List.mem_take_iff_getElem.mpr ⟨i, ?_, ?_⟩)
  · rw [List.length_finRange]
    have := i.isLt
    omega
  · exact List.getElem_finRange _

theorem bytes_map {g : F → Option ℤ} {values : List ℤ} (hlen : values.length ≤ n)
    (h : ∀ (i : Fin n) (hi : (i : ℕ) < values.length), g (byte i) = some values[(i : ℕ)]) :
    (bytes byte values.length).map g = values.map some := by
  apply List.ext_getElem
  · simp [bytes, hlen]
  · intro i hi hi'
    rw [List.length_map] at hi'
    simp only [bytes, Int.toNat_natCast, List.map_map, List.getElem_map, List.getElem_take,
      List.getElem_finRange, Function.comp_apply]
    exact h ⟨i, hi'.trans_le hlen⟩ hi'

def ntmLayout : Layout NtmField ℤ NtmMsgType where
  head := [.msgId, .msgType]
  type := .msgType
  type_mem := by decide
  branch := NtmMsgType.branch ntmCopyOrder
  more := ntmBranchFields
  more_congr := by
    intro src src' type h
    cases type <;> simp_all [ntmBranchFields]

def ntsLayout : Layout NtsField ℤ NtsMsgFlag where
  head := [.msgId, .msgType]
  type := .msgType
  type_mem := by decide
  branch := NtsMsgFlag.branch ntsCopyOrder
  more := ntsBranchFields
  more_congr := by
    intro src src' type h
    cases type <;> simp_all [ntsBranchFields]

theorem ntmLayout_fields (src : NtmField → ℤ) :
    ntmLayout.fields src = [.msgId, .msgType] ++ ntmTypeFields src := by
  rw [Layout.fields, ntmTypeFields]
  cases hbranch : NtmMsgType.branch ntmCopyOrder (src .msgType) <;> simp [ntmLayout, hbranch]

theorem ntsLayout_fields (src : NtsField → ℤ) :
    ntsLayout.fields src = [.msgId, .msgType] ++ ntsTypeFields src := by
  rw [Layout.fields, ntsTypeFields]
  cases hbranch : NtsMsgFlag.branch ntsCopyOrder (src .msgType) <;> simp [ntsLayout, hbranch]

theorem ntmMsgcopy_copies : ntmLayout.Copies ntmMsgcopy := by
  intro src target f h
  rw [ntmLayout_fields] at h
  refine copyFields_of_mem ?_ src target
  simp only [List.mem_append] at h ⊢
  tauto

theorem ntsMsgcopy_copies : ntsLayout.Copies ntsMsgcopy := by
  intro src target f h
  rw [ntsLayout_fields] at h
  refine copyFields_of_mem ?_ src target
  simp only [List.mem_append] at h ⊢
  tauto

variable {f : NtsField}

theorem ntsMsgcopy_of_notMem {src : NtsField → ℤ} (h : f ∉ ntsLayout.fields src) (hf : f ≠ .sockid)
    (target : NtsField → ℤ) : ntsMsgcopy src target f = target f := by
  rw [ntsLayout_fields] at h
  refine copyFields_of_notMem ?_ src target
  simp only [List.mem_append] at h ⊢
  split
  · simp only [List.mem_singleton]
    tauto
  · simp only [List.not_mem_nil]
    tauto

def ntmReceive (assigned : NtmField → Option ℤ) (h : History NtmField ℤ) : NtmField → ℤ :=
  ntmMsgcopy (ntmMsgcopy (build assigned h.memory) h.slot) h.element

def ntsReceive (assigned : NtsField → Option ℤ) (h : History NtsField ℤ) : NtsField → ℤ :=
  ntsMsgcopy (ntsMsgcopy (build assigned h.memory) h.slot) h.element

theorem ntsReceive_of_notMem {assigned : NtsField → Option ℤ} {h : History NtsField ℤ}
    (hf : f ∉ ntsLayout.fields (build assigned h.memory)) (hne : f ≠ .sockid) :
    ntsReceive assigned h f = h.element f :=
  ntsMsgcopy_of_notMem (by rw [ntsMsgcopy_copies.fields_copy]; exact hf) hne h.element

end NtSocks
