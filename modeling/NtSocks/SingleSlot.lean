import NtSocks.NtpRecv

/-!
# Handling a packet of one slot

Every packet type except `MULTI_PKG` is handled inside its own slot: the loop frees the slot,
moves to the next one, and gives the connection at most one message. `recvStep_handles` states
the effect of such an iteration once, for all types.
-/

namespace NtSocks

def NtpacketType.message (t : NtpacketType) (msgLen : UInt16) (payload : List UInt8) :
    Option NtpMsg :=
  match t with
  | .singlePkg => some { msgType := .ntpData, msgLen := msgLen - 8, payload := payload }
  | .finPkg => some { msgType := .ntpFin, msgLen := msgLen - 8, payload := [] }
  | .detectPkg | .enfMulti | .multiPkg => none

namespace RecvState

variable (cfg : NtpConfig) (port2conn : Port2Conn)

/-- A slot is freed: its length field is zero and only its length and type words changed. -/
structure Freed (m m' : Memory) (index : ℕ) : Prop where
  msgLen_eq : (NtpacketHeader.read m' (cfg.slotAddr index)).msgLen = 0
  frame : ∀ x, x < cfg.slotAddr index + 4 ∨ cfg.slotAddr index + 8 ≤ x → m' x = m x

theorem freed_clearMsgLen (m : Memory) (index : ℕ) :
    Freed cfg m (clearMsgLen cfg m index) index where
  msgLen_eq := by simp [NtpacketHeader.read, clearMsgLen]
  frame := by
    intro x hx
    exact Memory.store_apply_outside _ _ _ (by rw [length_leBytes]; omega)

theorem freed_clearMsgType (m : Memory) (index : ℕ) :
    Freed cfg m (clearMsgType cfg (clearMsgLen cfg m index) index) index where
  msgLen_eq := by
    simp only [NtpacketHeader.read, clearMsgType, clearMsgLen]
    rw [Memory.halfword_store_of_disjoint _ _ _ _ (by rw [length_leBytes]; omega),
      Memory.halfword_store_leBytes]
  frame := by
    intro x hx
    rw [clearMsgType, Memory.store_apply_outside _ _ _ (by rw [length_leBytes]; omega)]
    exact (freed_clearMsgLen cfg m index).frame x hx

section ByType

variable (s : RecvState) (c : ConnPtr) (hdr : NtpacketHeader)

theorem recvByType_singlePkg :
    s.recvByType cfg c hdr NtpacketType.singlePkg.code = some (s.recvSingle cfg c hdr) := rfl

theorem recvByType_multiPkg :
    s.recvByType cfg c hdr NtpacketType.multiPkg.code = s.recvMulti cfg c hdr := rfl

theorem recvByType_detectPkg :
    s.recvByType cfg c hdr NtpacketType.detectPkg.code = some (s.recvDetect cfg c hdr) := rfl

theorem recvByType_finPkg :
    s.recvByType cfg c hdr NtpacketType.finPkg.code = some (s.recvFin cfg c hdr) := rfl

theorem recvByType_enfMulti :
    s.recvByType cfg c hdr NtpacketType.enfMulti.code = some (s.release cfg) := rfl

end ByType

structure Handles (s s' : RecvState) (c : ConnPtr) (hdr : NtpacketHeader) (t : NtpacketType) :
    Prop where
  freed : Freed cfg s.mem s'.mem s.curIndex
  curIndex : s'.curIndex = s.nextIndex cfg
  srcPort : s'.srcPort = hdr.dstPort
  dstPort : s'.dstPort = hdr.srcPort
  conn : s'.conn = some c
  recvPacketCounter : s'.recvPacketCounter = s.recvPacketCounter + 1
  conns : s'.conns =
    if t = .finPkg then Function.update s.conns c { s.conns c with state := .passiveClose }
    else s.conns
  handed : s'.handed = s.handed ++ ((t.message hdr.msgLen
      (s.mem.load (cfg.slotAddr s.curIndex + 8) (hdr.msgLen - 8).toNat)).map (c, ·)).toList
  remoteCumWrites : s'.remoteCumWrites = s.remoteCumWrites ++ s.pshWrites hdr ++
    if (s.recvPacketCounter + 1) % idxUpdateInterval = 0 then [s.nextIndex cfg] else []
  ctrlMsgs : t ≠ .detectPkg → s'.ctrlMsgs = s.ctrlMsgs

variable {cfg port2conn} {s s' : RecvState} {c : ConnPtr} {t : NtpacketType}

theorem recvStep_handles (hlen : (s.header cfg).msgLen ≠ 0)
    (htype : dataLenGetType (s.header cfg).msgType = t.code) (ht : t ≠ .multiPkg)
    (hconn : s.lookupConn port2conn (s.header cfg) = some c)
    (hready : (s.conns c).state = .readyConn) :
    ∃ s', s.recvStep cfg port2conn = some s' ∧ Handles cfg s s' c (s.header cfg) t := by
  have hlive : (s.accept port2conn (s.header cfg)).liveConn = some c := by
    rw [liveConn_eq_some, accept_eq]
    exact ⟨hconn, hready⟩
  rw [recvStep_live cfg port2conn hlen hlive, htype, accept_eq, hconn]
  cases t with
  | multiPkg => exact absurd rfl ht
  | singlePkg =>
    rw [recvByType_singlePkg, Option.map_some, recvSingle]
    obtain ⟨events, hevents⟩ := pushEpollEvent_eq (c := c) _
    rw [hevents, publishAtInterval_eq]
    exact ⟨_, rfl, freed_clearMsgType cfg s.mem s.curIndex, rfl, rfl, rfl, rfl, rfl, rfl, rfl, rfl,
      fun _ => rfl⟩
  | detectPkg =>
    rw [recvByType_detectPkg, Option.map_some, publishAtInterval_eq]
    exact ⟨_, rfl, freed_clearMsgLen cfg s.mem s.curIndex, rfl, rfl, rfl, rfl, rfl, rfl,
      (List.append_nil _).symm, rfl, fun h => absurd rfl h⟩
  | finPkg =>
    rw [recvByType_finPkg, Option.map_some, recvFin]
    obtain ⟨events, hevents⟩ := pushEpollEvent_eq (c := c) _
    rw [hevents, publishAtInterval_eq]
    exact ⟨_, rfl, freed_clearMsgLen cfg s.mem s.curIndex, rfl, rfl, rfl, rfl, rfl, rfl, rfl, rfl,
      fun _ => rfl⟩
  | enfMulti =>
    rw [recvByType_enfMulti, Option.map_some, publishAtInterval_eq]
    exact ⟨_, rfl, freed_clearMsgLen cfg s.mem s.curIndex, rfl, rfl, rfl, rfl, rfl, rfl,
      (List.append_nil _).symm, rfl, fun _ => rfl⟩

end RecvState

end NtSocks
