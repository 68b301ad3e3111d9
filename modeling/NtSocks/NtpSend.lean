import NtSocks.NtpRecv

/-!
# Forwarding messages of a connection

`ntp_send_buff_data` takes up to `bulk_size` messages from a connection's send ring. A message
that fits one slot becomes a `SINGLE_PKG` packet; a longer one becomes a `MULTI_PKG` slot, pure
data slots and an `ENF_MULTI` slot. The packet header that closes a long message, and that of the
probe sent at the end, live in a stack variable whose type word is never reset.
-/

namespace NtSocks

/-- What the enqueue calls of one invocation thread along: the link, the remote writes issued so
far, and the header of the stack variable `data_packet`. -/
structure SendFrame where
  link : SendSide
  writes : List RemoteWrite
  dataPacket : NtpacketHeader
  deriving DecidableEq, Repr

namespace SendFrame

def issue (f : SendFrame) (link : SendSide) (ws : List RemoteWrite) : SendFrame :=
  { f with link := link, writes := f.writes ++ ws }

def issueDataPacket (f : SendFrame) (e : Enqueued) : SendFrame where
  link := e.link
  writes := f.writes ++ e.writes
  dataPacket := e.msg.header

@[simp] theorem issue_link (f : SendFrame) (link : SendSide) (ws : List RemoteWrite) :
    (f.issue link ws).link = link := rfl

@[simp] theorem issue_writes (f : SendFrame) (link : SendSide) (ws : List RemoteWrite) :
    (f.issue link ws).writes = f.writes ++ ws := rfl

end SendFrame

section Message

variable (cfg : NtpConfig) (srcPort dstPort : UInt16)

/-- The loop over pure data slots, started with the number of bytes already sent. The fuel bounds
the number of iterations. -/
def sendPureData (payload : List UInt8) (dataLen : ℕ) : ℕ → ℕ → SendFrame → Option (ℕ × SendFrame)
  | 0, _, _ => none
  | fuel + 1, sent, f =>
    if cfg.dataPacketSize < dataLen - sent then
      (ntbPureDataMsgEnqueue cfg f.link (payload.drop sent) cfg.dataPacketSize).bind fun e =>
        sendPureData payload dataLen fuel (uint16 (sent + cfg.dataPacketSize))
          (f.issue e.1 e.2)
    else some (sent, f)

/-- The closing packet of a multi-slot message, sent from the stack variable. -/
def sendEnfMulti (f : SendFrame) : Option SendFrame :=
  let header := ntbDataMsgAddHeader f.dataPacket srcPort dstPort 0 .enfMulti
  (ntbDataMsgEnqueue cfg f.link { header := header, payload := [] }).map f.issueDataPacket

def sendMulti (msg : NtpMsg) (f : SendFrame) : Option SendFrame :=
  let dataLen := msg.msgLen.toNat
  let outgoing : Ntpacket :=
    { header := { srcPort := 0, dstPort := 0, msgLen := msg.msgLen, msgType := 1 }
      payload := msg.payload }
  (ntbDataMsgEnqueue2 cfg f.link outgoing srcPort dstPort dataLen .multiPkg).bind fun e =>
    (sendPureData cfg msg.payload dataLen (dataLen + 1) cfg.datapacketPayloadSize
        (f.issue e.link e.writes)).bind fun p =>
      (ntbPureDataMsgEnqueue cfg p.2.link (msg.payload.drop p.1) (dataLen - p.1)).bind fun e =>
        sendEnfMulti cfg srcPort dstPort (p.2.issue e.1 e.2)

def sendWhole (t : NtpacketType) (payloadLen : ℕ) (msg : NtpMsg) (f : SendFrame) :
    Option SendFrame :=
  let packet : Ntpacket :=
    { header := packNtpacketHeader srcPort dstPort payloadLen t, payload := msg.payload }
  (ntpacketEnqueue cfg f.link packet).map fun e => f.issue e.link e.writes

def sendData (msg : NtpMsg) (f : SendFrame) : Option SendFrame :=
  if msg.msgLen.toNat ≤ cfg.datapacketPayloadSize then
    sendWhole cfg srcPort dstPort .singlePkg msg.msgLen.toNat msg f
  else sendMulti cfg srcPort dstPort msg f

end Message

structure SendOutcome where
  frame : SendFrame
  ring : List NtpMsg
  state : ConnState
  detectTime : ℕ
  retval : ℕ
  deriving DecidableEq, Repr

/-- The loop over messages; the flag tells that a `NTP_FIN` message ended the call. -/
def sendBulk (cfg : NtpConfig) (srcPort dstPort : UInt16) :
    ℕ → List NtpMsg → SendFrame → ConnState → ℕ →
      Option (Bool × List NtpMsg × SendFrame × ConnState × ℕ)
  | 0, ring, f, state, count => some (false, ring, f, state, count)
  | _ + 1, [], f, state, count => some (false, [], f, state, count)
  | bulk + 1, msg :: ring, f, state, count =>
    match msg.msgType with
    | .ntpFin =>
      (sendWhole cfg srcPort dstPort .finPkg 0 msg f).map fun f' =>
        (true, ring, f', .activeClose, 0)
    | .ntpData =>
      (sendData cfg srcPort dstPort msg f).bind fun f' =>
        sendBulk cfg srcPort dstPort bulk ring f' state (count + 1)

def ntsMaxBufs : ℕ := 1024

def detectIntervalTime : ℕ := 4 * 25000

def sendWindow (readIndex peerReadIndex : ℕ) : ℕ :=
  let gap := u64Sub peerReadIndex readIndex
  if 0 < gap then u64Sub gap 1 else u64Sub (gap + ntsMaxBufs) 1

def ntpSendBuffData (cfg : NtpConfig) (bulkSize : ℕ) (connId : UInt32) (ring : List NtpMsg)
    (state : ConnState) (readIndex peerReadIndex currentTime detectTime : ℕ) (f : SendFrame) :
    Option SendOutcome :=
  let srcPort := (connId >>> 16).toUInt16
  let dstPort := connId.toUInt16
  (sendBulk cfg srcPort dstPort bulkSize ring f state 0).bind fun
    | (true, ring, f, state, count) => some ⟨f, ring, state, detectTime, count⟩
    | (false, ring, f, state, count) =>
      if sendWindow readIndex peerReadIndex < 512 ∧
          detectIntervalTime < u64Sub currentTime detectTime then
        let header := ntbDataMsgAddHeader f.dataPacket srcPort dstPort 0 .detectPkg
        (ntbDataMsgEnqueue cfg f.link { header := header, payload := [] }).map fun e =>
          ⟨f.issueDataPacket e, ring, state, currentTime, count⟩
      else some ⟨f, ring, state, detectTime, count⟩

theorem ntpSendBuffData_one {cfg : NtpConfig} {bulkSize : ℕ} (hbulk : 0 < bulkSize)
    (connId : UInt32) (msg : NtpMsg) (hdata : msg.msgType = .ntpData) (state : ConnState)
    (readIndex peerReadIndex currentTime detectTime : ℕ)
    (hquiet : ¬ (sendWindow readIndex peerReadIndex < 512 ∧
      detectIntervalTime < u64Sub currentTime detectTime)) (f : SendFrame) :
    ntpSendBuffData cfg bulkSize connId [msg] state readIndex peerReadIndex currentTime detectTime
        f =
      (sendData cfg (connId >>> 16).toUInt16 connId.toUInt16 msg f).map fun f' =>
        ⟨f', [], state, detectTime, 1⟩ := by
  obtain ⟨bulk, rfl⟩ := Nat.exists_eq_add_of_lt hbulk
  have hbulk' : 0 + bulk + 1 = bulk + 1 := by omega
  rw [hbulk', ntpSendBuffData, sendBulk, hdata]
  cases hsend : sendData cfg (connId >>> 16).toUInt16 connId.toUInt16 msg f with
  | none => rfl
  | some f' =>
    cases bulk with
    | zero | succ bulk => simp only [sendBulk, Option.bind_some, if_neg hquiet, Option.map_some]

end NtSocks
