import Mathlib.Tactic
import NtSocks.Ntpacket

/-!
# Reading and writing a socket

`nts_write` cuts a buffer into messages of at most `max_payloadsize` bytes. `nts_read` copies the
payload of one message, and goes on to the next message only after one of full size; what does not
fit the caller's buffer is kept in `ntp_buf` for the next call. The functions are translated with
their C `int` variables as integers.
-/

namespace NtSocks

structure NtsConfig where
  maxPayloadsize : ℕ
  maxPayloadsize_lt : maxPayloadsize < 65536
  deriving Repr

inductive NtsSocketState
  | closed
  | bound
  | listening
  | waitClient
  | waitDispatch
  | waitServer
  | established
  | waitFin
  deriving DecidableEq, Repr

/-- A socket of the library. The two rings are the message channels to the proxy, oldest message
first, and `ntmFinSent` lists the sockets for which the monitor was sent a `NTM_MSG_FIN`. -/
structure NtSockContext where
  sockid : ℕ
  state : NtsSocketState
  ntpBuf : List UInt8
  ntpBuflen : ℤ
  ntpSendCtx : List NtpMsg
  ntpRecvCtx : List NtpMsg
  ntmFinSent : List ℕ
  deriving DecidableEq, Repr

def int32 (n : ℕ) : ℤ := Int.bmod n (2 ^ 32)

namespace NtSockContext

variable (cfg : NtsConfig) (sock : NtSockContext)

def sendMsg (msgType : NtpMsgType) (payload : List UInt8) : NtSockContext :=
  { sock with ntpSendCtx := sock.ntpSendCtx ++
      [{ msgType := msgType, msgLen := UInt16.ofNat payload.length, payload := payload }] }

/-- The loop that sends what is left of the buffer after `writeBytes` bytes; it returns the final
value of `write_bytes`. The fuel bounds its iterations. -/
def writeLoop (buf : List UInt8) : ℕ → ℕ → NtSockContext → Option (ℕ × NtSockContext)
  | 0, _, _ => none
  | fuel + 1, writeBytes, sock =>
    let nextMsgLen :=
      if buf.length - writeBytes ≤ cfg.maxPayloadsize then buf.length - writeBytes
      else cfg.maxPayloadsize
    if nextMsgLen = 0 then some (writeBytes, sock)
    else
      writeLoop buf fuel (writeBytes + nextMsgLen)
        (sock.sendMsg .ntpData ((buf.drop writeBytes).take nextMsgLen))

/-- `none` when a call does not return: an empty buffer fails an assertion. A socket that is not
established takes the failure branch with `write_bytes` uninitialised. -/
def ntsWrite (uninitialised : ℕ) (buf : List UInt8) : Option (ℤ × NtSockContext) :=
  if buf.length = 0 then none
  else if sock.state ≠ .established then
    some (if 0 < uninitialised then uninitialised else -1, sock)
  else
    let msgLen := if buf.length < cfg.maxPayloadsize then buf.length else cfg.maxPayloadsize
    (writeLoop cfg buf (buf.length + 1) msgLen (sock.sendMsg .ntpData (buf.take msgLen))).map
      fun (writeBytes, sock) => (writeBytes, sock)

/-- The part of `nts_close` on an established socket before it waits for the peer's answer. -/
def ntsClose : NtSockContext :=
  let sock := { sock with state := .waitFin }
  sock.sendMsg .ntpFin []

def popRing (ring : List NtpMsg) : NtSockContext := { sock with ntpRecvCtx := ring }

def arrive (msgs : List NtpMsg) : NtSockContext :=
  { sock with ntpRecvCtx := sock.ntpRecvCtx ++ msgs }

def cache (bytes : List UInt8) (buflen : ℤ) : NtSockContext :=
  { sock with ntpBuf := bytes, ntpBuflen := buflen }

def handleNtpFinMsg : NtSockContext :=
  { sock with state := .closed, ntmFinSent := sock.ntmFinSent ++ [sock.sockid] }

end NtSockContext

/-- How a call of `nts_read` ends: it returns a value, with `buf` in the caller's buffer; it spins
on an empty ring; or it copies with a negative length. -/
inductive ReadOutcome
  | returns (retval : ℤ) (buf : List UInt8) (sock : NtSockContext)
  | spins
  | faults
  deriving DecidableEq, Repr

inductive CopyTarget
  | buf (offset : ℕ)
  | ntpBuf
  deriving DecidableEq, Repr

structure ReadCopy where
  target : CopyTarget
  len : ℤ
  deriving DecidableEq, Repr

/-- The variables of the copy loop of `nts_read`; `buf` is what was copied so far, so that
`bytes_read` is its length. -/
structure ReadFrame where
  sock : NtSockContext
  payload : List UInt8
  isCached : Bool
  bufAvailBytes : ℤ
  bytesLeft : ℤ
  buf : List UInt8
  deriving DecidableEq, Repr

namespace ReadFrame

variable (f : ReadFrame)

def finish (buf : List UInt8) (sock : NtSockContext) : ReadOutcome := .returns buf.length buf sock

/-- A payload copied whole out of `ntp_buf` leaves it empty. -/
def emptyCache : NtSockContext :=
  if f.isCached then f.sock.cache f.sock.ntpBuf 0 else f.sock

def copyPart : ReadOutcome :=
  if f.bufAvailBytes < 0 then .faults
  else
    let rest := f.bytesLeft - f.bufAvailBytes
    finish (f.buf ++ f.payload.take f.bufAvailBytes.toNat)
      (f.sock.cache ((f.payload.drop f.bufAvailBytes.toNat).take rest.toNat) rest)

def partCopies : List ReadCopy :=
  [⟨.buf f.buf.length, f.bufAvailBytes⟩, ⟨.ntpBuf, f.bytesLeft - f.bufAvailBytes⟩]

/-- The copy loop, with the copies that it makes. A message shorter than the maximum ends it; after
a message of full size that leaves room in the caller's buffer it waits for the next message. -/
def copyLoop (cfg : NtsConfig) : ℕ → ReadFrame → List ReadCopy × ReadOutcome
  | 0, _ => ([], .spins)
  | fuel + 1, f =>
    let whole : ReadCopy := ⟨.buf f.buf.length, f.bytesLeft⟩
    if f.bytesLeft ≤ 0 then ([], finish f.buf f.sock)
    else if f.bytesLeft < cfg.maxPayloadsize then
      if f.bytesLeft ≤ f.bufAvailBytes then
        ([whole], finish (f.buf ++ f.payload.take f.bytesLeft.toNat) f.emptyCache)
      else (f.partCopies, f.copyPart)
    else if f.bufAvailBytes ≤ f.bytesLeft then
      if f.bufAvailBytes = f.bytesLeft then
        ([whole], finish (f.buf ++ f.payload.take f.bufAvailBytes.toNat) f.emptyCache)
      else (f.partCopies, f.copyPart)
    else
      let buf := f.buf ++ f.payload.take f.bytesLeft.toNat
      let bufAvailBytes := f.bufAvailBytes - f.bytesLeft
      match f.sock.ntpRecvCtx with
      | [] => ([whole], .spins)
      | msg :: ring =>
        if msg.msgType = .ntpFin then ([whole], .returns (-1) buf f.sock.handleNtpFinMsg)
        else if f.sock.ntpBuflen ≤ 0 then
          (copyLoop cfg fuel {
            sock := f.sock.popRing ring
            payload := msg.payload
            isCached := f.isCached
            bufAvailBytes := bufAvailBytes
            bytesLeft := msg.msgLen.toNat
            buf := buf }).map (whole :: ·) id
        else
          (copyLoop cfg fuel {
            sock := f.sock
            payload := f.sock.ntpBuf
            isCached := true
            bufAvailBytes := bufAvailBytes
            bytesLeft := f.sock.ntpBuflen
            buf := buf }).map (whole :: ·) id

def readLoop (cfg : NtsConfig) (fuel : ℕ) (f : ReadFrame) : ReadOutcome := (copyLoop cfg fuel f).2

theorem readLoop_succ (cfg : NtsConfig) (fuel : ℕ) (f : ReadFrame) :
    readLoop cfg (fuel + 1) f = if f.bytesLeft ≤ 0 then finish f.buf f.sock
      else if f.bytesLeft < cfg.maxPayloadsize then
        if f.bytesLeft ≤ f.bufAvailBytes then
          finish (f.buf ++ f.payload.take f.bytesLeft.toNat) f.emptyCache
        else f.copyPart
      else if f.bufAvailBytes ≤ f.bytesLeft then
        if f.bufAvailBytes = f.bytesLeft then
          finish (f.buf ++ f.payload.take f.bufAvailBytes.toNat) f.emptyCache
        else f.copyPart
      else
        let buf := f.buf ++ f.payload.take f.bytesLeft.toNat
        let bufAvailBytes := f.bufAvailBytes - f.bytesLeft
        match f.sock.ntpRecvCtx with
        | [] => .spins
        | msg :: ring =>
          if msg.msgType = .ntpFin then .returns (-1) buf f.sock.handleNtpFinMsg
          else if f.sock.ntpBuflen ≤ 0 then
            readLoop cfg fuel ⟨f.sock.popRing ring, msg.payload, f.isCached, bufAvailBytes,
              msg.msgLen.toNat, buf⟩
          else readLoop cfg fuel ⟨f.sock, f.sock.ntpBuf, true, bufAvailBytes, f.sock.ntpBuflen,
            buf⟩ := by
  rw [readLoop, copyLoop]
  split_ifs
  all_goals try rfl
  all_goals
    cases f.sock.ntpRecvCtx with
    | nil => rfl
    | cons msg ring =>
      dsimp only
      split_ifs <;> rfl

end ReadFrame

/-- A call, with the copies that it makes. -/
def NtSockContext.ntsReadCopies (cfg : NtsConfig) (sock : NtSockContext) (nbytes : ℕ) :
    List ReadCopy × ReadOutcome :=
  if sock.state ≠ .established then ([], .returns (-1) [] sock)
  else if sock.ntpBuflen ≤ 0 then
    match sock.ntpRecvCtx with
    | [] => ([], .spins)
    | msg :: ring =>
      if msg.msgType = .ntpFin then ([], .returns (-1) [] sock.handleNtpFinMsg)
      else
        ReadFrame.copyLoop cfg nbytes {
          sock := sock.popRing ring
          payload := msg.payload
          isCached := false
          bufAvailBytes := int32 nbytes
          bytesLeft := msg.msgLen.toNat
          buf := [] }
  else
    ReadFrame.copyLoop cfg nbytes {
      sock := sock
      payload := sock.ntpBuf
      isCached := true
      bufAvailBytes := int32 nbytes
      bytesLeft := sock.ntpBuflen
      buf := [] }

def NtSockContext.ntsRead (cfg : NtsConfig) (sock : NtSockContext) (nbytes : ℕ) : ReadOutcome :=
  (sock.ntsReadCopies cfg nbytes).2

theorem int32_of_lt {n : ℕ} (h : n < 2 ^ 31) : int32 n = n := by
  unfold int32
  rw [Int.bmod_def]
  omega

theorem le_of_int32_eq {n m : ℕ} (h : int32 n = m) : m ≤ n := by
  unfold int32 at h
  rw [Int.bmod_def] at h
  omega

section Arrive

variable {cfg : NtsConfig} {msgs : List NtpMsg} {retval : ℤ} {buf : List UInt8}
  {sock' : NtSockContext}

namespace ReadFrame

variable {f : ReadFrame}

def arrive (f : ReadFrame) (msgs : List NtpMsg) : ReadFrame :=
  { f with sock := f.sock.arrive msgs }

theorem emptyCache_arrive : (f.arrive msgs).emptyCache = f.emptyCache.arrive msgs := by
  cases hc : f.isCached with
  | true => simp [emptyCache, arrive, hc, NtSockContext.cache, NtSockContext.arrive]
  | false => simp [emptyCache, arrive, hc]

theorem copyPart_arrive (h : f.copyPart = .returns retval buf sock') :
    (f.arrive msgs).copyPart = .returns retval buf (sock'.arrive msgs) := by
  by_cases hneg : f.bufAvailBytes < 0
  · simp [copyPart, hneg] at h
  · rw [copyPart, if_neg hneg] at h
    obtain ⟨rfl, rfl, rfl⟩ := ReadOutcome.returns.inj h
    exact if_neg hneg

theorem readLoop_arrive (msgs : List NtpMsg) {fuel : ℕ}
    (h : readLoop cfg fuel f = .returns retval buf sock') :
    readLoop cfg fuel (f.arrive msgs) = .returns retval buf (sock'.arrive msgs) := by
  induction fuel generalizing f with
  | zero => cases h
  | succ fuel ih =>
    have hleft : (f.arrive msgs).bytesLeft = f.bytesLeft := rfl
    have havail : (f.arrive msgs).bufAvailBytes = f.bufAvailBytes := rfl
    have hbuflen : (f.arrive msgs).sock.ntpBuflen = f.sock.ntpBuflen := rfl
    rw [readLoop_succ] at h ⊢
    rw [hleft, havail, hbuflen]
    split_ifs at h ⊢
    · cases h
      rfl
    · cases h
      rw [emptyCache_arrive]
      rfl
    · exact copyPart_arrive h
    · cases h
      rw [emptyCache_arrive]
      rfl
    · exact copyPart_arrive h
    -- what is left is the message that the loop goes on to
    all_goals
      cases hring : f.sock.ntpRecvCtx with
      | nil => simp [hring] at h
      | cons m ms =>
        have hring' : (f.arrive msgs).sock.ntpRecvCtx = m :: (ms ++ msgs) :=
          congrArg (· ++ msgs) hring
        simp only [hring, hring'] at h ⊢
        split_ifs at h ⊢
        · cases h
          rfl
        · exact ih h

end ReadFrame

/-- Messages that arrive behind those a call consumes do not change its result. A call that waits
for messages is therefore the same as one made after they have arrived. -/
theorem NtSockContext.ntsRead_arrive {sock : NtSockContext} {nbytes : ℕ}
    (h : sock.ntsRead cfg nbytes = .returns retval buf sock') :
    (sock.arrive msgs).ntsRead cfg nbytes = .returns retval buf (sock'.arrive msgs) := by
  have hstate : (sock.arrive msgs).state = sock.state := rfl
  have hbuflen : (sock.arrive msgs).ntpBuflen = sock.ntpBuflen := rfl
  rw [ntsRead, ntsReadCopies] at h ⊢
  rw [hstate, hbuflen]
  split_ifs at h ⊢
  · cases h
    rfl
  · cases hring : sock.ntpRecvCtx with
    | nil => simp [hring] at h
    | cons m ms =>
      have hring' : (sock.arrive msgs).ntpRecvCtx = m :: (ms ++ msgs) := congrArg (· ++ msgs) hring
      simp only [hring, hring'] at h ⊢
      split_ifs at h ⊢
      · cases h
        rfl
      · have hloop := ReadFrame.readLoop_arrive msgs h
        simp only [ReadFrame.arrive] at hloop
        exact hloop
  · have hloop := ReadFrame.readLoop_arrive msgs h
    simp only [ReadFrame.arrive] at hloop
    exact hloop

end Arrive

end NtSocks
