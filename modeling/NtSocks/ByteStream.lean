import NtSocks.Lib.Runs
import NtSocks.NtsStream

/-!
# The byte stream between two sockets

Two sockets are connected by their message channels: what one of them sends arrives in the ring of
the other, unchanged and in order. The bytes returned by reads, the carry-over, and the messages
that are still under way always make up the bytes written.
-/

namespace NtSocks

namespace NtSockContext

variable {cfg : NtsConfig} {sock : NtSockContext} {buf : List UInt8}

def sendAll (sock : NtSockContext) (msgs : List NtpMsg) : NtSockContext :=
  { sock with ntpSendCtx := sock.ntpSendCtx ++ msgs }

def dataMsg (payload : List UInt8) : NtpMsg where
  msgType := .ntpData
  msgLen := UInt16.ofNat payload.length
  payload := payload

theorem sendMsg_ntpData (payload : List UInt8) :
    sock.sendMsg .ntpData payload = sock.sendAll [dataMsg payload] := rfl

theorem sendAll_sendAll (msgs msgs' : List NtpMsg) :
    (sock.sendAll msgs).sendAll msgs' = sock.sendAll (msgs ++ msgs') := by
  simp only [sendAll, List.append_assoc]

theorem dataMsg_ok {payload : List UInt8} (hpos : 0 < payload.length)
    (hle : payload.length ≤ cfg.maxPayloadsize) : (dataMsg payload).DataMsg cfg where
  data := rfl
  msgLen_eq := by
    have := cfg.maxPayloadsize_lt
    change (UInt16.ofNat payload.length).toNat = payload.length
    rw [UInt16.toNat_ofNat']
    omega
  pos := hpos
  le := hle

theorem writeLoop_sends (hM : 0 < cfg.maxPayloadsize) {fuel writeBytes : ℕ} (sock : NtSockContext)
    (hle : writeBytes ≤ buf.length) (hfuel : buf.length < writeBytes + fuel) :
    ∃ msgs, writeLoop cfg buf fuel writeBytes sock = some (buf.length, sock.sendAll msgs) ∧
      (∀ m ∈ msgs, m.DataMsg cfg) ∧ payloads msgs = buf.drop writeBytes := by
  induction fuel generalizing writeBytes sock with
  | zero => omega
  | succ fuel ih =>
    rw [writeLoop]
    generalize hnext : (if buf.length - writeBytes ≤ cfg.maxPayloadsize then
      buf.length - writeBytes else cfg.maxPayloadsize) = nextMsgLen
    by_cases hzero : nextMsgLen = 0
    · have hend : writeBytes = buf.length := by
        split at hnext <;> omega
      refine ⟨[], ?_, by simp, ?_⟩
      · simp only [if_pos hzero, hend, sendAll, List.append_nil]
      · rw [hend, List.drop_length, payloads_nil]
    · have hbound : nextMsgLen ≤ cfg.maxPayloadsize ∧ writeBytes + nextMsgLen ≤ buf.length := by
        split at hnext <;> omega
      have hlength : ((buf.drop writeBytes).take nextMsgLen).length = nextMsgLen := by
        rw [List.length_take, List.length_drop]
        omega
      obtain ⟨msgs, hloop, hmsgs, hpayloads⟩ :=
        ih (sock.sendMsg .ntpData ((buf.drop writeBytes).take nextMsgLen)) hbound.2 (by omega)
      refine ⟨dataMsg ((buf.drop writeBytes).take nextMsgLen) :: msgs, ?_, ?_, ?_⟩
      · simp only [if_neg hzero, hloop]
        rw [sendMsg_ntpData, sendAll_sendAll, List.singleton_append]
      · exact List.forall_mem_cons.mpr ⟨dataMsg_ok (by omega) (by omega), hmsgs⟩
      · rw [payloads_cons, hpayloads, ← List.drop_drop]
        exact List.take_append_drop _ _

theorem ntsWrite_sends (hM : 0 < cfg.maxPayloadsize) (hstate : sock.state = .established)
    (hpos : 0 < buf.length) (uninitialised : ℕ) :
    ∃ msgs, sock.ntsWrite cfg uninitialised buf = some ((buf.length : ℤ), sock.sendAll msgs) ∧
      (∀ m ∈ msgs, m.DataMsg cfg) ∧ payloads msgs = buf := by
  rw [ntsWrite, if_neg (by omega), if_neg (not_not.mpr hstate)]
  generalize hfirst : (if buf.length < cfg.maxPayloadsize then buf.length
    else cfg.maxPayloadsize) = msgLen
  have hbound : 0 < msgLen ∧ msgLen ≤ cfg.maxPayloadsize ∧ msgLen ≤ buf.length := by
    split at hfirst <;> omega
  have hlength : (buf.take msgLen).length = msgLen := by
    rw [List.length_take]
    omega
  obtain ⟨msgs, hloop, hmsgs, hpayloads⟩ :=
    writeLoop_sends hM (sock.sendMsg .ntpData (buf.take msgLen)) hbound.2.2
      (by omega : buf.length < msgLen + (buf.length + 1))
  refine ⟨dataMsg (buf.take msgLen) :: msgs, ?_, ?_, ?_⟩
  · simp only [hloop, Option.map_some]
    rw [sendMsg_ntpData, sendAll_sendAll, List.singleton_append]
  · exact List.forall_mem_cons.mpr ⟨dataMsg_ok (by omega) (by omega), hmsgs⟩
  · rw [payloads_cons, hpayloads]
    exact List.take_append_drop _ _

end NtSockContext

/-- Two connected sockets, with the bytes accepted by `nts_write` at one end and those returned by
`nts_read` at the other. -/
structure Stream where
  sender : NtSockContext
  receiver : NtSockContext
  written : List UInt8
  returned : List UInt8
  deriving DecidableEq, Repr

inductive StreamAct
  | write (buf : List UInt8)
  | transfer
  | read (nbytes : ℕ)
  | close
  deriving DecidableEq, Repr

/-- A socket as `nts_connect` or `nts_accept` leaves it. -/
def NtSockContext.fresh (sockid : ℕ) : NtSockContext where
  sockid := sockid
  state := .established
  ntpBuf := []
  ntpBuflen := 0
  ntpSendCtx := []
  ntpRecvCtx := []
  ntmFinSent := []

namespace Stream

def init (sockid sockid' : ℕ) : Stream where
  sender := .fresh sockid
  receiver := .fresh sockid'
  written := []
  returned := []

def transfer (s : Stream) : Option Stream :=
  match s.sender.ntpSendCtx with
  | [] => none
  | msg :: msgs =>
    let sender := s.sender
    some { s with
      sender := { sender with ntpSendCtx := msgs }
      receiver := s.receiver.arrive [msg] }

/-- A step completes one call. A call of `nts_read` that has to wait completes when the messages it
waits for have arrived; only a non-negative result returns bytes. -/
def step (cfg : NtsConfig) (s : Stream) : StreamAct → Option Stream
  | .write buf =>
    (s.sender.ntsWrite cfg 0 buf).map fun (retval, sender) =>
      { s with sender := sender, written := s.written ++ buf.take retval.toNat }
  | .transfer => s.transfer
  | .read nbytes =>
    match s.receiver.ntsRead cfg nbytes with
    | .returns retval buf receiver =>
      some { s with
        receiver := receiver
        returned := if 0 ≤ retval then s.returned ++ buf.take retval.toNat else s.returned }
    | .spins | .faults => none
  | .close =>
    if s.sender.state = .established then some { s with sender := s.sender.ntsClose } else none

def outstanding (s : Stream) : List UInt8 :=
  s.receiver.carry ++ (payloads s.receiver.ntpRecvCtx ++ payloads s.sender.ntpSendCtx)

end Stream

def StreamAct.Sized : StreamAct → Prop
  | .write buf => 0 < buf.length
  | .read nbytes => 0 < nbytes ∧ nbytes < 2 ^ 31
  | .transfer | .close => True

def finMsg : NtpMsg where
  msgType := .ntpFin
  msgLen := 0
  payload := []

def Stream.finTail (s : Stream) : List NtpMsg :=
  if s.sender.state = .waitFin then [finMsg] else []

variable {s : Stream}

theorem Stream.finTail_open (h : s.sender.state = .established) : s.finTail = [] := by
  rw [finTail, h]
  rfl

theorem Stream.fin_of_behind {fin : NtpMsg} {ring : List NtpMsg} (h : fin :: ring <+: s.finTail) :
    s.sender.state = .waitFin ∧ fin :: ring = [finMsg] := by
  rw [finTail] at h
  split at h
  case isTrue hclosed =>
    obtain ⟨rfl, hring⟩ := List.cons_prefix_cons.mp h
    exact ⟨hclosed, by rw [List.prefix_nil.mp hring]⟩
  · exact absurd (List.prefix_nil.mp h) (List.cons_ne_nil _ _)

structure Stream.Inv (cfg : NtsConfig) (s : Stream) : Prop where
  sender : s.sender.state = .established ∨ s.sender.state = .waitFin
  receiver : s.receiver.state = .established
  carryOk : s.receiver.CarryOk cfg
  rings : ∃ ds, (∀ d ∈ ds, d.DataMsg cfg) ∧
    s.receiver.ntpRecvCtx ++ s.sender.ntpSendCtx = ds ++ s.finTail
  bytes : s.returned ++ s.outstanding = s.written

namespace Stream.Inv

variable {cfg : NtsConfig} {s s' : Stream} {nbytes : ℕ}

theorem init (hM : 0 < cfg.maxPayloadsize) (sockid sockid' : ℕ) :
    Inv cfg (Stream.init sockid sockid') where
  sender := Or.inl rfl
  receiver := rfl
  carryOk := ⟨le_rfl, Int.natCast_pos.mpr hM, fun h => absurd h (lt_irrefl _)⟩
  rings := ⟨[], by simp, rfl⟩
  bytes := rfl

theorem ready (h : Inv cfg s) :
    ∃ ds tail us, s.receiver.Ready cfg ds tail ∧ tail <+: s.finTail ∧
      (∀ u ∈ us, u.DataMsg cfg) ∧ tail ++ s.sender.ntpSendCtx = us ++ s.finTail := by
  obtain ⟨ds, hds, hrings⟩ := h.rings
  rcases List.append_eq_append_iff.mp hrings with ⟨us, hall, hsend⟩ | ⟨tail, hrecv, hfin⟩
  · refine ⟨s.receiver.ntpRecvCtx, [], us, ⟨h.receiver, (List.append_nil _).symm, ?_, h.carryOk⟩,
      List.nil_prefix, ?_, hsend⟩
    · intro d hd
      exact hds d (by rw [hall]; exact List.mem_append_left _ hd)
    · intro u hu
      exact hds u (by rw [hall]; exact List.mem_append_right _ hu)
  · exact ⟨ds, tail, [], ⟨h.receiver, hrecv, hds, h.carryOk⟩, ⟨_, hfin.symm⟩, by simp, hfin.symm⟩

theorem ready_open (h : Inv cfg s) (hopen : s.sender.state = .established) :
    s.receiver.Ready cfg s.receiver.ntpRecvCtx [] := by
  obtain ⟨ds, tail, us, hready, htail, -⟩ := h.ready
  rw [finTail_open hopen, List.prefix_nil] at htail
  subst htail
  have hring : s.receiver.ntpRecvCtx = ds := hready.ring.trans (List.append_nil ds)
  rwa [hring]

theorem write (hM : 0 < cfg.maxPayloadsize) {buf : List UInt8} (hpos : 0 < buf.length)
    (h : Inv cfg s) (hstep : s.step cfg (.write buf) = some s') : Inv cfg s' := by
  by_cases hopen : s.sender.state = .established
  · obtain ⟨msgs, hwrite, hmsgs, hpayloads⟩ :=
      NtSockContext.ntsWrite_sends hM hopen hpos 0
    simp only [step, hwrite, Option.map_some, Option.some.injEq, Int.toNat_natCast,
      List.take_length] at hstep
    subst hstep
    have hnone := finTail_open hopen
    obtain ⟨ds, hds, hrings⟩ := h.rings
    rw [hnone, List.append_nil] at hrings
    refine ⟨Or.inl hopen, h.receiver, h.carryOk, ⟨ds ++ msgs, ?_, ?_⟩, ?_⟩
    · intro d hd
      exact (List.mem_append.mp hd).elim (hds d) (hmsgs d)
    · change s.receiver.ntpRecvCtx ++ (s.sender.ntpSendCtx ++ msgs) = ds ++ msgs ++ s.finTail
      rw [hnone, List.append_nil, ← hrings, List.append_assoc]
    · change s.returned ++ (s.receiver.carry ++ (payloads s.receiver.ntpRecvCtx ++
        payloads (s.sender.ntpSendCtx ++ msgs))) = s.written ++ buf
      rw [payloads_append, hpayloads, ← h.bytes]
      simp only [outstanding, List.append_assoc]
  · have hfails : s.sender.ntsWrite cfg 0 buf = some (-1, s.sender) := by
      rw [NtSockContext.ntsWrite, if_neg hpos.ne', if_pos hopen]
      rfl
    simp only [step, hfails, Option.map_some, Option.some.injEq] at hstep
    subst hstep
    exact ⟨h.sender, h.receiver, h.carryOk, h.rings, h.bytes.trans (List.append_nil _).symm⟩

theorem transfer (h : Inv cfg s) (hstep : s.step cfg .transfer = some s') : Inv cfg s' := by
  simp only [step, Stream.transfer] at hstep
  split at hstep
  · cases hstep
  case h_2 msg msgs hsend =>
    cases hstep
    obtain ⟨ds, hds, hrings⟩ := h.rings
    refine ⟨h.sender, h.receiver, ⟨h.carryOk.nonneg, h.carryOk.lt, h.carryOk.length_eq⟩,
      ⟨ds, hds, ?_⟩, ?_⟩
    · change s.receiver.ntpRecvCtx ++ [msg] ++ msgs = ds ++ s.finTail
      rw [← hrings, hsend, List.append_assoc, List.singleton_append]
    · have hbytes := h.bytes
      rw [outstanding, hsend, payloads_cons] at hbytes
      change s.returned ++ (s.receiver.carry ++ (payloads (s.receiver.ntpRecvCtx ++ [msg]) ++
        payloads msgs)) = s.written
      rw [← hbytes, payloads_append, payloads_cons, payloads_nil]
      simp only [List.append_assoc, List.nil_append]

theorem close (h : Inv cfg s) (hstep : s.step cfg .close = some s') : Inv cfg s' := by
  simp only [step] at hstep
  split at hstep
  case isTrue hopen =>
    cases hstep
    obtain ⟨ds, hds, hrings⟩ := h.rings
    have hnone := finTail_open hopen
    rw [hnone, List.append_nil] at hrings
    refine ⟨Or.inr rfl, h.receiver, h.carryOk, ⟨ds, hds, ?_⟩, ?_⟩
    · change s.receiver.ntpRecvCtx ++ (s.sender.ntpSendCtx ++ [finMsg]) = ds ++ [finMsg]
      rw [← hrings, List.append_assoc]
    · rw [← h.bytes]
      change _ ++ (_ ++ (_ ++ payloads (s.sender.ntpSendCtx ++ [finMsg]))) = _
      rw [payloads_append]
      simp only [outstanding, finMsg, payloads_cons, payloads_nil, List.append_nil]
  · cases hstep

theorem takes (h : Inv cfg s) {ds tail us : List NtpMsg} {k : List UInt8} {receiver : NtSockContext}
    (hready : s.receiver.Ready cfg ds tail) (hus : ∀ u ∈ us, u.DataMsg cfg)
    (hunder : tail ++ s.sender.ntpSendCtx = us ++ s.finTail)
    (htakes : Takes cfg nbytes (s.receiver.carry ++ payloads ds) tail k s.receiver receiver) :
    Inv cfg { s with receiver := receiver, returned := s.returned ++ k } := by
  obtain ⟨ds', hring, hds', hstream⟩ := htakes.rest
  refine ⟨h.sender, htakes.state_eq.trans h.receiver, htakes.carryOk, ⟨ds' ++ us, ?_, ?_⟩, ?_⟩
  · intro d hd
    exact (List.mem_append.mp hd).elim (hds' d) (hus d)
  · change receiver.ntpRecvCtx ++ s.sender.ntpSendCtx = ds' ++ us ++ s.finTail
    rw [hring, List.append_assoc, hunder, List.append_assoc]
  · have hbytes := h.bytes
    rw [outstanding, hready.ring, payloads_append, List.append_assoc, ← List.append_assoc,
      ← List.append_assoc, List.append_assoc s.returned, hstream] at hbytes
    change s.returned ++ k ++ (receiver.carry ++ (payloads receiver.ntpRecvCtx ++ _)) = s.written
    rw [← hbytes, hring, payloads_append]
    simp only [List.append_assoc]

theorem read (h : Inv cfg s) (hpos : 0 < nbytes) (hlt : nbytes < 2 ^ 31)
    (hstep : s.step cfg (.read nbytes) = some s') :
    (s'.sender = s.sender ∧ Inv cfg s') ∨
      (s.sender.state ≠ .established ∧ s'.receiver.state = .closed) := by
  obtain ⟨ds, tail, us, hready, htail, hus, hunder⟩ := h.ready
  by_cases hstarves : s.receiver.Starves cfg ds nbytes
  · obtain ⟨hspins, hfin⟩ := NtSockContext.ntsRead_starves hready (int32_of_lt hlt) hpos hstarves
    cases tail with
    | nil =>
      simp only [step, hspins rfl] at hstep
      cases hstep
    | cons fin ring =>
      obtain ⟨hclosed, hfinMsg⟩ := fin_of_behind htail
      have hread := hfin finMsg [] hfinMsg rfl
      simp only [step, hread] at hstep
      cases hstep
      exact Or.inr ⟨by rw [hclosed]; decide, rfl⟩
  · obtain ⟨k, receiver, hread, htakes⟩ :=
      NtSockContext.ntsRead_takes hready (int32_of_lt hlt) hpos hstarves
    simp only [step, hread, if_pos (Int.natCast_nonneg _), Int.toNat_natCast, List.take_length,
      Option.some.injEq] at hstep
    subst hstep
    exact Or.inl ⟨rfl, takes h hready hus hunder htakes⟩

end Stream.Inv

def StreamAct.OpenTraffic (a : StreamAct) : Prop := a.Sized ∧ a ≠ .close

variable {cfg : NtsConfig}

theorem Stream.open_step (hM : 0 < cfg.maxPayloadsize) {s' : Stream} {a : StreamAct}
    (h : s.sender.state = .established ∧ s.Inv cfg) (ha : a.OpenTraffic)
    (hstep : s.step cfg a = some s') : s'.sender.state = .established ∧ s'.Inv cfg := by
  obtain ⟨hopen, h⟩ := h
  obtain ⟨hsized, hne⟩ := ha
  cases a with
  | write buf =>
    refine ⟨?_, h.write hM hsized hstep⟩
    obtain ⟨msgs, hwrite, -⟩ := NtSockContext.ntsWrite_sends hM hopen hsized 0
    simp only [step, hwrite, Option.map_some, Option.some.injEq] at hstep
    subst hstep
    exact hopen
  | transfer =>
    refine ⟨?_, h.transfer hstep⟩
    simp only [step, Stream.transfer] at hstep
    split at hstep <;> cases hstep
    exact hopen
  | read nbytes =>
    rcases h.read hsized.1 hsized.2 hstep with ⟨hsender, h'⟩ | ⟨hclosed, -⟩
    · exact ⟨by rw [hsender, hopen], h'⟩
    · exact absurd hopen hclosed
  | close => exact absurd rfl hne

theorem Stream.open_run (hM : 0 < cfg.maxPayloadsize) {sockid sockid' : ℕ} {acts : List StreamAct}
    (hacts : ∀ a ∈ acts, a.OpenTraffic)
    (hrun : Runs.run (step cfg) (init sockid sockid') acts = some s) :
    s.sender.state = .established ∧ s.Inv cfg :=
  Runs.invariant_of_forall_mem (I := fun s => s.sender.state = .established ∧ s.Inv cfg)
    (fun _ _ _ h ha hstep => open_step hM h ha hstep) ⟨rfl, .init hM _ _⟩ hacts hrun

/-- The byte-stream contract of the socket interface. In every state that calls of `nts_write` and
completed calls of `nts_read` reach: the bytes returned, the carry-over and the messages not yet
read are the bytes written; a write sends its whole buffer in non-empty messages of at most
`max_payloadsize` bytes; and a read yields between one byte and the size of its buffer, unless it
has to wait for further messages. -/
theorem byte_stream_contract {cfg : NtsConfig} (hM : 1 ≤ cfg.maxPayloadsize) {sockid sockid' : ℕ}
    {acts : List StreamAct} (hacts : ∀ a ∈ acts, a.OpenTraffic) {s : Stream}
    (hrun : Runs.run (Stream.step cfg) (Stream.init sockid sockid') acts = some s) :
    s.returned ++ (s.receiver.carry ++
        (payloads s.receiver.ntpRecvCtx ++ payloads s.sender.ntpSendCtx)) = s.written ∧
      (∀ buf uninitialised, 1 ≤ buf.length → ∃ msgs,
        s.sender.ntsWrite cfg uninitialised buf = some ((buf.length : ℤ), s.sender.sendAll msgs) ∧
        payloads msgs = buf ∧
        ∀ m ∈ msgs, 1 ≤ m.payload.length ∧ m.payload.length ≤ cfg.maxPayloadsize) ∧
      ∀ nbytes, 1 ≤ nbytes → nbytes < 2 ^ 31 →
        (s.receiver.Starves cfg s.receiver.ntpRecvCtx nbytes ∧
          s.receiver.ntsRead cfg nbytes = .spins) ∨
        ∃ buf receiver, s.receiver.ntsRead cfg nbytes = .returns buf.length buf receiver ∧
          1 ≤ buf.length ∧ buf.length ≤ nbytes := by
  obtain ⟨hopen, h⟩ := Stream.open_run hM hacts hrun
  refine ⟨h.bytes, ?_, ?_⟩
  · intro buf uninitialised hpos
    obtain ⟨msgs, hwrite, hmsgs, hpayloads⟩ :=
      NtSockContext.ntsWrite_sends hM hopen hpos uninitialised
    exact ⟨msgs, hwrite, hpayloads, fun m hm => ⟨(hmsgs m hm).pos, (hmsgs m hm).le⟩⟩
  · intro nbytes hpos hlt
    have hready := h.ready_open hopen
    by_cases hstarves : s.receiver.Starves cfg s.receiver.ntpRecvCtx nbytes
    · have hspins := NtSockContext.ntsRead_starves hready (int32_of_lt hlt) hpos hstarves
      exact Or.inl ⟨hstarves, hspins.1 rfl⟩
    · obtain ⟨k, receiver, hread, htakes⟩ :=
        NtSockContext.ntsRead_takes hready (int32_of_lt hlt) hpos hstarves
      exact Or.inr ⟨k, receiver, hread, htakes.pos, htakes.le⟩

def fourBytes : NtsConfig where
  maxPayloadsize := 4
  maxPayloadsize_lt := by decide

theorem byte_stream_contract_seven_bytes :
    ∃ s, Runs.run (Stream.step fourBytes) (Stream.init 0 1)
        [.write [1, 2, 3, 4, 5, 6, 7], .transfer, .read 3, .transfer, .read 9, .read 9] = some s ∧
      s.returned = [1, 2, 3, 4, 5, 6, 7] ∧
      s.returned ++ (s.receiver.carry ++
        (payloads s.receiver.ntpRecvCtx ++ payloads s.sender.ntpSendCtx)) = s.written := by
  have hacts : ∀ a ∈ ([.write [1, 2, 3, 4, 5, 6, 7], .transfer, .read 3, .transfer, .read 9,
      .read 9] : List StreamAct), a.OpenTraffic := by
    simp [StreamAct.OpenTraffic, StreamAct.Sized]
  have hs : Runs.run (Stream.step fourBytes) (Stream.init 0 1) [.write [1, 2, 3, 4, 5, 6, 7],
      .transfer, .read 3, .transfer, .read 9, .read 9] = some _ := rfl
  exact ⟨_, hs, rfl, (byte_stream_contract (by decide) hacts hs).1⟩

end NtSocks
