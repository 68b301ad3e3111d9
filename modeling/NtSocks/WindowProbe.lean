import NtSocks.FlowControl

/-!
# The send window and the probe

`ntp_send_buff_data` compares the read index of the send ring with the read index that the peer
last reported. Both rings have `NTS_MAX_BUFS` entries, so the two indices are the counts of the
forwarded and of the reported messages, wrapped. The test `peer_read_index - read_index > 0` is
made on unsigned words and holds for every two different indices, in either order; the window is
right only where the peer index is not behind.

One connection is followed here. `forwarded` and `reported` are counts that no step reads, except
that a report is about messages already forwarded.
-/

namespace NtSocks

section TypeWord

theorem dataLenGetType_or (w v : UInt16) :
    dataLenGetType (w ||| v) = dataLenGetType w ||| dataLenGetType v := by
  unfold dataLenGetType
  rw [UInt16.shiftRight_or]
  apply UInt16.toBitVec_inj.mp
  simp only [UInt16.toBitVec_and, UInt16.toBitVec_or]
  ext i hi
  simp only [BitVec.getElem_and, BitVec.getElem_or, Bool.and_or_distrib_right]

theorem dataLenGetType_or_psh (w : UInt16) : dataLenGetType (w ||| psh) = dataLenGetType w := by
  rw [dataLenGetType_or, show dataLenGetType psh = 0 from rfl, UInt16.or_zero]

variable {cfg : NtpConfig} {link : SendSide} {msg : Ntpacket} {e : Enqueued}

theorem ntbDataMsgEnqueue_type (h : ntbDataMsgEnqueue cfg link msg = some e) :
    dataLenGetType e.msg.header.msgType = dataLenGetType msg.header.msgType := by
  have hrequest : ∀ request, dataLenGetType (msg.header.requestIndex request).msgType =
      dataLenGetType msg.header.msgType := by
    intro request
    obtain ⟨w, rfl | rfl, hreq⟩ := requestIndex_cases msg.header request
    · rw [hreq]
      rfl
    · rw [hreq]
      exact dataLenGetType_or_psh _
  simp only [ntbDataMsgEnqueue, Option.ite_none_left_eq_some] at h
  obtain ⟨-, h⟩ := h
  split at h <;> (obtain rfl := Option.some.inj h; exact hrequest _)

variable {srcPort dstPort : UInt16} {f f' : SendFrame} {m : NtpMsg}

theorem sendWhole_dataPacket {t : NtpacketType} {n : ℕ}
    (h : sendWhole cfg srcPort dstPort t n m f = some f') : f'.dataPacket = f.dataPacket := by
  obtain ⟨e, -, rfl⟩ := Option.map_eq_some_iff.mp h
  rfl

theorem sendMulti_dataPacket (h : sendMulti cfg srcPort dstPort m f = some f') :
    dataLenGetType f'.dataPacket.msgType ≠ 0 := by
  obtain ⟨e₁, -, h⟩ := Option.bind_eq_some_iff.mp h
  obtain ⟨⟨sent, f₁⟩, -, h⟩ := Option.bind_eq_some_iff.mp h
  obtain ⟨e₂, -, h⟩ := Option.bind_eq_some_iff.mp h
  obtain ⟨e, he, rfl⟩ := Option.map_eq_some_iff.mp h
  have htype := ntbDataMsgEnqueue_type he
  simp only [SendFrame.issueDataPacket, htype, ntbDataMsgAddHeader, dataLenGetType_or, ne_eq,
    UInt16.or_eq_zero_iff, not_and]
  exact fun _ => by decide

theorem sendData_dataPacket (h : sendData cfg srcPort dstPort m f = some f') :
    dataLenGetType f'.dataPacket.msgType = 0 ↔
      dataLenGetType f.dataPacket.msgType = 0 ∧ m.msgLen.toNat ≤ cfg.datapacketPayloadSize := by
  unfold sendData at h
  split at h
  · rename_i hshort
    rw [sendWhole_dataPacket h]
    simp [hshort]
  · rename_i hlong
    simp [sendMulti_dataPacket h, hlong]

/-- After the messages of a call the stack variable has a clean type word exactly if it had one
before and no message was longer than a slot. -/
theorem sendBulk_dataPacket {ring : Shmring NtpMsg} {cap bulk count count' : ℕ}
    {q rest : List NtpMsg} {state state' : ConnState} (h : ring.Holds cap q)
    (hsend : sendBulk cfg srcPort dstPort bulk q f state count =
      some (false, rest, f', state', count')) :
    dataLenGetType f'.dataPacket.msgType = 0 ↔ dataLenGetType f.dataPacket.msgType = 0 ∧
        ∀ m ∈ (takeBulk bulk ring).taken, m.msgLen.toNat ≤ cfg.datapacketPayloadSize := by
  induction bulk generalizing ring q f count with
  | zero =>
    cases hsend
    simp [takeBulk]
  | succ bulk ih =>
    cases q with
    | nil =>
      cases hsend
      rw [takeBulk, h.pop_empty]
      simp
    | cons m q =>
      obtain ⟨ring', hpop, h'⟩ := h.pop
      rw [takeBulk, hpop]
      rw [sendBulk] at hsend
      cases htype : m.msgType with
      | ntpFin =>
        rw [htype] at hsend
        obtain ⟨f₁, -, hsent⟩ := Option.map_eq_some_iff.mp hsend
        cases hsent
      | ntpData =>
        rw [htype] at hsend
        obtain ⟨f₁, hdata, hrest⟩ := Option.bind_eq_some_iff.mp hsend
        simp only [htype, ih h' hrest, sendData_dataPacket hdata, List.forall_mem_cons, and_assoc]

end TypeWord

theorem takeBulk_queues {ring : Shmring NtpMsg} {cap taken : ℕ} {xs : List NtpMsg}
    (h : ring.Queues cap xs taken) (bulk : ℕ) :
    (takeBulk bulk ring).ring.Queues cap xs (taken + (takeBulk bulk ring).taken.length) := by
  induction bulk generalizing ring taken with
  | zero => exact h
  | succ bulk ih =>
    by_cases hlt : taken < xs.length
    · obtain ⟨ring', hpop, h'⟩ := h.pop hlt
      rw [takeBulk, hpop]
      dsimp only
      split
      · exact h'
      · have hrest := ih h'
        rwa [List.length_cons, Nat.add_comm _ 1, ← Nat.add_assoc]
    · rw [takeBulk, h.pop_empty (by have := h.taken_le; omega)]
      exact h

theorem sendWindow_eq_iff {forwarded reported : ℕ} (hle : reported ≤ forwarded)
    (hlt : forwarded - reported < ntsMaxBufs) :
    sendWindow (forwarded % ntsMaxBufs) (reported % ntsMaxBufs) =
        ntsMaxBufs - 1 - (forwarded - reported) ↔
      forwarded % ntsMaxBufs ≤ reported % ntsMaxBufs := by
  unfold ntsMaxBufs at hlt
  unfold sendWindow u64Sub ntsMaxBufs
  dsimp only
  split <;> omega

structure WindowState where
  ring : Shmring NtpMsg
  peerReadIndex : ℕ
  detectTime : ℕ
  state : ConnState
  forwarded : ℕ
  reported : ℕ

/-- A call comes with the data link as the other threads left it and with whatever is on the
stack. A report is the number of messages that the peer application has read. -/
inductive WindowAct
  | write (msg : NtpMsg)
  | call (f : SendFrame) (currentTime : ℕ)
  | report (k : ℕ)

namespace WindowState

def init (detectTime : ℕ) (data : ℕ → NtpMsg) : WindowState where
  ring := Shmring.shmringCreate ntsMaxBufs data
  peerReadIndex := 0
  detectTime := detectTime
  state := .readyConn
  forwarded := 0
  reported := 0

variable (cfg : NtpConfig) (bulkSize : ℕ) (connId : UInt32) (s : WindowState)

def sendBuffData (f : SendFrame) (currentTime : ℕ) : Option SendOutcome :=
  ntpSendBuffData cfg bulkSize connId s.ring.contents s.state s.ring.readIdx s.peerReadIndex
    currentTime s.detectTime f

def step : WindowAct → Option WindowState
  | .write msg => (s.ring.shmringPush msg).map fun ring => { s with ring := ring }
  | .call f currentTime =>
    if s.state = .readyConn then
      (s.sendBuffData cfg bulkSize connId f currentTime).map fun out =>
        { s with
          ring := (takeBulk bulkSize s.ring).ring
          detectTime := out.detectTime
          state := out.state
          forwarded := s.forwarded + (takeBulk bulkSize s.ring).taken.length }
    else none
  | .report k =>
    if s.reported ≤ k ∧ k ≤ s.forwarded then
      some { s with peerReadIndex := k % ntsMaxBufs, reported := k }
    else none

def unreported : ℕ := s.forwarded - s.reported

def remaining : ℕ := ntsMaxBufs - 1 - s.unreported

def SendsDetect (f : SendFrame) (out : SendOutcome) : Prop :=
  ∃ rest f' state count e,
    sendBulk cfg (connId >>> 16).toUInt16 connId.toUInt16 bulkSize s.ring.contents f s.state 0 =
      some (false, rest, f', state, count) ∧
    ntbDataMsgEnqueue cfg f'.link
      { header := ntbDataMsgAddHeader f'.dataPacket (connId >>> 16).toUInt16 connId.toUInt16 0
          .detectPkg
        payload := [] } = some e ∧
    out.frame = f'.issueDataPacket e ∧
    dataLenGetType e.msg.header.msgType = NtpacketType.detectPkg.code

/-- The window is the number of remaining entries, and with fewer than 512 of them a call probes
as soon as the interval has passed. -/
def WindowRight : WindowAct → Prop
  | .call f currentTime =>
    sendWindow s.ring.readIdx s.peerReadIndex = s.remaining ∧
      ∀ out, s.state = .readyConn → s.sendBuffData cfg bulkSize connId f currentTime = some out →
        s.remaining < 512 → detectIntervalTime < u64Sub currentTime s.detectTime →
        s.SendsDetect cfg bulkSize connId f out
  | _ => True

/-- The peer index is not behind; and a call that has to probe meets no `NTP_FIN` message, takes no
message longer than a slot, and finds no type bits on the stack. -/
def WindowExact : WindowAct → Prop
  | .call f currentTime =>
    s.ring.readIdx ≤ s.peerReadIndex ∧
      ∀ out, s.state = .readyConn → s.sendBuffData cfg bulkSize connId f currentTime = some out →
        s.remaining < 512 → detectIntervalTime < u64Sub currentTime s.detectTime →
        (takeBulk bulkSize s.ring).fin = false ∧ dataLenGetType f.dataPacket.msgType = 0 ∧
          ∀ msg ∈ (takeBulk bulkSize s.ring).taken, msg.msgLen.toNat ≤ cfg.datapacketPayloadSize
  | _ => True

/-- The indices are the two counts, wrapped. -/
structure Counted : Prop where
  ring : ∃ xs, s.ring.Queues ntsMaxBufs xs s.forwarded
  peerReadIndex : s.peerReadIndex = s.reported % ntsMaxBufs
  reported_le : s.reported ≤ s.forwarded

variable {cfg bulkSize connId s} {s' : WindowState}

theorem init_counted (detectTime : ℕ) (data : ℕ → NtpMsg) : (init detectTime data).Counted where
  ring := ⟨[], Shmring.Queues.init (by decide) data⟩
  peerReadIndex := rfl
  reported_le := le_rfl

theorem Counted.step (h : s.Counted) {a : WindowAct}
    (hstep : s.step cfg bulkSize connId a = some s') : s'.Counted := by
  obtain ⟨xs, hq⟩ := h.ring
  cases a with
  | write msg =>
    obtain ⟨ring, hpush, rfl⟩ := Option.map_eq_some_iff.mp hstep
    have hroom : xs.length + 1 < s.forwarded + ntsMaxBufs := by
      refine lt_of_le_of_ne hq.length_lt fun hfull => ?_
      rw [hq.push_full hfull] at hpush
      cases hpush
    obtain ⟨ring', hpush', hq'⟩ := hq.push (x := msg) hroom
    obtain rfl : ring' = ring := Option.some.inj (hpush'.symm.trans hpush)
    exact ⟨⟨_, hq'⟩, h.peerReadIndex, h.reported_le⟩
  | call f currentTime =>
    simp only [WindowState.step, Option.ite_none_right_eq_some, Option.map_eq_some_iff] at hstep
    obtain ⟨-, out, -, rfl⟩ := hstep
    exact ⟨⟨xs, takeBulk_queues hq bulkSize⟩, h.peerReadIndex, h.reported_le.trans (by simp)⟩
  | report k =>
    simp only [WindowState.step, Option.ite_none_right_eq_some, Option.some.injEq] at hstep
    obtain ⟨⟨-, hk⟩, rfl⟩ := hstep
    exact ⟨⟨xs, hq⟩, rfl, hk⟩

theorem Counted.window_iff (h : s.Counted) (hlt : s.unreported < ntsMaxBufs) :
    sendWindow s.ring.readIdx s.peerReadIndex = s.remaining ↔ s.ring.readIdx ≤ s.peerReadIndex := by
  obtain ⟨xs, hq⟩ := h.ring
  rw [hq.readIdx, h.peerReadIndex]
  exact sendWindow_eq_iff h.reported_le hlt

/-- A completed call whose window is small and whose interval has passed probes exactly if no
message ended it; the packet has the type that the stack variable's word gives it. -/
theorem Counted.sendsDetect_iff (h : s.Counted) {f : SendFrame} {currentTime : ℕ}
    {out : SendOutcome} (hcall : s.sendBuffData cfg bulkSize connId f currentTime = some out)
    (hsmall : sendWindow s.ring.readIdx s.peerReadIndex < 512)
    (htime : detectIntervalTime < u64Sub currentTime s.detectTime) :
    s.SendsDetect cfg bulkSize connId f out ↔
      (takeBulk bulkSize s.ring).fin = false ∧ dataLenGetType f.dataPacket.msgType = 0 ∧
        ∀ msg ∈ (takeBulk bulkSize s.ring).taken,
          msg.msgLen.toNat ≤ cfg.datapacketPayloadSize := by
  obtain ⟨xs, hq⟩ := h.ring
  have hholds : s.ring.Holds ntsMaxBufs s.ring.contents :=
    ⟨xs, s.forwarded, hq, hq.contents_eq.symm⟩
  obtain ⟨⟨fin, rest, f', state, count⟩, hsend, hout⟩ := Option.bind_eq_some_iff.mp hcall
  obtain ⟨hfin, -⟩ := takeBulk_of_sendBulk hholds hsend
  constructor
  · rintro ⟨rest₁, f₁, state₁, count₁, e, hsend₁, he, -, htype⟩
    cases hsend.symm.trans hsend₁
    rw [ntbDataMsgEnqueue_type he, ntbDataMsgAddHeader, dataLenGetType_or] at htype
    exact ⟨hfin, (sendBulk_dataPacket hholds hsend).mp (UInt16.or_eq_zero_iff.mp htype).1⟩
  · rintro ⟨hnone, hclean⟩
    obtain rfl : fin = false := hfin.symm.trans hnone
    simp only [if_pos (And.intro hsmall htime), Option.map_eq_some_iff] at hout
    obtain ⟨e, he, rfl⟩ := hout
    refine ⟨rest, f', state, count, e, hsend, he, rfl, ?_⟩
    rw [ntbDataMsgEnqueue_type he, ntbDataMsgAddHeader, dataLenGetType_or,
      (sendBulk_dataPacket hholds hsend).mpr hclean]
    rfl

theorem Counted.right_iff (h : s.Counted) (hlt : s.unreported < ntsMaxBufs) (a : WindowAct) :
    s.WindowRight cfg bulkSize connId a ↔ s.WindowExact cfg bulkSize connId a := by
  cases a with
  | call f currentTime =>
    rw [WindowRight, WindowExact, h.window_iff hlt]
    refine and_congr_right fun hle => ?_
    have hwindow := (h.window_iff hlt).mpr hle
    refine forall_congr' fun out => imp_congr_right fun _ => imp_congr_right fun hcall =>
      imp_congr_right fun hsmall => imp_congr_right fun htime => ?_
    exact h.sendsDetect_iff hcall (hwindow ▸ hsmall) htime
  | write msg | report k => exact Iff.rfl

end WindowState

open WindowState in
/-- In every run in which fewer messages than the ring has entries are unreported, the window and
the probes are right at every call exactly if no call finds the peer index behind its own, and no
call that has to probe ends at a `NTP_FIN` message or has a used type word. -/
theorem window_right_iff (cfg : NtpConfig) (bulkSize : ℕ) (connId : UInt32) (detectTime : ℕ)
    (data : ℕ → NtpMsg) (acts : List WindowAct)
    (hcount : Runs.Along (step cfg bulkSize connId) (fun s _ => s.unreported < ntsMaxBufs)
      (init detectTime data) acts) :
    Runs.Along (step cfg bulkSize connId) (WindowRight cfg bulkSize connId)
        (init detectTime data) acts ↔
      Runs.Along (step cfg bulkSize connId) (WindowExact cfg bulkSize connId)
        (init detectTime data) acts := by
  have hgen : ∀ s : WindowState, s.Counted →
      Runs.Along (step cfg bulkSize connId) (fun s _ => s.unreported < ntsMaxBufs) s acts →
      (Runs.Along (step cfg bulkSize connId) (WindowRight cfg bulkSize connId) s acts ↔
        Runs.Along (step cfg bulkSize connId) (WindowExact cfg bulkSize connId) s acts) := by
    clear hcount
    induction acts with
    | nil => exact fun _ _ _ => Iff.rfl
    | cons a acts ih =>
        rintro s hs ⟨hlt, hrest⟩
        refine and_congr (hs.right_iff hlt a) ?_
        exact forall_congr' fun s' => forall_congr' fun hstep =>
          ih s' (hs.step hstep) (hrest s' hstep)
  exact hgen _ (init_counted detectTime data) hcount

section Sample

open WindowState

def oneByte : NtpMsg := { msgType := .ntpData, msgLen := 1, payload := [7] }

def emptyFrame : SendFrame where
  link := { curIndex := 0, localCumPtr := 0 }
  writes := []
  dataPacket := { srcPort := 0, dstPort := 0, msgLen := 0, msgType := 0 }

theorem window_right_reported :
    Runs.Along (step smallRing 1 (createConnId 1 2)) (WindowRight smallRing 1 (createConnId 1 2))
      (init 0 fun _ => oneByte)
      [.write oneByte, .call emptyFrame 0, .report 1, .call emptyFrame 0] := by
  apply (window_right_iff smallRing 1 (createConnId 1 2) 0 (fun _ => oneByte) _ ?_).mpr
  all_goals
    rw [Runs.along_cons_iff rfl, Runs.along_cons_iff rfl, Runs.along_cons_iff rfl,
      Runs.along_cons_iff rfl]
  · refine ⟨trivial, ⟨by decide, ?_⟩, trivial, ⟨by decide, ?_⟩, trivial⟩
    all_goals
      intro out _ _ hsmall
      exact absurd hsmall (by decide)
  · exact ⟨by decide, by decide, by decide, by decide, trivial⟩

theorem exists_unreported (n : ℕ) :
    ∃ acts s, Runs.run (step smallRing 1 (createConnId 1 2)) (init 0 fun _ => oneByte) acts =
        some s ∧ s.Counted ∧ s.ring.Holds ntsMaxBufs [] ∧ s.detectTime = 0 ∧
      s.state = .readyConn ∧ s.forwarded = n ∧ s.reported = 0 := by
  induction n with
  | zero =>
    exact ⟨[], _, rfl, init_counted 0 _, Shmring.Holds.init (by decide) _, rfl, rfl, rfl, rfl⟩
  | succ n ih =>
    obtain ⟨acts, s, hrun, hcounted, hring, htime, hstate, hforwarded, hreported⟩ := ih
    obtain ⟨ring, hpush, hring₁⟩ := hring.push (x := oneByte) (by decide)
    obtain ⟨ring', hpop, hring'⟩ := hring₁.pop
    have htake : takeBulk 1 ring = ⟨[oneByte], ring', false⟩ :=
      takeBulk_one Nat.one_pos rfl hpop hring'.pop_empty
    let s₁ : WindowState := { s with ring := ring }
    have hwrite : s.step smallRing 1 (createConnId 1 2) (.write oneByte) = some s₁ := by
      rw [WindowState.step, hpush]
      rfl
    obtain ⟨f, hdata⟩ : ∃ f, sendData smallRing (createConnId 1 2 >>> 16).toUInt16
        (createConnId 1 2).toUInt16 oneByte emptyFrame = some f := ⟨_, rfl⟩
    -- at time 0 no probe is due
    have hsend : s₁.sendBuffData smallRing 1 (createConnId 1 2) emptyFrame 0 =
        some ⟨f, [], .readyConn, 0, 1⟩ := by
      change ntpSendBuffData _ _ _ ring.contents s.state ring.readIdx s.peerReadIndex 0
        s.detectTime _ = _
      have hquiet : ¬ (sendWindow ring.readIdx s.peerReadIndex < 512 ∧
          detectIntervalTime < u64Sub 0 0) := fun h => absurd h.2 (by decide)
      rw [hring₁.contents_eq, htime, hstate, List.nil_append,
        ntpSendBuffData_one Nat.one_pos (createConnId 1 2) oneByte rfl _ _ _ _ _ hquiet, hdata]
      rfl
    have hcall : s₁.step smallRing 1 (createConnId 1 2) (.call emptyFrame 0) = some { s₁ with
          ring := ring'
          detectTime := 0
          state := .readyConn
          forwarded := s.forwarded + 1 } := by
      rw [WindowState.step, if_pos hstate, hsend, Option.map_some, htake]
      rfl
    refine ⟨acts ++ [.write oneByte, .call emptyFrame 0], _, ?_,
      (hcounted.step hwrite).step hcall, hring', rfl, rfl, ?_, hreported⟩
    · rw [Runs.run_append, hrun]
      exact Runs.run_cons_eq_some.mpr ⟨s₁, hwrite, Runs.run_cons_eq_some.mpr ⟨_, hcall, rfl⟩⟩
    · change s.forwarded + 1 = n + 1
      rw [hforwarded]

/-- With 600 messages forwarded and none reported, 423 entries remain; the window is nearly 2 ^ 64,
and a call long after the last probe sends nothing. -/
theorem unreported_messages_unprobed :
    ∃ acts s out, Runs.run (step smallRing 1 (createConnId 1 2)) (init 0 fun _ => oneByte) acts =
        some s ∧ s.unreported = 600 ∧ s.remaining = 423 ∧
      sendWindow s.ring.readIdx s.peerReadIndex = 2 ^ 64 - 601 ∧
      detectIntervalTime < u64Sub 1000000 s.detectTime ∧
      s.sendBuffData smallRing 1 (createConnId 1 2) emptyFrame 1000000 = some out ∧
      out.frame.writes = [] := by
  obtain ⟨acts, s, hrun, hcounted, hring, htime, hstate, hforwarded, hreported⟩ :=
    exists_unreported 600
  obtain ⟨xs, hq⟩ := hcounted.ring
  have hread : s.ring.readIdx = 600 := by
    rw [hq.readIdx, hforwarded]
    rfl
  have hpeer : s.peerReadIndex = 0 := by rw [hcounted.peerReadIndex, hreported]; rfl
  have hcount : s.unreported = 600 := by rw [unreported, hforwarded, hreported]
  refine ⟨acts, s, ⟨emptyFrame, [], .readyConn, 0, 0⟩, hrun, hcount,
    by rw [remaining, hcount]; rfl, ?_, ?_, ?_, rfl⟩
  · rw [hread, hpeer]
    decide
  · rw [htime]
    decide
  · rw [sendBuffData, hring.contents_eq, hread, hpeer, htime, hstate]
    rfl

end Sample

end NtSocks
