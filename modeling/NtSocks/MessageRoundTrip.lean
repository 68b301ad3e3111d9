import NtSocks.DataRingFifo
import NtSocks.MultiRecv

/-!
# Round trip of one message

One data message is taken from a send ring, written to the peer's ring and taken out there by the
receive loop. A message of one slot carries its type. The first slot of a longer message is
written without a type word, so the loop sees the word that earlier traffic left there, and the
message arrives exactly if that word happens to be the one of a multi-slot message.
-/

namespace NtSocks

theorem createConnId_toNat (srcPort dstPort : UInt16) :
    (createConnId srcPort dstPort).toNat = srcPort.toNat * 65536 + dstPort.toNat := by
  have hsrc := srcPort.toNat_lt
  have hdst := dstPort.toNat_lt
  simp only [createConnId, UInt32.toNat_add, UInt32.toNat_shiftLeft, UInt16.toNat_toUInt32,
    UInt32.reduceToNat, Nat.shiftLeft_eq, Nat.reduceMod, Nat.reducePow]
  omega

theorem createConnId_srcPort (srcPort dstPort : UInt16) :
    (createConnId srcPort dstPort >>> 16).toUInt16 = srcPort := by
  have hsrc := srcPort.toNat_lt
  have hdst := dstPort.toNat_lt
  apply UInt16.toNat_inj.mp
  simp only [UInt32.toNat_toUInt16, UInt32.toNat_shiftRight, createConnId_toNat,
    UInt32.reduceToNat, Nat.shiftRight_eq_div_pow, Nat.reduceMod, Nat.reducePow]
  omega

theorem createConnId_dstPort (srcPort dstPort : UInt16) :
    (createConnId srcPort dstPort).toUInt16 = dstPort := by
  have hdst := dstPort.toNat_lt
  apply UInt16.toNat_inj.mp
  rw [UInt32.toNat_toUInt16, createConnId_toNat]
  omega

/-- The iteration that takes the packet at the read index hands over `msg` and nothing else, and
leaves the read index at `index`. -/
def RecvState.Delivers (cfg : NtpConfig) (port2conn : Port2Conn) (r : RecvState) (c : ConnPtr)
    (msg : NtpMsg) (index : ℕ) : Prop :=
  ∃ r', r.recvStep cfg port2conn = some r' ∧ r'.handed = r.handed ++ [(c, msg)] ∧
    r'.curIndex = index

section

variable {cfg : NtpConfig} {port2conn : Port2Conn} {r : RecvState} {c : ConnPtr}
  {hdr : NtpacketHeader} {srcPort dstPort : UInt16} {msg : NtpMsg}

theorem RecvState.lookupConn_eq_some_iff (r : RecvState) (hsrc : hdr.srcPort = srcPort)
    (hdst : hdr.dstPort = dstPort) (hc : port2conn (createConnId dstPort srcPort) = some c) :
    r.lookupConn port2conn hdr = some c ↔
      (r.srcPort = dstPort ∧ r.dstPort = srcPort → r.conn = some c) := by
  subst hsrc hdst
  unfold lookupConn
  by_cases hsame : r.srcPort = hdr.dstPort ∧ r.dstPort = hdr.srcPort
  · rw [if_neg (by simpa only [not_or, not_not] using hsame)]
    exact ⟨fun h _ => h, fun h => h hsame⟩
  · rw [if_pos (by rwa [← not_and_or]), hc]
    exact ⟨fun _ h => absurd h hsame, fun _ => rfl⟩

theorem sendData_single (srcPort dstPort : UInt16) (f : SendFrame)
    (hshort : msg.payload.length + 8 ≤ cfg.dataPacketSize)
    (hlen : msg.msgLen.toNat = msg.payload.length)
    (hfree : f.link.nextIndex cfg ≠ f.link.localCumPtr) (hnil : f.writes = []) (m : Memory) :
    ∃ f' w, sendData cfg srcPort dstPort msg f = some f' ∧ f'.link.curIndex = f.link.nextIndex cfg ∧
      dataLenGetType w = NtpacketType.singlePkg.code ∧
      PacketWritten m (applyWrites m f'.writes) (cfg.slotAddr f.link.curIndex)
        ((packNtpacketHeader srcPort dstPort msg.payload.length .singlePkg).withType w)
        msg.payload := by
  have hP := cfg.dataPacketSize_lt
  let packet : Ntpacket :=
    { header := packNtpacketHeader srcPort dstPort msg.payload.length .singlePkg
      payload := msg.payload }
  have hmsgLen : packet.header.msgLen.toNat = 8 + msg.payload.length :=
    toNat_ofNat_header (by omega)
  obtain ⟨e, he⟩ := EnqueuePath.ntpacketEnqueue.enqueue_enabled packet hfree
  obtain ⟨-, hlink, w, hw, hwritten⟩ := EnqueuePath.enqueue_short (by omega) hmsgLen he
  refine ⟨f.issue e.link e.writes, w, ?_, ?_, ?_, ?_⟩
  · rw [sendData, NtpConfig.datapacketPayloadSize_eq _ (by omega), hlen, if_pos (by omega),
      sendWhole]
    exact congrArg (Option.map fun e => f.issue e.link e.writes) he
  · rw [SendFrame.issue_link, hlink, SendSide.advance_curIndex]
  · rcases hw with rfl | rfl
    · exact dataLenGetType_bits .singlePkg
    · exact dataLenGetType_bits_or_psh .singlePkg
  · rw [SendFrame.issue_writes, hnil, List.nil_append]
    exact hwritten m

theorem delivers_single (port2conn : Port2Conn) {w : UInt16} (hdata : msg.msgType = .ntpData)
    (hlen : msg.msgLen.toNat = msg.payload.length) (hmax : msg.payload.length ≤ 65527)
    (hheader : r.header cfg =
      (packNtpacketHeader srcPort dstPort msg.payload.length .singlePkg).withType w)
    (hw : dataLenGetType w = NtpacketType.singlePkg.code)
    (hpayload : r.mem.load (cfg.slotAddr r.curIndex + 8) msg.payload.length = msg.payload)
    (hready : (r.conns c).state = .readyConn) :
    r.Delivers cfg port2conn c msg (r.nextIndex cfg) ↔
      r.lookupConn port2conn (r.header cfg) = some c := by
  have hsub : UInt16.ofNat (8 + msg.payload.length) - 8 = msg.msgLen := by
    apply UInt16.toNat_inj.mp
    rw [toNat_ofNat_header_sub hmax, hlen]
  constructor
  · rintro ⟨r', hstep, hhanded, -⟩
    exact (RecvState.recvStep_handed hstep hhanded).1
  · intro hlookup
    obtain ⟨r', hstep, hH⟩ := RecvState.recvStep_handles (t := .singlePkg)
      (by rw [hheader]; exact ofNat_header_ne_zero hmax) (by rw [hheader]; exact hw)
      (by decide) hlookup hready
    refine ⟨r', hstep, ?_, hH.curIndex⟩
    have hmsg : NtpacketType.singlePkg.message (r.header cfg).msgLen msg.payload = some msg := by
      obtain ⟨type, len, payload⟩ := msg
      obtain rfl : type = .ntpData := hdata
      rw [hheader]
      exact congrArg (fun len => some (NtpMsg.mk .ntpData len payload)) hsub
    have hload : ((r.header cfg).msgLen - 8).toNat = msg.payload.length := by
      rw [hheader]
      exact toNat_ofNat_header_sub hmax
    rw [hH.handed, hload, hpayload, hmsg]
    rfl

theorem delivers_long (port2conn : Port2Conn) {shadow : ℕ} (hdata : msg.msgType = .ntpData)
    (hlen : msg.msgLen.toNat = msg.payload.length)
    (hr : MultiRoom cfg r.curIndex shadow msg.payload.length)
    (hmsg : LongMessage cfg r.mem r.curIndex hdr msg.payload)
    (hmsgLen : hdr.msgLen = UInt16.ofNat (8 + msg.payload.length))
    (hready : (r.conns c).state = .readyConn) :
    r.Delivers cfg port2conn c msg
        ((r.curIndex + dataSlots cfg msg.payload.length + 1) % cfg.capacity) ↔
      r.lookupConn port2conn hdr = some c ∧
        dataLenGetType hdr.msgType = NtpacketType.multiPkg.code := by
  have hheader : r.header cfg = hdr := hmsg.header
  have hstart := hr.start_lt
  have hcap := hr.slots_lt
  have hslots := hr.two_le_dataSlots
  constructor
  · rintro ⟨r', hstep, hhanded, hindex⟩
    obtain ⟨hlookup, hother⟩ := RecvState.recvStep_handed hstep hhanded
    rw [hheader] at hlookup hother
    refine ⟨hlookup, ?_⟩
    by_contra hne
    have heq := (hother hne).symm.trans hindex
    rw [RecvState.nextIndex, RingIndex.next_of_lt hstart] at heq
    exact RingIndex.mod_ne_of_window (by omega) (by omega) heq
  · rintro ⟨hlookup, htype⟩
    have hlive : (r.accept port2conn (r.header cfg)).liveConn = some c := by
      rw [RecvState.liveConn_eq_some, RecvState.accept_eq, hheader]
      exact ⟨hlookup, hready⟩
    rw [RecvState.Delivers, RecvState.recvStep_live cfg port2conn
      (by rw [hheader, hmsgLen]; exact ofNat_header_ne_zero hr.len_le) hlive, hheader, htype,
      RecvState.recvByType_multiPkg, RecvState.accept_eq]
    have hsub : hdr.msgLen - 8 = msg.msgLen := by
      apply UInt16.toNat_inj.mp
      rw [hmsgLen, toNat_ofNat_header_sub hr.len_le, hlen]
    obtain ⟨r', hmulti, hhanded, hindex⟩ := RecvState.recvMulti_delivers (c := c)
      (s := { r with
        srcPort := hdr.dstPort
        dstPort := hdr.srcPort
        conn := r.lookupConn port2conn hdr
        recvPacketCounter := r.recvPacketCounter + 1
        remoteCumWrites := r.remoteCumWrites ++ r.pshWrites hdr }) hr hmsg hmsgLen
    refine ⟨r'.publishAtInterval, by rw [hmulti, Option.map_some], ?_, ?_⟩
    · rw [RecvState.publishAtInterval_eq]
      change r'.handed = _
      rw [hhanded, hsub]
      obtain ⟨type, len, payload⟩ := msg
      obtain rfl : type = .ntpData := hdata
      rfl
    · rw [RecvState.publishAtInterval_eq]
      exact hindex

end

/-- A data message for which the peer's ring, of slots of a power of two, has enough free slots. -/
structure Sendable (cfg : NtpConfig) (link : SendSide) (msg : NtpMsg) : Prop where
  packet_eq : cfg.dataPacketSize = cfg.stride
  header_lt : 8 < cfg.dataPacketSize
  curIndex_lt : link.curIndex < cfg.capacity
  localCumPtr_lt : link.localCumPtr < cfg.capacity
  data : msg.msgType = .ntpData
  msgLen_eq : msg.msgLen.toNat = msg.payload.length
  len_le : msg.payload.length ≤ 65527
  room : messageSlots cfg msg.payload.length ≤ link.freeSlots cfg

namespace Sendable

variable {cfg : NtpConfig} {link : SendSide} {msg : NtpMsg} {r : RecvState}
  {port2conn : Port2Conn} {c : ConnPtr} {srcPort dstPort : UInt16}

theorem messageSlots_eq (h : Sendable cfg link msg) :
    messageSlots cfg msg.payload.length = if msg.payload.length + 8 ≤ cfg.dataPacketSize then 1
      else dataSlots cfg msg.payload.length + 1 := by
  have h8 := h.header_lt
  unfold messageSlots
  rw [NtpConfig.datapacketPayloadSize_eq _ h8.le]
  exact if_congr (by omega) rfl rfl

theorem multiRoom (h : Sendable cfg link msg)
    (hlong : ¬ msg.payload.length + 8 ≤ cfg.dataPacketSize) :
    MultiRoom cfg link.curIndex link.localCumPtr msg.payload.length := by
  have hroom := h.room
  rw [h.messageSlots_eq, if_neg hlong] at hroom
  exact {
    packet_eq := h.packet_eq
    header_lt := h.packet_eq ▸ h.header_lt
    start_lt := h.curIndex_lt
    slots_lt := hroom.trans_lt (SendSide.freeSlots_lt (Nat.zero_lt_of_lt h.curIndex_lt))
    room := fun j hpos hj =>
      SendSide.mod_ne_shadow h.curIndex_lt h.localCumPtr_lt hpos (hj.trans hroom)
    long := by have := h.packet_eq; omega
    len_le := h.len_le }

theorem nextIndex_ne (h : Sendable cfg link msg) : link.nextIndex cfg ≠ link.localCumPtr := by
  have hcur := h.curIndex_lt
  have hone : 1 ≤ messageSlots cfg msg.payload.length := by
    rw [h.messageSlots_eq]
    split <;> omega
  rw [SendSide.nextIndex, RingIndex.next_of_lt hcur]
  exact SendSide.mod_ne_shadow hcur h.localCumPtr_lt Nat.one_pos (hone.trans h.room)

/-- Forwarding one message succeeds, and the loop hands it to its connection exactly if the lookup
finds that connection and the type word of the first slot is right. -/
theorem sendData_delivers_iff (h : Sendable cfg link msg) (dataPacket : NtpacketHeader)
    (hcur : r.curIndex = link.curIndex) (hc : port2conn (createConnId dstPort srcPort) = some c)
    (hready : (r.conns c).state = .readyConn) :
    ∃ f, sendData cfg srcPort dstPort msg
        { link := link, writes := [], dataPacket := dataPacket } = some f ∧
      ((r.remoteWrite f.writes).Delivers cfg port2conn c msg f.link.curIndex ↔
        (r.srcPort = dstPort ∧ r.dstPort = srcPort → r.conn = some c) ∧
          (msg.payload.length + 8 ≤ cfg.dataPacketSize ∨
            dataLenGetType (NtpacketHeader.read r.mem (cfg.slotAddr link.curIndex)).msgType =
              NtpacketType.multiPkg.code)) := by
  by_cases hshort : msg.payload.length + 8 ≤ cfg.dataPacketSize
  · obtain ⟨f, w, hsend, hindex, hw, hwritten⟩ := sendData_single srcPort dstPort
      { link := link, writes := [], dataPacket := dataPacket } hshort h.msgLen_eq h.nextIndex_ne rfl
      r.mem
    refine ⟨f, hsend, ?_⟩
    have hheader : (r.remoteWrite f.writes).header cfg =
        (packNtpacketHeader srcPort dstPort msg.payload.length .singlePkg).withType w := by
      rw [RecvState.header, RecvState.remoteWrite_mem, RecvState.remoteWrite_curIndex, hcur]
      exact hwritten.header_eq
    have hload : (r.remoteWrite f.writes).mem.load
        (cfg.slotAddr (r.remoteWrite f.writes).curIndex + 8) msg.payload.length = msg.payload := by
      rw [RecvState.remoteWrite_mem, RecvState.remoteWrite_curIndex, hcur]
      exact hwritten.payload_eq
    have hnext : f.link.curIndex = (r.remoteWrite f.writes).nextIndex cfg := by
      rw [hindex, RecvState.nextIndex, RecvState.remoteWrite_curIndex, hcur, SendSide.nextIndex]
    have hdelivers := delivers_single (c := c) port2conn h.data h.msgLen_eq h.len_le hheader
      hw hload hready
    have hlookup : (r.remoteWrite f.writes).lookupConn port2conn
        ((r.remoteWrite f.writes).header cfg) = some c ↔
        (r.srcPort = dstPort ∧ r.dstPort = srcPort → r.conn = some c) :=
      RecvState.lookupConn_eq_some_iff (r.remoteWrite f.writes) (by rw [hheader]; rfl)
        (by rw [hheader]; rfl) hc
    rw [hnext, hdelivers, hlookup]
    exact (and_iff_left (Or.inl hshort)).symm
  · have hr := h.multiRoom hshort
    obtain ⟨f, hsend, hindex, hmessage⟩ := sendMulti_sent (m := r.mem) srcPort dstPort
      { link := link, writes := [], dataPacket := dataPacket } h.msgLen_eq hr rfl rfl rfl
    refine ⟨f, ?_, ?_⟩
    · have h8 := h.header_lt
      rw [sendData, NtpConfig.datapacketPayloadSize_eq _ h8.le, h.msgLen_eq, if_neg (by omega)]
      exact hsend
    · rw [← hcur] at hr hindex hmessage
      have hdelivers := delivers_long (c := c) (r := r.remoteWrite f.writes) port2conn h.data
        h.msgLen_eq hr hmessage rfl hready
      rw [hindex, ← hcur]
      exact hdelivers.trans (and_congr (RecvState.lookupConn_eq_some_iff _ rfl rfl hc)
        (or_iff_right hshort).symm)

end Sendable

/-- Round trip of a message over the link. The sender takes the message from the send ring, with
whatever stands behind it there, and goes on from the frame `f`; without further messages and with
no probe to send the call ends there. The ring contents before the message are those of the receiver
`r`. -/
theorem message_round_trip_iff {cfg : NtpConfig} {link : SendSide} {msg : NtpMsg}
    (h : Sendable cfg link msg) (srcPort dstPort : UInt16) (dataPacket : NtpacketHeader)
    {r : RecvState} (hcur : r.curIndex = link.curIndex) (port2conn : Port2Conn) {c : ConnPtr}
    (hc : port2conn (createConnId dstPort srcPort) = some c)
    (hready : (r.conns c).state = .readyConn) :
    ∃ f, (∀ bulk rest state count, sendBulk cfg srcPort dstPort (bulk + 1) (msg :: rest)
            { link := link, writes := [], dataPacket := dataPacket } state count =
          sendBulk cfg srcPort dstPort bulk rest f state (count + 1)) ∧
      (∀ bulkSize state readIndex peerReadIndex currentTime detectTime, 0 < bulkSize →
        ¬ (sendWindow readIndex peerReadIndex < 512 ∧
          detectIntervalTime < u64Sub currentTime detectTime) →
        ntpSendBuffData cfg bulkSize (createConnId srcPort dstPort) [msg] state readIndex
            peerReadIndex currentTime detectTime
            { link := link, writes := [], dataPacket := dataPacket } =
          some ⟨f, [], state, detectTime, 1⟩) ∧
      ((r.remoteWrite f.writes).Delivers cfg port2conn c msg f.link.curIndex ↔
        (r.srcPort = dstPort ∧ r.dstPort = srcPort → r.conn = some c) ∧
          (msg.payload.length + 8 ≤ cfg.dataPacketSize ∨
            dataLenGetType (NtpacketHeader.read r.mem (cfg.slotAddr link.curIndex)).msgType =
              NtpacketType.multiPkg.code)) := by
  obtain ⟨f, hsend, hiff⟩ := h.sendData_delivers_iff dataPacket hcur hc hready
  refine ⟨f, fun bulk rest state count => ?_, ?_, hiff⟩
  · rw [sendBulk, h.data, hsend]
    rfl
  · intro bulkSize state readIndex peerReadIndex currentTime detectTime hbulk hquiet
    rw [ntpSendBuffData_one hbulk _ msg h.data _ _ _ _ _ hquiet, createConnId_srcPort,
      createConnId_dstPort, hsend, Option.map_some]

def dataMessage (payload : List UInt8) : NtpMsg where
  msgType := .ntpData
  msgLen := UInt16.ofNat payload.length
  payload := payload

theorem message_round_trip_iff_one_byte :
    ∃ o, ntpSendBuffData smallRing 1 (createConnId 1 2) [dataMessage [7]] .readyConn 0 0 0 0
        { link := { curIndex := 0, localCumPtr := 0 }, writes := [],
          dataPacket := { srcPort := 0, dstPort := 0, msgLen := 0, msgType := 0 } } = some o ∧
      ((LinkState.init allReady none).recv.remoteWrite o.frame.writes).Delivers smallRing onePort 0
        (dataMessage [7]) o.frame.link.curIndex := by
  have hsendable : Sendable smallRing { curIndex := 0, localCumPtr := 0 } (dataMessage [7]) :=
    ⟨by decide, by decide, by decide, by decide, by decide, by decide, by decide, by decide⟩
  obtain ⟨f, -, hsend, hiff⟩ := message_round_trip_iff hsendable 1 2
    { srcPort := 0, dstPort := 0, msgLen := 0, msgType := 0 }
    (r := (LinkState.init allReady none).recv) rfl onePort (c := 0) (by decide) rfl
  exact ⟨_, hsend 1 .readyConn 0 0 0 0 Nat.one_pos (by decide),
    hiff.mpr ⟨by decide, Or.inl (by decide)⟩⟩

theorem RecvState.run_idle {cfg : NtpConfig} {port2conn : Port2Conn} {r r' : RecvState}
    (hempty : (r.header cfg).msgLen = 0) {k : ℕ}
    (h : Runs.run (fun r (_ : Unit) => r.recvStep cfg port2conn) r (List.replicate k ()) = some r')
    : r' = r := by
  induction k with
  | zero => exact (Option.some.inj h).symm
  | succ k ih =>
    rw [List.replicate_succ, Runs.run_cons, recvStep_empty cfg port2conn hempty] at h
    exact ih h

/-- Nine zero bytes sent to a fresh ring never reach the application: the loop takes the first slot
for a probe and then waits at the second one. -/
theorem long_message_lost :
    Sendable smallRing { curIndex := 0, localCumPtr := 0 } (dataMessage (List.replicate 9 0)) ∧
      ∃ o, ntpSendBuffData smallRing 1 (createConnId 1 2) [dataMessage (List.replicate 9 0)]
          .readyConn 0 0 0 0
          { link := { curIndex := 0, localCumPtr := 0 }, writes := [],
            dataPacket := { srcPort := 0, dstPort := 0, msgLen := 0, msgType := 0 } } = some o ∧
        ∀ k r, Runs.run (fun r (_ : Unit) => r.recvStep smallRing onePort)
          ((LinkState.init allReady none).recv.remoteWrite o.frame.writes) (List.replicate k ()) =
            some r → r.handed = [] := by
  refine ⟨⟨by decide, by decide, by decide, by decide, by decide, by decide, by decide, by decide⟩,
    _, rfl, ?_⟩
  intro k r hrun
  cases k with
  | zero =>
      obtain rfl := Option.some.inj hrun
      rfl
  | succ k =>
      obtain ⟨r₁, hfirst, hrest⟩ := Runs.run_cons_eq_some.mp hrun
      obtain rfl := Option.some.inj hfirst
      have hempty := RecvState.run_idle (by decide) hrest
      rw [hempty]
      rfl

end NtSocks
