import NtSocks.ByteStream

/-!
# When `nts_read` returns, and what it copies

`nts_read` keeps the size of the caller's buffer in an `int`, and after a message of full size that
leaves room in the buffer it waits for the next message. So a call returns data that is there only
if the size is positive as an `int`, and the data ends with a short message or fills the buffer.
What does not fit the buffer goes to `ntp_buf`, which has room for less than a message of full size.
-/

namespace NtSocks

/-- The lengths and counts of a call: no copy has a negative length or leaves the caller's buffer,
the carry-over stays shorter than a message, and a call that succeeds has read between one byte and
`nbytes`. -/
structure LengthsRight (cfg : NtsConfig) (nbytes : ℕ) (call : List ReadCopy × ReadOutcome) :
    Prop where
  nonneg : ∀ copy ∈ call.1, 0 ≤ copy.len
  inBuf : ∀ copy ∈ call.1, ∀ offset, copy.target = .buf offset → offset + copy.len ≤ nbytes
  buflen : ∀ retval buf sock, call.2 = .returns retval buf sock →
    0 ≤ sock.ntpBuflen ∧ sock.ntpBuflen < cfg.maxPayloadsize
  count : ∀ retval buf sock, call.2 = .returns retval buf sock → retval ≠ -1 →
    1 ≤ retval ∧ retval ≤ nbytes

/-- The lengths of the data messages in front of a `NTP_FIN`. -/
def dataLengths (ring : List NtpMsg) : List ℕ :=
  (ring.takeWhile fun msg => msg.msgType ≠ .ntpFin).map fun msg => msg.msgLen.toNat

/-- What a call finds: the carry-over, if there is one, and the data messages. -/
def NtSockContext.atHand (sock : NtSockContext) : List ℕ :=
  if sock.ntpBuflen ≤ 0 then dataLengths sock.ntpRecvCtx
  else sock.ntpBuflen.toNat :: dataLengths sock.ntpRecvCtx

/-- A buffer with `room` bytes left that is filled within a message which is not a short one leaves
less than `maxPayloadsize` bytes of it. -/
def LeavesLess (maxPayloadsize : ℕ) : ℤ → List ℕ → Prop
  | _, [] => True
  | room, len :: lens =>
    if len < maxPayloadsize then True
    else if room ≤ len then len - room < maxPayloadsize
    else LeavesLess maxPayloadsize (room - len) lens

variable {msg : NtpMsg}

theorem dataLengths_cons (ring : List NtpMsg) (h : msg.msgType ≠ .ntpFin) :
    dataLengths (msg :: ring) = msg.msgLen.toNat :: dataLengths ring := by
  simp [dataLengths, h]

theorem dataLengths_fin (ring : List NtpMsg) (h : msg.msgType = .ntpFin) :
    dataLengths (msg :: ring) = [] := by
  simp [dataLengths, h]

theorem int32_le (n : ℕ) : int32 n ≤ n := by
  unfold int32
  rw [Int.bmod_def]
  omega

namespace LengthsRight

variable {cfg : NtsConfig} {nbytes : ℕ} {copies : List ReadCopy}

theorem of_finish {buf : List UInt8} {sock : NtSockContext}
    (hcopies : ∀ copy ∈ copies, 0 ≤ copy.len ∧
      ∀ offset, copy.target = .buf offset → offset + copy.len ≤ nbytes)
    (hbuflen : 0 ≤ sock.ntpBuflen ∧ sock.ntpBuflen < cfg.maxPayloadsize)
    (hcount : 0 < buf.length ∧ buf.length ≤ nbytes) :
    LengthsRight cfg nbytes (copies, ReadFrame.finish buf sock) := by
  refine ⟨fun copy hcopy => (hcopies copy hcopy).1, fun copy hcopy => (hcopies copy hcopy).2, ?_,
    ?_⟩
  · rintro retval buf' sock' ⟨⟩
    exact hbuflen
  · rintro retval buf' sock' ⟨⟩ -
    omega

theorem of_failure (hcopies : ∀ copy ∈ copies, 0 ≤ copy.len ∧
      ∀ offset, copy.target = .buf offset → offset + copy.len ≤ nbytes) {outcome : ReadOutcome}
    (hfails : ∀ retval buf sock, outcome = .returns retval buf sock →
      retval = -1 ∧ 0 ≤ sock.ntpBuflen ∧ sock.ntpBuflen < cfg.maxPayloadsize) :
    LengthsRight cfg nbytes (copies, outcome) :=
  ⟨fun copy hcopy => (hcopies copy hcopy).1, fun copy hcopy => (hcopies copy hcopy).2,
    fun retval buf sock h => (hfails retval buf sock h).2,
    fun retval buf sock h hne => absurd (hfails retval buf sock h).1 hne⟩

theorem cons_iff {copy : ReadCopy} {call : List ReadCopy × ReadOutcome}
    (hcopy : 0 ≤ copy.len ∧ ∀ offset, copy.target = .buf offset → offset + copy.len ≤ nbytes) :
    LengthsRight cfg nbytes (call.map (copy :: ·) id) ↔ LengthsRight cfg nbytes call := by
  constructor
  · intro h
    exact ⟨fun c hc => h.nonneg c (List.mem_cons_of_mem _ hc),
      fun c hc => h.inBuf c (List.mem_cons_of_mem _ hc), h.buflen, h.count⟩
  · intro h
    exact ⟨List.forall_mem_cons.mpr ⟨hcopy.1, h.nonneg⟩,
      List.forall_mem_cons.mpr ⟨hcopy.2, h.inBuf⟩, h.buflen, h.count⟩

end LengthsRight

namespace ReadFrame

variable {cfg : NtsConfig} {f : ReadFrame} {nbytes : ℕ}

theorem copyLoop_tooSmall (hleft : 0 < f.bytesLeft) (hlt : f.bufAvailBytes < f.bytesLeft)
    (fuel : ℕ) : copyLoop cfg (fuel + 1) f = (f.partCopies, f.copyPart) := by
  rw [copyLoop, if_neg (not_le.mpr hleft), if_neg (not_le.mpr hlt), if_pos hlt.le, if_neg hlt.ne,
    ite_self]

/-- The messages have the length of their headers, and the variables of the loop fit together. -/
structure Bounded (cfg : NtsConfig) (nbytes : ℕ) (f : ReadFrame) : Prop where
  ring : ∀ msg ∈ f.sock.ntpRecvCtx, msg.msgLen.toNat = msg.payload.length
  bytesLeft_eq : f.bytesLeft = f.payload.length
  total : f.buf.length + f.bufAvailBytes ≤ nbytes
  buflen : 0 ≤ f.sock.ntpBuflen ∧ f.sock.ntpBuflen < cfg.maxPayloadsize
  fresh : f.isCached = false → f.sock.ntpBuflen = 0
  cached : f.isCached = true → f.payload.length < cfg.maxPayloadsize

namespace Bounded

variable (h : f.Bounded cfg nbytes)
include h

theorem emptyCache : 0 ≤ f.emptyCache.ntpBuflen ∧ f.emptyCache.ntpBuflen < cfg.maxPayloadsize := by
  have hbuflen := h.buflen
  unfold ReadFrame.emptyCache
  split
  · exact ⟨le_rfl, by simp only [NtSockContext.cache]; omega⟩
  · exact hbuflen

theorem whole (hle : f.bytesLeft ≤ f.bufAvailBytes) :
    0 ≤ f.bytesLeft ∧ ∀ offset, CopyTarget.buf f.buf.length = .buf offset →
      offset + f.bytesLeft ≤ nbytes := by
  have hlen := h.bytesLeft_eq
  have htotal := h.total
  refine ⟨by omega, ?_⟩
  rintro offset ⟨⟩
  omega

theorem finish_whole (hleft : 0 < f.bytesLeft) (hle : f.bytesLeft ≤ f.bufAvailBytes) :
    LengthsRight cfg nbytes ([⟨.buf f.buf.length, f.bytesLeft⟩],
      finish (f.buf ++ f.payload.take f.bytesLeft.toNat) f.emptyCache) := by
  have hlen := h.bytesLeft_eq
  have htotal := h.total
  refine .of_finish (List.forall_mem_singleton.mpr (h.whole hle)) h.emptyCache ?_
  rw [List.length_append, List.length_take]
  omega

theorem copyPart_iff (hroom : 0 < f.bufAvailBytes) (hlt : f.bufAvailBytes < f.bytesLeft) :
    LengthsRight cfg nbytes (f.partCopies, f.copyPart) ↔
      f.bytesLeft - f.bufAvailBytes < cfg.maxPayloadsize := by
  have hlen := h.bytesLeft_eq
  have htotal := h.total
  rw [copyPart, if_neg (by omega)]
  constructor
  · intro hright
    exact (hright.buflen _ _ _ rfl).2
  · intro hrest
    refine .of_finish ?_ ⟨by simp only [NtSockContext.cache]; omega, hrest⟩ ?_
    · rw [partCopies, List.forall_mem_cons, List.forall_mem_singleton]
      refine ⟨⟨hroom.le, ?_⟩, ⟨by simp only; omega, ?_⟩⟩
      · rintro offset ⟨⟩
        exact htotal
      · rintro offset ⟨⟩
    · rw [List.length_append, List.length_take]
      omega

theorem next (hfresh : f.isCached = false) {msg : NtpMsg}
    {ring : List NtpMsg} (hring : f.sock.ntpRecvCtx = msg :: ring) :
    Bounded cfg nbytes ⟨f.sock.popRing ring, msg.payload, f.isCached,
      f.bufAvailBytes - f.bytesLeft, msg.msgLen.toNat,
      f.buf ++ f.payload.take f.bytesLeft.toNat⟩ := by
  have hlens := h.ring
  have hlen := h.bytesLeft_eq
  have htotal := h.total
  rw [hring] at hlens
  obtain ⟨hmsg, hlens⟩ := List.forall_mem_cons.mp hlens
  refine ⟨hlens, congrArg Nat.cast hmsg, ?_, h.buflen, h.fresh, ?_⟩
  · simp only [List.length_append, List.length_take]
    omega
  · exact fun hcached => absurd (hcached.symm.trans hfresh) (by decide)

end Bounded

/-- With room in the buffer and something to copy, the loop keeps its lengths right exactly if the
message in which the buffer ends leaves less than a message of full size. -/
theorem copyLoop_right_iff (h : f.Bounded cfg nbytes) {fuel : ℕ} (hroom : 0 < f.bufAvailBytes)
    (hfuel : f.bufAvailBytes ≤ fuel) (hsome : 0 < f.buf.length + f.payload.length) :
    LengthsRight cfg nbytes (copyLoop cfg fuel f) ↔ LeavesLess cfg.maxPayloadsize f.bufAvailBytes
        (f.payload.length :: dataLengths f.sock.ntpRecvCtx) := by
  induction fuel generalizing f with
  | zero => exact absurd hroom (by omega)
  | succ fuel ih =>
    have hlen := h.bytesLeft_eq
    have htotal := h.total
    rw [copyLoop, LeavesLess]
    by_cases hzero : f.bytesLeft ≤ 0
    · have hshort : f.payload.length < cfg.maxPayloadsize := by
        have := h.buflen
        omega
      rw [if_pos hzero, if_pos hshort]
      exact iff_of_true (.of_finish (List.forall_mem_nil _) h.buflen (by omega)) trivial
    rw [if_neg hzero]
    by_cases hshort : f.bytesLeft < cfg.maxPayloadsize
    · have hshort' : f.payload.length < cfg.maxPayloadsize := by omega
      rw [if_pos hshort, if_pos hshort']
      refine iff_of_true ?_ trivial
      by_cases hfits : f.bytesLeft ≤ f.bufAvailBytes
      · rw [if_pos hfits]
        exact h.finish_whole (by omega) hfits
      · rw [if_neg hfits]
        exact (h.copyPart_iff hroom (by omega)).mpr (by omega)
    have hlong : ¬ f.payload.length < cfg.maxPayloadsize := by omega
    rw [if_neg hshort, if_neg hlong, ← hlen]
    by_cases hend : f.bufAvailBytes ≤ f.bytesLeft
    · rw [if_pos hend, if_pos hend]
      by_cases heq : f.bufAvailBytes = f.bytesLeft
      · rw [if_pos heq, heq]
        refine iff_of_true (h.finish_whole (by omega) heq.ge) ?_
        have := h.buflen
        omega
      · rw [if_neg heq]
        exact h.copyPart_iff hroom (by omega)
    · rw [if_neg hend, if_neg hend]
      have hwhole := h.whole (le_of_not_ge hend)
      have hfresh : f.isCached = false := by
        cases hc : f.isCached with
        | true => exact absurd (h.cached hc) (by omega)
        | false => rfl
      cases hring : f.sock.ntpRecvCtx with
      | nil =>
        refine iff_of_true (.of_failure (List.forall_mem_singleton.mpr hwhole) ?_) trivial
        rintro retval buf sock ⟨⟩
      | cons msg ring =>
        by_cases hfin : msg.msgType = .ntpFin
        · rw [dataLengths_fin ring hfin]
          simp only [if_pos hfin]
          refine iff_of_true (.of_failure (List.forall_mem_singleton.mpr hwhole) ?_) trivial
          rintro retval buf sock ⟨⟩
          exact ⟨rfl, h.buflen⟩
        · have hmsg := h.ring msg (hring ▸ List.mem_cons_self)
          rw [dataLengths_cons ring hfin, hmsg]
          simp only [if_neg hfin, if_pos (h.fresh hfresh).le]
          rw [LengthsRight.cons_iff hwhole, ih (h.next hfresh hring) (by simp only; omega)
            (by simp only; omega) (by simp only [List.length_append, List.length_take]; omega)]
          rfl

/-- A call that starts with no room, or on a message without data, goes wrong. -/
theorem copyLoop_start_iff (h : f.Bounded cfg nbytes) (hbuf : f.buf = [])
    (havail : f.bufAvailBytes = int32 nbytes) (hpos : 0 < nbytes) :
    LengthsRight cfg nbytes (copyLoop cfg nbytes f) ↔
      0 < f.payload.length ∧ 0 < int32 nbytes ∧ LeavesLess cfg.maxPayloadsize (int32 nbytes)
        (f.payload.length :: dataLengths f.sock.ntpRecvCtx) := by
  have hlen := h.bytesLeft_eq
  obtain ⟨n, hn⟩ := Nat.exists_eq_succ_of_ne_zero hpos.ne'
  by_cases hsome : 0 < f.payload.length
  · by_cases hroom : 0 < int32 nbytes
    · have hle := int32_le nbytes
      rw [copyLoop_right_iff h (by omega) (by omega) (by omega), havail]
      exact ⟨fun hless => ⟨hsome, hroom, hless⟩, fun hless => hless.2.2⟩
    · refine iff_of_false (fun hright => ?_) fun hless => hroom hless.2.1
      rw [hn, copyLoop_tooSmall (by omega) (by omega), ← hn] at hright
      have hnonneg : 0 ≤ f.bufAvailBytes := hright.nonneg _ List.mem_cons_self
      have hzero : f.bufAvailBytes = 0 := by omega
      have hcount := hright.count 0 [] _ (by rw [copyPart, if_neg (by omega), hzero, hbuf]; rfl)
        (by decide)
      exact absurd hcount.1 (by decide)
  · refine iff_of_false (fun hright => ?_) fun hless => hsome hless.1
    rw [hn, copyLoop, if_pos (by omega), hbuf, ← hn] at hright
    exact absurd (hright.count 0 [] _ rfl (by decide)).1 (by decide)

end ReadFrame

namespace NtSockContext

variable {cfg : NtsConfig} {sock : NtSockContext} {ds tail : List NtpMsg} {nbytes : ℕ}

theorem cachedFrame_bufAvailBytes (sock : NtSockContext) (nbytes : ℕ) :
    (sock.cachedFrame nbytes).bufAvailBytes = int32 nbytes := by
  rw [cachedFrame]

theorem firstFrame_bufAvailBytes (sock : NtSockContext) (nbytes : ℕ) (d : NtpMsg)
    (ring : List NtpMsg) : (sock.firstFrame nbytes d ring).bufAvailBytes = int32 nbytes := by
  rw [firstFrame]

theorem ntsReadCopies_first (hestablished : sock.state = .established)
    (hempty : sock.ntpBuflen ≤ 0) {msg : NtpMsg} {ring : List NtpMsg}
    (hring : sock.ntpRecvCtx = msg :: ring) (hdata : msg.msgType ≠ .ntpFin) :
    sock.ntsReadCopies cfg nbytes =
      ReadFrame.copyLoop cfg nbytes (sock.firstFrame nbytes msg ring) := by
  rw [ntsReadCopies, if_neg (not_not.mpr hestablished), if_pos hempty, hring]
  simp only [if_neg hdata]
  rfl

theorem exists_frame (nbytes : ℕ) (h : sock.Ready cfg ds tail)
    (hdata : sock.carry ++ payloads ds ≠ []) :
    ∃ f : ReadFrame, sock.ntsRead cfg nbytes = ReadFrame.readLoop cfg nbytes f ∧
      f.bufAvailBytes = int32 nbytes ∧ 0 < f.bytesLeft ∧ f.buf = [] := by
  by_cases hbuflen : 0 < sock.ntpBuflen
  · exact ⟨sock.cachedFrame nbytes, ntsRead_cached h hbuflen, cachedFrame_bufAvailBytes .., hbuflen,
      rfl⟩
  · have hempty : sock.ntpBuflen = 0 := le_antisymm (not_lt.mp hbuflen) h.carryOk.nonneg
    cases ds with
    | nil =>
      rw [carry, hempty] at hdata
      exact absurd rfl hdata
    | cons d ds =>
      have hd := h.data d List.mem_cons_self
      refine ⟨_, ntsRead_first h hempty, firstFrame_bufAvailBytes .., ?_, rfl⟩
      change (0 : ℤ) < d.msgLen.toNat
      rw [hd.msgLen_eq]
      exact Int.natCast_pos.mpr hd.pos

theorem ntsRead_of_int32_nonpos (h : sock.Ready cfg ds tail)
    (hdata : sock.carry ++ payloads ds ≠ []) (hpos : 0 < nbytes) (hsize : int32 nbytes ≤ 0) :
    (∃ sock', sock.ntsRead cfg nbytes = .returns 0 [] sock') ∨
      sock.ntsRead cfg nbytes = .faults := by
  obtain ⟨f, hread, havail, hleft, hbuf⟩ := exists_frame nbytes h hdata
  obtain ⟨n, rfl⟩ := Nat.exists_eq_succ_of_ne_zero hpos.ne'
  rw [hread, ReadFrame.readLoop, ReadFrame.copyLoop_tooSmall hleft (by omega), ReadFrame.copyPart]
  by_cases hneg : f.bufAvailBytes < 0
  · exact Or.inr (if_pos hneg)
  · have hzero : f.bufAvailBytes = 0 := by omega
    rw [if_neg hneg, hzero, hbuf]
    exact Or.inl ⟨_, rfl⟩

/-- With data at hand, `nts_read` returns a positive count without waiting for a message if and only
if the size of the buffer is positive as an `int`, and there is a carry-over, a message shorter than
the maximum, or as much data as the buffer holds. -/
theorem nts_read_positive_iff (h : sock.Ready cfg ds tail)
    (htail : ∀ msg ∈ tail.head?, msg.msgType = .ntpFin) (hdata : sock.carry ++ payloads ds ≠ [])
    (hpos : 0 < nbytes) :
    (∃ retval buf sock', sock.ntsRead cfg nbytes = .returns retval buf sock' ∧ 0 < retval) ↔
      0 < int32 nbytes ∧ (0 < sock.ntpBuflen ∨ (∃ d ∈ ds, d.payload.length < cfg.maxPayloadsize) ∨
        int32 nbytes ≤ (payloads ds).length) := by
  by_cases hsize : int32 nbytes ≤ 0
  · refine iff_of_false ?_ fun hright => absurd hright.1 (not_lt.mpr hsize)
    rintro ⟨retval, buf, sock', hread, hret⟩
    rcases ntsRead_of_int32_nonpos h hdata hpos hsize with ⟨sock'', hzero⟩ | hfault
    · rw [hread] at hzero
      cases hzero
      exact lt_irrefl _ hret
    · rw [hread] at hfault
      cases hfault
  · obtain ⟨avail, havail⟩ := Int.eq_ofNat_of_zero_le (le_of_not_ge hsize)
    have hcast : int32 nbytes = (avail : ℤ) := havail
    have hstarves : (0 < sock.ntpBuflen ∨ (∃ d ∈ ds, d.payload.length < cfg.maxPayloadsize) ∨
        int32 nbytes ≤ (payloads ds).length) ↔ ¬ sock.Starves cfg ds avail := by
      have hcarry := h.carryOk.nonneg
      rw [Starves, not_and_or, not_and_or, not_lt, hcast, Nat.cast_le]
      refine or_congr (by omega) (or_congr_left ?_)
      rw [not_forall]
      refine exists_congr fun d => ?_
      rw [Classical.not_imp]
      refine and_congr_right fun hd => ?_
      have hle := (h.data d hd).le
      omega
    rw [hstarves]
    constructor
    · rintro ⟨retval, buf, sock', hread, hret⟩
      refine ⟨by omega, fun hs => ?_⟩
      obtain ⟨hspins, hfin⟩ := ntsRead_starves h hcast (by omega) hs
      cases tail with
      | nil =>
          rw [hspins rfl] at hread
          cases hread
      | cons fin ring =>
          rw [hfin fin ring rfl (htail fin rfl)] at hread
          cases hread
          exact absurd hret (by decide)
    · rintro ⟨-, hnot⟩
      obtain ⟨k, sock', hread, htakes⟩ := ntsRead_takes h hcast (by omega) hnot
      exact ⟨_, _, _, hread, Int.natCast_pos.mpr htakes.pos⟩

/-- The lengths and counts of `nts_read` are right if and only if there is no data, or what the call
finds first is not empty, the size of the buffer is positive as an `int`, and the message in which
the buffer ends, unless it is a short one, leaves less than a message of full size. -/
theorem nts_read_lengths_iff (hestablished : sock.state = .established) (hcarry : sock.CarryOk cfg)
    (hring : ∀ msg ∈ sock.ntpRecvCtx, msg.msgLen.toNat = msg.payload.length) (hpos : 0 < nbytes) :
    LengthsRight cfg nbytes (sock.ntsReadCopies cfg nbytes) ↔
      ∀ len lens, sock.atHand = len :: lens → 0 < len ∧ 0 < int32 nbytes ∧
          LeavesLess cfg.maxPayloadsize (int32 nbytes) (len :: lens) := by
  have hbuflen := And.intro hcarry.nonneg hcarry.lt
  have htotal : ((([] : List UInt8).length : ℕ) : ℤ) + int32 nbytes ≤ nbytes := by
    have := int32_le nbytes
    simp only [List.length_nil]
    omega
  have hcons : ∀ {hand : List ℕ} {len : ℕ} {lens : List ℕ}, hand = len :: lens →
      ((0 < len ∧ 0 < int32 nbytes ∧ LeavesLess cfg.maxPayloadsize (int32 nbytes) (len :: lens)) ↔
        ∀ len lens, hand = len :: lens → 0 < len ∧ 0 < int32 nbytes ∧
          LeavesLess cfg.maxPayloadsize (int32 nbytes) (len :: lens)) := by
    rintro hand len lens rfl
    exact ⟨fun h len' lens' => by rintro ⟨⟩; exact h, fun h => h len lens rfl⟩
  by_cases hempty : sock.ntpBuflen ≤ 0
  · rw [atHand, if_pos hempty]
    have hzero : sock.ntpBuflen = 0 := le_antisymm hempty hcarry.nonneg
    cases hsplit : sock.ntpRecvCtx with
    | nil =>
      rw [ntsReadCopies, if_neg (not_not.mpr hestablished), if_pos hempty, hsplit]
      refine iff_of_true (.of_failure (List.forall_mem_nil _) ?_) ?_
      · rintro retval buf sock' ⟨⟩
      · rintro len lens ⟨⟩
    | cons msg ring =>
      by_cases hfin : msg.msgType = .ntpFin
      · rw [ntsReadCopies, if_neg (not_not.mpr hestablished), if_pos hempty, hsplit]
        simp only [if_pos hfin, dataLengths_fin ring hfin]
        refine iff_of_true (.of_failure (List.forall_mem_nil _) ?_) ?_
        · rintro retval buf sock' ⟨⟩
          exact ⟨rfl, hbuflen⟩
        · rintro len lens ⟨⟩
      · rw [ntsReadCopies_first hestablished hempty hsplit hfin]
        rw [hsplit] at hring
        obtain ⟨hmsg, hring⟩ := List.forall_mem_cons.mp hring
        have hframe : (sock.firstFrame nbytes msg ring).Bounded cfg nbytes := by
          refine ⟨hring, congrArg Nat.cast hmsg, ?_, hbuflen, fun _ => hzero, by rintro ⟨⟩⟩
          rw [firstFrame_bufAvailBytes]
          exact htotal
        refine (ReadFrame.copyLoop_start_iff hframe rfl (firstFrame_bufAvailBytes ..) hpos).trans
          (hcons ?_)
        rw [dataLengths_cons ring hfin, hmsg]
        rfl
  · rw [ntsReadCopies, if_neg (not_not.mpr hestablished), if_neg hempty, atHand, if_neg hempty]
    have hlen := hcarry.length_eq (not_le.mp hempty)
    have hframe : (sock.cachedFrame nbytes).Bounded cfg nbytes := by
      refine ⟨hring, ?_, ?_, hbuflen, by rintro ⟨⟩, fun _ => ?_⟩
      · simp only [cachedFrame, hlen]
        omega
      · rw [cachedFrame_bufAvailBytes]
        exact htotal
      · simp only [cachedFrame, hlen]
        omega
    refine (ReadFrame.copyLoop_start_iff hframe rfl (cachedFrame_bufAvailBytes ..) hpos).trans
      (hcons ?_)
    simp only [cachedFrame, hlen]

section Sample

def sampleReader (payload : List UInt8) : NtSockContext where
  sockid := 2
  state := .established
  ntpBuf := []
  ntpBuflen := 0
  ntpSendCtx := []
  ntpRecvCtx := [{ msgType := .ntpData, msgLen := UInt16.ofNat payload.length, payload := payload }]
  ntmFinSent := []

theorem ready_sampleReader {payload : List UInt8} (hpos : 0 < payload.length)
    (hle : payload.length ≤ 4) :
    (sampleReader payload).Ready fourBytes (sampleReader payload).ntpRecvCtx [] where
  established := rfl
  ring := (List.append_nil _).symm
  data := by
    intro d hd
    obtain rfl := List.mem_singleton.mp hd
    refine ⟨rfl, ?_, hpos, hle⟩
    exact UInt16.toNat_ofNat_of_lt (hle.trans_lt (by decide))
  carryOk := ⟨le_rfl, Int.natCast_pos.mpr (by decide), fun h => absurd h (lt_irrefl _)⟩

theorem short_message_returned :
    ∃ retval buf sock', (sampleReader [1, 2]).ntsRead fourBytes 8 = .returns retval buf sock' ∧
      0 < retval :=
  (nts_read_positive_iff (ready_sampleReader (by decide) (by decide))
    (fun msg hmsg => absurd hmsg (Option.not_mem_none msg)) (by decide) (by decide)).mpr
    ⟨by decide, Or.inr (Or.inl ⟨_, List.mem_singleton_self _, by decide⟩)⟩

/-- A message of full size is at hand, and the call waits for another one. -/
theorem full_message_waits :
    (sampleReader [1, 2, 3, 4]).ntsRead fourBytes 8 = .spins := by decide

theorem later_message_kept :
    ∃ retval buf sock', (sampleReader [1, 2]).ntsRead fourBytes 8 = .returns retval buf sock' ∧
      ((sampleReader [1, 2]).arrive (sampleReader [3]).ntpRecvCtx).ntsRead fourBytes 8 =
        .returns retval buf (sock'.arrive (sampleReader [3]).ntpRecvCtx) :=
  ⟨_, _, _, rfl, ntsRead_arrive rfl⟩

theorem lengths_right_in_range :
    LengthsRight fourBytes 8 ((sampleReader [1, 2]).ntsReadCopies fourBytes 8) := by
  refine (nts_read_lengths_iff rfl ?_ ?_ (by decide)).mpr ?_
  · exact (@ready_sampleReader [1, 2] (by decide) (by decide)).carryOk
  · exact List.forall_mem_singleton.mpr rfl
  · rintro len lens ⟨⟩
    exact ⟨by decide, by decide, trivial⟩

/-- A buffer of 2 GiB leads to a copy with a negative length, one of 4 GiB to a call that returns 0.
-/
theorem lengths_wrong_beyond_int :
    ((sampleReader [1, 2]).ntsRead fourBytes (2 ^ 31) = .faults ∧
      ∃ copy ∈ ((sampleReader [1, 2]).ntsReadCopies fourBytes (2 ^ 31)).1, copy.len < 0) ∧
    ∃ sock', (sampleReader [1, 2]).ntsRead fourBytes (2 ^ 32) = .returns 0 [] sock' := by
  exact ⟨⟨rfl, _, List.mem_cons_self, by decide⟩, _, rfl⟩

end Sample

end NtSockContext

end NtSocks
