import NtSocks.NtsApi

/-!
# What one call does to the byte stream

Messages produced by `nts_write` carry at least one byte and at most `max_payloadsize`. On a ring of
such messages `nts_read` either takes between one byte and the size of its buffer from the front of
the stream, or it starves: the carry-over is empty, every message in the ring has full size, and
the buffer is larger than all of them together.
-/

namespace NtSocks

structure NtpMsg.DataMsg (cfg : NtsConfig) (msg : NtpMsg) : Prop where
  data : msg.msgType = .ntpData
  msgLen_eq : msg.msgLen.toNat = msg.payload.length
  pos : 0 < msg.payload.length
  le : msg.payload.length ≤ cfg.maxPayloadsize

theorem NtpMsg.DataMsg.ne_fin {cfg : NtsConfig} {msg : NtpMsg} (h : msg.DataMsg cfg) :
    msg.msgType ≠ .ntpFin := by
  rw [h.data]
  decide

def payloads (ring : List NtpMsg) : List UInt8 := ring.flatMap NtpMsg.payload

@[simp] theorem payloads_nil : payloads [] = [] := rfl

@[simp] theorem payloads_cons (msg : NtpMsg) (ring : List NtpMsg) :
    payloads (msg :: ring) = msg.payload ++ payloads ring := List.flatMap_cons

@[simp] theorem payloads_append (ring ring' : List NtpMsg) :
    payloads (ring ++ ring') = payloads ring ++ payloads ring' := List.flatMap_append

def NtSockContext.carry (sock : NtSockContext) : List UInt8 := sock.ntpBuf.take sock.ntpBuflen.toNat

structure NtSockContext.CarryOk (cfg : NtsConfig) (sock : NtSockContext) : Prop where
  nonneg : 0 ≤ sock.ntpBuflen
  lt : sock.ntpBuflen < cfg.maxPayloadsize
  length_eq : 0 < sock.ntpBuflen → sock.ntpBuf.length = sock.ntpBuflen.toNat

/-- A call has taken the bytes `k` from the front of the stream: what is left is the new carry-over,
data messages, and the part `tail` of the ring that it did not look at. -/
structure Takes (cfg : NtsConfig) (avail : ℕ) (stream : List UInt8) (tail : List NtpMsg)
    (k : List UInt8) (sock sock' : NtSockContext) : Prop where
  pos : 0 < k.length
  le : k.length ≤ avail
  carryOk : sock'.CarryOk cfg
  state_eq : sock'.state = sock.state
  rest : ∃ ds, sock'.ntpRecvCtx = ds ++ tail ∧ (∀ d ∈ ds, d.DataMsg cfg) ∧
    stream = k ++ (sock'.carry ++ payloads ds)

structure ReadFrame.Ready (cfg : NtsConfig) (f : ReadFrame) (ds tail : List NtpMsg) : Prop where
  ring : f.sock.ntpRecvCtx = ds ++ tail
  data : ∀ d ∈ ds, d.DataMsg cfg
  bytesLeft_eq : f.bytesLeft = f.payload.length
  pos : 0 < f.payload.length
  le : f.payload.length ≤ cfg.maxPayloadsize
  avail_pos : 0 < f.bufAvailBytes
  cached_lt : f.isCached = true → f.payload.length < cfg.maxPayloadsize
  fresh : f.isCached = false → f.sock.ntpBuflen = 0

/-- The caller's buffer exceeds a payload of full size and all messages behind it, which have full
size too. -/
def ReadFrame.Starves (cfg : NtsConfig) (f : ReadFrame) (ds : List NtpMsg) : Prop :=
  f.payload.length = cfg.maxPayloadsize ∧ (∀ d ∈ ds, d.payload.length = cfg.maxPayloadsize) ∧
    ((f.payload.length + (payloads ds).length : ℕ) : ℤ) < f.bufAvailBytes

namespace ReadFrame

variable {cfg : NtsConfig} {f : ReadFrame} {ds tail : List NtpMsg} {fuel : ℕ}

theorem Ready.take_bytesLeft (h : f.Ready cfg ds tail) :
    f.payload.take f.bytesLeft.toNat = f.payload := by
  rw [h.bytesLeft_eq, Int.toNat_natCast, List.take_length]

theorem Ready.exists_fuel (h : f.Ready cfg ds tail) (hfuel : f.bufAvailBytes ≤ fuel) :
    ∃ n, fuel = n + 1 := by
  have hpos := h.avail_pos
  exact Nat.exists_eq_succ_of_ne_zero (by omega)

theorem Ready.isCached_eq (h : f.Ready cfg ds tail)
    (hfull : f.payload.length = cfg.maxPayloadsize) : f.isCached = false :=
  Bool.eq_false_iff.mpr fun hc => (h.cached_lt hc).ne hfull

theorem emptyCache_takes (h : f.Ready cfg ds tail) (hle : f.bytesLeft ≤ f.bufAvailBytes) :
    Takes cfg f.bufAvailBytes.toNat (f.payload ++ payloads ds) tail f.payload f.sock
      f.emptyCache := by
  have hM : 0 < cfg.maxPayloadsize := h.pos.trans_le h.le
  have hlen := h.bytesLeft_eq
  have hempty : f.emptyCache.ntpBuflen = 0 ∧ f.emptyCache.ntpRecvCtx = f.sock.ntpRecvCtx ∧
      f.emptyCache.state = f.sock.state := by
    unfold emptyCache
    cases hc : f.isCached with
    | true => exact ⟨rfl, rfl, rfl⟩
    | false => exact ⟨h.fresh hc, rfl, rfl⟩
  obtain ⟨hbuflen, hring, hstate⟩ := hempty
  refine ⟨h.pos, by omega, ⟨by omega, by omega, by omega⟩, hstate, ds, by rw [hring, h.ring],
    h.data, ?_⟩
  rw [NtSockContext.carry, hbuflen]
  rfl

theorem copyPart_takes (h : f.Ready cfg ds tail) (hlt : f.bufAvailBytes < f.bytesLeft) :
    ∃ k sock, f.copyPart = finish (f.buf ++ k) sock ∧
      Takes cfg f.bufAvailBytes.toNat (f.payload ++ payloads ds) tail k f.sock sock := by
  have hpos := h.avail_pos
  have hlen := h.bytesLeft_eq
  have hle := h.le
  have hrest : (f.bytesLeft - f.bufAvailBytes).toNat =
      (f.payload.drop f.bufAvailBytes.toNat).length := by
    rw [List.length_drop]
    omega
  have htake : (f.payload.take f.bufAvailBytes.toNat).length = f.bufAvailBytes.toNat := by
    rw [List.length_take]
    omega
  have hcopy : f.copyPart = finish (f.buf ++ f.payload.take f.bufAvailBytes.toNat)
      (f.sock.cache (f.payload.drop f.bufAvailBytes.toNat) (f.bytesLeft - f.bufAvailBytes)) := by
    simp only [copyPart, if_neg (by omega : ¬ f.bufAvailBytes < 0), hrest, List.take_length]
  refine ⟨_, _, hcopy, by omega, htake.le, ⟨?_, ?_, ?_⟩, rfl, ds, h.ring, h.data, ?_⟩
  · change 0 ≤ f.bytesLeft - f.bufAvailBytes
    omega
  · change f.bytesLeft - f.bufAvailBytes < cfg.maxPayloadsize
    omega
  · exact fun _ => hrest.symm
  · change _ = _ ++ ((f.payload.drop f.bufAvailBytes.toNat).take
      (f.bytesLeft - f.bufAvailBytes).toNat ++ payloads ds)
    rw [hrest, List.take_length, ← List.append_assoc, List.take_append_drop]

theorem readLoop_stops (h : f.Ready cfg ds tail) (fuel : ℕ)
    (hstop : f.payload.length < cfg.maxPayloadsize ∨ f.bufAvailBytes ≤ f.bytesLeft) :
    ∃ k sock, readLoop cfg (fuel + 1) f = finish (f.buf ++ k) sock ∧
      Takes cfg f.bufAvailBytes.toNat (f.payload ++ payloads ds) tail k f.sock sock := by
  have hlen := h.bytesLeft_eq
  have hpos := h.pos
  rw [readLoop_succ, if_neg (by omega)]
  by_cases hshort : f.payload.length < cfg.maxPayloadsize
  · rw [if_pos (by omega)]
    by_cases hfits : f.bytesLeft ≤ f.bufAvailBytes
    · rw [if_pos hfits, h.take_bytesLeft]
      exact ⟨_, _, rfl, emptyCache_takes h hfits⟩
    · rw [if_neg hfits]
      exact copyPart_takes h (by omega)
  · have hfull : f.bufAvailBytes ≤ f.bytesLeft := hstop.resolve_left hshort
    rw [if_neg (by omega), if_pos hfull]
    by_cases heq : f.bufAvailBytes = f.bytesLeft
    · rw [if_pos heq, heq, h.take_bytesLeft]
      exact ⟨_, _, rfl, heq ▸ emptyCache_takes h heq.ge⟩
    · rw [if_neg heq]
      exact copyPart_takes h (by omega)

def nextFrame (f : ReadFrame) (msg : NtpMsg) (ring : List NtpMsg) : ReadFrame where
  sock := f.sock.popRing ring
  payload := msg.payload
  isCached := f.isCached
  bufAvailBytes := f.bufAvailBytes - f.bytesLeft
  bytesLeft := msg.msgLen.toNat
  buf := f.buf ++ f.payload

theorem readLoop_polls (h : f.Ready cfg ds tail) (fuel : ℕ)
    (hfull : f.payload.length = cfg.maxPayloadsize) (hroom : f.bytesLeft < f.bufAvailBytes) :
    readLoop cfg (fuel + 1) f = match ds ++ tail with
      | [] => .spins
      | msg :: ring =>
        if msg.msgType = .ntpFin then .returns (-1) (f.buf ++ f.payload) f.sock.handleNtpFinMsg
        else readLoop cfg fuel (f.nextFrame msg ring) := by
  have hlen := h.bytesLeft_eq
  have hpos := h.pos
  have hbuflen : f.sock.ntpBuflen ≤ 0 := (h.fresh (h.isCached_eq hfull)).le
  rw [readLoop_succ, if_neg (by omega), if_neg (by omega), if_neg (by omega), h.ring]
  simp only [h.take_bytesLeft, if_pos hbuflen]
  rfl

theorem Ready.next {d : NtpMsg} (h : f.Ready cfg (d :: ds) tail)
    (hfull : f.payload.length = cfg.maxPayloadsize) (hroom : f.bytesLeft < f.bufAvailBytes) :
    (f.nextFrame d (ds ++ tail)).Ready cfg ds tail := by
  have hd := h.data d List.mem_cons_self
  have hfresh := h.isCached_eq hfull
  exact {
    ring := rfl
    data := fun x hx => h.data x (List.mem_cons_of_mem d hx)
    bytesLeft_eq := congrArg Nat.cast hd.msgLen_eq
    pos := hd.pos
    le := hd.le
    avail_pos := Int.sub_pos_of_lt hroom
    cached_lt := fun hc => absurd (hc.symm.trans hfresh) (by decide)
    fresh := fun _ => h.fresh hfresh }

theorem readLoop_returns (h : f.Ready cfg ds tail) (hfuel : f.bufAvailBytes ≤ fuel)
    (hnot : ¬ f.Starves cfg ds) :
    ∃ k sock, readLoop cfg fuel f = finish (f.buf ++ k) sock ∧
      Takes cfg f.bufAvailBytes.toNat (f.payload ++ payloads ds) tail k f.sock sock := by
  induction ds generalizing f fuel with
  | nil =>
    obtain ⟨fuel, rfl⟩ := h.exists_fuel hfuel
    apply readLoop_stops h
    by_contra hgo
    have hlen := h.bytesLeft_eq
    have hle := h.le
    rw [not_or] at hgo
    refine hnot ⟨by omega, by simp, ?_⟩
    rw [payloads_nil, List.length_nil]
    omega
  | cons d ds ih =>
    obtain ⟨fuel, rfl⟩ := h.exists_fuel hfuel
    have hlen := h.bytesLeft_eq
    have hle := h.le
    have hd := h.data d List.mem_cons_self
    by_cases hstop : f.payload.length < cfg.maxPayloadsize ∨ f.bufAvailBytes ≤ f.bytesLeft
    · exact readLoop_stops h fuel hstop
    · rw [not_or] at hstop
      have hfull : f.payload.length = cfg.maxPayloadsize := by omega
      have hroom : f.bytesLeft < f.bufAvailBytes := by omega
      have hnot' : ¬ (f.nextFrame d (ds ++ tail)).Starves cfg ds := by
        rintro ⟨hdfull, hdsfull, hlarge⟩
        refine hnot ⟨hfull, List.forall_mem_cons.mpr ⟨hdfull, hdsfull⟩, ?_⟩
        change ((d.payload.length + (payloads ds).length : ℕ) : ℤ) <
          f.bufAvailBytes - f.bytesLeft at hlarge
        rw [payloads_cons, List.length_append]
        omega
      have havail : f.bufAvailBytes - f.bytesLeft ≤ fuel := by
        have := h.pos
        omega
      obtain ⟨k, sock, hloop, htakes⟩ := ih (h.next hfull hroom) havail hnot'
      refine ⟨f.payload ++ k, sock, ?_, ?_, ?_, htakes.carryOk, htakes.state_eq, ?_⟩
      · rw [readLoop_polls h fuel hfull hroom, List.cons_append]
        simp only [if_neg hd.ne_fin]
        rw [hloop, ← List.append_assoc]
        rfl
      · rw [List.length_append]
        have := h.pos
        omega
      · have hk : k.length ≤ (f.bufAvailBytes - f.bytesLeft).toNat := htakes.le
        rw [List.length_append]
        omega
      · obtain ⟨ds', hring, hds', hstream⟩ := htakes.rest
        refine ⟨ds', hring, hds', ?_⟩
        rw [payloads_cons, List.append_assoc, ← hstream]
        rfl

/-- A starving loop copies everything there is and then waits; a `NTP_FIN` behind the data ends the
call with `-1`. -/
theorem readLoop_starves (h : f.Ready cfg ds tail) (hfuel : f.bufAvailBytes ≤ fuel)
    (hstarves : f.Starves cfg ds) :
    (tail = [] → readLoop cfg fuel f = .spins) ∧
      ∀ fin ring, tail = fin :: ring → fin.msgType = .ntpFin →
        readLoop cfg fuel f = .returns (-1) (f.buf ++ (f.payload ++ payloads ds))
          (f.sock.popRing tail).handleNtpFinMsg := by
  obtain ⟨hfull, hds, hlarge⟩ := hstarves
  have hlen := h.bytesLeft_eq
  have hroom : f.bytesLeft < f.bufAvailBytes := by omega
  obtain ⟨fuel, rfl⟩ := h.exists_fuel hfuel
  induction ds generalizing f fuel with
  | nil =>
    rw [readLoop_polls h fuel hfull hroom, List.nil_append]
    constructor
    · rintro rfl
      rfl
    · rintro fin ring rfl hfin
      simp only [if_pos hfin, payloads_nil, List.append_nil]
      congr 1
      rw [NtSockContext.popRing, ← List.nil_append (fin :: ring), ← h.ring]
  | cons d ds ih =>
    have hd := h.data d List.mem_cons_self
    have hpos := h.pos
    have hdpos := hd.pos
    obtain ⟨hdfull, hdsfull⟩ := List.forall_mem_cons.mp hds
    rw [payloads_cons, List.length_append] at hlarge
    have hlarge' : ((d.payload.length + (payloads ds).length : ℕ) : ℤ) <
        f.bufAvailBytes - f.bytesLeft := by omega
    have hfuel' : f.bufAvailBytes - f.bytesLeft ≤ ((fuel - 1 + 1 : ℕ) : ℤ) := by omega
    have hroom' : (d.msgLen.toNat : ℤ) < f.bufAvailBytes - f.bytesLeft := by
      rw [hd.msgLen_eq]
      omega
    have hlast := ih (h.next hfull hroom) hdfull hdsfull hlarge'
      (congrArg Nat.cast hd.msgLen_eq) hroom' (fuel - 1) hfuel'
    have hfuel₁ : fuel - 1 + 1 = fuel := by omega
    have hpoll := readLoop_polls h fuel hfull hroom
    rw [List.cons_append] at hpoll
    simp only [if_neg hd.ne_fin] at hpoll
    rw [hfuel₁] at hlast
    rw [hpoll]
    refine ⟨hlast.1, ?_⟩
    intro fin ring htail hfin
    rw [hlast.2 fin ring htail hfin, payloads_cons]
    simp only [nextFrame, NtSockContext.popRing, List.append_assoc]

end ReadFrame

namespace NtSockContext

variable {cfg : NtsConfig} {sock : NtSockContext} {ds tail : List NtpMsg} {nbytes avail : ℕ}
  {d : NtpMsg}

structure Ready (cfg : NtsConfig) (sock : NtSockContext) (ds tail : List NtpMsg) : Prop where
  established : sock.state = .established
  ring : sock.ntpRecvCtx = ds ++ tail
  data : ∀ d ∈ ds, d.DataMsg cfg
  carryOk : sock.CarryOk cfg

/-- A call with a buffer of `nbytes` bytes would need more messages than there are. -/
def Starves (cfg : NtsConfig) (sock : NtSockContext) (ds : List NtpMsg) (nbytes : ℕ) : Prop :=
  sock.ntpBuflen = 0 ∧ (∀ d ∈ ds, d.payload.length = cfg.maxPayloadsize) ∧
    (payloads ds).length < nbytes

instance : Decidable (sock.Starves cfg ds nbytes) := inferInstanceAs (Decidable (_ ∧ _ ∧ _))

def firstFrame (sock : NtSockContext) (nbytes : ℕ) (d : NtpMsg) (ring : List NtpMsg) :
    ReadFrame where
  sock := sock.popRing ring
  payload := d.payload
  isCached := false
  bufAvailBytes := int32 nbytes
  bytesLeft := d.msgLen.toNat
  buf := []

theorem ready_firstFrame (h : sock.Ready cfg (d :: ds) tail) (havail : int32 nbytes = avail)
    (hpos : 0 < avail) (hempty : sock.ntpBuflen = 0) :
    (sock.firstFrame nbytes d (ds ++ tail)).Ready cfg ds tail := by
  have hd := h.data d List.mem_cons_self
  exact {
    ring := rfl
    data := fun x hx => h.data x (List.mem_cons_of_mem d hx)
    bytesLeft_eq := congrArg Nat.cast hd.msgLen_eq
    pos := hd.pos
    le := hd.le
    avail_pos := by
      simp only [firstFrame, havail]
      omega
    cached_lt := fun hc => absurd hc (by simp [firstFrame])
    fresh := fun _ => hempty }

theorem firstFrame_fuel (havail : int32 nbytes = avail) {ring : List NtpMsg} :
    (sock.firstFrame nbytes d ring).bufAvailBytes ≤ nbytes := by
  have hle := le_of_int32_eq havail
  simp only [firstFrame, havail]
  omega

theorem ntsRead_first (h : sock.Ready cfg (d :: ds) tail) (hempty : sock.ntpBuflen = 0) :
    sock.ntsRead cfg nbytes =
      ReadFrame.readLoop cfg nbytes (sock.firstFrame nbytes d (ds ++ tail)) := by
  have hdata := (h.data d List.mem_cons_self).ne_fin
  rw [ntsRead, ntsReadCopies, if_neg (not_not.mpr h.established), if_pos hempty.le, h.ring,
    List.cons_append]
  simp only [if_neg hdata]
  rfl

def cachedFrame (sock : NtSockContext) (nbytes : ℕ) : ReadFrame where
  sock := sock
  payload := sock.ntpBuf
  isCached := true
  bufAvailBytes := int32 nbytes
  bytesLeft := sock.ntpBuflen
  buf := []

theorem ready_cachedFrame (h : sock.Ready cfg ds tail) (havail : int32 nbytes = avail)
    (hpos : 0 < avail) (hbuflen : 0 < sock.ntpBuflen) :
    (sock.cachedFrame nbytes).Ready cfg ds tail := by
  have hlen := h.carryOk.length_eq hbuflen
  have hshort := h.carryOk.lt
  exact {
    ring := h.ring
    data := h.data
    bytesLeft_eq := by
      simp only [cachedFrame]
      omega
    pos := by
      simp only [cachedFrame]
      omega
    le := by
      simp only [cachedFrame]
      omega
    avail_pos := by
      simp only [cachedFrame, havail]
      omega
    cached_lt := by
      simp only [cachedFrame]
      omega
    fresh := fun hc => absurd hc (by simp [cachedFrame]) }

theorem ntsRead_cached (h : sock.Ready cfg ds tail) (hbuflen : 0 < sock.ntpBuflen) :
    sock.ntsRead cfg nbytes = ReadFrame.readLoop cfg nbytes (sock.cachedFrame nbytes) := by
  rw [ntsRead, ntsReadCopies, if_neg (not_not.mpr h.established), if_neg (not_le.mpr hbuflen)]
  rfl

/-- Unless it starves, a call takes at least one byte from the front of the stream. What counts of
the size of the buffer is its value as an `int`, which is no larger. -/
theorem ntsRead_takes (h : sock.Ready cfg ds tail) (havail : int32 nbytes = avail)
    (hpos : 0 < avail) (hnot : ¬ sock.Starves cfg ds avail) :
    ∃ k sock', sock.ntsRead cfg nbytes = .returns k.length k sock' ∧
      Takes cfg avail (sock.carry ++ payloads ds) tail k sock sock' := by
  have hle := le_of_int32_eq havail
  have hcarry := h.carryOk
  by_cases hempty : sock.ntpBuflen = 0
  · have hnil : sock.carry = [] := by
      rw [carry, hempty]
      rfl
    cases ds with
    | nil => exact absurd ⟨hempty, by simp, hpos⟩ hnot
    | cons d ds =>
      have hframe := ready_firstFrame h havail hpos hempty
      have hnot' : ¬ (sock.firstFrame nbytes d (ds ++ tail)).Starves cfg ds := by
        rintro ⟨hfull, hds, hlarge⟩
        simp only [firstFrame, havail] at hfull hlarge
        refine hnot ⟨hempty, List.forall_mem_cons.mpr ⟨hfull, hds⟩, ?_⟩
        rw [payloads_cons, List.length_append]
        omega
      obtain ⟨k, sock', hloop, htakes⟩ :=
        ReadFrame.readLoop_returns hframe (firstFrame_fuel havail) hnot'
      refine ⟨k, sock', ?_, ?_⟩
      · rw [ntsRead_first h hempty, hloop]
        rfl
      · simp only [firstFrame, havail, Int.toNat_natCast] at htakes
        rw [hnil, List.nil_append, payloads_cons]
        exact ⟨htakes.pos, htakes.le, htakes.carryOk, htakes.state_eq, htakes.rest⟩
  · have hbuflen : 0 < sock.ntpBuflen := lt_of_le_of_ne hcarry.nonneg (Ne.symm hempty)
    have hlen := hcarry.length_eq hbuflen
    have hwhole : sock.carry = sock.ntpBuf := by
      rw [carry, ← hlen, List.take_length]
    have hshort : (sock.cachedFrame nbytes).payload.length < cfg.maxPayloadsize := by
      have := hcarry.lt
      change sock.ntpBuf.length < _
      omega
    have hframe := ready_cachedFrame h havail hpos hbuflen
    rw [ntsRead_cached h hbuflen]
    obtain ⟨n, rfl⟩ := Nat.exists_eq_succ_of_ne_zero (n := nbytes) (by omega)
    obtain ⟨k, sock', hloop, htakes⟩ := ReadFrame.readLoop_stops hframe n (Or.inl hshort)
    refine ⟨k, sock', hloop, ?_⟩
    simp only [cachedFrame, havail, Int.toNat_natCast] at htakes
    rwa [hwhole]

/-- A starving call spins on an empty ring, and returns `-1` when a `NTP_FIN` stands behind the
data; the data is consumed either way. -/
theorem ntsRead_starves (h : sock.Ready cfg ds tail) (havail : int32 nbytes = avail)
    (hpos : 0 < avail) (hstarves : sock.Starves cfg ds avail) :
    (tail = [] → sock.ntsRead cfg nbytes = .spins) ∧
      ∀ fin ring, tail = fin :: ring → fin.msgType = .ntpFin → sock.ntsRead cfg nbytes =
          .returns (-1) (payloads ds) (sock.popRing tail).handleNtpFinMsg := by
  obtain ⟨hempty, hfull, hlarge⟩ := hstarves
  cases ds with
  | nil =>
    have hring := h.ring
    rw [List.nil_append] at hring
    rw [ntsRead, ntsReadCopies, if_neg (not_not.mpr h.established), if_pos hempty.le, hring]
    constructor
    · rintro rfl
      rfl
    · rintro fin ring rfl hfin
      simp only [if_pos hfin, payloads_nil]
      rw [popRing, ← hring]
  | cons d ds =>
    obtain ⟨hd, hds⟩ := List.forall_mem_cons.mp hfull
    rw [payloads_cons, List.length_append] at hlarge
    have hframe := ready_firstFrame h havail hpos hempty
    have hstarves' : (sock.firstFrame nbytes d (ds ++ tail)).Starves cfg ds := by
      refine ⟨hd, hds, ?_⟩
      simp only [firstFrame, havail]
      omega
    obtain ⟨hspins, hfin⟩ :=
      ReadFrame.readLoop_starves hframe (firstFrame_fuel havail) hstarves'
    rw [ntsRead_first h hempty]
    refine ⟨hspins, ?_⟩
    intro fin ring htail hfinType
    rw [hfin fin ring htail hfinType, payloads_cons]
    rfl

end NtSockContext

end NtSocks
