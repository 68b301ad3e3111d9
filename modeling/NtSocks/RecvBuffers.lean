import NtSocks.DataRingFifo
import NtSocks.NtpShmSafety

/-!
# Message blocks of the receive loop

The receive loop takes a block from the pool of the packet's connection before it looks at the type
of the packet. For a message it sends the block through the connection's ring, from which the
application takes it and frees it. For a probe, and for a type that it does not know, it leaves
the block where it is: nobody has it, and it does not come back.

Every connection has its channel here; the loop is the producer of all of them. The bytes of the
messages are not followed. `lent` has the blocks taken from each pool and not freed; no step
reads it.
-/

namespace NtSocks

open Function

def forwardsMessage (type : UInt16) : Bool :=
  type == NtpacketType.singlePkg.code || type == NtpacketType.multiPkg.code ||
    type == NtpacketType.finPkg.code

def NtpShmAct.isConsumer : NtpShmAct → Bool
  | .alloc | .fill _ | .send => false
  | .recv | .front | .pop | .read | .free => true

namespace NtpShm

variable (s : NtpShm)

def nextBlock : List ℕ := s.ctx.mpHandler.freeHeaderIdx.toList

def freedBy : NtpShmAct → List ℕ
  | .free => s.consumer.held.map s.ctx.mpHandler.shmMpNodeByShmaddr
  | _ => []

/-- What the loop does with the channel for one packet; `none` at a failed assertion, and while
`ntp_shm_send` repeats its push on a full ring. -/
def handlePacket (forwards : Bool) : Option NtpShm :=
  (s.step .alloc).bind fun s =>
    if forwards then
      (s.step (.fill [])).bind fun s => (s.step .send).filter fun s => s.producer == .idle
    else some { s with producer := .idle }

end NtpShm

structure RecvPools where
  recv : RecvState
  chans : ConnPtr → NtpShm
  lent : ConnPtr → List ℕ

/-- An iteration of the loop comes with the table of that moment. The application calls its side of
a channel; other threads create and close connections; the peer writes into the ring. -/
inductive RecvPoolAct
  | recv (port2conn : Port2Conn)
  | app (c : ConnPtr) (a : NtpShmAct)
  | create (c : ConnPtr) (data : ℕ → ℕ) (mem : Memory)
  | close (c : ConnPtr) (state : ConnState)
  | arrive (m : Memory)

abbrev poolBlocks : ℕ := defaultMaxNumNtpMsg + 32

namespace RecvPools

variable (cfg : NtpConfig) (s : RecvPools)

def newChan (data : ℕ → ℕ) (mem : Memory) : NtpShm :=
  NtpShm.init (NtpShmContext.ntpShmAccept cfg.dataPacketSize data) mem

def init (recv : RecvState) (data : ℕ → ℕ) (mem : Memory) : RecvPools where
  recv := recv
  chans := fun _ => newChan cfg data mem
  lent := fun _ => []

def handledConn (port2conn : Port2Conn) : Option ConnPtr :=
  let hdr := s.recv.header cfg
  if hdr.msgLen = 0 then none else (s.recv.accept port2conn hdr).liveConn

def forwards : Bool := forwardsMessage (dataLenGetType (s.recv.header cfg).msgType)

def setChan (c : ConnPtr) (chan : NtpShm) (lent : List ℕ) : RecvPools :=
  { s with chans := update s.chans c chan, lent := update s.lent c lent }

def step : RecvPoolAct → Option RecvPools
  | .recv port2conn =>
    match s.handledConn cfg port2conn with
    | none => (s.recv.recvStep cfg port2conn).map fun r => { s with recv := r }
    | some c =>
      ((s.chans c).handlePacket (s.forwards cfg)).bind fun chan =>
        (s.recv.recvStep cfg port2conn).map fun r =>
          { s.setChan c chan (s.lent c ++ (s.chans c).nextBlock) with recv := r }
  | .app c a =>
    if a.isConsumer then
      ((s.chans c).step a).map fun chan =>
        s.setChan c chan ((s.lent c).diff ((s.chans c).freedBy a))
    else none
  | .create c data mem =>
    some { s.setChan c (newChan cfg data mem) [] with
      recv := s.recv.setConnState c .readyConn }
  | .close c state => some { s with recv := s.recv.setConnState c state }
  | .arrive m => some { s with recv := { s.recv with mem := m } }

/-- Every block taken from a pool is in the ring or with the application. -/
def Accounted : Prop := ∀ c, (s.lent c).Perm (s.chans c).heldBlocks

/-- The pool has a block for the packet, and after the step no block is lost. -/
def NoLeak (act : RecvPoolAct) : Prop :=
  (∀ port2conn c, act = .recv port2conn → s.handledConn cfg port2conn = some c →
      (s.chans c).ctx.ntpShmNtpacketAlloc.isSome = true) ∧
    ∀ s', s.step cfg act = some s' → s'.Accounted

def OnlyMessages (act : RecvPoolAct) : Prop :=
  ∀ port2conn c, act = .recv port2conn → s.handledConn cfg port2conn = some c →
    s.forwards cfg = true

end RecvPools

section Channel

variable {slotSize n cap : ℕ} {s s' : NtpShm} {q q' : Pipeline (List UInt8) (cap - 1)}

def lentNodes (n : ℕ) {bound : ℕ} (q : Pipeline (List UInt8) bound) : List ℕ :=
  (List.range' q.released (q.acquired - q.released)).map (· % n)

theorem lentNodes_acquire (hacquired : q'.acquired = q.acquired + 1)
    (hreleased : q'.released = q.released) :
    lentNodes n q' = lentNodes n q ++ [q.acquired % n] := by
  have hle := q.released_le_acquired
  rw [lentNodes, lentNodes, hacquired, hreleased,
    show q.acquired + 1 - q.released = q.acquired - q.released + 1 by omega,
    List.range'_1_concat, List.map_append, List.map_singleton, Nat.add_sub_cancel' hle]

theorem lentNodes_release (hacquired : q'.acquired = q.acquired)
    (hreleased : q'.released = q.released + 1) :
    lentNodes n q = q.released % n :: lentNodes n q' := by
  have hle := q'.released_le_acquired
  rw [lentNodes, lentNodes, hacquired, hreleased,
    show q.acquired - q.released = q.acquired - (q.released + 1) + 1 by omega,
    List.range'_succ, List.map_cons]

theorem NtpShm.step_producer {a : NtpShmAct} (ha : a.isConsumer = true) (hs : s.step a = some s') :
    s'.producer = s.producer := by
  cases a with
  | alloc | fill bytes | send => cases ha
  | recv | front =>
    simp only [NtpShm.step] at hs
    split at hs
    · split at hs <;> (cases hs; rfl)
    · cases hs
  | pop | read | free =>
    simp only [NtpShm.step] at hs
    split at hs <;> cases hs
    rfl

theorem NtpShm.handlePacket_false {buf : ℕ} {ctx : NtpShmContext} (hidle : s.producer = .idle)
    (halloc : s.ctx.ntpShmNtpacketAlloc = some (buf, ctx)) :
    s.handlePacket false = some { s with ctx := ctx } := by
  simp only [handlePacket, step, hidle, halloc, Option.map_some, Option.bind_some,
    Bool.false_eq_true, if_false]

namespace NtpShm.Represents

variable (h : Represents slotSize n cap s q)
include h

theorem lentNodes_perm (hslot : 0 < slotSize) : (lentNodes n q).Perm s.heldBlocks := by
  rw [h.heldBlocks_eq hslot]
  exact (q.inUse_perm.map _).symm

theorem nextBlock_eq : s.nextBlock = [q.acquired % n] := by
  rw [nextBlock, h.pool.header, Option.toList_some]

theorem handlePacket (hn : cap + 2 ≤ n) (hslot : 0 < slotSize) (hs : s.handlePacket true = some s')
    : s'.producer = .idle ∧ s'.Advances slotSize n cap q 1 0 := by
  obtain ⟨s₁, halloc, hs⟩ := Option.bind_eq_some_iff.mp hs
  rw [if_pos rfl] at hs
  obtain ⟨s₂, hfill, hs⟩ := Option.bind_eq_some_iff.mp hs
  obtain ⟨hsend, hidle⟩ := Option.filter_eq_some_iff.mp hs
  obtain ⟨q₁, h₁, hacq₁, hrel₁⟩ := h.alloc hn halloc
  obtain ⟨q₂, h₂, hacq₂, hrel₂⟩ := h₁.fill hn hfill
  obtain ⟨q₃, h₃, hacq₃, hrel₃⟩ := h₂.send (by omega) hslot hsend
  exact ⟨by simpa using hidle, q₃, h₃, by omega, by omega⟩

theorem consumer_step (hn : cap + 2 ≤ n) (hslot : 0 < slotSize)
    {a : NtpShmAct} (ha : a.isConsumer = true) (hs : s.step a = some s') :
    ∃ q', Represents slotSize n cap s' q' ∧
      (lentNodes n q).diff (s.freedBy a) = lentNodes n q' := by
  obtain ⟨q', h', hacquired, hreleased⟩ := h.step hn hslot hs
  refine ⟨q', h', ?_⟩
  have hsame : a.acquires = 0 → a.releases = 0 → lentNodes n q = lentNodes n q' := by
    intro h₁ h₂
    rw [lentNodes, lentNodes, hacquired, hreleased, h₁, h₂, Nat.add_zero, Nat.add_zero]
  cases a with
  | alloc | fill bytes | send => cases ha
  | recv | front | pop | read => exact hsame rfl rfl
  | free =>
    have hconsumer := h.consumer
    cases hc : s.consumer with
    | idle | fronted buf | popped buf => simp [NtpShm.step, hc] at hs
    | finished buf =>
      rw [hc] at hconsumer
      obtain ⟨-, rfl⟩ := hconsumer
      have hfreed : s.freedBy .free = [q.released % n] := by
        rw [freedBy, hc]
        exact congrArg (fun k => [k]) (h.node hslot q.released)
      rw [hfreed, lentNodes_release hacquired hreleased, List.diff_cons, List.diff_nil,
        List.erase_cons_head]

end NtpShm.Represents

end Channel

namespace RecvPools

variable {cfg : NtpConfig} {s s' : RecvPools} {port2conn : Port2Conn} {c : ConnPtr} {chan : NtpShm}

def Balanced (cfg : NtpConfig) (s : RecvPools) : Prop :=
  ∀ c, (s.chans c).producer = .idle ∧ ∃ q : Pipeline (List UInt8) (defaultMaxNumNtpMsg - 1),
      (s.chans c).Represents cfg.dataPacketSize poolBlocks defaultMaxNumNtpMsg q ∧
        s.lent c = lentNodes poolBlocks q

theorem Balanced.accounted (h : s.Balanced cfg) (hpos : 0 < cfg.dataPacketSize) : s.Accounted := by
  intro c
  obtain ⟨-, q, hq, hlent⟩ := h c
  rw [hlent]
  exact hq.lentNodes_perm hpos

theorem balanced_newChan (cfg : NtpConfig) (data : ℕ → ℕ) (mem : Memory) :
    (newChan cfg data mem).producer = .idle ∧ ∃ q : Pipeline (List UInt8) (defaultMaxNumNtpMsg - 1),
        (newChan cfg data mem).Represents cfg.dataPacketSize poolBlocks
          defaultMaxNumNtpMsg q ∧ [] = lentNodes poolBlocks q :=
  ⟨rfl, Pipeline.empty _ _, NtpShm.Represents.init (by decide) (by decide) data mem, rfl⟩

theorem Balanced.setChan (h : s.Balanced cfg) {lent : List ℕ}
    (hchan : chan.producer = .idle ∧ ∃ q : Pipeline (List UInt8) (defaultMaxNumNtpMsg - 1),
      chan.Represents cfg.dataPacketSize poolBlocks defaultMaxNumNtpMsg q ∧
        lent = lentNodes poolBlocks q) (recv : RecvState) :
    Balanced cfg { s.setChan c chan lent with recv := recv } := by
  intro d
  by_cases hd : d = c
  · subst hd
    simpa only [RecvPools.setChan, update_self] using hchan
  · simpa only [RecvPools.setChan, update_of_ne hd] using h d

theorem Balanced.step (h : s.Balanced cfg) (hpos : 0 < cfg.dataPacketSize) {act : RecvPoolAct}
    (honly : s.OnlyMessages cfg act) (hstep : s.step cfg act = some s') : s'.Balanced cfg := by
  have hn : defaultMaxNumNtpMsg + 2 ≤ poolBlocks := by decide
  cases act with
  | recv port2conn =>
    simp only [RecvPools.step] at hstep
    split at hstep
    · obtain ⟨r, -, rfl⟩ := Option.map_eq_some_iff.mp hstep
      exact h
    · rename_i c hc
      rw [honly port2conn c rfl hc] at hstep
      obtain ⟨chan, hchan, hstep⟩ := Option.bind_eq_some_iff.mp hstep
      obtain ⟨r, -, rfl⟩ := Option.map_eq_some_iff.mp hstep
      obtain ⟨-, q, hq, hlent⟩ := h c
      obtain ⟨hidle, q', hq', hacquired, hreleased⟩ := hq.handlePacket hn hpos hchan
      refine h.setChan ⟨hidle, q', hq', ?_⟩ r
      rw [hlent, hq.nextBlock_eq, lentNodes_acquire hacquired hreleased]
  | app c a =>
    simp only [RecvPools.step, Option.ite_none_right_eq_some] at hstep
    obtain ⟨ha, hstep⟩ := hstep
    obtain ⟨chan, hchan, rfl⟩ := Option.map_eq_some_iff.mp hstep
    obtain ⟨hidle, q, hq, hlent⟩ := h c
    obtain ⟨q', hq', hdiff⟩ := hq.consumer_step hn hpos ha hchan
    refine h.setChan ⟨(NtpShm.step_producer ha hchan).trans hidle, q', hq', ?_⟩ s.recv
    rw [hlent, hdiff]
  | create c data mem =>
    cases hstep
    exact h.setChan (balanced_newChan cfg data mem) _
  | close c state | arrive m => cases hstep; exact h

theorem recvStep_isSome_of_not_forwards (hc : s.handledConn cfg port2conn = some c)
    (hno : s.forwards cfg = false) : (s.recv.recvStep cfg port2conn).isSome = true := by
  simp only [handledConn, Option.ite_none_left_eq_some] at hc
  simp only [forwards, forwardsMessage, Bool.or_eq_false_iff, beq_eq_false_iff_ne, ne_eq] at hno
  rw [RecvState.recvStep_live cfg port2conn hc.1 hc.2, RecvState.recvByType, if_neg hno.1.1,
    if_neg hno.1.2, if_neg hno.2]
  split <;> rfl

theorem step_of_not_forwards {r : RecvState} (hc : s.handledConn cfg port2conn = some c)
    (hno : s.forwards cfg = false) (hchan : (s.chans c).handlePacket false = some chan)
    (hr : s.recv.recvStep cfg port2conn = some r) :
    s.step cfg (.recv port2conn) =
      some { s.setChan c chan (s.lent c ++ (s.chans c).nextBlock) with recv := r } := by
  rw [RecvPools.step, hc]
  simp only [hno, hchan, hr, Option.bind_some, Option.map_some]

theorem Balanced.alloc (h : s.Balanced cfg) (c : ConnPtr) :
    ∃ buf mp, (s.chans c).ctx.ntpShmNtpacketAlloc =
      some (buf, ⟨mp, (s.chans c).ctx.ntsringHandle⟩) := by
  obtain ⟨hidle, q, hq, -⟩ := h c
  obtain ⟨mp, halloc, -⟩ := hq.ntpacketAlloc (by decide) hidle
  exact ⟨_, mp, halloc⟩

theorem Balanced.not_accounted (h : s.Balanced cfg) (hpos : 0 < cfg.dataPacketSize)
    (hc : s.handledConn cfg port2conn = some c) (hno : s.forwards cfg = false) :
    ∃ s', s.step cfg (.recv port2conn) = some s' ∧ ¬ s'.Accounted := by
  obtain ⟨buf, mp, halloc⟩ := h.alloc c
  obtain ⟨hidle, q, hq, -⟩ := h c
  obtain ⟨r, hr⟩ := Option.isSome_iff_exists.mp (recvStep_isSome_of_not_forwards hc hno)
  refine ⟨_, step_of_not_forwards hc hno (NtpShm.handlePacket_false hidle halloc) hr,
    fun haccounted => ?_⟩
  -- the block is lent, and the channel holds no more blocks than before
  have hbefore := (h.accounted hpos c).length_eq
  have hafter := (haccounted c).length_eq
  simp only [RecvPools.setChan, update_self, hq.nextBlock_eq, List.length_append,
    List.length_singleton, hbefore, NtpShm.heldBlocks, List.length_map] at hafter
  omega

theorem Balanced.noLeak_iff (h : s.Balanced cfg) (hpos : 0 < cfg.dataPacketSize)
    (act : RecvPoolAct) : s.NoLeak cfg act ↔ s.OnlyMessages cfg act := by
  constructor
  · rintro ⟨-, hafter⟩ port2conn c rfl hc
    by_contra hno
    obtain ⟨s', hstep, hnot⟩ := h.not_accounted hpos hc (Bool.eq_false_iff.mpr hno)
    exact hnot (hafter s' hstep)
  · intro honly
    refine ⟨?_, fun s' hstep => (h.step hpos honly hstep).accounted hpos⟩
    rintro port2conn c - -
    obtain ⟨buf, mp, halloc⟩ := h.alloc c
    rw [halloc]
    rfl

end RecvPools

open RecvPools in
/-- In every run, each block that the loop takes is in a ring or with an application before the next
packet is handled, and the assertion on the allocation holds, exactly if every packet handled for an
open connection carries a message. -/
theorem no_leak_iff_only_messages (cfg : NtpConfig) (hpos : 0 < cfg.dataPacketSize)
    (recv : RecvState) (data : ℕ → ℕ) (mem : Memory) (acts : List RecvPoolAct) :
    Runs.Along (step cfg) (NoLeak cfg) (init cfg recv data mem) acts ↔
      Runs.Along (step cfg) (OnlyMessages cfg) (init cfg recv data mem) acts := by
  apply Runs.along_congr (C := fun _ => True) (I := Balanced cfg)
  · exact fun s a h _ => h.noLeak_iff hpos a
  · exact fun s a s' h _ honly hstep => h.step hpos honly hstep
  · exact fun c => balanced_newChan cfg data mem
  · exact fun _ _ => trivial

section Sample

open RecvPools

def openLoop : RecvState := { (LinkState.init allReady none).recv with conn := some 0 }

def anyConn : Port2Conn := fun _ => some 0

def pollOf (recv : RecvState) (t : NtpacketType) : Memory :=
  Memory.store (fun _ => 0) (smallRing.slotAddr recv.curIndex) (packNtpacketHeader 1 2 0 t).bytes

theorem no_leak_one_message :
    ∃ acts, acts = [.arrive (pollOf openLoop .singlePkg), .recv anyConn, .app 0 .recv,
        .app 0 .read, .app 0 .free] ∧
      (Runs.run (step smallRing) (init smallRing openLoop (fun _ => 0) fun _ => 0) acts).isSome =
        true ∧
      Runs.Along (step smallRing) (NoLeak smallRing)
        (init smallRing openLoop (fun _ => 0) fun _ => 0) acts := by
  refine ⟨_, rfl, by decide +kernel, ?_⟩
  apply (no_leak_iff_only_messages smallRing (by decide) openLoop _ _ _).mpr
  refine ⟨nofun, fun s₁ h₁ => ⟨?_, fun s₂ _ => ⟨nofun, fun s₃ _ => ⟨nofun, fun s₄ _ =>
    ⟨nofun, fun _ _ => trivial⟩⟩⟩⟩⟩
  cases h₁
  intro port2conn c _ _
  decide

/-- The channel of the connection after a number of probes: the first blocks of its pool are gone,
and the ring and the application have none. -/
def probedChan (k : ℕ) : NtpShm :=
  let chan := newChan smallRing (fun _ => 0) fun _ => 0
  { chan with ctx := { chan.ctx with mpHandler := { chan.ctx.mpHandler with
    freeHeaderIdx := if k < poolBlocks then some k else none } } }

structure Probed (s : RecvPools) (k : ℕ) : Prop where
  chan : s.chans 0 = probedChan k
  lent : (s.lent 0).length = k
  conn : s.recv.conn = some 0
  ready : (s.recv.conns 0).state = .readyConn

theorem probedChan_zero : newChan smallRing (fun _ => 0) (fun _ => 0) = probedChan 0 := by
  have h := (ShmMempool.chained_shmMpInit smallRing.dataPacketSize poolBlocks).header
  rw [if_neg (by decide)] at h
  simp only [probedChan, newChan, NtpShm.init, NtpShmContext.ntpShmAccept, NtpShmContext.create,
    if_pos (by decide : 0 < poolBlocks), ← h]

theorem probedChan_heldBlocks (k : ℕ) : (probedChan k).heldBlocks = [] := by
  change [] ++ (_ ++ []) = []
  rw [List.nil_append, List.append_nil]
  exact (Shmring.Holds.init (by decide : 0 < defaultMaxNumNtpMsg) fun _ => 0).contents_eq

theorem probedChan_handlePacket {k : ℕ} (hk : k < poolBlocks) :
    (probedChan k).handlePacket false = some (probedChan (k + 1)) := by
  have h := ShmMempool.chained_shmMpInit smallRing.dataPacketSize poolBlocks
  have halloc : (probedChan k).ctx.ntpShmNtpacketAlloc =
      some (((probedChan k).ctx.mpHandler.nodes k).shmOffset, (probedChan (k + 1)).ctx) := by
    simp only [probedChan, newChan, NtpShm.init, NtpShmContext.ntpShmAccept, NtpShmContext.create,
      NtpShmContext.ntpShmNtpacketAlloc, ShmMempool.shmMpMalloc, if_pos hk, Option.map_some,
      Option.bind_some, ShmMempool.shmOffsetMem, h.nodeIdx k hk, h.totalCount_eq,
      h.nextNodeIdx k hk]
  exact NtpShm.handlePacket_false rfl halloc

namespace Probed

variable {s : RecvPools} {k : ℕ}

def polled (s : RecvPools) : RecvPools :=
  { s with recv := { s.recv with mem := pollOf s.recv .detectPkg } }

theorem header_polled (s : RecvPools) :
    (polled s).recv.header smallRing = packNtpacketHeader 1 2 0 .detectPkg :=
  NtpacketHeader.read_store_bytes _ _ _

theorem accept_polled (h : Probed s k) :
    ((polled s).recv.accept anyConn ((polled s).recv.header smallRing)).liveConn = some 0 := by
  rw [RecvState.liveConn_eq_some, RecvState.accept_eq]
  refine ⟨?_, h.ready⟩
  rw [RecvState.lookupConn]
  split
  · rfl
  · exact h.conn

theorem handledConn_polled (h : Probed s k) :
    (polled s).handledConn smallRing anyConn = some 0 := by
  rw [handledConn, if_neg (by rw [header_polled]; decide)]
  exact h.accept_polled

theorem recvStep_polled (h : Probed s k) :
    ∃ r, (polled s).recv.recvStep smallRing anyConn = some r ∧ r.conn = some 0 ∧
      r.conns = s.recv.conns := by
  have hlen : ((polled s).recv.header smallRing).msgLen ≠ 0 := by
    rw [header_polled]
    decide
  have htype : dataLenGetType ((polled s).recv.header smallRing).msgType =
      NtpacketType.detectPkg.code := by
    rw [header_polled]
    decide
  refine ⟨_, by rw [RecvState.recvStep_live smallRing anyConn hlen h.accept_polled, htype,
    RecvState.recvByType_detectPkg, Option.map_some, RecvState.publishAtInterval_eq], ?_, ?_⟩
  · exact (RecvState.liveConn_eq_some.mp h.accept_polled).1
  · rw [RecvState.accept_eq]
    rfl

theorem probe (h : Probed s k) (hk : k < poolBlocks) :
    ∃ s', Runs.run (step smallRing) s [.arrive (pollOf s.recv .detectPkg), .recv anyConn] =
      some s' ∧ Probed s' (k + 1) := by
  obtain ⟨r, hr, hconn, hconns⟩ := h.recvStep_polled
  have hforwards : (polled s).forwards smallRing = false := by
    rw [forwards, header_polled]
    decide
  have hchan : ((polled s).chans 0).handlePacket false = some (probedChan (k + 1)) :=
    (congrArg (NtpShm.handlePacket · false) h.chan).trans (probedChan_handlePacket hk)
  refine ⟨_, Runs.run_cons_eq_some.mpr ⟨polled s, rfl, Runs.run_cons_eq_some.mpr
    ⟨_, step_of_not_forwards h.handledConn_polled hforwards hchan hr, rfl⟩⟩,
    ?_, ?_, hconn, (congrArg (fun conns => (conns 0).state) hconns).trans h.ready⟩
  · simp only [RecvPools.setChan, update_self]
  · simp only [RecvPools.setChan, update_self, List.length_append, polled, h.lent, h.chan,
      NtpShm.nextBlock, probedChan, if_pos hk, Option.toList_some, List.length_singleton]

theorem exists_run (k : ℕ) (hk : k ≤ poolBlocks) :
    ∃ acts s, Runs.run (step smallRing) (init smallRing openLoop (fun _ => 0) fun _ => 0) acts =
      some s ∧ Probed s k := by
  induction k with
  | zero => exact ⟨[], _, rfl, probedChan_zero, rfl, rfl, rfl⟩
  | succ k ih =>
    obtain ⟨acts, s, hrun, hs⟩ := ih (by omega)
    obtain ⟨s', hprobe, hs'⟩ := hs.probe hk
    refine ⟨acts ++ [.arrive (pollOf s.recv .detectPkg), .recv anyConn], s', ?_, hs'⟩
    rw [Runs.run_append, hrun]
    exact hprobe

end Probed

/-- As many probes as the pool has blocks take them all. None is in the ring or with the
application, and the assertion on the allocation fails at the next packet. -/
theorem probes_exhaust_pool :
    ∃ acts s, Runs.run (step smallRing) (init smallRing openLoop (fun _ => 0) fun _ => 0) acts =
        some s ∧ s.handledConn smallRing anyConn = some 0 ∧ (s.lent 0).length = 1056 ∧
      (s.chans 0).heldBlocks = [] ∧ (s.chans 0).ctx.ntpShmNtpacketAlloc = none := by
  obtain ⟨acts, s, hrun, hs⟩ := Probed.exists_run poolBlocks le_rfl
  refine ⟨acts ++ [.arrive (pollOf s.recv .detectPkg)], Probed.polled s, ?_, hs.handledConn_polled,
    hs.lent, ?_, ?_⟩
  · rw [Runs.run_append, hrun]
    rfl
  · exact (congrArg NtpShm.heldBlocks hs.chan).trans (probedChan_heldBlocks _)
  · change (s.chans 0).ctx.ntpShmNtpacketAlloc = none
    rw [hs.chan]
    rfl

end Sample

end NtSocks
