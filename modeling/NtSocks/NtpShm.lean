import NtSocks.Lib.Memory
import NtSocks.ShmMempool
import NtSocks.Shmring

/-!
# The message channel between an application and the proxy

A channel is a pool of message blocks and a ring of block indices. The producer allocates a block,
fills it and pushes its index; the consumer pops an index, reads the block and frees it. The two
processes run without a lock, one call of the channel's interface being one step.
-/

namespace NtSocks

def defaultMaxNumNtpMsg : ℕ := 1024

def retryTimes : ℕ := 1000

structure NtpShmContext where
  mpHandler : ShmMempool
  ntsringHandle : Shmring ℕ

namespace NtpShmContext

def create (slotSize blockCount eleNum : ℕ) (data : ℕ → ℕ) : NtpShmContext where
  mpHandler := ShmMempool.shmMpInit slotSize blockCount
  ntsringHandle := Shmring.shmringCreate eleNum data

def ntpShmAccept (slotSize : ℕ) (data : ℕ → ℕ) : NtpShmContext :=
  create slotSize (defaultMaxNumNtpMsg + 32) defaultMaxNumNtpMsg data

variable (ctx : NtpShmContext)

/-- The address of a fresh block; `none` is the failed assertion that there is one. -/
def ntpShmNtpacketAlloc : Option (ℕ × NtpShmContext) :=
  ctx.mpHandler.shmMpMalloc.bind fun (node, mp) =>
    (mp.shmOffsetMem (mp.nodes node).nodeIdx).map fun buf => (buf, { ctx with mpHandler := mp })

def ntpShmNtpacketFree (buf : ℕ) : NtpShmContext :=
  let node := ctx.mpHandler.shmMpNodeByShmaddr buf
  { ctx with mpHandler := ctx.mpHandler.shmMpFree node }

def ntpShmSendAttempt (buf : ℕ) : Option NtpShmContext :=
  let node := ctx.mpHandler.shmMpNodeByShmaddr buf
  (ctx.ntsringHandle.shmringPush (ctx.mpHandler.nodes node).nodeIdx).map fun ring =>
    { ctx with ntsringHandle := ring }

def popRetry (ring : Shmring ℕ) : ℕ → Option (ℕ × Shmring ℕ)
  | 0 => none
  | attempts + 1 => (ring.shmringPop).or (popRetry ring attempts)

def ntpShmRecv : Option (ℕ × NtpShmContext) :=
  (popRetry ctx.ntsringHandle (1 + (retryTimes + 1))).bind fun (nodeIdx, ring) =>
    (ctx.mpHandler.shmOffsetMem nodeIdx).map fun buf => (buf, { ctx with ntsringHandle := ring })

def ntpShmFront : Option ℕ := ctx.ntsringHandle.shmringFront.bind ctx.mpHandler.shmOffsetMem

def ntpShmPop : Option NtpShmContext :=
  ctx.ntsringHandle.shmringPlainPop.map fun ring => { ctx with ntsringHandle := ring }

theorem popRetry_eq (ring : Shmring ℕ) (attempts : ℕ) :
    popRetry ring (attempts + 1) = ring.shmringPop := by
  induction attempts with
  | zero => exact Option.or_none
  | succ attempts ih => rw [popRetry, ih, Option.or_self]

end NtpShmContext

inductive ProducerState
  | idle
  | allocated (buf : ℕ)
  | filled (buf : ℕ)
  deriving DecidableEq, Repr

/-- Where the consumer is in its cycle. Between `ntp_shm_front` and `ntp_shm_pop` the block is
still in the ring. -/
inductive ConsumerState
  | idle
  | fronted (buf : ℕ)
  | popped (buf : ℕ)
  | finished (buf : ℕ)
  deriving DecidableEq, Repr

def ProducerState.held : ProducerState → List ℕ
  | .idle => []
  | .allocated buf | .filled buf => [buf]

def ConsumerState.held : ConsumerState → List ℕ
  | .idle | .fronted _ => []
  | .popped buf | .finished buf => [buf]

/-- The channel with its two processes. `produced` records the block contents that the producer
completed, `consumed` those that the consumer read. -/
structure NtpShm where
  ctx : NtpShmContext
  shmMem : Memory
  producer : ProducerState
  consumer : ConsumerState
  produced : List (List UInt8)
  consumed : List (List UInt8)

inductive NtpShmAct
  | alloc
  | fill (bytes : List UInt8)
  | send
  | recv
  | front
  | pop
  | read
  | free
  deriving DecidableEq, Repr

namespace NtpShm

variable (s : NtpShm)

def init (ctx : NtpShmContext) (shmMem : Memory) : NtpShm where
  ctx := ctx
  shmMem := shmMem
  producer := .idle
  consumer := .idle
  produced := []
  consumed := []

def block (buf : ℕ) : List UInt8 := s.shmMem.load buf s.ctx.mpHandler.blockLen

def heldBlocks : List ℕ :=
  s.producer.held.map s.ctx.mpHandler.shmMpNodeByShmaddr ++
    (s.ctx.ntsringHandle.contents ++ s.consumer.held.map s.ctx.mpHandler.shmMpNodeByShmaddr)

/-- A failed push leaves the producer in its retry loop, and a failed `recv` or `front` leaves the
consumer idle; the result of `pop` is not looked at. -/
def step : NtpShmAct → Option NtpShm
  | .alloc =>
    match s.producer with
    | .idle => s.ctx.ntpShmNtpacketAlloc.map fun (buf, ctx) =>
      { s with ctx := ctx, producer := .allocated buf }
    | _ => none
  | .fill bytes =>
    match s.producer with
    | .allocated buf =>
      if bytes.length ≤ s.ctx.mpHandler.blockLen then
        let mem := s.shmMem.store buf bytes
        some { s with
          shmMem := mem
          producer := .filled buf
          produced := s.produced ++ [mem.load buf s.ctx.mpHandler.blockLen] }
      else none
    | _ => none
  | .send =>
    match s.producer with
    | .filled buf =>
      match s.ctx.ntpShmSendAttempt buf with
      | some ctx => some { s with ctx := ctx, producer := .idle }
      | none => some s
    | _ => none
  | .recv =>
    match s.consumer with
    | .idle =>
      match s.ctx.ntpShmRecv with
      | some (buf, ctx) => some { s with ctx := ctx, consumer := .popped buf }
      | none => some s
    | _ => none
  | .front =>
    match s.consumer with
    | .idle =>
      match s.ctx.ntpShmFront with
      | some buf => some { s with consumer := .fronted buf }
      | none => some s
    | _ => none
  | .pop =>
    match s.consumer with
    | .fronted buf => some { s with ctx := s.ctx.ntpShmPop.getD s.ctx, consumer := .popped buf }
    | _ => none
  | .read =>
    match s.consumer with
    | .popped buf =>
      some { s with consumed := s.consumed ++ [s.block buf], consumer := .finished buf }
    | _ => none
  | .free =>
    match s.consumer with
    | .finished buf => some { s with ctx := s.ctx.ntpShmNtpacketFree buf, consumer := .idle }
    | _ => none

end NtpShm

end NtSocks
