import NtSocks.ConnTable
import NtSocks.DataRingFifo

/-!
# The receive loop's cached connection

The receive loop keeps the ports and the connection of its last lookup and looks up again only for
a packet with other ports. The ports start as 0 and the connection as whatever the stack holds.
Meanwhile other threads create connections, close them, and remove closed ones from `port2conn`.

The loop is followed together with the table. The connections are the same memory for both sides:
a state that one side writes is seen by the other. `looked` is the table as it was at the last
lookup; no step reads it.
-/

namespace NtSocks

namespace RecvState

variable (cfg : NtpConfig) (port2conn : Port2Conn)

def cached (s : RecvState) : UInt16 × UInt16 × Option ConnPtr := (s.srcPort, s.dstPort, s.conn)

def LooksUp (s : RecvState) : Prop :=
  (s.header cfg).msgLen ≠ 0 ∧
    (s.srcPort ≠ (s.header cfg).dstPort ∨ s.dstPort ≠ (s.header cfg).srcPort)

instance (s : RecvState) : Decidable (s.LooksUp cfg) := inferInstanceAs (Decidable (_ ∧ _))

variable {s s' : RecvState} {c : ConnPtr} {hdr : NtpacketHeader}

theorem cached_pushEpollEvent (s : RecvState) (c : ConnPtr) :
    (s.pushEpollEvent c).cached = s.cached := by
  unfold pushEpollEvent
  split <;> rfl

theorem cached_recvByType {type : UInt16} (h : s.recvByType cfg c hdr type = some s') :
    s'.cached = s.cached := by
  unfold recvByType at h
  split_ifs at h
  · cases h
    exact cached_pushEpollEvent _ c
  · simp only [recvMulti, Option.ite_none_left_eq_some] at h
    obtain ⟨-, h⟩ := h
    cases h
    exact cached_pushEpollEvent _ c
  · cases h
    rfl
  · cases h
    exact cached_pushEpollEvent _ c
  · cases h
    rfl

theorem cached_recvStep (h : s.recvStep cfg port2conn = some s') :
    s'.cached = if (s.header cfg).msgLen = 0 then s.cached
      else ((s.header cfg).dstPort, (s.header cfg).srcPort,
        s.lookupConn port2conn (s.header cfg)) := by
  by_cases hlen : (s.header cfg).msgLen = 0
  · rw [recvStep_empty cfg port2conn hlen] at h
    cases h
    rw [if_pos hlen]
  · rw [if_neg hlen]
    have haccept : (s.accept port2conn (s.header cfg)).cached =
        ((s.header cfg).dstPort, (s.header cfg).srcPort,
          s.lookupConn port2conn (s.header cfg)) := by
      rw [accept_eq]
      rfl
    cases hlive : (s.accept port2conn (s.header cfg)).liveConn with
    | none =>
      rw [recvStep_drop cfg port2conn hlen hlive] at h
      cases h
      exact haccept
    | some c =>
      rw [recvStep_live cfg port2conn hlen hlive] at h
      obtain ⟨s₁, htype, rfl⟩ := Option.map_eq_some_iff.mp h
      rw [← haccept, ← cached_recvByType cfg htype, publishAtInterval_eq]
      rfl

end RecvState

structure LookupRun where
  recv : RecvState
  table : ConnTable
  looked : Option Port2Conn

/-- Requests and send threads act on the table, any thread may close a connection, and the peer
writes into the ring. -/
inductive LookupAct
  | create (shmAccept : String → Bool) (msg : NtmNtpMsg)
  | close (c : ConnPtr) (state : ConnState)
  | visit (p : ℕ)
  | arrive (m : Memory)
  | recv

namespace LookupRun

variable (cfg : NtpConfig) (s : LookupRun)

def port2conn : Port2Conn := s.table.link.port2conn

def withTable (table : ConnTable) : LookupRun :=
  { s with
    table := table
    recv := { s.recv with
      conns := fun c => { s.recv.conns c with state := (table.link.conns c).state } } }

def withRecv (recv : RecvState) : LookupRun where
  recv := recv
  table := { s.table with
    link := { s.table.link with
      conns := fun c => { s.table.link.conns c with state := (recv.conns c).state } } }
  looked := if s.recv.LooksUp cfg then some s.port2conn else s.looked

def step : LookupAct → Option LookupRun
  | .create shmAccept msg =>
    some (s.withTable
      { s.table with link := (s.table.link.ntpCreateConnHandler shmAccept msg).2 })
  | .close c state => some (s.withTable (s.table.setState c state))
  | .visit p => some (s.withTable (s.table.visit p))
  | .arrive m => some { s with recv := { s.recv with mem := m } }
  | .recv => (s.recv.recvStep cfg s.port2conn).map (s.withRecv cfg)

/-- The connection used for a packet is the one that a lookup would find. -/
def UsesFresh : LookupAct → Prop
  | .recv =>
    let hdr := s.recv.header cfg
    hdr.msgLen ≠ 0 →
      (s.recv.accept s.port2conn hdr).conn = s.port2conn (createConnId hdr.dstPort hdr.srcPort)
  | _ => True

/-- What the table had for the cached ports when they were looked up; before the first lookup, what
the stack held. -/
def remembered (stack : Option ConnPtr) : Option ConnPtr :=
  s.looked.elim stack fun table => table (createConnId s.recv.srcPort s.recv.dstPort)

/-- At a packet with the ports of the packet before it, or with ports 0 at the start, the table has
what it had at the last lookup. -/
def Unchanged (stack : Option ConnPtr) : LookupAct → Prop
  | .recv => (s.recv.header cfg).msgLen ≠ 0 → ¬ s.recv.LooksUp cfg →
      s.port2conn (createConnId s.recv.srcPort s.recv.dstPort) = s.remembered stack
  | _ => True

variable {cfg s} {s' : LookupRun} {stack : Option ConnPtr}

theorem remembers_step (h : s.recv.conn = s.remembered stack) {a : LookupAct}
    (hstep : s.step cfg a = some s') : s'.recv.conn = s'.remembered stack := by
  cases a with
  | recv =>
    obtain ⟨r, hrecv, rfl⟩ := Option.map_eq_some_iff.mp hstep
    have hcached := RecvState.cached_recvStep cfg s.port2conn hrecv
    by_cases hlen : (s.recv.header cfg).msgLen = 0
    · rw [if_pos hlen] at hcached
      obtain ⟨hsrc, hdst, hconn⟩ : r.srcPort = s.recv.srcPort ∧ r.dstPort = s.recv.dstPort ∧
          r.conn = s.recv.conn := by simpa [RecvState.cached] using hcached
      have hno : ¬ s.recv.LooksUp cfg := fun hlooks => hlooks.1 hlen
      simp only [withRecv, remembered, if_neg hno, hsrc, hdst, hconn]
      exact h
    · rw [if_neg hlen] at hcached
      obtain ⟨hsrc, hdst, hconn⟩ : r.srcPort = (s.recv.header cfg).dstPort ∧
          r.dstPort = (s.recv.header cfg).srcPort ∧
          r.conn = s.recv.lookupConn s.port2conn (s.recv.header cfg) := by
        simpa [RecvState.cached] using hcached
      by_cases hports : s.recv.srcPort ≠ (s.recv.header cfg).dstPort ∨
          s.recv.dstPort ≠ (s.recv.header cfg).srcPort
      · have hlooks : s.recv.LooksUp cfg := ⟨hlen, hports⟩
        rw [RecvState.lookupConn, if_pos hports] at hconn
        simp only [withRecv, remembered, if_pos hlooks, hsrc, hdst, hconn, Option.elim_some]
      · have hno : ¬ s.recv.LooksUp cfg := fun hlooks => hports hlooks.2
        rw [RecvState.lookupConn, if_neg hports] at hconn
        simp only [not_or, not_not] at hports
        simp only [withRecv, remembered, if_neg hno, hsrc, hdst, hconn, ← hports.1, ← hports.2]
        exact h
  | create shmAccept msg | close c state | visit p | arrive m => cases hstep; exact h

theorem usesFresh_iff (h : s.recv.conn = s.remembered stack) (a : LookupAct) :
    s.UsesFresh cfg a ↔ s.Unchanged cfg stack a := by
  cases a with
  | recv =>
    simp only [UsesFresh, Unchanged]
    refine imp_congr_right fun hlen => ?_
    rw [RecvState.accept_eq]
    by_cases hports : s.recv.srcPort ≠ (s.recv.header cfg).dstPort ∨
        s.recv.dstPort ≠ (s.recv.header cfg).srcPort
    · have hlooks : s.recv.LooksUp cfg := ⟨hlen, hports⟩
      simp only [RecvState.lookupConn, if_pos hports, hlooks, not_true_eq_false, false_implies]
    · have hno : ¬ s.recv.LooksUp cfg := fun hlooks => hports hlooks.2
      simp only [RecvState.lookupConn, if_neg hports, hno, not_false_eq_true, forall_const, h]
      simp only [not_or, not_not] at hports
      rw [hports.1, hports.2]
      exact eq_comm
  | create shmAccept msg | close c state | visit p | arrive m => exact Iff.rfl

end LookupRun

open LookupRun in
/-- In every run, the loop uses for every packet the connection that the table has at that moment,
exactly if the table has, at every packet that is not looked up, what it had at the last lookup.
With both ports 0 at the start there was none, and the pointer on the stack takes its place. -/
theorem cached_lookup_fresh_iff (cfg : NtpConfig) (recv : RecvState) (table : ConnTable)
    (acts : List LookupAct) :
    Runs.Along (step cfg) (UsesFresh cfg) ⟨recv, table, none⟩ acts ↔
      Runs.Along (step cfg) (fun s => s.Unchanged cfg recv.conn) ⟨recv, table, none⟩ acts := by
  apply Runs.along_congr (C := fun _ => True)
    (I := fun s : LookupRun => s.recv.conn = s.remembered recv.conn)
  · exact fun s a h _ => usesFresh_iff h a
  · exact fun s a s' h _ _ hstep => remembers_step h hstep
  · rfl
  · exact fun _ _ => trivial

section Sample

open LookupRun

def startLoop (stack : Option ConnPtr) : LookupRun where
  recv := { (LinkState.init allReady none).recv with conn := stack }
  table := ⟨ConnTable.freshLink, fun _ => 0⟩
  looked := none

def packetAt (slot : ℕ) (srcPort dstPort : UInt16) : Memory :=
  Memory.store (fun _ => 0) (smallRing.slotAddr slot)
    (packNtpacketHeader srcPort dstPort 0 .singlePkg).bytes

theorem cached_lookup_fresh_two_packets :
    Runs.Along (step smallRing) (UsesFresh smallRing) (startLoop none)
      [.create (fun _ => true) ConnTable.samplePair, .arrive (packetAt 0 23040 20480), .recv,
        .arrive (packetAt 1 23040 20480), .recv] := by
  apply (cached_lookup_fresh_iff smallRing _ _ _).mpr
  rw [Runs.along_cons_iff rfl, Runs.along_cons_iff rfl, Runs.along_cons_iff rfl,
    Runs.along_cons_iff rfl, Runs.along_cons_iff rfl]
  refine ⟨trivial, trivial, fun _ hsame => absurd ?_ hsame, trivial, fun _ _ => rfl, trivial⟩
  exact ⟨by decide, by decide⟩

/-- A first packet with both ports 0 is given to the connection that the stack happens to point
to; and a packet that comes after its connection was removed is given to the freed connection. The
table has no entry in either case. -/
theorem stale_connection_used :
    (∃ s, Runs.run (step smallRing) (startLoop (some 5)) [.arrive (packetAt 0 0 0)] = some s ∧
      (s.recv.accept s.port2conn (s.recv.header smallRing)).conn = some 5 ∧
      s.port2conn (createConnId 0 0) = none) ∧
    ∃ s, Runs.run (step smallRing) (startLoop none)
        [.create (fun _ => true) ConnTable.samplePair, .arrive (packetAt 0 23040 20480), .recv,
          .close 0 .activeClose, .visit 0, .arrive (packetAt 1 23040 20480)] = some s ∧
      (s.recv.accept s.port2conn (s.recv.header smallRing)).conn = some 0 ∧
      s.port2conn (createConnId 20480 23040) = none :=
  ⟨⟨_, rfl, by decide, by decide⟩, _, rfl, by decide, by decide⟩

end Sample

end NtSocks
