import NtSocks.NtpRecv

/-!
# The control ring

Read indices travel between two proxies through a control ring of their own. The sender keeps a
shadow of the receiver's index and spins while its next index equals it; the receiver renews the
shadow when a message carries the PSH bit. The sender's test for setting the bit is written
`gap & 0x3ff == 0`, which compares first, so that the bit is never set and the shadow stays at 0.

`sent` and `received` are histories, read by no step.
-/

namespace NtSocks

open Function

def ctrlNtpacketSize : ℕ := 16

/-- `writeIndex` is the `cur_index` of the sender's remote ring, `readIndex` that of the receiver's
local ring; both rings are the same memory. -/
structure CtrlLink where
  capacity : ℕ
  writeIndex : ℕ
  localCumPtr : ℕ
  readIndex : ℕ
  slot : ℕ → NtbCtrlMsg
  peerReadIndex : ConnPtr → ℕ
  sent : List NtbCtrlMsg
  received : List NtbCtrlMsg

namespace CtrlLink

def init (ctrlRingbufferSize : ℕ) (peerReadIndex : ConnPtr → ℕ) : CtrlLink where
  capacity := ctrlRingbufferSize / ctrlNtpacketSize
  writeIndex := 0
  localCumPtr := 0
  readIndex := 0
  slot := fun _ => { srcPort := 0, dstPort := 0, msgLen := 0, readIndex := 0 }
  peerReadIndex := peerReadIndex
  sent := []
  received := []

variable (port2conn : Port2Conn) (s : CtrlLink)

def nextIndex : ℕ := RingIndex.next s.capacity s.writeIndex

/-- The sender's test, as C parses it: the gap masked with the truth value of `0x3ff == 0`. -/
def setsPsh : Bool :=
  ((s.nextIndex + 2 ^ 64 - s.localCumPtr) % 2 ^ 64 &&& (0x3ff == 0).toNat) != 0

/-- `none` is the sender's loop on a full ring. -/
def ntbCtrlMsgEnqueue (msg : NtbCtrlMsg) : Option CtrlLink :=
  if s.nextIndex = s.localCumPtr then none
  else
    let msg := if s.setsPsh then { msg with msgLen := msg.msgLen ||| 0x8000 } else msg
    some { s with
      slot := update s.slot s.writeIndex msg
      writeIndex := s.nextIndex
      sent := s.sent ++ [msg] }

def detectPkgHandler (srcPort dstPort : UInt16) (readIndex : ℕ) : Option CtrlLink :=
  s.ntbCtrlMsgEnqueue
    { srcPort := srcPort, dstPort := dstPort, msgLen := 6, readIndex := readIndex }

/-- The shadow at the sender after `parser_ctrl_msg_header`. -/
def parserCtrlMsgHeader (msgLen : UInt16) : ℕ :=
  if msgLen &&& 0x8000 ≠ 0 then s.readIndex else s.localCumPtr

/-- One message of the receive loop; `none` where there is none, and where its connection is not in
the table, which is a null pointer access. -/
def ntpCtrlMsgReceive : Option CtrlLink :=
  let msg := s.slot s.readIndex
  if msg.msgLen = 0 then none
  else
    match port2conn (createConnId msg.dstPort msg.srcPort) with
    | none => none
    | some c =>
      some { s with
        localCumPtr := s.parserCtrlMsgHeader msg.msgLen
        peerReadIndex := update s.peerReadIndex c msg.readIndex
        readIndex := RingIndex.next s.capacity s.readIndex
        slot := update s.slot s.readIndex { msg with msgLen := 0 }
        received := s.received ++ [msg] }

inductive Act where
  | detect (srcPort dstPort : UInt16) (readIndex : ℕ)
  | receive
  deriving DecidableEq, Repr

def step : Act → Option CtrlLink
  | .detect srcPort dstPort readIndex => s.detectPkgHandler srcPort dstPort readIndex
  | .receive => s.ntpCtrlMsgReceive port2conn

structure Wedged : Prop where
  consumed : s.received.length = s.sent.length
  blocked : s.nextIndex = s.localCumPtr

def Act.Connected : Act → Prop
  | .detect srcPort dstPort _ => ∃ c, port2conn (createConnId dstPort srcPort) = some c
  | .receive => True

theorem setsPsh_eq_false : s.setsPsh = false := by
  have hparsed : (0x3ff == 0).toNat = 0 := rfl
  rw [setsPsh, hparsed, Nat.and_zero]
  rfl

/-- The ring before its first turn: the shadow is still 0 and every slot is used at most once. -/
structure FirstTurn (s : CtrlLink) : Prop where
  shadow : s.localCumPtr = 0
  writeIndex : s.writeIndex = s.sent.length
  readIndex : s.readIndex = s.received.length
  received_le : s.received.length ≤ s.sent.length
  sent_lt : s.sent.length < s.capacity
  pending : ∀ k (h : k < s.sent.length), s.received.length ≤ k → s.slot k = s.sent[k]
  empty : ∀ k, s.sent.length ≤ k → (s.slot k).msgLen = 0
  built : ∀ m ∈ s.sent, m.msgLen = 6 ∧ ∃ c, port2conn (createConnId m.dstPort m.srcPort) = some c

namespace FirstTurn

variable {s s' : CtrlLink} {port2conn : Port2Conn}

theorem init {size : ℕ} (hcap : 0 < size / ctrlNtpacketSize) (peer : ConnPtr → ℕ) :
    FirstTurn port2conn (init size peer) where
  shadow := rfl
  writeIndex := rfl
  readIndex := rfl
  received_le := le_rfl
  sent_lt := hcap
  pending := fun k hk => absurd hk (Nat.not_lt_zero k)
  empty := fun _ _ => rfl
  built := fun _ hm => absurd hm List.not_mem_nil

variable (h : FirstTurn port2conn s)
include h

theorem nextIndex_eq :
    s.nextIndex = if s.sent.length + 1 < s.capacity then s.sent.length + 1 else 0 := by
  rw [nextIndex, RingIndex.next, h.writeIndex]

theorem blocked_iff : s.nextIndex = s.localCumPtr ↔ s.writeIndex + 1 = s.capacity := by
  have hlt := h.sent_lt
  rw [h.nextIndex_eq, h.shadow, h.writeIndex]
  split <;> omega

theorem detect (hroom : s.writeIndex + 1 < s.capacity) {srcPort dstPort : UInt16}
    (hconn : ∃ c, port2conn (createConnId dstPort srcPort) = some c) (readIndex : ℕ) :
    ∃ s', s.detectPkgHandler srcPort dstPort readIndex = some s' ∧ FirstTurn port2conn s' ∧
      s'.capacity = s.capacity ∧ s'.writeIndex = s.writeIndex + 1 ∧ s'.received = s.received := by
  have hfree : ¬ s.nextIndex = s.localCumPtr := by
    rw [h.blocked_iff]
    omega
  have hw := h.writeIndex
  have hr := h.received_le
  have hnext : s.nextIndex = s.sent.length + 1 := by
    rw [h.nextIndex_eq, if_pos (by omega)]
  rw [detectPkgHandler, ntbCtrlMsgEnqueue, if_neg hfree, setsPsh_eq_false]
  refine ⟨_, rfl, ?_, rfl, by rw [hw]; exact hnext, rfl⟩
  constructor
  · exact h.shadow
  · simpa using hnext
  · exact h.readIndex
  iterate 2
    simp only [List.length_append, List.length_singleton]
    omega
  · intro k hk hle
    simp only [List.length_append, List.length_singleton] at hk
    rcases Nat.lt_or_ge k s.sent.length with hlt | hge
    · simp only [List.getElem_append_left hlt]
      rw [update_of_ne (by omega)]
      exact h.pending k hlt hle
    · obtain rfl : k = s.sent.length := by omega
      simp [hw]
  · intro k hk
    simp only [List.length_append, List.length_singleton] at hk
    dsimp only
    rw [update_of_ne (by omega)]
    exact h.empty k (by omega)
  · exact List.forall_mem_append.mpr ⟨h.built, List.forall_mem_singleton.mpr ⟨rfl, hconn⟩⟩

theorem receive (hlt : s.received.length < s.sent.length) :
    ∃ s', s.ntpCtrlMsgReceive port2conn = some s' ∧ FirstTurn port2conn s' ∧
      s'.capacity = s.capacity ∧ s'.writeIndex = s.writeIndex ∧ s'.sent = s.sent ∧
      s'.received.length = s.received.length + 1 := by
  have hmsg : s.slot s.readIndex = s.sent[s.received.length] := by
    rw [h.readIndex]
    exact h.pending _ hlt le_rfl
  obtain ⟨hlen, c, hc⟩ := h.built _ (List.getElem_mem hlt)
  have hsent := h.sent_lt
  have hr := h.readIndex
  have hstep : s.ntpCtrlMsgReceive port2conn = some { s with
      localCumPtr := s.localCumPtr
      peerReadIndex := update s.peerReadIndex c s.sent[s.received.length].readIndex
      readIndex := s.received.length + 1
      slot := update s.slot s.received.length
        { s.sent[s.received.length] with msgLen := 0 }
      received := s.received ++ [s.sent[s.received.length]] } := by
    rw [ntpCtrlMsgReceive, hmsg, hc]
    simp only [hlen, parserCtrlMsgHeader, RingIndex.next, hr]
    rw [if_pos (by omega : s.received.length + 1 < s.capacity)]
    rfl
  refine ⟨_, hstep, ?_, rfl, rfl, rfl, by simp⟩
  constructor
  · exact h.shadow
  · exact h.writeIndex
  · simp
  · simpa using hlt
  · exact hsent
  · intro k hk hle
    simp only [List.length_append, List.length_singleton] at hle
    dsimp only
    rw [update_of_ne (by omega)]
    exact h.pending k hk (by omega)
  · intro k hk
    have hk' : s.sent.length ≤ k := hk
    dsimp only
    rw [update_of_ne (by omega)]
    exact h.empty k hk'
  · exact h.built

theorem receive_empty (heq : s.received.length = s.sent.length) :
    s.ntpCtrlMsgReceive port2conn = none := by
  have hempty := h.empty s.readIndex (by rw [h.readIndex, heq])
  rw [ntpCtrlMsgReceive, if_pos hempty]

theorem step {a : Act} (ha : a.Connected port2conn) (hstep : s.step port2conn a = some s') :
    FirstTurn port2conn s' ∧ s'.capacity = s.capacity ∧
      (a = .receive ∧ s'.writeIndex = s.writeIndex ∨
        a ≠ .receive ∧ s.writeIndex + 1 < s.capacity ∧ s'.writeIndex = s.writeIndex + 1) := by
  cases a with
  | detect srcPort dstPort readIndex =>
    have hroom : s.writeIndex + 1 < s.capacity := by
      have hlt := h.sent_lt
      rw [← h.writeIndex] at hlt
      by_contra hge
      have hblocked := h.blocked_iff.mpr (by omega)
      rw [CtrlLink.step, detectPkgHandler, ntbCtrlMsgEnqueue, if_pos hblocked] at hstep
      cases hstep
    obtain ⟨t, ht, hturn, hcap, hw, -⟩ := h.detect hroom ha readIndex
    rw [CtrlLink.step, ht] at hstep
    cases hstep
    exact ⟨hturn, hcap, .inr ⟨by simp, hroom, hw⟩⟩
  | receive =>
    rw [CtrlLink.step] at hstep
    have hle := h.received_le
    rcases Nat.lt_or_ge s.received.length s.sent.length with hlt | hge
    · obtain ⟨t, ht, hturn, hcap, hw, -⟩ := h.receive hlt
      rw [ht] at hstep
      cases hstep
      exact ⟨hturn, hcap, .inl ⟨rfl, hw⟩⟩
    · rw [h.receive_empty (by omega)] at hstep
      cases hstep

theorem run {as : List Act} (has : ∀ a ∈ as, a.Connected port2conn)
    (hrun : Runs.run (CtrlLink.step port2conn) s as = some s') :
    FirstTurn port2conn s' ∧ s'.capacity = s.capacity ∧ s.writeIndex ≤ s'.writeIndex := by
  apply Runs.invariant_of_forall_mem (I := fun t => FirstTurn port2conn t ∧
    t.capacity = s.capacity ∧ s.writeIndex ≤ t.writeIndex) _ ⟨h, rfl, le_rfl⟩ has hrun
  intro t a t' ⟨hturn, hcap, hle⟩ ha hstep
  obtain ⟨hturn', hcap', hw⟩ := hturn.step ha hstep
  exact ⟨hturn', hcap'.trans hcap, by omega⟩

theorem run_receive {k : ℕ}
    (hrun : Runs.run (CtrlLink.step port2conn) s (List.replicate k .receive) = some s') :
    FirstTurn port2conn s' ∧ s'.capacity = s.capacity ∧ s'.writeIndex = s.writeIndex := by
  apply Runs.invariant_of_forall_mem (I := fun t => FirstTurn port2conn t ∧
    t.capacity = s.capacity ∧ t.writeIndex = s.writeIndex) (P := fun a => a = .receive) _
    ⟨h, rfl, rfl⟩ (fun a ha => List.eq_of_mem_replicate ha) hrun
  rintro t a t' ⟨hturn, hcap, hw⟩ rfl hstep
  obtain ⟨hturn', hcap', ⟨-, hw'⟩ | ⟨hne, -⟩⟩ := hturn.step (a := .receive) trivial hstep
  · exact ⟨hturn', hcap'.trans hcap, hw'.trans hw⟩
  · exact absurd rfl hne

theorem drain :
    ∃ k t, Runs.run (CtrlLink.step port2conn) s (List.replicate k .receive) = some t ∧
      FirstTurn port2conn t ∧ t.received.length = t.sent.length ∧ t.capacity = s.capacity ∧
      t.writeIndex = s.writeIndex := by
  obtain ⟨n, hn⟩ : ∃ n, n = s.sent.length - s.received.length := ⟨_, rfl⟩
  induction n generalizing s with
  | zero =>
    have hle := h.received_le
    exact ⟨0, s, rfl, h, by omega, rfl, rfl⟩
  | succ n ih =>
    obtain ⟨s₁, hs₁, hturn, hcap, hw, hsent, hrec⟩ := h.receive (by omega)
    obtain ⟨k, t, ht, hturn', hcons, hcap', hw'⟩ := ih hturn (by rw [hsent, hrec]; omega)
    refine ⟨k + 1, t, ?_, hturn', hcons, hcap'.trans hcap, hw'.trans hw⟩
    rw [List.replicate_succ, Runs.run_cons, CtrlLink.step, hs₁]
    exact ht

theorem not_last_iff_along (hw : s.writeIndex + 1 < s.capacity)
    {as : List Act} (has : ∀ a ∈ as, a.Connected port2conn)
    (hrun : Runs.run (CtrlLink.step port2conn) s as = some s') :
    s'.writeIndex + 1 < s'.capacity ↔ Runs.Along (CtrlLink.step port2conn)
        (fun s a => a ≠ .receive → s.writeIndex + 2 ≠ s.capacity) s as := by
  induction as generalizing s with
  | nil =>
    cases hrun
    exact iff_of_true hw trivial
  | cons a as ih =>
    obtain ⟨s₁, hstep, hrest⟩ := Runs.run_cons_eq_some.mp hrun
    have has' : ∀ b ∈ as, b.Connected port2conn := fun b hb => has b (List.mem_cons_of_mem a hb)
    obtain ⟨hturn, hcap, hmove⟩ := h.step (has a List.mem_cons_self) hstep
    rw [Runs.along_cons_iff hstep]
    rcases hmove with ⟨rfl, hsame⟩ | ⟨hdetect, hroom, hsucc⟩
    · rw [ih hturn (by omega) has' hrest]
      simp
    · by_cases hlast : s.writeIndex + 2 = s.capacity
      · obtain ⟨-, hcap', hle⟩ := hturn.run has' hrest
        refine iff_of_false (by omega) ?_
        rintro ⟨hok, -⟩
        exact hok hdetect hlast
      · rw [ih hturn (by omega) has' hrest]
        simp [hlast]

end FirstTurn

variable {port2conn : Port2Conn} {s : CtrlLink}

theorem FirstTurn.wedged_iff (h : FirstTurn port2conn s) :
    s.Wedged ↔ s.received.length = s.sent.length ∧ s.writeIndex + 1 = s.capacity :=
  ⟨fun hw => ⟨hw.consumed, h.blocked_iff.mp hw.blocked⟩, fun hw => ⟨hw.1, h.blocked_iff.mpr hw.2⟩⟩

/-- A run leaves no wedged state, reached at once or when the receiver has caught up, exactly if it
never moves the sender to the last slot of the ring. -/
theorem not_wedged_iff_along {size : ℕ} (hcap : 2 ≤ size / ctrlNtpacketSize)
    (peer : ConnPtr → ℕ) {as : List Act} (has : ∀ a ∈ as, a.Connected port2conn)
    (hrun : Runs.run (step port2conn) (init size peer) as = some s) :
    (∀ k t, Runs.run (step port2conn) s (List.replicate k .receive) = some t → ¬ t.Wedged) ↔
      Runs.Along (step port2conn) (fun s a => a ≠ .receive → s.writeIndex + 2 ≠ s.capacity)
        (init size peer) as := by
  have hstart : FirstTurn port2conn (init size peer) := FirstTurn.init (by omega) peer
  obtain ⟨hs, -, -⟩ := hstart.run has hrun
  rw [← hstart.not_last_iff_along (show 0 + 1 < size / ctrlNtpacketSize by omega) has hrun]
  constructor
  · intro hfree
    obtain ⟨k, t, ht, hturn, hcons, hcap', hw⟩ := hs.drain
    have hlt := hturn.sent_lt
    rw [← hturn.writeIndex] at hlt
    have hnot : t.writeIndex + 1 ≠ t.capacity := fun hlast =>
      hfree k t ht (hturn.wedged_iff.mpr ⟨hcons, hlast⟩)
    omega
  · intro hroom k t ht hwedged
    obtain ⟨hturn, hcap', hw⟩ := hs.run_receive ht
    have hlast := (hturn.wedged_iff.mp hwedged).2
    omega

theorem exists_wedged {size : ℕ} (hcap : 2 ≤ size / ctrlNtpacketSize) (peer : ConnPtr → ℕ)
    (srcPort dstPort : UInt16) (hconn : ∃ c, port2conn (createConnId dstPort srcPort) = some c) :
    ∃ as t, Runs.run (step port2conn) (init size peer) as = some t ∧ t.Wedged ∧
      ∀ a, t.step port2conn a = none := by
  have hfill : ∀ n, n < size / ctrlNtpacketSize → ∃ as t,
      Runs.run (step port2conn) (init size peer) as = some t ∧ FirstTurn port2conn t ∧
        t.capacity = size / ctrlNtpacketSize ∧ t.writeIndex = n := by
    intro n
    induction n with
    | zero => exact fun hn => ⟨[], _, rfl, FirstTurn.init hn peer, rfl, rfl⟩
    | succ n ih =>
      intro hn
      obtain ⟨as, t, hrun, hturn, hcap', hw⟩ := ih (by omega)
      obtain ⟨t', ht', hturn', hcap'', hw', -⟩ := hturn.detect (by omega) hconn 0
      refine ⟨as ++ [.detect srcPort dstPort 0], t', ?_, hturn', hcap''.trans hcap', by omega⟩
      rw [Runs.run_append, hrun]
      simp [Runs.run_cons, step, ht']
  obtain ⟨as, s, hrun, hturn, hcap', hw⟩ := hfill (size / ctrlNtpacketSize - 1) (by omega)
  obtain ⟨k, t, ht, hturn', hcons, hcap'', hw'⟩ := hturn.drain
  have hwedged : t.Wedged := hturn'.wedged_iff.mpr ⟨hcons, by omega⟩
  refine ⟨as ++ List.replicate k .receive, t, ?_, hwedged, ?_⟩
  · rw [Runs.run_append, hrun]
    exact ht
  · intro a
    cases a with
    | detect srcPort dstPort readIndex => exact if_pos hwedged.blocked
    | receive => exact hturn'.receive_empty hcons

def everyPort : Port2Conn := fun _ => some 0

/-- The control ring of the default size, 256 KiB. -/
theorem default_ctrl_ring_wedges :
    ∃ as t, Runs.run (step everyPort) (init 0x40000 fun _ => 0) as = some t ∧ t.Wedged ∧
      ∀ a, t.step everyPort a = none :=
  exists_wedged (by decide) _ 1 2 ⟨0, rfl⟩

theorem not_wedged_three_slots :
    ∃ s, Runs.run (step everyPort) (init 48 fun _ => 0) [.detect 1 2 5, .receive] = some s ∧
      ∀ k t, Runs.run (step everyPort) s (List.replicate k .receive) = some t → ¬ t.Wedged := by
  have hconnected : ∀ a ∈ [Act.detect 1 2 5, .receive], a.Connected everyPort :=
    List.forall_mem_cons.mpr ⟨⟨0, rfl⟩, List.forall_mem_singleton.mpr trivial⟩
  have hrun : Runs.run (step everyPort) (init 48 fun _ => 0) [.detect 1 2 5, .receive] = some _ :=
    rfl
  refine ⟨_, hrun, (not_wedged_iff_along (by decide) _ hconnected hrun).mpr ?_⟩
  refine ⟨fun _ => by decide, fun s₁ _ => ⟨fun h => absurd rfl h, fun _ _ => trivial⟩⟩

end CtrlLink

end NtSocks
