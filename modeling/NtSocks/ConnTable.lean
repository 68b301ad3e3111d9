import NtSocks.NtpCreateConn

/-!
# The connection table while connections come and go

A request creates a connection, enters it into `port2conn` and appends it to the send list of its
partition. The send thread of the partition goes round the list; on a connection that was closed it
removes the entry of `port2conn` that has the connection's id, and takes the connection off the
list. Creation, closing and one visit of a send thread are the steps.
-/

namespace NtSocks

open Function

namespace NtbLinkCustom

variable (link : NtbLinkCustom) {msg : NtmNtpMsg}

def sendLists : List ConnPtr :=
  (List.range link.numPartition).flatMap fun p => (link.partitions p).sendList

theorem mem_sendLists {c : ConnPtr} :
    c ∈ link.sendLists ↔ ∃ p < link.numPartition, c ∈ (link.partitions p).sendList := by
  simp [sendLists, List.mem_flatMap, List.mem_range]

def hasReady (connId : UInt32) : Bool :=
  link.sendLists.any fun c =>
    decide ((link.conns c).state = .readyConn) && decide ((link.conns c).connId = connId)

theorem hasReady_iff {connId : UInt32} : link.hasReady connId = true ↔
    ∃ c ∈ link.sendLists, (link.conns c).state = .readyConn ∧ (link.conns c).connId = connId := by
  simp [hasReady, List.any_eq_true]

def connIdOf (msg : NtmNtpMsg) : UInt32 :=
  createConnId (ntohs msg.srcPort.toUInt16) (ntohs msg.dstPort.toUInt16)

structure Created (link link' : NtbLinkCustom) (msg : NtmNtpMsg) : Prop where
  port2conn : link'.port2conn = update link.port2conn (connIdOf msg) (some link.nextConn)
  conns : ∃ entry : NtbConnEntry, entry.connId = connIdOf msg ∧
    link'.conns = update link.conns link.nextConn entry
  nextConn : link'.nextConn = link.nextConn + 1
  mem_sendLists : ∀ c, c ∈ link'.sendLists ↔ c ∈ link.sendLists ∨ c = link.nextConn

def placeConn (entry : NtbConnEntry) : NtbLinkCustom :=
  ((link.putConn entry).modifyPartition entry.partitionId fun p =>
    { p with numConns := p.numConns + 1 }).addConnToNtbSendList entry.partitionId link.nextConn

theorem sendList_placeConn (entry : NtbConnEntry) (p : ℕ) :
    ((link.placeConn entry).partitions p).sendList =
      if p = entry.partitionId then (link.partitions p).sendList ++ [link.nextConn]
      else (link.partitions p).sendList := by
  by_cases hp : p = entry.partitionId
  · subst hp
    simp [placeConn, addConnToNtbSendList, modifyPartition, putConn]
  · simp [placeConn, addConnToNtbSendList, modifyPartition, putConn, hp]

theorem mem_sendLists_placeConn {entry : NtbConnEntry} (hlt : entry.partitionId < link.numPartition)
    (c : ConnPtr) :
    c ∈ (link.placeConn entry).sendLists ↔ c ∈ link.sendLists ∨ c = link.nextConn := by
  have hnum : (link.placeConn entry).numPartition = link.numPartition := rfl
  rw [mem_sendLists, mem_sendLists, hnum]
  constructor
  · rintro ⟨p, hp, hmem⟩
    rw [sendList_placeConn] at hmem
    split at hmem
    · rw [List.mem_append, List.mem_singleton] at hmem
      exact hmem.imp (fun h => ⟨p, hp, h⟩) id
    · exact .inl ⟨p, hp, hmem⟩
  · rintro (⟨p, hp, hmem⟩ | rfl)
    · refine ⟨p, hp, ?_⟩
      rw [sendList_placeConn]
      split
      · exact List.mem_append_left _ hmem
      · exact hmem
    · refine ⟨entry.partitionId, hlt, ?_⟩
      rw [sendList_placeConn, if_pos rfl]
      exact List.mem_append_right _ (List.mem_singleton_self _)

theorem created_placeConn (entry : NtbConnEntry) (hlt : entry.partitionId < link.numPartition)
    (hid : entry.connId = connIdOf msg) : Created link (link.placeConn entry) msg where
  port2conn := by
    rw [← hid]
    rfl
  conns := ⟨entry, hid, rfl⟩
  nextConn := rfl
  mem_sendLists := link.mem_sendLists_placeConn hlt

theorem ntpCreateConnHandler_cases {shmAccept : String → Bool}
    (hpart : msg.partitionId < link.numPartition) :
    (link.ntpCreateConnHandler shmAccept msg).2 = link ∨
      Created link (link.ntpCreateConnHandler shmAccept msg).2 msg := by
  simp only [ntpCreateConnHandler]
  split
  · right
    by_cases hside : 0 ≤ msg.partitionId
    · rw [if_pos hside]
      exact link.created_placeConn (.create _ _ msg.partitionId.toNat)
        (show msg.partitionId.toNat < link.numPartition by omega) rfl
    · rw [if_neg hside]
      have h : Created link.ntpAllocatePartition.2 _ msg :=
        link.ntpAllocatePartition.2.created_placeConn
          (.create _ _ link.ntpAllocatePartition.1) link.roundRobinIdx_lt rfl
      exact ⟨h.port2conn, h.conns, h.nextConn, h.mem_sendLists⟩
  · left
    rfl

end NtbLinkCustom

/-- The link, and for every partition how far its send thread is: the number of nodes up to
`pre_node`, 0 for the head. -/
structure ConnTable where
  link : NtbLinkCustom
  cursor : ℕ → ℕ

namespace ConnTable

variable (s : ConnTable)

def setState (c : ConnPtr) (state : ConnState) : ConnTable :=
  { s with link := { s.link with
      conns := update s.link.conns c { s.link.conns c with state := state } } }

/-- The connection `c`, next after `pre_node`, is closed and goes. Its memory is freed, so that what
else is written to it is never read. -/
def removeConn (p : ℕ) (c : ConnPtr) : ConnTable :=
  let link := { s.link with
    port2conn := update s.link.port2conn (s.link.conns c).connId none }
  { s with link := link.modifyPartition p fun partition =>
      { partition with sendList := partition.sendList.eraseIdx (s.cursor p) } }

def visit (p : ℕ) : ConnTable :=
  match (s.link.partitions p).sendList[s.cursor p]? with
  | none => { s with cursor := update s.cursor p 0 }
  | some c =>
    match (s.link.conns c).state with
    | .readyConn => { s with cursor := update s.cursor p (s.cursor p + 1) }
    | .activeClose | .passiveClose => s.removeConn p c

inductive Act where
  | create (shmAccept : String → Bool) (msg : NtmNtpMsg)
  | close (c : ConnPtr) (state : ConnState)
  | visit (p : ℕ)

/-- A pair of ports is used again once no connection of it is ready. -/
def step : Act → Option ConnTable
  | .create shmAccept msg =>
    if s.link.hasReady (NtbLinkCustom.connIdOf msg) ∨ s.link.numPartition ≤ msg.partitionId then
      none
    else some { s with link := (s.link.ntpCreateConnHandler shmAccept msg).2 }
  | .close c state =>
    if c ∈ s.link.sendLists ∧ state ≠ .readyConn then some (s.setState c state) else none
  | .visit p => if p < s.link.numPartition then some (s.visit p) else none

def Consistent : Prop :=
  ∀ c ∈ s.link.sendLists, (s.link.conns c).state = .readyConn →
    s.link.port2conn (s.link.conns c).connId = some c

/-- A visit that removes a connection finds no ready connection of the same id. -/
def RemovesOwnEntry : Act → Prop
  | .visit p => ∀ c, (s.link.partitions p).sendList[s.cursor p]? = some c →
      (s.link.conns c).state ≠ .readyConn → s.link.hasReady (s.link.conns c).connId = false
  | _ => True

variable {s} {s' : ConnTable} {c : ConnPtr} {p : ℕ}

/-- The invariant of consistent runs: pointers on the lists are older than the next one. -/
structure Sound (s : ConnTable) : Prop where
  consistent : s.Consistent
  old : ∀ c ∈ s.link.sendLists, c < s.link.nextConn

theorem Sound.create (h : s.Sound) {msg : NtmNtpMsg} {link : NtbLinkCustom}
    (hunused : ¬ s.link.hasReady (NtbLinkCustom.connIdOf msg) = true)
    (hcreated : NtbLinkCustom.Created s.link link msg) : Sound { s with link := link } := by
  obtain ⟨entry, hid, hconns⟩ := hcreated.conns
  constructor
  · intro c hc hready
    dsimp only at hc hready ⊢
    rw [hconns] at hready ⊢
    rw [hcreated.port2conn]
    rcases (hcreated.mem_sendLists c).mp hc with hc | rfl
    · have hne : c ≠ s.link.nextConn := (h.old c hc).ne
      rw [update_of_ne hne] at hready ⊢
      have hother : (s.link.conns c).connId ≠ NtbLinkCustom.connIdOf msg := fun heq =>
        hunused (s.link.hasReady_iff.mpr ⟨c, hc, hready, heq⟩)
      rw [update_of_ne hother]
      exact h.consistent c hc hready
    · rw [update_self, hid, update_self]
  · intro c hc
    dsimp only at hc ⊢
    rw [hcreated.nextConn]
    rcases (hcreated.mem_sendLists c).mp hc with hc | rfl
    · exact (h.old c hc).trans (Nat.lt_succ_self _)
    · exact Nat.lt_succ_self _

theorem Sound.setState (h : s.Sound) (c : ConnPtr) {state : ConnState}
    (hstate : state ≠ .readyConn) : (s.setState c state).Sound := by
  refine ⟨?_, h.old⟩
  intro d hd hready
  by_cases hdc : d = c
  · subst hdc
    exact absurd (by simpa [ConnTable.setState] using hready) hstate
  · simp only [ConnTable.setState, update_of_ne hdc] at hready ⊢
    exact h.consistent d hd hready

theorem sendList_removeConn (p : ℕ) (c : ConnPtr) (q : ℕ) :
    ((s.removeConn p c).link.partitions q).sendList =
      if q = p then (s.link.partitions q).sendList.eraseIdx (s.cursor p)
      else (s.link.partitions q).sendList := by
  by_cases hq : q = p
  · subst hq
    simp [removeConn, NtbLinkCustom.modifyPartition]
  · simp [removeConn, NtbLinkCustom.modifyPartition, hq]

theorem mem_of_mem_removeConn {d : ConnPtr} (h : d ∈ (s.removeConn p c).link.sendLists) :
    d ∈ s.link.sendLists := by
  obtain ⟨q, hq, hd⟩ := (NtbLinkCustom.mem_sendLists _).mp h
  refine s.link.mem_sendLists.mpr ⟨q, hq, ?_⟩
  rw [sendList_removeConn] at hd
  split at hd
  · exact List.mem_of_mem_eraseIdx hd
  · exact hd

theorem mem_removeConn_of_ne {d : ConnPtr}
    (hc : (s.link.partitions p).sendList[s.cursor p]? = some c) (hne : d ≠ c)
    (h : d ∈ s.link.sendLists) : d ∈ (s.removeConn p c).link.sendLists := by
  obtain ⟨q, hq, hd⟩ := s.link.mem_sendLists.mp h
  refine (NtbLinkCustom.mem_sendLists _).mpr ⟨q, hq, ?_⟩
  rw [sendList_removeConn]
  split
  case isTrue hqp =>
    subst hqp
    obtain ⟨i, hi, rfl⟩ := List.getElem_of_mem hd
    refine List.mem_eraseIdx_iff_getElem.mpr ⟨i, hi, ?_, rfl⟩
    rintro rfl
    rw [List.getElem?_eq_getElem hi] at hc
    exact hne (Option.some.inj hc)
  · exact hd

theorem Sound.removeConn_consistent_iff (h : s.Sound)
    (hc : (s.link.partitions p).sendList[s.cursor p]? = some c)
    (hclosed : (s.link.conns c).state ≠ .readyConn) :
    (s.removeConn p c).Consistent ↔ s.link.hasReady (s.link.conns c).connId = false := by
  have hport : (s.removeConn p c).link.port2conn =
      update s.link.port2conn (s.link.conns c).connId none := rfl
  have hconns : (s.removeConn p c).link.conns = s.link.conns := rfl
  constructor
  · intro hconsistent
    rw [← Bool.not_eq_true, s.link.hasReady_iff]
    rintro ⟨d, hd, hready, hid⟩
    have hne : d ≠ c := fun heq => hclosed (heq ▸ hready)
    have hfound := hconsistent d (mem_removeConn_of_ne hc hne hd) hready
    rw [hport, hconns, hid, update_self] at hfound
    cases hfound
  · intro hunused d hd hready
    have hd' := mem_of_mem_removeConn hd
    have hother : (s.link.conns d).connId ≠ (s.link.conns c).connId := by
      intro heq
      rw [← Bool.not_eq_true, s.link.hasReady_iff] at hunused
      exact hunused ⟨d, hd', hready, heq⟩
    rw [hport, hconns, update_of_ne hother]
    exact h.consistent d hd' hready

theorem visit_cases (p : ℕ) :
    ((s.visit p).link = s.link ∧ s.RemovesOwnEntry (.visit p)) ∨
      ∃ c, (s.link.partitions p).sendList[s.cursor p]? = some c ∧
        (s.link.conns c).state ≠ .readyConn ∧ s.visit p = s.removeConn p c := by
  unfold visit RemovesOwnEntry
  split
  case h_1 hnone =>
    left
    refine ⟨rfl, fun c hc => ?_⟩
    rw [hnone] at hc
    cases hc
  case h_2 c hc =>
    split
    case h_1 hready =>
      left
      refine ⟨rfl, fun d hd hclosed => ?_⟩
      rw [hc] at hd
      cases hd
      exact absurd hready hclosed
    case h_2 hstate => exact .inr ⟨c, hc, by rw [hstate]; decide, rfl⟩
    case h_3 hstate => exact .inr ⟨c, hc, by rw [hstate]; decide, rfl⟩

theorem Sound.step (h : s.Sound) {a : Act} (hstep : s.step a = some s') :
    (∀ c ∈ s'.link.sendLists, c < s'.link.nextConn) ∧ (s'.Consistent ↔ s.RemovesOwnEntry a) := by
  cases a with
  | create shmAccept msg =>
    rw [ConnTable.step] at hstep
    split at hstep
    · cases hstep
    case isFalse hfree =>
      cases hstep
      rw [not_or, not_le] at hfree
      have hsound : Sound { s with link := (s.link.ntpCreateConnHandler shmAccept msg).2 } := by
        rcases s.link.ntpCreateConnHandler_cases hfree.2 with hsame | hcreated
        · rw [hsame]
          exact h
        · exact h.create hfree.1 hcreated
      exact ⟨hsound.old, iff_of_true hsound.consistent trivial⟩
  | close c state =>
    rw [ConnTable.step] at hstep
    split at hstep
    case isTrue hclose =>
      cases hstep
      have hsound := h.setState c hclose.2
      exact ⟨hsound.old, iff_of_true hsound.consistent trivial⟩
    · cases hstep
  | visit p =>
    rw [ConnTable.step] at hstep
    split at hstep
    · cases hstep
      rcases s.visit_cases p with ⟨hsame, hown⟩ | ⟨c, hc, hclosed, hremove⟩
      · rw [Consistent, hsame]
        exact ⟨h.old, iff_of_true h.consistent hown⟩
      · rw [hremove, h.removeConn_consistent_iff hc hclosed, RemovesOwnEntry]
        refine ⟨fun d hd => h.old d (mem_of_mem_removeConn hd), ?_⟩
        rw [hc]
        constructor
        · intro hunused d hd _
          cases hd
          exact hunused
        · intro hall
          exact hall c rfl hclosed
    · cases hstep

/-- The table stays consistent along a run exactly if every connection is removed while no ready
connection has its id. -/
theorem consistent_along_iff {link : NtbLinkCustom} (cursor : ℕ → ℕ)
    (hempty : ∀ p, (link.partitions p).sendList = []) (as : List Act) :
    Runs.Along step (fun s a => ∀ s', s.step a = some s' → s'.Consistent) ⟨link, cursor⟩ as ↔
      Runs.Along step (fun s a => (s.step a).isSome → s.RemovesOwnEntry a) ⟨link, cursor⟩ as := by
  have hnone : ∀ c, c ∉ link.sendLists := by
    intro c hc
    obtain ⟨p, -, hp⟩ := link.mem_sendLists.mp hc
    rw [hempty p] at hp
    cases hp
  have hstart : Sound ⟨link, cursor⟩ := ⟨fun c hc => absurd hc (hnone c), fun c hc =>
    absurd hc (hnone c)⟩
  apply Runs.along_congr (C := fun _ => True) _ _ hstart (fun _ _ => trivial)
  · intro s a hs _
    cases hstep : s.step a with
    | none => simp
    | some s' => simp [(hs.step hstep).2]
  · intro s a s' hs _ hown hstep
    have hown' := hown (by rw [hstep]; rfl)
    obtain ⟨hold, hiff⟩ := hs.step hstep
    exact ⟨hiff.mpr hown', hold⟩

def freshLink : NtbLinkCustom where
  port2conn := fun _ => none
  conns := fun _ => .create 0 0 0
  nextConn := 0
  numPartition := 1
  roundRobinIdx := 0
  partitions := fun _ => { numConns := 0, sendList := [] }
  numPartition_le := by decide
  roundRobinIdx_lt := by decide

def samplePair : NtmNtpMsg where
  srcIp := 1
  dstIp := 2
  srcPort := 80
  dstPort := 90
  msgType := 1
  partitionId := -1

def createSample : Act := .create (fun _ => true) samplePair

/-- A connection is closed by the peer and its ports are used again before the send thread comes
by: the new connection is lost to the table. -/
theorem reused_pair_lost :
    ∃ s, Runs.run step ⟨freshLink, fun _ => 0⟩
        [createSample, .close 0 .passiveClose, createSample, .visit 0] = some s ∧
      1 ∈ s.link.sendLists ∧ (s.link.conns 1).state = .readyConn ∧
      s.link.port2conn (s.link.conns 1).connId = none := by
  refine ⟨_, rfl, ?_, rfl, rfl⟩
  decide

theorem reused_after_removal_consistent :
    Runs.Along step (fun s a => ∀ s', s.step a = some s' → s'.Consistent) ⟨freshLink, fun _ => 0⟩
      [createSample, .close 0 .passiveClose, .visit 0, createSample] := by
  apply (consistent_along_iff _ (fun _ => rfl) _).mpr
  rw [Runs.along_cons_iff rfl, Runs.along_cons_iff rfl, Runs.along_cons_iff rfl,
    Runs.along_cons_iff rfl]
  refine ⟨fun _ => trivial, fun _ => trivial, fun _ c hc _ => ?_, fun _ => trivial, trivial⟩
  cases hc
  decide

end ConnTable

end NtSocks
