import NtSocks.CtrlRing
import NtSocks.Lib.Spans
import NtSocks.SlotGeometry

/-!
# The layout of the memory window

Each proxy formats the window that it receives in, and the peer's window that it writes to, in the
same way: the control link first and then one data link for each partition, each being a shadow
index of eight bytes and a ring. The pointers of all links are distances from the two windows'
first bytes, added up by the loop over the partitions.
-/

namespace NtSocks

structure NtbRingBuffer where
  curIndex : ℕ
  startAddr : ℕ
  endAddr : ℕ
  capacity : ℕ
  start_le : startAddr ≤ endAddr

def ntbRingCreate (ptr ringSize msgLen : ℕ) : NtbRingBuffer where
  curIndex := 0
  startAddr := ptr
  endAddr := ptr + ringSize
  capacity := ringSize / msgLen
  start_le := Nat.le_add_right ptr ringSize

namespace NtbRingBuffer

def region (r : NtbRingBuffer) : Span := ⟨r.startAddr, r.endAddr, r.start_le⟩

/-- Slots of `size` bytes, `1 << bits` apart. -/
def SlotsInside (r : NtbRingBuffer) (bits size : ℕ) : Prop :=
  ∀ i < r.capacity,
    Set.Ico (r.startAddr + (i <<< bits)) (r.startAddr + (i <<< bits) + size) ⊆ r.region.addresses

theorem slotsInside_create (ptr ringSize bits : ℕ) :
    (ntbRingCreate ptr ringSize (2 ^ bits)).SlotsInside bits (2 ^ bits) := by
  intro i hi
  have hend : i * 2 ^ bits + 2 ^ bits ≤ ringSize :=
    calc i * 2 ^ bits + 2 ^ bits = (i + 1) * 2 ^ bits := (Nat.succ_mul _ _).symm
      _ ≤ ringSize / 2 ^ bits * 2 ^ bits := Nat.mul_le_mul_right _ hi
      _ ≤ ringSize := Nat.div_mul_le_self _ _
  rw [Nat.shiftLeft_eq]
  apply Set.Ico_subset_Ico
  · exact Nat.le_add_right _ _
  · change ptr + i * 2 ^ bits + 2 ^ bits ≤ ptr + ringSize
    omega

end NtbRingBuffer

/-- `struct ntb_ctrl_link`, and `struct ntb_data_link` without its report. -/
structure NtbLink where
  localCumPtr : ℕ
  remoteCumPtr : ℕ
  localRing : NtbRingBuffer
  remoteRing : NtbRingBuffer

namespace NtbLink

def format (ringSize msgLen localPtr remotePtr : ℕ) : NtbLink where
  localCumPtr := localPtr
  remoteCumPtr := remotePtr
  localRing := ntbRingCreate (localPtr + 8) ringSize msgLen
  remoteRing := ntbRingCreate (remotePtr + 8) ringSize msgLen

def cumSpan (ptr : ℕ) : Span := ⟨ptr, ptr + 8, Nat.le_add_right ptr 8⟩

def localRegions (l : NtbLink) : List Span := [cumSpan l.localCumPtr, l.localRing.region]

def remoteRegions (l : NtbLink) : List Span := [cumSpan l.remoteCumPtr, l.remoteRing.region]

def rings (l : NtbLink) : List NtbRingBuffer := [l.localRing, l.remoteRing]

end NtbLink

structure NtbLinkMemory where
  ctrlLink : NtbLink
  partitions : List NtbLink

namespace NtbLinkMemory

variable (l : NtbLinkMemory)

def links : List NtbLink := l.ctrlLink :: l.partitions

def localRegions : List Span := l.links.flatMap NtbLink.localRegions

def remoteRegions : List Span := l.links.flatMap NtbLink.remoteRegions

end NtbLinkMemory

def clearCumPtr (m : Memory) (ptr : ℕ) : Memory := m.store ptr (List.replicate 8 0)

def formatPartitions (ringSize msgLen : ℕ) : ℕ → ℕ → ℕ → Memory → List NtbLink × Memory
  | 0, _, _, m => ([], m)
  | n + 1, dataLocalPtr, dataRemotePtr, m =>
    let rest := formatPartitions ringSize msgLen n (dataLocalPtr + ringSize + 8)
      (dataRemotePtr + ringSize + 8) (clearCumPtr m dataLocalPtr)
    (NtbLink.format ringSize msgLen dataLocalPtr dataRemotePtr :: rest.1, rest.2)

def ntbMemFormatting (cfg : NtpConfig) (ctrlRingbufferSize numPartition localPtr remotePtr : ℕ)
    (m : Memory) : NtbLinkMemory × Memory :=
  let partitions := formatPartitions cfg.dataRingbufferSize cfg.stride numPartition
    (localPtr + ctrlRingbufferSize + 8) (remotePtr + ctrlRingbufferSize + 8)
    (clearCumPtr m localPtr)
  ({ ctrlLink := NtbLink.format ctrlRingbufferSize ctrlNtpacketSize localPtr remotePtr
     partitions := partitions.1 }, partitions.2)

section Loop

variable (ringSize msgLen n localPtr remotePtr : ℕ) (m : Memory)

theorem length_formatPartitions :
    (formatPartitions ringSize msgLen n localPtr remotePtr m).1.length = n := by
  induction n generalizing localPtr remotePtr m with
  | zero => rfl
  | succ n ih => exact congrArg (· + 1) (ih _ _ _)

theorem exists_format_of_mem {l : NtbLink}
    (h : l ∈ (formatPartitions ringSize msgLen n localPtr remotePtr m).1) :
    ∃ a b, l = NtbLink.format ringSize msgLen a b := by
  induction n generalizing localPtr remotePtr m with
  | zero => cases h
  | succ n ih =>
    rcases List.mem_cons.mp h with rfl | hrest
    · exact ⟨_, _, rfl⟩
    · exact ih _ _ _ hrest

theorem stacked_format {a next : ℕ} {rest : List Span} (hnext : next = a + ringSize + 8)
    (h : Span.Stacked next rest) :
    Span.Stacked a
      (NtbLink.cumSpan a :: (ntbRingCreate (a + 8) ringSize msgLen).region :: rest) := by
  subst hnext
  refine ⟨Nat.le_refl a, Nat.le_refl (a + 8), ?_⟩
  have hstop : (ntbRingCreate (a + 8) ringSize msgLen).region.stop = a + ringSize + 8 := by
    change a + 8 + ringSize = _
    omega
  rwa [hstop]

theorem stacked_local :
    Span.Stacked localPtr
      ((formatPartitions ringSize msgLen n localPtr remotePtr m).1.flatMap
        NtbLink.localRegions) := by
  induction n generalizing localPtr remotePtr m with
  | zero => trivial
  | succ n ih => exact stacked_format ringSize msgLen rfl (ih _ _ _)

theorem stacked_remote :
    Span.Stacked remotePtr
      ((formatPartitions ringSize msgLen n localPtr remotePtr m).1.flatMap
        NtbLink.remoteRegions) := by
  induction n generalizing localPtr remotePtr m with
  | zero => trivial
  | succ n ih => exact stacked_format ringSize msgLen rfl (ih _ _ _)

end Loop

/-- The remote half of `q`, in a window at `remotePtr`, is the local half of `q'`, in a window at
`peerLocalPtr`. -/
structure SameOffset (remotePtr peerLocalPtr : ℕ) (q q' : NtbLink) : Prop where
  regions : ∃ offsets : List Span, q.remoteRegions = offsets.map (Span.shift remotePtr) ∧
    q'.localRegions = offsets.map (Span.shift peerLocalPtr)
  capacity : q.remoteRing.capacity = q'.localRing.capacity

theorem sameOffset_format (ringSize msgLen remotePtr peerLocalPtr off a b : ℕ) :
    SameOffset remotePtr peerLocalPtr
      (NtbLink.format ringSize msgLen a (remotePtr + off))
      (NtbLink.format ringSize msgLen (peerLocalPtr + off) b) where
  regions := by
    refine ⟨[NtbLink.cumSpan off, (ntbRingCreate (off + 8) ringSize msgLen).region], ?_, ?_⟩
    all_goals
      simp only [NtbLink.remoteRegions, NtbLink.localRegions, NtbLink.format, NtbLink.cumSpan,
        NtbRingBuffer.region, ntbRingCreate, Span.shift, List.map_cons, List.map_nil,
        List.cons.injEq, Span.mk.injEq, and_true, true_and]
      omega
  capacity := rfl

theorem formatPartitions_sameOffset (ringSize msgLen n remotePtr peerLocalPtr off a b : ℕ)
    (m m' : Memory) :
    List.Forall₂ (SameOffset remotePtr peerLocalPtr)
      (formatPartitions ringSize msgLen n a (remotePtr + off) m).1
      (formatPartitions ringSize msgLen n (peerLocalPtr + off) b m').1 := by
  induction n generalizing off a b m m' with
  | zero => exact List.Forall₂.nil
  | succ n ih =>
    refine List.Forall₂.cons (sameOffset_format ringSize msgLen _ _ off a b) ?_
    have h := ih (off + ringSize + 8) (a + ringSize + 8) (b + ringSize + 8)
      (clearCumPtr m a) (clearCumPtr m' (peerLocalPtr + off))
    simpa only [Nat.add_assoc] using h

/-- On two hosts with one configuration whose packet size is a power of two: the regions of a
window are disjoint, every slot lies in its ring, and each remote link is where the peer keeps its
local one. -/
theorem ntb_mem_formatting_layout (cfg : NtpConfig) (hcfg : cfg.Accepted) (k : ℕ)
    (hk : cfg.dataPacketSize = 2 ^ k)
    (ctrlRingbufferSize numPartition localPtr remotePtr peerLocalPtr peerRemotePtr : ℕ)
    (m m' : Memory) (host peer : NtbLinkMemory)
    (hhost : host = (ntbMemFormatting cfg ctrlRingbufferSize numPartition localPtr remotePtr m).1)
    (hpeer : peer =
      (ntbMemFormatting cfg ctrlRingbufferSize numPartition peerLocalPtr peerRemotePtr m').1) :
    host.partitions.length = numPartition ∧
      host.localRegions.Pairwise (fun s t => Disjoint s.addresses t.addresses) ∧
      host.remoteRegions.Pairwise (fun s t => Disjoint s.addresses t.addresses) ∧
      (∀ r ∈ host.ctrlLink.rings, r.SlotsInside 4 ctrlNtpacketSize) ∧
      (∀ p ∈ host.partitions, ∀ r ∈ p.rings,
        r.SlotsInside cfg.ntbPacketbitsSize cfg.dataPacketSize) ∧
      List.Forall₂ (SameOffset remotePtr peerLocalPtr) host.links peer.links := by
  subst hhost hpeer
  refine ⟨length_formatPartitions _ _ _ _ _ _, ?_, ?_, ?_, ?_, ?_⟩
  · have h : Span.Stacked localPtr (ntbMemFormatting cfg ctrlRingbufferSize numPartition localPtr
        remotePtr m).1.localRegions :=
      stacked_format _ _ rfl (stacked_local _ _ _ _ _ _)
    exact h.pairwise_disjoint
  · have h : Span.Stacked remotePtr (ntbMemFormatting cfg ctrlRingbufferSize numPartition localPtr
        remotePtr m).1.remoteRegions :=
      stacked_format _ _ rfl (stacked_remote _ _ _ _ _ _)
    exact h.pairwise_disjoint
  · intro r hr
    simp only [NtbLink.rings, List.mem_cons, List.not_mem_nil, or_false] at hr
    rcases hr with rfl | rfl <;> exact NtbRingBuffer.slotsInside_create _ _ 4
  · intro p hp r hr
    obtain ⟨a, b, rfl⟩ := exists_format_of_mem _ _ _ _ _ _ hp
    rw [hcfg.shaped.packet_eq_stride hk]
    simp only [NtbLink.rings, NtbLink.format, List.mem_cons, List.not_mem_nil, or_false,
      cfg.stride_eq] at hr ⊢
    rcases hr with rfl | rfl <;> exact NtbRingBuffer.slotsInside_create _ _ _
  · refine List.Forall₂.cons (sameOffset_format _ _ _ _ 0 _ _) ?_
    simpa only [ntbMemFormatting, Nat.add_assoc] using
      formatPartitions_sameOffset cfg.dataRingbufferSize cfg.stride numPartition remotePtr
        peerLocalPtr (ctrlRingbufferSize + 8) (localPtr + ctrlRingbufferSize + 8)
        (peerRemotePtr + ctrlRingbufferSize + 8) (clearCumPtr m localPtr)
        (clearCumPtr m' peerLocalPtr)

theorem ntb_mem_formatting_layout_two :
    ∃ cfg host peer : _, NtpConfig.Accepted cfg ∧ cfg.dataPacketSize = 1024 ∧
      host = (ntbMemFormatting cfg 4096 2 0 0 fun _ => 0).1 ∧
      peer = (ntbMemFormatting cfg 4096 2 0 0 fun _ => 0).1 ∧
      host.partitions.length = 2 ∧
      host.localRegions.Pairwise (fun s t => Disjoint s.addresses t.addresses) ∧
      List.Forall₂ (SameOffset 0 0) host.links peer.links := by
  obtain ⟨cfg, hrun, hP⟩ : ∃ cfg, Runs.run NtpConfig.apply .defaults
      [.mtuSize 1024, .dataRingbufferSize 0x10000] = some cfg ∧ cfg.dataPacketSize = 1024 :=
    ⟨_, rfl, by decide⟩
  have h := ntb_mem_formatting_layout cfg ⟨_, hrun⟩ 10 hP 4096 2 0 0 0 0 (fun _ => 0) (fun _ => 0)
    _ _ rfl rfl
  exact ⟨cfg, _, _, ⟨_, hrun⟩, hP, rfl, rfl, h.1, h.2.1, h.2.2.2.2.2⟩

end NtSocks
