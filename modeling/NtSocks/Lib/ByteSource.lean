import Mathlib.Tactic

/-!
# A stream of bytes that is read in pieces

A read takes bytes off the front of a stream, at least one and at most as many as were asked for;
how many is up to the stream. There are two loops around it. `gather` puts the pieces together until
it has all bytes it wants, and gets them whatever the pieces are. `retry` starts again at each piece
until one has all bytes at once, and what came in smaller pieces before is lost.
-/

structure ByteSource where
  bytes : List UInt8
  /-- The sizes of the pieces to come, as far as they are possible. -/
  pieces : ℕ → ℕ

namespace ByteSource

/-- A read of no bytes returns at once; a read of a stream without bytes does not return. -/
def read (s : ByteSource) (k : ℕ) : Option (List UInt8 × ByteSource) :=
  if k = 0 then some ([], s)
  else if s.bytes = [] then none
  else
    let n := max 1 (min (s.pieces 0) k)
    some (s.bytes.take n, { bytes := s.bytes.drop n, pieces := fun i => s.pieces (i + 1) })

def gatherWithin : ℕ → ByteSource → ℕ → Option (List UInt8 × ByteSource)
  | 0, _, _ => none
  | fuel + 1, s, k => do
      let (bs, s') ← s.read k
      if bs.length = k then pure (bs, s')
      else
        let (bs', s'') ← gatherWithin fuel s' (k - bs.length)
        pure (bs ++ bs', s'')

def gather (s : ByteSource) (k : ℕ) : Option (List UInt8 × ByteSource) := gatherWithin (k + 1) s k

def retryWithin : ℕ → ByteSource → ℕ → Option (List UInt8 × ByteSource)
  | 0, _, _ => none
  | fuel + 1, s, k => do
      let (bs, s') ← s.read k
      if bs.length = k then pure (bs, s') else retryWithin fuel s' k

def retry (s : ByteSource) (k : ℕ) : Option (List UInt8 × ByteSource) :=
  retryWithin (s.bytes.length + 1) s k

def Whole (s : ByteSource) (k : ℕ) : Prop := ∀ bs s', s.read k = some (bs, s') → bs.length = k

variable {s s' : ByteSource} {k fuel : ℕ} {bs rest : List UInt8}

theorem read_spec (h : s.read k = some (bs, s')) :
    s.bytes = bs ++ s'.bytes ∧ bs.length ≤ k ∧ (k ≠ 0 → bs ≠ []) := by
  rw [read] at h
  split_ifs at h with hk hempty
  · cases h
    exact ⟨rfl, Nat.zero_le k, fun hne => absurd hk hne⟩
  · cases h
    refine ⟨(List.take_append_drop _ _).symm, ?_, fun _ htake => ?_⟩
    · rw [List.length_take]
      omega
    · have hlen := congrArg List.length htake
      have hpos : 0 < s.bytes.length := List.length_pos_of_ne_nil hempty
      rw [List.length_take, List.length_nil] at hlen
      omega

theorem read_isSome (h : k ≤ s.bytes.length) : ∃ bs s', s.read k = some (bs, s') := by
  rw [read]
  split_ifs with hk hempty
  · exact ⟨_, _, rfl⟩
  · rw [hempty, List.length_nil] at h
    omega
  · exact ⟨_, _, rfl⟩

theorem Whole.read (hwhole : s.Whole bs.length) (hs : s.bytes = bs ++ rest) :
    ∃ s', s.read bs.length = some (bs, s') ∧ s'.bytes = rest := by
  have hlen : bs.length ≤ s.bytes.length := by rw [hs, List.length_append]; omega
  obtain ⟨bs', s', hread⟩ := read_isSome hlen
  obtain ⟨hsplit, -, -⟩ := read_spec hread
  rw [hs] at hsplit
  obtain ⟨rfl, hrest⟩ := List.append_inj hsplit (hwhole _ _ hread).symm
  exact ⟨s', hread, hrest.symm⟩

theorem gatherWithin_eq (hfuel : bs.length < fuel) (hs : s.bytes = bs ++ rest) :
    ∃ s', gatherWithin fuel s bs.length = some (bs, s') ∧ s'.bytes = rest := by
  induction fuel generalizing s bs with
  | zero => omega
  | succ fuel ih =>
    have hlen : bs.length ≤ s.bytes.length := by rw [hs, List.length_append]; omega
    obtain ⟨cs, s', hread⟩ := read_isSome hlen
    obtain ⟨hsplit, hle, hne⟩ := read_spec hread
    rw [hs] at hsplit
    obtain ⟨ds, rfl, hrest⟩ : ∃ ds, bs = cs ++ ds ∧ s'.bytes = ds ++ rest := by
      refine ⟨bs.drop cs.length, ?_, ?_⟩
      · have htake := congrArg (List.take cs.length) hsplit
        rw [List.take_append_of_le_length hle, List.take_left] at htake
        calc bs = bs.take cs.length ++ bs.drop cs.length := (List.take_append_drop _ _).symm
          _ = cs ++ bs.drop cs.length := by rw [htake]
      · have hdrop := congrArg (List.drop cs.length) hsplit
        rw [List.drop_append_of_le_length hle, List.drop_left] at hdrop
        exact hdrop.symm
    rw [gatherWithin, hread]
    by_cases hall : cs.length = (cs ++ ds).length
    · have hnil : ds = [] := by
        rw [List.length_append] at hall
        exact List.length_eq_zero_iff.mp (by omega)
      subst hnil
      refine ⟨s', ?_, hrest⟩
      simp
    · have hpos : cs ≠ [] := by
        refine hne fun hzero => hall ?_
        omega
      have hpos' : 0 < cs.length := List.length_pos_of_ne_nil hpos
      have hsub : (cs ++ ds).length - cs.length = ds.length := by
        rw [List.length_append]
        omega
      have hfuel' : ds.length < fuel := by
        rw [List.length_append] at hfuel
        omega
      obtain ⟨s'', hgather, hrest'⟩ := ih hfuel' hrest
      refine ⟨s'', ?_, hrest'⟩
      simp only [Option.bind_eq_bind, Option.bind_some, if_neg hall, hsub, hgather]
      rfl

theorem gather_eq (hs : s.bytes = bs ++ rest) :
    ∃ s', s.gather bs.length = some (bs, s') ∧ s'.bytes = rest :=
  gatherWithin_eq (Nat.lt_succ_self _) hs

theorem gatherWithin_spec (h : gatherWithin fuel s k = some (bs, s')) :
    s.bytes = bs ++ s'.bytes ∧ bs.length = k := by
  induction fuel generalizing s k bs with
  | zero => cases h
  | succ fuel ih =>
    rw [gatherWithin, Option.bind_eq_bind, Option.bind_eq_some_iff] at h
    obtain ⟨⟨cs, s₁⟩, hread, h⟩ := h
    obtain ⟨hsplit, hle, -⟩ := read_spec hread
    dsimp only at h
    split_ifs at h with hall
    · cases h
      exact ⟨hsplit, hall⟩
    · rw [Option.bind_eq_some_iff] at h
      obtain ⟨⟨ds, s₂⟩, hgather, h⟩ := h
      cases h
      obtain ⟨hsplit', hlen⟩ := ih hgather
      refine ⟨by rw [hsplit, hsplit', List.append_assoc], ?_⟩
      rw [List.length_append, hlen]
      omega

theorem retryWithin_spec (h : retryWithin fuel s k = some (bs, s')) :
    bs.length = k ∧ bs.length + s'.bytes.length ≤ s.bytes.length ∧
      (¬ s.Whole k → bs.length + s'.bytes.length < s.bytes.length) := by
  induction fuel generalizing s with
  | zero => cases h
  | succ fuel ih =>
    rw [retryWithin, Option.bind_eq_bind, Option.bind_eq_some_iff] at h
    obtain ⟨⟨cs, s₁⟩, hread, h⟩ := h
    obtain ⟨hsplit, hle, hne⟩ := read_spec hread
    have hlen : s.bytes.length = cs.length + s₁.bytes.length := by
      rw [hsplit, List.length_append]
    dsimp only at h
    split_ifs at h with hall
    · cases h
      refine ⟨hall, hlen.ge, fun hnot => absurd ?_ hnot⟩
      intro ds s₂ hread₂
      rw [hread] at hread₂
      cases hread₂
      exact hall
    · obtain ⟨hk, hle', -⟩ := ih h
      have hpos : 0 < cs.length := by
        refine List.length_pos_of_ne_nil (hne fun hzero => hall ?_)
        omega
      exact ⟨hk, by omega, fun _ => by omega⟩

theorem retry_whole (hwhole : s.Whole bs.length) (hs : s.bytes = bs ++ rest) :
    ∃ s', s.retry bs.length = some (bs, s') ∧ s'.bytes = rest := by
  obtain ⟨s', hread, hrest⟩ := hwhole.read hs
  refine ⟨s', ?_, hrest⟩
  rw [retry, retryWithin, hread]
  simp

end ByteSource
