import NtSocks.Lib.ByteSource
import NtSocks.Lib.Runs
import NtSocks.Ntkv.ServerApi

/-!
# How the ntkv server reads requests

`handle_connection` reads a header of five bytes and then, by the command in it, the bytes that
follow. The loops around `read` differ. The one for the header continues at `&in + n`, which is `n`
headers behind the start of `in` and not `n` bytes: its second read writes outside of `in`. The
loops of `cmd_put` and `cmd_get` put the pieces together. Those of `cmd_batch_put`, `cmd_batch_get`
and `cmd_remove` read to the start of the buffer again until one read returns all bytes.
-/

namespace NtSocks.Ntkv

open LittleEndian

def messageSize : ℕ := 5

def encodeMessage (cmd : UInt8) (keyLen valueLen : ℕ) : List UInt8 :=
  cmd :: (LittleEndian.encode 2 keyLen ++ LittleEndian.encode 2 valueLen)

inductive Stop
  /-- It waits for bytes. -/
  | blocked
  /-- It has written outside of the header. -/
  | outside
  /-- It has closed the connection. -/
  | closed
  deriving DecidableEq

def readHeader (s : ByteSource) : Except Stop (List UInt8 × ByteSource) :=
  match s.read messageSize with
  | none => .error .blocked
  | some (head, s') =>
    if head.length = messageSize then .ok (head, s')
    else if s'.bytes = [] then .error .blocked
    else .error .outside

/-- What a header asks for: the number of bytes to read, whether the loop begins again at every
read, and the command that is made of the bytes. -/
structure Request where
  length : ℕ
  retried : Bool
  command : List UInt8 → Command

/-- The `switch` of `handle_connection`; there is no request for `CMD_DESTROY`. -/
def Request.ofHeader (head : List UInt8) : Option Request :=
  let keyLen := decode ((head.drop 1).take 2)
  let valueLen := decode (head.drop 3)
  let dataLen := decode (head.drop 1)
  match head.headD 0 with
  | 1 => some ⟨keyLen + valueLen, false, .put keyLen⟩
  | 2 => some ⟨keyLen, false, .get⟩
  | 3 => some ⟨dataLen, true, .batchPut⟩
  | 4 => some ⟨dataLen, true, .batchGet⟩
  | 5 => some ⟨keyLen, true, .remove⟩
  | 6 => some ⟨0, false, fun _ => .free⟩
  | 7 => none
  | 8 => some ⟨0, false, fun _ => .len⟩
  | _ => some ⟨0, false, fun _ => .unknown⟩

def Request.read (r : Request) (s : ByteSource) : Option (List UInt8 × ByteSource) :=
  if r.retried then s.retry r.length else s.gather r.length

def receive (s : ByteSource) : Except Stop (Command × ByteSource) := do
  let (head, s) ← readHeader s
  match Request.ofHeader head with
  | none => .error .closed
  | some r =>
    match r.read s with
    | none => .error .blocked
    | some (data, s) => .ok (r.command data, s)

def serveWithin : ℕ → ByteSource → List Command × Stop
  | 0, _ => ([], .blocked)
  | fuel + 1, s =>
    match receive s with
    | .error stop => ([], stop)
    | .ok (c, s') => (c :: (serveWithin fuel s').1, (serveWithin fuel s').2)

/-- The commands that `handle_connection` executes, and why there are no more of them; every
command takes a header, so that `serveWithin` does not run out of fuel. -/
def serve (s : ByteSource) : List Command × Stop := serveWithin (s.bytes.length + 1) s

namespace Command

def payload : Command → List UInt8
  | put _ data | get data | batchPut data | batchGet data | remove data => data
  | free | len | unknown => []

def header : Command → List UInt8
  | put keyLen data => encodeMessage 1 keyLen (data.length - keyLen)
  | get data => encodeMessage 2 data.length 0
  | batchPut data => batchHeader 3 data.length
  | batchGet data => batchHeader 4 data.length
  | remove data => encodeMessage 5 data.length 0
  | free => encodeMessage 6 0 0
  | len => encodeMessage 8 0 0
  | unknown => encodeMessage 0 0 0

def encode (c : Command) : List UInt8 := c.header ++ c.payload

def WellFormed : Command → Prop
  | put keyLen data => keyLen ≤ data.length ∧ keyLen < 2 ^ 16 ∧ data.length - keyLen < 2 ^ 16
  | get data | remove data => data.length < 2 ^ 16
  | batchPut data | batchGet data => data.length < 2 ^ 32
  | free | len => True
  | unknown => False

/-- The commands whose bytes have to come in one read. -/
def retried : Command → Bool
  | batchPut _ | batchGet _ | remove _ => true
  | put _ _ | get _ | free | len | unknown => false

theorem length_header (c : Command) : c.header.length = messageSize := by
  cases c <;> simp [header, encodeMessage, batchHeader, messageSize]

theorem length_encode (c : Command) : c.encode.length = messageSize + c.payload.length := by
  rw [encode, List.length_append, length_header]

end Command

theorem take_encodeMessage (cmd : UInt8) (keyLen valueLen : ℕ) :
    ((encodeMessage cmd keyLen valueLen).drop 1).take 2 = LittleEndian.encode 2 keyLen := by
  rw [encodeMessage, List.drop_succ_cons, List.drop_zero,
    List.take_append_of_le_length (by rw [length_encode]), List.take_of_length_le]
  rw [length_encode]

theorem drop_encodeMessage (cmd : UInt8) (keyLen valueLen : ℕ) :
    (encodeMessage cmd keyLen valueLen).drop 3 = LittleEndian.encode 2 valueLen := by
  rw [encodeMessage, List.drop_succ_cons]
  exact List.drop_left' (length_encode 2 keyLen)

theorem Request.ofHeader_header {c : Command} (hc : c.WellFormed) :
    ∃ r, ofHeader c.header = some r ∧ r.length = c.payload.length ∧ r.retried = c.retried ∧
      r.command c.payload = c := by
  cases c with
  | put keyLen data =>
    obtain ⟨hle, hkey, hvalue⟩ := hc
    have hkey' : decode (LittleEndian.encode 2 keyLen) = keyLen := decode_encode_of_lt hkey
    have hvalue' : decode (LittleEndian.encode 2 (data.length - keyLen)) = data.length - keyLen :=
      decode_encode_of_lt hvalue
    refine ⟨⟨_, _, _⟩, rfl, ?_, rfl, ?_⟩
    · rw [Command.header, take_encodeMessage, drop_encodeMessage, hkey', hvalue']
      exact Nat.add_sub_of_le hle
    · rw [Command.header, take_encodeMessage, hkey', Command.payload]
  | get data =>
    refine ⟨⟨_, _, _⟩, rfl, ?_, rfl, rfl⟩
    rw [Command.header, take_encodeMessage]
    exact decode_encode_of_lt hc
  | batchPut data | batchGet data => exact ⟨⟨_, _, _⟩, rfl, decode_encode_of_lt hc, rfl, rfl⟩
  | remove data =>
    refine ⟨⟨_, _, _⟩, rfl, ?_, rfl, rfl⟩
    rw [Command.header, take_encodeMessage]
    exact decode_encode_of_lt hc
  | free | len => exact ⟨⟨_, _, _⟩, rfl, rfl, rfl, rfl⟩
  | unknown => exact hc.elim

variable {head : List UInt8}

theorem Request.ofHeader_payload {r : Request} (hr : ofHeader head = some r) (data : List UInt8) :
    (r.command data).payload.length ≤ data.length ∧ (r.command data).retried = r.retried ∧
      (r.retried = true → (r.command data).payload = data) := by
  rw [ofHeader] at hr
  split at hr
  all_goals cases hr
  all_goals first
    | exact ⟨le_rfl, rfl, fun _ => rfl⟩
    | exact ⟨Nat.zero_le _, rfl, nofun⟩

def WholeFor (s : ByteSource) (c : Command) : Prop :=
  s.Whole messageSize ∧ (c.retried = true → ∀ head s', s.read messageSize = some (head, s') →
      s'.Whole c.payload.length)

variable {s s' : ByteSource} {c : Command} {rest : List UInt8} {stop : Stop} {cmds : List Command}
  {fuel : ℕ}

theorem readHeader_eq_ok (h : readHeader s = .ok (head, s')) :
    s.read messageSize = some (head, s') ∧ head.length = messageSize := by
  rw [readHeader] at h
  split at h
  · cases h
  · next hread =>
      split_ifs at h with hlen hempty
      cases h
      exact ⟨hread, hlen⟩

theorem receive_eq_ok (h : receive s = .ok (c, s')) :
    ∃ head s₁ r data, s.read messageSize = some (head, s₁) ∧ head.length = messageSize ∧
      Request.ofHeader head = some r ∧ r.read s₁ = some (data, s') ∧ c = r.command data := by
  obtain ⟨⟨head, s₁⟩, hhead, h⟩ := Faults.bind_eq_ok.mp h
  obtain ⟨hread, hlen⟩ := readHeader_eq_ok hhead
  dsimp only at h
  split at h
  · cases h
  · next r hr =>
      split at h
      · cases h
      · next data s₂ hdata =>
          cases h
          exact ⟨head, s₁, r, data, hread, hlen, hr, hdata, rfl⟩

theorem receive_encode (hc : c.WellFormed) (hs : s.bytes = c.encode ++ rest)
    (hwhole : WholeFor s c) : ∃ s', receive s = .ok (c, s') ∧ s'.bytes = rest := by
  rw [Command.encode, List.append_assoc] at hs
  obtain ⟨hhead, hpayload⟩ := hwhole
  rw [← c.length_header] at hhead
  obtain ⟨s₁, hread, hs₁⟩ := hhead.read hs
  rw [c.length_header] at hread
  obtain ⟨r, hr, hlen, hretried, hcommand⟩ := Request.ofHeader_header hc
  obtain ⟨s', hdata, hs'⟩ : ∃ s', r.read s₁ = some (c.payload, s') ∧ s'.bytes = rest := by
    rw [Request.read, hlen, hretried]
    split_ifs with hcase
    · exact ByteSource.retry_whole (hpayload hcase _ _ hread) hs₁
    · exact ByteSource.gather_eq hs₁
  refine ⟨s', ?_, hs'⟩
  rw [receive, readHeader, hread]
  dsimp only
  rw [if_pos c.length_header]
  change (match Request.ofHeader c.header with | none => _ | some r => _) = _
  rw [hr]
  dsimp only
  rw [hdata]
  dsimp only
  rw [hcommand]

theorem receive_length (h : receive s = .ok (c, s')) :
    c.encode.length + s'.bytes.length ≤ s.bytes.length ∧
      (¬ WholeFor s c → c.encode.length + s'.bytes.length < s.bytes.length) := by
  obtain ⟨head, s₁, r, data, hread, hlen, hr, hdata, rfl⟩ := receive_eq_ok h
  obtain ⟨hsplit, -, -⟩ := ByteSource.read_spec hread
  obtain ⟨hle, hretried, hpayload⟩ := Request.ofHeader_payload hr data
  have hbytes : s.bytes.length = messageSize + s₁.bytes.length := by
    rw [hsplit, List.length_append, hlen]
  have hhead : s.Whole messageSize := by
    intro head' s₁' hread'
    rw [hread] at hread'
    cases hread'
    exact hlen
  rw [Command.length_encode, hbytes]
  rw [Request.read] at hdata
  split_ifs at hdata with hcase
  · obtain ⟨hk, hle', hlt⟩ := ByteSource.retryWithin_spec hdata
    refine ⟨by omega, fun hnot => ?_⟩
    have hlost : ¬ s₁.Whole r.length := by
      intro hwhole
      refine hnot ⟨hhead, fun _ head' s₁' hread' => ?_⟩
      rw [hread] at hread'
      cases hread'
      rwa [hpayload hcase, hk]
    have := hlt hlost
    omega
  · obtain ⟨hdata', -⟩ := ByteSource.gatherWithin_spec hdata
    have hlen' : s₁.bytes.length = data.length + s'.bytes.length := by
      rw [hdata', List.length_append]
    refine ⟨by omega, fun hnot => absurd ⟨hhead, fun hc => ?_⟩ hnot⟩
    rw [hretried] at hc
    exact absurd hc hcase

def afterRequest (s : ByteSource) (_ : Command) : Option ByteSource :=
  match receive s with
  | .ok (_, s') => some s'
  | .error _ => none

theorem afterRequest_eq (h : receive s = .ok (c, s')) (d : Command) :
    afterRequest s d = some s' := by
  rw [afterRequest, h]

theorem receive_nil (hs : s.bytes = []) : receive s = .error .blocked := by
  have hread : s.read messageSize = none := by
    rw [ByteSource.read, if_neg (by decide), if_pos hs]
  rw [receive, readHeader, hread]
  rfl

theorem serveWithin_of_whole (hcmds : ∀ c ∈ cmds, c.WellFormed) (hfuel : cmds.length < fuel)
    (hs : s.bytes = cmds.flatMap Command.encode) (hwhole : Runs.Along afterRequest WholeFor s cmds)
    : serveWithin fuel s = (cmds, .blocked) := by
  induction cmds generalizing s fuel with
  | nil =>
    obtain ⟨fuel, rfl⟩ := Nat.exists_eq_add_one_of_ne_zero hfuel.ne'
    rw [serveWithin, receive_nil hs]
  | cons c cmds ih =>
    obtain ⟨fuel, rfl⟩ := Nat.exists_eq_add_one_of_ne_zero (Nat.ne_zero_of_lt hfuel)
    rw [List.flatMap_cons] at hs
    obtain ⟨s', hreceive, hs'⟩ := receive_encode (hcmds c List.mem_cons_self) hs hwhole.1
    have hrest := ih (fun d hd => hcmds d (List.mem_cons_of_mem _ hd))
      (Nat.lt_of_succ_lt_succ hfuel) hs' (hwhole.2 s' (afterRequest_eq hreceive c))
    rw [serveWithin, hreceive]
    dsimp only
    rw [hrest]

theorem length_le_of_serveWithin (h : serveWithin fuel s = (cmds, stop)) :
    (cmds.flatMap Command.encode).length ≤ s.bytes.length := by
  induction fuel generalizing s cmds with
  | zero =>
    cases h
    exact Nat.zero_le _
  | succ fuel ih =>
    rw [serveWithin] at h
    split at h
    · cases h
      exact Nat.zero_le _
    · next c s' hreceive =>
        cases h
        have hrest : ((serveWithin fuel s').1.flatMap Command.encode).length ≤ s'.bytes.length :=
          ih rfl
        have hfirst := (receive_length hreceive).1
        rw [List.flatMap_cons, List.length_append]
        omega

/-- Commands that have together as many bytes as the stream had were read whole: none of the bytes
is left for what is lost. -/
theorem along_of_serveWithin (h : serveWithin fuel s = (cmds, stop))
    (hlen : (cmds.flatMap Command.encode).length = s.bytes.length) :
    Runs.Along afterRequest WholeFor s cmds := by
  induction fuel generalizing s cmds with
  | zero =>
    cases h
    trivial
  | succ fuel ih =>
    rw [serveWithin] at h
    split at h
    · cases h
      trivial
    · next c s' hreceive =>
        cases h
        obtain ⟨hle, hlt⟩ := receive_length hreceive
        have hrest : ((serveWithin fuel s').1.flatMap Command.encode).length ≤ s'.bytes.length :=
          length_le_of_serveWithin rfl
        rw [List.flatMap_cons, List.length_append] at hlen
        rw [Runs.along_cons_iff (afterRequest_eq hreceive c)]
        refine ⟨?_, ih rfl (by omega)⟩
        by_contra hnot
        have := hlt hnot
        omega

theorem length_le_encode (cmds : List Command) :
    cmds.length ≤ (cmds.flatMap Command.encode).length := by
  induction cmds with
  | nil => exact le_rfl
  | cons c cmds ih =>
    rw [List.flatMap_cons, List.length_append, List.length_cons, c.length_encode, messageSize]
    omega

/-- The server executes the requests that are sent exactly when every read for a header, and every
read for the bytes of a batch or of a removal, returns all of them at once; how the bytes of puts
and gets come does not matter. -/
theorem receives_requests_iff (cmds : List Command) (hcmds : ∀ c ∈ cmds, c.WellFormed)
    (pieces : ℕ → ℕ) :
    serve ⟨cmds.flatMap Command.encode, pieces⟩ = (cmds, .blocked) ↔
      Runs.Along afterRequest WholeFor ⟨cmds.flatMap Command.encode, pieces⟩ cmds := by
  constructor
  · intro h
    exact along_of_serveWithin h rfl
  · intro h
    exact serveWithin_of_whole hcmds (Nat.lt_succ_of_le (length_le_encode cmds)) rfl h

/-- The four bytes of a put come one by one, those of a removal at once. -/
theorem receives_requests_put_remove :
    serve ⟨[Command.put 2 [97, 0, 98, 0], .remove [97, 0]].flatMap Command.encode,
        fun i => if 1 ≤ i ∧ i ≤ 4 then 1 else 5⟩ =
      ([.put 2 [97, 0, 98, 0], .remove [97, 0]], .blocked) ∧
    Runs.Along afterRequest WholeFor
      ⟨[Command.put 2 [97, 0, 98, 0], .remove [97, 0]].flatMap Command.encode,
        fun i => if 1 ≤ i ∧ i ≤ 4 then 1 else 5⟩ [.put 2 [97, 0, 98, 0], .remove [97, 0]] := by
  have hserve : serve ⟨[Command.put 2 [97, 0, 98, 0], .remove [97, 0]].flatMap Command.encode,
      fun i => if 1 ≤ i ∧ i ≤ 4 then 1 else 5⟩ =
        ([.put 2 [97, 0, 98, 0], .remove [97, 0]], .blocked) := by decide
  refine ⟨hserve, (receives_requests_iff _ ?_ _).mp hserve⟩
  simp [Command.WellFormed]

/-- A removal of the key `a` whose bytes come one by one loses the first of them: the server removes
another key, and takes the first byte of the next request for a byte of it. Where the bytes of a
header come one by one, the second of them is written outside. -/
theorem pieces_change_requests :
    (∀ c ∈ [Command.remove [97, 0], .len], c.WellFormed) ∧
      serve ⟨[Command.remove [97, 0], .len].flatMap Command.encode,
          fun i => if i = 1 then 1 else 5⟩ =
        ([.remove [0, 8]], .blocked) ∧
      serve ⟨[Command.len].flatMap Command.encode, fun _ => 1⟩ = ([], .outside) := by
  refine ⟨?_, by decide, by decide⟩
  simp [Command.WellFormed]

end NtSocks.Ntkv
