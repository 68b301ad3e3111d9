import NtSocks.Ntkv.BatchClient
import NtSocks.Ntkv.Contents

/-!
# A value that is put and got again

`map_put` sends the lengths of its key and its value in fields of 16 bits, and all their bytes.
`map_get` receives the value up to its first zero byte, since the server has kept its address only.
The value comes back as it was where both lengths fit and it is one string.
-/

namespace NtSocks.Ntkv

open BlockHeap Faults LittleEndian

structure ClientResult where
  server : Server
  reply : List UInt8
  value : Option (List UInt8)
  unread : List UInt8

def errNo (reply : List UInt8) : UInt8 := reply.headD 0

def replyValueLen (reply : List UInt8) : ℕ := decode (reply.drop 3)

/-- `map_put`: the lengths are cut to `uint16_t`, the bytes are sent as they are. -/
def mapPut (s : Server) (unread key value : List UInt8) : Except Halt ClientResult := do
  let (s, out) ← s.answer (encodeMessage 1 key.length value.length ++ (key ++ value))
  let (reply, unread) ← readWhole (unread ++ out) replySize
  pure ⟨s, reply, none, unread⟩

def mapGet (s : Server) (unread key : List UInt8) : Except Halt ClientResult := do
  let (s, out) ← s.answer (encodeMessage 2 key.length 0 ++ key)
  let (reply, unread) ← readWhole (unread ++ out) replySize
  if errNo reply = MapStatus.ok.code then do
    let (value, unread) ← readWhole unread (replyValueLen reply)
    pure ⟨s, reply, some value, unread⟩
  else pure ⟨s, reply, none, unread⟩

def putGet (s : Server) (key value : List UInt8) : Except Halt ClientResult := do
  let r ← mapPut s [] key value
  mapGet r.server r.unread key

section Reply

theorem length_encodeReply (err : UInt8) (keyLen valueLen : ℕ) :
    (encodeReply err keyLen valueLen).length = replySize := by
  simp [encodeReply, replySize]

theorem errNo_encodeReply (err : UInt8) (keyLen valueLen : ℕ) :
    errNo (encodeReply err keyLen valueLen) = err := rfl

theorem decode_encode_two (n : ℕ) : decode (LittleEndian.encode 2 n) = n % 2 ^ 16 :=
  decode_encode 2 n

theorem replyValueLen_encodeReply (err : UInt8) (keyLen valueLen : ℕ) :
    replyValueLen (encodeReply err keyLen valueLen) = valueLen % 2 ^ 16 := by
  rw [replyValueLen, encodeReply, List.drop_succ_cons, List.drop_left' (length_encode 2 keyLen),
    decode_encode_two]

end Reply

namespace Server

variable {s : Server} {key value : List UInt8}

/-- Lengths that do not fit leave bytes behind that the server takes for the next request. -/
theorem answer_put_of_long (hlong : ¬ (key.length < 2 ^ 16 ∧ value.length < 2 ^ 16)) :
    s.answer (encodeMessage 1 key.length value.length ++ (key ++ value)) = .error .outOfStep := by
  rw [answer]
  split
  · next c source hreceive =>
      refine if_neg fun hempty => ?_
      obtain ⟨head, s₁, r, data, hread, hlen, hr, hdata, -⟩ := receive_eq_ok hreceive
      obtain ⟨hsplit, -, -⟩ := ByteSource.read_spec hread
      have hsize : (encodeMessage 1 key.length value.length).length = head.length := by
        rw [hlen]
        simp [encodeMessage, messageSize]
      obtain ⟨rfl, hrest⟩ := List.append_inj hsplit hsize
      -- the fields hold the lengths without their higher bits
      have hcut : Request.ofHeader (encodeMessage 1 key.length value.length) =
          some ⟨key.length % 2 ^ 16 + value.length % 2 ^ 16, false,
            .put (key.length % 2 ^ 16)⟩ := by
        have hheader : Request.ofHeader (encodeMessage 1 key.length value.length) =
            some ⟨decode (((encodeMessage 1 key.length value.length).drop 1).take 2) +
              decode ((encodeMessage 1 key.length value.length).drop 3), false,
              .put (decode (((encodeMessage 1 key.length value.length).drop 1).take 2))⟩ := rfl
        rw [hheader, take_encodeMessage, drop_encodeMessage, decode_encode_two, decode_encode_two]
      cases hcut.symm.trans hr
      obtain ⟨hgather, hcount⟩ := ByteSource.gatherWithin_spec hdata
      rw [hempty, List.append_nil] at hgather
      dsimp only at hcount
      have htotal := congrArg List.length hrest
      rw [hgather, hcount, List.length_append] at htotal
      omega
  · rfl

theorem cmdGet_found {str : List UInt8} (rest : List UInt8) {p : Ptr} (hown : Owns s.map s.heap)
    (hserved : s.heap.Served) (hnot : 0 ∉ str) (hlookup : lookup s.map s.heap str = some p) :
    ∃ s' : Server, s.cmdGet (str ++ 0 :: rest) =
      (valueLength s.heap p).bind fun n => (readBytes s.heap p n).map fun bytes =>
        (s', encodeReply MapStatus.ok.code 0 n ++ bytes) := by
  obtain ⟨data, hdata⟩ : ∃ data, str ++ 0 :: rest = data := ⟨_, rfl⟩
  have hne : data.length ≠ 0 := by
    rw [← hdata]
    simp
  have hkey : (s.heap.extend (some data)).cstring ⟨s.heap.next, 0⟩ = some str := by
    have htail := s.heap.tail_extend data
    rw [← hdata] at htail ⊢
    exact Heap.cstring_of_tail hnot htail
  have hfound : s.map.defaultGet (serverKeys (s.heap.extend (some data))) ⟨s.heap.next, 0⟩ =
      .ok (some p) := by
    rw [(hown.extend (some data)).defaultGet_eq hkey,
      hown.owned.lookup_extends (Heap.extends_extend _), hlookup]
  obtain ⟨hfree, hown₁⟩ := hown.release_next data
  obtain ⟨h₁, hh₁⟩ : ∃ h, (s.heap.extend (some data)).release s.heap.next = h := ⟨_, rfl⟩
  rw [hh₁] at hfree hown₁
  obtain ⟨hfree', -⟩ := hown₁.free_extend
  have hlive := hown.owned.hasData_of_lookup hlookup
  -- the value is not in the block of the key that was sent
  have htail : h₁.tail p = s.heap.tail p := by
    rw [← hh₁, Heap.tail_release hlive.lt_next.ne, (Heap.extends_extend _).tail hlive.2]
  have hlive₁ : h₁.HasData p.block := by
    rw [← hh₁]
    exact ((Heap.extends_extend _).hasData hlive).release hlive.lt_next.ne
  have htail' : (h₁.extend none).tail p = s.heap.tail p :=
    ((Heap.extends_extend none).tail hlive₁.2).trans htail
  have hserved₁ : h₁.Served := by
    rw [← hh₁]
    exact hserved
  have hlength : valueLength h₁ p = valueLength s.heap p := by
    rw [valueLength, valueLength, Heap.cstring, Heap.cstring, htail]
  refine ⟨{ s with heap := (h₁.extend none).release h₁.next }, ?_⟩
  rw [hdata, cmdGet, Heap.request_eq, if_pos ⟨hne, hserved _⟩]
  change (s.map.defaultGet (serverKeys (s.heap.extend (some data))) ⟨s.heap.next, 0⟩).bind _ = _
  rw [hfound]
  change ((s.heap.extend (some data)).free ⟨s.heap.next, 0⟩).bind _ = _
  rw [hfree]
  change (valueLength h₁ p).bind _ = (valueLength s.heap p).bind _
  rw [hlength]
  refine congrArg _ (funext fun n => ?_)
  have hread : readBytes (h₁.extend none) p n = readBytes s.heap p n := by
    rw [readBytes, readBytes, Heap.read, Heap.read, htail']
  rw [Heap.request_eq, if_pos ⟨by simp [replySize], hserved₁ _⟩]
  change (readBytes (h₁.extend none) p n).bind _ = _
  rw [hread]
  cases readBytes s.heap p n with
  | error e => rfl
  | ok bytes =>
    change ((h₁.extend none).free ⟨h₁.next, 0⟩).bind _ = _
    rw [hfree']
    rfl

end Server

section RoundTrip

variable {s : Server} {str value : List UInt8} {p : Ptr} {key : List UInt8}

theorem mapPut_eq (hkey : key.length < 2 ^ 16) (hvalue : value.length < 2 ^ 16)
    (unread : List UInt8) :
    mapPut s unread key value = (liftFault (s.cmdPut key.length (key ++ value))).bind fun r =>
      (readWhole (unread ++ r.2) replySize).map fun q => ⟨r.1, q.1, none, q.2⟩ := by
  have hsub : (key ++ value).length - key.length = value.length := by
    rw [List.length_append, Nat.add_sub_cancel_left]
  have hwf : (Command.put key.length (key ++ value)).WellFormed :=
    ⟨by rw [List.length_append]; omega, hkey, hsub.symm ▸ hvalue⟩
  have hencode : (Command.put key.length (key ++ value)).encode =
      encodeMessage 1 key.length value.length ++ (key ++ value) := by
    rw [Command.encode, Command.header, hsub, Command.payload]
  rw [mapPut, ← hencode, Server.answer_encode hwf]
  change (liftFault (s.cmdPut key.length (key ++ value))).bind _ = _
  cases liftFault (s.cmdPut key.length (key ++ value)) with
  | error e => rfl
  | ok r =>
    change (readWhole (unread ++ r.2) replySize).bind _ = Except.map _ _
    cases readWhole (unread ++ r.2) replySize <;> rfl

theorem mapGet_eq (hkey : key.length < 2 ^ 16) :
    mapGet s [] key = (liftFault (s.cmdGet key)).bind fun r =>
      (readWhole r.2 replySize).bind fun q =>
        if errNo q.1 = MapStatus.ok.code then
          (readWhole q.2 (replyValueLen q.1)).map fun v => ⟨r.1, q.1, some v.1, v.2⟩
        else .ok ⟨r.1, q.1, none, q.2⟩ := by
  have hwf : (Command.get key).WellFormed := hkey
  have hencode : (Command.get key).encode = encodeMessage 2 key.length 0 ++ key := rfl
  rw [mapGet, ← hencode, Server.answer_encode hwf]
  change (liftFault (s.cmdGet key)).bind _ = _
  refine congrArg _ (funext fun r => ?_)
  change (readWhole r.2 replySize).bind _ = _
  refine congrArg _ (funext fun q => ?_)
  refine if_congr Iff.rfl ?_ rfl
  change (readWhole q.2 (replyValueLen q.1)).bind _ = _
  cases readWhole q.2 (replyValueLen q.1) <;> rfl

theorem mapGet_terminated {v rest : List UInt8} (hown : Owns s.map s.heap) (hserved : s.heap.Served)
    (hnot : 0 ∉ str) (hkey : (str ++ [0]).length < 2 ^ 16)
    (hlookup : lookup s.map s.heap str = some p) (htail : s.heap.tail p = some (v ++ 0 :: rest))
    (hv : 0 ∉ v) (hlen : v.length + 1 < 2 ^ 16) :
    ∃ s', mapGet s [] (str ++ [0]) =
      .ok ⟨s', encodeReply MapStatus.ok.code 0 (v.length + 1), some (v ++ [0]), []⟩ := by
  obtain ⟨s', hget⟩ := Server.cmdGet_found [] hown hserved hnot hlookup
  have hlength : Server.valueLength s.heap p = .ok (v.length + 1) := by
    rw [Server.valueLength, Heap.cstring_of_tail hv htail]
    dsimp only
    rw [Nat.mod_eq_of_lt hlen]
  have hsize : (v ++ [0]).length = v.length + 1 := by simp
  have hbytes : Server.readBytes s.heap p (v.length + 1) = .ok (v ++ [0]) := by
    have hread : s.heap.read p (v ++ [0]).length = some (v ++ [0]) :=
      Heap.read_eq_some_iff.mpr ⟨rest, by rw [htail, List.append_assoc]; rfl⟩
    rw [hsize] at hread
    rw [Server.readBytes, hread]
  have hdone : s.cmdGet (str ++ [0]) =
      .ok (s', encodeReply MapStatus.ok.code 0 (v.length + 1) ++ (v ++ [0])) := by
    rw [hget, hlength]
    change (Server.readBytes s.heap p (v.length + 1)).map _ = _
    rw [hbytes]
    rfl
  refine ⟨s', ?_⟩
  rw [mapGet_eq hkey, liftFault_eq_ok.mpr hdone]
  simp only [Except.bind]
  rw [readWhole_append (length_encodeReply _ _ _)]
  dsimp only
  rw [if_pos (errNo_encodeReply _ _ _), replyValueLen_encodeReply, Nat.mod_eq_of_lt hlen,
    readWhole_self hsize]
  rfl

/-- Without a zero byte the server reads on behind the value. -/
theorem mapGet_unterminated (hown : Owns s.map s.heap) (hserved : s.heap.Served) (hnot : 0 ∉ str)
    (hkey : (str ++ [0]).length < 2 ^ 16) (hlookup : lookup s.map s.heap str = some p)
    (htail : s.heap.tail p = some value) (hv : 0 ∉ value) :
    mapGet s [] (str ++ [0]) = .error (.fault .badRead) := by
  obtain ⟨s', hget⟩ := Server.cmdGet_found [] hown hserved hnot hlookup
  have hlength : Server.valueLength s.heap p = .error .badRead := by
    rw [Server.valueLength, Heap.cstring, htail, Option.bind_some, if_neg hv]
  rw [mapGet_eq hkey, hget, hlength]
  rfl

/-- `map_put` and then `map_get` return the value, and nothing is left in the stream. -/
def ReturnsValue (s : Server) (key value : List UInt8) : Prop :=
  ∃ r, putGet s key value = .ok r ∧ errNo r.reply = MapStatus.ok.code ∧ r.value = some value ∧
    r.unread = []

theorem putGet_eq_ok_iff (hkey : (str ++ [0]).length < 2 ^ 16) (hvalue : value.length < 2 ^ 16)
    (hown : Owns s.map s.heap) (hserved : s.heap.Served) (hsound : s.map.Sound) (hnot : 0 ∉ str)
    {r : ClientResult} : putGet s (str ++ [0]) value = .ok r ↔
      ∃ q, s.cmdPut (str ++ [0]).length (str ++ [0] ++ value) = .ok q ∧
        s.PutDone (str ++ [0]) value str q ∧ mapGet q.1 [] (str ++ [0]) = .ok r := by
  have hmeets : Meets (fun _ => False) (s.PutDone (str ++ [0]) value str)
      (s.cmdPut (str ++ [0]).length (str ++ [0] ++ value)) :=
    Server.cmdPut_done hown hserved hsound hnot nofun
  rw [putGet, mapPut_eq hkey hvalue]
  cases hput : s.cmdPut (str ++ [0]).length (str ++ [0] ++ value) with
  | error e =>
    constructor
    · exact nofun
    · rintro ⟨q, ⟨⟩, -⟩
  | ok q =>
    have hdone := hmeets.of_ok hput
    obtain ⟨status, hreply⟩ := hdone.reply
    change ((readWhole ([] ++ q.2) replySize).map _).bind _ = _ ↔ _
    rw [hreply, List.nil_append, readWhole_self (length_encodeReply status.code 0 0)]
    change mapGet q.1 [] (str ++ [0]) = _ ↔ _
    constructor
    · exact fun h => ⟨q, rfl, hdone, h⟩
    · rintro ⟨q', hq', -, h⟩
      cases hq'
      exact h

theorem Server.PutDone.tail_value {q : Server × List UInt8} (hdone : s.PutDone key value str q) :
    q.1.heap.tail ⟨s.heap.next, key.length⟩ = some value := by
  have hadd := q.1.heap.tail_add s.heap.next 0 key.length
  rw [Nat.zero_add, hdone.tail, Option.map_some, List.drop_left] at hadd
  exact hadd

/-- In every state whose stored pointers are owned and whose count is that of its entries, a put and
the following get return the value exactly if both lengths fit the header fields, the value is a
string, and the put does not grow the table past its bound. A `CMD_FREE` that keeps entries leaves a
wrong count; the states behind it are not covered. -/
theorem put_get_returns_value_iff (s : Server) (hown : Owns s.map s.heap)
    (hserved : s.heap.Served) (hsound : s.map.Sound) (str value : List UInt8) (hnot : 0 ∉ str) :
    ReturnsValue s (str ++ [0]) value ↔
      (str ++ [0]).length < 2 ^ 16 ∧ value.length < 2 ^ 16 ∧ (∃ v, value = v ++ [0] ∧ 0 ∉ v) ∧
        ¬ s.GrowsPast str := by
  by_cases hshort : (str ++ [0]).length < 2 ^ 16 ∧ value.length < 2 ^ 16
  swap
  · refine iff_of_false ?_ fun h => hshort ⟨h.1, h.2.1⟩
    rintro ⟨r, hr, -⟩
    rw [putGet, mapPut, Server.answer_put_of_long hshort] at hr
    cases hr
  obtain ⟨hkey, hvalue⟩ := hshort
  constructor
  · rintro ⟨r, hr, -, hreturned, -⟩
    obtain ⟨q, -, hdone, hget⟩ := (putGet_eq_ok_iff hkey hvalue hown hserved hsound hnot).mp hr
    have hserved' := hdone.ext.served ((Heap.extends_extend _).served hserved)
    refine ⟨hkey, hvalue, ?_, hdone.fits⟩
    by_cases hzero : 0 ∈ value
    · obtain ⟨rest, hsplit, hv⟩ := Heap.exists_terminated hzero
      have htail := hdone.tail_value
      rw [hsplit] at htail
      have hlen := congrArg List.length hsplit
      rw [List.length_append, List.length_cons] at hlen
      obtain ⟨s', hfound⟩ := mapGet_terminated hdone.owns hserved' hnot hkey hdone.lookup htail hv
        (by omega)
      cases hfound.symm.trans hget
      exact ⟨_, (Option.some.inj hreturned).symm, hv⟩
    · have hstuck := mapGet_unterminated hdone.owns hserved' hnot hkey hdone.lookup
        hdone.tail_value hzero
      cases hstuck.symm.trans hget
  · rintro ⟨-, -, ⟨v, rfl, hv⟩, hfits⟩
    have hmeets : Meets (fun _ => True) (s.PutDone (str ++ [0]) (v ++ [0]) str)
        (s.cmdPut (str ++ [0]).length (str ++ [0] ++ (v ++ [0]))) :=
      Server.cmdPut_done hown hserved hsound hnot fun _ => hfits
    obtain ⟨q, hput, hdone⟩ := exists_of_meets hmeets
    have hserved' := hdone.ext.served ((Heap.extends_extend _).served hserved)
    rw [List.length_append] at hvalue
    obtain ⟨s', hfound⟩ := mapGet_terminated hdone.owns hserved' hnot hkey hdone.lookup
      hdone.tail_value hv hvalue
    have hvalue' : (v ++ [0]).length < 2 ^ 16 := by rwa [List.length_append]
    exact ⟨_, (putGet_eq_ok_iff hkey hvalue' hown hserved hsound hnot).mpr
      ⟨q, hput, hdone, hfound⟩, rfl, rfl, rfl⟩

end RoundTrip

section Sample

theorem put_get_returns_string :
    ∃ s, Server.init (fun _ => true) 0 = .ok s ∧ ReturnsValue s [97, 0] [98, 0] := by
  obtain ⟨s, hs⟩ : ∃ s, Server.init (fun _ => true) 0 = .ok s := ⟨_, rfl⟩
  obtain ⟨hready, hsound⟩ := Server.ready_init (fun _ => rfl) hs
  have hsize : s.map.size = 0 := by
    cases hs
    rfl
  refine ⟨s, hs, ?_⟩
  refine (put_get_returns_value_iff s hready.owns hready.served hsound [97] [98, 0]
    (by decide)).mpr ⟨by decide, by decide, ⟨[98], rfl, by decide⟩, ?_⟩
  rintro ⟨-, -, hpast⟩
  rw [hsize] at hpast
  exact absurd hpast (by decide)

/-- The value `b\0c` comes back as `b\0`. -/
theorem put_get_cuts_value :
    ∃ s r, Server.init (fun _ => true) 0 = .ok s ∧ putGet s [97, 0] [98, 0, 99] = .ok r ∧
      r.value = some [98, 0] ∧ ¬ ReturnsValue s [97, 0] [98, 0, 99] := by
  refine ⟨_, _, rfl, rfl, rfl, ?_⟩
  rintro ⟨r, hr, -, hvalue, -⟩
  cases hr
  exact absurd hvalue (by decide)

end Sample

end NtSocks.Ntkv
