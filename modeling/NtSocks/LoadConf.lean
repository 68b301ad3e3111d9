import NtSocks.Lib.CText

/-!
# Reading a configuration file

The proxy and the library read their configuration with the same loop: a line is trimmed, its last
character is overwritten, and what is left is split at the equals sign. A trimmed line keeps one of
the blanks at its end, and the last character is meant to be that blank.
-/

namespace NtSocks.Conf

open CText

def maxBufLen : ℕ := 1024

def maxKeyLen : ℕ := 64

def maxValLen : ℕ := 256

def blank (c : Char) : Bool := c = ' ' ∨ c = '\t' ∨ c = '\n'

def trimFrom : ℕ → List Char → List Char
  | 0, s => s
  | n + 1, s => if s[n]?.any blank then trimFrom n (s.take (n + 1)) else s

def trim (s : List Char) : List Char := trimFrom s.length s

def lineComment (buf : List Char) : Bool :=
  buf[0]? = some '#' ∨ buf[0]? = some '/' ∧ buf[1]? = some '/'

def scan : Bool → List Char → List Char → List Char → List Char × List Char
  | _, paramk, paramv, [] => (paramk, paramv)
  | kv, paramk, paramv, c :: buf =>
    if c = ' ' then scan kv paramk paramv buf
    else if kv = false ∧ c ≠ '=' then
      if maxKeyLen ≤ paramk.length then (paramk, paramv)
      else scan kv (paramk ++ [c]) paramv buf
    else if c = '=' then scan true paramk paramv buf
    else if maxValLen ≤ paramv.length ∨ c = '#' then (paramk, paramv)
    else scan kv paramk (paramv ++ [c]) buf

/-- What is assigned: the strings of the key and the value, and how many characters were copied for
the value. -/
structure Entry where
  key : List Char
  value : List Char
  vlen : ℕ
  deriving DecidableEq, Repr

/-- The entry of a line outside of comments. The last character is replaced by a null character, but
the loop goes over it. -/
def entryOf (buf : List Char) : Option Entry :=
  if buf.length ≤ 1 ∨ buf[0]? = some '#' ∨ buf[0]? = some '=' ∨ buf[0]? = some '/' then none
  else
    let (paramk, paramv) := scan false [] [] (buf.dropLast ++ [nul])
    if cstring paramk = [] ∨ cstring paramv = [] then none
    else some { key := cstring paramk, value := cstring paramv, vlen := paramv.length }

def parseLine (textComment : Bool) (line : List Char) : Bool × Option Entry :=
  let buf := trim (cstring line)
  if lineComment buf = false ∧ ['/', '*'] <:+: buf then (true, none)
  else if lineComment buf = false ∧ ['*', '/'] <:+: buf then (false, none)
  else if textComment then (true, none)
  else (false, entryOf buf)

/-- The loop of `load_conf` over the lines of a file; every line takes one of `fuel`. -/
def confEntries : ℕ → Bool → List Char → List Entry
  | 0, _, _ => []
  | fuel + 1, textComment, file =>
    if file.isEmpty then []
    else
      let (line, rest) := fgets (maxBufLen - 1) file
      let (textComment, entry) := parseLine textComment line
      entry.toList ++ confEntries fuel textComment rest

def fileEntries (textComment : Bool) (file : List Char) : List Entry :=
  confEntries file.length textComment file

inductive Program
  | ntp
  | libnts
  deriving DecidableEq, Repr

def Program.params : Program → List String
  | .ntp =>
    ["sublink_data_ring_size", "sublink_ctrl_ring_size", "nts_buff_size", "bulk_size",
      "num_partition", "ntb_packetbits_size", "ctrl_packet_size", "data_ringbuffer_size",
      "ctrl_ringbuffer_size", "data_packet_size"]
  | .libnts => ["local_nt_host", "nt_host", "tcp_timewait", "tcp_timeout", "mtu_size"]

/-- A parameter that is not known is skipped by the proxy, and is an error in the library. The value
is kept as its text. -/
def Program.assign (program : Program) (config : List Char → Option (List Char)) (entry : Entry) :
    Option (List Char → Option (List Char)) :=
  if entry.key ∈ program.params.map String.toList then
    some (Function.update config entry.key (some entry.value))
  else
    match program with
    | .ntp => some config
    | .libnts => none

def Program.loadConf (program : Program) (config : List Char → Option (List Char))
    (file : List Char) : Option (List Char → Option (List Char)) :=
  (fileEntries false file).foldlM program.assign config

/-! ### Lines with an assignment -/

def Plain (c : Char) : Prop := c ∉ [' ', '=', '#', '/', '*'] ∧ 32 ≤ c.toNat ∧ c.toNat ≠ 127

instance : DecidablePred Plain := fun _ => inferInstanceAs (Decidable (_ ∧ _))

inductive LineEnding
  | newline (spaces : ℕ)
  | comment (spaces : ℕ) (text : List Char) (ended : Bool)
  | endOfFile (spaces : ℕ)
  deriving DecidableEq, Repr

namespace LineEnding

def toList : LineEnding → List Char
  | newline spaces => List.replicate spaces ' ' ++ ['\n']
  | comment spaces text ended =>
    List.replicate spaces ' ' ++ '#' :: (text ++ if ended then ['\n'] else [])
  | endOfFile spaces => List.replicate spaces ' '

def endsLine : LineEnding → Bool
  | newline _ => true
  | comment _ _ ended => ended
  | endOfFile _ => false

def OneLine : LineEnding → Prop
  | newline _ => True
  | comment _ text _ => '\n' ∉ text
  | endOfFile _ => True

/-- A blank or a comment without the marks of a longer comment follows the value. -/
def Readable : LineEnding → Prop
  | newline _ => True
  | comment _ text _ => ¬ ['/', '*'] <:+: cstring text ∧ ¬ ['*', '/'] <:+: cstring text
  | endOfFile spaces => 0 < spaces

end LineEnding

structure ConfLine where
  key : List Char
  value : List Char
  before : ℕ
  beforeEquals : ℕ
  afterEquals : ℕ
  ending : LineEnding
  key_ne : key ≠ []
  value_ne : value ≠ []
  key_plain : ∀ c ∈ key, Plain c
  value_plain : ∀ c ∈ value, Plain c
  key_lt : key.length < maxKeyLen
  value_lt : value.length < maxValLen
  oneLine : ending.OneLine

def ConfLine.start (line : ConfLine) : List Char :=
  List.replicate line.before ' ' ++ line.key ++ List.replicate line.beforeEquals ' ' ++ ['='] ++
    List.replicate line.afterEquals ' '

def ConfLine.toList (line : ConfLine) : List Char := line.start ++ line.value ++ line.ending.toList

theorem Plain.ne {c d : Char} (hc : Plain c) (hd : ¬ Plain d) : c ≠ d := by
  rintro rfl
  exact hd hc

theorem plain_of_all {w : List Char} (h : (w.all fun c => Plain c) = true) : ∀ c ∈ w, Plain c :=
  fun c hc => of_decide_eq_true (List.all_eq_true.mp h c hc)

/-! ### Trimming -/

section Trim

variable {s bs : List Char}

theorem trimFrom_append (hne : s ≠ []) (hlast : blank (s.getLast hne) = false)
    (hbs : ∀ c ∈ bs, blank c = true) {k : ℕ} (hk : k ≤ bs.length) :
    trimFrom (s.length + k) ((s ++ bs).take (s.length + k + 1)) = s ++ bs.take 1 := by
  induction k with
  | zero =>
    have hpos := List.length_pos_of_ne_nil hne
    obtain ⟨n, hn⟩ : ∃ n, s.length = n + 1 := ⟨s.length - 1, by omega⟩
    have hget : s[n]? = some (s.getLast hne) := by
      rw [List.getLast_eq_getElem, List.getElem?_eq_getElem (by omega)]
      simp [hn]
    have htake : (s ++ bs).take (s.length + 1) = s ++ bs.take 1 := by
      rw [List.take_append, List.take_of_length_le (Nat.le_succ _), Nat.add_sub_cancel_left]
    rw [Nat.add_zero, htake, hn, trimFrom, List.getElem?_append_left (by omega), hget,
      Option.any_some, hlast]
    rfl
  | succ k ih =>
    have hget : ((s ++ bs).take (s.length + k + 1 + 1))[s.length + k]? = some bs[k] := by
      rw [List.getElem?_take_of_lt (by omega), List.getElem?_append_right (by omega),
        Nat.add_sub_cancel_left, List.getElem?_eq_getElem]
    rw [← Nat.add_assoc, trimFrom, hget, Option.any_some, hbs _ (List.getElem_mem _), if_pos rfl,
      List.take_take, Nat.min_eq_left (by omega)]
    exact ih (by omega)

theorem trim_append (hne : s ≠ []) (hlast : blank (s.getLast hne) = false)
    (hbs : ∀ c ∈ bs, blank c = true) : trim (s ++ bs) = s ++ bs.take 1 := by
  have htrim := trimFrom_append hne hlast hbs le_rfl
  rw [List.take_of_length_le (by rw [List.length_append]; omega)] at htrim
  rw [trim, List.length_append]
  exact htrim

end Trim

/-! ### The loop over the characters -/

section Scan

variable {kv : Bool} {paramk paramv w buf : List Char}

theorem scan_spaces (n : ℕ) :
    scan kv paramk paramv (List.replicate n ' ' ++ buf) = scan kv paramk paramv buf := by
  induction n with
  | zero => rfl
  | succ n ih =>
    rw [List.replicate_succ, List.cons_append, scan, if_pos rfl]
    exact ih

theorem scan_key (hw : ∀ c ∈ w, Plain c) (hlength : paramk.length + w.length ≤ maxKeyLen) :
    scan false paramk paramv (w ++ buf) = scan false (paramk ++ w) paramv buf := by
  induction w generalizing paramk with
  | nil => rw [List.nil_append, List.append_nil]
  | cons c w ih =>
    obtain ⟨hc, hw⟩ := List.forall_mem_cons.mp hw
    rw [List.length_cons] at hlength
    rw [List.cons_append, scan, if_neg (hc.ne (by decide)),
      if_pos ⟨rfl, hc.ne (by decide)⟩, if_neg (by omega), ih hw, List.append_assoc]
    · rfl
    · rw [List.length_append, List.length_singleton]
      omega

theorem scan_equals : scan false paramk paramv ('=' :: buf) = scan true paramk paramv buf := by
  rw [scan, if_neg (by decide), if_neg (by decide), if_pos rfl]

theorem scan_value (hw : ∀ c ∈ w, Plain c) (hlength : paramv.length + w.length ≤ maxValLen) :
    scan true paramk paramv (w ++ buf) = scan true paramk (paramv ++ w) buf := by
  induction w generalizing paramv with
  | nil => rw [List.nil_append, List.append_nil]
  | cons c w ih =>
    obtain ⟨hc, hw⟩ := List.forall_mem_cons.mp hw
    rw [List.length_cons] at hlength
    have hgo : ¬ (maxValLen ≤ paramv.length ∨ c = '#') := by
      rintro (hfull | hmark)
      · omega
      · exact hc.ne (by decide) hmark
    rw [List.cons_append, scan, if_neg (hc.ne (by decide)), if_neg (by simp),
      if_neg (hc.ne (by decide)), if_neg hgo, ih hw, List.append_assoc]
    · rfl
    · rw [List.length_append, List.length_singleton]
      omega

theorem scan_nul (hlength : paramv.length < maxValLen) :
    scan true paramk paramv [nul] = (paramk, paramv ++ [nul]) := by
  have hgo : ¬ (maxValLen ≤ paramv.length ∨ nul = '#') := by
    rintro (hfull | hmark)
    · omega
    · exact absurd hmark (by decide)
  rw [scan, if_neg (by decide), if_neg (by simp), if_neg (by decide), if_neg hgo]
  rfl

theorem scan_comment : scan true paramk paramv ('#' :: buf) = (paramk, paramv) := by
  rw [scan, if_neg (by decide), if_neg (by simp), if_neg (by decide), if_pos (Or.inr rfl)]

end Scan

namespace ConfLine

variable (line : ConfLine) {u t : List Char} {bs : List Char} {b : Bool} {c : Char}

def body : List Char := line.start ++ line.value

theorem mem_start (hc : c ∈ line.start) : c = ' ' ∨ c = '=' ∨ Plain c := by
  simp only [start, List.mem_append, List.mem_replicate, List.mem_singleton] at hc
  rcases hc with (((⟨-, hc⟩ | hc) | ⟨-, hc⟩) | hc) | ⟨-, hc⟩
  · exact Or.inl hc
  · exact Or.inr (Or.inr (line.key_plain c hc))
  · exact Or.inl hc
  · exact Or.inr (Or.inl hc)
  · exact Or.inl hc

theorem notMem_body (hplain : ¬ Plain c) (hspace : c ≠ ' ') (hequals : c ≠ '=') :
    c ∉ line.body := by
  intro hc
  rcases List.mem_append.mp hc with hstart | hvalue
  · rcases line.mem_start hstart with h | h | h
    · exact hspace h
    · exact hequals h
    · exact hplain h
  · exact hplain (line.value_plain c hvalue)

theorem start_eq_cons : ∃ c s, line.start = c :: s ∧ s ≠ [] ∧ (c = ' ' ∨ Plain c) := by
  obtain ⟨c, key, hkey⟩ := List.exists_cons_of_ne_nil line.key_ne
  cases hbefore : line.before with
  | zero =>
    refine ⟨c, key ++ List.replicate line.beforeEquals ' ' ++ ['='] ++
      List.replicate line.afterEquals ' ', ?_, by simp, Or.inr ?_⟩
    · simp [start, hbefore, hkey]
    · exact line.key_plain c (hkey ▸ List.mem_cons_self)
  | succ n =>
    refine ⟨' ', List.replicate n ' ' ++ line.key ++ List.replicate line.beforeEquals ' ' ++
      ['='] ++ List.replicate line.afterEquals ' ', ?_, by simp, Or.inl rfl⟩
    simp [start, hbefore, List.replicate_succ]

theorem start_getElem?_ne (hplain : ¬ Plain c) (hspace : c ≠ ' ') :
    (line.start ++ u)[0]? ≠ some c := by
  obtain ⟨d, s, hstart, -, hd⟩ := line.start_eq_cons
  rw [hstart]
  intro heq
  cases heq
  rcases hd with h | h
  · exact hspace h
  · exact hplain h

theorem lineComment_start : lineComment (line.start ++ u) = false := by
  rw [lineComment, decide_eq_false_iff_not]
  rintro (h | ⟨h, -⟩) <;> exact line.start_getElem?_ne (by decide) (by decide) h

theorem scan_start : scan false [] [] (line.start ++ u) = scan true line.key [] u := by
  have hlength : ([] : List Char).length + line.key.length ≤ maxKeyLen := by
    simpa using line.key_lt.le
  rw [start, List.append_assoc, List.append_assoc, List.append_assoc, List.append_assoc,
    scan_spaces, scan_key line.key_plain hlength, List.nil_append, scan_spaces,
    List.singleton_append, scan_equals, scan_spaces]

theorem entryOf_start (hu : u ≠ []) {paramv : List Char}
    (hscan : scan true line.key [] (u.dropLast ++ [nul]) = (line.key, paramv)) :
    entryOf (line.start ++ u) = if cstring paramv = [] then none
      else some { key := line.key, value := cstring paramv, vlen := paramv.length } := by
  have hkey : cstring line.key = line.key := by
    refine cstring_of_notMem fun hnul => ?_
    exact absurd (line.key_plain nul hnul) (by decide)
  have hguard : ¬ ((line.start ++ u).length ≤ 1 ∨ (line.start ++ u)[0]? = some '#' ∨
      (line.start ++ u)[0]? = some '=' ∨ (line.start ++ u)[0]? = some '/') := by
    rintro (h | h | h | h)
    · obtain ⟨c, s, hstart, hs, -⟩ := line.start_eq_cons
      have hpos := List.length_pos_of_ne_nil hs
      rw [hstart, List.length_append, List.length_cons] at h
      omega
    iterate 3 exact line.start_getElem?_ne (by decide) (by decide) h
  rw [entryOf, if_neg hguard, List.dropLast_append_of_ne_nil hu, List.append_assoc,
    line.scan_start, hscan]
  dsimp only
  rw [hkey]
  simp only [line.key_ne, false_or]

theorem scan_value_then {w z : List Char} (hw : ∀ c ∈ w, Plain c) (hlength : w.length < maxValLen) :
    scan true line.key [] (w ++ z) = scan true line.key w z := by
  have hroom : ([] : List Char).length + w.length ≤ maxValLen := by simpa using hlength.le
  rw [scan_value hw hroom, List.nil_append]

theorem nul_notMem_of_plain {w : List Char} (hw : ∀ c ∈ w, Plain c) : nul ∉ w :=
  fun hnul => absurd (hw nul hnul) (by decide)

theorem entryOf_body_append (b : Char) :
    entryOf (line.body ++ [b]) =
      some { key := line.key, value := line.value, vlen := line.value.length + 1 } := by
  have hnul := nul_notMem_of_plain line.value_plain
  have hscan : scan true line.key [] ((line.value ++ [b]).dropLast ++ [nul]) =
      (line.key, line.value ++ [nul]) := by
    rw [List.dropLast_concat, line.scan_value_then line.value_plain line.value_lt,
      scan_nul line.value_lt]
  rw [body, List.append_assoc, line.entryOf_start (by simp) hscan, cstring_append_nul hnul,
    if_neg line.value_ne, List.length_append, List.length_singleton]

theorem entryOf_body_comment (n : ℕ) (t : List Char) :
    ∃ vlen, (vlen = line.value.length ∨ vlen = line.value.length + 1) ∧
      entryOf (line.body ++ (List.replicate n ' ' ++ '#' :: t)) =
        some { key := line.key, value := line.value, vlen := vlen } := by
  have hnul := nul_notMem_of_plain line.value_plain
  have hdrop : (line.value ++ (List.replicate n ' ' ++ '#' :: t)).dropLast =
      line.value ++ (List.replicate n ' ' ++ ('#' :: t).dropLast) := by
    rw [List.dropLast_append_of_ne_nil (by simp), List.dropLast_append_of_ne_nil (by simp)]
  have hscan := fun z => line.scan_value_then (z := List.replicate n ' ' ++ z) line.value_plain
    line.value_lt
  rw [body, List.append_assoc]
  cases t with
  | nil =>
    -- the mark itself is the last character
    refine ⟨_, Or.inr rfl, ?_⟩
    have hread : scan true line.key []
        ((line.value ++ (List.replicate n ' ' ++ ['#'])).dropLast ++ [nul]) =
          (line.key, line.value ++ [nul]) := by
      rw [hdrop, List.append_assoc, List.append_assoc, hscan, scan_spaces]
      exact scan_nul line.value_lt
    rw [line.entryOf_start (by simp) hread, cstring_append_nul hnul, if_neg line.value_ne,
      List.length_append, List.length_singleton]
  | cons c t =>
    refine ⟨_, Or.inl rfl, ?_⟩
    have hread : scan true line.key []
        ((line.value ++ (List.replicate n ' ' ++ '#' :: c :: t)).dropLast ++ [nul]) =
          (line.key, line.value) := by
      rw [hdrop, List.append_assoc, List.append_assoc, hscan, scan_spaces]
      exact scan_comment
    rw [line.entryOf_start (by simp) hread, cstring_of_notMem hnul, if_neg line.value_ne]

theorem entryOf_body_ne (vlen : ℕ) :
    entryOf line.body ≠ some { key := line.key, value := line.value, vlen := vlen } := by
  have hplain : ∀ c ∈ line.value.dropLast, Plain c :=
    fun c hc => line.value_plain c (List.mem_of_mem_dropLast hc)
  have hpos := List.length_pos_of_ne_nil line.value_ne
  have hlength : line.value.dropLast.length < maxValLen := by
    rw [List.length_dropLast]
    exact (Nat.sub_le _ _).trans_lt line.value_lt
  have hscan : scan true line.key [] (line.value.dropLast ++ [nul]) =
      (line.key, line.value.dropLast ++ [nul]) := by
    rw [line.scan_value_then hplain hlength, scan_nul hlength]
  rw [body, line.entryOf_start line.value_ne hscan, cstring_append_nul (nul_notMem_of_plain hplain)]
  split
  · exact (Option.some_ne_none _).symm
  · intro heq
    have hvalue : line.value.dropLast = line.value := congrArg Entry.value (Option.some.inj heq)
    have hshort := congrArg List.length hvalue
    rw [List.length_dropLast] at hshort
    omega

/-! ### One line -/

def mark : Bool → List Char
  | true => ['/', '*']
  | false => ['*', '/']

theorem mark_ne (b : Bool) : mark b ≠ [] := by
  cases b <;> exact List.cons_ne_nil _ _

theorem notMem_of_mem_mark {s : List Char} (hslash : '/' ∉ s) (hstar : '*' ∉ s) :
    ∀ c ∈ mark b, c ∉ s := by
  cases b <;> simp [mark, hslash, hstar]

theorem mark_body_iff (b : Bool) : mark b <:+: line.body ++ t ↔ mark b <:+: t :=
  isInfix_append_left_iff (mark_ne b)
    (notMem_of_mem_mark (line.notMem_body (by decide) (by decide) (by decide))
      (line.notMem_body (by decide) (by decide) (by decide)))

theorem mark_hash_iff (b : Bool) (n : ℕ) :
    mark b <:+: List.replicate n ' ' ++ '#' :: t ↔ mark b <:+: t := by
  rw [List.append_cons]
  exact isInfix_append_left_iff (mark_ne b) (notMem_of_mem_mark (by simp) (by simp))

theorem mark_blanks_iff (b : Bool) (hbs : ∀ c ∈ bs, blank c = true) :
    mark b <:+: t ++ bs ↔ mark b <:+: t :=
  isInfix_append_right_iff (mark_ne b)
    (notMem_of_mem_mark (fun h => absurd (hbs '/' h) (by decide))
      (fun h => absurd (hbs '*' h) (by decide)))

theorem parseLine_of_marked {text : List Char} (htrim : trim (cstring text) = line.body ++ t)
    (hmark : mark b <:+: t) : (parseLine false text).2 = none := by
  have hcomment : lineComment (line.body ++ t) = false := by
    rw [body, List.append_assoc]
    exact line.lineComment_start
  rw [parseLine, htrim, hcomment]
  cases b
  · by_cases hopen : mark true <:+: line.body ++ t
    · rw [if_pos ⟨rfl, hopen⟩]
    · rw [if_neg fun h => hopen h.2, if_pos ⟨rfl, (line.mark_body_iff false).mpr hmark⟩]
  · rw [if_pos ⟨rfl, (line.mark_body_iff true).mpr hmark⟩]

theorem parseLine_of_unmarked {text : List Char} (htrim : trim (cstring text) = line.body ++ t)
    (hmark : ∀ b, ¬ mark b <:+: t) : parseLine false text = (false, entryOf (line.body ++ t)) := by
  rw [parseLine, htrim, if_neg fun h => hmark true ((line.mark_body_iff true).mp h.2),
    if_neg fun h => hmark false ((line.mark_body_iff false).mp h.2), if_neg Bool.false_ne_true]

theorem nul_notMem_body : nul ∉ line.body :=
  line.notMem_body (by decide) (by decide) (by decide)

theorem body_ne : line.body ≠ [] := List.append_ne_nil_of_right_ne_nil _ line.value_ne

theorem blank_getLast_body : blank (line.body.getLast line.body_ne) = false := by
  have hlast : Plain (line.body.getLast line.body_ne) := by
    rw [show line.body.getLast line.body_ne = line.value.getLast line.value_ne from
      List.getLast_append_of_right_ne_nil _ _ line.value_ne]
    exact line.value_plain _ (List.getLast_mem _)
  rw [blank, decide_eq_false_iff_not]
  rintro (h | h | h)
  · exact hlast.ne (by decide) h
  · exact hlast.ne (by decide) h
  · exact hlast.ne (by decide) h

theorem trim_body_blanks (hbs : ∀ c ∈ bs, blank c = true) :
    trim (cstring (line.body ++ bs)) = line.body ++ bs.take 1 := by
  have hnul : nul ∉ bs := fun h => absurd (hbs nul h) (by decide)
  rw [cstring_append_of_notMem line.nul_notMem_body, cstring_of_notMem hnul,
    trim_append line.body_ne line.blank_getLast_body hbs]

theorem blank_of_mem_replicate {n : ℕ} (hc : c ∈ List.replicate n ' ') : blank c = true := by
  rw [List.eq_of_mem_replicate hc]
  rfl

theorem parseLine_blanks (hne : bs ≠ []) (hbs : ∀ c ∈ bs, blank c = true) :
    parseLine false (line.body ++ bs) = (false, some
      { key := line.key, value := line.value, vlen := line.value.length + 1 }) := by
  obtain ⟨b, bs, rfl⟩ := List.exists_cons_of_ne_nil hne
  have hmark : ∀ m, ¬ mark m <:+: [b] := by
    intro m h
    have hb : ∀ c ∈ [b], blank c = true := by
      intro c hc
      rw [List.mem_singleton.mp hc]
      exact hbs b List.mem_cons_self
    have hnil : mark m <:+: [] := (mark_blanks_iff m hb).mp h
    exact mark_ne m (List.infix_nil.mp hnil)
  rw [line.parseLine_of_unmarked (line.trim_body_blanks hbs) hmark]
  exact congrArg (Prod.mk false) (line.entryOf_body_append b)

theorem exists_trim_comment (n : ℕ) (text : List Char) :
    ∃ t, trim (cstring (line.body ++ (List.replicate n ' ' ++ '#' :: text))) =
        line.body ++ (List.replicate n ' ' ++ '#' :: t) ∧
      ∀ m, mark m <:+: List.replicate n ' ' ++ '#' :: t ↔ mark m <:+: cstring text := by
  have hspaces : nul ∉ List.replicate n ' ' ++ ['#'] := by simp [nul]
  have hcstring : cstring (line.body ++ (List.replicate n ' ' ++ '#' :: text)) =
      line.body ++ (List.replicate n ' ' ++ '#' :: cstring text) := by
    rw [cstring_append_of_notMem line.nul_notMem_body, List.append_cons,
      cstring_append_of_notMem hspaces, ← List.append_cons]
  set core := (cstring text).rdropWhile blank
  set bs := (cstring text).rtakeWhile blank
  have htext : cstring text = core ++ bs := List.rdropWhile_append_rtakeWhile.symm
  have hbs : ∀ c ∈ bs, blank c = true := fun c hc => List.mem_rtakeWhile_imp hc
  have hne : line.body ++ (List.replicate n ' ' ++ '#' :: core) ≠ [] := by simp
  have hlast :
      blank ((line.body ++ (List.replicate n ' ' ++ '#' :: core)).getLast hne) = false := by
    rw [List.getLast_append_of_right_ne_nil _ _ (by simp),
      List.getLast_append_of_right_ne_nil _ _ (by simp)]
    by_cases hempty : core = []
    · simp only [hempty]
      rfl
    · rw [List.getLast_cons hempty, ← Bool.not_eq_true]
      exact List.rdropWhile_last_not blank (cstring text) hempty
  have hsplit : ∀ t, line.body ++ (List.replicate n ' ' ++ '#' :: (core ++ t)) =
      line.body ++ (List.replicate n ' ' ++ '#' :: core) ++ t := by simp
  refine ⟨core ++ bs.take 1, ?_, ?_⟩
  · rw [hcstring, htext, hsplit, hsplit, trim_append hne hlast hbs]
  · intro m
    rw [mark_hash_iff, htext, mark_blanks_iff m hbs,
      mark_blanks_iff m fun c hc => hbs c (List.mem_of_mem_take hc)]

theorem mark_cstring_append_iff (m : Bool) (text : List Char) (ended : Bool) :
    mark m <:+: cstring (text ++ if ended then ['\n'] else []) ↔ mark m <:+: cstring text := by
  by_cases hnul : nul ∈ text
  · have hcut : cstring (text ++ if ended then ['\n'] else []) = cstring text := by
      obtain ⟨s, t, rfl, hs⟩ := List.eq_append_cons_of_mem hnul
      rw [List.append_assoc, List.cons_append, cstring_append_of_notMem hs,
        cstring_append_of_notMem hs]
      rfl
    rw [hcut]
  · rw [cstring_append_of_notMem hnul, cstring_of_notMem hnul, mark_blanks_iff]
    cases ended
    · exact fun c hc => absurd hc List.not_mem_nil
    · intro c hc
      rw [List.mem_singleton.mp hc]
      rfl

theorem toList_eq : line.toList = line.body ++ line.ending.toList := rfl

theorem parseLine_of_readable (h : line.ending.Readable) :
    ∃ vlen, (vlen = line.value.length ∨ vlen = line.value.length + 1) ∧
      parseLine false line.toList =
        (false, some { key := line.key, value := line.value, vlen := vlen }) := by
  rw [toList_eq]
  cases hending : line.ending with
  | newline n =>
    refine ⟨_, Or.inr rfl, line.parseLine_blanks (by simp [LineEnding.toList]) ?_⟩
    exact List.forall_mem_append.mpr ⟨fun c => blank_of_mem_replicate,
      List.forall_mem_singleton.mpr rfl⟩
  | comment n text ended =>
    rw [hending] at h
    obtain ⟨t, htrim, hmark⟩ :=
      line.exists_trim_comment n (text ++ if ended then ['\n'] else [])
    obtain ⟨vlen, hvlen, hentry⟩ := line.entryOf_body_comment n t
    refine ⟨vlen, hvlen, ?_⟩
    rw [LineEnding.toList, line.parseLine_of_unmarked htrim, hentry]
    intro m
    rw [hmark, mark_cstring_append_iff]
    cases m
    · exact h.2
    · exact h.1
  | endOfFile n =>
    rw [hending] at h
    refine ⟨_, Or.inr rfl, line.parseLine_blanks ?_ fun c => blank_of_mem_replicate⟩
    rw [LineEnding.toList, ne_eq, List.replicate_eq_nil_iff]
    exact Nat.pos_iff_ne_zero.mp h

theorem parseLine_of_not_readable (h : ¬ line.ending.Readable) (vlen : ℕ) :
    (parseLine false line.toList).2 ≠
      some { key := line.key, value := line.value, vlen := vlen } := by
  rw [toList_eq]
  cases hending : line.ending with
  | newline n =>
    rw [hending] at h
    exact absurd trivial h
  | comment n text ended =>
    rw [hending] at h
    obtain ⟨t, htrim, hmark⟩ :=
      line.exists_trim_comment n (text ++ if ended then ['\n'] else [])
    have hmarked : ∃ m, mark m <:+: cstring text := by
      by_contra hnone
      exact h ⟨fun hopen => hnone ⟨true, hopen⟩, fun hclose => hnone ⟨false, hclose⟩⟩
    obtain ⟨m, hm⟩ := hmarked
    rw [← mark_cstring_append_iff m text ended, ← hmark] at hm
    rw [LineEnding.toList, line.parseLine_of_marked htrim hm]
    exact (Option.some_ne_none _).symm
  | endOfFile n =>
    rw [hending] at h
    obtain rfl : n = 0 := Nat.eq_zero_of_not_pos h
    have htrim := line.trim_body_blanks fun c (hc : c ∈ []) => absurd hc List.not_mem_nil
    have hmark : ∀ m, ¬ mark m <:+: [] := by
      intro m hnil
      exact mark_ne m (List.infix_nil.mp hnil)
    rw [LineEnding.toList, List.replicate_zero, line.parseLine_of_unmarked htrim hmark]
    dsimp only
    rw [List.take_nil, List.append_nil]
    exact line.entryOf_body_ne vlen

/-! ### A line of a file -/

def text : List Char :=
  line.body ++ match line.ending with
    | .newline spaces => List.replicate spaces ' '
    | .comment spaces text _ => List.replicate spaces ' ' ++ '#' :: text
    | .endOfFile spaces => List.replicate spaces ' '

theorem toList_eq_text :
    line.toList = line.text ++ if line.ending.endsLine then ['\n'] else [] := by
  rw [toList_eq, text, List.append_assoc]
  cases line.ending with
  | newline n => rfl
  | comment n text ended =>
    rw [LineEnding.toList, LineEnding.endsLine, List.append_assoc, List.cons_append]
  | endOfFile n => exact congrArg (line.body ++ ·) (List.append_nil _).symm

theorem newline_notMem_text : '\n' ∉ line.text := by
  have hbody : '\n' ∉ line.body := line.notMem_body (by decide) (by decide) (by decide)
  have honeLine := line.oneLine
  rw [text, List.mem_append, not_or]
  refine ⟨hbody, ?_⟩
  cases hending : line.ending with
  | newline n => simp
  | comment n text ended =>
    rw [hending] at honeLine
    have htext : '\n' ∉ text := honeLine
    simp [htext]
  | endOfFile n => simp

theorem fgets_toList (hlength : line.toList.length < maxBufLen) {rest : List Char}
    (hrest : line.ending.endsLine = true ∨ rest = []) :
    fgets (maxBufLen - 1) (line.toList ++ rest) = (line.toList, rest) := by
  have hnewline := line.newline_notMem_text
  rw [maxBufLen] at hlength ⊢
  rw [toList_eq_text] at hlength ⊢
  cases hends : line.ending.endsLine with
  | true =>
    rw [hends, if_pos rfl, List.length_append, List.length_singleton] at hlength
    rw [if_pos rfl, List.append_assoc]
    exact fgets_newline hnewline (by omega) rest
  | false =>
    rw [hends] at hrest hlength
    obtain rfl : rest = [] := hrest.resolve_left Bool.false_ne_true
    rw [if_neg Bool.false_ne_true, List.append_nil] at hlength
    rw [if_neg Bool.false_ne_true, List.append_nil, List.append_nil]
    exact fgets_end hnewline (by omega)

end ConfLine

theorem confEntries_fuel {fuel fuel' : ℕ} {file : List Char} (hfuel : file.length ≤ fuel)
    (hfuel' : file.length ≤ fuel') (textComment : Bool) :
    confEntries fuel textComment file = confEntries fuel' textComment file := by
  induction fuel generalizing fuel' file textComment with
  | zero =>
    obtain rfl : file = [] := List.length_eq_zero_iff.mp (Nat.le_zero.mp hfuel)
    cases fuel' <;> rfl
  | succ fuel ih =>
    cases hfile : file with
    | nil => cases fuel' <;> rfl
    | cons c cs =>
      have hne : file ≠ [] := by
        rw [hfile]
        exact List.cons_ne_nil c cs
      have hlt : (fgets (maxBufLen - 1) file).2.length < file.length := length_fgets_lt 1022 hne
      cases fuel' with
      | zero =>
        rw [hfile] at hfuel'
        cases hfuel'
      | succ fuel' =>
        rw [← hfile, confEntries, confEntries]
        dsimp only
        rw [ih (by omega) (by omega : _ ≤ fuel')]

theorem fileEntries_append {text rest : List Char} (hne : text ≠ [])
    (hread : fgets (maxBufLen - 1) (text ++ rest) = (text, rest)) (textComment : Bool) :
    fileEntries textComment (text ++ rest) = (parseLine textComment text).2.toList ++
      fileEntries (parseLine textComment text).1 rest := by
  have hpos := List.length_pos_of_ne_nil hne
  obtain ⟨fuel, hfuel⟩ : ∃ fuel, (text ++ rest).length = fuel + 1 :=
    ⟨text.length - 1 + rest.length, by rw [List.length_append]; omega⟩
  have hempty : (text ++ rest).isEmpty = false := by simp [hne]
  rw [fileEntries, hfuel, confEntries, hempty, if_neg Bool.false_ne_true, hread]
  dsimp only
  rw [List.length_append] at hfuel
  rw [fileEntries, confEntries_fuel (by omega : rest.length ≤ fuel) le_rfl]

namespace ConfLine

variable (line : ConfLine)

theorem toList_ne : line.toList ≠ [] := by
  rw [toList_eq]
  exact List.append_ne_nil_of_left_ne_nil line.body_ne _

/-- A line of a file outside of a comment assigns exactly its key and its value, whatever follows
it, if and only if its ending is readable: not the end of the file right behind the value, and no
comment with a mark of a comment over several lines. Both programs then go on with the rest of the
file. -/
theorem load_conf_assigns_iff (hlength : line.toList.length < maxBufLen) :
    ((∃ vlen, ∀ rest, line.ending.endsLine = true ∨ rest = [] →
        fileEntries false (line.toList ++ rest) =
          { key := line.key, value := line.value, vlen := vlen } :: fileEntries false rest) ↔
      line.ending.Readable) ∧
    (line.ending.Readable → ∀ (program : Program) config rest,
      line.ending.endsLine = true ∨ rest = [] →
      program.loadConf config (line.toList ++ rest) =
        (program.assign config ⟨line.key, line.value, line.value.length⟩).bind fun config =>
          program.loadConf config rest) := by
  have hfile : ∀ rest, line.ending.endsLine = true ∨ rest = [] →
      fileEntries false (line.toList ++ rest) = (parseLine false line.toList).2.toList ++
        fileEntries (parseLine false line.toList).1 rest :=
    fun rest hrest => fileEntries_append line.toList_ne (line.fgets_toList hlength hrest) false
  refine ⟨⟨?_, ?_⟩, ?_⟩
  · rintro ⟨vlen, hentries⟩
    by_contra hnot
    have hone := hentries [] (Or.inr rfl)
    rw [hfile [] (Or.inr rfl)] at hone
    cases hparse : (parseLine false line.toList).2 with
    | none =>
        rw [hparse] at hone
        cases hone
    | some entry =>
        rw [hparse] at hone
        refine line.parseLine_of_not_readable hnot vlen ?_
        rw [hparse, (List.cons.inj hone).1]
  · intro hreadable
    obtain ⟨vlen, -, hparse⟩ := line.parseLine_of_readable hreadable
    refine ⟨vlen, fun rest hrest => ?_⟩
    rw [hfile rest hrest, hparse]
    rfl
  · intro hreadable program config rest hrest
    obtain ⟨vlen, -, hparse⟩ := line.parseLine_of_readable hreadable
    rw [Program.loadConf, hfile rest hrest, hparse]
    rfl

def bulkSize (ending : LineEnding) (oneLine : ending.OneLine) : ConfLine where
  key := "bulk_size".toList
  value := "16".toList
  before := 1
  beforeEquals := 1
  afterEquals := 2
  ending := ending
  key_ne := by decide
  value_ne := by decide
  key_plain := plain_of_all rfl
  value_plain := plain_of_all rfl
  key_lt := by decide
  value_lt := by decide
  oneLine := oneLine

theorem bulk_size_assigned :
    ∃ vlen, ∀ rest, (LineEnding.newline 2).endsLine = true ∨ rest = [] →
      fileEntries false ((bulkSize (.newline 2) trivial).toList ++ rest) =
        { key := "bulk_size".toList, value := "16".toList, vlen := vlen } ::
          fileEntries false rest :=
  ((bulkSize (.newline 2) trivial).load_conf_assigns_iff (by decide)).1.mpr trivial

/-- At the end of the file the value 16 is read as 1, and a value of one digit is not read; nor is
one with a comment that has a mark, and what follows is not read either. -/
theorem last_line_cut :
    fileEntries false "bulk_size=16".toList =
      [{ key := "bulk_size".toList, value := "1".toList, vlen := 2 }] ∧
    fileEntries false "bulk_size=8".toList = [] ∧
    fileEntries false "bulk_size=16 # see /* below\nbulk_size=8\n".toList = [] := by
  decide +kernel

end ConfLine

end NtSocks.Conf
