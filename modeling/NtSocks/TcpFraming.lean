import Mathlib.Tactic

/-!
# Messages between monitors over TCP

A monitor sends each message with one `send`, and the receiving thread of its peer takes what one
`recv` returns for a message. TCP keeps the order of the bytes only, so a `recv` may return a part
of a message, or the end of one with the beginning of the next.
-/

namespace NtSocks.Ntm

/-- The size of the packed structure `ntm_sock_msg`: its fields and a payload of 1024 bytes. -/
def ntmSockMsgSize : ℕ := 4 + 4 + 2 + 2 + 4 + 4 + 1 + 1024

structure NtmSockBytes where
  bytes : List UInt8
  length_eq : bytes.length = ntmSockMsgSize

namespace NtmSockBytes

@[ext] theorem ext {msg msg' : NtmSockBytes} (h : msg.bytes = msg'.bytes) : msg = msg' := by
  cases msg
  cases msg'
  cases h
  rfl

def fill (b : UInt8) : NtmSockBytes where
  bytes := List.replicate ntmSockMsgSize b
  length_eq := List.length_replicate

/-- The variable `incoming_msg` after a `recv` that returned the bytes `received`; what the `recv`
did not write is as before. -/
def overwrite (msg : NtmSockBytes) (received : List UInt8) : NtmSockBytes where
  bytes := received.take ntmSockMsgSize ++ msg.bytes.drop received.length
  length_eq := by
    rw [List.length_append, List.length_take, List.length_drop, msg.length_eq]
    omega

theorem overwrite_bytes (msg : NtmSockBytes) (received : List UInt8) :
    (msg.overwrite received).bytes =
      received.take ntmSockMsgSize ++ msg.bytes.drop received.length := rfl

end NtmSockBytes

variable {σ : Type*}

def tcpStream (msgs : List NtmSockBytes) : List UInt8 := msgs.flatMap NtmSockBytes.bytes

/-- The messages that `ntm_sock_recv_thread` passes to `ntm_sock_handle_msg` while `recv` returns
the numbers of bytes `ns`. `incoming i` is what the variable `incoming_msg` of the iteration `i`
holds before its `recv`. The handler returns its value, the `running_signal` and the state of the
monitor. -/
def ntmSockRecvThread (handle : σ → NtmSockBytes → ℤ × Bool × σ) :
    (ℕ → NtmSockBytes) → σ → List UInt8 → List ℕ → List NtmSockBytes
  | _, _, _, [] => []
  | incoming, s, stream, n :: ns =>
    let msg := (incoming 0).overwrite (stream.take n)
    let (retval, running, s') := handle s msg
    if retval = -1 ∨ running = false then [msg]
    else msg :: ntmSockRecvThread handle (fun i => incoming (i + 1)) s' (stream.drop n) ns

/-- TCP may return the bytes of `total` in portions of the sizes `ns`. -/
structure Splits (ns : List ℕ) (total : ℕ) : Prop where
  pos : ∀ n ∈ ns, 1 ≤ n
  le : ∀ n ∈ ns, n ≤ ntmSockMsgSize
  sum : ns.sum = total

def KeepsRunning (handle : σ → NtmSockBytes → ℤ × Bool × σ) : σ → List NtmSockBytes → Prop
  | _, [] => True
  | _, [_] => True
  | s, msg :: msg' :: msgs =>
    (handle s msg).1 ≠ -1 ∧ (handle s msg).2.1 = true ∧
      KeepsRunning handle (handle s msg).2.2 (msg' :: msgs)

variable {handle : σ → NtmSockBytes → ℤ × Bool × σ} {s : σ} {ns : List ℕ} {n : ℕ}
  {msgs : List NtmSockBytes} {msg : NtmSockBytes} {incoming : ℕ → NtmSockBytes}

theorem tcpStream_length (msgs : List NtmSockBytes) :
    (tcpStream msgs).length = msgs.length * ntmSockMsgSize := by
  induction msgs with
  | nil => simp [tcpStream]
  | cons msg msgs ih =>
    rw [tcpStream, List.flatMap_cons, List.length_append, msg.length_eq, List.length_cons]
    rw [tcpStream] at ih
    rw [ih, Nat.succ_mul, Nat.add_comm]

theorem tcpStream_take_size (msg : NtmSockBytes) (msgs : List NtmSockBytes) :
    (tcpStream (msg :: msgs)).take ntmSockMsgSize = msg.bytes := by
  rw [tcpStream, List.flatMap_cons, List.take_left' msg.length_eq]

theorem tcpStream_drop_size (msg : NtmSockBytes) (msgs : List NtmSockBytes) :
    (tcpStream (msg :: msgs)).drop ntmSockMsgSize = tcpStream msgs := by
  rw [tcpStream, List.flatMap_cons, List.drop_left' msg.length_eq]
  rfl

theorem Splits.tail {total : ℕ} (h : Splits (n :: ns) (n + total)) : Splits ns total where
  pos := fun k hk => h.pos k (List.mem_cons_of_mem n hk)
  le := fun k hk => h.le k (List.mem_cons_of_mem n hk)
  sum := by
    have hsum := h.sum
    rw [List.sum_cons] at hsum
    omega

theorem Splits.eq_nil (h : Splits ns 0) : ns = [] := by
  cases ns with
  | nil => rfl
  | cons n ns =>
    have hpos := h.pos n List.mem_cons_self
    have hsum := h.sum
    rw [List.sum_cons] at hsum
    omega

theorem overwrite_whole (old : NtmSockBytes) (msg : NtmSockBytes) (msgs : List NtmSockBytes) :
    old.overwrite ((tcpStream (msg :: msgs)).take ntmSockMsgSize) = msg := by
  apply NtmSockBytes.ext
  rw [tcpStream_take_size, NtmSockBytes.overwrite_bytes]
  have htake : msg.bytes.take ntmSockMsgSize = msg.bytes :=
    List.take_of_length_le msg.length_eq.le
  have hdrop : old.bytes.drop msg.bytes.length = [] :=
    List.drop_of_length_le (by rw [old.length_eq, msg.length_eq])
  rw [htake, hdrop, List.append_nil]

theorem overwrite_part {old : NtmSockBytes} {received : List UInt8}
    (hshort : received.length < ntmSockMsgSize) :
    (old.overwrite received).bytes.getLast? = old.bytes.getLast? := by
  have hne : old.bytes.drop received.length ≠ [] := by
    rw [ne_eq, List.drop_eq_nil_iff, old.length_eq]
    omega
  rw [NtmSockBytes.overwrite_bytes, List.getLast?_append_of_ne_nil _ hne, List.getLast?_drop,
    if_neg (by rw [old.length_eq]; omega)]

theorem exists_other_last (msg : NtmSockBytes) :
    ∃ b, (NtmSockBytes.fill b).bytes.getLast? ≠ msg.bytes.getLast? := by
  have hlast : ∀ b, (NtmSockBytes.fill b).bytes.getLast? = some b := by
    intro b
    rw [NtmSockBytes.fill, List.getLast?_replicate, if_neg (by decide)]
  by_cases hzero : msg.bytes.getLast? = some 0
  · refine ⟨1, ?_⟩
    rw [hlast, hzero]
    decide
  · refine ⟨0, ?_⟩
    rw [hlast]
    exact fun heq => hzero heq.symm

theorem ntmSockRecvThread_head? (handle : σ → NtmSockBytes → ℤ × Bool × σ)
    (incoming : ℕ → NtmSockBytes) (s : σ) (stream : List UInt8) (n : ℕ) (ns : List ℕ) :
    (ntmSockRecvThread handle incoming s stream (n :: ns)).head? =
      some ((incoming 0).overwrite (stream.take n)) := by
  simp only [ntmSockRecvThread]
  split <;> rfl

theorem ntmSockRecvThread_whole (handle : σ → NtmSockBytes → ℤ × Bool × σ)
    (incoming : ℕ → NtmSockBytes) (s : σ) (msg : NtmSockBytes) (msgs : List NtmSockBytes)
    (ns : List ℕ) :
    ntmSockRecvThread handle incoming s (tcpStream (msg :: msgs)) (ntmSockMsgSize :: ns) =
      if (handle s msg).1 = -1 ∨ (handle s msg).2.1 = false then [msg]
      else msg :: ntmSockRecvThread handle (fun i => incoming (i + 1)) (handle s msg).2.2
        (tcpStream msgs) ns := by
  rw [ntmSockRecvThread, overwrite_whole, tcpStream_drop_size]

/-- If a `recv` returns less than a message, the thread handles something else for some contents of
its variable. -/
theorem exists_wrong_of_part (handle : σ → NtmSockBytes → ℤ × Bool × σ) (s : σ) (msg : NtmSockBytes)
    (msgs : List NtmSockBytes) (stream : List UInt8) {n : ℕ} (hn : n < ntmSockMsgSize) (ns : List ℕ)
    : ∃ incoming, ntmSockRecvThread handle incoming s stream (n :: ns) ≠ msg :: msgs := by
  obtain ⟨b, hb⟩ := exists_other_last msg
  refine ⟨fun _ => NtmSockBytes.fill b, fun heq => hb ?_⟩
  have hhead := ntmSockRecvThread_head? handle (fun _ => NtmSockBytes.fill b) s stream n ns
  rw [heq, List.head?_cons, Option.some_inj] at hhead
  have hshort : (stream.take n).length < ntmSockMsgSize := by
    rw [List.length_take]
    omega
  rw [hhead, overwrite_part hshort]

theorem keepsRunning_cons (hgoes : ¬ ((handle s msg).1 = -1 ∨ (handle s msg).2.1 = false)) :
    KeepsRunning handle s (msg :: msgs) ↔ KeepsRunning handle (handle s msg).2.2 msgs := by
  obtain ⟨hret, hrunning⟩ := not_or.mp hgoes
  cases msgs with
  | nil => exact Iff.rfl
  | cons msg' msgs =>
    rw [KeepsRunning]
    exact ⟨fun h => h.2.2, fun h => ⟨hret, Bool.not_eq_false _ ▸ hrunning, h⟩⟩

theorem keepsRunning_stop (hstop : (handle s msg).1 = -1 ∨ (handle s msg).2.1 = false) :
    KeepsRunning handle s (msg :: msgs) ↔ msgs = [] := by
  cases msgs with
  | nil => exact iff_of_true trivial rfl
  | cons msg' msgs =>
    refine iff_of_false ?_ (List.cons_ne_nil _ _)
    rintro ⟨hret, hrunning, -⟩
    rcases hstop with hstop | hstop
    · exact hret hstop
    · rw [hstop] at hrunning
      cases hrunning

/-- For every sequence of messages and every way in which TCP may deliver their bytes: the thread
handles exactly the messages sent, whatever its variable holds before, if and only if every `recv`
returns a whole message and the handler lets the loop go on after every message but the last. -/
theorem framing_iff (handle : σ → NtmSockBytes → ℤ × Bool × σ) (s : σ) (msgs : List NtmSockBytes)
    {ns : List ℕ} (hsplits : Splits ns (tcpStream msgs).length) :
    (∀ incoming, ntmSockRecvThread handle incoming s (tcpStream msgs) ns = msgs) ↔
      (∀ n ∈ ns, n = ntmSockMsgSize) ∧ KeepsRunning handle s msgs := by
  rw [tcpStream_length] at hsplits
  induction msgs generalizing s ns with
  | nil =>
      rw [List.length_nil, Nat.zero_mul] at hsplits
      rw [hsplits.eq_nil]
      exact iff_of_true (fun _ => rfl) ⟨fun _ hn => absurd hn List.not_mem_nil, trivial⟩
  | cons msg msgs ih =>
      cases ns with
      | nil =>
          have hsum := hsplits.sum
          rw [List.sum_nil, List.length_cons, Nat.succ_mul, ntmSockMsgSize] at hsum
          omega
      | cons n ns =>
          by_cases hn : n = ntmSockMsgSize
          · subst hn
            rw [List.length_cons, Nat.succ_mul, Nat.add_comm] at hsplits
            have htail := hsplits.tail
            simp only [ntmSockRecvThread_whole, List.forall_mem_cons, true_and]
            by_cases hstop : (handle s msg).1 = -1 ∨ (handle s msg).2.1 = false
            · -- the loop ends here, so this has to be the last message
              simp only [if_pos hstop, List.cons.injEq, true_and, keepsRunning_stop hstop]
              constructor
              · intro h
                obtain rfl := h fun _ => msg
                rw [List.length_nil, Nat.zero_mul] at htail
                rw [htail.eq_nil]
                exact ⟨fun _ hn => absurd hn List.not_mem_nil, rfl⟩
              · rintro ⟨-, rfl⟩ _
                rfl
            · simp only [if_neg hstop, List.cons.injEq, true_and]
              rw [keepsRunning_cons hstop, ← ih (handle s msg).2.2 htail]
              constructor
              · intro h incoming
                exact h fun i => incoming (i - 1)
              · intro h incoming
                exact h fun i => incoming (i + 1)
          · have hlt : n < ntmSockMsgSize :=
              lt_of_le_of_ne (hsplits.le n List.mem_cons_self) hn
            refine iff_of_false ?_ fun hfull => hn (hfull.1 n List.mem_cons_self)
            intro h
            obtain ⟨incoming, hwrong⟩ :=
              exists_wrong_of_part handle s msg msgs (tcpStream (msg :: msgs)) hlt ns
            exact hwrong (h incoming)

section Sample

def goOn (_ : Unit) (_ : NtmSockBytes) : ℤ × Bool × Unit := (0, true, ())

theorem splits_two_messages :
    Splits [ntmSockMsgSize, ntmSockMsgSize]
      (tcpStream [NtmSockBytes.fill 1, NtmSockBytes.fill 2]).length := by
  rw [tcpStream_length]
  exact ⟨by decide, by decide, rfl⟩

theorem framing_iff_two_messages :
    ntmSockRecvThread goOn (fun _ => .fill 0) () (tcpStream [.fill 1, .fill 2])
      [ntmSockMsgSize, ntmSockMsgSize] = [.fill 1, .fill 2] :=
  (framing_iff goOn () [.fill 1, .fill 2] splits_two_messages).mpr
    ⟨by decide, by decide, by decide, trivial⟩ _

theorem splits_first_byte : Splits [1, 1044] (tcpStream [NtmSockBytes.fill 1]).length := by
  rw [tcpStream_length]
  exact ⟨by decide, by decide, rfl⟩

/-- One message is sent, TCP delivers its first byte before the rest, and the thread handles two
messages. -/
theorem partial_recv_handled_twice :
    Splits [1, 1044] (tcpStream [NtmSockBytes.fill 1]).length ∧
      (ntmSockRecvThread goOn (fun _ => .fill 0) () (tcpStream [.fill 1]) [1, 1044]).length = 2 ∧
        ntmSockRecvThread goOn (fun _ => .fill 0) () (tcpStream [.fill 1]) [1, 1044] ≠
          [.fill 1] := by
  have htwo : (ntmSockRecvThread goOn (fun _ => .fill 0) () (tcpStream [.fill 1])
      [1, 1044]).length = 2 := rfl
  refine ⟨splits_first_byte, htwo, fun heq => ?_⟩
  rw [heq] at htwo
  cases htwo

end Sample

end NtSocks.Ntm
