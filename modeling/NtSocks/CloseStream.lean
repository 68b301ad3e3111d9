import NtSocks.ByteStream

/-!
# Reading up to the close

`nts_close` puts the closing message behind the data, so a reader meets it last. A read that finds
it at the head of the ring returns `-1` with nothing lost. A read that has copied messages of full
size and still has room goes on to the next message, and when that is the closing message it
returns `-1` too: the bytes it has copied are not reported.
-/

namespace NtSocks

/-- The ring holds messages of full size in front of the closing message, and the buffer of the
call is larger than all of them. -/
def NtSockContext.LosesData (cfg : NtsConfig) (sock : NtSockContext) (nbytes : ℕ) : Prop :=
  ∃ d ds, sock.ntpRecvCtx = d :: ds ++ [finMsg] ∧ sock.Starves cfg (d :: ds) nbytes

theorem not_dataMsg_finMsg {cfg : NtsConfig} : ¬ finMsg.DataMsg cfg := by
  intro h
  exact absurd h.data (by decide)

namespace Stream

variable {cfg : NtsConfig} {s s' : Stream} {nbytes : ℕ} {a : StreamAct}

theorem receiver_established_of_step (hstep : s.step cfg a = some s')
    (hopen : s'.receiver.state = .established) : s.receiver.state = .established := by
  cases a with
  | write buf =>
    simp only [step, Option.map_eq_some_iff] at hstep
    obtain ⟨_, -, rfl⟩ := hstep
    exact hopen
  | transfer =>
    simp only [step, Stream.transfer] at hstep
    split at hstep <;> cases hstep
    exact hopen
  | read nbytes =>
    by_contra hclosed
    have hread : s.receiver.ntsRead cfg nbytes = .returns (-1) [] s.receiver := by
      rw [NtSockContext.ntsRead, NtSockContext.ntsReadCopies, if_pos hclosed]
    simp only [step, hread] at hstep
    cases hstep
    exact hclosed hopen
  | close =>
    simp only [step] at hstep
    split at hstep <;> cases hstep
    exact hopen

theorem inv_step (hM : 0 < cfg.maxPayloadsize) (h : s.Inv cfg) (ha : a.Sized)
    (hstep : s.step cfg a = some s') (hopen : s'.receiver.state = .established) : s'.Inv cfg := by
  cases a with
  | write buf => exact h.write hM ha hstep
  | transfer => exact h.transfer hstep
  | read nbytes =>
    rcases h.read ha.1 ha.2 hstep with ⟨-, h'⟩ | ⟨-, hclosed⟩
    · exact h'
    · rw [hclosed] at hopen
      cases hopen
  | close => exact h.close hstep

theorem inv_run (hM : 0 < cfg.maxPayloadsize) {sockid sockid' : ℕ} {acts : List StreamAct}
    (hacts : ∀ a ∈ acts, a.Sized) (hrun : Runs.run (step cfg) (init sockid sockid') acts = some s)
    (hopen : s.receiver.state = .established) : s.Inv cfg := by
  refine Runs.invariant_of_forall_mem (I := fun s => s.receiver.state = .established → s.Inv cfg)
    ?_ (fun _ => .init hM _ _) hacts hrun hopen
  intro s a s' ih ha hstep hopen'
  exact inv_step hM (ih (receiver_established_of_step hstep hopen')) ha hstep hopen'

namespace Inv

variable {ds : List NtpMsg}

theorem sent_nil (h : Inv cfg s) (hring : s.receiver.ntpRecvCtx = ds ++ [finMsg]) :
    s.sender.ntpSendCtx = [] ∧ ∀ d ∈ ds, d.DataMsg cfg := by
  obtain ⟨es, hes, hrings⟩ := h.rings
  have hmem : finMsg ∈ s.finTail := by
    have : finMsg ∈ es ++ s.finTail := by
      rw [← hrings, hring]
      simp
    exact (List.mem_append.mp this).resolve_left fun hmem => not_dataMsg_finMsg (hes _ hmem)
  have hfin : s.finTail = [finMsg] := by
    rw [finTail] at hmem ⊢
    split at hmem
    case isTrue hclosed => rw [if_pos hclosed]
    · cases hmem
  rw [hring, hfin, List.append_assoc, List.singleton_append] at hrings
  rcases List.eq_nil_or_concat s.sender.ntpSendCtx with hnil | ⟨msgs, msg, hconcat⟩
  · rw [hnil] at hrings
    rw [List.append_cancel_right hrings]
    exact ⟨hnil, hes⟩
  · exfalso
    rw [hconcat, List.concat_eq_append, ← List.cons_append, ← List.append_assoc] at hrings
    obtain ⟨hall, -⟩ := List.append_inj' hrings rfl
    exact not_dataMsg_finMsg (hes finMsg (by rw [← hall]; simp))

theorem ready_fin (h : Inv cfg s) (hring : s.receiver.ntpRecvCtx = ds ++ [finMsg]) :
    s.receiver.Ready cfg ds [finMsg] :=
  ⟨h.receiver, hring, (h.sent_nil hring).2, h.carryOk⟩

theorem read_fails (h : Inv cfg s) (hpos : 0 < nbytes) (hlt : nbytes < 2 ^ 31)
    {buf : List UInt8} {receiver : NtSockContext}
    (hread : s.receiver.ntsRead cfg nbytes = .returns (-1) buf receiver) :
    ∃ ds, s.receiver.ntpRecvCtx = ds ++ [finMsg] ∧ s.receiver.Starves cfg ds nbytes ∧
      s.returned ++ payloads ds = s.written := by
  obtain ⟨ds, tail, us, hready, htail, hus, hunder⟩ := h.ready
  by_cases hstarves : s.receiver.Starves cfg ds nbytes
  · cases tail with
    | nil =>
      rw [(NtSockContext.ntsRead_starves hready (int32_of_lt hlt) hpos hstarves).1 rfl] at hread
      cases hread
    | cons fin ring =>
      have hring := hready.ring
      rw [(fin_of_behind htail).2] at hring
      have hcarry : s.receiver.carry = [] := by
        rw [NtSockContext.carry, hstarves.1]
        rfl
      refine ⟨ds, hring, hstarves, ?_⟩
      rw [← h.bytes, outstanding, hcarry, hring, (h.sent_nil hring).1]
      simp [finMsg]
  · obtain ⟨k, receiver', hread', -⟩ :=
      NtSockContext.ntsRead_takes hready (int32_of_lt hlt) hpos hstarves
    rw [hread'] at hread
    have := (ReadOutcome.returns.inj hread).1
    omega

end Inv

end Stream

def shortMessageRead : Stream where
  sender := { NtSockContext.fresh 0 with state := .waitFin }
  receiver := { NtSockContext.fresh 1 with ntpRecvCtx := [finMsg] }
  written := [1, 2, 3]
  returned := [1, 2, 3]

end NtSocks
