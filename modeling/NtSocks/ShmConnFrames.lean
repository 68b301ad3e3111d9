import NtSocks.HandshakeSteps
import NtSocks.MonitorUpdates

/-!
# What the handlers do to the rings of the library

Whatever a handler does, it only appends responses to the rings of the records that exist, and it
enters new records, with empty rings, where none was before.
-/

namespace NtSocks.Ntm

open Function

open NtSocks.Ntm.NtSockContext (sockid)

def NtmManager.Bounded (mgr : NtmManager) : Prop :=
  ∀ id c, mgr.ntsShmConnMap id = some c → c < mgr.nextShmConn

def NtmManager.sentTo (mgr : NtmManager) (c : ℕ) : List NtsMsg :=
  (mgr.shmConns c).ntsShmCtx.getD []

namespace NtmManager

variable {mgr mgr' : NtmManager} {msg : NtsMsg}

theorem ntsShmSend_sentTo {c : ℕ} (h : mgr.ntsShmSend c msg = some mgr') :
    mgr'.sentTo c = mgr.sentTo c ++ [msg] := by
  obtain ⟨ring, hring, rfl⟩ := Option.map_eq_some_iff.mp h
  rw [sentTo, sentTo, hring, setRing_ntsShmCtx]
  rfl

theorem ntsShmSend_sentTo_of_ne {c d : ℕ} (h : mgr.ntsShmSend c msg = some mgr') (hd : d ≠ c) :
    mgr'.sentTo d = mgr.sentTo d := by
  obtain ⟨ring, -, rfl⟩ := Option.map_eq_some_iff.mp h
  rw [sentTo, sentTo, setRing, mgr.modifyShmConn_of_ne hd]

end NtmManager

structure Extends (mgr mgr' : NtmManager) : Prop where
  next : mgr.nextShmConn ≤ mgr'.nextShmConn
  sent : ∀ c, c < mgr.nextShmConn → mgr.sentTo c <+: mgr'.sentTo c
  bounded : mgr.Bounded → mgr'.Bounded

namespace Extends

variable {mgr mgr' mgr'' : NtmManager}

theorem of_eq (hnext : mgr'.nextShmConn = mgr.nextShmConn) (hconns : mgr'.shmConns = mgr.shmConns)
    (hmap : mgr'.ntsShmConnMap = mgr.ntsShmConnMap) : Extends mgr mgr' where
  next := hnext.ge
  sent := fun c _ => by
    rw [NtmManager.sentTo, NtmManager.sentTo, hconns]
  bounded := fun h => by
    intro id c hc
    rw [hmap] at hc
    rw [hnext]
    exact h id c hc

theorem refl (mgr : NtmManager) : Extends mgr mgr := of_eq rfl rfl rfl

theorem trans (h : Extends mgr mgr') (h' : Extends mgr' mgr'') : Extends mgr mgr'' where
  next := h.next.trans h'.next
  sent := fun c hc => (h.sent c hc).trans (h'.sent c (hc.trans_le h.next))
  bounded := fun hbounded => h'.bounded (h.bounded hbounded)

theorem modifyShmConn (mgr : NtmManager) (c : ℕ) {f : NtsShmConn → NtsShmConn}
    (hf : ∀ conn, (f conn).ntsShmCtx.getD [] = conn.ntsShmCtx.getD []) :
    Extends mgr (mgr.modifyShmConn c f) where
  next := le_rfl
  sent := fun d _ => by
    have hring := mgr.modifyShmConn_field (fun conn => conn.ntsShmCtx.getD []) hf c d
    rw [NtmManager.sentTo, NtmManager.sentTo, hring]
  bounded := fun h => h

theorem ntsShmSend {c : ℕ} {msg : NtsMsg} (h : mgr.ntsShmSend c msg = some mgr') :
    Extends mgr mgr' where
  next := by
    obtain ⟨ring, -, rfl⟩ := Option.map_eq_some_iff.mp h
    exact le_rfl
  sent := fun d _ => by
    by_cases hd : d = c
    · rw [hd, NtmManager.ntsShmSend_sentTo h]
      exact List.prefix_append _ _
    · rw [NtmManager.ntsShmSend_sentTo_of_ne h hd]
  bounded := fun hbounded => by
    obtain ⟨ring, -, rfl⟩ := Option.map_eq_some_iff.mp h
    exact hbounded

theorem setShmConn (mgr : NtmManager) (id : ℤ) : Extends mgr (mgr.setShmConn id none) where
  next := le_rfl
  sent := fun _ _ => List.prefix_rfl
  bounded := fun h => (forall_update_iff mgr.ntsShmConnMap fun _ conn => ∀ c, conn = some c →
    c < mgr.nextShmConn).mpr ⟨fun _ => nofun, fun id' _ => h id'⟩

theorem of_new {id : ℤ} (hnext : mgr'.nextShmConn = mgr.nextShmConn + 1)
    (hmap : mgr'.ntsShmConnMap = update mgr.ntsShmConnMap id (some mgr.nextShmConn))
    (hconns : ∀ c, c < mgr.nextShmConn → mgr'.shmConns c = mgr.shmConns c) : Extends mgr mgr' where
  next := by
    rw [hnext]
    exact Nat.le_succ _
  sent := fun c hc => by rw [NtmManager.sentTo, NtmManager.sentTo, hconns c hc]
  bounded := fun h => by
    rw [NtmManager.Bounded, hnext, hmap]
    refine (forall_update_iff _ fun _ conn => ∀ c, conn = some c → c < _).mpr
      ⟨?_, fun id' _ c hc => (h id' c hc).trans (Nat.lt_succ_self _)⟩
    rintro _ ⟨⟩
    exact Nat.lt_succ_self _

end Extends

variable {mgr mgr' : NtmManager}

theorem Update.extends (h : Update mgr mgr') : Extends mgr mgr' := by
  cases h with
  | tables hnext hconns hmap hfree hevents => exact Extends.of_eq hnext hconns hmap
  | notify c i | allocate h | free i => exact Extends.of_eq rfl rfl rfl
  | record c hf => exact Extends.modifyShmConn mgr c hf
  | send reply h => exact Extends.ntsShmSend h
  | newRecord h => exact Extends.of_new rfl rfl fun c hc => update_of_ne hc.ne _ _
  | forget id => exact Extends.setShmConn mgr id

theorem Updates.extends (h : Updates mgr mgr') : Extends mgr mgr' := by
  induction h with
  | refl => exact Extends.refl mgr
  | tail _ hupdate ih => exact ih.trans hupdate.extends

namespace NtmManager

variable {mgr mgr' : NtmManager}

variable {out : List NtmSockMsg}

/-- `reply` is among what the library of the record `c` is sent between two states. -/
def NewlySent (mgr mgr' : NtmManager) (c : ℕ) (reply : NtsMsg) : Prop :=
  ∃ more, mgr'.sentTo c = mgr.sentTo c ++ more ∧ reply ∈ more

theorem newlySent_of_send {mgr₁ mgr₂ : NtmManager} {c : ℕ} {reply : NtsMsg}
    (hc : c < mgr.nextShmConn) (hbefore : Extends mgr mgr₁)
    (hsend : mgr₁.ntsShmSend c reply = some mgr₂) (hafter : Extends mgr₂ mgr') :
    NewlySent mgr mgr' c reply := by
  obtain ⟨more, hmore⟩ := hbefore.sent c hc
  have hc' : c < mgr₂.nextShmConn :=
    hc.trans_le (hbefore.next.trans (Extends.ntsShmSend hsend).next)
  obtain ⟨rest, hrest⟩ := hafter.sent c hc'
  refine ⟨more ++ reply :: rest, ?_, by simp⟩
  rw [← hrest, ntsShmSend_sentTo hsend, ← hmore]
  simp

/-- A request to connect is refused, or it is dispatched and a `NT_SYN` goes out, unless TCP does
not send. -/
theorem handleMsgNtsConnect_cases {tcp : Tcp} {msg : NtmMsg} {uninitialised : Option ℕ}
    (hbounded : mgr.Bounded)
    (h : mgr.handleMsgNtsConnect tcp msg uninitialised = some (mgr', out)) :
    ∃ c, mgr.ntsShmConnMap msg.sockid = some c ∧
      ((∃ reply, NewlySent mgr mgr' c reply ∧ reply.retval = some (-1)) ∨
        (∃ reply syn, NewlySent mgr mgr' c reply ∧ reply.msgType = .dispatched ∧ out = [syn] ∧
          syn.type = .ntSyn) ∨ tcp.sends = false) := by
  obtain ⟨c, hrecord, ⟨ntErrno, hrefuse⟩ | ⟨-, ⟨hsend, -⟩ | ⟨ntmConn, mgr₁, port, mgr₂, hremote,
    hport, hend⟩⟩⟩ := handleMsgNtsConnect_paths h
  all_goals have hc := hbounded _ c hrecord
  · obtain ⟨mgr₁, hsend, heq⟩ := Option.map_eq_some_iff.mp hrefuse
    cases heq
    exact ⟨c, hrecord, .inl ⟨_, newlySent_of_send hc (Extends.refl mgr) hsend
      (connectFail_update mgr₁ _ _).extends, rfl⟩⟩
  · have hcache := (cacheServer_update mgr msg c).extends
    exact ⟨c, hrecord, .inl ⟨_, newlySent_of_send hc hcache hsend (Extends.refl mgr'), rfl⟩⟩
  · rcases hend with ⟨syn, rfl, rfl, hsend⟩ | ⟨hsends, -⟩
    · have hready : Updates mgr mgr₂ := .head (cacheServer_update mgr msg c)
        ((remoteMonitor_updates hremote).tail (allocateSourcePort_update hport))
      exact ⟨c, hrecord, .inr (.inl ⟨_, _, newlySent_of_send hc hready.extends hsend
        (Extends.refl mgr'), rfl, rfl, rfl⟩)⟩
    · exact ⟨c, hrecord, .inr (.inr hsends)⟩

end NtmManager

theorem SynAckEntered.newlySent {msg : NtmSockMsg} {i c : ℕ} (h : SynAckEntered mgr mgr' msg i)
    (hrecord : mgr.ntsShmConnMap (sockid i) = some c) :
    NtmManager.NewlySent mgr mgr' c (NtmManager.established i) := by
  obtain ⟨ring, hring, hconn⟩ := h.conn c hrecord
  refine ⟨[NtmManager.established i], ?_, List.mem_singleton_self _⟩
  rw [NtmManager.sentTo, NtmManager.sentTo, hconn, hring]
  rfl

end NtSocks.Ntm
