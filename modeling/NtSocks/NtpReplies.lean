import NtSocks.Handshake

/-!
# Handlers that share the proxy

Each TCP connection of a monitor has a receiving thread. A handler that needs the proxy pushes its
request on the one ring to the proxy and then takes the next answer from the one ring back,
whichever request that answers.
-/

namespace NtSocks.Ntm

open Function

inductive Waiting
  | syn (ntmConn : NtmConn) (msg : NtmSockMsg) (pending : SynPending)
  | synAck (msg : NtmSockMsg) (socket : ℕ)

def Waiting.request : Waiting → NtmNtpMsg
  | .syn _ msg _ => createConnRequest msg (-1)
  | .synAck msg _ => createConnRequest msg (int8 msg.partitionId.toNat)

/-- An answer on the ring from the proxy, with the thread whose request it answers and the partition
in which the proxy has put the connection. -/
structure OwnedReply (T : Type*) where
  owner : T
  partition : ℕ
  msg : NtpNtmMsg

/-- A monitor with its threads and its proxy, oldest request and oldest answer first. A request has
its thread with it. `pushed` has the threads in the order of their pushes, until they take an answer
or the proxy fails to make one. -/
structure ThreadedHost (T : Type*) where
  ntm : NtmManager
  ntp : NtbLinkCustom
  waiting : T → Option Waiting
  requests : List (T × NtmNtpMsg)
  replies : List (OwnedReply T)
  sent : List NtmSockMsg
  pushed : List T

inductive ThreadAct (T : Type*)
  | syn (t : T) (ntmConn : NtmConn) (msg : NtmSockMsg)
  | synAck (t : T) (msg : NtmSockMsg)
  | ntp
  | pop (t : T)

namespace ThreadedHost

variable {T : Type*} [DecidableEq T] (shmAccept : String → Bool) (s : ThreadedHost T)

def push (t : T) (ntm : NtmManager) (w : Waiting) : ThreadedHost T :=
  { s with
    ntm := ntm
    waiting := update s.waiting t (some w)
    requests := s.requests ++ [(t, w.request)]
    pushed := s.pushed ++ [t] }

def finish (t : T) (replies : List (OwnedReply T)) (ntm : NtmManager) (out : List NtmSockMsg) :
    ThreadedHost T :=
  { s with
    ntm := ntm
    waiting := update s.waiting t none
    replies := replies
    sent := s.sent ++ out
    pushed := s.pushed.erase t }

def answerOldest : Option (ThreadedHost T) :=
  match s.requests with
  | [] => none
  | (t, request) :: requests =>
    match s.ntp.ntpCreateConnHandler shmAccept request with
    | (none, ntp) => some { s with ntp := ntp, requests := requests, pushed := s.pushed.erase t }
    | (some msg, ntp) =>
      some { s with
        ntp := ntp
        requests := requests
        replies := s.replies ++
          [{ owner := t, partition := (ntp.partitionOf request).getD 0, msg := msg }] }

/-- A thread that waits handles no other message. -/
def step : ThreadAct T → Option (ThreadedHost T)
  | .syn t ntmConn msg =>
    if (s.waiting t).isSome then none
    else
      match s.ntm.findBacklog msg with
      | .error type => some { s with sent := s.sent ++ [answer msg type] }
      | .ok w =>
        (s.ntm.allocateClient msg w).map fun (pending, ntm) =>
          s.push t ntm (.syn ntmConn msg pending)
  | .synAck t msg =>
    if (s.waiting t).isSome ∨ msg.sockid ≤ 0 then none
    else
      match s.ntm.synAckSocket msg with
      | none => some s
      | some i => some (s.push t s.ntm (.synAck msg i))
  | .ntp => s.answerOldest shmAccept
  | .pop t =>
    match s.waiting t, s.replies with
    | some (.syn ntmConn msg pending), reply :: replies =>
      let (ntm, out) := s.ntm.synFinish ntmConn msg pending reply.msg
      some (s.finish t replies ntm out)
    | some (.synAck msg i), reply :: replies =>
      (s.ntm.synAckFinish msg i reply.msg).map fun (ntm, out) => s.finish t replies ntm out
    | _, _ => none

/-- The partition in a `NT_SYN_ACK` is the one of the accepted connection, and the proxy of the
other end uses it as well. -/
structure SamePartition (partition : ℕ) (ack : NtmSockMsg) : Prop where
  sent : ack.partitionId.toNat = partition
  used : ∀ (link link' : NtbLinkCustom) (shmAccept : String → Bool) (reply : NtpNtmMsg),
    link.ntpCreateConnHandler shmAccept
        (createConnRequest ack (int8 ack.partitionId.toNat)) = (some reply, link') →
      link'.partitionOf (createConnRequest ack (int8 ack.partitionId.toNat)) = some partition

/-- A thread that takes an answer takes the one to its own request. -/
def Correct (s : ThreadedHost T) : ThreadAct T → Prop
  | .pop t => ∀ w reply replies, s.waiting t = some w → s.replies = reply :: replies →
      reply.owner = t ∧ ∀ ntmConn msg pending, w = .syn ntmConn msg pending →
        SamePartition reply.partition (NtmManager.synAck msg pending reply.msg)
  | _ => True

def OldestFirst (s : ThreadedHost T) : ThreadAct T → Prop
  | .pop t => (s.waiting t).isSome → s.replies ≠ [] → s.pushed.head? = some t
  | _ => True

variable {s : ThreadedHost T} {shmAccept : String → Bool} {replies : List (OwnedReply T)}
  {reply : OwnedReply T} {s' : ThreadedHost T} {t : T}

structure Answers (w : Waiting) (reply : OwnedReply T) : Prop where
  msg : reply.msg = NtbLinkCustom.ntpCreateConnAck reply.partition w.request
  lt : w.request.partitionId < 0 → reply.partition < maxNumPartition

/-- The answers and the requests are in the order of the pushes. -/
structure Inv (s : ThreadedHost T) : Prop where
  pushed : s.pushed = s.replies.map OwnedReply.owner ++ s.requests.map Prod.fst
  nodup : s.pushed.Nodup
  requests : ∀ t request, (t, request) ∈ s.requests →
    ∃ w, s.waiting t = some w ∧ request = w.request
  replies : ∀ reply ∈ s.replies, ∃ w, s.waiting reply.owner = some w ∧ Answers w reply

omit [DecidableEq T] in
theorem Inv.waiting (h : s.Inv) (ht : t ∈ s.pushed) : (s.waiting t).isSome := by
  rcases List.mem_append.mp (h.pushed ▸ ht) with hreply | hrequest
  · obtain ⟨reply, hmem, rfl⟩ := List.mem_map.mp hreply
    obtain ⟨w, hw, -⟩ := h.replies reply hmem
    rw [hw]
    rfl
  · obtain ⟨⟨t, request⟩, hmem, rfl⟩ := List.mem_map.mp hrequest
    obtain ⟨w, hw, -⟩ := h.requests t request hmem
    rw [hw]
    rfl

theorem Inv.push (h : s.Inv) (hidle : s.waiting t = none) (ntm : NtmManager) (w : Waiting) :
    (s.push t ntm w).Inv := by
  have hnew : t ∉ s.pushed := by
    intro ht
    have hwaiting := h.waiting ht
    rw [hidle] at hwaiting
    cases hwaiting
  have hothers : ∀ t' w', s.waiting t' = some w' → update s.waiting t (some w) t' = some w' := by
    intro t' w' hw'
    have hne : t' ≠ t := by
      rintro rfl
      rw [hidle] at hw'
      cases hw'
    rw [update_of_ne hne, hw']
  refine ⟨?_, h.nodup.append (List.nodup_singleton t) (List.disjoint_singleton.mpr hnew), ?_, ?_⟩
  · simp [ThreadedHost.push, h.pushed]
  · intro t' request hmem
    rcases List.mem_append.mp hmem with hold | hlast
    · obtain ⟨w', hw', hrequest⟩ := h.requests t' request hold
      exact ⟨w', hothers t' w' hw', hrequest⟩
    · cases List.mem_singleton.mp hlast
      exact ⟨w, update_self t _ s.waiting, rfl⟩
  · intro reply hmem
    obtain ⟨w', hw', hanswers⟩ := h.replies reply hmem
    exact ⟨w', hothers _ w' hw', hanswers⟩

theorem Inv.answerOldest (h : s.Inv) (hstep : s.answerOldest shmAccept = some s') : s'.Inv := by
  rw [ThreadedHost.answerOldest] at hstep
  split at hstep
  · cases hstep
  case h_2 t request requests hrequests =>
    have hpushed := h.pushed
    rw [hrequests, List.map_cons] at hpushed
    have hrest : ∀ t' request', (t', request') ∈ requests →
        ∃ w, s.waiting t' = some w ∧ request' = w.request := fun t' request' hmem =>
      h.requests t' request' (hrequests ▸ List.mem_cons_of_mem _ hmem)
    split at hstep
    · cases hstep
      refine ⟨?_, h.nodup.erase t, hrest, h.replies⟩
      have hnodup := hpushed ▸ h.nodup
      have hnew : t ∉ s.replies.map OwnedReply.owner := fun ht =>
        List.disjoint_of_nodup_append hnodup ht List.mem_cons_self
      change s.pushed.erase t = _
      rw [hpushed, List.erase_append_right _ hnew, List.erase_cons_head]
    case h_2 msg ntp hanswer =>
      cases hstep
      obtain ⟨partition, rfl, hpartition, hchosen⟩ :=
        NtbLinkCustom.ntpCreateConnHandler_answers hanswer
      obtain ⟨w, hw, rfl⟩ := h.requests t request (hrequests ▸ List.mem_cons_self)
      refine ⟨?_, h.nodup, hrest, ?_⟩
      · simpa using hpushed
      · intro reply hmem
        rcases List.mem_append.mp hmem with hold | hlast
        · exact h.replies reply hold
        · cases List.mem_singleton.mp hlast
          refine ⟨w, hw, ?_, fun hneg => ?_⟩
          · rw [hpartition]
            rfl
          · simp only [hpartition, Option.getD_some]
            rw [hchosen, if_neg (not_le.mpr hneg)]
            exact s.ntp.roundRobinIdx_lt.trans_le s.ntp.numPartition_le

theorem Inv.finish (h : s.Inv) (hreplies : s.replies = reply :: replies) (ntm : NtmManager)
    (out : List NtmSockMsg) : (s.finish reply.owner replies ntm out).Inv := by
  have hpushed := h.pushed
  rw [hreplies, List.map_cons, List.cons_append] at hpushed
  have hnew := (List.nodup_cons.mp (hpushed ▸ h.nodup)).1
  have hothers : ∀ t ∈ replies.map OwnedReply.owner ++ s.requests.map Prod.fst,
      update s.waiting reply.owner none t = s.waiting t := by
    intro t ht
    have hne : t ≠ reply.owner := by
      rintro rfl
      exact hnew ht
    exact update_of_ne hne _ _
  refine ⟨?_, h.nodup.erase _, ?_, ?_⟩
  · change s.pushed.erase reply.owner = _
    rw [hpushed, List.erase_cons_head]
    rfl
  · intro t request hmem
    obtain ⟨w, hw, hrequest⟩ := h.requests t request hmem
    refine ⟨w, ?_, hrequest⟩
    exact (hothers t (List.mem_append_right _ (List.mem_map_of_mem (f := Prod.fst) hmem))).trans hw
  · intro reply' hmem
    obtain ⟨w, hw, hanswers⟩ := h.replies reply' (hreplies ▸ List.mem_cons_of_mem _ hmem)
    refine ⟨w, ?_, hanswers⟩
    exact (hothers _ (List.mem_append_left _ (List.mem_map_of_mem hmem))).trans hw

omit [DecidableEq T] in
theorem Inv.head_pushed (h : s.Inv) (hreplies : s.replies = reply :: replies) :
    s.pushed.head? = some reply.owner := by
  rw [h.pushed, hreplies]
  rfl

omit [DecidableEq T] in
theorem OldestFirst.owner {w : Waiting} (h : s.OldestFirst (.pop t)) (hinv : s.Inv)
    (hw : s.waiting t = some w) (hreplies : s.replies = reply :: replies) : reply.owner = t := by
  have hhead := h (by rw [hw]; rfl) (by rw [hreplies]; exact List.cons_ne_nil _ _)
  exact Option.some.inj ((hinv.head_pushed hreplies).symm.trans hhead)

theorem Inv.step {a : ThreadAct T} (h : s.Inv) (holdest : s.OldestFirst a)
    (hstep : s.step shmAccept a = some s') : s'.Inv := by
  cases a with
  | syn t ntmConn msg =>
    simp only [ThreadedHost.step] at hstep
    split at hstep
    · cases hstep
    case isFalse hidle =>
      split at hstep
      · cases hstep
        exact ⟨h.pushed, h.nodup, h.requests, h.replies⟩
      · obtain ⟨⟨pending, ntm⟩, -, rfl⟩ := Option.map_eq_some_iff.mp hstep
        exact h.push (Option.not_isSome_iff_eq_none.mp hidle) ntm _
  | synAck t msg =>
    simp only [ThreadedHost.step] at hstep
    split at hstep
    · cases hstep
    case isFalse hidle =>
      split at hstep
      · cases hstep
        exact h
      · cases hstep
        exact h.push (Option.not_isSome_iff_eq_none.mp (not_or.mp hidle).1) s.ntm _
  | ntp => exact h.answerOldest hstep
  | pop t =>
    simp only [ThreadedHost.step] at hstep
    split at hstep
    case h_1 hw hreplies =>
      cases hstep
      obtain rfl := holdest.owner h hw hreplies
      exact h.finish hreplies _ _
    case h_2 hw hreplies =>
      obtain ⟨⟨ntm, out⟩, -, rfl⟩ := Option.map_eq_some_iff.mp hstep
      obtain rfl := holdest.owner h hw hreplies
      exact h.finish hreplies ntm out
    · cases hstep

omit [DecidableEq T] in
theorem Answers.samePartition {ntmConn : NtmConn} {msg : NtmSockMsg} {pending : SynPending}
    (h : Answers (.syn ntmConn msg pending) reply) :
    SamePartition reply.partition (NtmManager.synAck msg pending reply.msg) := by
  have hneg : (createConnRequest msg (-1)).partitionId < 0 := Int.negSucc_lt_zero 0
  have hlt : reply.partition < 128 := (h.lt hneg).trans (by decide)
  have hsent : (NtmManager.synAck msg pending reply.msg).partitionId.toNat = reply.partition := by
    have hpartition : reply.msg.partitionId = some (int8 reply.partition) := by
      rw [h.msg]
      simp only [NtbLinkCustom.ntpCreateConnAck, Waiting.request]
      exact if_pos hneg
    rw [NtmManager.synAck, hpartition, Option.getD_some, ofInt_int8 hlt, UInt8.toNat_ofNat']
    exact Nat.mod_eq_of_lt (hlt.trans (by decide))
  refine ⟨hsent, fun link link' shmAccept answer hanswer => ?_⟩
  obtain ⟨partition, -, hpartition, hchosen⟩ :=
    NtbLinkCustom.ntpCreateConnHandler_answers hanswer
  rw [hpartition, hchosen, createConnRequest, hsent, int8_of_lt hlt,
    if_pos (Int.natCast_nonneg _), Int.toNat_natCast]

omit [DecidableEq T] in
theorem Inv.correct_iff (h : s.Inv) (a : ThreadAct T) : s.Correct a ↔ s.OldestFirst a := by
  cases a with
  | syn | synAck | ntp => exact Iff.rfl
  | pop t =>
    constructor
    · intro hcorrect hwaiting hreplies
      obtain ⟨w, hw⟩ := Option.isSome_iff_exists.mp hwaiting
      obtain ⟨reply, replies, hcons⟩ := List.exists_cons_of_ne_nil hreplies
      obtain ⟨rfl, -⟩ := hcorrect w reply replies hw hcons
      exact h.head_pushed hcons
    · intro holdest w reply replies hw hreplies
      obtain rfl := holdest.owner h hw hreplies
      refine ⟨rfl, ?_⟩
      rintro ntmConn msg pending rfl
      obtain ⟨w', hw', hanswers⟩ := h.replies reply (hreplies ▸ List.mem_cons_self)
      rw [hw] at hw'
      cases hw'
      exact hanswers.samePartition

def Idle (s : ThreadedHost T) : Prop :=
  s.requests = [] ∧ s.replies = [] ∧ s.pushed = [] ∧ ∀ t, s.waiting t = none

omit [DecidableEq T] in
theorem Idle.inv (h : s.Idle) : s.Inv := by
  obtain ⟨hrequests, hreplies, hpushed, -⟩ := h
  refine ⟨?_, ?_, ?_, ?_⟩
  · rw [hpushed, hrequests, hreplies]
    rfl
  · rw [hpushed]
    exact List.nodup_nil
  · rw [hrequests]
    exact fun _ _ hmem => absurd hmem List.not_mem_nil
  · rw [hreplies]
    exact fun _ hmem => absurd hmem List.not_mem_nil

/-- For any number of threads and every run from an idle state: each handler takes the answer to its
own request, so that `NT_SYN_ACK` carries the partition of the connection and both ends use it, if
and only if an answer is taken only by the thread whose push is the oldest. -/
theorem own_replies_iff (hidle : s.Idle) (as : List (ThreadAct T)) :
    Runs.Along (step shmAccept) Correct s as ↔ Runs.Along (step shmAccept) OldestFirst s as :=
  Runs.along_congr (C := fun _ => True) (fun _ a hinv _ => hinv.correct_iff a)
    (fun _ _ _ hinv _ holdest hstep => hinv.step holdest hstep) hidle.inv (fun _ _ => trivial)

section Sample

def sampleThreads : ThreadedHost Bool where
  ntm := sampleListener
  ntp := sampleLink
  waiting := fun _ => none
  requests := []
  replies := []
  sent := []
  pushed := []

def sampleSyn (port : UInt16) : NtmSockMsg where
  srcAddr := 0
  dstAddr := 0
  sport := htons port
  dport := htons 5
  sockid := 0
  type := .ntSyn
  partitionId := 0

def bothAnswered : List (ThreadAct Bool) :=
  [.syn false { ip := 0, clientSock := 0 } (sampleSyn 3),
    .syn true { ip := 1, clientSock := 1 } (sampleSyn 4), .ntp, .ntp]

theorem sampleThreads_idle : sampleThreads.Idle := ⟨rfl, rfl, rfl, fun _ => rfl⟩

theorem own_replies_iff_in_turn :
    Runs.Along (step fun _ => true) Correct sampleThreads
      (bothAnswered ++ [.pop false, .pop true]) := by
  refine (own_replies_iff sampleThreads_idle _).mpr ⟨trivial, fun s₁ h₁ => ⟨trivial, fun s₂ h₂ =>
    ⟨trivial, fun s₃ h₃ => ⟨trivial, fun s₄ h₄ => ⟨fun _ _ => ?_, fun s₅ h₅ =>
      ⟨fun _ _ => ?_, fun _ _ => trivial⟩⟩⟩⟩⟩⟩
  · cases h₁; cases h₂; cases h₃; cases h₄
    rfl
  · cases h₁; cases h₂; cases h₃; cases h₄; cases h₅
    rfl

/-- The second thread is quicker: it takes the answer to the first one's request and sends the
partition 1 for its connection, which the proxy has put into the partition 0. -/
theorem second_thread_takes_first_reply :
    sampleThreads.Idle ∧
      ¬ Runs.Along (step fun _ => true) Correct sampleThreads (bothAnswered ++ [.pop true]) ∧
      ∃ s', Runs.run (step fun _ => true) sampleThreads (bothAnswered ++ [.pop true]) = some s' ∧
        s'.sent.map NtmSockMsg.partitionId = [1] ∧
        s'.ntp.partitionOf (createConnRequest (sampleSyn 4) (-1)) = some 0 := by
  refine ⟨sampleThreads_idle, fun hcorrect => ?_, _, rfl, rfl, rfl⟩
  cases (hcorrect.at_step bothAnswered [] rfl _ _ _ rfl rfl).1

end Sample

end ThreadedHost

end NtSocks.Ntm
