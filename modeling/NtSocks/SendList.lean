import NtSocks.ConnTable
import NtSocks.Lib.CircularList

/-!
# The send list of a partition

The connections of a partition stand in a circular list of nodes that begins with a sentinel. A new
connection is inserted before the sentinel; the send thread goes round the list, serves the
connection after its cursor `pre_node` and moves on, or takes the connection out if it was closed.
An insertion and an iteration of the thread are the steps.

`log` is a history: which connections were added and what each iteration did.
-/

namespace NtSocks

open Function

structure NtpSendListNode where
  conn : Option ConnPtr
  nextNode : ℕ
  deriving DecidableEq, Repr

inductive SendEvent
  | added (c : ConnPtr)
  | passedHead
  | visited (c : ConnPtr)
  | removed (c : ConnPtr)
  deriving DecidableEq, Repr

def SendEvent.serves (c : ConnPtr) (e : SendEvent) : Bool :=
  e = .visited c || e = .removed c

/-- The list of a partition and the cursor of its send thread. A node that is not allocated is
`none`. -/
structure SendList where
  nodes : ℕ → Option NtpSendListNode
  ringHead : ℕ
  ringTail : ℕ
  preNode : ℕ
  connState : ConnPtr → ConnState
  log : List SendEvent

/-- The insertion of a new connection, for which `malloc` returns `node`; a connection whose state
changes; an iteration of the send thread. -/
inductive SendAct
  | add (conn : ConnPtr) (node : ℕ)
  | setState (c : ConnPtr) (state : ConnState)
  | iterate

namespace SendList

def start (head : ℕ) (connState : ConnPtr → ConnState) : SendList where
  nodes := update (fun _ => none) head (some { conn := none, nextNode := head })
  ringHead := head
  ringTail := head
  preNode := head
  connState := connState
  log := []

variable (s : SendList)

def Closed (c : ConnPtr) : Prop := s.connState c = .passiveClose ∨ s.connState c = .activeClose

instance (c : ConnPtr) : Decidable (s.Closed c) := inferInstanceAs (Decidable (_ ∨ _))

def addConnToNtbSendList (conn : ConnPtr) (node : ℕ) : Option SendList :=
  match s.nodes s.ringTail with
  | none => none
  | some tail =>
    let listNode : NtpSendListNode := { conn := some conn, nextNode := s.ringHead }
    some { s with
      nodes := update (update s.nodes node (some listNode)) s.ringTail
        (some { tail with nextNode := node })
      ringTail := node
      log := s.log ++ [.added conn] }

/-- One iteration of `ntb_send_thread`; `none` if it reads memory that is not allocated. -/
def iterate : Option SendList :=
  match s.nodes s.preNode with
  | none => none
  | some pre =>
    let curr := pre.nextNode
    if curr = s.ringHead then
      some { s with preNode := curr, log := s.log ++ [.passedHead] }
    else
      match s.nodes curr with
      | none => none
      | some node =>
        match node.conn with
        | none => none
        | some c =>
          if s.Closed c then
            some { s with
              nodes := update (update s.nodes s.preNode
                (some { pre with nextNode := node.nextNode })) curr none
              ringTail := if curr = s.ringTail then s.preNode else s.ringTail
              log := s.log ++ [.removed c] }
          else some { s with preNode := curr, log := s.log ++ [.visited c] }

/-- `malloc` returns memory that is not allocated, and a connection is added when it is created. -/
def step : SendAct → Option SendList
  | .add conn node =>
    if (s.nodes node).isSome ∨ .added conn ∈ s.log then none else s.addConnToNtbSendList conn node
  | .setState c state => some { s with connState := update s.connState c state }
  | .iterate => s.iterate

def next (a : ℕ) : Option ℕ := (s.nodes a).map NtpSendListNode.nextNode

def Listed (c : ConnPtr) : Prop := .added c ∈ s.log ∧ .removed c ∉ s.log

structure Cycle (cells : List (ℕ × ConnPtr)) : Prop where
  linked : CircularList.Linked s.next (s.ringHead :: cells.map Prod.fst ++ [s.ringHead])
  nodup : (s.ringHead :: cells.map Prod.fst).Nodup
  cells : ∀ cell ∈ cells, (s.nodes cell.1).bind NtpSendListNode.conn = some cell.2

/-- The list has the nodes `walked`, up to the cursor, and `ahead`. -/
structure Holds (walked ahead : List (ℕ × ConnPtr)) : Prop where
  cycle : s.Cycle (walked ++ ahead)
  conns : ((walked ++ ahead).map Prod.snd).Nodup
  preNode : ∃ l, s.ringHead :: walked.map Prod.fst = l ++ [s.preNode]
  ringTail : ∃ l, s.ringHead :: (walked ++ ahead).map Prod.fst = l ++ [s.ringTail]
  listed : ∀ c, c ∈ (walked ++ ahead).map Prod.snd ↔ s.Listed c
  removed : ∀ c, .removed c ∈ s.log → .added c ∈ s.log

variable {s} {s' : SendList} {walked ahead : List (ℕ × ConnPtr)} {a : ℕ} {c : ConnPtr}
  {acts : List SendAct}

theorem holds_start (head : ℕ) (connState : ConnPtr → ConnState) :
    (start head connState).Holds [] [] where
  cycle := by
    refine ⟨List.isChain_cons_cons.mpr ⟨?_, List.IsChain.singleton head⟩,
      List.nodup_singleton head, List.forall_mem_nil _⟩
    simp [next, start]
  conns := List.nodup_nil
  preNode := ⟨[], rfl⟩
  ringTail := ⟨[], rfl⟩
  listed := fun c => by simp [start, Listed]
  removed := fun _ hc => absurd hc List.not_mem_nil

theorem next_update (nodes : ℕ → Option NtpSendListNode) (a : ℕ) (node : Option NtpSendListNode) :
    (fun b => (update nodes a node b).map NtpSendListNode.nextNode) =
      update (fun b => (nodes b).map NtpSendListNode.nextNode) a
        (node.map NtpSendListNode.nextNode) :=
  funext (apply_update (fun _ => Option.map NtpSendListNode.nextNode) nodes a node)

theorem node_of_next {b : ℕ} (h : s.next a = some b) :
    ∃ node, s.nodes a = some node ∧ node.nextNode = b :=
  Option.map_eq_some_iff.mp h

theorem Cycle.map_cells {cells : List (ℕ × ConnPtr)} (h : s.Cycle cells) :
    (cells.map Prod.fst).map (fun a => (a, ((s.nodes a).bind NtpSendListNode.conn).getD 0)) =
      cells := by
  rw [List.map_map]
  refine (List.map_congr_left fun cell hcell => ?_).trans (List.map_id cells)
  simp only [comp_apply, h.cells cell hcell, Option.getD_some, id_eq]

namespace Cycle

variable {cells before after : List (ℕ × ConnPtr)} {l : List ℕ} {p : ℕ}
  {node pre tail : NtpSendListNode}

theorem nodes_isSome (h : s.Cycle cells) (ha : a ∈ s.ringHead :: cells.map Prod.fst) :
    (s.nodes a).isSome = true := by
  obtain ⟨l, r, hsplit⟩ := List.append_of_mem ha
  have hlinked := h.linked
  rw [hsplit, List.append_assoc, List.cons_append] at hlinked
  obtain ⟨b, hb⟩ : ∃ b, s.next a = some b := by
    cases r with
    | nil => exact ⟨_, hlinked.split.2.1⟩
    | cons b r => exact ⟨b, hlinked.split.2.1⟩
  obtain ⟨node, hnode, -⟩ := node_of_next hb
  rw [hnode]
  rfl

theorem next_last (h : s.Cycle cells) (hl : s.ringHead :: cells.map Prod.fst = l ++ [p]) :
    s.next p = some s.ringHead := by
  have hlinked := h.linked
  rw [hl, List.append_assoc, List.singleton_append] at hlinked
  exact hlinked.split.2.1

theorem add (h : s.Cycle cells) (hl : s.ringHead :: cells.map Prod.fst = l ++ [p])
    (hfree : ¬ (s.nodes a).isSome = true) (htail : s.nodes p = some tail)
    (hhead : s'.ringHead = s.ringHead) (hnodes : s'.nodes = update
      (update s.nodes a (some { conn := some c, nextNode := s.ringHead })) p
      (some { tail with nextNode := a })) : s'.Cycle (cells ++ [(a, c)]) := by
  have hout : a ∉ l ++ [p] := by
    rw [← hl]
    exact fun hmem => hfree (h.nodes_isSome hmem)
  have hne : a ≠ p := by
    rintro rfl
    exact hout (List.mem_append_right _ (List.mem_singleton_self _))
  have hlinked := h.linked
  have hnodup := h.nodup
  rw [hl] at hnodup
  rw [hl, List.append_assoc, List.singleton_append] at hlinked
  have hall : s.ringHead :: (cells ++ [(a, c)]).map Prod.fst = l ++ [p] ++ [a] := by
    rw [List.map_append, ← List.cons_append, hl]
    rfl
  refine ⟨?_, ?_, ?_⟩
  · have hinsert := hlinked.insert hnodup hout
    rw [hhead, hall, List.append_assoc, List.append_assoc]
    unfold next at hinsert ⊢
    rw [hnodes, next_update, next_update]
    exact hinsert
  · rw [hhead, hall]
    exact hnodup.append (List.nodup_singleton a) (List.disjoint_singleton.mpr hout)
  · intro cell hcell
    rw [hnodes]
    rcases List.mem_append.mp hcell with hold | hadded
    · have hmem : cell.1 ∈ l ++ [p] := by
        rw [← hl]
        exact List.mem_cons_of_mem _ (List.mem_map_of_mem hold)
      have hcell' := h.cells cell hold
      by_cases hlast : cell.1 = p
      · rw [hlast, htail] at hcell'
        rw [hlast, update_self]
        exact hcell'
      · have hother : cell.1 ≠ a := fun heq => hout (heq ▸ hmem)
        rw [update_of_ne hlast, update_of_ne hother]
        exact hcell'
    · rw [List.mem_singleton.mp hadded, update_of_ne hne, update_self]
      rfl

theorem remove (h : s.Cycle (before ++ (a, c) :: after))
    (hl : s.ringHead :: before.map Prod.fst = l ++ [p]) (hpre : s.nodes p = some pre)
    (hnode : s.nodes a = some node) (hhead : s'.ringHead = s.ringHead) (hnodes : s'.nodes = update
      (update s.nodes p (some { pre with nextNode := node.nextNode })) a none) :
    s'.Cycle (before ++ after) := by
  have hfst : s.ringHead :: (before ++ (a, c) :: after).map Prod.fst =
      l ++ p :: a :: after.map Prod.fst := by
    rw [List.map_append, ← List.cons_append, hl, List.append_assoc]
    rfl
  have hfst' : s.ringHead :: (before ++ after).map Prod.fst = l ++ p :: after.map Prod.fst := by
    rw [List.map_append, ← List.cons_append, hl, List.append_assoc]
    rfl
  have hlinked := h.linked
  have hnodup := h.nodup
  rw [hfst] at hnodup
  rw [hfst, List.append_assoc, List.cons_append, List.cons_append] at hlinked
  refine ⟨?_, ?_, ?_⟩
  · have hdelete := hlinked.delete hnodup
    have hnext : s.next a = some node.nextNode := by
      rw [next, hnode]
      rfl
    rw [hhead, hfst', List.append_assoc, List.cons_append]
    rw [hnext] at hdelete
    unfold next at hdelete ⊢
    rw [hnodes, next_update, next_update]
    exact hdelete
  · rw [hhead, hfst']
    exact hnodup.sublist ((List.Sublist.refl l).append
      (List.Sublist.cons_cons _ (List.sublist_cons_self _ _)))
  · intro cell hcell
    have hold := h.cells cell (List.mem_append.mpr
      ((List.mem_append.mp hcell).imp_right (List.mem_cons_of_mem _)))
    have hne : cell.1 ≠ a := by
      have hmem : cell.1 ∈ (before ++ after).map Prod.fst := List.mem_map_of_mem hcell
      have hnodup' := (List.nodup_cons.mp h.nodup).2
      rw [List.map_append, List.map_cons] at hnodup'
      rintro heq
      rw [heq, List.map_append] at hmem
      exact (List.nodup_cons.mp (List.nodup_middle.mp hnodup')).1 hmem
    rw [hnodes, update_of_ne hne]
    by_cases hcursor : cell.1 = p
    · rw [hcursor, hpre] at hold
      rw [hcursor, update_self]
      exact hold
    · rw [update_of_ne hcursor]
      exact hold

end Cycle

namespace Holds

theorem add (h : s.Holds walked ahead) {node : ℕ} (hfree : ¬ (s.nodes node).isSome = true)
    (hnew : .added c ∉ s.log) (hadd : s.addConnToNtbSendList c node = some s') :
    s'.Holds walked (ahead ++ [(node, c)]) ∧ s'.connState = s.connState ∧
      s'.log = s.log ++ [.added c] := by
  obtain ⟨l, hl⟩ := h.ringTail
  obtain ⟨tail, htail, hnext⟩ := node_of_next (h.cycle.next_last hl)
  simp only [addConnToNtbSendList, htail] at hadd
  cases hadd
  have hids : (walked ++ ahead ++ [(node, c)]).map Prod.snd =
      (walked ++ ahead).map Prod.snd ++ [c] := List.map_append
  have hfresh : c ∉ (walked ++ ahead).map Prod.snd :=
    fun hmem => hnew ((h.listed c).mp hmem).1
  refine ⟨⟨?_, ?_, h.preNode, ?_, ?_, ?_⟩, rfl, rfl⟩
  · rw [← List.append_assoc]
    exact h.cycle.add hl hfree htail rfl rfl
  · rw [← List.append_assoc, hids]
    exact h.conns.append (List.nodup_singleton _) (List.disjoint_singleton.mpr hfresh)
  · refine ⟨l ++ [s.ringTail], ?_⟩
    rw [← List.append_assoc, List.map_append, ← List.cons_append, hl]
    rfl
  · intro d
    rw [← List.append_assoc, hids, List.mem_append, List.mem_singleton, h.listed]
    have hkept : d = c → SendEvent.removed d ∉ s.log := by
      rintro rfl hmem
      exact hnew (h.removed d hmem)
    simp only [Listed, List.mem_append, List.mem_singleton, SendEvent.added.injEq, reduceCtorEq,
      or_false]
    tauto
  · intro d hmem
    rcases List.mem_append.mp hmem with hold | hadded
    · exact List.mem_append_left _ (h.removed d hold)
    · cases List.mem_singleton.mp hadded

theorem iterate_nil (h : s.Holds walked []) :
    ∃ s', s.iterate = some s' ∧ s'.Holds [] walked ∧ s'.connState = s.connState ∧
      s'.log = s.log ++ [.passedHead] := by
  obtain ⟨l, hl⟩ := h.preNode
  have hlinked := h.cycle.linked
  rw [List.append_nil, hl, List.append_assoc, List.singleton_append] at hlinked
  obtain ⟨pre, hpre, hnext⟩ := node_of_next hlinked.split.2.1
  refine ⟨{ s with preNode := s.ringHead, log := s.log ++ [.passedHead] }, ?_, ?_, rfl, rfl⟩
  · simp only [iterate, hpre, hnext, if_true]
  · have hcycle := h.cycle
    have hconns := h.conns
    have htail := h.ringTail
    have hlisted := h.listed
    rw [List.append_nil] at hcycle hconns htail hlisted
    refine ⟨⟨hcycle.linked, hcycle.nodup, hcycle.cells⟩, hconns, ⟨[], rfl⟩, htail, ?_, ?_⟩
    · exact fun c => (hlisted c).trans (by simp [Listed])
    · exact fun c hmem => List.mem_append_left _ (h.removed c (by simpa using hmem))

theorem visit (h : s.Holds walked ((a, c) :: ahead)) :
    Holds { s with preNode := a, log := s.log ++ [.visited c] } (walked ++ [(a, c)]) ahead := by
  have hcycle := h.cycle
  have hconns := h.conns
  have htail := h.ringTail
  have hlisted := h.listed
  rw [List.append_cons] at hcycle hconns htail hlisted
  refine ⟨⟨hcycle.linked, hcycle.nodup, hcycle.cells⟩, hconns,
    ⟨s.ringHead :: walked.map Prod.fst, ?_⟩, htail, ?_, ?_⟩
  · rw [List.map_append, List.cons_append]
    rfl
  · exact fun d => (hlisted d).trans (by simp [Listed])
  · exact fun d hmem => List.mem_append_left _ (h.removed d (by simpa using hmem))

theorem ringTail_delete (h : s.Holds walked ((a, c) :: ahead)) :
    ∃ l, s.ringHead :: (walked ++ ahead).map Prod.fst =
      l ++ [if a = s.ringTail then s.preNode else s.ringTail] := by
  obtain ⟨l, hl⟩ := h.ringTail
  cases ahead with
  | nil =>
    rw [List.map_append, ← List.cons_append] at hl
    have hlast : a = s.ringTail := (List.append_inj' hl rfl).2 |> List.singleton_inj.mp
    rw [if_pos hlast, List.append_nil]
    exact h.preNode
  | cons cell ahead =>
    have hlast := congrArg List.getLast? hl
    rw [List.getLast?_concat, List.map_append, ← List.cons_append, List.map_cons,
      List.getLast?_append, List.map_cons, List.getLast?_cons_cons,
      Option.or_of_isSome (by simp)] at hlast
    have hnodup := h.cycle.nodup
    rw [List.map_append, ← List.cons_append, List.map_cons] at hnodup
    have hnot := (List.nodup_cons.mp (List.nodup_append'.mp hnodup).2.1).1
    have hne : a ≠ s.ringTail := by
      rintro rfl
      exact hnot (List.mem_of_getLast? hlast)
    rw [if_neg hne, ← List.getLast?_eq_some_iff]
    rw [List.map_append, ← List.cons_append, List.getLast?_append, List.map_cons,
      Option.or_of_isSome (by simp)]
    exact hlast

theorem remove (h : s.Holds walked ((a, c) :: ahead)) {pre node : NtpSendListNode}
    (hpre : s.nodes s.preNode = some pre) (hnode : s.nodes a = some node) :
    Holds { s with
      nodes := update (update s.nodes s.preNode
        (some { pre with nextNode := node.nextNode })) a none
      ringTail := if a = s.ringTail then s.preNode else s.ringTail
      log := s.log ++ [.removed c] } walked ahead := by
  obtain ⟨l, hl⟩ := h.preNode
  have hsub : (walked ++ ahead).Sublist (walked ++ (a, c) :: ahead) :=
    (List.Sublist.refl walked).append (List.sublist_cons_self _ _)
  have hconns := h.conns
  rw [List.map_append, List.map_cons] at hconns
  have hgone : c ∉ (walked ++ ahead).map Prod.snd := by
    rw [List.map_append]
    exact (List.nodup_cons.mp (List.nodup_middle.mp hconns)).1
  refine ⟨h.cycle.remove hl hpre hnode rfl rfl, h.conns.sublist (hsub.map Prod.snd), h.preNode,
    h.ringTail_delete, ?_, ?_⟩
  · intro d
    have hlisted := h.listed d
    have hold : d ∈ (walked ++ (a, c) :: ahead).map Prod.snd ↔
        d ∈ (walked ++ ahead).map Prod.snd ∨ d = c := by
      simp only [List.map_append, List.map_cons, List.mem_append, List.mem_cons]
      tauto
    rw [hold] at hlisted
    have hne : d ∈ (walked ++ ahead).map Prod.snd → d ≠ c := by
      rintro hmem rfl
      exact hgone hmem
    simp only [Listed, List.mem_append, List.mem_singleton, SendEvent.removed.injEq, reduceCtorEq,
      or_false] at hlisted ⊢
    tauto
  · intro d hmem
    rcases List.mem_append.mp hmem with hold | hnew
    · exact List.mem_append_left _ (h.removed d hold)
    · obtain rfl := SendEvent.removed.inj (List.mem_singleton.mp hnew)
      refine List.mem_append_left _ ((h.listed d).mp ?_).1
      rw [List.map_append, List.map_cons]
      exact List.mem_append_right _ List.mem_cons_self

theorem iterate_cons (h : s.Holds walked ((a, c) :: ahead)) :
    ∃ s', s.iterate = some s' ∧ s'.connState = s.connState ∧
      ((s.Closed c ∧ s'.Holds walked ahead ∧ s'.log = s.log ++ [.removed c]) ∨
        (¬ s.Closed c ∧ s'.Holds (walked ++ [(a, c)]) ahead ∧ s'.log = s.log ++ [.visited c])) := by
  obtain ⟨l, hl⟩ := h.preNode
  have hlinked := h.cycle.linked
  rw [List.map_append, ← List.cons_append, hl, List.append_assoc, List.append_assoc] at hlinked
  obtain ⟨pre, hpre, hnext⟩ := node_of_next hlinked.split.2.1
  obtain ⟨node, hnode, hconn⟩ := Option.bind_eq_some_iff.mp
    (h.cycle.cells (a, c) (List.mem_append_right _ List.mem_cons_self))
  have hhead : a ≠ s.ringHead := by
    rintro rfl
    apply (List.nodup_cons.mp h.cycle.nodup).1
    rw [List.map_append]
    exact List.mem_append_right _ List.mem_cons_self
  simp only at hnode hconn
  by_cases hclosed : s.Closed c
  · refine ⟨_, ?_, ?_, Or.inl ⟨hclosed, h.remove hpre hnode, rfl⟩⟩
    · simp only [iterate, hpre, hnext, if_neg hhead, hnode, hconn, if_pos hclosed]
    · rfl
  · refine ⟨_, ?_, ?_, Or.inr ⟨hclosed, h.visit, rfl⟩⟩
    · simp only [iterate, hpre, hnext, if_neg hhead, hnode, hconn, if_neg hclosed]
    · rfl

theorem setState (h : s.Holds walked ahead) (c : ConnPtr) (state : ConnState) :
    Holds { s with connState := update s.connState c state } walked ahead :=
  ⟨⟨h.cycle.linked, h.cycle.nodup, h.cycle.cells⟩, h.conns, h.preNode, h.ringTail, h.listed,
    h.removed⟩

/-- A step at the end of the list passes the head. Any other step leaves each connection of the list
ahead of the cursor or gives it its turn. -/
theorem step {act : SendAct} (h : s.Holds walked ahead) (hstep : s.step act = some s') :
    ∃ walked' ahead', s'.Holds walked' ahead' ∧ ((ahead = [] ∧ s'.log = s.log ++ [.passedHead]) ∨
        ∃ new, s'.log = s.log ++ new ∧ .passedHead ∉ new ∧ ∀ d, .added d ∈ s.log →
          new.countP (·.serves d) + (ahead'.map Prod.snd).count d =
            (ahead.map Prod.snd).count d) := by
  cases act with
  | add conn node =>
    simp only [SendList.step] at hstep
    split at hstep
    · cases hstep
    case isFalse hguard =>
      obtain ⟨hfree, hnew⟩ := not_or.mp hguard
      obtain ⟨h', -, hlog⟩ := h.add hfree hnew hstep
      refine ⟨_, _, h', Or.inr ⟨_, hlog, by simp, ?_⟩⟩
      intro d hd
      have hne : conn ≠ d := by
        rintro rfl
        exact hnew hd
      simp [SendEvent.serves, hne]
  | setState c state =>
    cases hstep
    exact ⟨_, _, h.setState c state, Or.inr ⟨[], by simp, by simp, by simp⟩⟩
  | iterate =>
    cases ahead with
    | nil =>
      obtain ⟨t, ht, h', -, hlog⟩ := h.iterate_nil
      obtain rfl : t = s' := Option.some.inj (ht.symm.trans hstep)
      exact ⟨_, _, h', Or.inl ⟨rfl, hlog⟩⟩
    | cons cell ahead =>
      obtain ⟨t, ht, -, hcases⟩ := h.iterate_cons
      obtain rfl : t = s' := Option.some.inj (ht.symm.trans hstep)
      rcases hcases with ⟨-, h', hlog⟩ | ⟨-, h', hlog⟩
      · refine ⟨_, _, h', Or.inr ⟨_, hlog, by simp, fun d _ => ?_⟩⟩
        simp [SendEvent.serves, List.count_cons, add_comm]
      · refine ⟨_, _, h', Or.inr ⟨_, hlog, by simp, fun d _ => ?_⟩⟩
        simp [SendEvent.serves, List.count_cons, add_comm]

theorem iterate_isSome (h : s.Holds walked ahead) : s.iterate.isSome = true := by
  cases ahead with
  | nil =>
    obtain ⟨s', hs', -⟩ := h.iterate_nil
    rw [hs', Option.isSome_some]
  | cons cell ahead =>
    obtain ⟨s', hs', -⟩ := h.iterate_cons
    rw [hs', Option.isSome_some]

theorem eq_of_cycle (h : s.Holds walked ahead) {cells : List (ℕ × ConnPtr)}
    (hcells : s.Cycle cells) : cells = walked ++ ahead := by
  have hfst : cells.map Prod.fst = (walked ++ ahead).map Prod.fst :=
    hcells.linked.unique h.cycle.linked (List.nodup_cons.mp hcells.nodup).1
      (List.nodup_cons.mp h.cycle.nodup).1
  rw [← hcells.map_cells, ← h.cycle.map_cells, hfst]

end Holds

theorem holds_of_run (head : ℕ) (connState : ConnPtr → ConnState)
    (hrun : Runs.run step (start head connState) acts = some s) :
    ∃ walked ahead, s.Holds walked ahead := by
  refine Runs.invariant (I := fun s : SendList => ∃ walked ahead, s.Holds walked ahead) ?_
    ⟨[], [], holds_start head connState⟩ hrun
  rintro s act s' ⟨walked, ahead, h⟩ hstep
  obtain ⟨walked', ahead', h', -⟩ := h.step hstep
  exact ⟨walked', ahead', h'⟩

theorem Holds.log_run (h : s.Holds walked ahead) (hrun : Runs.run SendList.step s acts = some s') :
    s.log <+: s'.log := by
  let I (t : SendList) : Prop := (∃ walked ahead, t.Holds walked ahead) ∧ s.log <+: t.log
  refine (Runs.invariant (I := I) ?_ ⟨⟨walked, ahead, h⟩, List.prefix_rfl⟩ hrun).2
  rintro t act t' ⟨⟨walked, ahead, ht⟩, hprefix⟩ hstep
  obtain ⟨walked', ahead', h', ⟨-, hlog⟩ | ⟨new, hlog, -⟩⟩ := ht.step hstep
  · exact ⟨⟨walked', ahead', h'⟩, hprefix.trans ⟨_, hlog.symm⟩⟩
  · exact ⟨⟨walked', ahead', h'⟩, hprefix.trans ⟨_, hlog.symm⟩⟩

/-- Between two passes over the head: `log₀` is the log after the first one and `mid` what happened
until the second one, `done` the part of it up to now. -/
theorem Holds.countP_serves (h : s.Holds walked ahead) {t : SendList}
    (hrun : Runs.run SendList.step s acts = some t) {log₀ done mid : List SendEvent}
    (hlog : s.log = log₀ ++ done) (hdone : .passedHead ∉ done) (hadded : .added c ∈ s.log)
    (hcount : done.countP (·.serves c) + (ahead.map Prod.snd).count c = 1)
    (ht : t.log = log₀ ++ (mid ++ [.passedHead])) (hmid : .passedHead ∉ mid) :
    mid.countP (·.serves c) = 1 := by
  induction acts generalizing s walked ahead done with
  | nil =>
    cases hrun
    have heq := List.append_cancel_left (hlog.symm.trans ht)
    rw [heq] at hdone
    exact absurd (List.mem_append_right _ (List.mem_singleton_self _)) hdone
  | cons act acts ih =>
    obtain ⟨s', hstep, hrun'⟩ := Runs.run_cons_eq_some.mp hrun
    obtain ⟨walked', ahead', h', ⟨rfl, hlog'⟩ | ⟨new, hlog', hnew, hkept⟩⟩ := h.step hstep
    · obtain ⟨rest, hrest⟩ := h'.log_run hrun'
      rw [hlog', hlog, ht, List.append_assoc, List.append_assoc] at hrest
      have heq := List.append_cancel_left hrest
      rw [List.singleton_append] at heq
      obtain ⟨rfl, -⟩ := (List.append_cons_inj_of_notMem hmid List.not_mem_nil).mp heq.symm
      simpa using hcount
    · have hlog'' : s'.log = log₀ ++ (done ++ new) := by
        rw [hlog', hlog, List.append_assoc]
      refine ih h' hrun' hlog'' ?_ ?_ ?_
      · exact fun hmem => (List.mem_append.mp hmem).elim hdone hnew
      · rw [hlog']
        exact List.mem_append_left _ hadded
      · rw [List.countP_append, add_assoc, hkept c hadded]
        exact hcount

/-- After every run the list is a cycle through the head with each connection that was added and not
removed once, the tail is the last node before the head and the cursor is on the cycle, so that an
iteration finds what it reads. Between two passes over the head each connection that was in the list
at the first one has one turn. -/
theorem send_list_cycle_and_turns (head : ℕ) (connState : ConnPtr → ConnState) {acts : List SendAct}
    (hrun : Runs.run step (start head connState) acts = some s) :
    (∃ cells, s.Cycle cells ∧ (∃ l, s.ringHead :: cells.map Prod.fst = l ++ [s.ringTail]) ∧
      (cells.map Prod.snd).Nodup ∧ (∀ c, c ∈ cells.map Prod.snd ↔ s.Listed c) ∧
      s.preNode ∈ s.ringHead :: cells.map Prod.fst) ∧
    s.iterate.isSome = true ∧
    ∀ s₁ cells, s.iterate = some s₁ → s₁.log = s.log ++ [.passedHead] → s₁.Cycle cells →
      ∀ acts' t mid, Runs.run step s₁ acts' = some t → t.log = s₁.log ++ (mid ++ [.passedHead]) →
        .passedHead ∉ mid → ∀ c ∈ cells.map Prod.snd, mid.countP (·.serves c) = 1 := by
  obtain ⟨walked, ahead, h⟩ := holds_of_run head connState hrun
  refine ⟨⟨walked ++ ahead, h.cycle, h.ringTail, h.conns, h.listed, ?_⟩, h.iterate_isSome, ?_⟩
  · obtain ⟨l, hl⟩ := h.preNode
    rw [List.map_append, ← List.cons_append, hl]
    exact List.mem_append_left _ (List.mem_append_right _ (List.mem_singleton_self _))
  · intro s₁ cells hpass hlog hcells acts' t mid hrun' ht hmid c hc
    cases ahead with
    | nil =>
        obtain ⟨s', hs', h', -, -⟩ := h.iterate_nil
        obtain rfl : s' = s₁ := Option.some.inj (hs'.symm.trans hpass)
        rw [h'.eq_of_cycle hcells] at hc
        have hcount : (walked.map Prod.snd).count c = 1 :=
          List.count_eq_one_of_mem h'.conns hc
        refine h'.countP_serves hrun' (List.append_nil _).symm List.not_mem_nil
          ((h'.listed c).mp hc).1 ?_ ht hmid
        rw [List.countP_nil, zero_add]
        exact hcount
    | cons cell ahead =>
        -- an iteration at a connection does not pass the head
        obtain ⟨s', hs', -, ⟨-, -, hother⟩ | ⟨-, -, hother⟩⟩ := h.iterate_cons
        all_goals
          obtain rfl : s' = s₁ := Option.some.inj (hs'.symm.trans hpass)
          cases List.append_cancel_left (hlog.symm.trans hother)

theorem turns_of_three : ∃ s s₁ t cells,
    Runs.run step (start 0 fun _ => .readyConn) [.add 4 1, .add 5 2, .iterate, .iterate] = some s ∧
    s.iterate = some s₁ ∧ s₁.log = s.log ++ [.passedHead] ∧ s₁.Cycle cells ∧
    Runs.run step s₁ [.iterate, .add 6 3, .setState 5 .activeClose, .iterate, .iterate, .iterate] =
      some t ∧
    t.log = s₁.log ++ ([.visited 4, .added 6, .removed 5, .visited 6] ++ [.passedHead]) ∧
    5 ∈ cells.map Prod.snd ∧
    [SendEvent.visited 4, .added 6, .removed 5, .visited 6].countP (·.serves 5) = 1 := by
  have hs : Runs.run step (start 0 fun _ => .readyConn)
      [.add 4 1, .add 5 2, .iterate, .iterate] = some _ := rfl
  have hs₁ : Runs.run step (start 0 fun _ => .readyConn)
      [.add 4 1, .add 5 2, .iterate, .iterate, .iterate] = some _ := rfl
  obtain ⟨⟨cells, hcycle, -, -, hlisted, -⟩, -⟩ := send_list_cycle_and_turns 0 _ hs₁
  have hmem : 5 ∈ cells.map Prod.snd := (hlisted 5).mpr ⟨by decide, by decide⟩
  refine ⟨_, _, _, cells, hs, rfl, rfl, hcycle, rfl, rfl, hmem, ?_⟩
  exact (send_list_cycle_and_turns 0 _ hs).2.2 _ cells rfl rfl hcycle
    [.iterate, .add 6 3, .setState 5 .activeClose, .iterate, .iterate, .iterate] _
    [.visited 4, .added 6, .removed 5, .visited 6] rfl rfl (by decide) 5 hmem

/-- The table of connections has the list of the partition `p` as a sequence and the cursor as a
position in it. -/
def Represents (s : SendList) (t : ConnTable) (p : ℕ) : Prop :=
  ∃ walked ahead, s.Holds walked ahead ∧
    (t.link.partitions p).sendList = (walked ++ ahead).map Prod.snd ∧
    t.cursor p = walked.length ∧
    ∀ c ∈ (walked ++ ahead).map Prod.snd, s.connState c = (t.link.conns c).state

theorem Represents.visit {t : ConnTable} {p : ℕ} (h : s.Represents t p) :
    ∃ s', s.iterate = some s' ∧ s'.Represents (t.visit p) p := by
  obtain ⟨walked, ahead, hs, hlist, hcursor, hstates⟩ := h
  cases ahead with
  | nil =>
    obtain ⟨s', hs', h', hstate, -⟩ := hs.iterate_nil
    have hend : (t.link.partitions p).sendList[t.cursor p]? = none := by
      rw [hlist, hcursor, List.getElem?_eq_none_iff]
      simp
    rw [List.append_nil] at hlist hstates
    refine ⟨s', hs', [], walked, h', ?_, ?_, ?_⟩
    · simpa [ConnTable.visit, hend] using hlist
    · simp [ConnTable.visit, hend]
    · intro c hc
      simpa [ConnTable.visit, hend, hstate] using hstates c hc
  | cons cell ahead =>
    obtain ⟨a, c⟩ := cell
    have hcurr : (t.link.partitions p).sendList[t.cursor p]? = some c := by
      rw [hlist, hcursor]
      simp
    have hstate : s.connState c = (t.link.conns c).state := hstates c (by simp)
    have hsub : ∀ d ∈ (walked ++ ahead).map Prod.snd,
        d ∈ (walked ++ (a, c) :: ahead).map Prod.snd := by
      intro d hd
      simp only [List.map_append, List.map_cons, List.mem_append, List.mem_cons] at hd ⊢
      tauto
    obtain ⟨s', hs', hsame, ⟨hclosed, h', -⟩ | ⟨hopen, h', -⟩⟩ := hs.iterate_cons
    · have hvisit : t.visit p = t.removeConn p c := by
        rw [Closed, hstate] at hclosed
        rcases hclosed with hclosed | hclosed <;> simp [ConnTable.visit, hcurr, hclosed]
      refine ⟨s', hs', walked, ahead, h', ?_, ?_, ?_⟩
      · rw [hvisit, ConnTable.sendList_removeConn, if_pos rfl, hlist, hcursor, List.map_append,
          List.eraseIdx_append_of_length_le (by simp)]
        simp
      · rw [hvisit]
        exact hcursor
      · rw [hvisit, hsame]
        exact fun d hd => hstates d (hsub d hd)
    · have hready : (t.link.conns c).state = .readyConn := by
        rw [Closed, hstate] at hopen
        cases hcase : (t.link.conns c).state <;> simp_all
      have hvisit : t.visit p = { t with cursor := update t.cursor p (t.cursor p + 1) } := by
        simp [ConnTable.visit, hcurr, hready]
      rw [List.append_cons] at hlist hstates
      refine ⟨s', hs', walked ++ [(a, c)], ahead, h', ?_, ?_, ?_⟩
      · rw [hvisit]
        exact hlist
      · rw [hvisit, List.length_append, List.length_singleton, ← hcursor]
        exact update_self p _ _
      · rw [hvisit, hsame]
        exact hstates

/-- Iterations over the links are visits of the table. -/
theorem iterations_are_visits {t : ConnTable} {p : ℕ} (h : s.Represents t p) (n : ℕ) :
    ∃ s', Runs.run step s (List.replicate n .iterate) = some s' ∧
      s'.Represents ((ConnTable.visit · p)^[n] t) p := by
  induction n generalizing s t with
  | zero => exact ⟨s, rfl, h⟩
  | succ n ih =>
    obtain ⟨s₁, hs₁, h₁⟩ := h.visit
    obtain ⟨s', hs', h'⟩ := ih h₁
    exact ⟨s', Runs.run_cons_eq_some.mpr ⟨s₁, hs₁, hs'⟩, h'⟩

theorem two_iterations_are_visits :
    ∃ s t, (start 0 fun _ => .readyConn).step (.add 0 1) = some s ∧
      ConnTable.step ⟨ConnTable.freshLink, fun _ => 0⟩ ConnTable.createSample = some t ∧
      ∃ s', Runs.run step s (List.replicate 2 .iterate) = some s' ∧
        s'.Represents ((ConnTable.visit · 0)^[2] t) 0 := by
  obtain ⟨hs, -⟩ := (holds_start 0 fun _ => .readyConn).add (by decide : ¬ _ = true)
    (by decide : SendEvent.added 0 ∉ _) (rfl : addConnToNtbSendList _ 0 1 = _)
  refine ⟨_, _, rfl, rfl, ?_⟩
  exact iterations_are_visits ⟨[], [(1, 0)], hs, rfl, rfl, by decide⟩ 2

end SendList

end NtSocks
