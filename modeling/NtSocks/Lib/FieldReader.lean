import Mathlib.Tactic

/-!
# Readers of messages

A message is a value for each field. A reader inspects one field after another and goes on with the
values it found, so that what it inspects is part of it. A message is built over memory with any
content, and it travels by copies of some of its fields over older messages. What a reader makes of
it is settled when every field it inspects is known, that is assigned and copied.
-/

namespace FieldReader

universe u

/-- A reader of messages with fields `F` and values `V`. -/
inductive Reader (F V R : Type u) : Type u where
  | done (result : R)
  | inspect (field : F) (next : V → Reader F V R)

namespace Reader

variable {F V R S : Type u}

protected def bind : Reader F V R → (R → Reader F V S) → Reader F V S
  | .done result, k => k result
  | .inspect field next, k => .inspect field fun v => (next v).bind k

instance : Monad (Reader F V) where
  pure := .done
  bind := .bind

def field (f : F) : Reader F V V := .inspect f .done

def fields : List F → Reader F V (List V)
  | [] => pure []
  | f :: fs => do
      let v ← field f
      let vs ← fields fs
      return v :: vs

def fieldsUntil (stop : V → Bool) : List F → Reader F V (List V)
  | [] => pure []
  | f :: fs => do
      let v ← field f
      if stop v then return []
      else do
        let vs ← fieldsUntil stop fs
        return v :: vs

def run : Reader F V R → (F → V) → R
  | .done result, _ => result
  | .inspect f next, msg => (next (msg f)).run msg

def inspected : Reader F V R → (F → V) → List F
  | .done _, _ => []
  | .inspect f next, msg => f :: (next (msg f)).inspected msg

/-- The result on a message of which only some fields are known, if these are enough. -/
def runKnown (known : F → Option V) : Reader F V R → Option R
  | .done result => some result
  | .inspect f next => (known f).bind fun v => (next v).runKnown known

section Known

variable {known : F → Option V} {msg : F → V} {vs : List V}

theorem known_of_runKnown (hmsg : ∀ f v, known f = some v → msg f = v) {r : Reader F V R} {x : R}
    (h : r.runKnown known = some x) :
    r.run msg = x ∧ ∀ f ∈ r.inspected msg, known f = some (msg f) := by
  induction r with
  | done result => exact ⟨Option.some.inj h, fun f hf => absurd hf List.not_mem_nil⟩
  | inspect f next ih =>
    obtain ⟨v, hv, hnext⟩ := Option.bind_eq_some_iff.mp h
    have hfv : msg f = v := hmsg f v hv
    have ihv := ih v hnext
    rw [← hfv] at hv ihv
    exact ⟨ihv.1, List.forall_mem_cons.mpr ⟨hv, ihv.2⟩⟩

@[simp] theorem runKnown_pure (x : R) : (pure x : Reader F V R).runKnown known = some x := rfl

@[simp] theorem runKnown_bind (r : Reader F V R) (k : R → Reader F V S) :
    (r >>= k).runKnown known = (r.runKnown known).bind fun x => (k x).runKnown known := by
  induction r with
  | done result => rfl
  | inspect f next ih =>
    change ((known f).bind fun v => (next v >>= k).runKnown known) = _
    rw [runKnown, Option.bind_assoc]
    exact congrArg _ (funext ih)

@[simp] theorem runKnown_field (f : F) : (field f : Reader F V V).runKnown known = known f := by
  change ((known f).bind fun v => some v) = known f
  exact Option.bind_fun_some (known f)

theorem runKnown_fields {fs : List F} (h : fs.map known = vs.map some) :
    (fields fs : Reader F V (List V)).runKnown known = some vs := by
  induction fs generalizing vs with
  | nil =>
    obtain rfl : vs = [] := List.map_eq_nil_iff.mp h.symm
    rfl
  | cons f fs ih =>
    obtain ⟨v, vs, rfl, hv, hvs⟩ := List.map_eq_cons_iff.mp h.symm
    rw [fields, runKnown_bind, runKnown_field, ← hv, Option.bind_some, runKnown_bind, ih hvs.symm]
    rfl

theorem runKnown_fieldsUntil {stop : V → Bool} {fs rest : List F} {f : F} {v : V}
    (h : fs.map known = vs.map some) (hvs : ∀ x ∈ vs, stop x = false) (hf : known f = some v)
    (hv : stop v = true) :
    (fieldsUntil stop (fs ++ f :: rest) : Reader F V (List V)).runKnown known = some vs := by
  induction fs generalizing vs with
  | nil =>
    obtain rfl : vs = [] := List.map_eq_nil_iff.mp h.symm
    rw [List.nil_append, fieldsUntil, runKnown_bind, runKnown_field, hf, Option.bind_some,
      if_pos hv]
    rfl
  | cons g fs ih =>
    obtain ⟨x, vs, rfl, hx, htail⟩ := List.map_eq_cons_iff.mp h.symm
    have hstop : stop x = false := hvs x List.mem_cons_self
    have ihvs := ih htail.symm fun y hy => hvs y (List.mem_cons_of_mem x hy)
    rw [List.cons_append, fieldsUntil, runKnown_bind, runKnown_field, ← hx, Option.bind_some,
      hstop, if_neg Bool.false_ne_true, runKnown_bind, ihvs]
    rfl

end Known

end Reader

variable {F V : Type u} {f : F}

def build (assigned : F → Option V) (memory : F → V) : F → V :=
  fun f => (assigned f).getD (memory f)

theorem build_of_assigned {assigned : F → Option V} {v : V} (h : assigned f = some v)
    (memory : F → V) : build assigned memory f = v := by
  rw [build, h, Option.getD_some]

variable [DecidableEq F] {fs : List F}

def copyFields (fs : List F) (src target : F → V) : F → V :=
  fun f => if f ∈ fs then src f else target f

theorem copyFields_of_mem (h : f ∈ fs) (src target : F → V) :
    copyFields fs src target f = src f := if_pos h

theorem copyFields_of_notMem (h : f ∉ fs) (src target : F → V) :
    copyFields fs src target f = target f := if_neg h

/-- What the sender's memory, the slot of the ring and the variable of the receiver held before. -/
structure History (F V : Type u) where
  memory : F → V
  slot : F → V
  element : F → V

/-- The fields that a copy of a message always writes: those of `head`, and more of them by the
value of the field `type`. What is written settles which fields these are. -/
structure Layout (F V T : Type u) where
  head : List F
  type : F
  type_mem : type ∈ head
  branch : V → Option T
  more : (F → V) → T → List F
  more_congr : ∀ src src' t, (∀ f ∈ more src t, src' f = src f) → more src' t = more src t

namespace Layout

variable {T : Type u} (l : Layout F V T)

def fields (src : F → V) : List F := l.head ++ (l.branch (src l.type)).elim [] (l.more src)

/-- The fields that reach a receiver with a value that the sender assigned. -/
def known (assigned : F → Option V) (memory : F → V) (f : F) : Option V :=
  if f ∈ l.fields (build assigned memory) then assigned f else none

def Copies (copy : (F → V) → (F → V) → F → V) : Prop :=
  ∀ src target, ∀ f ∈ l.fields src, copy src target f = src f

variable {l} {src src' : F → V} {assigned : F → Option V} {f : F} {v : V}

theorem fields_congr (h : ∀ f ∈ l.fields src, src' f = src f) : l.fields src' = l.fields src := by
  have htype : src' l.type = src l.type := h _ (List.mem_append_left _ l.type_mem)
  rw [fields, fields, htype]
  cases hbranch : l.branch (src l.type) with
  | none => rfl
  | some t =>
    refine congrArg _ (l.more_congr src src' t fun f hf => h f (List.mem_append_right _ ?_))
    rw [hbranch]
    exact hf

theorem fields_of_branch {t : T} (h : l.branch (src l.type) = some t) :
    l.fields src = l.head ++ l.more src t := by
  rw [fields, h, Option.elim_some]

theorem assigned_of_known {memory : F → V} (h : l.known assigned memory f = some v) :
    assigned f = some v :=
  (Option.ite_none_right_eq_some.mp h).2

section Copies

variable {copy : (F → V) → (F → V) → F → V} (hcopy : l.Copies copy)

include hcopy

theorem Copies.fields_copy (src target : F → V) : l.fields (copy src target) = l.fields src :=
  fields_congr (hcopy src target)

theorem Copies.receive_of_known {h : History F V} (hf : l.known assigned h.memory f = some v) :
    copy (copy (build assigned h.memory) h.slot) h.element f = v := by
  obtain ⟨hmem, hassigned⟩ := Option.ite_none_right_eq_some.mp hf
  rw [hcopy _ _ f (by rw [hcopy.fields_copy]; exact hmem), hcopy _ _ f hmem,
    build_of_assigned hassigned]

end Copies

end Layout

end FieldReader
