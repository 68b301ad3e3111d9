import Mathlib.Data.List.Basic

/-!
# Histories of a bounded queue

An event is an operation on a queue together with its result. A history is a list of events that a
queue of at most `bound` elements can give, one after the other: what is pushed comes behind the
others, what is popped or looked at is the oldest element, a push is refused only by a full queue
and the other operations only by an empty one.
-/

namespace Fifo

variable {α : Type*}

inductive Event (α : Type*)
  | push (x : α) (accepted : Bool)
  | pop (x : Option α)
  | drop (done : Bool)
  | front (x : Option α)

def Event.isPush : Event α → Bool
  | .push _ _ => true
  | .pop _ | .drop _ | .front _ => false

inductive Step (bound : ℕ) : List α → Event α → List α → Prop
  | push {q : List α} {x : α} (hroom : q.length < bound) : Step bound q (.push x true) (q ++ [x])
  | full {q : List α} {x : α} (hfull : q.length = bound) : Step bound q (.push x false) q
  | pop {q : List α} {x : α} : Step bound (x :: q) (.pop (some x)) q
  | popEmpty : Step bound [] (.pop none) []
  | drop {q : List α} {x : α} : Step bound (x :: q) (.drop true) q
  | dropEmpty : Step bound [] (.drop false) []
  | front {q : List α} {x : α} : Step bound (x :: q) (.front (some x)) (x :: q)
  | frontEmpty : Step bound [] (.front none) []

inductive History (bound : ℕ) : List (Event α) → List α → Prop
  | nil : History bound [] []
  | snoc {es : List (Event α)} {e : Event α} {q q' : List α} (hes : History bound es q)
      (he : Step bound q e q') : History bound (es ++ [e]) q'

end Fifo
