import Mathlib.Data.List.Basic

/-!
# Bounded queues

What a first-in first-out queue of bounded size may answer, call by call. Over
any run from the empty queue, what has come out is what went in, in order, up
to what the queue still holds (`Run.pushes_eq`). An implementation whose
answers are those of a run inherits this.
-/

namespace QpskB210.Lib.Fifo

variable {α : Type}

/-- The answer to one call. -/
inductive Event (α : Type) where
  | pushed (a : α)
  | full
  | popped (a : α)
  | empty
deriving DecidableEq, Repr

/-- What a queue of at most `bound` elements may answer. -/
inductive Step (bound : Nat) : List α → Event α → List α → Prop where
  | pushed (a : α) {q : List α} (h : q.length < bound) : Step bound q (.pushed a) (q ++ [a])
  | full {q : List α} (h : q.length = bound) : Step bound q .full q
  | popped (a : α) (q : List α) : Step bound (a :: q) (.popped a) q
  | empty : Step bound [] .empty []

/-- A step that answers nothing leaves the queue as it is. -/
def StepOrStay (bound : Nat) (q : List α) : Option (Event α) → List α → Prop
  | none, q' => q' = q
  | some event, q' => Step bound q event q'

/-- A run from the empty queue. -/
inductive Run (bound : Nat) : List (Event α) → List α → Prop where
  | nil : Run bound [] []
  | concat {events : List (Event α)} {event : Event α} {q q' : List α} :
      Run bound events q → Step bound q event q' → Run bound (events ++ [event]) q'

/-- What went in. -/
def pushes (events : List (Event α)) : List α :=
  events.filterMap fun event =>
    match event with
    | .pushed a => some a
    | _ => none

/-- What came out. -/
def pops (events : List (Event α)) : List α :=
  events.filterMap fun event =>
    match event with
    | .popped a => some a
    | _ => none

variable {bound : Nat} {events : List (Event α)} {q : List α}

theorem pushes_concat (events : List (Event α)) (event : Event α) :
    pushes (events ++ [event]) = pushes events ++ pushes [event] := List.filterMap_append

theorem pops_concat (events : List (Event α)) (event : Event α) :
    pops (events ++ [event]) = pops events ++ pops [event] := List.filterMap_append

/-- **First in, first out.** What went in is what came out, and after it what
is still there. -/
theorem Run.pushes_eq (h : Run bound events q) : pushes events = pops events ++ q := by
  induction h with
  | nil => rfl
  | concat _ hstep ih =>
      rw [pushes_concat, pops_concat, ih]
      cases hstep with
      | pushed a hroom => simp [pushes, pops]
      | full hfull => simp [pushes, pops]
      | popped a q => simp [pushes, pops]
      | empty => simp [pushes, pops]

theorem Run.extend (h : Run bound events q) {answer : Option (Event α)} {q' : List α}
    (hstep : StepOrStay bound q answer q') : Run bound (events ++ answer.toList) q' := by
  cases answer with
  | none =>
      obtain rfl : q' = q := hstep
      rwa [Option.toList_none, List.append_nil]
  | some event => exact h.concat hstep

theorem Run.length_le (h : Run bound events q) : q.length ≤ bound := by
  induction h with
  | nil => exact Nat.zero_le _
  | concat _ hstep ih =>
      cases hstep with
      | pushed a hroom =>
          rw [List.length_append, List.length_singleton]
          omega
      | full hfull => exact ih
      | popped a q => exact Nat.le_of_succ_le ih
      | empty => exact ih

theorem Run.pops_prefix (h : Run bound events q) : pops events <+: pushes events := by
  rw [h.pushes_eq]
  exact List.prefix_append _ _

/-- The number of elements in the queue. -/
theorem Run.length_eq (h : Run bound events q) :
    (pushes events).length = (pops events).length + q.length := by
  rw [h.pushes_eq, List.length_append]

end QpskB210.Lib.Fifo
