import QpskB210.Ltp.EngineProgress
import QpskB210.Ltp.Reassembly

/-!
# LTP — Network

Two engines and what connects them. Each engine has a node's program around
it: it starts and cancels sessions, lets timers expire, and takes in segments
the peer has sent. The network loses, delays, reorders and duplicates
segments but does not alter them, so at any time a node may receive any
segment the peer ever sent. A `Journal` keeps what the program knows: the
sessions it started, and the segments that arrived.
-/

namespace QpskB210.Ltp

open QpskB210.Lib

/-- A call of `start_session` that returned a session number. -/
structure Start where
  sessionNumber : UInt64
  data : List UInt8
  reliable : Bool
deriving DecidableEq, Repr

/-- The id of an engine, the sessions it started and the segments it received. -/
structure Journal where
  id : UInt64
  started : List Start := []
  received : List LtpSegment := []

structure Node where
  engine : LtpEngine
  journal : Journal

/-- The segment the bytes decode to. -/
def decoded (bytes : List UInt8) : List LtpSegment :=
  match LtpSegment.decode bytes with
  | .ok (some seg) => [seg]
  | _ => []

namespace Node

/-- A new engine with a timer manager. -/
def create (config : LtpEngineConfig) (now : Nat) : Node :=
  { engine := LtpEngine.create config (some { now := now })
    journal := { id := config.localEngineId } }

/-- The program notes the session number that `start_session` returned. -/
def noteStart (journal : Journal) (start : Start) : Journal :=
  if start.sessionNumber = 0 then journal
  else { journal with started := journal.started ++ [start] }

/-- One step of a node, if its engine's call returns. `peer` is the trace of
the engine at the other end. -/
def exec (node : Node) (peer : List Event) : Action → Option Node
  | .startSession data reliable =>
    match node.engine.startSession data reliable with
    | .ok (e, sn) =>
      some { engine := e, journal := noteStart node.journal ⟨sn, data.bytes, reliable⟩ }
    | .error _ => none
  | .cancelSession engineId sessionNumber reason =>
    match node.engine.cancelSession engineId sessionNumber reason with
    | .ok e => some { node with engine := e }
    | .error _ => none
  | .receive bytes =>
    if .sendSegment bytes ∈ peer then
      match node.engine.receiveBytes bytes with
      | .ok e =>
        some { engine := e,
               journal := { node.journal with received := node.journal.received ++ decoded bytes } }
      | .error _ => none
    else none
  | .expire entry =>
    match node.engine.expire entry with
    | .ok e => some { node with engine := e }
    | .error _ => none
  | .handleTimerExpiry _ => none

end Node

structure Net where
  a : Node
  b : Node

inductive Side where
  | a
  | b
deriving DecidableEq, Repr

namespace Net

/-- One step of one node. -/
def exec (n : Net) : Side × Action → Option Net
  | (.a, action) => (n.a.exec n.b.engine.trace action).map fun node => { n with a := node }
  | (.b, action) => (n.b.exec n.a.engine.trace action).map fun node => { n with b := node }

/-- Some steps, one after the other, as long as each passes the check. -/
def run (check : Net → Side × Action → Bool) (n : Net) (steps : List (Side × Action)) :
    Option Net :=
  steps.foldlM (fun n step => if check n step then n.exec step else none) n

end Net

/-- The runs of two engines over the network. -/
def network (configA configB : LtpEngineConfig) : System Net (Side × Action) where
  init n := ∃ nowA nowB, n = { a := Node.create configA nowA, b := Node.create configB nowB }
  step n step n' := n.exec step = some n'

/-- A run whose steps pass a check of the guard is a guarded run. -/
theorem path_of_run {configA configB : LtpEngineConfig} {check : Net → Side × Action → Bool}
    {guard : Net → Side × Action → Prop} (hcheck : ∀ n step, check n step = true → guard n step)
    {n n' : Net} {steps : List (Side × Action)} (h : n.run check steps = some n') :
    (network configA configB).Path guard n n' := by
  induction steps generalizing n with
  | nil =>
      cases h
      exact .refl
  | cons step steps ih =>
      rw [Net.run, List.foldlM_cons, Option.bind_eq_bind, Option.bind_eq_some_iff] at h
      obtain ⟨n₁, hstep, hrest⟩ := h
      by_cases hpass : check n step = true
      · rw [if_pos hpass] at hstep
        exact .head ⟨step, hcheck n step hpass, hstep⟩ (ih hrest)
      · rw [if_neg hpass] at hstep
        cases hstep

theorem node_exec {node node' : Node} {peer : List Event} {a : Action}
    (h : node.exec peer a = some node') : node.engine.exec a = .ok node'.engine := by
  cases a with
  | startSession data reliable =>
      rw [Node.exec] at h
      split at h
      · rename_i hcall
        cases h
        exact bind_eq_ok.mpr ⟨_, hcall, rfl⟩
      · cases h
  | cancelSession engineId sessionNumber reason =>
      rw [Node.exec] at h
      split at h
      · rename_i hcall
        cases h
        exact hcall
      · cases h
  | receive bytes =>
      rw [Node.exec] at h
      split at h
      · split at h
        · rename_i hcall
          cases h
          exact hcall
        · cases h
      · cases h
  | expire entry =>
      rw [Node.exec] at h
      split at h
      · rename_i hcall
        cases h
        exact hcall
      · cases h
  | handleTimerExpiry event => cases h

end QpskB210.Ltp
