import QpskB210.Ltp.Network

/-!
# LTP — Link

Two engines joined by a channel in each direction. A channel loses nothing
and keeps the order of what it carries, and no timer expires; so a link steps
only where a segment is in flight, and the engine at the other end takes in
the oldest one. `survivors` is how a run starts: with the segments of a first
transmission of which some were lost.
-/

namespace QpskB210.Ltp

open QpskB210.Lib

/-! ## What an engine sends -/

/-- The bytes of a `send_segment` call. -/
def Event.sent : Event → Option (List UInt8)
  | .sendSegment bytes => some bytes
  | _ => none

/-- The segments sent, in order. -/
def sends (trace : List Event) : List (List UInt8) := trace.filterMap Event.sent

/-- The calls to the client, in order. -/
def upcalls (trace : List Event) : List Event := trace.filter fun event => event.sent.isNone

@[simp] theorem upcalls_append (trace trace' : List Event) :
    upcalls (trace ++ trace') = upcalls trace ++ upcalls trace' :=
  List.filter_append _ _

@[simp] theorem sends_append (trace trace' : List Event) :
    sends (trace ++ trace') = sends trace ++ sends trace' :=
  List.filterMap_append

theorem sends_sent (segments : List LtpSegment) :
    sends (events (segments.map Act.send)) = segments.map LtpSegment.wire := by
  induction segments with
  | nil => rfl
  | cons seg segments ih =>
      rw [List.map_cons, events_send, List.map_cons, ← ih]
      rfl

theorem upcalls_sent (segments : List LtpSegment) :
    upcalls (events (segments.map Act.send)) = [] := by
  induction segments with
  | nil => rfl
  | cons seg segments ih =>
      rw [List.map_cons, events_send, ← ih]
      rfl

/-- The segments an engine sent since its trace was this long. -/
def LtpEngine.sentSince (e : LtpEngine) (trace : List Event) : List (List UInt8) :=
  sends (e.trace.drop trace.length)

theorem Effect.sentSince {e e' : LtpEngine} {key : SessionKey} {held : Option LtpSession}
    {acts : List Act} {rounds : UInt64} (h : Effect e e' key held acts rounds) :
    e'.sentSince e.trace = sends (events acts) := by
  rw [LtpEngine.sentSince, h.drop_trace]

/-! ## Losses -/

section Survivors

variable {α β : Type} (lost : Finset Nat)

/-- The entries of a list whose positions, counted from `k`, are not lost. -/
def survivors : Nat → List α → List α
  | _, [] => []
  | k, x :: xs => if k ∈ lost then survivors (k + 1) xs else x :: survivors (k + 1) xs

variable {lost} {k : Nat}

theorem survivors_map (f : α → β) (xs : List α) :
    survivors lost k (xs.map f) = (survivors lost k xs).map f := by
  induction xs generalizing k with
  | nil => rfl
  | cons x xs ih =>
      rw [List.map_cons, survivors, survivors, ih]
      split <;> rfl

theorem survivors_append (xs ys : List α) :
    survivors lost k (xs ++ ys) = survivors lost k xs ++ survivors lost (k + xs.length) ys := by
  induction xs generalizing k with
  | nil => rfl
  | cons x xs ih =>
      rw [List.cons_append, survivors, survivors, ih, List.length_cons, Nat.add_right_comm,
        Nat.add_assoc]
      split <;> rfl

theorem mem_survivors {xs : List α} {x : α} :
    x ∈ survivors lost k xs ↔ ∃ i, k + i ∉ lost ∧ xs[i]? = some x := by
  induction xs generalizing k with
  | nil => simp [survivors]
  | cons y ys ih =>
      have hsplit : (∃ i, k + i ∉ lost ∧ (y :: ys)[i]? = some x) ↔
          (k ∉ lost ∧ y = x) ∨ ∃ i, k + 1 + i ∉ lost ∧ ys[i]? = some x := by
        constructor
        · intro h
          obtain ⟨i, hi, hx⟩ := h
          cases i with
          | zero => exact .inl ⟨hi, by simpa using hx⟩
          | succ i => exact .inr ⟨i, by rwa [Nat.add_right_comm, Nat.add_assoc], by simpa using hx⟩
        · intro h
          rcases h with ⟨hk, rfl⟩ | ⟨i, hi, hx⟩
          · exact ⟨0, hk, rfl⟩
          · exact ⟨i + 1, by rwa [Nat.add_right_comm, Nat.add_assoc] at hi, by simpa using hx⟩
      rw [hsplit, ← ih, survivors]
      split <;> simp_all [eq_comm]

theorem survivors_empty (xs : List α) : survivors ∅ k xs = xs := by
  induction xs generalizing k with
  | nil => rfl
  | cons x xs ih => rw [survivors, if_neg (Finset.notMem_empty k), ih]

end Survivors

/-! ## The link -/

/-- Two engines, and the segments in flight to each, the oldest first. -/
structure Link where
  a : LtpEngine
  b : LtpEngine
  toA : List (List UInt8) := []
  toB : List (List UInt8) := []

namespace Link

/-- No segment is in flight. -/
def Quiet (link : Link) : Prop := link.toA = [] ∧ link.toB = []

/-- The side takes in the oldest segment in flight to it. -/
def exec (link : Link) : Side → Option Link
  | .a =>
    match link.toA with
    | [] => none
    | bytes :: rest =>
      match link.a.receiveBytes bytes with
      | .ok e => some { link with a := e, toA := rest, toB := link.toB ++ e.sentSince link.a.trace }
      | .error _ => none
  | .b =>
    match link.toB with
    | [] => none
    | bytes :: rest =>
      match link.b.receiveBytes bytes with
      | .ok e => some { link with b := e, toB := rest, toA := link.toA ++ e.sentSince link.b.trace }
      | .error _ => none

/-- The runs of a link from a given state. -/
def deliveries (start : Link) : System Link Side where
  init link := link = start
  step link side link' := link.exec side = some link'

variable {start link : Link}

theorem Quiet.stuck (h : link.Quiet) (side : Side) (link' : Link) :
    ¬ (deliveries start).step link side link' := by
  intro hstep
  replace hstep : link.exec side = some link' := hstep
  obtain ⟨hA, hB⟩ := h
  cases side with
  | a =>
      rw [exec, hA] at hstep
      cases hstep
  | b =>
      rw [exec, hB] at hstep
      cases hstep

/-- With nothing on the way to A, the oldest segment on the way to B is taken
in next. -/
theorem leads_b {a b b' : LtpEngine} {bytes : List UInt8} {rest : List (List UInt8)}
    {sent : List (List UInt8)} (h : b.receiveBytes bytes = .ok b')
    (hsent : b'.sentSince b.trace = sent) :
    (deliveries start).Leads { a := a, b := b, toB := bytes :: rest }
      { a := a, b := b', toA := sent, toB := rest } := by
  have hexec : exec { a := a, b := b, toB := bytes :: rest } .b =
      some { a := a, b := b', toA := sent, toB := rest } := by
    rw [exec]
    dsimp only
    rw [h, ← hsent]
    rfl
  refine .single ⟨⟨.b, hexec⟩, fun side link' hstep => ?_⟩
  cases side with
  | a => cases hstep
  | b => exact (Option.some.inj (hexec.symm.trans hstep)).symm

theorem leads_a {a a' b : LtpEngine} {bytes : List UInt8} {rest : List (List UInt8)}
    {sent : List (List UInt8)} (h : a.receiveBytes bytes = .ok a')
    (hsent : a'.sentSince a.trace = sent) :
    (deliveries start).Leads { a := a, b := b, toA := bytes :: rest }
      { a := a', b := b, toA := rest, toB := sent } := by
  have hexec : exec { a := a, b := b, toA := bytes :: rest } .a =
      some { a := a', b := b, toA := rest, toB := sent } := by
    rw [exec]
    dsimp only
    rw [h, ← hsent]
    rfl
  refine .single ⟨⟨.a, hexec⟩, fun side link' hstep => ?_⟩
  cases side with
  | a => exact (Option.some.inj (hexec.symm.trans hstep)).symm
  | b => cases hstep

/-- A run without a choice to where nothing is in flight: every run from
there gets quiet, and only in that state. -/
theorem quiet_of_leads {link' : Link} (h : (deliveries start).Leads start link')
    (hquiet : link'.Quiet) :
    (deliveries start).Inevitable Quiet start ∧
      ∀ link, (deliveries start).Reachable System.free link → link.Quiet → link = link' := by
  refine ⟨h.inevitable.mono fun link hlink => hlink ▸ hquiet, ?_⟩
  intro link hreach hdone
  obtain ⟨s₀, hs₀, hpath⟩ := hreach
  cases hs₀
  refine h.inevitable.of_stuck ?_ hpath fun side link'' => hdone.stuck side link''
  intro s hs side link''
  exact hs ▸ hquiet.stuck side link''

end Link

end QpskB210.Ltp
