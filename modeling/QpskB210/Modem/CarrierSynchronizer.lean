import Mathlib.Algebra.Order.Archimedean.Basic
import Mathlib.Data.Rat.Floor
import QpskB210.Modem.FrameSynchronizer

/-!
# Modem — CarrierSynchronizer

The Costas loop in exact rational arithmetic. It turns each sample by the
phase it has estimated. Its phase is wrapped into a range by loops, which end
(`synchronize_ends`).
-/

namespace QpskB210.Modem

/-- The functions of `<cmath>` that the receiver calls, and `M_PI`. How they
are rounded is left open. -/
structure MathFunctions where
  sqrt : ℚ → ℚ
  cos : ℚ → ℚ
  sin : ℚ → ℚ
  pi : ℚ

structure CarrierSynchronizer where
  phase : ℚ := 0
  freq : ℚ := 0
  alpha : ℚ
  beta : ℚ
deriving DecidableEq, Repr

namespace CarrierSynchronizer

variable (m : MathFunctions)

/-- The constructor: the gains of a critically damped loop. -/
def create (loopBw : ℚ) : Except InvalidArgument CarrierSynchronizer :=
  if loopBw ≤ 0 ∨ loopBw ≥ 1 then
    .error ⟨[.text "CarrierSynchronizer: loop_bw must be in (0, 1), got ", .real loopBw]⟩
  else
    let damping := 1 / m.sqrt 2
    let theta := loopBw / (damping + 1 / (4 * damping))
    let d := 1 + 2 * damping * theta + theta * theta
    .ok { alpha := 4 * damping * theta / d, beta := 4 * theta * theta / d }

def sign (x : ℚ) : ℚ := if x ≥ 0 then 1 else -1

/-- The sample, turned by the current phase estimate. -/
def correct (cs : CarrierSynchronizer) (sample : Sample ℚ) : Sample ℚ :=
  sample * ⟨m.cos (-cs.phase), m.sin (-cs.phase)⟩

/-- The phase error detector. -/
def phaseError (corrected : Sample ℚ) : ℚ :=
  sign corrected.im * corrected.re - sign corrected.re * corrected.im

/-- The loop that brings the phase below π, for at most so many rounds. -/
def wrapDown : ℕ → ℚ → Option ℚ
  | 0, _ => none
  | fuel + 1, phase => if phase > m.pi then wrapDown fuel (phase - 2 * m.pi) else some phase

/-- The loop that brings it above -π. -/
def wrapUp : ℕ → ℚ → Option ℚ
  | 0, _ => none
  | fuel + 1, phase => if phase < -m.pi then wrapUp fuel (phase + 2 * m.pi) else some phase

def wrapPhase (fuel : ℕ) (phase : ℚ) : Option ℚ := (wrapDown m fuel phase).bind (wrapUp m fuel)

/-- The loop filter, with negative feedback. -/
def update (cs : CarrierSynchronizer) (fuel : ℕ) (error : ℚ) : Option CarrierSynchronizer :=
  let freq := cs.freq - cs.beta * error
  let phase := cs.phase - cs.alpha * error + freq
  (wrapPhase m fuel phase).map fun phase => { cs with phase := phase, freq := freq }

/-- `synchronize`, if its loops end within so many rounds. -/
def synchronize (fuel : ℕ) (cs : CarrierSynchronizer) :
    List (Sample ℚ) → Option (List (Sample ℚ) × CarrierSynchronizer)
  | [] => some ([], cs)
  | sample :: samples =>
    let corrected := cs.correct m sample
    (cs.update m fuel (phaseError corrected)).bind fun cs =>
      (cs.synchronize fuel samples).map fun rest => (corrected :: rest.1, rest.2)

def reset (cs : CarrierSynchronizer) : CarrierSynchronizer := { cs with phase := 0, freq := 0 }

/-! ## The gains -/

/-- The gains are those of the other. -/
def SameGains (cs cs' : CarrierSynchronizer) : Prop := cs.alpha = cs'.alpha ∧ cs.beta = cs'.beta

variable {m} {fuel : ℕ} {cs cs' : CarrierSynchronizer} {samples out : List (Sample ℚ)}

theorem SameGains.reset_eq (h : cs.SameGains cs') : cs.reset = cs'.reset := by
  obtain ⟨halpha, hbeta⟩ := h
  rw [reset, reset, halpha, hbeta]

theorem sameGains_update {error : ℚ} (h : cs.update m fuel error = some cs') :
    cs'.SameGains cs := by
  obtain ⟨phase, -, rfl⟩ := Option.map_eq_some_iff.mp h
  exact ⟨rfl, rfl⟩

theorem synchronize_cons {sample : Sample ℚ}
    (h : cs.synchronize m fuel (sample :: samples) = some (out, cs')) :
    ∃ next rest, cs.update m fuel (phaseError (cs.correct m sample)) = some next ∧
      next.synchronize m fuel samples = some (rest, cs') ∧ out = cs.correct m sample :: rest := by
  rw [synchronize, Option.bind_eq_some_iff] at h
  obtain ⟨next, hupdate, h⟩ := h
  obtain ⟨⟨rest, last⟩, hrest, hout⟩ := Option.map_eq_some_iff.mp h
  cases hout
  exact ⟨next, rest, hupdate, hrest, rfl⟩

theorem sameGains_synchronize (h : cs.synchronize m fuel samples = some (out, cs')) :
    cs'.SameGains cs := by
  induction samples generalizing cs out with
  | nil =>
      cases h
      exact ⟨rfl, rfl⟩
  | cons sample samples ih =>
      obtain ⟨next, rest, hupdate, hrest, -⟩ := synchronize_cons h
      have hnext := sameGains_update hupdate
      have hlast := ih hrest
      exact ⟨hlast.1.trans hnext.1, hlast.2.trans hnext.2⟩

/-! ## The loops end -/

theorem wrapDown_mono {fuel' : ℕ} (hfuel : fuel ≤ fuel') {phase wrapped : ℚ}
    (h : wrapDown m fuel phase = some wrapped) : wrapDown m fuel' phase = some wrapped := by
  induction fuel generalizing fuel' phase with
  | zero => cases h
  | succ fuel ih =>
      cases fuel' with
      | zero => omega
      | succ fuel' =>
          rw [wrapDown] at h ⊢
          split
          · rename_i hgt
            rw [if_pos hgt] at h
            exact ih (by omega) h
          · rename_i hle
            rwa [if_neg hle] at h

/-- The loop that brings the phase up is the one that brings it down, turned around. -/
theorem wrapUp_eq (m : MathFunctions) (fuel : ℕ) (phase : ℚ) :
    wrapUp m fuel phase = (wrapDown m fuel (-phase)).map fun wrapped => -wrapped := by
  induction fuel generalizing phase with
  | zero => rfl
  | succ fuel ih =>
      rw [wrapUp, wrapDown]
      by_cases hlow : phase < -m.pi
      · have hnext : -(phase + 2 * m.pi) = -phase - 2 * m.pi := by ring
        rw [if_pos hlow, if_pos (lt_neg_of_lt_neg hlow), ih, hnext]
      · have hhigh : ¬-phase > m.pi := fun hgt => hlow (lt_neg_of_lt_neg hgt)
        rw [if_neg hlow, if_neg hhigh, Option.map_some, neg_neg]

theorem wrapUp_mono {fuel' : ℕ} (hfuel : fuel ≤ fuel') {phase wrapped : ℚ}
    (h : wrapUp m fuel phase = some wrapped) : wrapUp m fuel' phase = some wrapped := by
  rw [wrapUp_eq] at h ⊢
  obtain ⟨below, hdown, rfl⟩ := Option.map_eq_some_iff.mp h
  rw [wrapDown_mono hfuel hdown, Option.map_some]

theorem update_mono {fuel' : ℕ} (hfuel : fuel ≤ fuel') {error : ℚ}
    (h : cs.update m fuel error = some cs') : cs.update m fuel' error = some cs' := by
  obtain ⟨phase, hwrap, rfl⟩ := Option.map_eq_some_iff.mp h
  obtain ⟨below, hdown, hup⟩ := Option.bind_eq_some_iff.mp hwrap
  have hwrap' : wrapPhase m fuel' (cs.phase - cs.alpha * error + (cs.freq - cs.beta * error)) =
      some phase := by
    rw [wrapPhase, wrapDown_mono hfuel hdown, Option.bind_some, wrapUp_mono hfuel hup]
  exact Option.map_eq_some_iff.mpr ⟨phase, hwrap', rfl⟩

/-- More rounds change nothing of what comes out. -/
theorem synchronize_mono {fuel' : ℕ} (hfuel : fuel ≤ fuel')
    (h : cs.synchronize m fuel samples = some (out, cs')) :
    cs.synchronize m fuel' samples = some (out, cs') := by
  induction samples generalizing cs out with
  | nil => exact h
  | cons sample samples ih =>
      obtain ⟨next, rest, hupdate, hrest, rfl⟩ := synchronize_cons h
      rw [synchronize, update_mono hfuel hupdate, Option.bind_some, ih hrest, Option.map_some]

theorem exists_wrapDown (hpi : 0 < m.pi) (phase : ℚ) :
    ∃ fuel wrapped, wrapDown m fuel phase = some wrapped := by
  -- each round takes 2π away, so `n` rounds are enough from `n` times 2π above the range
  have hround : ∀ (n : ℕ) (phase : ℚ), phase ≤ m.pi + n * (2 * m.pi) →
      ∃ wrapped, wrapDown m (n + 1) phase = some wrapped := by
    intro n
    induction n with
    | zero =>
        intro phase hle
        rw [Nat.cast_zero, zero_mul, add_zero] at hle
        exact ⟨phase, by rw [wrapDown, if_neg (not_lt.mpr hle)]⟩
    | succ n ih =>
        intro phase hle
        rw [wrapDown]
        split
        · exact ih (phase - 2 * m.pi) (by push_cast at hle; linarith)
        · exact ⟨phase, rfl⟩
  obtain ⟨n, hn⟩ := Archimedean.arch (phase - m.pi) (by linarith : 0 < 2 * m.pi)
  rw [nsmul_eq_mul] at hn
  exact ⟨n + 1, hround n phase (by linarith)⟩

theorem exists_wrapUp (hpi : 0 < m.pi) (phase : ℚ) :
    ∃ fuel wrapped, wrapUp m fuel phase = some wrapped := by
  obtain ⟨fuel, wrapped, hdown⟩ := exists_wrapDown hpi (-phase)
  exact ⟨fuel, -wrapped, by rw [wrapUp_eq, hdown, Option.map_some]⟩

theorem exists_update (hpi : 0 < m.pi) (cs : CarrierSynchronizer) (error : ℚ) :
    ∃ fuel cs', cs.update m fuel error = some cs' := by
  let phase := cs.phase - cs.alpha * error + (cs.freq - cs.beta * error)
  obtain ⟨downFuel, below, hdown⟩ := exists_wrapDown hpi phase
  obtain ⟨upFuel, wrapped, hup⟩ := exists_wrapUp hpi below
  have hwrap : wrapPhase m (max downFuel upFuel) phase = some wrapped := by
    rw [wrapPhase, wrapDown_mono (le_max_left ..) hdown, Option.bind_some,
      wrapUp_mono (le_max_right ..) hup]
  exact ⟨max downFuel upFuel, _, Option.map_eq_some_iff.mpr ⟨wrapped, hwrap, rfl⟩⟩

/-- The loops end, whatever the samples are. -/
theorem synchronize_ends (hpi : 0 < m.pi) (cs : CarrierSynchronizer) (samples : List (Sample ℚ)) :
    ∃ fuel out cs', cs.synchronize m fuel samples = some (out, cs') := by
  induction samples generalizing cs with
  | nil => exact ⟨0, [], cs, rfl⟩
  | cons sample samples ih =>
      obtain ⟨fuel, next, hupdate⟩ := exists_update hpi cs (phaseError (cs.correct m sample))
      obtain ⟨restFuel, rest, last, hrest⟩ := ih next
      refine ⟨max fuel restFuel, cs.correct m sample :: rest, last, ?_⟩
      rw [synchronize, update_mono (le_max_left ..) hupdate, Option.bind_some,
        synchronize_mono (le_max_right ..) hrest, Option.map_some]

end CarrierSynchronizer

end QpskB210.Modem
