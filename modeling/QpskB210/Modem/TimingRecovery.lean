import Mathlib.Algebra.Order.Archimedean.Basic
import Mathlib.Data.Rat.Floor
import QpskB210.Lib.PiecewiseLinear
import QpskB210.Lib.Transition
import QpskB210.Modem.Types

/-!
# Modem — TimingRecovery

The timing recovery loop in exact rational arithmetic. Each round moves
`index` on by `omega_ + mu_`; `omega_` is clamped, and `mu_` is the timing
error of the round, whatever its size. A round moves forward exactly if that
error is above a threshold (`advance_pos_iff`). After a round that moves
forward by little the interpolated sample cannot have changed by much, so the
next one moves on by more: a loop whose rounds all move forward ends.
-/

namespace QpskB210.Modem

open QpskB210.Lib

/-- A complex sample. -/
structure Iq where
  re : ℚ := 0
  im : ℚ := 0
deriving DecidableEq, Repr

/-- `Re(a * conj(b))`. -/
def Iq.dot (a b : Iq) : ℚ := a.re * b.re + a.im * b.im

/-- `INV_SQRT2`, which is this `float`. -/
def invSqrt2 : ℚ := 11863283 / 16777216

def qpskDecision (s : Iq) : Iq where
  re := if s.re ≥ 0 then invSqrt2 else -invSqrt2
  im := if s.im ≥ 0 then invSqrt2 else -invSqrt2

def interpolate (a b : Iq) (mu : ℚ) : Iq where
  re := a.re + mu * (b.re - a.re)
  im := a.im + mu * (b.im - a.im)

structure TimingRecovery where
  mu : ℚ
  gainMu : ℚ
  gainOmega : ℚ
  omega : ℚ
  sps : ℤ
  prevSample : Iq
  prevDecision : Iq
deriving DecidableEq, Repr

/-- What `static_cast<size_t>` makes of a number, where that is defined: it
cuts off the fraction, and only then must the number be no less than 0. -/
def toSize? (x : ℚ) : Option ℕ := if x ≤ -1 then none else some ⌊x⌋₊

/-- The loop of `recover`, at its head. -/
structure RecoverLoop where
  recovery : TimingRecovery
  index : ℚ := 0
  out : List Iq := []
deriving DecidableEq, Repr

/-- What a round of the loop comes to. -/
inductive Round where
  | done
  /-- The conversion of `index` is undefined. -/
  | undefined
  | next (s : RecoverLoop)
deriving DecidableEq, Repr

namespace TimingRecovery

/-- The constructor. -/
def create (sps : ℤ) (gainMu : ℚ) : Except InvalidArgument TimingRecovery :=
  if sps < 2 then
    .error ⟨[.text "TimingRecovery: sps must be >= 2, got ", .int sps]⟩
  else if gainMu ≤ 0 ∨ gainMu ≥ 1 then
    .error ⟨[.text "TimingRecovery: gain_mu must be in (0, 1), got ", .real gainMu]⟩
  else
    .ok
      { mu := 0, gainMu := gainMu, gainOmega := 1 / 4 * gainMu * gainMu, omega := sps, sps := sps
        prevSample := {}, prevDecision := {} }

/-- The timing error detector. -/
def error (tr : TimingRecovery) (currentSample : Iq) : ℚ :=
  tr.prevDecision.dot currentSample - (qpskDecision currentSample).dot tr.prevSample

/-- `omega_`, with the integral correction and the clamp. -/
def clampedOmega (tr : TimingRecovery) (error : ℚ) : ℚ :=
  let omega := tr.omega + tr.gainOmega * error
  let omegaMin : ℚ := tr.sps * (1 / 2)
  let omegaMax : ℚ := tr.sps * (3 / 2)
  let omega := if omega < omegaMin then omegaMin else omega
  if omega > omegaMax then omegaMax else omega

/-- `reset`. -/
def reset (tr : TimingRecovery) : TimingRecovery :=
  { tr with mu := 0, omega := tr.sps, prevSample := {}, prevDecision := {} }

end TimingRecovery

namespace RecoverLoop

/-- The part of a round that has found its two samples. -/
def update (s : RecoverLoop) (currentSample : Iq) : RecoverLoop :=
  let tr := s.recovery
  let error := tr.error currentSample
  let mu := tr.mu + tr.gainMu * error
  let omega := tr.clampedOmega error
  { recovery :=
      { tr with
        mu := 0, omega := omega
        prevSample := currentSample, prevDecision := qpskDecision currentSample }
    index := s.index + (omega + mu)
    out := s.out ++ [currentSample] }

def round (samples : List Iq) (s : RecoverLoop) : Round :=
  if s.index + 1 < samples.length then
    match toSize? s.index with
    | none => .undefined
    | some i =>
      let frac := s.index - i
      if h : i + 1 ≥ samples.length then .done
      else
        have hnext := Nat.lt_of_not_ge h
        .next (s.update (interpolate
          (samples.get ⟨i, Nat.lt_of_succ_lt hnext⟩) (samples.get ⟨i + 1, hnext⟩) frac))
  else .done

end RecoverLoop

/-- How `recover` ends, with the samples recovered and the new state. -/
inductive Recovered where
  | returned (recovery : TimingRecovery) (out : List Iq)
  | undefined
deriving DecidableEq, Repr

/-- The loop, for at most so many rounds. -/
def recoverLoop (samples : List Iq) : ℕ → RecoverLoop → Option Recovered
  | 0, _ => none
  | fuel + 1, s =>
    match s.round samples with
    | .done => some (.returned s.recovery s.out)
    | .undefined => some .undefined
    | .next s' => recoverLoop samples fuel s'

/-- `recover`, if its loop ends within so many rounds. -/
def TimingRecovery.recover (tr : TimingRecovery) (samples : List Iq) (fuel : ℕ) :
    Option Recovered :=
  if samples.isEmpty then some (.returned tr [])
  else recoverLoop samples fuel { recovery := tr }

/-! ## Progress -/

/-- Some rounds of the loop. -/
def Rounds (samples : List Iq) : RecoverLoop → RecoverLoop → Prop :=
  Relation.ReflTransGen fun s s' => s.round samples = .next s'

/-- The loop goes on. -/
def RecoverLoop.Continues (samples : List Iq) (s : RecoverLoop) : Prop :=
  s.index + 1 < samples.length

/-- Every round starts at no negative index, finds its samples and ends
further on; and the loop ends. -/
structure Progresses (samples : List Iq) (tr : TimingRecovery) : Prop where
  rounds : ∀ s, Rounds samples { recovery := tr } s → s.Continues samples →
    0 ≤ s.index ∧ ∃ s', s.round samples = .next s' ∧ s.index < s'.index
  ends : ∃ fuel tr' out, tr.recover samples fuel = some (.returned tr' out)

/-- The sample that a round interpolates at its index. -/
def RecoverLoop.currentSample (samples : List Iq) (s : RecoverLoop) : Iq where
  re := PiecewiseLinear.value (fun i => (samples.getD i {}).re) s.index
  im := PiecewiseLinear.value (fun i => (samples.getD i {}).im) s.index

/-- The timing error is above what takes the whole advance back. -/
def RecoverLoop.Steady (samples : List Iq) (s : RecoverLoop) : Prop :=
  -max ((s.recovery.sps : ℚ) / 2) (s.recovery.omega / (1 + s.recovery.gainMu / 4)) <
    s.recovery.gainMu * s.recovery.error (s.currentSample samples)

/-! ## States -/

inductive TimingCall where
  | recover (samples : List Iq)
  | reset

/-- Calls of one timing recovery. -/
def timingCalls (sps : ℤ) (gainMu : ℚ) : System TimingRecovery TimingCall where
  init tr := TimingRecovery.create sps gainMu = .ok tr
  step tr call tr' :=
    match call with
    | .recover samples => ∃ fuel out, tr.recover samples fuel = some (.returned tr' out)
    | .reset => tr' = tr.reset

/-- What every state between two rounds meets. -/
structure TimingRecovery.Tuned (tr : TimingRecovery) : Prop where
  sps : 2 ≤ tr.sps
  gainMu_pos : 0 < tr.gainMu
  gainMu_lt : tr.gainMu < 1
  gainOmega : tr.gainOmega = 1 / 4 * tr.gainMu * tr.gainMu
  mu : tr.mu = 0
  omega_ge : (tr.sps : ℚ) / 2 ≤ tr.omega
  omega_le : tr.omega ≤ tr.sps * (3 / 2)

namespace TimingRecovery

variable {tr : TimingRecovery}

/-- The state after the constructor. -/
def fresh (sps : ℤ) (gainMu : ℚ) : TimingRecovery where
  mu := 0
  gainMu := gainMu
  gainOmega := 1 / 4 * gainMu * gainMu
  omega := sps
  sps := sps
  prevSample := {}
  prevDecision := {}

theorem create_eq_ok_iff {sps : ℤ} {gainMu : ℚ} :
    create sps gainMu = .ok tr ↔
      (2 ≤ sps ∧ 0 < gainMu ∧ gainMu < 1) ∧ tr = fresh sps gainMu := by
  unfold create
  split
  · rename_i hsps
    exact iff_of_false (by simp) fun h => absurd h.1.1 (not_le.mpr hsps)
  · rename_i hsps
    split
    · rename_i hgain
      refine iff_of_false (by simp) fun h => ?_
      rcases hgain with hlow | hhigh
      · exact absurd h.1.2.1 (not_lt.mpr hlow)
      · exact absurd h.1.2.2 (not_lt.mpr hhigh)
    · rename_i hgain
      rw [not_or, not_le, ge_iff_le, not_le] at hgain
      rw [and_iff_right ⟨not_lt.mp hsps, hgain⟩, Except.ok.injEq, eq_comm]
      rfl

theorem tuned_create {sps : ℤ} {gainMu : ℚ} (h : create sps gainMu = .ok tr) : tr.Tuned := by
  obtain ⟨⟨hsps, hpos, hlt⟩, rfl⟩ := create_eq_ok_iff.mp h
  have htwo : (2 : ℚ) ≤ sps := by exact_mod_cast hsps
  refine ⟨hsps, hpos, hlt, rfl, rfl, ?_, ?_⟩
  · show (sps : ℚ) / 2 ≤ sps
    linarith
  · show (sps : ℚ) ≤ sps * (3 / 2)
    linarith

theorem Tuned.two_le (h : tr.Tuned) : (2 : ℚ) ≤ tr.sps := by exact_mod_cast h.sps

theorem Tuned.clampedOmega_eq (h : tr.Tuned) (e : ℚ) :
    tr.clampedOmega e =
      min (max (tr.omega + 1 / 4 * tr.gainMu * tr.gainMu * e) (tr.sps / 2)) (tr.sps * (3 / 2)) := by
  have hsps := h.two_le
  have hhalf : (tr.sps : ℚ) * (1 / 2) = tr.sps / 2 := by ring
  unfold clampedOmega
  rw [h.gainOmega, hhalf]
  dsimp only
  split
  · rename_i hlow
    rw [if_neg (by linarith), max_eq_right hlow.le, min_eq_left (by linarith)]
  · rename_i hlow
    rw [max_eq_left (not_lt.mp hlow)]
    split
    · rename_i hhigh
      exact (min_eq_right hhigh.le).symm
    · rename_i hhigh
      exact (min_eq_left (not_lt.mp hhigh)).symm

theorem Tuned.le_clampedOmega (h : tr.Tuned) (e : ℚ) : (tr.sps : ℚ) / 2 ≤ tr.clampedOmega e := by
  have hsps := h.two_le
  rw [h.clampedOmega_eq]
  exact le_min (le_max_right _ _) (by linarith)

theorem Tuned.clampedOmega_le (h : tr.Tuned) (e : ℚ) :
    tr.clampedOmega e ≤ tr.sps * (3 / 2) := by
  rw [h.clampedOmega_eq]
  exact min_le_right _ _

/-- The advance of a round is positive exactly above the threshold. -/
theorem Tuned.advance_pos_iff (h : tr.Tuned) (e : ℚ) :
    0 < tr.clampedOmega e + tr.gainMu * e ↔
      -max ((tr.sps : ℚ) / 2) (tr.omega / (1 + tr.gainMu / 4)) < tr.gainMu * e := by
  have hsps := h.two_le
  have hgain := h.gainMu_pos
  have hscale : 0 < 1 + tr.gainMu / 4 := by linarith
  have homega : 0 < tr.omega := by linarith [h.omega_ge]
  have hmax : 0 < max ((tr.sps : ℚ) / 2) (tr.omega / (1 + tr.gainMu / 4)) :=
    lt_max_of_lt_left (by linarith)
  rcases le_or_gt 0 e with hpos | hneg
  · have hcorrection : 0 ≤ tr.gainMu * e := mul_nonneg hgain.le hpos
    have hclamped := h.le_clampedOmega e
    exact iff_of_true (by linarith) (by linarith)
  · -- below the upper bound, only the lower one can clamp
    have hcorrection : tr.gainMu * e < 0 := mul_neg_of_pos_of_neg hgain hneg
    have hintegral : 1 / 4 * tr.gainMu * tr.gainMu * e < 0 := by
      have := mul_neg_of_pos_of_neg hgain hcorrection
      linarith
    have hhigh := h.omega_le
    rw [h.clampedOmega_eq, min_eq_left (max_le (by linarith) (by linarith)), neg_lt,
      ← neg_lt_iff_pos_add, lt_max_iff, lt_max_iff, lt_div_iff₀ hscale, or_comm]
    refine or_congr_right ?_
    constructor <;> intro hlt <;> linarith

theorem tuned_reset (h : tr.Tuned) : tr.reset.Tuned where
  sps := h.sps
  gainMu_pos := h.gainMu_pos
  gainMu_lt := h.gainMu_lt
  gainOmega := h.gainOmega
  mu := rfl
  omega_ge := by
    show (tr.sps : ℚ) / 2 ≤ tr.sps
    linarith [h.two_le]
  omega_le := by
    show (tr.sps : ℚ) ≤ tr.sps * (3 / 2)
    linarith [h.two_le]

end TimingRecovery

namespace RecoverLoop

open TimingRecovery

variable {samples : List Iq} {s s' : RecoverLoop}

theorem tuned_update (h : s.recovery.Tuned) (x : Iq) : (s.update x).recovery.Tuned where
  sps := h.sps
  gainMu_pos := h.gainMu_pos
  gainMu_lt := h.gainMu_lt
  gainOmega := h.gainOmega
  mu := rfl
  omega_ge := h.le_clampedOmega _
  omega_le := h.clampedOmega_le _

/-- A round that goes on has updated the loop with some sample. -/
theorem exists_of_round (h : s.round samples = .next s') : ∃ x, s' = s.update x := by
  unfold round at h
  split at h
  · split at h
    · cases h
    · split at h
      · cases h
      · cases h
        exact ⟨_, rfl⟩
  · cases h

/-- Rounds keep what every update keeps. -/
theorem rounds_preserves {P : TimingRecovery → Prop}
    (hupdate : ∀ (s : RecoverLoop) x, P s.recovery → P (s.update x).recovery)
    (h : P s.recovery) (hrounds : Rounds samples s s') : P s'.recovery := by
  induction hrounds with
  | refl => exact h
  | tail _ hround ih =>
      obtain ⟨x, rfl⟩ := exists_of_round hround
      exact hupdate _ x ih

theorem tuned_rounds (h : s.recovery.Tuned) (hrounds : Rounds samples s s') :
    s'.recovery.Tuned :=
  rounds_preserves (fun _ x h => tuned_update h x) h hrounds

theorem floor_succ_lt (hindex : 0 ≤ s.index) (hgo : s.Continues samples) :
    ⌊s.index⌋₊ + 1 < samples.length := by
  have hlt : ((⌊s.index⌋₊ + 1 : ℕ) : ℚ) < samples.length := by
    rw [Nat.cast_add, Nat.cast_one]
    exact lt_of_le_of_lt (add_le_add_left (Nat.floor_le hindex) 1) hgo
  exact_mod_cast hlt

/-- At no negative index, the conversion and both accesses are in range. -/
theorem round_eq (hindex : 0 ≤ s.index) (hgo : s.Continues samples) :
    s.round samples = .next (s.update (s.currentSample samples)) := by
  have hsize : toSize? s.index = some ⌊s.index⌋₊ := if_neg (by linarith)
  have hin := floor_succ_lt hindex hgo
  unfold Continues at hgo
  rw [round, if_pos hgo, hsize]
  dsimp only
  rw [dif_neg (by omega)]
  congr 2
  simp only [interpolate, currentSample, PiecewiseLinear.value, List.get_eq_getElem,
    List.getD_eq_getElem?_getD, List.getElem?_eq_getElem hin,
    List.getElem?_eq_getElem (Nat.lt_of_succ_lt hin), Option.getD_some]

theorem index_update (h : s.recovery.Tuned) (x : Iq) :
    (s.update x).index = s.index +
      (s.recovery.clampedOmega (s.recovery.error x) + s.recovery.gainMu * s.recovery.error x) := by
  rw [update, h.mu, zero_add]

/-- One round moves forward exactly if it is steady. -/
theorem lt_index_update_iff (h : s.recovery.Tuned) :
    s.index < (s.update (s.currentSample samples)).index ↔ s.Steady samples := by
  rw [index_update h, lt_add_iff_pos_right, h.advance_pos_iff, Steady]

theorem continues_of_round (h : s.round samples = .next s') : s.Continues samples := by
  unfold round at h
  split at h
  · assumption
  · cases h

/-- As long as all rounds are steady, no index is negative. -/
theorem index_nonneg (h : s.recovery.Tuned) (hstart : 0 ≤ s.index)
    (hsteady : ∀ s', Rounds samples s s' → s'.Continues samples → s'.Steady samples)
    (hrounds : Rounds samples s s') : 0 ≤ s'.index := by
  induction hrounds with
  | refl => exact hstart
  | @tail s₁ s₂ hbefore hround ih =>
      have hgo := continues_of_round hround
      have htuned := tuned_rounds h hbefore
      rw [round_eq ih hgo] at hround
      cases hround
      exact ih.trans ((lt_index_update_iff htuned).mpr (hsteady s₁ hbefore hgo)).le

/-! ## The end of the loop -/

/-- The previous sample is the one at an earlier index. -/
structure Follows (samples : List Iq) (s : RecoverLoop) (p : ℚ) : Prop where
  nonneg : 0 ≤ p
  before : p < s.index
  sample : s.recovery.prevSample =
    ⟨PiecewiseLinear.value (fun i => (samples.getD i {}).re) p,
      PiecewiseLinear.value (fun i => (samples.getD i {}).im) p⟩
  decision : s.recovery.prevDecision = qpskDecision s.recovery.prevSample

end RecoverLoop

theorem invSqrt2_pos : 0 < invSqrt2 := by
  unfold invSqrt2
  norm_num

/-- The error of one component is no further below 0 than it has changed. -/
theorem decision_error_ge (a b : ℚ) :
    -(invSqrt2 * |b - a|) ≤
      (if a ≥ 0 then invSqrt2 else -invSqrt2) * b -
        (if b ≥ 0 then invSqrt2 else -invSqrt2) * a := by
  have hpos := invSqrt2_pos
  have hup := mul_le_mul_of_nonneg_left (le_abs_self (b - a)) hpos.le
  have hdown := mul_le_mul_of_nonneg_left (neg_abs_le (b - a)) hpos.le
  split <;> split <;> rename_i ha hb
  · linarith
  · have := mul_nonneg hpos.le ha
    linarith
  · have := mul_nonneg hpos.le (neg_nonneg.mpr (not_le.mp ha).le)
    linarith
  · linarith

namespace RecoverLoop

variable {samples : List Iq} {s s' : RecoverLoop} {p bound : ℚ}

/-- A short step is followed by a small error. -/
theorem Follows.error_ge (h : Follows samples s p)
    (hre : ∀ i, |(samples.getD (i + 1) {}).re - (samples.getD i {}).re| ≤ bound)
    (him : ∀ i, |(samples.getD (i + 1) {}).im - (samples.getD i {}).im| ≤ bound) :
    -(2 * bound * (s.index - p)) ≤ s.recovery.error (s.currentSample samples) := by
  have hbound : 0 ≤ bound := (abs_nonneg _).trans (hre 0)
  have hpart (f : ℕ → ℚ) (hf : ∀ i, |f (i + 1) - f i| ≤ bound) :
      -(bound * (s.index - p)) ≤
        (if PiecewiseLinear.value f p ≥ 0 then invSqrt2 else -invSqrt2) *
          PiecewiseLinear.value f s.index -
        (if PiecewiseLinear.value f s.index ≥ 0 then invSqrt2 else -invSqrt2) *
          PiecewiseLinear.value f p := by
    have hgrowth := PiecewiseLinear.growth_le hf h.nonneg h.before.le
    have herror := decision_error_ge (PiecewiseLinear.value f p) (PiecewiseLinear.value f s.index)
    have hscaled : invSqrt2 * |PiecewiseLinear.value f s.index - PiecewiseLinear.value f p| ≤
        |PiecewiseLinear.value f s.index - PiecewiseLinear.value f p| := by
      refine mul_le_of_le_one_left (abs_nonneg _) ?_
      unfold invSqrt2
      norm_num
    linarith
  have hi := hpart (fun i => (samples.getD i {}).re) hre
  have hq := hpart (fun i => (samples.getD i {}).im) him
  rw [TimingRecovery.error, h.decision, h.sample]
  dsimp only [Iq.dot, qpskDecision, currentSample] at hi hq ⊢
  linarith

/-- In one round the index, with the weighted index before it, grows by no
less than 1. -/
theorem Follows.growth_ge (h : Follows samples s p) (htuned : s.recovery.Tuned)
    (hre : ∀ i, |(samples.getD (i + 1) {}).re - (samples.getD i {}).re| ≤ bound)
    (him : ∀ i, |(samples.getD (i + 1) {}).im - (samples.getD i {}).im| ≤ bound) :
    s.index + 2 * bound * p + 1 ≤
      (s.update (s.currentSample samples)).index + 2 * bound * s.index := by
  have hbound : 0 ≤ bound := (abs_nonneg _).trans (hre 0)
  have hloss : 0 ≤ 2 * bound * (s.index - p) :=
    mul_nonneg (by linarith) (sub_nonneg.mpr h.before.le)
  have herror := mul_le_mul_of_nonneg_left (h.error_ge hre him) htuned.gainMu_pos.le
  have hgain := mul_le_mul_of_nonneg_right htuned.gainMu_lt.le hloss
  have hclamped := htuned.le_clampedOmega (s.recovery.error (s.currentSample samples))
  have hsps := htuned.two_le
  rw [index_update htuned]
  linarith

theorem recoverLoop_of_stop (h : ¬s.Continues samples) :
    recoverLoop samples 1 s = some (.returned s.recovery s.out) := by
  have hround : s.round samples = .done := if_neg h
  rw [recoverLoop, hround]

theorem recoverLoop_of_round (h : s.round samples = .next s') (fuel : ℕ) :
    recoverLoop samples (fuel + 1) s = recoverLoop samples fuel s' := by
  rw [recoverLoop, h]

/-- A loop of steady rounds ends, by induction on a bound of its rounds. -/
theorem Follows.ends (hre : ∀ i, |(samples.getD (i + 1) {}).re - (samples.getD i {}).re| ≤ bound)
    (him : ∀ i, |(samples.getD (i + 1) {}).im - (samples.getD i {}).im| ≤ bound) {k : ℕ}
    (h : Follows samples s p) (htuned : s.recovery.Tuned)
    (hsteady : ∀ s', Rounds samples s s' → s'.Continues samples → s'.Steady samples)
    (hk : samples.length * (1 + 2 * bound) < s.index + 2 * bound * p + k) :
    ∃ fuel tr' out, recoverLoop samples fuel s = some (.returned tr' out) := by
  have hbound : 0 ≤ bound := (abs_nonneg _).trans (hre 0)
  induction k generalizing s p with
  | zero =>
      refine ⟨1, _, _, recoverLoop_of_stop fun hgo => ?_⟩
      unfold Continues at hgo
      have hindex : s.index * (1 + 2 * bound) ≤ samples.length * (1 + 2 * bound) :=
        mul_le_mul_of_nonneg_right (by linarith) (by linarith)
      have hbefore : 2 * bound * p ≤ 2 * bound * s.index :=
        mul_le_mul_of_nonneg_left h.before.le (by linarith)
      rw [Nat.cast_zero] at hk
      linarith
  | succ k ih =>
      by_cases hgo : s.Continues samples
      · have hindex : 0 ≤ s.index := h.nonneg.trans h.before.le
        have hround := round_eq hindex hgo
        have hnext : Follows samples (s.update (s.currentSample samples)) s.index :=
          ⟨hindex, (lt_index_update_iff htuned).mpr (hsteady s .refl hgo), rfl, rfl⟩
        have hgrowth := h.growth_ge htuned hre him
        rw [Nat.cast_add, Nat.cast_one] at hk
        obtain ⟨fuel, tr', out, hloop⟩ := ih hnext (tuned_update htuned _)
          (fun s' hrounds => hsteady s' (.head hround hrounds)) (by linarith)
        exact ⟨fuel + 1, tr', out, (recoverLoop_of_round hround fuel).trans hloop⟩
      · exact ⟨1, _, _, recoverLoop_of_stop hgo⟩

/-- No samples change faster than by some bound. -/
theorem exists_bound (samples : List Iq) : ∃ bound,
    (∀ i, |(samples.getD (i + 1) {}).re - (samples.getD i {}).re| ≤ bound) ∧
      ∀ i, |(samples.getD (i + 1) {}).im - (samples.getD i {}).im| ≤ bound := by
  have hrest (i : ℕ) (hi : samples.length ≤ i) : samples.getD i {} = {} := by
    rw [List.getD_eq_getElem?_getD, List.getElem?_eq_none hi, Option.getD_none]
  obtain ⟨boundRe, -, hre⟩ := PiecewiseLinear.exists_bound
    (f := fun i => (samples.getD i {}).re) (c := 0) fun i hi => by rw [hrest i hi]
  obtain ⟨boundIm, -, him⟩ := PiecewiseLinear.exists_bound
    (f := fun i => (samples.getD i {}).im) (c := 0) fun i hi => by rw [hrest i hi]
  exact ⟨max boundRe boundIm, fun i => (hre i).trans (le_max_left _ _),
    fun i => (him i).trans (le_max_right _ _)⟩

/-- From any state between two calls. -/
theorem ends_of_steady (htuned : s.recovery.Tuned) (hstart : s.index = 0)
    (hsteady : ∀ s', Rounds samples s s' → s'.Continues samples → s'.Steady samples) :
    ∃ fuel tr' out, recoverLoop samples fuel s = some (.returned tr' out) := by
  by_cases hgo : s.Continues samples
  · obtain ⟨bound, hre, him⟩ := exists_bound samples
    have hround := round_eq hstart.ge hgo
    have hnext : Follows samples (s.update (s.currentSample samples)) s.index :=
      ⟨hstart.ge, (lt_index_update_iff htuned).mpr (hsteady s .refl hgo), rfl, rfl⟩
    obtain ⟨k, hk⟩ := exists_nat_gt (samples.length * (1 + 2 * bound) -
      ((s.update (s.currentSample samples)).index + 2 * bound * s.index))
    obtain ⟨fuel, tr', out, hloop⟩ := hnext.ends hre him (tuned_update htuned _)
      (fun s' hrounds => hsteady s' (.head hround hrounds)) (sub_lt_iff_lt_add'.mp hk)
    exact ⟨fuel + 1, tr', out, (recoverLoop_of_round hround fuel).trans hloop⟩
  · exact ⟨1, _, _, recoverLoop_of_stop hgo⟩

end RecoverLoop

/-! ## Every call -/

open RecoverLoop

/-- A call that returns has gone through some rounds. -/
theorem exists_rounds {samples : List Iq} {fuel : ℕ} {s : RecoverLoop} {tr' : TimingRecovery}
    {out : List Iq} (h : recoverLoop samples fuel s = some (.returned tr' out)) :
    ∃ s', Rounds samples s s' ∧ s'.recovery = tr' ∧ s'.out = out := by
  induction fuel generalizing s with
  | zero => cases h
  | succ fuel ih =>
      rw [recoverLoop] at h
      split at h
      · cases h
        exact ⟨s, .refl, rfl, rfl⟩
      · cases h
      · rename_i s₁ hround
        obtain ⟨s', hrounds, hend⟩ := ih h
        exact ⟨s', .head hround hrounds, hend⟩

theorem exists_rounds_of_recover {tr tr' : TimingRecovery} {samples out : List Iq} {fuel : ℕ}
    (h : tr.recover samples fuel = some (.returned tr' out)) :
    ∃ s, Rounds samples { recovery := tr } s ∧ s.recovery = tr' ∧ s.out = out := by
  unfold TimingRecovery.recover at h
  split at h
  · cases h
    exact ⟨_, .refl, rfl, rfl⟩
  · exact exists_rounds h

/-- What every update and `reset` keep is an invariant of all calls. -/
theorem invariant_of_update {P : TimingRecovery → Prop} {sps : ℤ} {gainMu : ℚ}
    {guard : TimingRecovery → TimingCall → Prop}
    (hcreate : ∀ tr, TimingRecovery.create sps gainMu = .ok tr → P tr)
    (hupdate : ∀ (s : RecoverLoop) x, P s.recovery → P (s.update x).recovery)
    (hreset : ∀ tr : TimingRecovery, P tr → P tr.reset) {tr : TimingRecovery}
    (h : (timingCalls sps gainMu).Reachable guard tr) : P tr := by
  refine h.invariant hcreate fun tr call tr' hP _ hstep => ?_
  cases call with
  | recover samples =>
      obtain ⟨fuel, out, hrecover⟩ := hstep
      obtain ⟨s, hrounds, rfl, -⟩ := exists_rounds_of_recover hrecover
      exact rounds_preserves hupdate hP hrounds
  | reset =>
      cases hstep
      exact hreset tr hP

theorem tuned_of_reachable {sps : ℤ} {gainMu : ℚ} {guard : TimingRecovery → TimingCall → Prop}
    {tr : TimingRecovery} (h : (timingCalls sps gainMu).Reachable guard tr) : tr.Tuned :=
  invariant_of_update (fun _ hcreate => TimingRecovery.tuned_create hcreate)
    (fun _ x h => tuned_update h x) (fun _ h => TimingRecovery.tuned_reset h) h

/-- A call makes progress in all its rounds, and ends, exactly if they are all
steady. -/
theorem progresses_iff {tr : TimingRecovery} (htuned : tr.Tuned) (samples : List Iq) :
    Progresses samples tr ↔
      ∀ s, Rounds samples { recovery := tr } s → s.Continues samples → s.Steady samples := by
  constructor
  · intro hprogress s hrounds hgo
    obtain ⟨hindex, s', hround, hlt⟩ := hprogress.rounds s hrounds hgo
    rw [round_eq hindex hgo] at hround
    cases hround
    exact (lt_index_update_iff (tuned_rounds htuned hrounds)).mp hlt
  · intro hsteady
    refine ⟨fun s hrounds hgo => ?_, ?_⟩
    · have hindex := index_nonneg htuned le_rfl hsteady hrounds
      have hlt := (lt_index_update_iff (tuned_rounds htuned hrounds)).mpr (hsteady s hrounds hgo)
      exact ⟨hindex, _, round_eq hindex hgo, hlt⟩
    · unfold TimingRecovery.recover
      split
      · exact ⟨0, tr, [], rfl⟩
      · exact ends_of_steady htuned rfl hsteady

end QpskB210.Modem
