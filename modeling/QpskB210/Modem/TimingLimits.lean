import QpskB210.Modem.TimingRecovery

/-!
# Modem — TimingLimits

How strong the samples may be. The timing error is no further below 0 than the
samples are large, so within a limit every round of every call moves forward.
That limit is the largest one: the corner of the constellation, silence and the
opposite corner, again and again, take `omega_` down to its clamp, and then one
more error takes the whole advance back.
-/

namespace QpskB210.Modem

open QpskB210.Lib
open RecoverLoop

/-- No component is larger. -/
structure Iq.Within (limit : ℚ) (x : Iq) : Prop where
  re : |x.re| ≤ limit
  im : |x.im| ≤ limit

instance (limit : ℚ) (x : Iq) : Decidable (x.Within limit) :=
  decidable_of_iff (|x.re| ≤ limit ∧ |x.im| ≤ limit) ⟨fun h => ⟨h.1, h.2⟩, fun h => ⟨h.re, h.im⟩⟩

/-- The samples of the call are no larger. -/
def TimingCall.Within (limit : ℚ) : TimingCall → Prop
  | .recover samples => ∀ x ∈ samples, x.Within limit
  | .reset => True

/-! ## Samples of a limited size -/

/-- The error of one component is no further below 0 than it is large. -/
theorem decision_error_ge_of_le {a b limit : ℚ} (ha : |a| ≤ limit) (hb : |b| ≤ limit) :
    -(invSqrt2 * limit) ≤
      (if a ≥ 0 then invSqrt2 else -invSqrt2) * b -
        (if b ≥ 0 then invSqrt2 else -invSqrt2) * a := by
  have hpos := invSqrt2_pos.le
  have hscale {x : ℚ} (hx : x ≤ limit) : invSqrt2 * x ≤ invSqrt2 * limit :=
    mul_le_mul_of_nonneg_left hx hpos
  rw [abs_le] at ha hb
  split <;> split <;> rename_i hsa hsb
  · have hfall := hscale ha.2
    have hrise := mul_nonneg hpos hsb
    linarith
  · have hfall := hscale (neg_le.mp hb.1)
    have hrise := mul_nonneg hpos hsa
    linarith
  · have hfall := hscale hb.2
    have hrise := mul_nonneg hpos (neg_nonneg.mpr (not_le.mp hsa).le)
    linarith
  · have hfall := hscale (neg_le.mp ha.1)
    have hrise := mul_nonneg hpos (neg_nonneg.mpr (not_le.mp hsb).le)
    linarith

/-- The last decision is the one on the last sample, where there was one. -/
def TimingRecovery.Decided (tr : TimingRecovery) : Prop :=
  tr.prevDecision = qpskDecision tr.prevSample ∨ tr.prevSample = {} ∧ tr.prevDecision = {}

theorem TimingRecovery.error_ge {tr : TimingRecovery} {limit : ℚ} {x : Iq} (h : tr.Decided)
    (hprev : tr.prevSample.Within limit) (hx : x.Within limit) :
    -(2 * invSqrt2 * limit) ≤ tr.error x := by
  rcases h with hdecision | ⟨hsample, hdecision⟩
  · have hi := decision_error_ge_of_le hprev.re hx.re
    have hq := decision_error_ge_of_le hprev.im hx.im
    rw [error, hdecision]
    dsimp only [Iq.dot, qpskDecision]
    linarith
  · have hlimit : 0 ≤ invSqrt2 * limit :=
      mul_nonneg invSqrt2_pos.le ((abs_nonneg _).trans hx.re)
    rw [error, hdecision, hsample]
    dsimp only [Iq.dot]
    linarith

/-- What holds between the rounds of a call whose samples are within the
limit: from here on every round moves forward. -/
structure RecoverLoop.Limited (limit : ℚ) (s : RecoverLoop) : Prop where
  tuned : s.recovery.Tuned
  decided : s.recovery.Decided
  within : s.recovery.prevSample.Within limit
  index_nonneg : 0 ≤ s.index
  limit_lt : 4 * invSqrt2 * s.recovery.gainMu * limit < s.recovery.sps

namespace RecoverLoop

variable {samples : List Iq} {limit : ℚ} {s s' : RecoverLoop}

theorem within_currentSample (hsamples : ∀ x ∈ samples, x.Within limit) (hindex : 0 ≤ s.index)
    (hgo : s.Continues samples) : (s.currentSample samples).Within limit := by
  have hin := floor_succ_lt hindex hgo
  have hget (i : ℕ) (hi : i < samples.length) : (samples.getD i {}).Within limit := by
    rw [List.getD_eq_getElem?_getD, List.getElem?_eq_getElem hi, Option.getD_some]
    exact hsamples _ (List.getElem_mem hi)
  have hleft := hget _ (Nat.lt_of_succ_lt hin)
  have hright := hget _ hin
  exact ⟨PiecewiseLinear.abs_value_le hindex hleft.re hright.re,
    PiecewiseLinear.abs_value_le hindex hleft.im hright.im⟩

theorem Limited.steady (h : s.Limited limit) (hsamples : ∀ x ∈ samples, x.Within limit)
    (hgo : s.Continues samples) : s.Steady samples := by
  have hcurrent := within_currentSample hsamples h.index_nonneg hgo
  have herror := mul_le_mul_of_nonneg_left (TimingRecovery.error_ge h.decided h.within hcurrent)
    h.tuned.gainMu_pos.le
  have hlimit := h.limit_lt
  refine lt_of_le_of_lt (neg_le_neg (le_max_left _ _)) ?_
  linarith

theorem Limited.round (h : s.Limited limit) (hsamples : ∀ x ∈ samples, x.Within limit)
    (hround : s.round samples = .next s') : s'.Limited limit := by
  have hgo := continues_of_round hround
  have hforward := (lt_index_update_iff h.tuned).mpr (h.steady hsamples hgo)
  rw [round_eq h.index_nonneg hgo] at hround
  cases hround
  exact
    { tuned := tuned_update h.tuned _
      decided := .inl rfl
      within := within_currentSample hsamples h.index_nonneg hgo
      index_nonneg := h.index_nonneg.trans hforward.le
      limit_lt := h.limit_lt }

theorem Limited.rounds (h : s.Limited limit) (hsamples : ∀ x ∈ samples, x.Within limit)
    (hrounds : Rounds samples s s') : s'.Limited limit := by
  induction hrounds with
  | refl => exact h
  | tail _ hround ih => exact ih.round hsamples hround

end RecoverLoop

/-! ## Calls with such samples -/

section Limited

variable {sps : ℤ} {gainMu limit : ℚ} {tr : TimingRecovery} {samples : List Iq}
  {guard : TimingRecovery → TimingCall → Prop}

theorem reachable_fresh (hsps : 2 ≤ sps) (hpos : 0 < gainMu) (hlt : gainMu < 1) :
    (timingCalls sps gainMu).Reachable guard (TimingRecovery.fresh sps gainMu) :=
  .init (TimingRecovery.create_eq_ok_iff.mpr ⟨⟨hsps, hpos, hlt⟩, rfl⟩)

theorem parameters_of_reachable (h : (timingCalls sps gainMu).Reachable guard tr) :
    tr.sps = sps ∧ tr.gainMu = gainMu := by
  refine invariant_of_update (P := fun tr => tr.sps = sps ∧ tr.gainMu = gainMu)
    (fun tr hcreate => ?_) (fun _ _ h => h) (fun _ h => h) h
  obtain ⟨-, rfl⟩ := TimingRecovery.create_eq_ok_iff.mp hcreate
  exact ⟨rfl, rfl⟩

theorem decided_of_reachable (h : (timingCalls sps gainMu).Reachable guard tr) : tr.Decided := by
  refine invariant_of_update (P := TimingRecovery.Decided) (fun tr hcreate => .inr ?_)
    (fun _ _ _ => .inl rfl) (fun _ _ => .inr ⟨rfl, rfl⟩) h
  obtain ⟨-, rfl⟩ := TimingRecovery.create_eq_ok_iff.mp hcreate
  exact ⟨rfl, rfl⟩

theorem limited_start (h : (timingCalls sps gainMu).Reachable guard tr)
    (hlimit : 4 * invSqrt2 * gainMu * limit < sps) (hwithin : tr.prevSample.Within limit) :
    RecoverLoop.Limited limit { recovery := tr } where
  tuned := tuned_of_reachable h
  decided := decided_of_reachable h
  within := hwithin
  index_nonneg := le_rfl
  limit_lt := by
    obtain ⟨hsps, hgain⟩ := parameters_of_reachable h
    show 4 * invSqrt2 * tr.gainMu * limit < tr.sps
    rw [hsps, hgain]
    exact hlimit

theorem progresses_of_within (h : (timingCalls sps gainMu).Reachable guard tr)
    (hlimit : 4 * invSqrt2 * gainMu * limit < sps) (hwithin : tr.prevSample.Within limit)
    (hsamples : ∀ x ∈ samples, x.Within limit) : Progresses samples tr := by
  have hstart := limited_start h hlimit hwithin
  refine (progresses_iff hstart.tuned samples).mpr fun s hrounds hgo => ?_
  exact (hstart.rounds hsamples hrounds).steady hsamples hgo

theorem within_zero (hlimit : 0 ≤ limit) : Iq.Within limit {} := by
  refine ⟨?_, ?_⟩ <;> (show |(0 : ℚ)| ≤ limit; rwa [abs_zero])

/-- The last sample of a run is one of the samples of its calls, or between
two of them. -/
theorem within_of_reachable (hpos : 0 ≤ limit) (hlimit : 4 * invSqrt2 * gainMu * limit < sps)
    (h : (timingCalls sps gainMu).Reachable (fun _ call => call.Within limit) tr) :
    tr.prevSample.Within limit := by
  refine h.invariant_of (P := fun tr => tr.prevSample.Within limit) (fun tr hcreate => ?_)
    fun tr call tr' hreach hwithin hguard hstep => ?_
  · obtain ⟨-, rfl⟩ := TimingRecovery.create_eq_ok_iff.mp hcreate
    exact within_zero hpos
  · cases call with
    | recover samples =>
        obtain ⟨fuel, out, hrecover⟩ := hstep
        obtain ⟨s, hrounds, rfl, -⟩ := exists_rounds_of_recover hrecover
        exact ((limited_start hreach hlimit hwithin).rounds hguard hrounds).within
    | reset =>
        cases hstep
        exact within_zero hpos

/-! ## Calls with larger ones -/

namespace TimingRecovery

/-- The state after a round with one sample. -/
def seen (tr : TimingRecovery) (x : Iq) : TimingRecovery :=
  (RecoverLoop.update { recovery := tr } x).recovery

theorem error_seen (tr : TimingRecovery) (x : Iq) : (tr.seen x).error x = 0 :=
  sub_self _

theorem Tuned.clampedOmega_zero (h : tr.Tuned) : tr.clampedOmega 0 = tr.omega := by
  rw [h.clampedOmega_eq, mul_zero, add_zero, max_eq_left h.omega_ge, min_eq_left h.omega_le]

theorem Tuned.seen_seen (h : tr.Tuned) (x : Iq) : (tr.seen x).seen x = tr.seen x := by
  have htuned : (tr.seen x).Tuned := tuned_update h x
  have homega : (tr.seen x).clampedOmega ((tr.seen x).error x) = (tr.seen x).omega := by
    rw [error_seen, htuned.clampedOmega_zero]
  show { tr.seen x with omega := (tr.seen x).clampedOmega ((tr.seen x).error x) } = tr.seen x
  rw [homega]

end TimingRecovery

theorem currentSample_pair {s : RecoverLoop} (hindex : s.index < 1) (x : Iq) :
    s.currentSample [x, x] = x := by
  have hfloor : ⌊s.index⌋₊ = 0 := Nat.floor_eq_zero.mpr hindex
  simp only [RecoverLoop.currentSample, PiecewiseLinear.value, hfloor, List.getD_cons_zero,
    List.getD_cons_succ, sub_self, mul_zero, add_zero]

/-- A call with a sample and the same once more takes one round with it, and
perhaps another one that changes nothing. -/
theorem recover_pair (htuned : tr.Tuned) {x : Iq} (hprogress : Progresses [x, x] tr) :
    ∃ fuel out, tr.recover [x, x] fuel = some (.returned (tr.seen x) out) := by
  let s₀ : RecoverLoop := { recovery := tr }
  have hgo : s₀.Continues [x, x] := by
    show (0 : ℚ) + 1 < (2 : ℕ)
    norm_num
  have hround : s₀.round [x, x] = .next (s₀.update x) := by
    rw [round_eq le_rfl hgo, currentSample_pair (show (0 : ℚ) < 1 by norm_num)]
  have hforward : 0 < (s₀.update x).index := by
    obtain ⟨-, s', hnext, hlt⟩ := hprogress.rounds s₀ .refl hgo
    rw [hround] at hnext
    cases hnext
    exact hlt
  by_cases hagain : (s₀.update x).Continues [x, x]
  · have hbelow : (s₀.update x).index < 1 := by
      have hlast : (s₀.update x).index + 1 < (2 : ℕ) := hagain
      rw [Nat.cast_ofNat] at hlast
      linarith
    have hsecond : (s₀.update x).round [x, x] = .next ((s₀.update x).update x) := by
      rw [round_eq hforward.le hagain, currentSample_pair hbelow]
    have hend : ¬((s₀.update x).update x).Continues [x, x] := by
      have htuned₁ : (s₀.update x).recovery.Tuned := tuned_update htuned x
      have herror : (s₀.update x).recovery.error x = 0 := TimingRecovery.error_seen tr x
      have hindex := index_update htuned₁ x
      rw [herror, htuned₁.clampedOmega_zero, mul_zero, add_zero] at hindex
      have homega := htuned₁.omega_ge
      have hsps := htuned₁.two_le
      show ¬((s₀.update x).update x).index + 1 < (2 : ℕ)
      rw [hindex, Nat.cast_ofNat, not_lt]
      linarith
    refine ⟨3, ((s₀.update x).update x).out, ?_⟩
    rw [← htuned.seen_seen x]
    exact (recoverLoop_of_round hround 2).trans
      ((recoverLoop_of_round hsecond 1).trans (recoverLoop_of_stop hend))
  · exact ⟨2, (s₀.update x).out, (recoverLoop_of_round hround 1).trans (recoverLoop_of_stop hagain)⟩

/-- Every call with samples within the limit makes progress, in every run of
such calls. -/
def AllProgress (sps : ℤ) (gainMu limit : ℚ) : Prop :=
  ∀ tr, (timingCalls sps gainMu).Reachable (fun _ call => call.Within limit) tr →
    ∀ samples, (∀ x ∈ samples, x.Within limit) → Progresses samples tr

theorem reachable_seen (hall : AllProgress sps gainMu limit)
    (h : (timingCalls sps gainMu).Reachable (fun _ call => call.Within limit) tr) {x : Iq}
    (hx : x.Within limit) :
    (timingCalls sps gainMu).Reachable (fun _ call => call.Within limit) (tr.seen x) := by
  have hsamples : ∀ y ∈ [x, x], y.Within limit := by simp [hx]
  obtain ⟨fuel, out, hrecover⟩ := recover_pair (tuned_of_reachable h) (hall tr h _ hsamples)
  exact h.step (a := .recover [x, x]) hsamples ⟨fuel, out, hrecover⟩

/-- The point of the constellation, as strong as the limit allows. -/
def corner (limit : ℚ) : Iq := ⟨limit, limit⟩

theorem within_corner (hpos : 0 ≤ limit) : (corner limit).Within limit :=
  ⟨(abs_of_nonneg hpos).le, (abs_of_nonneg hpos).le⟩

theorem within_opposite (hpos : 0 ≤ limit) : (corner (-limit)).Within limit := by
  have habs : |-limit| ≤ limit := by rw [abs_neg, abs_of_nonneg hpos]
  exact ⟨habs, habs⟩

theorem qpskDecision_corner {a : ℚ} (h : 0 ≤ a) : qpskDecision (corner a) = corner invSqrt2 := by
  rw [qpskDecision, corner, if_pos h]
  rfl

theorem qpskDecision_opposite {a : ℚ} (h : a < 0) :
    qpskDecision (corner a) = corner (-invSqrt2) := by
  rw [qpskDecision, corner, if_neg (not_le.mpr h)]
  rfl

theorem dot_corner (a b : ℚ) : (corner a).dot (corner b) = 2 * a * b := by
  rw [Iq.dot, corner, corner]
  ring

/-- After the corner comes silence: no error is further below 0. -/
theorem error_corner_silence (hpos : 0 ≤ limit) :
    (tr.seen (corner limit)).error {} = -(2 * invSqrt2 * limit) := by
  show (qpskDecision (corner limit)).dot (corner 0) -
    (qpskDecision (corner 0)).dot (corner limit) = _
  rw [qpskDecision_corner hpos, qpskDecision_corner le_rfl, dot_corner, dot_corner]
  ring

/-- After silence the opposite corner. -/
theorem error_silence_opposite (hpos : 0 < limit) :
    (tr.seen {}).error (corner (-limit)) = -(2 * invSqrt2 * limit) := by
  show (qpskDecision (corner 0)).dot (corner (-limit)) -
    (qpskDecision (corner (-limit))).dot (corner 0) = _
  rw [qpskDecision_corner le_rfl, qpskDecision_opposite (neg_lt_zero.mpr hpos), dot_corner,
    dot_corner]
  ring

/-- And from there back, for no error. -/
theorem error_opposite_corner (hpos : 0 < limit) :
    (tr.seen (corner (-limit))).error (corner limit) = 0 := by
  show (qpskDecision (corner (-limit))).dot (corner limit) -
    (qpskDecision (corner limit)).dot (corner (-limit)) = 0
  rw [qpskDecision_opposite (neg_lt_zero.mpr hpos), qpskDecision_corner hpos.le, dot_corner,
    dot_corner]
  ring

theorem TimingRecovery.Tuned.omega_seen_le (h : tr.Tuned) {x : Iq} {loss : ℚ}
    (herror : tr.gainOmega * tr.error x = -loss) :
    (tr.seen x).omega ≤ max (tr.omega - loss) (tr.sps / 2) := by
  show tr.clampedOmega (tr.error x) ≤ _
  rw [h.clampedOmega_eq, ← h.gainOmega, herror, ← sub_eq_add_neg]
  exact min_le_left _ _

theorem tuned_seen (h : tr.Tuned) (x : Iq) : (tr.seen x).Tuned := tuned_update h x

theorem omega_seen_of_error (h : tr.Tuned) {x : Iq} (herror : tr.error x = 0) :
    (tr.seen x).omega = tr.omega := by
  show tr.clampedOmega (tr.error x) = tr.omega
  rw [herror, h.clampedOmega_zero]

/-- Once round the corner, silence and the opposite corner. -/
def TimingRecovery.turn (tr : TimingRecovery) (limit : ℚ) : TimingRecovery :=
  ((tr.seen (corner limit)).seen {}).seen (corner (-limit))

theorem loss_pos (hgain : 0 < gainMu) (hpos : 0 < limit) :
    0 < 1 / 4 * gainMu * gainMu * (2 * invSqrt2 * limit) := by
  have hstrong := mul_pos invSqrt2_pos hpos
  have hproduct := mul_pos (mul_pos hgain hgain) hstrong
  linarith

/-- A turn takes `omega_` down, to the clamp. -/
theorem omega_turn_le (h : tr.Tuned) (hpos : 0 < limit) (hstart : tr.error (corner limit) = 0) :
    (tr.turn limit).omega ≤
      max (tr.omega - tr.gainOmega * (2 * invSqrt2 * limit)) (tr.sps / 2) := by
  have hcorner := tuned_seen h (corner limit)
  have hsilence := tuned_seen hcorner {}
  have hfirst := hcorner.omega_seen_le (x := {})
    (by rw [error_corner_silence hpos.le, mul_neg])
  have hsecond := hsilence.omega_seen_le (x := corner (-limit))
    (by rw [error_silence_opposite hpos, mul_neg])
  rw [omega_seen_of_error h hstart] at hfirst
  have hloss : 0 ≤ (tr.seen (corner limit)).gainOmega * (2 * invSqrt2 * limit) := by
    rw [hcorner.gainOmega]
    exact (loss_pos hcorner.gainMu_pos hpos).le
  refine hsecond.trans (max_le ?_ (le_max_right _ _))
  exact (sub_le_self _ hloss).trans hfirst

/-- Runs within the limit get `omega_` as far down as the clamp allows. -/
theorem exists_slowed (hsps : 2 ≤ sps) (hgain : 0 < gainMu) (hlt : gainMu < 1)
    (hpos : 0 < limit) (hall : AllProgress sps gainMu limit) (k : ℕ) :
    ∃ tr, (timingCalls sps gainMu).Reachable (fun _ call => call.Within limit) tr ∧
      tr.error (corner limit) = 0 ∧
        tr.omega ≤
          max (sps - k * (1 / 4 * gainMu * gainMu * (2 * invSqrt2 * limit))) (sps / 2) := by
  induction k with
  | zero =>
      refine ⟨_, reachable_fresh hsps hgain hlt, ?_, le_max_of_le_left ?_⟩
      · show Iq.dot {} (corner limit) - (qpskDecision (corner limit)).dot {} = 0
        simp only [Iq.dot, zero_mul, mul_zero, add_zero, sub_zero]
      · rw [Nat.cast_zero, zero_mul, sub_zero]
        exact le_rfl
  | succ k ih =>
      obtain ⟨tr, hreach, hstart, hslow⟩ := ih
      have htuned := tuned_of_reachable hreach
      obtain ⟨hsame, hgainMu⟩ := parameters_of_reachable hreach
      have hturn := omega_turn_le htuned hpos hstart
      rw [htuned.gainOmega, hgainMu, hsame] at hturn
      have hcorner := reachable_seen hall hreach (within_corner hpos.le)
      have hsilence := reachable_seen hall hcorner (within_zero hpos.le)
      refine ⟨tr.turn limit, reachable_seen hall hsilence (within_opposite hpos.le),
        error_opposite_corner hpos, hturn.trans (max_le ?_ (le_max_right _ _))⟩
      have hloss := loss_pos hgain hpos
      rcases le_max_iff.mp hslow with habove | hclamped
      · refine le_max_of_le_left ?_
        rw [Nat.cast_add, Nat.cast_one]
        linarith
      · exact le_max_of_le_right (by linarith)

/-- So a limit at which all calls make progress leaves the slowest advance
something. -/
theorem limit_lt_of_allProgress (hsps : 2 ≤ sps) (hgain : 0 < gainMu) (hlt : gainMu < 1)
    (hpos : 0 < limit) (hall : AllProgress sps gainMu limit) :
    4 * invSqrt2 * gainMu * limit < sps := by
  obtain ⟨k, hk⟩ := Archimedean.arch ((sps : ℚ) / 2) (loss_pos hgain hpos)
  rw [nsmul_eq_mul] at hk
  obtain ⟨tr, hreach, hstart, hslow⟩ := exists_slowed hsps hgain hlt hpos hall k
  rw [max_eq_right (by linarith)] at hslow
  have hcorner := reachable_seen hall hreach (within_corner hpos.le)
  have htuned := tuned_of_reachable hcorner
  obtain ⟨hsame, hgainMu⟩ := parameters_of_reachable hcorner
  have homega := omega_seen_of_error (tuned_of_reachable hreach) hstart
  have hsilence : ∀ x ∈ [({} : Iq), {}], x.Within limit := by simp [within_zero hpos.le]
  have hgo : RecoverLoop.Continues [{}, {}] { recovery := tr.seen (corner limit) } := by
    show (0 : ℚ) + 1 < (2 : ℕ)
    norm_num
  have hsteady := (progresses_iff htuned _).mp (hall _ hcorner _ hsilence) _ .refl hgo
  rw [RecoverLoop.Steady, currentSample_pair (show (0 : ℚ) < 1 by norm_num),
    error_corner_silence hpos.le, hsame, hgainMu, homega] at hsteady
  have hscale : tr.omega / (1 + gainMu / 4) ≤ sps / 2 := by
    have hnonneg : 0 ≤ tr.omega := by
      have hclamp := (tuned_of_reachable hreach).omega_ge
      have htwo := (tuned_of_reachable hreach).two_le
      linarith
    exact (div_le_self hnonneg (by linarith)).trans hslow
  rw [max_eq_left hscale] at hsteady
  linarith

end Limited

/-- All calls of a run within a limit make progress exactly if the limit is
below `sps / (4 * INV_SQRT2 * gain_mu)`. Below it any call does whose samples,
and the last one before it, are within the limit, whatever came earlier. -/
theorem recover_progresses {sps : ℤ} {gainMu limit : ℚ} (hsps : 2 ≤ sps) (hgain : 0 < gainMu)
    (hlt : gainMu < 1) (hlimit : 0 ≤ limit) :
    (AllProgress sps gainMu limit ↔ 4 * invSqrt2 * gainMu * limit < sps) ∧
      (4 * invSqrt2 * gainMu * limit < sps →
        ∀ tr, (timingCalls sps gainMu).Reachable System.free tr → tr.prevSample.Within limit →
          ∀ samples, (∀ x ∈ samples, x.Within limit) → Progresses samples tr) := by
  refine ⟨⟨fun hall => ?_, fun hbelow tr hreach samples => ?_⟩,
    fun hbelow tr hreach hwithin samples => progresses_of_within hreach hbelow hwithin⟩
  · rcases hlimit.lt_or_eq with hpos | rfl
    · exact limit_lt_of_allProgress hsps hgain hlt hpos hall
    · have htwo : (2 : ℚ) ≤ sps := by exact_mod_cast hsps
      rw [mul_zero]
      linarith
  · exact progresses_of_within hreach hbelow (within_of_reachable hlimit hbelow hreach)

/-- With the default parameters, at amplitude 100. -/
theorem recover_progresses_hundred :
    AllProgress 4 (1 / 100) 100 ∧
      Progresses [⟨100, -100⟩, ⟨-3, 100⟩, ⟨0, 1⟩, ⟨-100, -100⟩, ⟨50, 100⟩, ⟨-100, 0⟩]
        (.fresh 4 (1 / 100)) := by
  have hlimit := @recover_progresses 4 (1 / 100) 100 (by norm_num) (by norm_num) (by norm_num)
    (by norm_num)
  have hbelow : 4 * invSqrt2 * (1 / 100) * 100 < ((4 : ℤ) : ℚ) := by
    rw [invSqrt2]
    norm_num
  refine ⟨hlimit.1.mpr hbelow, hlimit.2 hbelow _
    (reachable_fresh (by norm_num) (by norm_num) (by norm_num)) (within_zero (by norm_num)) _ ?_⟩
  decide +kernel

/-- A strong sample takes the index below 0. -/
def strongSamples : List Iq := [{}, {}, {}, {}, ⟨-1000, -1000⟩, {}, {}, {}]

theorem recover_strong_sample :
    ¬∀ (sps : ℤ) (gainMu : ℚ) (tr : TimingRecovery) (samples : List Iq),
      (timingCalls sps gainMu).Reachable System.free tr → Progresses samples tr := by
  intro hevery
  have hfresh : (timingCalls 4 (1 / 100)).Reachable System.free (.fresh 4 (1 / 100)) :=
    .init (show TimingRecovery.create 4 (1 / 100) = _ by decide +kernel)
  have hprogress := (hevery 4 (1 / 100) _ strongSamples hfresh).rounds
  let s₀ : RecoverLoop := { recovery := .fresh 4 (1 / 100) }
  let s₁ := s₀.update {}
  let s₂ := s₁.update ⟨-1000, -1000⟩
  have h₁ : s₀.round strongSamples = .next s₁ := by decide +kernel
  have h₂ : s₁.round strongSamples = .next s₂ := by decide +kernel
  have hgo : s₂.index + 1 < strongSamples.length := by decide +kernel
  have hnegative : ¬0 ≤ s₂.index := by decide +kernel
  exact hnegative (hprogress s₂ (.head h₁ (.head h₂ .refl)) hgo).1

end QpskB210.Modem
