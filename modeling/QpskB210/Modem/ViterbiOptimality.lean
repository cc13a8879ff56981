import QpskB210.Modem.FecDecoder

/-!
# Modem — ViterbiOptimality

What the decoder reads off its survivors, over everything that can be
received: an input of the encoder whose output disagrees with the received
bits in as few places as that of any other input of its length. The metrics
on the way are least as well, and each survivor names the state that the
cheapest transition came from.
-/

namespace QpskB210.Modem

open QpskB210.Lib QpskB210.Lib.Bits

/-! ## What is counted -/

/-- The received bits, erasures apart, that disagree with what the encoder
puts out for these input bits. -/
def disagreements (received : List (Option Bool)) (bits : List Bool) : Nat :=
  (List.zipWith mismatch received (convolve 0 bits)).sum

/-- A path costs as much as it disagrees with what was received. -/
theorem pathCost_receivedPairs {received : List (Option Bool)} {bits : List Bool}
    (hlen : received.length = 2 * bits.length) (reg : Register) :
    Trellis.pathCost shiftIn reg ((receivedPairs received).map branchMetric) bits =
      (List.zipWith mismatch received (convolve reg bits)).sum := by
  induction bits generalizing received reg with
  | nil =>
      rw [List.length_eq_zero_iff.mp hlen]
      rfl
  | cons bit bits ih =>
      -- every input bit takes two received bits
      rcases received with _ | ⟨rx0, _ | ⟨rx1, rest⟩⟩
      · simp at hlen
      · simp only [List.length_cons, List.length_nil] at hlen
        omega
      · simp only [List.length_cons] at hlen
        rw [receivedPairs, List.map_cons, Trellis.pathCost_cons, ih (by omega), convolve,
          List.zipWith_cons_cons, List.zipWith_cons_cons, List.sum_cons, List.sum_cons,
          branchMetric, Nat.add_assoc]

theorem pathMetric_receivedPairs {received : List (Option Bool)} {bits : List Bool}
    (hlen : received.length = 2 * bits.length) :
    pathMetric (receivedPairs received) bits = disagreements received bits :=
  pathCost_receivedPairs hlen 0

theorem length_depuncture (i rateHalf : Nat) (coded : List Bool) :
    (depuncture i rateHalf coded).length = rateHalf := by
  induction rateHalf generalizing i coded with
  | zero => rfl
  | succ rateHalf ih =>
      rw [depuncture]
      split
      · rw [List.length_cons, ih]
      · rw [List.length_cons, ih]

/-- With all the coded bits there, the trellis has a step for every bit. -/
theorem length_depunctured {rate : CodeRate} {n : Nat} {codedData : List UInt8}
    (hcoded : FecEncoder.codedLength ⟨rate⟩ n ≤ codedData.length) :
    (depunctured rate codedData n).length = rateHalfBits n := by
  unfold depunctured
  cases rate with
  | rate12 =>
      unfold FecEncoder.codedLength at hcoded
      dsimp only [codedBitCount] at hcoded ⊢
      rw [List.length_map, List.length_take, length_bytesToBits]
      omega
  | rate34 => exact length_depuncture _ _ _

/-! ## The arrays of the decoder -/

variable (pairs : List (Option Bool × Option Bool))

/-- `prev_metrics` before step `i`. -/
def metricsBefore (i : Nat) : Register → Nat :=
  Trellis.finalMetric startMetrics ((viterbi startMetrics pairs).take i)

/-- `state` in the traceback, when the steps from `i` on have been undone. -/
def tracedState (i : Nat) : Register :=
  (Trellis.traceback (fun s : Register => s.msb) ((viterbi startMetrics pairs).drop i)
    (bestState (Trellis.finalMetric startMetrics (viterbi startMetrics pairs)))).2

variable {pairs}

@[simp] theorem length_viterbi (prev : Register → Nat) :
    (viterbi prev pairs).length = pairs.length := by
  rw [(viterbi_sweeps prev pairs).length_eq, List.length_map]

/-- After the last step the metrics are those that the best state is chosen
from. -/
theorem metricsBefore_length : metricsBefore pairs pairs.length =
    Trellis.finalMetric startMetrics (viterbi startMetrics pairs) := by
  rw [metricsBefore, List.take_of_length_le (by rw [length_viterbi])]

theorem startMetrics_zero : startMetrics 0 = 0 := rfl

theorem eq_zero_of_startMetrics_lt {s : Register} (h : startMetrics s < infMetric) : s = 0 := by
  unfold startMetrics at h
  split at h
  · assumption
  · exact absurd h (Nat.lt_irrefl _)

/-- No path comes near the mark for states not reached. -/
theorem pathMetric_lt (hlen : 2 * pairs.length < infMetric) (bits : List Bool) :
    pathMetric pairs bits < infMetric := by
  have hcost : ∀ cost ∈ pairs.map branchMetric, ∀ s bit, cost s bit ≤ 2 := by
    intro cost hmem s bit
    obtain ⟨rx, _, rfl⟩ := List.mem_map.mp hmem
    exact branchMetric_le rx s bit
  have hle : pathMetric pairs bits ≤ 2 * (pairs.map branchMetric).length :=
    Trellis.pathCost_le hcost 0 bits
  rw [List.length_map] at hle
  omega

/-- The metric of a state is no greater than the cost of a path to it. -/
theorem metricsBefore_walk_le (hlen : 2 * pairs.length < infMetric) {bits : List Bool}
    (hbits : bits.length ≤ pairs.length) :
    metricsBefore pairs bits.length (Trellis.walk shiftIn 0 bits) ≤
      pathMetric (pairs.take bits.length) bits := by
  have hshort : 2 * (pairs.take bits.length).length < infMetric := by
    rw [List.length_take]
    omega
  have hsweeps := (viterbi_sweeps startMetrics pairs).take bits.length
  rw [← List.map_take] at hsweeps
  have hlt := pathMetric_lt hshort bits
  have hsteps : bits.length = ((pairs.take bits.length).map branchMetric).length := by
    rw [List.length_map, List.length_take]
    omega
  have hle := hsweeps.finalMetric_le hsteps (s := 0)
  rw [startMetrics_zero, Nat.zero_add] at hle
  exact hle hlt

theorem metricsBefore_best_lt (hlen : 2 * pairs.length < infMetric) :
    Trellis.finalMetric startMetrics (viterbi startMetrics pairs)
      (bestState (Trellis.finalMetric startMetrics (viterbi startMetrics pairs))) < infMetric := by
  -- the path of zeros already stays below the mark
  have hzeros : (List.replicate pairs.length false).length = pairs.length :=
    List.length_replicate
  have hle := metricsBefore_walk_le hlen (Nat.le_of_eq hzeros)
  rw [hzeros, metricsBefore_length, List.take_length] at hle
  exact Nat.lt_of_le_of_lt (Nat.le_trans (bestState_le _ _) hle) (pathMetric_lt hlen _)

/-! ## Optimality -/

/-- What the decoder has computed when it has read the input bits off its
survivors. -/
structure OptimalTraceback (received : List (Option Bool)) (steps : Nat) : Prop where
  /-- It has read one bit for each step. -/
  length_decoded : (decodedBits (receivedPairs received)).length = steps
  /-- The metric it has chosen is what these bits cost. -/
  metric :
    metricsBefore (receivedPairs received) steps (tracedState (receivedPairs received) steps) =
      disagreements received (decodedBits (receivedPairs received))
  /-- No other bits of that length cost less. -/
  least : ∀ bits : List Bool, bits.length = steps →
    disagreements received (decodedBits (receivedPairs received)) ≤ disagreements received bits
  /-- The metric of a state that some bits lead to never reaches the mark. -/
  reached : ∀ bits : List Bool, bits.length ≤ steps →
    metricsBefore (receivedPairs received) bits.length (Trellis.walk shiftIn 0 bits) < infMetric
  /-- The traceback ends in the register that the encoder starts with. -/
  start : tracedState (receivedPairs received) 0 = 0
  /-- The survivor of a traced state is a state with a metric, from which the
  transition on the bit read leads there and gives the metric there. -/
  taken : ∀ i < steps, ∃ row rx bit,
    (viterbi startMetrics (receivedPairs received))[i]? = some row ∧
      (receivedPairs received)[i]? = some rx ∧
      (decodedBits (receivedPairs received))[i]? = some bit ∧
      row.survivor (tracedState (receivedPairs received) (i + 1)) =
        tracedState (receivedPairs received) i ∧
      metricsBefore (receivedPairs received) i (tracedState (receivedPairs received) i) <
        infMetric ∧
      shiftIn (tracedState (receivedPairs received) i) bit =
        tracedState (receivedPairs received) (i + 1) ∧
      metricsBefore (receivedPairs received) (i + 1)
          (tracedState (receivedPairs received) (i + 1)) =
        metricsBefore (receivedPairs received) i (tracedState (receivedPairs received) i) +
          branchMetric rx (tracedState (receivedPairs received) i) bit

/-- One step of the traceback. -/
theorem traced_step (hlen : 2 * pairs.length < infMetric) {i : Nat} (hi : i < pairs.length) :
    ∃ row rx bit, (viterbi startMetrics pairs)[i]? = some row ∧ pairs[i]? = some rx ∧
      (decodedBits pairs)[i]? = some bit ∧
      row.survivor (tracedState pairs (i + 1)) = tracedState pairs i ∧
      metricsBefore pairs i (tracedState pairs i) < infMetric ∧
      shiftIn (tracedState pairs i) bit = tracedState pairs (i + 1) ∧
      metricsBefore pairs (i + 1) (tracedState pairs (i + 1)) =
        metricsBefore pairs i (tracedState pairs i) +
          branchMetric rx (tracedState pairs i) bit := by
  have hi' : i < (viterbi startMetrics pairs).length := by rwa [length_viterbi]
  have hrow := List.getElem?_eq_getElem hi'
  have hrx := List.getElem?_eq_getElem hi
  have hcost : (pairs.map branchMetric)[i]? = some (branchMetric pairs[i]) := by
    rw [List.getElem?_map, hrx, Option.map_some]
  obtain ⟨hbit, hsurvivor, hbefore, hnext, hmetric⟩ :=
    (viterbi_sweeps startMetrics pairs).traceback_step msb_shiftIn (metricsBefore_best_lt hlen)
      hrow hcost (@rfl _ (tracedState pairs i)) (@rfl _ (tracedState pairs (i + 1)))
  refine ⟨_, _, _, hrow, hrx, hbit, hsurvivor, hbefore, hnext, ?_⟩
  have hafter : metricsBefore pairs (i + 1) = (viterbi startMetrics pairs)[i].metric := by
    rw [metricsBefore, List.take_add_one, hrow, Option.toList_some, Trellis.finalMetric_append]
    rfl
  rw [hafter]
  exact hmetric

/-- The metric chosen, and the register that the traced path begins with. -/
theorem metricsBefore_tracedState (hlen : 2 * pairs.length < infMetric) :
    tracedState pairs 0 = 0 ∧
      metricsBefore pairs pairs.length (tracedState pairs pairs.length) =
        pathMetric pairs (decodedBits pairs) := by
  obtain ⟨hreached, -, hcost⟩ :=
    (viterbi_sweeps startMetrics pairs).traceback_attains msb_shiftIn (metricsBefore_best_lt hlen)
  have hstart := eq_zero_of_startMetrics_lt hreached
  have hend : tracedState pairs pairs.length =
      bestState (Trellis.finalMetric startMetrics (viterbi startMetrics pairs)) := by
    rw [tracedState, List.drop_of_length_le (by rw [length_viterbi])]
    rfl
  rw [hstart, startMetrics_zero, Nat.zero_add] at hcost
  rw [hend, metricsBefore_length]
  exact ⟨hstart, hcost⟩

theorem optimalTraceback {received : List (Option Bool)} {steps : Nat}
    (hlen : received.length = 2 * steps) (hbound : 2 * steps < infMetric) :
    OptimalTraceback received steps := by
  have hpairs : (receivedPairs received).length = steps := by
    rw [length_receivedPairs]
    omega
  have hshort : 2 * (receivedPairs received).length < infMetric := by rwa [hpairs]
  have hdecoded := length_decodedBits (receivedPairs received)
  have hread : pathMetric (receivedPairs received) (decodedBits (receivedPairs received)) =
      disagreements received (decodedBits (receivedPairs received)) :=
    pathMetric_receivedPairs (by rw [hdecoded, hpairs, hlen])
  obtain ⟨hstart, hmetric⟩ := metricsBefore_tracedState hshort
  constructor
  · rw [hdecoded, hpairs]
  · rw [← hread, ← hmetric, hpairs]
  · intro bits hbits
    rw [← hread, ← pathMetric_receivedPairs (by rw [hbits, hlen])]
    exact decodedBits_optimal hshort (by rw [hbits, hpairs])
  · intro bits hbits
    have hle := metricsBefore_walk_le hshort (hpairs.symm ▸ hbits)
    refine Nat.lt_of_le_of_lt hle (pathMetric_lt ?_ bits)
    rw [List.length_take]
    omega
  · exact hstart
  · intro i hi
    exact traced_step hshort (hpairs.symm ▸ hi)

/-- **Viterbi.** For payloads up to the length that a header can announce, the
traceback is optimal at either rate, whatever was received. -/
theorem viterbi_optimal (rate : CodeRate) {n : Nat} (hn : n ≤ 65535) {codedData : List UInt8}
    (hcoded : FecEncoder.codedLength ⟨rate⟩ n ≤ codedData.length) :
    OptimalTraceback (depunctured rate codedData n) (8 * n + 6) := by
  apply optimalTraceback
  · rw [length_depunctured hcoded, rateHalfBits, tailBits]
    omega
  · unfold infMetric
    omega

/-- A payload of one byte at rate 3/4, with a byte more than it takes. -/
theorem viterbi_optimal_noise :
    OptimalTraceback (depunctured .rate34 [0xA5, 0x3C, 0x81, 0xFF] 1) (8 * 1 + 6) :=
  viterbi_optimal .rate34 (by decide) (by decide)

end QpskB210.Modem
