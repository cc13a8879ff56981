import QpskB210.Lib.Trellis
import QpskB210.Modem.FecEncoder

/-!
# Modem — FecDecoder

The Viterbi decoder. Its trellis has the encoder's registers for states and
input bits for labels; a received bit that was punctured is an erasure and
costs nothing. One step of it relaxes the trellis (`viterbiStep_relaxes`), so
what the traceback reads is a cheapest path (`decodedBits_optimal`).
-/

namespace QpskB210.Modem

open QpskB210.Lib QpskB210.Lib.Bits

/-! ## What was received -/

/-- The coded bits for `rateHalf` output bits, with erasures where the
pattern discards one or the coded bits have run out. -/
def depuncture : Nat → Nat → List Bool → List (Option Bool)
  | _, 0, _ => []
  | i, rateHalf + 1, coded =>
    if kept i then coded.head? :: depuncture (i + 1) rateHalf coded.tail
    else none :: depuncture (i + 1) rateHalf coded

/-- The bits that the trellis is run on: erasures only at rate 3/4. -/
def depunctured (rate : CodeRate) (codedData : List UInt8) (originalByteLength : Nat) :
    List (Option Bool) :=
  let coded := (bytesToBits codedData).take (codedBitCount rate originalByteLength)
  match rate with
  | .rate12 => coded.map some
  | .rate34 => depuncture 0 (rateHalfBits originalByteLength) coded

/-- Two received bits for each step; an odd one at the end is not used. -/
def receivedPairs : List (Option Bool) → List (Option Bool × Option Bool)
  | rx0 :: rx1 :: rest => (rx0, rx1) :: receivedPairs rest
  | _ => []

/-! ## The trellis -/

def infMetric : Nat := 0xFFFFFF

/-- One received bit against an output bit; an erasure agrees with both. -/
def mismatch : Option Bool → Bool → Nat
  | none, _ => 0
  | some rx, out => if rx ≠ out then 1 else 0

/-- The Hamming distance of the pair to the outputs of the transition. -/
def branchMetric (rx : Option Bool × Option Bool) (s : Register) (bit : Bool) : Nat :=
  mismatch rx.1 (parity (shiftIn s bit) gen0) + mismatch rx.2 (parity (shiftIn s bit) gen1)

/-- The transitions in the order of the two loops. -/
def transitions : List (Register × Bool) :=
  (List.range (2 ^ 7)).flatMap fun s => [(BitVec.ofNat 7 s, false), (BitVec.ofNat 7 s, true)]

/-- The body of the loops: a transition replaces what is known of the state
it leads to if it is cheaper. -/
def relax (prev : Register → Nat) (rx : Option Bool × Option Bool) (row : Trellis.Row Register)
    (t : Register × Bool) : Trellis.Row Register :=
  if prev t.1 ≥ infMetric then row
  else
    let candidate := prev t.1 + branchMetric rx t.1 t.2
    let nextState := shiftIn t.1 t.2
    if candidate < row.metric nextState then row.assign nextState candidate t.1 else row

def viterbiStep (prev : Register → Nat) (rx : Option Bool × Option Bool) : Trellis.Row Register :=
  transitions.foldl (relax prev rx) { metric := fun _ => infMetric, survivor := fun _ => 0 }

/-- The metrics and the survivors after every step. -/
def viterbi : (Register → Nat) → List (Option Bool × Option Bool) → List (Trellis.Row Register)
  | _, [] => []
  | prev, rx :: pairs =>
    let row := viterbiStep prev rx
    row :: viterbi row.metric pairs

/-- The encoder starts in state 0. -/
def startMetrics : Register → Nat := fun s => if s = 0 then 0 else infMetric

/-- The first state of least metric. -/
def bestState (metrics : Register → Nat) : Register :=
  (List.range' 1 (2 ^ 7 - 1)).foldl
    (fun best s =>
      if metrics (BitVec.ofNat 7 s) < metrics best then BitVec.ofNat 7 s else best) 0

/-- The input bit is the top bit of the state it led to. -/
def decodedBits (pairs : List (Option Bool × Option Bool)) : List Bool :=
  let rows := viterbi startMetrics pairs
  let state := bestState (Trellis.finalMetric startMetrics rows)
  (Trellis.traceback (fun s : Register => s.msb) rows state).1

/-! ## The decoder -/

structure FecDecoder where
  codeRate : CodeRate
  correctedErrors : UInt64 := 0
deriving DecidableEq, Repr

/-- The payload that `decode` returns. -/
def decodedBytes (rate : CodeRate) (codedData : List UInt8) (originalByteLength : Nat) :
    List UInt8 :=
  let decoded := decodedBits (receivedPairs (depunctured rate codedData originalByteLength))
  let payload := decoded.take (originalByteLength * 8)
  takeBytes ((payload.length + 7) / 8) payload

/-- The bits in which the bytes differ, as far as both go. -/
def differingBits (bytes bytes' : List UInt8) : Nat :=
  (List.zipWith (fun a b => (toBits 8 (a ^^^ b).toNat).count true) bytes bytes').sum

/-- `decode`, with the decoder after it: what was decoded is encoded again
and compared with what was received. -/
def FecDecoder.decode (d : FecDecoder) (codedData : List UInt8) (originalByteLength : Nat) :
    List UInt8 × FecDecoder :=
  let output := decodedBytes d.codeRate codedData originalByteLength
  let reEncoded := FecEncoder.encode ⟨d.codeRate⟩ output
  let errors := differingBits reEncoded codedData
  (output, { d with correctedErrors := d.correctedErrors + UInt64.ofNat errors })

theorem length_receivedPairs (received : List (Option Bool)) :
    (receivedPairs received).length = received.length / 2 := by
  fun_induction receivedPairs received with
  | case1 rx0 rx1 rest ih =>
      rw [List.length_cons, ih, List.length_cons, List.length_cons]
      omega
  | case2 received hshort =>
      rcases received with _ | ⟨rx0, _ | ⟨rx1, rest⟩⟩
      · rfl
      · simp
      · exact absurd rfl (hshort rx0 rx1 rest)

/-! ## One step -/

theorem mem_transitions (s : Register) (bit : Bool) : (s, bit) ∈ transitions := by
  apply List.mem_flatMap.mpr
  refine ⟨s.toNat, List.mem_range.mpr s.isLt, ?_⟩
  rw [BitVec.ofNat_toNat, BitVec.setWidth_eq]
  cases bit <;> simp

theorem relax_eq (prev : Register → Nat) (rx : Option Bool × Option Bool) :
    relax prev rx = Trellis.relax shiftIn infMetric prev (branchMetric rx) := rfl

/-- The loops over the transitions compute one step of the trellis. -/
theorem viterbiStep_relaxes (prev : Register → Nat) (rx : Option Bool × Option Bool) :
    Trellis.Relaxes shiftIn infMetric prev (branchMetric rx) (viterbiStep prev rx) := by
  rw [viterbiStep, relax_eq]
  exact Trellis.foldl_relax_relaxes mem_transitions _

/-! ## All steps -/

theorem viterbi_sweeps (prev : Register → Nat) (pairs : List (Option Bool × Option Bool)) :
    Trellis.Sweeps shiftIn infMetric prev (pairs.map branchMetric) (viterbi prev pairs) := by
  induction pairs generalizing prev with
  | nil => exact .nil prev
  | cons rx pairs ih => exact .cons (viterbiStep_relaxes prev rx) (ih _)

/-- The search ends no higher than it began, and no higher than any state it
has seen. -/
theorem foldl_best_le (metrics : Register → Nat) (states : List Nat) (best : Register) :
    let found := states.foldl
      (fun best s =>
        if metrics (BitVec.ofNat 7 s) < metrics best then BitVec.ofNat 7 s else best) best
    metrics found ≤ metrics best ∧ ∀ s ∈ states, metrics found ≤ metrics (BitVec.ofNat 7 s) := by
  induction states generalizing best with
  | nil => exact ⟨Nat.le_refl _, fun _ h => absurd h List.not_mem_nil⟩
  | cons s states ih =>
      dsimp only at ih ⊢
      rw [List.foldl_cons]
      split
      · rename_i hlt
        obtain ⟨hbest, hrest⟩ := ih (BitVec.ofNat 7 s)
        exact ⟨by omega, List.forall_mem_cons.mpr ⟨hbest, hrest⟩⟩
      · obtain ⟨hbest, hrest⟩ := ih best
        exact ⟨hbest, List.forall_mem_cons.mpr ⟨by omega, hrest⟩⟩

/-- The state chosen has the least metric. -/
theorem bestState_le (metrics : Register → Nat) (s : Register) :
    metrics (bestState metrics) ≤ metrics s := by
  unfold bestState
  rcases Nat.eq_zero_or_pos s.toNat with hzero | hpos
  · -- state 0 is what the search begins with
    have hs : s = 0 := BitVec.eq_of_toNat_eq hzero
    rw [hs]
    exact (foldl_best_le metrics _ 0).1
  · have hmem : s.toNat ∈ List.range' 1 (2 ^ 7 - 1) := by
      rw [List.mem_range'_1]
      have := s.isLt
      omega
    have hle := (foldl_best_le metrics (List.range' 1 (2 ^ 7 - 1)) 0).2 _ hmem
    rwa [BitVec.ofNat_toNat, BitVec.setWidth_eq] at hle

theorem mismatch_le (rx : Option Bool) (out : Bool) : mismatch rx out ≤ 1 := by
  unfold mismatch
  split
  · exact Nat.zero_le _
  · split <;> decide

theorem branchMetric_le (rx : Option Bool × Option Bool) (s : Register) (bit : Bool) :
    branchMetric rx s bit ≤ 2 :=
  Nat.add_le_add (mismatch_le _ _) (mismatch_le _ _)

/-- The cost of feeding these bits to the encoder: the received bits that
disagree with what comes out. -/
def pathMetric (pairs : List (Option Bool × Option Bool)) (bits : List Bool) : Nat :=
  Trellis.pathCost shiftIn 0 (pairs.map branchMetric) bits

@[simp] theorem length_decodedBits (pairs : List (Option Bool × Option Bool)) :
    (decodedBits pairs).length = pairs.length := by
  rw [decodedBits, Trellis.length_traceback, (viterbi_sweeps startMetrics pairs).length_eq,
    List.length_map]

/-- The decoder reads a cheapest path, as long as the metrics stay below the
mark for states not reached. -/
theorem decodedBits_optimal {pairs : List (Option Bool × Option Bool)}
    (hlen : 2 * pairs.length < infMetric) {bits : List Bool} (hbits : bits.length = pairs.length) :
    pathMetric pairs (decodedBits pairs) ≤ pathMetric pairs bits := by
  have hcost : ∀ cost ∈ pairs.map branchMetric, ∀ s bit, cost s bit ≤ 2 := by
    intro cost hmem s bit
    obtain ⟨rx, _, rfl⟩ := List.mem_map.mp hmem
    exact branchMetric_le rx s bit
  have hbound : ∀ bits,
      Trellis.pathCost shiftIn 0 (pairs.map branchMetric) bits < infMetric := by
    intro bits
    have hle : Trellis.pathCost shiftIn 0 (pairs.map branchMetric) bits ≤
        2 * (pairs.map branchMetric).length := Trellis.pathCost_le hcost 0 bits
    rw [List.length_map] at hle
    omega
  have honly : ∀ s, startMetrics s < infMetric → s = 0 := by
    intro s hs
    unfold startMetrics at hs
    split at hs
    · assumption
    · exact absurd hs (Nat.lt_irrefl _)
  exact (viterbi_sweeps startMetrics pairs).traceback_optimal msb_shiftIn rfl honly hbound
    (bestState_le _) (by rw [List.length_map, hbits])

end QpskB210.Modem
