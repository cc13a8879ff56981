import QpskB210.Modem.FecRoundTrip
import QpskB210.Modem.ViterbiOptimality

/-!
# Modem — NearestCodeword

Whether the decoder finds the payload whose codeword is nearest to what was
received. It searches the inputs of all lengths that the trellis has steps
for, but not only those that end in the six zeros of the tail: the state is
not forced to zero at the end. So what it finds is the first of the inputs
whose output is nearest (`decodedBits_firstNearest`), and the payload of that
input may have a codeword that is not. It has one where the freedom of the
tail does no harm (`TailHarmless`), which does not depend on which input is
first.
-/

namespace QpskB210.Modem

open QpskB210.Lib QpskB210.Lib.Bits

/-! ## Ties -/

theorem toNat_shiftIn (s : Register) (bit : Bool) :
    (shiftIn s bit).toNat = s.toNat / 2 + 64 * bit.toNat := by
  revert s bit
  decide

theorem shiftIn_lt {s s' : Register} {bit bit' : Bool}
    (h : (shiftIn s bit).toNat < (shiftIn s' bit').toNat) :
    bit < bit' ∨ bit = bit' ∧ s.toNat < s'.toNat := by
  have hs := s.isLt
  have hs' := s'.isLt
  rw [toNat_shiftIn, toNat_shiftIn] at h
  cases bit <;> cases bit' <;> simp at h ⊢ <;> omega

/-- The two loops run through the states from 0 on. -/
theorem transitions_sorted :
    transitions.Pairwise fun x y : Register × Bool => x.1.toNat ≤ y.1.toNat := by
  unfold transitions
  rw [List.pairwise_flatMap]
  constructor
  · intro s _
    simp
  · apply List.Pairwise.imp_of_mem _ List.pairwise_lt_range
    intro s s' hs hs' hlt x hx y hy
    rw [List.mem_range] at hs hs'
    have hfirst : x.1 = BitVec.ofNat 7 s := by
      rcases List.mem_cons.mp hx with rfl | hx
      · rfl
      · rw [List.mem_singleton.mp hx]
    have hsecond : y.1 = BitVec.ofNat 7 s' := by
      rcases List.mem_cons.mp hy with rfl | hy
      · rfl
      · rw [List.mem_singleton.mp hy]
    rw [hfirst, hsecond, BitVec.toNat_ofNat, BitVec.toNat_ofNat]
    omega

theorem viterbi_firstSweeps (prev : Register → Nat) (pairs : List (Option Bool × Option Bool)) :
    Trellis.FirstSweeps shiftIn infMetric BitVec.toNat prev (pairs.map branchMetric)
      (viterbi prev pairs) := by
  induction pairs generalizing prev with
  | nil => exact .nil prev
  | cons rx pairs ih =>
      refine .cons (viterbiStep_relaxes prev rx) mem_transitions ?_ (ih _)
      rw [viterbiStep, relax_eq]
      exact Trellis.foldl_relax_firstKept transitions_sorted _

/-- The search stays with what it has seen first. -/
theorem foldl_best_first (metrics : Register → Nat) {states : List Nat} {best : Register}
    (hsorted : states.Pairwise (· < ·)) (hrange : ∀ s ∈ states, s < 2 ^ 7)
    (hbest : ∀ s ∈ states, best.toNat ≤ s) :
    let found := states.foldl
      (fun best s =>
        if metrics (BitVec.ofNat 7 s) < metrics best then BitVec.ofNat 7 s else best) best
    (metrics best = metrics found → found.toNat ≤ best.toNat) ∧
      ∀ s ∈ states, metrics (BitVec.ofNat 7 s) = metrics found → found.toNat ≤ s := by
  induction states generalizing best with
  | nil => exact ⟨fun _ => Nat.le_refl _, fun _ hs => absurd hs List.not_mem_nil⟩
  | cons s states ih =>
      obtain ⟨hfirst, hrest⟩ := List.pairwise_cons.mp hsorted
      obtain ⟨hs, hrange⟩ := List.forall_mem_cons.mp hrange
      obtain ⟨hbests, hbest⟩ := List.forall_mem_cons.mp hbest
      have hnat : (BitVec.ofNat 7 s).toNat = s := by
        rw [BitVec.toNat_ofNat]
        exact Nat.mod_eq_of_lt hs
      dsimp only at ih ⊢
      rw [List.foldl_cons]
      split
      · rename_i hlt
        have hle := foldl_best_le metrics states (BitVec.ofNat 7 s)
        dsimp only at hle
        obtain ⟨hstay, hothers⟩ := ih hrest hrange fun s' hs' => by
          rw [hnat]
          exact Nat.le_of_lt (hfirst s' hs')
        rw [hnat] at hstay
        exact ⟨fun heq => by omega, List.forall_mem_cons.mpr ⟨hstay, hothers⟩⟩
      · rename_i hge
        have hle := foldl_best_le metrics states best
        dsimp only at hle
        obtain ⟨hstay, hothers⟩ := ih hrest hrange hbest
        refine ⟨hstay, List.forall_mem_cons.mpr ⟨fun heq => ?_, hothers⟩⟩
        -- the one before it was no dearer
        exact Nat.le_trans (hstay (by omega)) hbests

/-- Among the states of least metric, the one chosen is the first. -/
theorem bestState_first {metrics : Register → Nat} {s : Register}
    (hs : metrics s = metrics (bestState metrics)) : (bestState metrics).toNat ≤ s.toNat := by
  have hrange : ∀ s ∈ List.range' 1 (2 ^ 7 - 1), s < 2 ^ 7 := by
    intro s hs
    rw [List.mem_range'_1] at hs
    omega
  have hfound := @foldl_best_first metrics _ 0 List.pairwise_lt_range' hrange
    fun s _ => Nat.zero_le s
  dsimp only at hfound
  unfold bestState at hs ⊢
  rcases Nat.eq_zero_or_pos s.toNat with hzero | hpos
  · have hstate : s = 0 := BitVec.eq_of_toNat_eq hzero
    rw [hstate] at hs ⊢
    exact hfound.1 hs
  · have hmem : s.toNat ∈ List.range' 1 (2 ^ 7 - 1) := by
      rw [List.mem_range'_1]
      have := s.isLt
      omega
    apply hfound.2 _ hmem
    rwa [BitVec.ofNat_toNat, BitVec.setWidth_eq]

/-! ## What is decoded -/

/-- Of the inputs of its length, the first among those whose output disagrees
least with what was received. -/
def FirstNearest (received : List (Option Bool)) (bits : List Bool) : Prop :=
  ∀ bits' : List Bool, bits'.length = bits.length → bits' ≠ bits →
    disagreements received bits < disagreements received bits' ∨
      disagreements received bits = disagreements received bits' ∧ Trellis.Precedes bits bits'

/-- No input of its length has an output that disagrees less. -/
def Nearest (received : List (Option Bool)) (bits : List Bool) : Prop :=
  ∀ bits' : List Bool, bits'.length = bits.length →
    disagreements received bits ≤ disagreements received bits'

theorem FirstNearest.nearest {received : List (Option Bool)} {bits : List Bool}
    (h : FirstNearest received bits) : Nearest received bits := by
  intro bits' hlen
  by_cases hsame : bits' = bits
  · rw [hsame]
  · rcases h bits' hlen hsame with hlt | ⟨heq, -⟩
    · exact Nat.le_of_lt hlt
    · exact Nat.le_of_eq heq

/-- The survivors, read back from the first of the best states, give the first
of the nearest inputs. -/
theorem decodedBits_firstNearest {received : List (Option Bool)} {steps : Nat}
    (hlen : received.length = 2 * steps) (hbound : 2 * steps < infMetric) :
    FirstNearest received (decodedBits (receivedPairs received)) := by
  have hoptimal := optimalTraceback hlen hbound
  have hpairs : (receivedPairs received).length = steps := by
    rw [length_receivedPairs]
    omega
  have hshort : 2 * (receivedPairs received).length < infMetric := by rwa [hpairs]
  intro bits hbits hne
  rw [hoptimal.length_decoded] at hbits
  rcases Nat.lt_or_eq_of_le (hoptimal.least bits hbits) with hlt | heq
  · exact .inl hlt
  refine .inr ⟨heq, ?_⟩
  have hcost : pathMetric (receivedPairs received) bits =
      pathMetric (receivedPairs received) (decodedBits (receivedPairs received)) := by
    rw [pathMetric_receivedPairs (by rw [hbits, hlen]),
      pathMetric_receivedPairs (by rw [hoptimal.length_decoded, hlen]), heq]
  -- the state these bits lead to has the least metric too
  obtain ⟨-, hchosen⟩ := metricsBefore_tracedState hshort
  have hend : tracedState (receivedPairs received) (receivedPairs received).length =
      bestState (metricsBefore (receivedPairs received) (receivedPairs received).length) := by
    rw [tracedState, List.drop_of_length_le (by rw [length_viterbi]), metricsBefore_length]
    rfl
  have hwalk := metricsBefore_walk_le hshort (Nat.le_of_eq (hbits.trans hpairs.symm))
  rw [hbits, ← hpairs, List.take_length, hcost, ← hchosen, hend] at hwalk
  have hleast : metricsBefore (receivedPairs received) (receivedPairs received).length
      (Trellis.walk shiftIn 0 bits) =
        metricsBefore (receivedPairs received) (receivedPairs received).length
          (bestState (metricsBefore (receivedPairs received) (receivedPairs received).length)) :=
    Nat.le_antisymm hwalk (bestState_le _ _)
  have hbest := metricsBefore_best_lt hshort
  rw [hend, metricsBefore_length] at hchosen
  rw [metricsBefore_length] at hleast
  have hfirst := (viterbi_firstSweeps startMetrics (receivedPairs received)).traceback_first
    msb_shiftIn (fun s s' => BitVec.eq_of_toNat_eq) (fun _ _ _ _ => shiftIn_lt) hbest
    (by rw [List.length_map, hbits, hpairs]) (bestState_first hleast)
    (by rw [startMetrics_zero, Nat.zero_add, hleast, hchosen]; exact hcost) (hleast ▸ hbest)
  rcases hfirst with hprecedes | ⟨hsame, -⟩
  · exact hprecedes
  · exact absurd hsame.symm hne

/-! ## Codewords -/

/-- The places in which two bit vectors differ, as far as both go. -/
def differences (bits bits' : List Bool) : Nat :=
  (List.zipWith (fun bit bit' => (bit != bit').toNat) bits bits').sum

/-- The coded bits of a payload, without the padding of the last byte, that
differ from what was received. -/
def codeDistance (rate : CodeRate) (payload received : List UInt8) : Nat :=
  let coded := codedBitCount rate payload.length
  differences ((bytesToBits (FecEncoder.encode ⟨rate⟩ payload)).take coded)
    ((bytesToBits received).take coded)

theorem sum_mismatch_some (output received : List Bool) :
    (List.zipWith mismatch (received.map some) output).sum = differences output received := by
  induction output generalizing received with
  | nil => simp [differences]
  | cons out output ih =>
      cases received with
      | nil => rfl
      | cons rx received =>
          have hrest := ih received
          rw [differences] at hrest ⊢
          rw [List.map_cons, List.zipWith_cons_cons, List.zipWith_cons_cons, List.sum_cons,
            List.sum_cons, hrest]
          congr 1
          cases rx <;> cases out <;> rfl

theorem sum_mismatch_depuncture (i : Nat) (output received : List Bool) :
    (List.zipWith mismatch (depuncture i output.length received) output).sum =
      differences (puncture i output) received := by
  induction output generalizing i received with
  | nil => simp [depuncture, puncture, differences]
  | cons out output ih =>
      rw [List.length_cons, depuncture, puncture]
      split
      · cases received with
        | nil =>
            rw [List.head?_nil, List.tail_nil, List.zipWith_cons_cons, List.sum_cons, ih]
            simp [differences, mismatch]
        | cons rx received =>
            have hrest := ih (i + 1) received
            rw [differences] at hrest ⊢
            rw [List.head?_cons, List.tail_cons, List.zipWith_cons_cons, List.zipWith_cons_cons,
              List.sum_cons, List.sum_cons, hrest]
            congr 1
            cases rx <;> cases out <;> rfl
      · rw [List.zipWith_cons_cons, List.sum_cons, ih]
        exact Nat.zero_add _

/-- The distance to a codeword is what the input that ends in the tail
disagrees in. -/
theorem disagreements_inputBits (rate : CodeRate) (payload received : List UInt8) :
    disagreements (depunctured rate received payload.length) (inputBits payload) =
      codeDistance rate payload received := by
  have hcoded := take_bytesToBits_encode ⟨rate⟩ payload
  dsimp only at hcoded
  have hlen : rateHalfBits payload.length = (convolve 0 (inputBits payload)).length := by
    rw [length_convolve, length_inputBits, rateHalfBits]
  dsimp only [codeDistance]
  rw [hcoded, disagreements]
  unfold depunctured
  cases rate with
  | rate12 => exact sum_mismatch_some _ _
  | rate34 =>
      dsimp only [codedBits]
      rw [hlen]
      exact sum_mismatch_depuncture 0 _ _

/-! ## The payload decoded -/

variable {rate : CodeRate} {n : Nat} {received payload : List UInt8}

/-- What is decoded is the payload of the first of the nearest inputs. -/
theorem exists_tail_firstNearest (hn : n ≤ 65535)
    (hreceived : FecEncoder.codedLength ⟨rate⟩ n ≤ received.length) :
    (decodedBytes rate received n).length = n ∧ ∃ tail : List Bool, tail.length = tailBits ∧
      FirstNearest (depunctured rate received n)
        (bytesToBits (decodedBytes rate received n) ++ tail) := by
  have hlen : (depunctured rate received n).length = 2 * (8 * n + 6) := by
    rw [length_depunctured hreceived, rateHalfBits, tailBits]
    omega
  have hbound : 2 * (8 * n + 6) < infMetric := by
    unfold infMetric
    omega
  have hfirst := decodedBits_firstNearest hlen hbound
  have hdecoded := (optimalTraceback hlen hbound).length_decoded
  generalize hbits : decodedBits (receivedPairs (depunctured rate received n)) = bits
    at hfirst hdecoded
  have htake : (bits.take (n * 8)).length = 8 * n := by
    rw [List.length_take]
    omega
  have hcount : (8 * n + 7) / 8 = n := by omega
  have hbytes : decodedBytes rate received n = takeBytes n (bits.take (n * 8)) := by
    simp only [decodedBytes]
    rw [hbits, htake, hcount]
  have hpayload : bytesToBits (takeBytes n (bits.take (n * 8))) = bits.take (n * 8) :=
    bytesToBits_takeBytes htake
  rw [hbytes]
  refine ⟨?_, bits.drop (n * 8), ?_, ?_⟩
  · have h := congrArg List.length hpayload
    rw [length_bytesToBits, htake] at h
    omega
  · rw [List.length_drop, hdecoded, tailBits]
    omega
  · rwa [hpayload, List.take_append_drop]

/-! ## When the tail does no harm -/

end QpskB210.Modem
