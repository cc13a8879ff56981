import Mathlib.Data.List.Basic
import Mathlib.Data.List.Induction
import Mathlib.Logic.Function.Basic
import Mathlib.Order.Defs.PartialOrder

/-!
# Trellises

Shortest paths through a trellis, step by step. A path is a list of labels;
each step has a cost of its own. A step may keep for every state the least
metric it has and a predecessor that gives it (`Relaxes`); following the
predecessors back from a state of least metric after the last step gives a
path no dearer than any other (`Sweeps.traceback_optimal`). Metrics from
`inf` on mark the states that no path has reached. A loop over all
transitions that keeps the cheaper of two is such a step
(`foldl_relax_relaxes`). Where the loop takes the transitions in the order of
their origins, ties go to the labels that come first when compared from the
last one back (`Sweeps.traceback_first`).
-/

namespace QpskB210.Lib.Trellis

variable {σ β : Type}

/-- What one step keeps for each state. -/
structure Row (σ : Type) where
  metric : σ → Nat
  survivor : σ → σ

/-- The row with another metric and survivor for one state. -/
def Row.assign [DecidableEq σ] (row : Row σ) (t : σ) (metric : Nat) (survivor : σ) : Row σ where
  metric := Function.update row.metric t metric
  survivor := Function.update row.survivor t survivor

section Assign

variable [DecidableEq σ] {row : Row σ} {t t' s : σ} {m : Nat}

@[simp] theorem Row.assign_metric_self : (row.assign t m s).metric t = m :=
  Function.update_self ..

@[simp] theorem Row.assign_survivor_self : (row.assign t m s).survivor t = s :=
  Function.update_self ..

theorem Row.assign_metric_of_ne (h : t' ≠ t) : (row.assign t m s).metric t' = row.metric t' :=
  Function.update_of_ne h ..

theorem Row.assign_survivor_of_ne (h : t' ≠ t) :
    (row.assign t m s).survivor t' = row.survivor t' :=
  Function.update_of_ne h ..

end Assign

variable (next : σ → β → σ)

/-- Where the labels lead. -/
def walk (s : σ) (labels : List β) : σ := labels.foldl next s

/-- What the labels cost on the way. -/
def pathCost : σ → List (σ → β → Nat) → List β → Nat
  | s, cost :: costs, b :: labels => cost s b + pathCost (next s b) costs labels
  | _, _, _ => 0

/-- The row has the least metric that one step from the metrics before gives,
and it names where that step came from. -/
structure Relaxes (inf : Nat) (before : σ → Nat) (cost : σ → β → Nat) (row : Row σ) : Prop where
  le : ∀ s b, before s < inf → row.metric (next s b) ≤ before s + cost s b
  attained : ∀ t, row.metric t < inf → before (row.survivor t) < inf ∧
    ∃ b, next (row.survivor t) b = t ∧
      row.metric t = before (row.survivor t) + cost (row.survivor t) b

/-- The rows of a run, each relaxed from the one before it. -/
inductive Sweeps (inf : Nat) : (σ → Nat) → List (σ → β → Nat) → List (Row σ) → Prop where
  | nil (before : σ → Nat) : Sweeps inf before [] []
  | cons {before : σ → Nat} {cost : σ → β → Nat} {row : Row σ} {costs : List (σ → β → Nat)}
      {rows : List (Row σ)} :
      Relaxes next inf before cost row → Sweeps inf row.metric costs rows →
        Sweeps inf before (cost :: costs) (row :: rows)

/-- The metrics after the last row. -/
def finalMetric : (σ → Nat) → List (Row σ) → σ → Nat
  | before, [] => before
  | _, row :: rows => finalMetric row.metric rows

/-- The labels on the way to a state, read off the survivors from the last
row back, and the state that the way begins at. -/
def traceback (label : σ → β) : List (Row σ) → σ → List β × σ
  | [], t => ([], t)
  | row :: rows, t =>
    let (labels, s) := traceback label rows t
    (label s :: labels, row.survivor s)

/-! ## Paths -/

variable {next}

@[simp] theorem walk_cons (s : σ) (b : β) (labels : List β) :
    walk next s (b :: labels) = walk next (next s b) labels := rfl

@[simp] theorem pathCost_cons (s : σ) (cost : σ → β → Nat) (costs : List (σ → β → Nat)) (b : β)
    (labels : List β) :
    pathCost next s (cost :: costs) (b :: labels) =
      cost s b + pathCost next (next s b) costs labels := rfl

theorem traceback_cons (label : σ → β) (row : Row σ) (rows : List (Row σ)) (t : σ) :
    traceback label (row :: rows) t =
      (label (traceback label rows t).2 :: (traceback label rows t).1,
        row.survivor (traceback label rows t).2) := rfl

/-- A path costs no more than its steps can. -/
theorem pathCost_le {bound : Nat} {costs : List (σ → β → Nat)}
    (hbound : ∀ cost ∈ costs, ∀ s b, cost s b ≤ bound) (s : σ) (labels : List β) :
    pathCost next s costs labels ≤ bound * costs.length := by
  induction costs generalizing s labels with
  | nil =>
      unfold pathCost
      exact Nat.zero_le _
  | cons cost costs ih =>
      cases labels with
      | nil =>
          unfold pathCost
          exact Nat.zero_le _
      | cons b labels =>
          have hhead := hbound cost List.mem_cons_self s b
          have htail := ih (fun cost' h => hbound cost' (List.mem_cons_of_mem cost h))
            (next s b) labels
          rw [pathCost_cons, List.length_cons, Nat.mul_succ]
          omega

/-- Where no step has two labels that cost nothing, one path at most costs
nothing. -/
theorem eq_of_pathCost_zero {costs : List (σ → β → Nat)}
    (hsep : ∀ cost ∈ costs, ∀ s b b', cost s b = 0 → cost s b' = 0 → b = b') {s : σ}
    {labels labels' : List β} (hlen : labels.length = costs.length)
    (hlen' : labels'.length = costs.length) (h : pathCost next s costs labels = 0)
    (h' : pathCost next s costs labels' = 0) : labels = labels' := by
  induction costs generalizing s labels labels' with
  | nil => rw [List.length_eq_zero_iff.mp hlen, List.length_eq_zero_iff.mp hlen']
  | cons cost costs ih =>
      obtain ⟨b, tail, rfl⟩ := List.exists_cons_of_length_eq_add_one hlen
      obtain ⟨b', tail', rfl⟩ := List.exists_cons_of_length_eq_add_one hlen'
      rw [pathCost_cons, Nat.add_eq_zero_iff] at h h'
      obtain rfl := hsep cost List.mem_cons_self s b b' h.1 h'.1
      have htail := ih (fun cost' hc => hsep cost' (List.mem_cons_of_mem cost hc))
        (Nat.succ.inj hlen) (Nat.succ.inj hlen') h.2 h'.2
      rw [htail]

/-! ## Relaxing -/

section Relaxing

variable [DecidableEq σ] (next) (inf : Nat) (before : σ → Nat) (cost : σ → β → Nat)

/-- Taking one transition into account: it replaces what the row has for the
state it leads to if it is cheaper. -/
def relax (row : Row σ) (t : σ × β) : Row σ :=
  if before t.1 ≥ inf then row
  else
    let candidate := before t.1 + cost t.1 t.2
    if candidate < row.metric (next t.1 t.2) then row.assign (next t.1 t.2) candidate t.1 else row

/-- Every state that has a metric has it from its survivor. -/
def Attained (row : Row σ) : Prop :=
  ∀ t, row.metric t < inf → before (row.survivor t) < inf ∧
    ∃ b, next (row.survivor t) b = t ∧
      row.metric t = before (row.survivor t) + cost (row.survivor t) b

variable {next inf before cost} {row : Row σ}

/-- A transition raises no metric. -/
theorem relax_metric_le (row : Row σ) (t : σ × β) (s : σ) :
    (relax next inf before cost row t).metric s ≤ row.metric s := by
  unfold relax
  split
  · exact Nat.le_refl _
  · dsimp only
    split
    · rename_i hlt
      by_cases heq : s = next t.1 t.2
      · rw [heq, Row.assign_metric_self]
        exact Nat.le_of_lt hlt
      · exact Nat.le_of_eq (Row.assign_metric_of_ne heq)
    · exact Nat.le_refl _

theorem foldl_relax_metric_le (row : Row σ) (ts : List (σ × β)) (s : σ) :
    (ts.foldl (relax next inf before cost) row).metric s ≤ row.metric s := by
  induction ts generalizing row with
  | nil => exact Nat.le_refl _
  | cons t ts ih => exact Nat.le_trans (ih _) (relax_metric_le row t s)

/-- After a transition, the state it leads to costs no more than by it. -/
theorem relax_le_candidate (row : Row σ) {t : σ × β} (hreached : before t.1 < inf) :
    (relax next inf before cost row t).metric (next t.1 t.2) ≤ before t.1 + cost t.1 t.2 := by
  unfold relax
  rw [if_neg (by omega)]
  dsimp only
  split
  · exact Nat.le_of_eq Row.assign_metric_self
  · omega

theorem foldl_relax_le_candidate (row : Row σ) {ts : List (σ × β)} {t : σ × β} (hmem : t ∈ ts)
    (hreached : before t.1 < inf) :
    (ts.foldl (relax next inf before cost) row).metric (next t.1 t.2) ≤
      before t.1 + cost t.1 t.2 := by
  induction ts generalizing row with
  | nil => cases hmem
  | cons t' ts ih =>
      rcases List.mem_cons.mp hmem with rfl | hmem
      · -- the transitions after it raise nothing
        exact Nat.le_trans (foldl_relax_metric_le _ ts _) (relax_le_candidate row hreached)
      · exact ih _ hmem

theorem Attained.relax (h : Attained next inf before cost row) (t : σ × β) :
    Attained next inf before cost (relax next inf before cost row t) := by
  unfold Trellis.relax
  split
  · exact h
  · rename_i hreached
    dsimp only
    split
    · intro s hs
      by_cases heq : s = next t.1 t.2
      · subst heq
        rw [Row.assign_survivor_self, Row.assign_metric_self]
        exact ⟨by omega, t.2, rfl, rfl⟩
      · rw [Row.assign_metric_of_ne heq] at hs ⊢
        rw [Row.assign_survivor_of_ne heq]
        exact h s hs
    · exact h

theorem Attained.foldl_relax (h : Attained next inf before cost row) (ts : List (σ × β)) :
    Attained next inf before cost (ts.foldl (Trellis.relax next inf before cost) row) := by
  induction ts generalizing row with
  | nil => exact h
  | cons t ts ih => exact ih (h.relax t)

/-- Taking every transition into account, in whatever order, is one step. -/
theorem foldl_relax_relaxes {ts : List (σ × β)} (hall : ∀ s b, (s, b) ∈ ts) (survivor : σ → σ) :
    Relaxes next inf before cost
      (ts.foldl (relax next inf before cost) { metric := fun _ => inf, survivor := survivor }) where
  le s b hreached := foldl_relax_le_candidate _ (hall s b) hreached
  attained := by
    have hstart : Attained next inf before cost
        { metric := fun _ => inf, survivor := survivor } :=
      fun _ hlt => absurd hlt (Nat.lt_irrefl _)
    exact hstart.foldl_relax ts

end Relaxing

/-! ## Runs -/

variable {inf : Nat} {before : σ → Nat} {costs : List (σ → β → Nat)} {rows : List (Row σ)}

theorem Sweeps.length_eq (h : Sweeps next inf before costs rows) : rows.length = costs.length := by
  induction h with
  | nil => rfl
  | cons _ _ ih => rw [List.length_cons, List.length_cons, ih]

@[simp] theorem length_traceback (label : σ → β) (rows : List (Row σ)) (t : σ) :
    (traceback label rows t).1.length = rows.length := by
  induction rows with
  | nil => rfl
  | cons row rows ih => rw [traceback_cons, List.length_cons, List.length_cons, ih]

/-- No path is cheaper than the metric of the state it leads to. -/
theorem Sweeps.finalMetric_le (h : Sweeps next inf before costs rows) {s : σ} {labels : List β}
    (hlen : labels.length = costs.length)
    (hlt : before s + pathCost next s costs labels < inf) :
    finalMetric before rows (walk next s labels) ≤ before s + pathCost next s costs labels := by
  induction h generalizing s labels with
  | nil =>
      obtain rfl := List.length_eq_zero_iff.mp hlen
      exact Nat.le_refl _
  | @cons before cost row costs rows hrelax _ ih =>
      obtain ⟨b, labels, rfl⟩ := List.exists_cons_of_length_eq_add_one hlen
      rw [pathCost_cons] at hlt ⊢
      have hhead := hrelax.le s b (by omega)
      have htail : finalMetric row.metric rows (walk next (next s b) labels) ≤
          row.metric (next s b) + pathCost next (next s b) costs labels :=
        ih (Nat.succ.inj hlen) (by omega)
      rw [walk_cons, finalMetric]
      omega

/-- Following the survivors gives a path that costs what the metric says. -/
theorem Sweeps.traceback_attains {label : σ → β} (hlabel : ∀ s b, label (next s b) = b)
    (h : Sweeps next inf before costs rows) {t : σ} (ht : finalMetric before rows t < inf) :
    before (traceback label rows t).2 < inf ∧
      walk next (traceback label rows t).2 (traceback label rows t).1 = t ∧
      finalMetric before rows t = before (traceback label rows t).2 +
        pathCost next (traceback label rows t).2 costs (traceback label rows t).1 := by
  induction h with
  | nil => exact ⟨ht, rfl, rfl⟩
  | @cons before cost row costs rows hrelax _ ih =>
      obtain ⟨hreached, hwalk, hcost⟩ := ih ht
      -- the rest of the way begins at a state that this row has reached
      obtain ⟨hbefore, b, hnext, hmetric⟩ := hrelax.attained _ hreached
      have hb : label (traceback label rows t).2 = b := by rw [← hnext, hlabel]
      rw [traceback_cons]
      refine ⟨hbefore, ?_, ?_⟩
      · rw [walk_cons, hb, hnext, hwalk]
      · rw [pathCost_cons, hb, hnext, finalMetric, hcost, hmetric, Nat.add_assoc]

/-- From a state of least metric, the survivors give a path of least cost. -/
theorem Sweeps.traceback_optimal {label : σ → β} (hlabel : ∀ s b, label (next s b) = b)
    (h : Sweeps next inf before costs rows) {s₀ t : σ} (hstart : before s₀ = 0)
    (honly : ∀ s, before s < inf → s = s₀)
    (hbound : ∀ labels, pathCost next s₀ costs labels < inf)
    (hbest : ∀ s, finalMetric before rows t ≤ finalMetric before rows s) {labels : List β}
    (hlen : labels.length = costs.length) :
    pathCost next s₀ costs (traceback label rows t).1 ≤ pathCost next s₀ costs labels := by
  have hlt : before s₀ + pathCost next s₀ costs labels < inf := by
    rw [hstart, Nat.zero_add]
    exact hbound labels
  -- the state chosen is no dearer than the one the other path leads to
  have hle := Nat.le_trans (hbest _) (h.finalMetric_le hlen hlt)
  obtain ⟨hreached, _, hcost⟩ := h.traceback_attains hlabel (Nat.lt_of_le_of_lt hle hlt)
  rw [honly _ hreached, hstart, Nat.zero_add] at hcost
  rwa [hcost, hstart, Nat.zero_add] at hle

/-! ## Single steps -/

theorem finalMetric_append (before : σ → Nat) (rows rows' : List (Row σ)) :
    finalMetric before (rows ++ rows') = finalMetric (finalMetric before rows) rows' := by
  induction rows generalizing before with
  | nil => rfl
  | cons row rows ih => exact ih row.metric

theorem traceback_drop (label : σ → β) (rows : List (Row σ)) (t : σ) (i : Nat) :
    (traceback label (rows.drop i) t).1 = (traceback label rows t).1.drop i := by
  induction rows generalizing i with
  | nil => cases i <;> rfl
  | cons row rows ih =>
      cases i with
      | zero => rfl
      | succ i => rw [List.drop_succ_cons, ih, traceback_cons, List.drop_succ_cons]

/-- The first steps of a run. -/
theorem Sweeps.take (h : Sweeps next inf before costs rows) (i : Nat) :
    Sweeps next inf before (costs.take i) (rows.take i) := by
  induction h generalizing i with
  | nil before =>
      rw [List.take_nil, List.take_nil]
      exact .nil before
  | cons hrelax _ ih =>
      cases i with
      | zero => exact .nil _
      | succ i => exact .cons hrelax (ih i)

/-- The steps that follow them. -/
theorem Sweeps.drop (h : Sweeps next inf before costs rows) (i : Nat) :
    Sweeps next inf (finalMetric before (rows.take i)) (costs.drop i) (rows.drop i) := by
  induction h generalizing i with
  | nil before =>
      rw [List.take_nil, List.drop_nil, List.drop_nil]
      exact .nil before
  | cons hrelax hrest ih =>
      cases i with
      | zero => exact .cons hrelax hrest
      | succ i => exact ih i

/-- Each survivor on the way back is where the cheapest transition into its
state comes from. -/
theorem Sweeps.traceback_step {label : σ → β} (hlabel : ∀ s b, label (next s b) = b)
    (h : Sweeps next inf before costs rows) {t : σ} (ht : finalMetric before rows t < inf) {i : Nat}
    {row : Row σ} {cost : σ → β → Nat} (hrow : rows[i]? = some row) (hcost : costs[i]? = some cost)
    {s s' : σ} (hs : s = (traceback label (rows.drop i) t).2)
    (hs' : s' = (traceback label (rows.drop (i + 1)) t).2) :
    (traceback label rows t).1[i]? = some (label s') ∧ row.survivor s' = s ∧
      finalMetric before (rows.take i) s < inf ∧ next s (label s') = s' ∧
      row.metric s' = finalMetric before (rows.take i) s + cost s (label s') := by
  obtain ⟨hi, rfl⟩ := List.getElem?_eq_some_iff.mp hrow
  obtain ⟨hi', rfl⟩ := List.getElem?_eq_some_iff.mp hcost
  have hwhole : finalMetric before rows t =
      finalMetric (finalMetric before (rows.take i)) (rows.drop i) t := by
    rw [← finalMetric_append, List.take_append_drop]
  have hsteps := h.drop i
  rw [hwhole] at ht
  have hlabels := traceback_drop label rows t i
  rw [List.drop_eq_getElem_cons hi] at hsteps ht hs hlabels
  rw [List.drop_eq_getElem_cons hi'] at hsteps
  rw [traceback_cons] at hs hlabels
  subst hs hs'
  cases hsteps with
  | cons hrelax hrest =>
      -- the rest of the way back has come to a state that this row has reached
      obtain ⟨hreached, -, -⟩ := hrest.traceback_attains hlabel ht
      obtain ⟨hbefore, b, hnext, hmetric⟩ := hrelax.attained _ hreached
      have hb : label (traceback label (rows.drop (i + 1)) t).2 = b := by rw [← hnext, hlabel]
      refine ⟨?_, rfl, hbefore, ?_, ?_⟩
      · have hhead := congrArg List.head? hlabels
        rw [List.head?_cons, List.head?_drop] at hhead
        exact hhead.symm
      · rw [hb, hnext]
      · rw [hb, hmetric]

/-! ## Ties -/

/-- Compared from the last label back, the first that differs is less. -/
def Precedes [LT β] : List β → List β → Prop
  | b :: labels, b' :: labels' => Precedes labels labels' ∨ labels = labels' ∧ b < b'
  | _, _ => False

section Order

variable [Preorder β] {labels : List β}

end Order

section First

variable (next) (inf) (index : σ → Nat) (before : σ → Nat) (cost : σ → β → Nat)

/-- After the transitions of `done`, the row names the first of the cheapest
into each state. -/
structure FirstKept (done : List (σ × β)) (row : Row σ) : Prop where
  le : ∀ x ∈ done, before x.1 < inf → row.metric (next x.1 x.2) ≤ before x.1 + cost x.1 x.2
  origin : ∀ t, row.metric t < inf → ∃ x ∈ done, row.survivor t = x.1
  first : ∀ x ∈ done, row.metric (next x.1 x.2) < inf →
    row.metric (next x.1 x.2) = before x.1 + cost x.1 x.2 →
      index (row.survivor (next x.1 x.2)) ≤ index x.1

variable {next inf index before cost}

/-- One more transition, for which the row stays as it is. -/
theorem FirstKept.keep {done : List (σ × β)} {row : Row σ}
    (h : FirstKept next inf index before cost done row) {x : σ × β}
    (hle : ∀ y ∈ done ++ [x], before y.1 < inf →
      row.metric (next y.1 y.2) ≤ before y.1 + cost y.1 y.2)
    (hfirst : row.metric (next x.1 x.2) < inf →
      row.metric (next x.1 x.2) = before x.1 + cost x.1 x.2 →
        index (row.survivor (next x.1 x.2)) ≤ index x.1) :
    FirstKept next inf index before cost (done ++ [x]) row := by
  refine ⟨hle, ?_, ?_⟩
  · intro t ht
    obtain ⟨y, hy, heq⟩ := h.origin t ht
    exact ⟨y, List.mem_append_left _ hy, heq⟩
  · intro y hy
    rcases List.mem_append.mp hy with hy | hy
    · exact h.first y hy
    · obtain rfl := List.mem_singleton.mp hy
      exact hfirst

/-- One more transition, cheaper than all before it: none of those gives its
metric. -/
theorem FirstKept.assign [DecidableEq σ] {done : List (σ × β)} {row : Row σ}
    (h : FirstKept next inf index before cost done row) {x : σ × β} (hreached : before x.1 < inf)
    (hcheaper : before x.1 + cost x.1 x.2 < row.metric (next x.1 x.2))
    (hle : ∀ y ∈ done ++ [x], before y.1 < inf →
      (row.assign (next x.1 x.2) (before x.1 + cost x.1 x.2) x.1).metric (next y.1 y.2) ≤
        before y.1 + cost y.1 y.2) :
    FirstKept next inf index before cost (done ++ [x])
      (row.assign (next x.1 x.2) (before x.1 + cost x.1 x.2) x.1) := by
  refine ⟨hle, ?_, ?_⟩
  · intro t ht
    by_cases heq : t = next x.1 x.2
    · subst heq
      exact ⟨x, by simp, Row.assign_survivor_self⟩
    · rw [Row.assign_metric_of_ne heq] at ht
      obtain ⟨y, hy, horigin⟩ := h.origin t ht
      exact ⟨y, List.mem_append_left _ hy, by rwa [Row.assign_survivor_of_ne heq]⟩
  · intro y hy hlt hmetric
    by_cases heq : next y.1 y.2 = next x.1 x.2
    · rw [heq, Row.assign_survivor_self]
      rw [heq, Row.assign_metric_self] at hlt hmetric
      rcases List.mem_append.mp hy with hy | hy
      · have hearlier := h.le y hy (by omega)
        rw [heq] at hearlier
        omega
      · obtain rfl := List.mem_singleton.mp hy
        exact Nat.le_refl _
    · rw [Row.assign_metric_of_ne heq] at hlt hmetric
      rw [Row.assign_survivor_of_ne heq]
      rcases List.mem_append.mp hy with hy | hy
      · exact h.first y hy hlt hmetric
      · obtain rfl := List.mem_singleton.mp hy
        exact absurd rfl heq

theorem FirstKept.relax [DecidableEq σ] {done : List (σ × β)} {row : Row σ}
    (h : FirstKept next inf index before cost done row) {x : σ × β}
    (hsorted : ∀ y ∈ done, index y.1 ≤ index x.1) :
    FirstKept next inf index before cost (done ++ [x])
      (Trellis.relax next inf before cost row x) := by
  have hle : ∀ y ∈ done ++ [x], before y.1 < inf →
      (Trellis.relax next inf before cost row x).metric (next y.1 y.2) ≤
        before y.1 + cost y.1 y.2 := by
    intro y hy hreached
    rcases List.mem_append.mp hy with hy | hy
    · exact Nat.le_trans (relax_metric_le row x _) (h.le y hy hreached)
    · obtain rfl := List.mem_singleton.mp hy
      exact relax_le_candidate row hreached
  unfold Trellis.relax at hle ⊢
  split at hle
  · -- a state without a metric leads nowhere
    rename_i hinf
    rw [if_pos hinf]
    exact h.keep hle fun hlt heq => by omega
  · rename_i hreached
    rw [if_neg hreached]
    dsimp only at hle ⊢
    split at hle
    · rename_i hcheaper
      rw [if_pos hcheaper]
      exact h.assign (Nat.lt_of_not_le hreached) hcheaper hle
    · -- no cheaper: what the row names came earlier
      rename_i hdearer
      rw [if_neg hdearer]
      refine h.keep hle fun hlt _ => ?_
      obtain ⟨y, hy, horigin⟩ := h.origin _ hlt
      rw [horigin]
      exact hsorted y hy

/-- Over transitions in the order of their origins, the loop keeps the first
of the cheapest. -/
theorem foldl_relax_firstKept [DecidableEq σ] {ts : List (σ × β)}
    (hsorted : ts.Pairwise fun x y => index x.1 ≤ index y.1) (survivor : σ → σ) :
    FirstKept next inf index before cost ts
      (ts.foldl (relax next inf before cost) { metric := fun _ => inf, survivor := survivor }) := by
  induction ts using List.reverseRecOn with
  | nil =>
      refine ⟨?_, ?_, ?_⟩
      · intro x hx
        cases hx
      · intro t ht
        exact absurd ht (Nat.lt_irrefl _)
      · intro x hx
        cases hx
  | append_singleton done x ih =>
      obtain ⟨hdone, -, hlast⟩ := List.pairwise_append.mp hsorted
      rw [List.foldl_append, List.foldl_cons, List.foldl_nil]
      exact (ih hdone).relax fun y hy => hlast y hy x (List.mem_singleton_self x)

/-- The rows of a run that keep the first of the cheapest. -/
inductive FirstSweeps [DecidableEq σ] (next : σ → β → σ) (inf : Nat) (index : σ → Nat) :
    (σ → Nat) → List (σ → β → Nat) → List (Row σ) → Prop where
  | nil (before : σ → Nat) : FirstSweeps next inf index before [] []
  | cons {before : σ → Nat} {cost : σ → β → Nat} {row : Row σ} {costs : List (σ → β → Nat)}
      {rows : List (Row σ)} {ts : List (σ × β)} :
      Relaxes next inf before cost row → (∀ s b, (s, b) ∈ ts) →
        FirstKept next inf index before cost ts row →
          FirstSweeps next inf index row.metric costs rows →
            FirstSweeps next inf index before (cost :: costs) (row :: rows)

variable [DecidableEq σ]

theorem FirstSweeps.sweeps (h : FirstSweeps next inf index before costs rows) :
    Sweeps next inf before costs rows := by
  induction h with
  | nil before => exact .nil before
  | cons hrelax _ _ _ ih => exact .cons hrelax ih

/-- Of all paths that cost what a state of least metric has, the way back
reads the one that comes first. Here `next` compares a state by its label,
then by where it comes from. -/
theorem FirstSweeps.traceback_first [Preorder β] {label : σ → β}
    (hlabel : ∀ s b, label (next s b) = b) (hindex : ∀ s s', index s = index s' → s = s')
    (hnext : ∀ s s' b b', index (next s b) < index (next s' b') →
      b < b' ∨ b = b' ∧ index s < index s')
    (h : FirstSweeps next inf index before costs rows) {t : σ}
    (ht : finalMetric before rows t < inf) {s' : σ} {labels' : List β}
    (hlen : labels'.length = costs.length) (hle : index t ≤ index (walk next s' labels'))
    (hcost : before s' + pathCost next s' costs labels' =
      finalMetric before rows (walk next s' labels'))
    (hlt : finalMetric before rows (walk next s' labels') < inf) :
    Precedes (traceback label rows t).1 labels' ∨
      (traceback label rows t).1 = labels' ∧ index (traceback label rows t).2 ≤ index s' := by
  induction h generalizing s' labels' with
  | nil before =>
      rw [List.length_eq_zero_iff.mp hlen] at hle ⊢
      exact .inr ⟨rfl, hle⟩
  | @cons before cost row costs rows ts hrelax hall hfirst hrest ih =>
      obtain ⟨b', labels', rfl⟩ := List.exists_cons_of_length_eq_add_one hlen
      rw [pathCost_cons, walk_cons] at hcost
      rw [walk_cons] at hle hlt
      rw [finalMetric] at hcost hlt
      -- the other path has the least metric after one step already
      have hstep := hrelax.le s' b' (by omega)
      have htail : finalMetric row.metric rows (walk next (next s' b') labels') ≤
          row.metric (next s' b') + pathCost next (next s' b') costs labels' :=
        hrest.sweeps.finalMetric_le (Nat.succ.inj hlen) (by omega)
      have hmetric : row.metric (next s' b') = before s' + cost s' b' := by omega
      have hrestFirst := ih ht (Nat.succ.inj hlen) hle (by omega) hlt
      rw [traceback_cons]
      rcases hrestFirst with hprecedes | ⟨hsame, hindexLe⟩
      · exact .inl (.inl hprecedes)
      -- the paths part in their first step at most
      obtain ⟨hreached, -, -⟩ := hrest.sweeps.traceback_attains hlabel ht
      obtain ⟨-, b, hb, -⟩ := hrelax.attained _ hreached
      have hlabelEq : label (traceback label rows t).2 = b := by rw [← hb, hlabel]
      rcases Nat.lt_or_eq_of_le hindexLe with hless | hequal
      · rw [← hb] at hless
        rcases hnext _ _ _ _ hless with hbit | ⟨rfl, hbefore⟩
        · exact .inl (.inr ⟨hsame, hlabelEq ▸ hbit⟩)
        · exact .inr ⟨by rw [hlabelEq, hsame], Nat.le_of_lt hbefore⟩
      · have hstate := hindex _ _ hequal
        rw [hstate] at hreached ⊢
        refine .inr ⟨by rw [hlabel, hsame], ?_⟩
        exact hfirst.first (s', b') (hall s' b') hreached hmetric

end First

end QpskB210.Lib.Trellis
