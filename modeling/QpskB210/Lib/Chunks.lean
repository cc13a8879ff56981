import Mathlib.Data.List.Basic

/-!
# Chunks

A range of positions cut from the left into pieces of at most a given size.
A piece is a pair of its first position and its length.
-/

namespace QpskB210.Lib.Chunks

/-- The pieces of `[offset, offset + remaining)`. The first argument bounds
their number; `remaining` is always enough. -/
def cut (size : Nat) : Nat → Nat → Nat → List (Nat × Nat)
  | 0, _, _ => []
  | fuel + 1, offset, remaining =>
    if remaining = 0 then []
    else
      (offset, min size remaining) ::
        cut size fuel (offset + min size remaining) (remaining - min size remaining)

variable {size fuel offset remaining : Nat}

theorem cut_zero : cut size fuel offset 0 = [] := by
  cases fuel <;> rfl

theorem cut_succ (h : remaining ≠ 0) :
    cut size (fuel + 1) offset remaining = (offset, min size remaining) ::
      cut size fuel (offset + min size remaining) (remaining - min size remaining) :=
  if_neg h

/-- Every piece lies in the range and is no longer than `size`. -/
theorem mem_cut {p : Nat × Nat} (h : p ∈ cut size fuel offset remaining) :
    offset ≤ p.1 ∧ p.1 + p.2 ≤ offset + remaining ∧ p.2 ≤ size := by
  induction fuel generalizing offset remaining with
  | zero => cases h
  | succ fuel ih =>
      by_cases hzero : remaining = 0
      · rw [hzero, cut_zero] at h
        cases h
      · rw [cut_succ hzero] at h
        rcases List.mem_cons.mp h with rfl | h
        · dsimp only
          omega
        · have := ih h
          omega

theorem pos_of_mem_cut (hsize : 0 < size) {p : Nat × Nat}
    (h : p ∈ cut size fuel offset remaining) : 0 < p.2 := by
  induction fuel generalizing offset remaining with
  | zero => cases h
  | succ fuel ih =>
      by_cases hzero : remaining = 0
      · rw [hzero, cut_zero] at h
        cases h
      · rw [cut_succ hzero] at h
        rcases List.mem_cons.mp h with rfl | h
        · dsimp only
          omega
        · exact ih h

/-- Each piece ends before every later one begins. -/
theorem cut_apart : (cut size fuel offset remaining).Pairwise fun p q => p.1 + p.2 ≤ q.1 := by
  induction fuel generalizing offset remaining with
  | zero => exact .nil
  | succ fuel ih =>
      by_cases hzero : remaining = 0
      · rw [hzero, cut_zero]
        exact .nil
      · rw [cut_succ hzero]
        exact List.pairwise_cons.mpr ⟨fun q hq => (mem_cut hq).1, ih⟩

/-- The pieces follow one another from `offset` to `stop`. -/
def Tiles : Nat → Nat → List (Nat × Nat) → Prop
  | offset, stop, [] => offset = stop
  | offset, stop, p :: pieces => p.1 = offset ∧ Tiles (offset + p.2) stop pieces

theorem tiles_cut (hsize : 0 < size) (hfuel : remaining ≤ fuel) :
    Tiles offset (offset + remaining) (cut size fuel offset remaining) := by
  induction fuel generalizing offset remaining with
  | zero => simp [cut, Tiles, Nat.le_zero.mp hfuel]
  | succ fuel ih =>
      by_cases hzero : remaining = 0
      · simp [hzero, cut_zero, Tiles]
      · rw [cut_succ hzero]
        have hrest := @ih (offset + min size remaining) (remaining - min size remaining) (by omega)
        rw [show offset + min size remaining + (remaining - min size remaining) =
          offset + remaining by omega] at hrest
        exact ⟨rfl, hrest⟩

theorem Tiles.le {stop : Nat} {pieces : List (Nat × Nat)} (h : Tiles offset stop pieces) :
    offset ≤ stop := by
  induction pieces generalizing offset with
  | nil => exact Nat.le_of_eq h
  | cons p pieces ih => exact Nat.le_trans (Nat.le_add_right _ _) (ih h.2)

/-- The slices of pieces that follow one another are one slice. -/
theorem Tiles.flatMap_slice {α : Type} {data : List α} {stop : Nat} {pieces : List (Nat × Nat)}
    (h : Tiles offset stop pieces) :
    pieces.flatMap (fun p => (data.drop p.1).take p.2) =
      (data.drop offset).take (stop - offset) := by
  induction pieces generalizing offset with
  | nil => simp [show offset = stop from h]
  | cons p pieces ih =>
      obtain ⟨hfst, hrest⟩ := h
      have hle := hrest.le
      rw [List.flatMap_cons, ih hrest, hfst, ← List.drop_drop,
        show stop - offset = p.2 + (stop - (offset + p.2)) by omega, List.take_add]

/-- A range is cut into as few pieces as there can be. -/
theorem length_cut (hsize : 0 < size) (hfuel : remaining ≤ fuel) :
    (cut size fuel offset remaining).length = (remaining + size - 1) / size := by
  induction fuel generalizing offset remaining with
  | zero =>
      rw [Nat.le_zero.mp hfuel, Nat.zero_add]
      exact (Nat.div_eq_of_lt (by omega)).symm
  | succ fuel ih =>
      by_cases hzero : remaining = 0
      · rw [hzero, cut_zero, Nat.zero_add]
        exact (Nat.div_eq_of_lt (by omega)).symm
      · rw [cut_succ hzero, List.length_cons, ih (by omega)]
        -- one piece more than for what remains behind the first
        by_cases hlast : remaining ≤ size
        · have hone : (remaining + size - 1) / size = 1 :=
            Nat.div_eq_of_lt_le (by omega) (by omega)
          rw [Nat.min_eq_right hlast, Nat.sub_self, Nat.zero_add, Nat.div_eq_of_lt (by omega), hone]
        · rw [Nat.min_eq_left (by omega), ← Nat.add_div_right _ hsize]
          congr 1
          omega

/-- The position lies in one of the pieces. -/
def Covered (pieces : List (Nat × Nat)) (i : Nat) : Prop := ∃ p ∈ pieces, p.1 ≤ i ∧ i < p.1 + p.2

@[simp] theorem covered_append {pieces pieces' : List (Nat × Nat)} {i : Nat} :
    Covered (pieces ++ pieces') i ↔ Covered pieces i ∨ Covered pieces' i := by
  simp only [Covered, List.mem_append, or_and_right, exists_or]

@[simp] theorem covered_cons {p : Nat × Nat} {pieces : List (Nat × Nat)} {i : Nat} :
    Covered (p :: pieces) i ↔ (p.1 ≤ i ∧ i < p.1 + p.2) ∨ Covered pieces i := by
  simp [Covered]

@[simp] theorem not_covered_nil {i : Nat} : ¬ Covered [] i := by
  simp [Covered]

/-- The positions of the pieces, one piece after the other. -/
def points (pieces : List (Nat × Nat)) : List Nat := pieces.flatMap fun p => List.range' p.1 p.2

theorem mem_points {pieces : List (Nat × Nat)} {i : Nat} :
    i ∈ points pieces ↔ Covered pieces i := by
  simp only [points, List.mem_flatMap, List.mem_range'_1, Covered]

/-- Where no piece begins before the last one ends, no position comes back. -/
theorem points_ascending {pieces : List (Nat × Nat)}
    (h : pieces.Pairwise fun p q => p.1 + p.2 ≤ q.1) : (points pieces).Pairwise (· < ·) := by
  rw [points, List.pairwise_flatMap]
  refine ⟨fun p _ => List.pairwise_lt_range', h.imp fun {p q} hpq i hi j hj => ?_⟩
  rw [List.mem_range'_1] at hi hj
  omega

/-- No position of the range is left out. -/
theorem exists_mem_cut (hsize : 0 < size) (hfuel : remaining ≤ fuel) {i : Nat}
    (hi : offset ≤ i) (hlt : i < offset + remaining) :
    Covered (cut size fuel offset remaining) i := by
  induction fuel generalizing offset remaining with
  | zero => omega
  | succ fuel ih =>
      rw [cut_succ (by omega)]
      by_cases hfirst : i < offset + min size remaining
      · exact ⟨_, List.mem_cons_self, hi, hfirst⟩
      · obtain ⟨p, hp, hbounds⟩ := @ih (offset + min size remaining)
          (remaining - min size remaining) (by omega) (by omega) (by omega)
        exact ⟨p, List.mem_cons_of_mem _ hp, hbounds⟩

/-- A non-empty range has a last piece, and it alone reaches the end. -/
theorem exists_last (hsize : 0 < size) (hfuel : remaining ≤ fuel) (hpos : 0 < remaining) :
    ∃ init last, cut size fuel offset remaining = init ++ [last] ∧
      last.1 + last.2 = offset + remaining ∧ ∀ p ∈ init, p.1 + p.2 < offset + remaining := by
  obtain ⟨p, hp, -, hend⟩ :=
    @exists_mem_cut size fuel offset remaining hsize hfuel (offset + remaining - 1) (by omega)
      (by omega)
  obtain ⟨init, last, hcut⟩ : ∃ init last, cut size fuel offset remaining = init ++ [last] :=
    ⟨_, _, (List.dropLast_append_getLast (List.ne_nil_of_mem hp)).symm⟩
  have hapart := @cut_apart size fuel offset remaining
  rw [hcut, List.pairwise_append] at hapart
  have hlast : last ∈ cut size fuel offset remaining := by rw [hcut]; simp
  have hinit : ∀ q ∈ init, q.1 + q.2 < offset + remaining := by
    intro q hq
    have hle := hapart.2.2 q hq last (by simp)
    have hpos := pos_of_mem_cut hsize hlast
    have hin := mem_cut hlast
    omega
  refine ⟨init, last, hcut, ?_, hinit⟩
  -- the piece with the last position is the last piece
  rw [hcut, List.mem_append, List.mem_singleton] at hp
  have hin := mem_cut hlast
  rcases hp with hp | rfl
  · have := hinit p hp
    omega
  · omega

end QpskB210.Lib.Chunks
