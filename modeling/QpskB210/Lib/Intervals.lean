import Mathlib.Order.Lattice
import Mathlib.Order.Defs.LinearOrder
import Mathlib.Data.List.Basic
import Mathlib.Data.List.Pairwise
import Mathlib.Data.Set.Card
import Mathlib.Order.Interval.Finset.Nat
import Mathlib.Order.MinMax

/-!
# Interval lists

Sets of points kept as a list of half-open intervals, over any linear order.
A list is `Normal` when its intervals are non-empty, sorted and do not touch;
a set of points has at most one such list (`Normal.ext`). `insert` merges one
more interval into a normal list and `gaps` lists what is missing below a
bound; both are specified by the points they cover.
-/

namespace QpskB210.Lib.Intervals

variable {α : Type} [LinearOrder α]

/-- The point `x` lies in one of the intervals. -/
def Covers (l : List (α × α)) (x : α) : Prop := ∃ p ∈ l, p.1 ≤ x ∧ x < p.2

/-- Non-empty intervals, each ending strictly before every later one. -/
structure Normal (l : List (α × α)) : Prop where
  apart : l.Pairwise fun p q => p.2 < q.1
  pos : ∀ p ∈ l, p.1 < p.2

/-- Merge `[lo, hi)` with the intervals at the front that it reaches. -/
def absorb (lo hi : α) : List (α × α) → List (α × α)
  | [] => [(lo, hi)]
  | p :: l => if p.1 ≤ hi then absorb (min lo p.1) (max hi p.2) l else (lo, hi) :: p :: l

/-- Add `[lo, hi)`: skip what ends before it, merge what it reaches. -/
def insert (lo hi : α) : List (α × α) → List (α × α)
  | [] => [(lo, hi)]
  | p :: l => if p.2 < lo then p :: insert lo hi l else absorb lo hi (p :: l)

/-- The parts of `[cursor, upper)` between the intervals. -/
def gaps (upper : α) : α → List (α × α) → List (α × α)
  | cursor, [] => if cursor < upper then [(cursor, upper)] else []
  | cursor, p :: l =>
    if upper ≤ cursor then []
    else if p.2 ≤ cursor then gaps upper cursor l
    else if cursor < p.1 then (cursor, min p.1 upper) :: gaps upper (max cursor p.2) l
    else gaps upper (max cursor p.2) l

/-! ## Covering -/

@[simp] theorem covers_nil (x : α) : ¬ Covers [] x := by
  intro h
  obtain ⟨p, hp, -⟩ := h
  cases hp

@[simp] theorem covers_cons {p : α × α} {l : List (α × α)} {x : α} :
    Covers (p :: l) x ↔ (p.1 ≤ x ∧ x < p.2) ∨ Covers l x :=
  List.exists_mem_cons_iff _ p l

/-! ## Normal lists -/

theorem normal_nil : Normal ([] : List (α × α)) := ⟨.nil, by simp⟩

theorem normal_cons {p : α × α} {l : List (α × α)} :
    Normal (p :: l) ↔ p.1 < p.2 ∧ (∀ q ∈ l, p.2 < q.1) ∧ Normal l := by
  refine ⟨fun h => ?_, fun ⟨hp, hl, h⟩ => ⟨List.pairwise_cons.mpr ⟨hl, h.apart⟩, ?_⟩⟩
  · obtain ⟨hl, happart⟩ := List.pairwise_cons.mp h.apart
    exact ⟨h.pos p (by simp), hl, happart, fun q hq => h.pos q (by simp [hq])⟩
  · intro q hq
    rcases List.mem_cons.mp hq with rfl | hq
    · exact hp
    · exact h.pos q hq

theorem Normal.tail {p : α × α} {l : List (α × α)} (h : Normal (p :: l)) : Normal l :=
  (normal_cons.mp h).2.2

theorem normal_singleton {lo hi : α} (h : lo < hi) : Normal [(lo, hi)] :=
  normal_cons.mpr ⟨h, by simp, normal_nil⟩

/-- Everything a list covers lies at or after a lower bound of its starts. -/
theorem le_of_covers {l : List (α × α)} {b x : α} (hb : ∀ q ∈ l, b < q.1)
    (hx : Covers l x) : b < x := by
  obtain ⟨q, hq, hle, -⟩ := hx
  exact (hb q hq).trans_le hle

/-- The end of the first interval is a point the list misses. -/
theorem Normal.not_covers_end {p : α × α} {l : List (α × α)} (h : Normal (p :: l)) :
    ¬ Covers (p :: l) p.2 := by
  intro hc
  rcases covers_cons.mp hc with ⟨-, hlt⟩ | hc
  · exact lt_irrefl _ hlt
  · exact lt_irrefl _ (le_of_covers (normal_cons.mp h).2.1 hc)

theorem Normal.head_fst_le {p : α × α} {l : List (α × α)} (h : Normal (p :: l)) {x : α}
    (hx : Covers (p :: l) x) : p.1 ≤ x := by
  obtain ⟨hp, hl, -⟩ := normal_cons.mp h
  rcases covers_cons.mp hx with ⟨hle, -⟩ | hx
  · exact hle
  · exact (hp.trans (le_of_covers hl hx)).le

theorem Normal.covers_fst {p : α × α} {l : List (α × α)} (h : Normal (p :: l)) :
    Covers (p :: l) p.1 :=
  covers_cons.mpr (.inl ⟨le_rfl, (normal_cons.mp h).1⟩)

/-- The first intervals of two normal lists of the same points end together. -/
theorem Normal.head_snd_le {p q : α × α} {l m : List (α × α)} (hp : Normal (p :: l))
    (h : ∀ x, Covers (p :: l) x ↔ Covers (q :: m) x) (hfst : p.1 = q.1) : q.2 ≤ p.2 := by
  by_contra hlt
  have hpos := (normal_cons.mp hp).1
  -- otherwise the end of `p`, which `p :: l` misses, lies inside `q`
  apply hp.not_covers_end
  rw [h]
  exact covers_cons.mpr (.inl ⟨hfst ▸ hpos.le, not_le.mp hlt⟩)

theorem covers_tail_iff {p : α × α} {l : List (α × α)} (h : Normal (p :: l)) {x : α} :
    Covers l x ↔ Covers (p :: l) x ∧ p.2 ≤ x := by
  refine ⟨fun hx => ⟨covers_cons.mpr (.inr hx), ?_⟩, fun ⟨hx, hle⟩ => ?_⟩
  · exact (le_of_covers (normal_cons.mp h).2.1 hx).le
  · rcases covers_cons.mp hx with ⟨-, hlt⟩ | hx
    · exact absurd hlt (not_lt.mpr hle)
    · exact hx

/-- **Canonicity.** Two normal lists that cover the same points are equal. -/
theorem Normal.ext {l m : List (α × α)} (hl : Normal l) (hm : Normal m)
    (h : ∀ x, Covers l x ↔ Covers m x) : l = m := by
  induction l generalizing m with
  | nil =>
      cases m with
      | nil => rfl
      | cons q m => exact absurd ((h _).mpr hm.covers_fst) (covers_nil _)
  | cons p l ih =>
      cases m with
      | nil => exact absurd ((h _).mp hl.covers_fst) (covers_nil _)
      | cons q m =>
          have hfst : p.1 = q.1 := le_antisymm
            (hl.head_fst_le ((h _).mpr hm.covers_fst)) (hm.head_fst_le ((h _).mp hl.covers_fst))
          have hsnd : p.2 = q.2 := le_antisymm
            (hm.head_snd_le (fun x => (h x).symm) hfst.symm) (hl.head_snd_le h hfst)
          have htail : l = m := ih hl.tail hm.tail fun x => by
            rw [covers_tail_iff hl, covers_tail_iff hm, h, hsnd]
          rw [Prod.ext hfst hsnd, htail]

/-- A non-empty run of covered points lies in a single interval. -/
theorem Normal.exists_interval {l : List (α × α)} (h : Normal l) {lo hi : α} (hlt : lo < hi)
    (hc : ∀ x, lo ≤ x → x < hi → Covers l x) : ∃ p ∈ l, p.1 ≤ lo ∧ hi ≤ p.2 := by
  induction l with
  | nil => exact absurd (hc lo le_rfl hlt) (covers_nil _)
  | cons p l ih =>
      rcases covers_cons.mp (hc lo le_rfl hlt) with ⟨hle, hlo⟩ | hlo
      · refine ⟨p, by simp, hle, ?_⟩
        by_contra hhi
        exact h.not_covers_end (hc p.2 hlo.le (not_le.mp hhi))
      · have hend := le_of_covers (normal_cons.mp h).2.1 hlo
        obtain ⟨q, hq, hbound⟩ := ih h.tail fun x hx hxhi =>
          (covers_tail_iff h).mpr ⟨hc x hx hxhi, hend.le.trans hx⟩
        exact ⟨q, by simp [hq], hbound⟩

/-- A normal list without a hole behind its first point is one interval. -/
theorem Normal.tail_eq_nil {p : α × α} {l : List (α × α)} (h : Normal (p :: l))
    (hfull : ∀ x y, Covers (p :: l) x → p.1 ≤ y → y ≤ x → Covers (p :: l) y) : l = [] := by
  cases l with
  | nil => rfl
  | cons q l =>
      obtain ⟨hp, hafter, hl⟩ := normal_cons.mp h
      have hq : Covers (p :: q :: l) q.1 := covers_cons.mpr (.inr hl.covers_fst)
      exact absurd (hfull q.1 p.2 hq hp.le (hafter q (by simp)).le) h.not_covers_end

/-! ## Insertion -/

theorem covers_absorb {lo hi : α} {l : List (α × α)} (hlt : lo < hi)
    (hreach : ∀ q ∈ l, lo ≤ q.2) (hl : ∀ q ∈ l, q.1 < q.2) {x : α} :
    Covers (absorb lo hi l) x ↔ (lo ≤ x ∧ x < hi) ∨ Covers l x := by
  induction l generalizing lo hi with
  | nil => simp [absorb]
  | cons p l ih =>
      have hp := hl p (by simp)
      have hlop := hreach p (by simp)
      rw [absorb]
      split
      · rename_i hle
        rw [ih (by simp [hlt]) (fun q hq => (min_le_left _ _).trans (hreach q (by simp [hq])))
          (fun q hq => hl q (by simp [hq])), covers_cons, ← or_assoc]
        -- the two intervals meet, so the hull is their union
        refine or_congr ?_ Iff.rfl
        rw [min_le_iff, lt_max_iff]
        grind
      · rw [covers_cons]

theorem lt_of_mem_absorb {b lo hi : α} {l : List (α × α)} (hb : b < lo)
    (hl : ∀ q ∈ l, b < q.1) : ∀ q ∈ absorb lo hi l, b < q.1 := by
  induction l generalizing lo hi with
  | nil => simpa [absorb] using hb
  | cons p l ih =>
      rw [absorb]
      split
      · exact ih (lt_min hb (hl p (by simp))) fun q hq => hl q (by simp [hq])
      · intro q hq
        rcases List.mem_cons.mp hq with rfl | hq
        · exact hb
        · exact hl q hq

theorem normal_absorb {lo hi : α} {l : List (α × α)} (hlt : lo < hi) (hl : Normal l) :
    Normal (absorb lo hi l) := by
  induction l generalizing lo hi with
  | nil => exact normal_singleton hlt
  | cons p l ih =>
      obtain ⟨hp, hafter, hnormal⟩ := normal_cons.mp hl
      rw [absorb]
      split
      · exact ih (by simp [hlt]) hnormal
      · rename_i hgap
        refine normal_cons.mpr ⟨hlt, fun q hq => ?_, hl⟩
        have hhi := not_le.mp hgap
        rcases List.mem_cons.mp hq with rfl | hq
        · exact hhi
        · exact hhi.trans (hp.trans (hafter q hq))

theorem covers_insert {lo hi : α} {l : List (α × α)} (hlt : lo < hi) (hl : Normal l) {x : α} :
    Covers (insert lo hi l) x ↔ (lo ≤ x ∧ x < hi) ∨ Covers l x := by
  induction l with
  | nil => simp [insert]
  | cons p l ih =>
      obtain ⟨-, hafter, -⟩ := normal_cons.mp hl
      rw [insert]
      split
      · rw [covers_cons, ih hl.tail, covers_cons, or_left_comm]
      · rename_i hreach
        refine covers_absorb hlt (fun q hq => ?_) hl.pos
        have hlop := not_lt.mp hreach
        rcases List.mem_cons.mp hq with rfl | hq'
        · exact hlop
        · exact hlop.trans ((hafter q hq').trans (hl.pos q hq)).le

theorem lt_of_mem_insert {b lo hi : α} {l : List (α × α)} (hb : b < lo)
    (hl : ∀ q ∈ l, b < q.1) : ∀ q ∈ insert lo hi l, b < q.1 := by
  induction l with
  | nil => simpa [insert] using hb
  | cons p l ih =>
      rw [insert]
      split
      · intro q hq
        rcases List.mem_cons.mp hq with rfl | hq
        · exact hl _ (by simp)
        · exact ih (fun q hq => hl q (by simp [hq])) q hq
      · exact lt_of_mem_absorb hb hl

theorem normal_insert {lo hi : α} {l : List (α × α)} (hlt : lo < hi) (hl : Normal l) :
    Normal (insert lo hi l) := by
  induction l with
  | nil => exact normal_singleton hlt
  | cons p l ih =>
      obtain ⟨hp, hafter, hnormal⟩ := normal_cons.mp hl
      rw [insert]
      split
      · rename_i hbefore
        exact normal_cons.mpr ⟨hp, lt_of_mem_insert hbefore hafter, ih hnormal⟩
      · exact normal_absorb hlt hl

/-! ## Gaps -/

theorem le_of_mem_gaps {upper cursor : α} {l : List (α × α)} :
    ∀ g ∈ gaps upper cursor l, cursor ≤ g.1 ∧ g.2 ≤ upper := by
  fun_induction gaps upper cursor l with
  | case1 => simp
  | case2 => simp
  | case3 => simp
  | case4 cursor p l h₁ h₂ ih => exact ih
  | case5 cursor p l h₁ h₂ h₃ ih =>
      intro g hg
      rcases List.mem_cons.mp hg with rfl | hg
      · exact ⟨le_rfl, min_le_right _ _⟩
      · exact ⟨(le_max_left _ _).trans (ih g hg).1, (ih g hg).2⟩
  | case6 cursor p l h₁ h₂ h₃ ih =>
      intro g hg
      exact ⟨(le_max_left _ _).trans (ih g hg).1, (ih g hg).2⟩

/-- The gaps are exactly the points of the range that the list misses. Only
the order of the starts matters. -/
theorem covers_gaps {upper cursor x : α} {l : List (α × α)}
    (hl : l.Pairwise fun p q => p.1 ≤ q.1) :
    Covers (gaps upper cursor l) x ↔ (cursor ≤ x ∧ x < upper) ∧ ¬ Covers l x := by
  fun_induction gaps upper cursor l with
  | case1 => simp
  | case2 cursor h => simp; grind
  | case3 cursor p l h => simp; grind
  | case4 cursor p l h₁ h₂ ih =>
      rw [ih (List.pairwise_cons.mp hl).2, covers_cons]
      grind
  | case5 cursor p l h₁ h₂ h₃ ih =>
      obtain ⟨hafter, htail⟩ := List.pairwise_cons.mp hl
      rw [covers_cons, ih htail, covers_cons]
      -- no later interval starts before `p`, so the gap before `p` is free
      have hfree : x < p.1 → ¬ Covers l x := by
        intro hx hcovers
        obtain ⟨q, hq, hle, -⟩ := hcovers
        exact absurd ((hafter q hq).trans hle) (not_le.mpr hx)
      rw [lt_min_iff, max_le_iff]
      grind
  | case6 cursor p l h₁ h₂ h₃ ih =>
      rw [ih (List.pairwise_cons.mp hl).2, covers_cons, max_le_iff]
      grind

theorem normal_gaps {upper cursor : α} {l : List (α × α)} (hl : ∀ p ∈ l, p.1 < p.2) :
    Normal (gaps upper cursor l) := by
  fun_induction gaps upper cursor l with
  | case1 cursor h => exact normal_singleton h
  | case2 => exact normal_nil
  | case3 => exact normal_nil
  | case4 cursor p l h₁ h₂ ih => exact ih fun q hq => hl q (by simp [hq])
  | case5 cursor p l h₁ h₂ h₃ ih =>
      have hp := hl p (by simp)
      refine normal_cons.mpr ⟨lt_min h₃ (not_le.mp h₁), fun g hg => ?_, ?_⟩
      · calc min p.1 upper ≤ p.1 := min_le_left _ _
          _ < p.2 := hp
          _ ≤ max cursor p.2 := le_max_right _ _
          _ ≤ g.1 := (le_of_mem_gaps g hg).1
      · exact ih fun q hq => hl q (by simp [hq])
  | case6 cursor p l h₁ h₂ h₃ ih => exact ih fun q hq => hl q (by simp [hq])

/-- Whatever the order of the list, no point it misses is skipped. -/
theorem covers_gaps_of_missing {upper cursor x : α} {l : List (α × α)} (hcursor : cursor ≤ x)
    (hupper : x < upper) (h : ¬ Covers l x) : Covers (gaps upper cursor l) x := by
  fun_induction gaps upper cursor l with
  | case1 cursor hlt => exact covers_cons.mpr (.inl ⟨hcursor, hupper⟩)
  | case2 cursor hge => exact absurd (hcursor.trans_lt hupper) hge
  | case3 cursor p l hge => exact absurd (hcursor.trans_lt hupper) (not_lt.mpr hge)
  | case4 cursor p l h₁ h₂ ih => exact ih hcursor fun hl => h (covers_cons.mpr (.inr hl))
  | case5 cursor p l h₁ h₂ h₃ ih =>
      rw [covers_cons, not_or] at h
      by_cases hx : x < p.1
      · exact covers_cons.mpr (.inl ⟨hcursor, lt_min hx hupper⟩)
      · -- beyond the start of `p` but not inside it
        have hend : p.2 ≤ x := not_lt.mp fun hlt => h.1 ⟨not_lt.mp hx, hlt⟩
        exact covers_cons.mpr (.inr (ih (max_le hcursor hend) h.2))
  | case6 cursor p l h₁ h₂ h₃ ih =>
      rw [covers_cons, not_or] at h
      have hend : p.2 ≤ x := not_lt.mp fun hlt => h.1 ⟨(not_lt.mp h₃).trans hcursor, hlt⟩
      exact ih (max_le hcursor hend) h.2

/-- Whatever the order of the list, the gaps follow one another. -/
theorem pairwise_gaps {upper cursor : α} {l : List (α × α)} (hl : ∀ p ∈ l, p.1 ≤ p.2) :
    (gaps upper cursor l).Pairwise fun p q => p.2 ≤ q.1 := by
  fun_induction gaps upper cursor l with
  | case1 cursor h => exact List.pairwise_singleton _ _
  | case2 => exact .nil
  | case3 => exact .nil
  | case4 cursor p l h₁ h₂ ih => exact ih fun q hq => hl q (by simp [hq])
  | case5 cursor p l h₁ h₂ h₃ ih =>
      refine List.pairwise_cons.mpr ⟨fun g hg => ?_, ih fun q hq => hl q (by simp [hq])⟩
      calc min p.1 upper ≤ p.1 := min_le_left _ _
        _ ≤ p.2 := hl p (by simp)
        _ ≤ max cursor p.2 := le_max_right _ _
        _ ≤ g.1 := (le_of_mem_gaps g hg).1
  | case6 cursor p l h₁ h₂ h₃ ih => exact ih fun q hq => hl q (by simp [hq])

theorem Normal.sorted {l : List (α × α)} (h : Normal l) :
    l.Pairwise fun p q => p.1 ≤ q.1 := by
  induction l with
  | nil => exact .nil
  | cons p l ih =>
      obtain ⟨hp, hafter, hl⟩ := normal_cons.mp h
      exact List.pairwise_cons.mpr ⟨fun q hq => (hp.trans (hafter q hq)).le, ih hl⟩

/-! ## Size over the natural numbers -/

/-- A normal list below `n` has fewer intervals than there are numbers left. -/
theorem Normal.length_le {l : List (Nat × Nat)} (h : Normal l) {b n : Nat}
    (hb : ∀ p ∈ l, b ≤ p.1) (hn : ∀ p ∈ l, p.2 ≤ n) : l.length ≤ n - b := by
  induction l generalizing b with
  | nil => simp
  | cons p l ih =>
      obtain ⟨hp, hafter, hl⟩ := normal_cons.mp h
      have hlen : l.length ≤ n - p.2 := ih hl (fun q hq => (hafter q hq).le)
        fun q hq => hn q (by simp [hq])
      have hstart := hb p (by simp)
      have hend := hn p (by simp)
      rw [List.length_cons]
      omega

/-- The lengths of a normal list below `n` fit between its bounds. -/
theorem Normal.sum_le {l : List (Nat × Nat)} (h : Normal l) {b n : Nat}
    (hb : ∀ p ∈ l, b ≤ p.1) (hn : ∀ p ∈ l, p.2 ≤ n) : (l.map fun p => p.2 - p.1).sum ≤ n - b := by
  induction l generalizing b with
  | nil => simp
  | cons p l ih =>
      obtain ⟨hp, hafter, hl⟩ := normal_cons.mp h
      have hsum := ih hl (fun q hq => (hafter q hq).le) fun q hq => hn q (by simp [hq])
      have hstart := hb p (by simp)
      have hend := hn p (by simp)
      rw [List.map_cons, List.sum_cons]
      omega

theorem finite_covers (l : List (Nat × Nat)) : {x | Covers l x}.Finite := by
  induction l with
  | nil => simp
  | cons p l ih =>
      simp only [covers_cons]
      exact (Set.finite_Ico p.1 p.2).union ih

/-- The lengths of a normal list add up to the number of its points. -/
theorem Normal.ncard_covers {l : List (Nat × Nat)} (h : Normal l) :
    {x | Covers l x}.ncard = (l.map fun p => p.2 - p.1).sum := by
  induction l with
  | nil => simp
  | cons p l ih =>
      have hsplit : {x | Covers (p :: l) x} = Set.Ico p.1 p.2 ∪ {x | Covers l x} := by
        ext x
        simp
      have hdisjoint : Disjoint (Set.Ico p.1 p.2) {x | Covers l x} := by
        rw [Set.disjoint_left]
        intro x hx hl
        exact absurd hx.2 (not_lt.mpr (le_of_covers (normal_cons.mp h).2.1 hl).le)
      rw [hsplit, Set.ncard_union_eq hdisjoint (Set.finite_Ico _ _) (finite_covers l), ih h.tail,
        ← Finset.coe_Ico, Set.ncard_coe_finset, Nat.card_Ico, List.map_cons, List.sum_cons]

end QpskB210.Lib.Intervals
