import Mathlib.Data.List.Basic
import Mathlib.Data.List.Infix

/-!
# Readers over a buffer

A `Reader` walks a buffer with a cursor and either returns a value and the
advanced cursor or fails. `Recognises` says what a reader does in terms of
two languages: `Lang` holds the words it accepts with the value each one
carries, `Trap` the words on which it fails with a FATAL error (one that no
caller may treat as "malformed input") with the error. Both are closed under sequencing
and bounded repetition, so the specification of a reader is assembled from
those of its parts, in the order the reader runs them.

Every buffer is shorter than a `bound` (a machine's address range): readers
that add a decoded length to the cursor are only right below it.
-/

namespace QpskB210.Lib

/-- A reader over buffers of `β`: buffer, cursor, then value and new cursor. -/
def Reader (β ε α : Type) : Type := List β → Nat → Except ε (α × Nat)

/-- The words a reader accepts, each with its value. -/
def Lang (β α : Type) : Type := List β → α → Prop

/-- The words on which a reader traps when its cursor stands at an offset,
each with the error it traps with. -/
def Trap (β ε : Type) : Type := Nat → List β → ε → Prop

variable {β ε ε' α γ : Type}

namespace Reader

instance : Monad (Reader β ε) where
  pure a := fun _ off => .ok (a, off)
  bind p q := fun data off =>
    match p data off with
    | .error e => .error e
    | .ok (a, off') => q a data off'

/-- Fail with `e`. -/
def fail (e : ε) : Reader β ε α := fun _ _ => .error e

/-- Translate the errors of a reader (a `try`/`catch` around it). -/
def mapError (p : Reader β ε α) (h : ε → ε') : Reader β ε' α := fun data off =>
  match p data off with
  | .error e => .error (h e)
  | .ok r => .ok r

/-- Run `p` exactly `n` times, collecting the values in order. -/
def replicate (p : Reader β ε α) : Nat → Reader β ε (List α)
  | 0 => pure []
  | n + 1 => do
    let a ← p
    let as ← replicate p n
    pure (a :: as)

/-- A sequence that succeeds has run both of its readers. -/
theorem bind_eq_ok {p : Reader β ε α} {q : α → Reader β ε γ} {data : List β} {off : Nat}
    {r : γ × Nat} : (p >>= q) data off = .ok r ↔
      ∃ a off', p data off = .ok (a, off') ∧ q a data off' = .ok r := by
  simp only [Bind.bind]
  cases p data off with
  | error e => simp
  | ok read => simp [Prod.ext_iff, eq_comm]

theorem mapError_eq_ok {p : Reader β ε α} {h : ε → ε'} {data : List β} {off : Nat} {r : α × Nat} :
    p.mapError h data off = .ok r ↔ p data off = .ok r := by
  rw [mapError]
  cases p data off with
  | error e => simp
  | ok read => simp

end Reader

namespace Lang

/-- The empty word, with value `a`. -/
def pure (a : α) : Lang β α := fun w b => w = [] ∧ b = a

/-- A word of `L`, then a word of the language its value selects. -/
def bind (L : Lang β α) (K : α → Lang β γ) : Lang β γ := fun w c =>
  ∃ a w₁ w₂, w = w₁ ++ w₂ ∧ L w₁ a ∧ K a w₂ c

/-- Exactly `n` words of `L`. -/
def replicate (L : Lang β α) : Nat → Lang β (List α)
  | 0 => pure []
  | n + 1 => bind L fun a => bind (replicate L n) fun as => pure (a :: as)

theorem bind_intro {L : Lang β α} {K : α → Lang β γ} {w₁ w₂ : List β} {a : α} {c : γ}
    (h₁ : L w₁ a) (h₂ : K a w₂ c) : L.bind K (w₁ ++ w₂) c :=
  ⟨a, w₁, w₂, rfl, h₁, h₂⟩

/-- A last word, then a value computed from what was read. -/
theorem bind_pure_intro {L : Lang β α} {f : α → γ} {w : List β} {a : α} (h : L w a) :
    L.bind (fun a => pure (f a)) w (f a) :=
  ⟨a, w, [], by simp, h, rfl, rfl⟩

/-- Writing the items of a list one after the other yields a word of the
repetition. -/
theorem replicate_flatMap {L : Lang β α} {enc : α → List β} {as : List α}
    (h : ∀ a ∈ as, L (enc a) a) : L.replicate as.length (as.flatMap enc) as := by
  induction as with
  | nil => exact ⟨rfl, rfl⟩
  | cons a as ih =>
    rw [List.flatMap_cons]
    exact bind_intro (h a (by simp)) (bind_pure_intro (f := (a :: ·))
      (ih fun b hb => h b (by simp [hb])))

/-- The items read by a repetition, written in an encoding that is never
longer than the words read. -/
theorem replicate_shortest {L : Lang β α} {enc : α → List β}
    (h : ∀ w a, L w a → (enc a).length ≤ w.length) {n : Nat} {w : List β} {as : List α}
    (hw : L.replicate n w as) : as.length = n ∧ (as.flatMap enc).length ≤ w.length := by
  induction n generalizing w as with
  | zero =>
    obtain ⟨rfl, rfl⟩ := hw
    exact ⟨rfl, Nat.le_refl _⟩
  | succ n ih =>
    obtain ⟨a, w₁, _, rfl, hfirst, bs, w₂, _, rfl, hrest, rfl, rfl⟩ := hw
    have hlen := h w₁ a hfirst
    obtain ⟨hcount, hbytes⟩ := ih hrest
    simp only [List.length_cons, List.flatMap_cons, List.length_append, List.length_nil]
    omega

end Lang

namespace Trap

/-- No word traps. -/
def none : Trap β ε := fun _ _ _ => False

/-- A word of `L`, after which a trap of the second reader follows. -/
def after (L : Lang β α) (G : α → Trap β ε) : Trap β ε := fun off w e =>
  ∃ a w₁ w₂, w = w₁ ++ w₂ ∧ L w₁ a ∧ G a (off + w₁.length) w₂ e

/-- The first reader traps, or it accepts and the second one traps. -/
def bind (F : Trap β ε) (L : Lang β α) (G : α → Trap β ε) : Trap β ε := fun off w e =>
  F off w e ∨ after L G off w e

/-- One of `n` runs of the same reader traps. -/
def replicate (F : Trap β ε) (L : Lang β α) : Nat → Trap β ε
  | 0 => none
  | n + 1 => bind F L fun _ => replicate F L n

/-- Every error the trap ends in is one of these. -/
def Only (P : ε → Prop) (F : Trap β ε) : Prop := ∀ off w e, F off w e → P e

theorem Only.none {P : ε → Prop} : Only P (none : Trap β ε) := fun _ _ _ h => h.elim

theorem Only.after {P : ε → Prop} {L : Lang β α} {G : α → Trap β ε} (hG : ∀ a, Only P (G a)) :
    Only P (after L G) := by
  intro off w e h
  obtain ⟨a, w₁, w₂, -, -, h⟩ := h
  exact hG a _ _ _ h

theorem Only.bind {P : ε → Prop} {F : Trap β ε} {L : Lang β α} {G : α → Trap β ε}
    (hF : Only P F) (hG : ∀ a, Only P (G a)) : Only P (bind F L G) := by
  intro off w e h
  rcases h with h | h
  · exact hF _ _ _ h
  · exact Only.after hG _ _ _ h

theorem Only.replicate {P : ε → Prop} {F : Trap β ε} {L : Lang β α} (hF : Only P F) (n : Nat) :
    Only P (replicate F L n) := by
  induction n with
  | zero => exact Only.none
  | succ n ih => exact Only.bind hF fun _ => ih

end Trap

/-- `r` accepts exactly the words of `L` and fails fatally exactly on those
of `F`, wherever its cursor stands in a buffer below the bound. -/
structure Recognises (bound : Nat) (fatal : ε → Prop) (r : Reader β ε α)
    (L : Lang β α) (F : Trap β ε) : Prop where
  ok_iff : ∀ {data : List β} {off : Nat}, data.length < bound → off ≤ data.length →
    ∀ (a : α) (off' : Nat), r data off = .ok (a, off') ↔
      ∃ w, w <+: data.drop off ∧ L w a ∧ off' = off + w.length
  fatal_iff : ∀ {data : List β} {off : Nat}, data.length < bound → off ≤ data.length →
    ∀ e, (r data off = .error e ∧ fatal e) ↔ ∃ w, w <+: data.drop off ∧ F off w e

/-- A concatenation is a prefix when its parts are, one after the other. -/
theorem append_prefix_iff {w₁ w₂ l : List β} :
    w₁ ++ w₂ <+: l ↔ w₁ <+: l ∧ w₂ <+: l.drop w₁.length := by
  constructor
  · intro h
    obtain ⟨t, rfl⟩ := h
    exact ⟨⟨w₂ ++ t, by simp⟩, ⟨t, by simp⟩⟩
  · intro h
    obtain ⟨⟨t, rfl⟩, h⟩ := h
    rw [List.drop_left] at h
    exact (List.prefix_append_right_inj w₁).mpr h

theorem prefix_drop_length {w l : List β} {off : Nat} (h : w <+: l.drop off)
    (hoff : off ≤ l.length) : off + w.length ≤ l.length := by
  have := h.length_le
  rw [List.length_drop] at this
  omega

namespace Recognises

variable {bound : Nat} {fatal : ε → Prop}

theorem pure (a : α) :
    Recognises bound fatal (Pure.pure a : Reader β ε α) (Lang.pure a) Trap.none where
  ok_iff := by
    intro data off _ _ b off'
    constructor
    · intro h
      cases h
      exact ⟨[], List.nil_prefix, ⟨rfl, rfl⟩, rfl⟩
    · intro h
      obtain ⟨w, -, ⟨rfl, rfl⟩, rfl⟩ := h
      rfl
  fatal_iff := by
    intro data off _ _ e
    constructor
    · intro h
      obtain ⟨h, -⟩ := h
      cases h
    · intro h
      obtain ⟨w, -, h⟩ := h
      exact h.elim

/-- A reader that always fails harmlessly accepts nothing. -/
theorem fail {e : ε} (he : ¬ fatal e) :
    Recognises bound fatal (Reader.fail e : Reader β ε α) (fun _ _ => False) Trap.none where
  ok_iff := by
    intro data off _ _ b off'
    constructor
    · intro h
      cases h
    · intro h
      obtain ⟨w, -, h, -⟩ := h
      exact h.elim
  fatal_iff := by
    intro data off _ _ e'
    constructor
    · intro h
      obtain ⟨h, hf⟩ := h
      cases h
      exact (he hf).elim
    · intro h
      obtain ⟨w, -, h⟩ := h
      exact h.elim

theorem bind {p : Reader β ε α} {q : α → Reader β ε γ} {L : Lang β α} {F : Trap β ε}
    {K : α → Lang β γ} {G : α → Trap β ε} (hp : Recognises bound fatal p L F)
    (hq : ∀ a, Recognises bound fatal (q a) (K a) (G a)) :
    Recognises bound fatal (p >>= q) (L.bind K) (F.bind L G) where
  ok_iff := by
    intro data off hb hoff c off'
    constructor
    · intro h
      cases hpo : p data off with
      | error e => simp [Bind.bind, hpo] at h
      | ok r =>
        obtain ⟨a, off₁⟩ := r
        simp only [Bind.bind, hpo] at h
        obtain ⟨w₁, hw₁, hL, rfl⟩ := (hp.ok_iff hb hoff a off₁).mp hpo
        obtain ⟨w₂, hw₂, hK, rfl⟩ :=
          ((hq a).ok_iff hb (prefix_drop_length hw₁ hoff) c off').mp h
        rw [← List.drop_drop] at hw₂
        exact ⟨w₁ ++ w₂, append_prefix_iff.mpr ⟨hw₁, hw₂⟩, ⟨a, w₁, w₂, rfl, hL, hK⟩,
          by simp [Nat.add_assoc]⟩
    · intro h
      obtain ⟨_, hw, ⟨a, w₁, w₂, rfl, hL, hK⟩, rfl⟩ := h
      obtain ⟨hw₁, hw₂⟩ := append_prefix_iff.mp hw
      rw [List.drop_drop] at hw₂
      have hpo := (hp.ok_iff hb hoff a (off + w₁.length)).mpr ⟨w₁, hw₁, hL, rfl⟩
      have hqo := ((hq a).ok_iff hb (prefix_drop_length hw₁ hoff) c _).mpr
        ⟨w₂, hw₂, hK, rfl⟩
      simp only [Bind.bind, hpo, hqo, List.length_append, Nat.add_assoc]
  fatal_iff := by
    intro data off hb hoff e
    constructor
    · intro h
      obtain ⟨h, hf⟩ := h
      cases hpo : p data off with
      | error e' =>
        simp only [Bind.bind, hpo, Except.error.injEq] at h
        subst h
        obtain ⟨w, hw, hF⟩ := (hp.fatal_iff hb hoff e').mp ⟨hpo, hf⟩
        exact ⟨w, hw, .inl hF⟩
      | ok r =>
        obtain ⟨a, off₁⟩ := r
        simp only [Bind.bind, hpo] at h
        obtain ⟨w₁, hw₁, hL, rfl⟩ := (hp.ok_iff hb hoff a off₁).mp hpo
        obtain ⟨w₂, hw₂, hG⟩ :=
          ((hq a).fatal_iff hb (prefix_drop_length hw₁ hoff) e).mp ⟨h, hf⟩
        rw [← List.drop_drop] at hw₂
        exact ⟨w₁ ++ w₂, append_prefix_iff.mpr ⟨hw₁, hw₂⟩, .inr ⟨a, w₁, w₂, rfl, hL, hG⟩⟩
    · intro h
      obtain ⟨w, hw, hF | ⟨a, w₁, w₂, rfl, hL, hG⟩⟩ := h
      · obtain ⟨he, hf⟩ := (hp.fatal_iff hb hoff e).mpr ⟨w, hw, hF⟩
        exact ⟨by simp [Bind.bind, he], hf⟩
      · obtain ⟨hw₁, hw₂⟩ := append_prefix_iff.mp hw
        rw [List.drop_drop] at hw₂
        have hpo := (hp.ok_iff hb hoff a (off + w₁.length)).mpr ⟨w₁, hw₁, hL, rfl⟩
        obtain ⟨he, hf⟩ :=
          ((hq a).fatal_iff hb (prefix_drop_length hw₁ hoff) e).mpr ⟨w₂, hw₂, hG⟩
        exact ⟨by simp [Bind.bind, hpo, he], hf⟩

/-- The same traps, described differently. -/
theorem congr_trap {p : Reader β ε α} {L : Lang β α} {F G : Trap β ε}
    (hp : Recognises bound fatal p L F) (hF : ∀ off w e, F off w e ↔ G off w e) :
    Recognises bound fatal p L G where
  ok_iff := hp.ok_iff
  fatal_iff := by
    intro data off hb hoff e
    rw [hp.fatal_iff hb hoff]
    simp only [hF]

/-- Sequencing after a reader that never traps. -/
theorem bind_after {p : Reader β ε α} {q : α → Reader β ε γ} {L : Lang β α}
    {K : α → Lang β γ} {G : α → Trap β ε} (hp : Recognises bound fatal p L Trap.none)
    (hq : ∀ a, Recognises bound fatal (q a) (K a) (G a)) :
    Recognises bound fatal (p >>= q) (L.bind K) (Trap.after L G) :=
  (hp.bind hq).congr_trap fun _ _ _ => by simp [Trap.bind, Trap.none]

/-- A last step that only computes adds no trap. -/
theorem bind_pure {p : Reader β ε α} {L : Lang β α} {F : Trap β ε} (f : α → γ)
    (hp : Recognises bound fatal p L F) :
    Recognises bound fatal (p >>= fun a => Pure.pure (f a))
      (L.bind fun a => Lang.pure (f a)) F :=
  (hp.bind fun a => pure (f a)).congr_trap fun _ _ _ => by
    simp [Trap.bind, Trap.after, Trap.none]

/-- A handler that leaves the fatal errors alone and makes no new ones. The
notion of fatal may change with it. -/
theorem mapError {p : Reader β ε α} {L : Lang β α} {F : Trap β ε} {h : ε → ε}
    {fatal' : ε → Prop} (hp : Recognises bound fatal p L F)
    (hid : ∀ e, fatal e → h e = e ∧ fatal' e) (hnew : ∀ e, fatal' (h e) → fatal e) :
    Recognises bound fatal' (p.mapError h) L F where
  ok_iff := by
    intro data off hb hoff a off'
    rw [← hp.ok_iff hb hoff, Reader.mapError]
    cases p data off <;> simp
  fatal_iff := by
    intro data off hb hoff e
    rw [← hp.fatal_iff hb hoff, Reader.mapError]
    cases p data off with
    | ok r => simp
    | error e' =>
      simp only [Except.error.injEq]
      constructor
      · intro h
        obtain ⟨rfl, hf⟩ := h
        have hf' := hnew e' hf
        exact ⟨(hid e' hf').1.symm, by rwa [(hid e' hf').1]⟩
      · intro h
        obtain ⟨rfl, hf⟩ := h
        exact hid e' hf

/-- A handler around a reader that never traps only has to keep it so. -/
theorem mapError_harmless {p : Reader β ε α} {L : Lang β α} {h : ε → ε'} {fatal' : ε' → Prop}
    (hp : Recognises bound fatal p L Trap.none) (hnew : ∀ e, fatal' (h e) → fatal e) :
    Recognises bound fatal' (p.mapError h) L Trap.none where
  ok_iff := by
    intro data off hb hoff a off'
    rw [← hp.ok_iff hb hoff, Reader.mapError]
    cases p data off <;> simp
  fatal_iff := by
    intro data off hb hoff e
    constructor
    · intro h
      obtain ⟨he, hf⟩ := h
      rw [Reader.mapError] at he
      cases hpo : p data off with
      | ok r => simp [hpo] at he
      | error e' =>
        simp only [hpo, Except.error.injEq] at he
        subst he
        exact (hp.fatal_iff hb hoff e').mp ⟨hpo, hnew e' hf⟩
    · intro h
      obtain ⟨w, -, h⟩ := h
      exact h.elim

theorem replicate {p : Reader β ε α} {L : Lang β α} {F : Trap β ε}
    (hp : Recognises bound fatal p L F) (n : Nat) :
    Recognises bound fatal (p.replicate n) (L.replicate n) (F.replicate L n) := by
  induction n with
  | zero => exact pure []
  | succ n ih => exact hp.bind fun a => ih.bind_pure (a :: ·)

theorem ite {c : Prop} [Decidable c] {p q : Reader β ε α} {L K : Lang β α} {F G : Trap β ε}
    (hp : c → Recognises bound fatal p L F) (hq : ¬ c → Recognises bound fatal q K G) :
    Recognises bound fatal (if c then p else q) (if c then L else K) (if c then F else G) := by
  by_cases hc : c
  · simpa only [if_pos hc] using hp hc
  · simpa only [if_neg hc] using hq hc

/-! ## What follows for whole buffers -/

variable {p : Reader β ε α} {L : Lang β α} {F : Trap β ε}

/-- An accepted word is read back whatever follows it. -/
theorem read_append (hp : Recognises bound fatal p L F) {w t : List β} {a : α}
    (hL : L w a) (hb : (w ++ t).length < bound) : p (w ++ t) 0 = .ok (a, w.length) := by
  have h := (hp.ok_iff hb (Nat.zero_le _) a w.length).mpr
  exact h ⟨w, by simp, hL, by simp⟩

/-- **No proper prefix is accepted.** A buffer that stops inside a word of
the language is neither accepted as a shorter word nor a trap. -/
theorem prefix_rejected (hp : Recognises bound fatal p L F) {w v : List β} {a : α}
    (hL : L w a) (hb : w.length < bound) (hv : v <+: w) (hlt : v.length < w.length) :
    ∃ e, p v 0 = .error e ∧ ¬ fatal e := by
  have hw := hp.read_append (t := []) hL (by simpa using hb)
  rw [List.append_nil] at hw
  have hbv : v.length < bound := by omega
  cases hpv : p v 0 with
  | ok r =>
    -- the shorter word would be read off `w` as well, ending earlier
    obtain ⟨b, off⟩ := r
    obtain ⟨u, hu, hLu, rfl⟩ := (hp.ok_iff hbv (Nat.zero_le _) b off).mp hpv
    rw [List.drop_zero] at hu
    have hwu := (hp.ok_iff hb (Nat.zero_le _) b (0 + u.length)).mpr
      ⟨u, by simpa using hu.trans hv, hLu, rfl⟩
    rw [hw, Except.ok.injEq, Prod.mk.injEq] at hwu
    have := hu.length_le
    omega
  | error e =>
    refine ⟨e, rfl, fun hf => ?_⟩
    obtain ⟨u, hu, hFu⟩ := (hp.fatal_iff hbv (Nat.zero_le _) e).mp ⟨hpv, hf⟩
    rw [List.drop_zero] at hu
    obtain ⟨he', -⟩ := (hp.fatal_iff hb (Nat.zero_le _) e).mpr
      ⟨u, by simpa using hu.trans hv, hFu⟩
    rw [hw] at he'
    cases he'

end Recognises

end QpskB210.Lib
