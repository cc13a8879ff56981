import Mathlib.Logic.Relation

/-!
# Transition systems

Labelled transition systems and their runs. A run may be held to a guard: a
condition on the state and the label, taken at each of its steps. Invariants
are proved from one step (`Reachable.invariant`), relations between an
earlier and a later state as well (`Path.preserves`), and `Inevitable` says
that every maximal run gets somewhere. Where no state on the way leaves a
choice, a run `Leads` to the one state that all maximal runs get to.
-/

namespace QpskB210.Lib

/-- Where runs start, and what one step may do. -/
structure System (σ α : Type) where
  init : σ → Prop
  step : σ → α → σ → Prop

namespace System

variable {σ α : Type} (S : System σ α)

/-- One step whose state and label meet the guard. -/
def Next (guard : σ → α → Prop) (s s' : σ) : Prop := ∃ a, guard s a ∧ S.step s a s'

/-- Any number of guarded steps. -/
def Path (guard : σ → α → Prop) : σ → σ → Prop := Relation.ReflTransGen (S.Next guard)

/-- A guarded run from an initial state gets here. -/
def Reachable (guard : σ → α → Prop) (s : σ) : Prop := ∃ s₀, S.init s₀ ∧ S.Path guard s₀ s

variable {S} {guard : σ → α → Prop}

theorem Reachable.init {s : σ} (h : S.init s) : S.Reachable guard s := ⟨s, h, .refl⟩

theorem Reachable.path {s s' : σ} (h : S.Reachable guard s) (h' : S.Path guard s s') :
    S.Reachable guard s' := by
  obtain ⟨s₀, hinit, hpath⟩ := h
  exact ⟨s₀, hinit, hpath.trans h'⟩

theorem Reachable.step {s s' : σ} {a : α} (h : S.Reachable guard s) (hguard : guard s a)
    (hstep : S.step s a s') : S.Reachable guard s' :=
  h.path (.single ⟨a, hguard, hstep⟩)

/-- A run that meets a guard meets a weaker one. -/
theorem Reachable.weaken {guard' : σ → α → Prop} (hguard : ∀ s a, guard s a → guard' s a) {s : σ}
    (h : S.Reachable guard s) : S.Reachable guard' s := by
  obtain ⟨s₀, hinit, hpath⟩ := h
  refine ⟨s₀, hinit, hpath.lift id fun s s' hnext => ?_⟩
  obtain ⟨a, ha, hstep⟩ := hnext
  exact ⟨a, hguard s a ha, hstep⟩

/-- A property that every guarded step keeps is kept by every guarded run. -/
theorem Path.preserves {P : σ → Prop}
    (hstep : ∀ s a s', P s → guard s a → S.step s a s' → P s') {s s' : σ}
    (h : S.Path guard s s') (hs : P s) : P s' := by
  induction h with
  | refl => exact hs
  | tail _ hnext ih =>
      obtain ⟨a, hguard, hlast⟩ := hnext
      exact hstep _ a _ ih hguard hlast

/-- What holds at the start and is kept by every guarded step is an invariant. -/
theorem Reachable.invariant {P : σ → Prop} (hinit : ∀ s, S.init s → P s)
    (hstep : ∀ s a s', P s → guard s a → S.step s a s' → P s') {s : σ}
    (h : S.Reachable guard s) : P s := by
  obtain ⟨s₀, hs₀, hpath⟩ := h
  exact hpath.preserves hstep (hinit s₀ hs₀)

/-- An invariant whose steps start in reachable states. -/
theorem Reachable.invariant_of {P : σ → Prop} (hinit : ∀ s, S.init s → P s)
    (hstep : ∀ s a s', S.Reachable guard s → P s → guard s a → S.step s a s' → P s') {s : σ}
    (h : S.Reachable guard s) : P s := by
  have hboth : S.Reachable guard s ∧ P s := by
    refine h.invariant (P := fun s => S.Reachable guard s ∧ P s)
      (fun s hs => ⟨.init hs, hinit s hs⟩) fun s a s' hs hguard hnext => ?_
    exact ⟨hs.1.step hguard hnext, hstep s a s' hs.1 hs.2 hguard hnext⟩
  exact hboth.2

/-- **Refinement.** Where each guarded step is, seen through `f`, no step or a
guarded one of another system, so is each reachable state. -/
theorem Reachable.refines {τ β : Type} {T : System τ β} {guard' : τ → β → Prop} {f : σ → τ}
    (hinit : ∀ s, S.init s → T.init (f s))
    (hstep : ∀ s a s', S.Reachable guard s → guard s a → S.step s a s' →
      f s' = f s ∨ ∃ b, guard' (f s) b ∧ T.step (f s) b (f s')) {s : σ}
    (h : S.Reachable guard s) : T.Reachable guard' (f s) := by
  refine h.invariant_of (P := fun s => T.Reachable guard' (f s)) (fun s hs => .init (hinit s hs))
    fun s a s' hreach hbefore hguard hnext => ?_
  rcases hstep s a s' hreach hguard hnext with hsame | ⟨b, hb, hnext'⟩
  · exact hsame ▸ hbefore
  · exact hbefore.step hb hnext'

/-- Some steps, one after the other, as long as each passes the check. -/
def run (exec : σ → α → Option σ) (check : σ → α → Bool) (s : σ) (steps : List α) : Option σ :=
  steps.foldlM (fun s a => if check s a then exec s a else none) s

/-- A run whose steps pass a check of the guard is a guarded run. -/
theorem path_of_run {exec : σ → α → Option σ} {check : σ → α → Bool}
    (hexec : ∀ s a s', exec s a = some s' → S.step s a s')
    (hcheck : ∀ s a, check s a = true → guard s a) {s s' : σ} {steps : List α}
    (h : run exec check s steps = some s') : S.Path guard s s' := by
  induction steps generalizing s with
  | nil =>
      cases h
      exact .refl
  | cons a steps ih =>
      rw [run, List.foldlM_cons, Option.bind_eq_bind, Option.bind_eq_some_iff] at h
      obtain ⟨s₁, hstep, hrest⟩ := h
      by_cases hpass : check s a = true
      · rw [if_pos hpass] at hstep
        exact .head ⟨a, hcheck s a hpass, hexec s a s₁ hstep⟩ (ih hrest)
      · rw [if_neg hpass] at hstep
        cases hstep

/-- The guard that allows every step. -/
def free : σ → α → Prop := fun _ _ => True

/-- Every maximal run from here gets to a state with `P`: it holds now, or
the system can step and it is inevitable after every step. -/
inductive Inevitable (S : System σ α) (P : σ → Prop) : σ → Prop
  | now {s : σ} (h : P s) : Inevitable S P s
  | later {s : σ} (hcan : ∃ a s', S.step s a s') (h : ∀ a s', S.step s a s' → Inevitable S P s') :
      Inevitable S P s

/-- What is inevitable can be reached. -/
theorem Inevitable.exists_path {P : σ → Prop} {s : σ} (h : S.Inevitable P s) :
    ∃ s', S.Path free s s' ∧ P s' := by
  induction h with
  | now h => exact ⟨_, .refl, h⟩
  | later hcan _ ih =>
      obtain ⟨a, s₁, hstep⟩ := hcan
      obtain ⟨s', hpath, hP⟩ := ih a s₁ hstep
      exact ⟨s', .head ⟨a, trivial, hstep⟩ hpath, hP⟩

/-- Where `P` allows no further step, every run that can go no further has
got to `P`. -/
theorem Inevitable.of_stuck {P : σ → Prop} {s s' : σ} (h : S.Inevitable P s)
    (hP : ∀ s, P s → ∀ a s', ¬ S.step s a s') (hpath : S.Path free s s')
    (hstuck : ∀ a s'', ¬ S.step s' a s'') : P s' := by
  induction h generalizing s' with
  | @now s h =>
      rcases hpath.cases_head with rfl | ⟨s₁, ⟨a, -, hstep⟩, -⟩
      · exact h
      · exact absurd hstep (hP s h a s₁)
  | later hcan _ ih =>
      rcases hpath.cases_head with rfl | ⟨s₁, ⟨a, -, hstep⟩, hrest⟩
      · obtain ⟨a, s₁, hstep⟩ := hcan
        exact absurd hstep (hstuck a s₁)
      · exact ih a s₁ hstep hrest hstuck

theorem Inevitable.mono {P Q : σ → Prop} (hPQ : ∀ s, P s → Q s) {s : σ} (h : S.Inevitable P s) :
    S.Inevitable Q s := by
  induction h with
  | now h => exact .now (hPQ _ h)
  | later hcan _ ih => exact .later hcan ih

/-- Where `P` makes `Q` inevitable, so does what makes `P` inevitable. -/
theorem Inevitable.trans {P Q : σ → Prop} (hPQ : ∀ s, P s → S.Inevitable Q s) {s : σ}
    (h : S.Inevitable P s) : S.Inevitable Q s := by
  induction h with
  | now h => exact hPQ _ h
  | later hcan _ ih => exact .later hcan ih

/-! ## Forced runs -/

/-- The system can step, and only to `s'`. -/
def Forced (S : System σ α) (s s' : σ) : Prop :=
  (∃ a, S.step s a s') ∧ ∀ a s'', S.step s a s'' → s'' = s'

/-- A run without a choice. -/
def Leads (S : System σ α) : σ → σ → Prop := Relation.ReflTransGen S.Forced

theorem Leads.inevitable {s s' : σ} (h : S.Leads s s') : S.Inevitable (· = s') s := by
  induction h using Relation.ReflTransGen.head_induction_on with
  | refl => exact .now rfl
  | head hforced _ ih =>
      obtain ⟨⟨a, hstep⟩, honly⟩ := hforced
      refine .later ⟨a, _, hstep⟩ fun a' s'' hstep' => ?_
      rw [honly a' s'' hstep']
      exact ih

end System

end QpskB210.Lib
