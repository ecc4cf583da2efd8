import Mathlib.Tactic.Common

/-! Machines that take labelled steps: their runs, and what holds along all of them. -/

namespace ChainTable.Machine

variable {σ α : Type*}

/-- Take steps one after another, as long as each of them is possible. -/
def run (step : σ → α → Option σ) : σ → List α → Option σ
  | state, [] => some state
  | state, label :: labels =>
    match step state label with
    | some next => run step next labels
    | none => none

/-- A condition on the state before each step is met all along a run. -/
def Guarded (step : σ → α → Option σ) (guard : σ → α → Prop) : σ → List α → Prop
  | _, [] => True
  | state, label :: labels =>
    guard state label ∧ ∀ next, step state label = some next → Guarded step guard next labels

/-- Whether a run is guarded can be computed, as long as the condition on a step can. -/
instance decidableGuarded (step : σ → α → Option σ) (guard : σ → α → Prop)
    [∀ state label, Decidable (guard state label)] :
    (state : σ) → (labels : List α) → Decidable (Guarded step guard state labels)
  | _, [] => isTrue trivial
  | state, label :: labels =>
    match stepped : step state label with
    -- A step that is not possible leaves no run to look at.
    | none => decidable_of_iff (guard state label)
        ⟨fun allowed => ⟨allowed, fun next same => by rw [stepped] at same; cases same⟩, And.left⟩
    | some next =>
      -- The rest of the run is decided from where the step leads.
      have := decidableGuarded step guard next labels
      decidable_of_iff (guard state label ∧ Guarded step guard next labels)
        ⟨fun both => ⟨both.1, fun other same => by
            rw [stepped] at same
            cases same
            exact both.2⟩,
          fun both => ⟨both.1, both.2 next stepped⟩⟩

/-- A condition that every step meets is met all along every run. -/
theorem guarded_of_forall {step : σ → α → Option σ} {guard : σ → α → Prop}
    (always : ∀ state label, guard state label) (labels : List α) :
    ∀ state, Guarded step guard state labels := by
  -- The first step meets it, and so does what comes after it.
  induction labels with
  | nil => exact fun _ => trivial
  | cons label labels ih => exact fun state => ⟨always state label, fun next _ => ih next⟩

/-- A run of at least one step goes on from where its first step leads. -/
theorem run_cons {step : σ → α → Option σ} {state final : σ} {label : α} {labels : List α}
    (ran : run step state (label :: labels) = some final) :
    ∃ next, step state label = some next ∧ run step next labels = some final := by
  -- A run whose first step is impossible has no end, so that step leads somewhere.
  cases stepped : step state label with
  | none =>
    rw [run, stepped] at ran
    cases ran
  | some next =>
    rw [run, stepped] at ran
    exact ⟨next, rfl, ran⟩

/-- What every guarded step preserves holds at the end of every guarded run. -/
theorem run_invariant {step : σ → α → Option σ} {guard : σ → α → Prop} {Invariant : σ → Prop}
    (preserved : ∀ state label next, Invariant state → guard state label →
      step state label = some next → Invariant next) {labels : List α} :
    ∀ {state final : σ}, Invariant state → Guarded step guard state labels →
      run step state labels = some final → Invariant final := by
  -- The first step hands the invariant to the rest of the run.
  induction labels with
  | nil =>
    intro state final holds _ ran
    cases ran
    exact holds
  | cons label labels ih =>
    intro state final holds guarded ran
    obtain ⟨next, stepped, rest⟩ := run_cons ran
    exact ih (preserved state label next holds guarded.1 stepped) (guarded.2 next stepped) rest

end ChainTable.Machine
