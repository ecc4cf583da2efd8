import ChainTable.Library.Separation

/-! Programs on a memory that do what a model on values does, whatever lies next to their cells. -/

namespace ChainTable

/-- How a program sees its memory: the cells, and what the environment has in store for it. -/
structure View (μ σ α β : Type*) where
  cells : μ → α → Option β
  outcomes : μ → σ

/-- A part of a memory is as asserted, whatever may be said of the rest. -/
def View.Has {μ σ α β : Type*} (view : View μ σ α β) (memory : μ) (holds : Assertion α β) : Prop :=
  holds (view.cells memory)

variable {μ σ ε α β γ δ : Type} {ρ ϑ : Type}

/--
A program on memory does what a model on values does.

Where the model returns, the program returns as well, and leaves the outcomes that the model leaves.
Before and after, the cells are as asserted, and the other cells stay what they are.
-/
def Follows (view : View μ σ α β) (before : Assertion α β) (program : StateT μ Option γ)
    (model : StateT σ (Except ε) δ) (after : γ → δ → Assertion α β) : Prop :=
  ∀ frame memory, view.Has memory (before * frame) →
    ∀ value left, model (view.outcomes memory) = .ok (value, left) →
      ∃ result memory', program memory = some (result, memory') ∧ view.outcomes memory' = left ∧
        view.Has memory' (after result value * frame)

/-- A loop makes its first round, and goes on from there or has ended. -/
theorem repeatM_round {μ α β : Type} [Nonempty μ] [Nonempty β]
    {round : α → StateT μ Option (α ⊕ β)} (start : α) :
    repeatM round start = round start >>= fun
      | .inl further => repeatM round further
      | .inr result => pure result :=
  repeatM_eq_of_monadTail start

namespace Follows

open Assertion

variable {view : View μ σ α β} {before other : Assertion α β} {program : StateT μ Option γ}
  {model : StateT σ (Except ε) δ} {after weaker : γ → δ → Assertion α β}

/-- Less may be asserted afterwards, and more before. -/
theorem weaken (follows : Follows view before program model after) (pre : other ≤ before)
    (post : ∀ result value, after result value ≤ weaker result value) :
    Follows view other program model weaker := by
  -- The frame goes along, so that only the parts in question are replaced by others.
  intro frame memory held value left ran
  obtain ⟨result, memory', went, same, holds⟩ :=
    follows frame memory (mul_le_mul_left pre frame _ held) value left ran
  exact ⟨result, memory', went, same, mul_le_mul_left (post result value) frame _ holds⟩

/-- More may be asserted before. -/
theorem strengthen (follows : Follows view before program model after) (pre : other ≤ before) :
    Follows view other program model after :=
  follows.weaken pre fun _ _ => le_refl _

/-- Other cells stay what they are. -/
theorem frame (follows : Follows view before program model after) (others : Assertion α β) :
    Follows view (before * others) program model fun result value =>
      after result value * others := by
  -- What is framed joins the rest of the memory, of which the program knows nothing.
  intro frame memory held value left ran
  rw [mul_assoc] at held
  obtain ⟨result, memory', went, same, holds⟩ := follows _ memory held value left ran
  exact ⟨result, memory', went, same, by rwa [mul_assoc]⟩

/-- A program that returns at once follows a model that does. -/
theorem done {result : γ} {value : δ} (holds : before ≤ after result value) :
    Follows view before (pure result) (pure value : StateT σ (Except ε) δ) after := by
  -- The memory is left alone, and what was asserted of it before is asserted afterwards.
  intro frame memory held value' left ran
  cases ran
  exact ⟨result, memory, rfl, rfl, mul_le_mul_left holds frame _ held⟩

/-- After one step that follows one of the model, the rest is to follow the rest. -/
theorem bind {next : γ → StateT μ Option ρ} {modelNext : δ → StateT σ (Except ε) ϑ}
    {ends : ρ → ϑ → Assertion α β} (follows : Follows view before program model after)
    (rest : ∀ result value, Follows view (after result value) (next result) (modelNext value)
      ends) :
    Follows view before (program >>= next) (model >>= modelNext) ends := by
  intro frame memory held value left ran
  -- The model has run its first part, and the program follows it there.
  cases first : model (view.outcomes memory) with
  | error fault =>
    simp [Bind.bind, StateT.bind, Except.bind, first] at ran
  | ok between =>
    obtain ⟨value', left'⟩ := between
    obtain ⟨result, memory', went, same, holds⟩ := follows frame memory held value' left' first
    have ranRest : modelNext value' (view.outcomes memory') = .ok (value, left) := by
      rw [same]
      simpa [Bind.bind, StateT.bind, Except.bind, first] using ran
    obtain ⟨result', memory'', wentRest, sameRest, holdsRest⟩ :=
      rest result value' frame memory' holds value left ranRest
    refine ⟨result', memory'', ?_, sameRest, holdsRest⟩
    simp [Bind.bind, StateT.bind, went, wentRest]

/-- A call with some of the cells, with the others left to the rest. -/
theorem call {others : Assertion α β} {next : γ → StateT μ Option ρ}
    {modelNext : δ → StateT σ (Except ε) ϑ} {ends : ρ → ϑ → Assertion α β}
    (follows : Follows view before program model after)
    (rest : ∀ result value, Follows view (after result value * others) (next result)
      (modelNext value) ends) :
    Follows view (before * others) (program >>= next) (model >>= modelNext) ends :=
  (follows.frame others).bind rest

/-- A call in which the model takes no part. -/
theorem step {others : Assertion α β} {value : δ} {next : γ → StateT μ Option ρ}
    {modelRest : StateT σ (Except ε) ϑ} {ends : ρ → ϑ → Assertion α β}
    (follows : Follows view before program (pure value : StateT σ (Except ε) δ) after)
    (rest : ∀ result, Follows view (after result value * others) (next result) modelRest
      ends) :
    Follows view (before * others) (program >>= next) modelRest ends := by
  -- The program runs on the part that it needs, with the others in its frame, and then goes on.
  intro frame memory held value' left ran
  rw [mul_assoc] at held
  obtain ⟨result, memory', went, same, holds⟩ :=
    follows (others * frame) memory held value (view.outcomes memory) rfl
  rw [← mul_assoc] at holds
  obtain ⟨result', memory'', wentRest, sameRest, holdsRest⟩ :=
    rest result frame memory' holds value' left (by rwa [same])
  refine ⟨result', memory'', ?_, sameRest, holdsRest⟩
  simp [Bind.bind, StateT.bind, went, wentRest]

/-- Where the model does not return, nothing is asked of the program. -/
theorem faulty (fails : ∀ outcomes ended, model outcomes ≠ .ok ended) :
    Follows view before program model after :=
  fun _ _ _ _ _ ran => absurd ran (fails _ _)

/-- Whatever the model always answers is known of its answer. -/
theorem learn {fact : δ → Prop} (always : ∀ {outcomes value left},
    model outcomes = .ok (value, left) → fact value)
    (follows : Follows view before program model after) :
    Follows view before program model
      fun result value => given (fact value) (after result value) := by
  -- The answer in question is one that the model has given.
  intro frame memory held value left ran
  obtain ⟨result, memory', went, same, holds⟩ := follows frame memory held value left ran
  exact ⟨result, memory', went, same, mul_le_mul_left (le_given _ (always ran)) frame _ holds⟩

/-- One of a family of assertions is known to hold, and whichever it is will do. -/
theorem choose {ι : Sort*} {family : ι → Assertion α β} {others : Assertion α β}
    (each : ∀ index, Follows view (family index * others) program model after) :
    Follows view (any family * others) program model after := by
  -- The memory shows which one of the family it is.
  intro frame memory held value left ran
  rw [any_mul, View.Has, any_mul] at held
  obtain ⟨index, held⟩ := held
  exact each index frame memory held value left ran

/-- A fact that is given may be used. -/
theorem assume {fact : Prop} {holds others : Assertion α β}
    (each : fact → Follows view (holds * others) program model after) :
    Follows view (given fact holds * others) program model after :=
  choose each

/-- The assertions may be put into another order. -/
theorem permute (other : Assertion α β) (same : before = other)
    (follows : Follows view other program model after) :
    Follows view before program model after :=
  same ▸ follows

section Primitive

variable [DecidableEq α] {next : γ → StateT μ Option ρ} {modelRest : StateT σ (Except ε) ϑ}
  {ends : ρ → ϑ → Assertion α β} {others : Assertion α β}

/--
A program that only looks at one cell and changes it, to another content or to none.

The model takes no part in this.
-/
theorem access (address : α) {old : β} (new : Option β) (result : γ)
    (acts : ∀ memory, view.cells memory address = some old → ∃ memory',
      program memory = some (result, memory') ∧ view.outcomes memory' = view.outcomes memory ∧
        view.cells memory' = Function.update (view.cells memory) address new)
    (rest : Follows view (slot address new * others) (next result) modelRest ends) :
    Follows view (cell address old * others) (program >>= next) modelRest ends := by
  -- The cell is taken out of what is held, and the rest stays for the program behind it.
  intro frame memory held value left ran
  rw [mul_assoc, View.Has, cell_mul] at held
  obtain ⟨live, held⟩ := held
  obtain ⟨memory', went, same, changed⟩ := acts memory live
  have holds : view.Has memory' (slot address new * others * frame) := by
    rw [mul_assoc, View.Has, changed]
    exact slot_mul address new held
  obtain ⟨result', memory'', wentRest, sameRest, holdsRest⟩ :=
    rest frame memory' holds value left (by rwa [same])
  refine ⟨result', memory'', ?_, sameRest, holdsRest⟩
  simp [Bind.bind, StateT.bind, went, wentRest]

/-- A program that asks for a new cell, which it is given or not as the model is. -/
theorem alloc {κ : Type} {request : StateT μ Option (Option κ)} {chance : StateT σ (Except ε) Bool}
    {next : Option κ → StateT μ Option ρ} {modelNext : Bool → StateT σ (Except ε) ϑ}
    (place : κ → α) {content : β}
    (acts : ∀ memory granted left, chance (view.outcomes memory) = .ok (granted, left) →
      ∃ memory', view.outcomes memory' = left ∧
        if granted then ∃ name, request memory = some (some name, memory') ∧
          view.cells memory (place name) = none ∧
          view.cells memory' = Function.update (view.cells memory) (place name) (some content)
        else request memory = some (none, memory') ∧ view.cells memory' = view.cells memory)
    (refused : Follows view others (next none) (modelNext false) ends)
    (granted : ∀ name, Follows view (cell (place name) content * others) (next (some name))
      (modelNext true) ends) :
    Follows view others (request >>= next) (chance >>= modelNext) ends := by
  intro frame memory held value left ran
  cases first : chance (view.outcomes memory) with
  | error fault =>
    simp [Bind.bind, StateT.bind, Except.bind, first] at ran
  | ok between =>
    obtain ⟨outcome, left'⟩ := between
    have ranRest : modelNext outcome left' = .ok (value, left) := by
      simpa [Bind.bind, StateT.bind, Except.bind, first] using ran
    obtain ⟨memory', same, acted⟩ := acts memory outcome left' first
    subst same
    cases outcome with
    | false =>
      rw [if_neg (by simp)] at acted
      obtain ⟨went, kept⟩ := acted
      have holds : view.Has memory' (others * frame) := by rwa [View.Has, kept]
      obtain ⟨result, memory'', wentRest, rest⟩ :=
        refused frame memory' holds value left ranRest
      exact ⟨result, memory'', by simp [Bind.bind, StateT.bind, went, wentRest], rest⟩
    | true =>
      rw [if_pos rfl] at acted
      obtain ⟨name, went, fresh, changed⟩ := acted
      -- The new cell is next to all that there was before.
      have holds : view.Has memory' (cell (place name) content * others * frame) := by
        rw [mul_assoc, View.Has, changed, cell_mul, Function.update_self, Function.update_idem]
        refine ⟨rfl, ?_⟩
        rwa [← fresh, Function.update_eq_self]
      obtain ⟨result, memory'', wentRest, rest⟩ :=
        granted name frame memory' holds value left ranRest
      exact ⟨result, memory'', by simp [Bind.bind, StateT.bind, went, wentRest], rest⟩

end Primitive

/-- A program that needs no cells leaves its own behind, next to the memory as it was. -/
theorem adds_to_memory (follows : Follows view 1 program model after) (memory : μ) {value : δ}
    {left : σ} (ran : model (view.outcomes memory) = .ok (value, left)) :
    ∃ result memory', program memory = some (result, memory') ∧ view.outcomes memory' = left ∧
      view.Has memory' (after result value * exactly (view.cells memory)) := by
  -- All of the memory is next to no cells.
  refine follows (exactly (view.cells memory)) memory ?_ value left ran
  rw [one_mul]
  exact rfl

end Follows

end ChainTable
