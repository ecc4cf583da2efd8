import Mathlib.Tactic.Common

/-! Logs of operations that are replayed in order, and operations that may change places. -/

namespace ChainTable

/-- Operations that apply to some states, each of them about one key. -/
structure KeyedOps (κ σ ω : Type*) where
  key : ω → κ
  Applies : ω → σ → Prop
  apply : ω → σ → σ
  /-- Operations about different keys may be applied in either order. -/
  commute : ∀ {first second : ω} (state : σ), key first ≠ key second →
    apply first (apply second state) = apply second (apply first state)
  /-- An operation about another key does not decide whether one applies. -/
  unaffected : ∀ {first second : ω} (state : σ), key first ≠ key second →
    (Applies first (apply second state) ↔ Applies first state)

namespace KeyedOps

variable {κ σ ω : Type*} (ops : KeyedOps κ σ ω)

/-- Applying the operations of a log one after another, each of which applies, leads to a state. -/
def Replays : List ω → σ → σ → Prop
  | [], before, after => before = after
  | op :: log, before, after => ops.Applies op before ∧ Replays log (ops.apply op before) after

/-- A log grows by an operation that applies at its end. -/
theorem replays_concat {log : List ω} {op : ω} :
    ∀ {before after : σ}, ops.Replays log before after → ops.Applies op after →
      ops.Replays (log ++ [op]) before (ops.apply op after) := by
  -- The last operation applies where the operations before it lead, so the start stays open.
  induction log with
  | nil =>
    rintro before after rfl applies
    exact ⟨applies, rfl⟩
  | cons first log ih =>
    rintro before after ⟨applied, replays⟩ applies
    exact ⟨applied, ih replays applies⟩

/-- An operation may be taken out of a log and applied first, past operations about other keys. -/
theorem replays_extract {earlier later : List ω} {op : ω}
    (others : ∀ other ∈ earlier, ops.key other ≠ ops.key op) :
    ∀ {before after : σ}, ops.Replays (earlier ++ op :: later) before after →
      ops.Applies op before ∧ ops.Replays (earlier ++ later) (ops.apply op before) after := by
  -- The operation changes places with each earlier one in turn.
  induction earlier with
  | nil => exact fun replays => replays
  | cons first earlier ih =>
    rintro before after ⟨applied, replays⟩
    -- The operation comes to the front of the other ones, and then passes this one too.
    have differs : ops.key first ≠ ops.key op := others first List.mem_cons_self
    obtain ⟨applies, rest⟩ :=
      ih (fun other member => others other (List.mem_cons_of_mem _ member)) replays
    rw [ops.unaffected before differs.symm] at applies
    refine ⟨applies, (ops.unaffected before differs).mpr applied, ?_⟩
    -- What it leaves for the rest does not depend on which of the two came first.
    rw [ops.commute before differs]
    exact rest

end KeyedOps

end ChainTable
