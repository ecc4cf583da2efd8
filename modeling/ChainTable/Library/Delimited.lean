import Mathlib.Data.List.Basic

/-! Values written as symbols that show where they end, and lists of such values. -/

namespace ChainTable.Delimited

variable {α β : Type}

/-- A reader gets back each valid value from what was written of it, whatever stands behind. -/
structure Reads (Valid : α → Prop) (write : α → List β) (read : List β → Option (α × List β)) :
    Prop where
  back : ∀ value, Valid value → ∀ behind, read (write value ++ behind) = some (value, behind)
  nonempty : ∀ value, Valid value → write value ≠ []

/-- The loop that reads values until nothing is left, for so many rounds at most. -/
def readAll (read : List β → Option (α × List β)) : (rounds : Nat) → List β → Option (List α)
  | _, [] => some []
  | 0, _ :: _ => none
  | rounds + 1, symbol :: symbols => do
    let (value, behind) ← read (symbol :: symbols)
    let values ← readAll read rounds behind
    return value :: values

/-- Values written one after another are all read back, when there is a round for each symbol. -/
theorem Reads.all {Valid : α → Prop} {write : α → List β} {read : List β → Option (α × List β)}
    (reads : Reads Valid write read) {values : List α} (valid : ∀ value ∈ values, Valid value)
    {rounds : Nat} (enough : (values.flatMap write).length ≤ rounds) :
    readAll read rounds (values.flatMap write) = some values := by
  -- One value is read at a time, and what stands behind it are the other ones.
  induction values generalizing rounds with
  | nil => simp [readAll]
  | cons value values ih =>
    have here := valid value List.mem_cons_self
    have back := reads.back value here (values.flatMap write)
    rw [List.flatMap_cons] at enough ⊢
    -- Something is written of the first value, so that there is a round to read it.
    obtain ⟨symbol, symbols, written⟩ := List.exists_cons_of_ne_nil (reads.nonempty value here)
    rw [written, List.cons_append] at back enough ⊢
    simp only [List.length_cons, List.length_append] at enough
    obtain ⟨rounds, rfl⟩ := Nat.exists_eq_add_one_of_ne_zero (by omega : rounds ≠ 0)
    have rest := ih (fun other member => valid other (List.mem_cons_of_mem _ member))
      (by omega : (values.flatMap write).length ≤ rounds)
    simp [readAll, back, rest]

end ChainTable.Delimited
