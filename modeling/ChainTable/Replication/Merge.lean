import ChainTable.Membership.TableMerge

/-! The merge by which a server takes over the table of its predecessor, one entry at a time. -/

namespace ChainTable

/-- The server of this table by itself, before anybody has asked it anything. -/
def Table.alone (table : Table) : Chain 0 :=
  ({ server := { table := table, stats := ⟨0, 0, 0⟩, clock := [] }, link := [] } : Node)

/-- What `rtable_get_table` returns from the server of a table, if all behaviour is defined. -/
def fetchTable (table : Table) : Option (Option (List (Option Entry))) :=
  -- The predecessor answers under its lock, so no update falls into the middle of its answer.
  match rtableGetTable (serve 0) table.alone [] with
  | .ok ((entries, _), _) => some entries
  | .error _ => none

/-- `select_prev_server` with the predecessor's table: the array, and the place in its loop. -/
structure Merge where
  /-- The array ends with NULL, and is itself NULL if the predecessor gave no table. -/
  entries : Option (List (Option Entry))
  position : Nat
  deriving DecidableEq, Repr

/-- The entry that the loop of the merge puts next, or none when it has ended. -/
def Merge.current (merge : Merge) : Option Entry :=
  match merge.entries with
  | none => none
  | some entries => (entries[merge.position]?).join

/-- One round of the loop of the merge, with memory given and no undefined behaviour. -/
def Merge.put (merge : Merge) (table : Table) : Option (Merge × Table) :=
  match merge.current with
  | none => none
  | some entry =>
    -- The result is only looked at to print a message.
    match tablePut table entry.key entry.value [] with
    | .ok ((_, after), _) => some ({ merge with position := merge.position + 1 }, after)
    | .error _ => none

/-- These pairs are what is left to be put, in their order. -/
def Merge.Left (merge : Merge) (pairs : List (Key × Block)) : Prop :=
  match merge.entries with
  | none => pairs = []
  | some entries => ∃ before, before.length = merge.position ∧
      entries = before ++ ((pairs.map fun pair => some (Entry.ofPair pair)) ++ [none])

/-- The array lists every pair of a map once, or is NULL for a map without pairs. -/
theorem fetchTable_holds {table : Table} {contents : Contents} (holds : table.Holds contents) :
    ∃ pairs : List (Key × Block), (pairs.map Prod.fst).Nodup ∧
      (∀ key block, (key, block) ∈ pairs ↔ contents.lookup key = some block) ∧
      fetchTable table = some (if pairs = [] then none
        else some ((pairs.map fun pair => some (Entry.ofPair pair)) ++ [none])) := by
  -- The head of a chain of one server answers with the pairs of its table.
  have held : (Chain.head table.alone).server.table.Holds contents := holds
  obtain ⟨pairs, after, nodup, members, -, fetched⟩ := rtableGetTable_served held
  refine ⟨pairs, nodup, members, ?_⟩
  unfold fetchTable
  rw [fetched]

namespace Merge

variable {merge next : Merge} {pairs : List (Key × Block)}

/-- A merge that begins has all the pairs of the array left. -/
theorem left_start (pairs : List (Key × Block)) :
    Left ⟨if pairs = [] then none
      else some ((pairs.map fun pair => some (Entry.ofPair pair)) ++ [none]), 0⟩ pairs := by
  -- Nothing was put yet, so that everything is left.
  by_cases empty : pairs = []
  · rw [if_pos empty]
    exact empty
  · rw [if_neg empty]
    exact ⟨[], rfl, rfl⟩

/-- What the loop puts next is the first pair that is left, if there is one. -/
theorem current_of_left (left : merge.Left pairs) :
    merge.current = pairs.head?.map Entry.ofPair := by
  -- The entry at the position is the first of those that follow it.
  obtain ⟨entries, position⟩ := merge
  cases entries with
  | none =>
    rw [show pairs = [] from left]
    rfl
  | some entries =>
    obtain ⟨before, rfl, rfl⟩ := left
    simp only [current, List.getElem?_append_right (le_refl _), Nat.sub_self]
    cases pairs <;> rfl

/-- A round of the merge puts the first pair that is left. -/
theorem put_ran (left : merge.Left pairs) {table after : Table} {contents : Contents}
    (holds : table.Holds contents) (ran : merge.put table = some (next, after)) :
    ∃ key block later, pairs = (key, block) :: later ∧ next.Left later ∧
      next.entries = merge.entries ∧ after.Holds (contents.insert key block) := by
  unfold put at ran
  rw [current_of_left left] at ran
  cases pairs with
  | nil => cases ran
  | cons pair later =>
    obtain ⟨key, block⟩ := pair
    simp only [List.head?_cons, Option.map_some, Entry.ofPair] at ran
    cases stored : tablePut table (some key) (some (Data.ofBlock block)) [] with
    | error fault =>
      rw [stored] at ran
      cases ran
    | ok result =>
      obtain ⟨⟨code, table'⟩, mem⟩ := result
      rw [stored] at ran
      cases ran
      obtain ⟨-, -, holdsAfter⟩ := holds.put_ran (contents_ofBlock block) stored
      refine ⟨key, block, later, rfl, ?_, rfl, holdsAfter⟩
      -- The pair just put joins those in front of the place in the loop.
      obtain ⟨entries, position⟩ := merge
      cases entries with
      | none => cases show (key, block) :: later = [] from left
      | some entries =>
        obtain ⟨before, rfl, rfl⟩ := left
        exact ⟨before ++ [some (.ofPair (key, block))], by simp, by simp⟩

/-- A merge that has ended has nothing left. -/
theorem left_of_ended (left : merge.Left pairs) (ended : merge.current = none) : pairs = [] := by
  -- A pair that is left would be put next.
  rw [current_of_left left] at ended
  cases pairs with
  | nil => rfl
  | cons pair later => cases ended

end Merge

end ChainTable
