import ChainTable.Pointers.TableHistory

/-! Which puts leave copies behind: those that get memory for all but the last allocation. -/

namespace ChainTable.Lifetime

/--
A computation takes so many allocations, and completes exactly when all of them are given.

A script that has ended gives everything.
-/
def Takes {α : Type} (count : Nat) (run : C α) (failed completed : α) : Prop :=
  ∀ outcomes : Mem, if (outcomes.take count).all id then
      run outcomes = .ok (completed, outcomes.drop count)
    else ∃ left, run outcomes = .ok (failed, left)

namespace Takes

variable {α β : Type}

/-- A value takes no allocation. -/
theorem pure (failed completed : α) : Takes 0 (Pure.pure completed) failed completed := by
  -- No outcome is taken from the script.
  intro outcomes
  simp only [List.take_zero, List.all_nil, if_true, List.drop_zero]
  rfl

/-- One allocation is one. -/
theorem malloc : Takes 1 ChainTable.malloc false true := by
  -- The script has ended, or its first outcome is the answer.
  intro outcomes
  match outcomes with
  | [] => exact rfl
  | true :: outcomes => exact rfl
  | false :: outcomes => exact ⟨outcomes, rfl⟩

/-- A step that may give up is followed by one that takes further allocations. -/
theorem bind {first : C α} {next : α → C β} {failed completed : α} {worse best : β}
    (count more : Nat) (head : Takes count first failed completed)
    (onFailure : next failed = Pure.pure worse)
    (onSuccess : Takes more (next completed) worse best) :
    Takes (count + more) (first >>= next) worse best := by
  -- The script is split after the allocations of the first step.
  intro outcomes
  have here := head outcomes
  rw [List.take_add, List.all_append, ← List.drop_drop]
  by_cases given : (outcomes.take count).all id
  · rw [if_pos given] at here
    have there := onSuccess (outcomes.drop count)
    rw [given, Bool.true_and, ChainTable.run_bind here]
    exact there
  · rw [if_neg given] at here
    obtain ⟨left, gaveUp⟩ := here
    rw [if_neg (by simp [given])]
    exact ⟨left, by rw [ChainTable.run_bind gaveUp, onFailure]; rfl⟩

/-- One allocation is followed by a step that takes further ones. -/
theorem malloc_bind {next : Bool → C β} {worse best : β} {more : Nat}
    (onFailure : next false = Pure.pure worse) (onSuccess : Takes more (next true) worse best) :
    Takes (more + 1) (ChainTable.malloc >>= next) worse best := by
  -- The allocation is the first step, with a count of one.
  rw [Nat.add_comm]
  exact .bind 1 more .malloc onFailure onSuccess

end Takes

/-- A copy of a key takes one allocation. -/
theorem strdup_takes (key : Key) : Takes 1 (ChainTable.strdup key) none (some key) :=
  .malloc_bind rfl (.pure _ _)

/-- A copy of data takes two allocations. -/
theorem dataDup_takes {data : Data} {block : Block} (contents : data.contents = some block) :
    Takes 2 (ChainTable.dataDup (some data)) none (some (Data.ofBlock block)) := by
  -- Valid data passes the check, and is copied after both allocations.
  have valid : ChainTable.dataValid (some data) = 0 := dataValid_of_contents contents
  unfold ChainTable.dataDup
  simp only [valid]
  refine .malloc_bind rfl (.malloc_bind rfl ?_)
  simp only [Bool.not_true, Bool.false_eq_true, if_false]
  split
  · rename_i held
    simp [ChainTable.dataValid, held] at valid
  · rename_i bytes held
    rw [copyOf_contents held contents]
    exact .pure _ _

/-- An entry takes four allocations. -/
theorem entryCreate_takes (key : Key) {data : Data} {block : Block}
    (contents : data.contents = some block) :
    Takes 4 (ChainTable.entryCreate (some key) (some data)) none
      (some (Entry.ofPair (key, block))) := by
  -- The entry, its key and the two of its data are asked for in this order.
  have valid : ChainTable.dataValid (some data) = 0 := dataValid_of_contents contents
  unfold ChainTable.entryCreate
  simp only [valid]
  refine .malloc_bind rfl (.malloc_bind rfl ?_)
  exact .bind 2 0 (dataDup_takes contents) rfl (.pure _ _)

open OrderedAssoc

/-- The general loop of `list_add` asks for the node of a new key, and for nothing else. -/
theorem listAddLoop_asks (list : EntryList) (key : Key) (data : Usable) (previous : List Entry)
    {pairs : List (Key × Usable)} (nonempty : pairs ≠ []) (absent : List.lookup key pairs = none) :
    ChainTable.listAddLoop list (.ofUsable (key, data)) previous (pairs.map Entry.ofUsable) =
      (ChainTable.malloc >>= fun given => if (!given) = true then pure (-1, list)
        else pure (0, { size := list.size + 1,
                        head := previous ++
                          (OrderedAssoc.insert key data pairs).map Entry.ofUsable })) := by
  -- The walk ends in front of the first larger node, or behind the last one.
  induction pairs generalizing previous with
  | nil => exact absurd rfl nonempty
  | cons pair rest ih =>
    obtain ⟨other, stored⟩ := pair
    have compare := entryCompare_ofUsable (key, data) (other, stored)
    rw [lookup_cons] at absent
    have differs : key ≠ other := fun same => by simp [same] at absent
    simp only [if_neg differs] at absent
    simp only [List.map_cons, ChainTable.listAddLoop, compare, OrderedAssoc.insert]
    by_cases below : key < other
    · simp only [below, if_true]
      rfl
    · simp only [below, differs, if_false]
      by_cases last : rest = []
      · subst last
        rfl
      · have walked := ih (previous ++ [.ofUsable (other, stored)]) last absent
        simpa [last] using walked

/-- `list_add` asks for the node of a new key, and for nothing else. -/
theorem listAdd_asks {pairs : List (Key × Usable)} (key : Key) (data : Usable)
    (absent : List.lookup key pairs = none) (sorted : Sorted pairs) :
    ChainTable.listAdd (.ofUsable pairs) (.ofUsable (key, data)) =
      (ChainTable.malloc >>= fun given => if (!given) = true then pure (-1, .ofUsable pairs)
        else pure (0, .ofUsable (OrderedAssoc.insert key data pairs))) := by
  -- The three cases are an empty list, a list of one node, and a longer one.
  have grown := sorted.length_insert key data
  rw [if_pos absent] at grown
  unfold ChainTable.listAdd
  match pairs with
  | [] =>
    simp only [validList_ofUsable, entryValid_ofUsable]
    rfl
  | [(other, stored)] =>
    have differs : key ≠ other := fun same => by simp [same] at absent
    have compare := entryCompare_ofUsable (other, stored) (key, data)
    simp only [validList_ofUsable, entryValid_ofUsable]
    simp only [EntryList.ofUsable, List.map_cons, List.map_nil, List.length_cons, List.length_nil,
      compare, OrderedAssoc.insert]
    rcases lt_or_gt_of_ne differs with below | above
    · simp only [below.asymm, below.ne', below, if_true, if_false]
      rfl
    · simp only [above, above.asymm, above.ne', if_true, if_false]
      rfl
  | first :: second :: rest =>
    have loop := listAddLoop_asks (.ofUsable (first :: second :: rest)) key data []
      (by simp) absent
    obtain ⟨notEmpty, notSingle⟩ := size_of_two first second rest
    simp only [validList_ofUsable, entryValid_ofUsable, notEmpty, notSingle, if_false]
    change ChainTable.listAddLoop _ _ [] (List.map Entry.ofUsable (first :: second :: rest)) = _
    rw [loop]
    simp only [EntryList.ofUsable, grown, List.nil_append, Int.natCast_add, Int.natCast_one]

/-- With pairs of the table, `list_add` asks for the node of a new key as well. -/
theorem listAdd_ofPairs_asks {pairs : List (Key × Block)} (key : Key) (block : Block)
    (absent : List.lookup key pairs = none) (sorted : Sorted pairs) :
    ChainTable.listAdd (.ofPairs pairs) (.ofPair (key, block)) =
      (ChainTable.malloc >>= fun given => if (!given) = true then pure (-1, .ofPairs pairs)
        else pure (0, .ofPairs (OrderedAssoc.insert key block pairs))) := by
  -- Pairs of the table are usable blocks, so that the general lemma is about them.
  have fresh : List.lookup key (pairs.map (Prod.map id Block.usable)) = none := by
    rw [lookup_map_values, absent, Option.map_none]
  rw [ofPairs_eq, ofPairs_eq, ← insert_map_values]
  exact listAdd_asks key (Block.usable block) fresh (sorted.map_values _)

variable {rows : Nat} (store : Store rows) {key : Key}

/-- The copies of a put and its entry, or nothing when there is no memory for one of them. -/
def copiesOf (key : Key) (data : Data) : C (Option (Key × Data × Entry)) := do
  match ← ChainTable.strdup key with
  | none => return none
  | some keyCopy =>
    match ← ChainTable.dataDup (some data) with
    | none => return none
    | some valueCopy =>
      match ← ChainTable.entryCreate (some keyCopy) (some valueCopy) with
      | none => return none
      | some newEntry => return some (keyCopy, valueCopy, newEntry)

/-- The copies of a put and its entry take seven allocations. -/
theorem copiesOf_takes (key : Key) {data : Data} {block : Block}
    (contents : data.contents = some block) :
    Takes 7 (copiesOf key data) none
      (some (key, Data.ofBlock block, Entry.ofPair (key, block))) := by
  -- One for the key, two for the data, and four for the entry.
  unfold copiesOf
  refine .bind 1 6 (strdup_takes key) rfl (.bind 2 4 (dataDup_takes contents) rfl ?_)
  exact .bind 4 0 (entryCreate_takes key (contents_ofBlock block)) rfl (.pure _ _)

/-- What a put does once it has its copies. -/
def storeCopies (table : Table) (key keyCopy : Key) (valueCopy : Data) (newEntry : Entry) :
    C ((Int × Table) × List (Key × Data)) := do
  let list ← table.listAt (hashCode key table.rows)
  let (result, list) ← ChainTable.listAdd list newEntry
  let table := table.setList (hashCode key table.rows) list
  if result = -1 then return ((-1, table), [(keyCopy, valueCopy)])
  if result = 0 then return ((0, { table with size := table.size + 1 }), [])
  return ((0, table), [])

/-- A put of valid data makes its copies, and then stores them. -/
theorem tablePutKeeping_eq (table : Table) (key : Key) {data : Data}
    (valid : ¬ ChainTable.dataValid (some data) = -1) :
    tablePutKeeping table key data = copiesOf key data >>= fun copies =>
      match copies with
      | none => pure ((-1, table), [])
      | some (keyCopy, valueCopy, newEntry) =>
        storeCopies table key keyCopy valueCopy newEntry := by
  -- Each copy may fail, which ends both sides in the same way.
  unfold tablePutKeeping copiesOf
  rw [if_neg valid]
  simp only [bind_assoc]
  refine congrArg _ (funext fun keyCopy => ?_)
  cases keyCopy with
  | none => rfl
  | some keyCopy =>
    simp only [bind_assoc]
    refine congrArg _ (funext fun valueCopy => ?_)
    cases valueCopy with
    | none => rfl
    | some valueCopy =>
      simp only [bind_assoc]
      refine congrArg _ (funext fun newEntry => ?_)
      cases newEntry <;> rfl

/-- The eighth allocation is the first one refused. -/
theorem take_eight_iff {outcomes : Mem} (given : (outcomes.take 7).all id) :
    outcomes.take 8 = List.replicate 7 true ++ [false] ↔
      ∃ rest, outcomes.drop 7 = false :: rest := by
  -- Seven allocations were given, so that only the eighth is left to compare.
  constructor
  · intro same
    have eighth := congrArg (List.drop 7) same
    rw [List.drop_take] at eighth
    cases dropped : outcomes.drop 7 with
    | nil => simp [dropped] at eighth
    | cons outcome rest =>
      rw [dropped] at eighth
      simp only [Nat.reduceSub, List.take_succ_cons, List.take_zero] at eighth
      cases eighth
      exact ⟨rest, rfl⟩
  · rintro ⟨rest, same⟩
    have long : 7 ≤ outcomes.length := by
      by_contra short
      rw [List.drop_eq_nil_of_le (by omega)] at same
      cases same
    rw [show 8 = 7 + 1 from rfl, List.take_add, same]
    refine congrArg (· ++ [false]) (List.eq_replicate_iff.mpr ⟨by simp [long], ?_⟩)
    exact fun outcome stored => List.all_eq_true.mp given outcome stored

/--
A put loses its copies when it has them all, for a new key whose node it is refused.

They are one copy of the key and one of the bytes of the data.
-/
theorem tablePutKeeping_loses_iff (inside : HashesInside rows key) {data : Data}
    {outcomes left : Mem} {value : (Int × Table) × List (Key × Data)}
    (ran : tablePutKeeping (.ofStore store) key data outcomes = .ok (value, left)) :
    (value.2 = [] ∨ ∃ block, data.contents = some block ∧ value.2 = [(key, .ofBlock block)]) ∧
      (value.2 ≠ [] ↔ ChainTable.dataValid (some data) = 0 ∧ store.lookup key = none ∧
        outcomes.take 8 = List.replicate 7 true ++ [false]) := by
  cases contents : data.contents with
  | none =>
    -- Invalid data is refused before anything is allocated.
    have refused := (dataValid_eq_neg_one data).mpr contents
    rw [tablePutKeeping, if_pos refused] at ran
    cases ran
    exact ⟨.inl rfl, by simp [refused]⟩
  | some block =>
    have valid := dataValid_of_contents contents
    rw [tablePutKeeping_eq _ key (by omega)] at ran
    have copied := copiesOf_takes key contents outcomes
    by_cases given : (outcomes.take 7).all id
    · -- With the copies there, the list decides whether an eighth allocation is asked for.
      rw [if_pos given] at copied
      rw [ChainTable.run_bind copied] at ran
      dsimp only [storeCopies] at ran
      rw [ofStore_rows, listAt_ofStore store inside, pure_bind] at ran
      rw [take_eight_iff given]
      by_cases absent : store.lookup key = none
      · rw [listAdd_ofPairs_asks key block absent (store.row_sorted key)] at ran
        generalize (List.drop 7 outcomes : Mem) = later at ran ⊢
        rcases later with _ | ⟨_ | _, rest⟩ <;> cases ran
        · exact ⟨.inl rfl, by simp⟩
        · -- The node is refused, and the two copies are in nobody's hands.
          exact ⟨.inr ⟨block, rfl, rfl⟩, by simp [valid, absent]⟩
        · exact ⟨.inl rfl, by simp⟩
      · -- A key that is there has its node, and the copies take the place of the old ones.
        rw [listAdd_present (store.row_sorted key) key block absent] at ran
        cases ran
        exact ⟨.inl rfl, by simp [absent]⟩
    · -- Without one of the copies the others are freed again.
      rw [if_neg given] at copied
      obtain ⟨between, gaveUp⟩ := copied
      rw [ChainTable.run_bind gaveUp] at ran
      cases ran
      refine ⟨.inl rfl, fun differs => absurd rfl differs, fun refused => absurd ?_ given⟩
      have seven := congrArg (List.take 7) refused.2.2
      rw [List.take_take] at seven
      rw [show min 7 8 = 7 from rfl] at seven
      rw [seven]
      rfl

/--
A put leaves copies behind exactly when it is refused the node for a new key.

That node is the last of its eight allocations, and what is left behind is one copy of the key
and one of the data. Whatever else happens, the table, the arguments and the rest of the memory
are all that there is afterwards.
-/
theorem put_leaves_copies_iff (inside : HashesInside rows key) (data : Data)
    {table keyBlock brought : Nat} {base : Address → Option Object} {memory : TableMemory}
    (held : objects.Has memory (tableAt table (.ofStore store) *
      (stringAt keyBlock key * argumentAt brought data) * .exactly base)) :
    ∃ (result : Int) (memory' : TableMemory) (next : Store rows) (lost : List (Key × Data)),
      tablePut (some table) (some ⟨keyBlock, 0⟩) (some brought) memory = some (result, memory') ∧
      objects.Has memory' (tableAt table (.ofStore next) *
        (stringAt keyBlock key * argumentAt brought data) * lostAt lost * .exactly base) ∧
      (lost = [] ∨ ∃ block, data.contents = some block ∧ lost = [(key, .ofBlock block)]) ∧
      (lost ≠ [] ↔ ChainTable.dataValid (some data) = 0 ∧ store.lookup key = none ∧
        memory.outcomes.take 8 = List.replicate 7 true ++ [false]) := by
  have own : ∀ other ∈ some key, HashesInside rows other := by
    rintro _ ⟨⟩
    exact inside
  -- The put on values says what is lost, and the memory follows it.
  obtain ⟨result, next, left, ran⟩ := tablePut_returns store own (some data) memory.outcomes
  obtain ⟨lost, kept⟩ := ran_of_fst (tablePutKeeping_fst _ key data) ran
  obtain ⟨_, memory', went, -, holds⟩ :=
    tablePut_follows keyBlock brought key data _ memory held _ left kept
  dsimp only [View.Has, Assertion.given] at holds
  rw [Assertion.any_mul] at holds
  obtain ⟨rfl, holds⟩ := holds
  exact ⟨_, memory', next, lost, went, holds, tablePutKeeping_loses_iff store inside kept⟩

/-- A table of one row with a caller's key and data, and memory for all but the node of the key. -/
theorem put_leaves_copies_iff_refused :
    let key : Key := ⟨[97], by decide⟩
    let data : Data := .ofBlock ⟨[1], by decide⟩
    ∃ table keyBlock brought memory result memory',
      tablePut (some table) (some ⟨keyBlock, 0⟩) (some brought) memory = some (result, memory') ∧
      ∃ next : Store 1, objects.Has memory' (tableAt table (.ofStore next) *
        (stringAt keyBlock key * argumentAt brought data) * lostAt [(key, data)] *
          .exactly (freshMemory []).objects) := by
  intro key data
  -- The table takes three allocations, and the put has seven of its eight.
  let outcomes := List.replicate 10 true ++ [false]
  have built : Follows objects 1
      (do
        let table ← tableCreate 1
        let keyBlock ← blocks.place (key.bytes ++ [0])
        let brought ← bringData data
        return (table, keyBlock, brought))
      (ChainTable.tableCreate 1)
      fun result held => nullable tableAt result.1 held *
        (stringAt result.2.1 key * argumentAt result.2.2 data) := by
    rw [← bind_pure (ChainTable.tableCreate 1)]
    refine .bind (tableCreate_follows 1) fun table held => Kind.place_next fun keyBlock =>
      bringData_next fun brought => .done (le_of_eq ?_)
    rw [stringAt]
    ac_rfl
  have ran : ChainTable.tableCreate 1 outcomes =
      .ok (some (.ofStore (.empty _ 1)), List.replicate 7 true ++ [false]) := by decide
  obtain ⟨⟨table, keyBlock, brought⟩, memory, -, same, holds⟩ :=
    built.adds_to_memory (freshMemory outcomes) ran
  cases table with
  | none =>
    dsimp only [View.Has, nullable, Assertion.given] at holds
    simp only [Assertion.any_mul] at holds
    exact holds.1.elim
  | some table =>
    obtain ⟨result, memory', next, lost, went, left, one, told⟩ :=
      put_leaves_copies_iff (.empty _ 1) (by decide) data holds
    have loses : lost ≠ [] :=
      told.mpr ⟨by decide, by decide, by rw [show memory.outcomes = _ from same]; decide⟩
    obtain ⟨block, found, rfl⟩ := one.resolve_left loses
    cases found
    exact ⟨table, keyBlock, brought, memory, result, memory', went, next, left⟩

end ChainTable.Lifetime
