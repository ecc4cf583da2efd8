import ChainTable.Local.Table

/-! Every table operation acts on the table as on a finite map spread over sorted rows. -/

namespace ChainTable

/-- The finite map a table of `count` rows stands for, placed as its hash places it. -/
abbrev Store (count : Nat) := Buckets Key Block (fun key => hashCode key count) count

/-- The hash of a key falls on one of the rows. -/
abbrev HashesInside (count : Nat) (key : Key) : Prop :=
  Buckets.InRange (fun key => hashCode key count) count key

/-- The table that holds exactly the pairs of a store. -/
def Table.ofStore {count : Nat} (store : Store count) : Table where
  size := store.size
  rows := count
  lists := store.rows.map EntryList.ofPairs
  length_lists := by rw [List.length_map, store.length_rows]

variable {count : Nat}

/-- The counter is the number of pairs in the store. -/
@[simp] theorem ofStore_size (store : Store count) : (Table.ofStore store).size = store.size := rfl

/-- The table has as many rows as the store. -/
@[simp] theorem ofStore_rows (store : Store count) : (Table.ofStore store).rows = count := rfl

/-- The counter is zero exactly if the store has no pairs. -/
theorem ofStore_size_eq_zero (store : Store count) :
    (Table.ofStore store).size = 0 ↔ store.size = 0 := by
  -- The counter is the size as an integer.
  rw [ofStore_size]
  omega

/-- The list of a key's row holds the pairs of that row. -/
theorem listAt_ofStore (store : Store count) {key : Key} (inside : HashesInside count key) :
    (Table.ofStore store).listAt (hashCode key count) = pure (.ofPairs (store.row key)) := by
  -- The row of a key that hashes inside is one of the rows of the store.
  have found := store.getElem?_row inside
  simp only [Table.listAt, if_pos inside.1, Table.ofStore, List.getElem?_map, found,
    Option.map_some]

/-- A row replaced in the table is a row replaced in the store, up to the counter. -/
theorem setList_ofStore (store : Store count) {key : Key} {replacement : List (Key × Block)}
    (sorted : OrderedAssoc.Sorted replacement)
    (placed : ∀ pair ∈ replacement, hashCode pair.1 count = ((hashCode key count).toNat : Int)) :
    ((Table.ofStore store).setList (hashCode key count) (.ofPairs replacement)).lists =
      (Table.ofStore (store.setRow key replacement sorted placed)).lists := by
  -- Both replace the same position, one before and one after its row becomes a list.
  simp only [Table.setList, Table.ofStore, Buckets.setRow, List.map_set]

/-- Tables agree when their counters and rows do. -/
theorem Table.ext {left right : Table} (size : left.size = right.size)
    (rows : left.rows = right.rows) (lists : left.lists = right.lists) : left = right := by
  cases left; cases right; cases size; cases rows; cases lists; rfl

/-- Putting a key's row back where it came from changes nothing. -/
theorem setList_same (store : Store count) {key : Key} (inside : HashesInside count key) :
    (Table.ofStore store).setList (hashCode key count) (.ofPairs (store.row key)) =
      .ofStore store := by
  -- The position is there, and a list keeps its value when that is set again.
  obtain ⟨bound, found⟩ := List.getElem?_eq_some_iff.mp (store.getElem?_row inside)
  refine Table.ext rfl rfl ?_
  simp only [Table.setList, Table.ofStore, ← List.map_set, ← found, List.set_getElem_self]

/-- Creating all rows gives empty ones, or nothing. -/
theorem createLists_attempts (count : Nat) :
    Attempts (createLists count) none
      (some ⟨List.replicate count (.ofPairs []), List.length_replicate⟩) := by
  -- The rows are created one after another, and the first failure ends the loop.
  induction count with
  | zero => exact .pure _ _
  | succ count ih =>
    unfold createLists
    refine .bind (.bind .malloc rfl (.pure _ _)) rfl ?_
    refine .bind ih rfl ?_
    exact .pure _ _

/-- Creating a table of at least one row gives the table without entries, or nothing. -/
theorem tableCreate_attempts (positive : 0 < count) :
    Attempts (tableCreate count) none (some (.ofStore (.empty _ count))) := by
  -- The table, its array and its rows are allocated in turn.
  unfold tableCreate
  rw [dif_neg (by omega)]
  refine .bind .malloc rfl (.bind .malloc rfl ?_)
  refine .bind (createLists_attempts _) rfl ?_
  -- The rows are all empty, so they hold no pair to be counted.
  have same : ∀ length, Table.mk 0 count (List.replicate (count : Int).toNat (.ofPairs [])) length =
      .ofStore (.empty _ count) := fun length => by
    apply Table.ext <;> simp [Table.ofStore, Buckets.empty, Buckets.size, Buckets.pairs]
  simp only [same]
  exact .pure _ _

/-- A put without a key or with invalid data is refused at once. -/
theorem tablePut_refused (table : Table) {key : Option Key} {value : Option Data}
    (invalid : key = none ∨ dataValid value = -1) :
    tablePut table key value = pure (-1, table) := by
  -- Both checks come before anything is allocated.
  unfold tablePut
  cases key with
  | none => rfl
  | some key =>
    rcases invalid with missing | refused
    · cases missing
    · simp only [refused, if_true]

/-- A put of valid data stores it, or leaves the table as it was when memory runs out. -/
theorem tablePut_attempts (store : Store count) {key : Key} {data : Data} {block : Block}
    (contents : data.contents = some block) (inside : HashesInside count key) :
    Attempts (tablePut (.ofStore store) (some key) (some data)) (-1, .ofStore store)
      (0, .ofStore (store.insert key block inside)) := by
  -- Valid data passes the check, and then the key, the value and the entry are copied.
  have valid := dataValid_of_contents contents
  have sorted := store.row_sorted key
  have lists := setList_ofStore store (sorted.insert key block) (store.insert_placed block inside)
  have counted := store.size_insert block inside
  unfold tablePut
  simp only [valid]
  refine .bind (strdup_attempts key) rfl ?_
  refine .bind (dataDup_attempts contents) rfl ?_
  refine .bind (entryCreate_attempts key (contents_ofBlock block)) rfl ?_
  simp only [ofStore_rows, listAt_ofStore store inside, pure_bind]
  by_cases present : List.lookup key (store.row key) = none
  · -- A new key takes a new node, and the counter follows.
    refine .bind (listAdd_absent key block present sorted) ?_ ?_
    · simp [setList_same store inside]
    · have grown : ({ (Table.ofStore store).setList (hashCode key count)
          (.ofPairs (OrderedAssoc.insert key block (store.row key))) with
          size := (Table.ofStore store).size + 1 } : Table) =
          .ofStore (store.insert key block inside) := by
        refine Table.ext ?_ rfl lists
        rw [if_pos (show store.lookup key = none from present)] at counted
        simp [counted]
      simp only [show ¬ ((0 : Int) = -1) by omega, if_true, if_false]
      rw [show ((Table.ofStore store).setList (hashCode key count)
        (.ofPairs (OrderedAssoc.insert key block (store.row key)))).size =
        (Table.ofStore store).size from rfl, grown]
      exact .pure _ _
  · -- A stored key keeps its node, and the counter stays as it is.
    rw [listAdd_present sorted key block present]
    refine .bind_pure ?_
    have same : (Table.ofStore store).setList (hashCode key count)
        (.ofPairs (OrderedAssoc.insert key block (store.row key))) =
        .ofStore (store.insert key block inside) := by
      refine Table.ext ?_ rfl lists
      rw [if_neg (show store.lookup key ≠ none from present)] at counted
      simp [Table.setList, counted]
    simp only [show ¬ ((1 : Int) = -1) by omega, show ¬ ((1 : Int) = 0) by omega, if_false, same]
    exact .pure _ _

/-- A removal erases the key, and says whether it was stored. -/
theorem tableRemove_spec (store : Store count) {key : Key} (inside : HashesInside count key) :
    tableRemove (.ofStore store) (some key) =
      if store.lookup key = none then pure (1, .ofStore store)
      else pure (0, .ofStore (store.erase key inside)) := by
  -- The row of the key is there, and the removal is that of its list.
  have lists := setList_ofStore store ((store.row_sorted key).erase key)
    fun pair member => store.row_placed inside pair (OrderedAssoc.mem_erase member)
  have counted := store.size_erase inside
  unfold tableRemove
  simp only [ofStore_rows, ofStore_size_eq_zero]
  by_cases empty : store.size = 0
  · -- A table without entries is answered before its rows are looked at.
    rw [if_pos empty, if_pos (store.lookup_eq_none_of_size empty key)]
  · simp only [if_neg empty, listAt_ofStore store inside, pure_bind, listRemove_spec]
    by_cases present : List.lookup key (store.row key) = none
    · -- The list has no such key, and is put back as it was.
      rw [if_pos present, if_pos (show store.lookup key = none from present)]
      simp [setList_same store inside]
    · -- The list loses the pair, and the counter follows.
      rw [if_neg present, if_neg (show store.lookup key ≠ none from present)]
      have shrunk : ({ (Table.ofStore store).setList (hashCode key count)
          (.ofPairs (OrderedAssoc.erase key (store.row key))) with
          size := (Table.ofStore store).size - 1 } : Table) =
          .ofStore (store.erase key inside) := by
        refine Table.ext ?_ rfl lists
        rw [if_neg (show store.lookup key ≠ none from present)] at counted
        change (Table.ofStore store).size - 1 = _
        rw [ofStore_size, ofStore_size, counted]
        omega
      simp only [pure_bind, show ¬ ((0 : Int) = -1) by omega, if_true, if_false]
      exact congrArg (fun table => pure (0, table)) shrunk

/-- Reading the row of a key that hashes outside leaves the array of lists. -/
theorem listAt_outside (store : Store count) {key : Key} (outside : ¬ HashesInside count key) :
    (Table.ofStore store).listAt (hashCode key count) = throw .outOfBounds := by
  unfold Table.listAt
  split
  · -- The row is not negative, so it lies past the last one.
    rename_i positive
    have past : (Table.ofStore store).lists[(hashCode key count).toNat]? = none := by
      refine List.getElem?_eq_none ?_
      have length := (Table.ofStore store).length_lists
      rw [ofStore_rows] at length
      have : ¬ (0 ≤ hashCode key count ∧ hashCode key count < count) := outside
      omega
    rw [past]
  · -- A negative row lies in front of the array.
    rfl

/-- With memory given, a put under a key that hashes outside leaves the array of lists. -/
theorem tablePut_outside (store : Store count) {key : Key} {data : Data} {block : Block}
    (contents : data.contents = some block) (outside : ¬ HashesInside count key) :
    tablePut (.ofStore store) (some key) (some data) [] = .error .outOfBounds := by
  -- The data is valid and memory is given, so nothing ends the put before it reads the row.
  have valid := dataValid_of_contents contents
  unfold tablePut
  simp only [valid]
  -- The copies are made before the row is looked for.
  change (strdup key >>= _) [] = _
  rw [run_bind (strdup_attempts key).succeeds]
  change (dataDup (some data) >>= _) [] = _
  rw [run_bind (dataDup_attempts contents).succeeds]
  change (entryCreate (some key) (some (Data.ofBlock block)) >>= _) [] = _
  rw [run_bind (entryCreate_attempts key (contents_ofBlock block)).succeeds]
  simp only [ofStore_rows, listAt_outside store outside]
  rfl

/-- A removal of a key that hashes outside leaves the array of lists, unless nothing is stored. -/
theorem tableRemove_outside (store : Store count) {key : Key} {mem : Mem}
    (outside : ¬ HashesInside count key) :
    tableRemove (.ofStore store) (some key) mem =
      if store.size = 0 then .ok ((1, .ofStore store), mem) else .error .outOfBounds := by
  unfold tableRemove
  simp only [ofStore_rows, ofStore_size_eq_zero]
  by_cases empty : store.size = 0
  · rw [if_pos empty, if_pos empty]
    rfl
  · -- The row is read before anything else.
    simp only [if_neg empty, listAt_outside store outside]
    rfl

/-- A lookup of a key that hashes outside leaves the array of lists, unless nothing is stored. -/
theorem tableGet_outside (store : Store count) {key : Key} {mem : Mem}
    (outside : ¬ HashesInside count key) :
    tableGet (.ofStore store) (some key) mem =
      if store.size = 0 then .ok (none, mem) else .error .outOfBounds := by
  unfold tableGet
  simp only [ofStore_rows, ofStore_size_eq_zero]
  by_cases empty : store.size = 0
  · rw [if_pos empty, if_pos empty]
    rfl
  · -- The row is read before anything else.
    simp only [if_neg empty, listAt_outside store outside]
    rfl

/-- With memory given, a lookup answers with the block stored under the key. -/
theorem tableGet_spec (store : Store count) {key : Key} (inside : HashesInside count key) :
    tableGet (.ofStore store) (some key) [] =
      .ok ((store.lookup key).map Data.ofBlock, []) := by
  -- The row of the key is there, and the lookup is that of its list.
  unfold tableGet
  simp only [ofStore_rows, ofStore_size_eq_zero]
  by_cases empty : store.size = 0
  · rw [if_pos empty, store.lookup_eq_none_of_size empty key]
    rfl
  · simp only [if_neg empty, listAt_ofStore store inside, pure_bind, listGet_spec]
    change _ = Except.ok ((List.lookup key (store.row key)).map Data.ofBlock, [])
    cases List.lookup key (store.row key) with
    | none => rfl
    -- The value found is copied, for which memory is given.
    | some block => exact (dataDup_attempts (contents_ofBlock block)).succeeds

/-- A copy of the data stored under the key is given, unless memory runs out. -/
theorem tableGet_attempts (store : Store count) {key : Key} (inside : HashesInside count key) :
    Attempts (tableGet (.ofStore store) (some key)) none
      ((store.lookup key).map Data.ofBlock) := by
  -- In an empty table nothing is looked up, and otherwise what is found is copied.
  unfold tableGet
  simp only [ofStore_rows, ofStore_size_eq_zero]
  by_cases empty : store.size = 0
  · rw [if_pos empty, store.lookup_eq_none_of_size empty key]
    exact .pure _ _
  · simp only [if_neg empty, listAt_ofStore store inside, pure_bind, listGet_spec]
    change Attempts _ none ((List.lookup key (store.row key)).map _)
    cases List.lookup key (store.row key) with
    | none => exact .pure _ _
    | some block => exact dataDup_attempts (contents_ofBlock block)

/-- A copy of the pair stored under the key is given, unless memory runs out. -/
theorem tableGetEntry_attempts (store : Store count) {key : Key} (inside : HashesInside count key) :
    Attempts (tableGetEntry (.ofStore store) (some key)) none
      ((store.lookup key).map fun block => .ofPair (key, block)) := by
  -- This is the lookup of the data, with a copy of the whole entry at the end.
  unfold tableGetEntry
  simp only [ofStore_rows, ofStore_size_eq_zero]
  by_cases empty : store.size = 0
  · rw [if_pos empty, store.lookup_eq_none_of_size empty key]
    exact .pure _ _
  · simp only [if_neg empty, listAt_ofStore store inside, pure_bind, listGet_spec]
    change Attempts _ none ((List.lookup key (store.row key)).map _)
    cases List.lookup key (store.row key) with
    | none => exact .pure _ _
    | some block => exact entryDup_attempts (key, block)

/-- The keys of one row are copied up to the NULL that ends them. -/
theorem copyRowKeys_unchecked (filled keys : List Key) (free : Nat) :
    Unchecked
      (copyRowKeys (filled.map some ++ List.replicate (keys.length + free) none) filled.length
        (keys.map some ++ [none]))
      ((filled ++ keys).map some ++ List.replicate free none, (filled ++ keys).length) := by
  -- Each key fills the slot after those filled before it, until NULL ends the row.
  induction keys generalizing filled with
  | nil => simpa [copyRowKeys] using Unchecked.pure _
  | cons key rest ih =>
    have slots : (key :: rest).length + free = (rest.length + free) + 1 := by
      simp only [List.length_cons]
      omega
    have walked := ih (filled ++ [key])
    simp only [List.length_append, List.length_cons, List.length_nil, List.append_assoc] at walked
    simp only [List.map_cons, List.cons_append, copyRowKeys, slots, storeAt_filled, pure_bind]
    refine .bind .malloc ?_
    simpa [Nat.add_comm 1] using walked

/-- The keys of all rows are copied one row after another. -/
theorem copyTableKeys_unchecked (filled : List Key) (rows : List (List (Key × Block)))
    (free : Nat) :
    Unchecked
      (copyTableKeys (filled.map some ++ List.replicate (rows.flatten.length + free) none)
        filled.length (rows.map EntryList.ofPairs))
      ((filled ++ rows.flatten.map Prod.fst).map some ++ List.replicate free none) := by
  -- Each row fills as many slots as it has pairs, and a row without pairs none.
  induction rows generalizing filled with
  | nil => simpa [copyTableKeys] using Unchecked.pure _
  | cons row rest ih =>
    have slots : (row :: rest).flatten.length + free =
        (row.map Prod.fst).length + (rest.flatten.length + free) := by
      simp only [List.flatten_cons, List.length_append, List.length_map]
      omega
    simp only [List.map_cons, copyTableKeys, slots]
    refine .bind (listGetKeys_unchecked row) ?_
    by_cases empty : row = []
    · subst empty
      simpa using ih filled
    · simp only [if_neg empty]
      refine .bind
        (copyRowKeys_unchecked filled (row.map Prod.fst) (rest.flatten.length + free)) ?_
      simpa using ih (filled ++ row.map Prod.fst)

/-- The loop over the rows fills the array of `table_get_keys` but for the NULL that ends it. -/
theorem copyTableKeys_store (store : Store count) :
    Unchecked
      (copyTableKeys (List.replicate (tableSize (.ofStore store) + 1).toNat none) 0
        (Table.ofStore store).lists)
      ((store.pairs.map Prod.fst).map some ++ [none]) := by
  -- The array has a slot for every pair of the store, and one for NULL.
  have slots : (tableSize (.ofStore store) + 1).toNat = store.rows.flatten.length + 1 := by
    rw [tableSize, ofStore_size, Buckets.size, Buckets.pairs]
    omega
  rw [slots]
  exact copyTableKeys_unchecked [] store.rows 1

/-- With memory given, the keys of a table are all its keys followed by NULL. -/
theorem tableGetKeys_spec (store : Store count) :
    tableGetKeys (.ofStore store) [] =
      .ok (if store.size = 0 then none
        else some ((store.pairs.map Prod.fst).map some ++ [none]), []) := by
  -- For an empty table no array is allocated, and otherwise all rows are copied to it.
  unfold tableGetKeys
  simp only [ofStore_size_eq_zero]
  by_cases empty : store.size = 0
  · rw [if_pos empty, if_pos empty]
    rfl
  · rw [if_neg empty, if_neg empty, run_bind malloc_nil]
    simp only [Bool.not_true, Bool.false_eq_true, if_false]
    rw [run_bind (copyTableKeys_store store).succeeds]
    rfl

/-- With memory given, looking up stored keys gathers their entries in order. -/
theorem gatherEntries_spec (store : Store count) (inside : ∀ pair ∈ store.pairs,
    HashesInside count pair.1) (gathered : List Entry) {pairs : List (Key × Block)}
    (stored : ∀ pair ∈ pairs, pair ∈ store.pairs) :
    gatherEntries (.ofStore store) gathered ((pairs.map Prod.fst).map some ++ [none]) [] =
      .ok (some (gathered ++ pairs.map Entry.ofPair), []) := by
  -- Each key is stored, so that its entry is found and joins those gathered before.
  induction pairs generalizing gathered with
  | nil => simp [gatherEntries, run_pure]
  | cons pair rest ih =>
    have member := stored pair (by simp)
    have found := (store.mem_pairs_iff_lookup pair.1 pair.2).mp member
    have looked := (tableGetEntry_attempts store (inside pair member)).succeeds
    rw [found] at looked
    have walked := ih (gathered ++ [.ofPair pair]) fun other later => stored other (by simp [later])
    simp only [List.map_cons, List.cons_append, gatherEntries]
    rw [run_bind looked]
    simp only [Option.map_some]
    rw [run_bind malloc_nil]
    simpa using walked

/-- Every stored key hashes inside, for its row exists. -/
theorem Store.hashesInside (store : Store count) :
    ∀ pair ∈ store.pairs, HashesInside count pair.1 := by
  -- A stored pair is found by its key, which therefore has a row.
  intro pair member
  exact store.inRange_of_lookup ((store.mem_pairs_iff_lookup pair.1 pair.2).mp member)

/-- With memory given, all entries are the stored pairs, row after row. -/
theorem getAllEntries_spec (store : Store count) :
    getAllEntries (.ofStore store) [] =
      .ok (if store.size = 0 then none
        else some (store.pairs.map Entry.ofPair, store.size), []) := by
  -- The keys listed are stored, so each of them has its entry.
  unfold getAllEntries
  rw [run_bind (tableGetKeys_spec store)]
  by_cases empty : store.size = 0
  · simp [empty, run_pure]
  · have gathered := gatherEntries_spec store store.hashesInside [] fun pair member => member
    simp only [empty, if_false]
    rw [run_bind gathered]
    simp [run_pure, Buckets.size]

end ChainTable
