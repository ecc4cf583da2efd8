import ChainTable.Local.TableLaws

/-! A table as the finite map it holds, whatever its number of rows. -/

namespace ChainTable

/-- A finite map from keys to blocks, which is what a table is for. -/
abbrev Contents := Finmap fun _ : Key => Block

/-- A table holds a finite map when its rows spread exactly the pairs of that map. -/
def Table.Holds (table : Table) (contents : Contents) : Prop :=
  ∃ (count : Nat) (store : Store count),
    table = .ofStore store ∧ ∀ key, store.lookup key = contents.lookup key

/-- The row a key is hashed to is one of the table's rows. -/
def Table.Inside (table : Table) (key : Key) : Prop :=
  0 ≤ hashCode key table.rows ∧ hashCode key table.rows < table.rows

instance (table : Table) (key : Key) : Decidable (table.Inside key) :=
  inferInstanceAs (Decidable (_ ∧ _))

/-- What a finite map finds after a pair was put into it. -/
theorem contents_insert (contents : Contents) (key other : Key) (block : Block) :
    (contents.insert key block).lookup other =
      if other = key then some block else contents.lookup other := by
  -- Only the key put is looked up to the new block.
  split
  · rename_i same
    rw [same, Finmap.lookup_insert]
  · rename_i differs
    exact Finmap.lookup_insert_of_ne contents differs

/-- What a finite map finds after a key was taken out of it. -/
theorem contents_erase (contents : Contents) (key other : Key) :
    (contents.erase key).lookup other = if other = key then none else contents.lookup other := by
  -- Only the key taken out is looked up to nothing.
  split
  · rename_i same
    rw [same, Finmap.lookup_erase]
  · rename_i differs
    exact Finmap.lookup_erase_ne differs

/-- Taking out a key that is not there changes nothing. -/
theorem contents_erase_absent {contents : Contents} {key : Key}
    (absent : contents.lookup key = none) : contents.erase key = contents := by
  -- A key that is not there is looked up to nothing before and after.
  refine Finmap.ext_lookup fun other => ?_
  rw [contents_erase]
  split
  · rename_i same
    rw [same, absent]
  · rfl

namespace Table.Holds

variable {table table' : Table} {contents : Contents} {mem mem' : Mem}

/-- A table holds one finite map only. -/
theorem unique {other : Contents} (holds : table.Holds contents) (alsoHolds : table.Holds other) :
    contents = other := by
  obtain ⟨count, store, rfl, agree⟩ := holds
  obtain ⟨count', store', same, agree'⟩ := alsoHolds
  -- Both stores have the rows of the one table, so they find the same blocks.
  have counts : (count : Int) = count' := congrArg Table.rows same
  obtain rfl : count = count' := by omega
  have lists : store.rows.map EntryList.ofPairs = store'.rows.map EntryList.ofPairs :=
    congrArg Table.lists same
  have rows : store.rows = store'.rows := List.map_injective_iff.mpr ofPairs_injective lists
  refine Finmap.ext_lookup fun key => ?_
  rw [← agree, ← agree', Buckets.ext_rows rows]

/-- A table of one row that has no entries holds nothing. -/
theorem empty : (⟨0, 1, [⟨0, []⟩], rfl⟩ : Table).Holds ∅ :=
  ⟨1, .empty _ 1, rfl, Buckets.lookup_empty⟩

/-- A table just created holds nothing. -/
theorem create {count : Nat} (positive : 0 < count) :
    ∃ table : Table, table.Holds ∅ ∧ table.rows = count ∧
      Attempts (tableCreate count) none (some table) :=
  ⟨_, ⟨count, .empty _ count, rfl, Buckets.lookup_empty⟩, rfl, tableCreate_attempts positive⟩

/-- A put of valid data puts its pair into the map, or leaves the table as it was. -/
theorem put (holds : table.Holds contents) {key : Key} {data : Data} {block : Block}
    (found : data.contents = some block) (inside : table.Inside key) :
    ∃ after, after.Holds (contents.insert key block) ∧ after.rows = table.rows ∧
      Attempts (tablePut table (some key) (some data)) (-1, table) (0, after) := by
  -- The store takes the pair in, and its lookups follow those of the map.
  obtain ⟨count, store, rfl, agree⟩ := holds
  have inRange : HashesInside count key := inside
  refine ⟨_, ⟨count, store.insert key block inRange, rfl, fun other => ?_⟩, rfl,
    tablePut_attempts store found inRange⟩
  rw [Buckets.lookup_insert, contents_insert, agree]

/-- A removal takes its key out of the map, and says whether it was there. -/
theorem remove (holds : table.Holds contents) {key : Key} (inside : table.Inside key) :
    ∃ after, after.Holds (contents.erase key) ∧ after.rows = table.rows ∧
      tableRemove table (some key) =
        pure (if contents.lookup key = none then 1 else 0, after) := by
  -- The store loses the pair, and its lookups follow those of the map.
  obtain ⟨count, store, rfl, agree⟩ := holds
  have inRange : HashesInside count key := inside
  rw [tableRemove_spec store inRange, agree]
  split
  · -- Nothing was stored, so the map without the key is the map itself.
    rename_i absent
    exact ⟨_, ⟨count, store, rfl, by rwa [contents_erase_absent absent]⟩, rfl, rfl⟩
  · refine ⟨_, ⟨count, store.erase key inRange, rfl, fun other => ?_⟩, rfl, rfl⟩
    rw [Buckets.lookup_erase, contents_erase, agree]

/-- A put that ran found a row for its key. -/
theorem inside_of_put_ran (holds : table.Holds contents) {key : Key} {data : Data} {block : Block}
    {result : Int × Table} (found : data.contents = some block)
    (ran : tablePut table (some key) (some data) [] = .ok (result, mem)) : table.Inside key := by
  -- Without a row for the key, the put would have left the array of rows.
  by_contra outside
  obtain ⟨count, store, rfl, -⟩ := holds
  rw [tablePut_outside store found outside] at ran
  cases ran

/-- A put that ran with memory given stored its data. -/
theorem put_ran (holds : table.Holds contents) {key : Key} {data : Data} {block : Block}
    {result : Int} {after : Table} (found : data.contents = some block)
    (ran : tablePut table (some key) (some data) [] = .ok ((result, after), mem)) :
    result = 0 ∧ mem = [] ∧ after.Holds (contents.insert key block) := by
  -- The put found its row, and with memory given it went through.
  have inside := holds.inside_of_put_ran found ran
  obtain ⟨stored, holdsAfter, -, attempts⟩ := holds.put found inside
  rw [attempts.succeeds] at ran
  cases ran
  exact ⟨rfl, rfl, holdsAfter⟩

/-- A removal that ran took its key out, and said whether it was there. -/
theorem remove_ran (holds : table.Holds contents) {key : Key} {result : Int} {after : Table}
    (ran : tableRemove table (some key) mem = .ok ((result, after), mem')) :
    result = (if contents.lookup key = none then 1 else 0) ∧ mem' = mem ∧
      after.Holds (contents.erase key) := by
  -- A key with a row is removed as specified.
  by_cases inside : table.Inside key
  · obtain ⟨removed, holdsAfter, -, spec⟩ := holds.remove inside
    rw [spec] at ran
    cases ran
    exact ⟨rfl, rfl, holdsAfter⟩
  · -- Without a row for the key, only the table without entries answers.
    obtain ⟨count, store, rfl, agree⟩ := holds
    rw [tableRemove_outside store inside] at ran
    split at ran
    · rename_i noPairs
      cases ran
      have absent : contents.lookup key = none := by
        rw [← agree]
        exact store.lookup_eq_none_of_size noPairs key
      exact ⟨by rw [if_pos absent], rfl,
        ⟨count, store, rfl, by rwa [contents_erase_absent absent]⟩⟩
    · cases ran

/-- With memory given, a lookup answers with what the map has under the key. -/
theorem get (holds : table.Holds contents) {key : Key} (inside : table.Inside key) :
    tableGet table (some key) [] = .ok ((contents.lookup key).map Data.ofBlock, []) := by
  -- The store answers, and finds what the map finds.
  obtain ⟨count, store, rfl, agree⟩ := holds
  rw [tableGet_spec store inside, agree]

/-- A key that the map has is hashed to one of the table's rows. -/
theorem inside (holds : table.Holds contents) {key : Key} {block : Block}
    (found : contents.lookup key = some block) : table.Inside key := by
  -- What is found is stored in the row of its key.
  obtain ⟨count, store, rfl, agree⟩ := holds
  rw [← agree] at found
  exact store.inRange_of_lookup found

/-- A lookup that ran answered with what the map has under the key. -/
theorem get_ran (holds : table.Holds contents) {key : Key} {answer : Option Data}
    (ran : tableGet table (some key) [] = .ok (answer, mem)) :
    answer = (contents.lookup key).map Data.ofBlock := by
  -- A key with a row is looked up as specified.
  by_cases inside : table.Inside key
  · rw [holds.get inside] at ran
    cases ran
    rfl
  · -- Without a row for the key, only the table without entries answers.
    obtain ⟨count, store, rfl, agree⟩ := holds
    rw [tableGet_outside store inside] at ran
    split at ran
    · rename_i noPairs
      cases ran
      rw [← agree, store.lookup_eq_none_of_size noPairs key]
      rfl
    · cases ran

/-- The counter is the number of keys in the map. -/
theorem size (holds : table.Holds contents) : tableSize table = contents.keys.card := by
  -- The counter is the number of pairs in the store, which has each key of the map once.
  obtain ⟨count, store, rfl, agree⟩ := holds
  rw [tableSize, ofStore_size, store.size_eq_card contents agree]

/-- With memory given, the keys are those of the map, each once, or NULL when it is empty. -/
theorem getKeys (holds : table.Holds contents) :
    ∃ keys : List Key, keys.Nodup ∧ (∀ key, key ∈ keys ↔ key ∈ contents) ∧
      tableGetKeys table [] =
        .ok (if keys = [] then none else some (keys.map some ++ [none]), []) := by
  -- The keys listed are those of the pairs in the store.
  obtain ⟨count, store, rfl, agree⟩ := holds
  refine ⟨store.pairs.map Prod.fst, store.nodup_keys, fun key => ?_, ?_⟩
  · rw [Finmap.mem_iff, List.mem_map]
    constructor
    · rintro ⟨⟨key, block⟩, member, rfl⟩
      exact ⟨block, agree key ▸ (store.mem_pairs_iff_lookup key block).mp member⟩
    · rintro ⟨block, found⟩
      exact ⟨(key, block), (store.mem_pairs_iff_lookup key block).mpr (agree key ▸ found), rfl⟩
  · rw [tableGetKeys_spec]
    simp only [Buckets.size, List.length_eq_zero_iff, List.map_eq_nil_iff]

/-- With memory given, the entries are the pairs of the map, each once, or NULL when it is empty. -/
theorem allEntries (holds : table.Holds contents) :
    ∃ pairs : List (Key × Block), (pairs.map Prod.fst).Nodup ∧
      (∀ key block, (key, block) ∈ pairs ↔ contents.lookup key = some block) ∧
      getAllEntries table [] =
        .ok (if pairs = [] then none else some (pairs.map Entry.ofPair, pairs.length), []) := by
  -- The entries listed are those of the pairs in the store.
  obtain ⟨count, store, rfl, agree⟩ := holds
  refine ⟨store.pairs, store.nodup_keys, fun key block => ?_, ?_⟩
  · rw [store.mem_pairs_iff_lookup, agree]
  · rw [getAllEntries_spec]
    simp only [Buckets.size, List.length_eq_zero_iff]

end Table.Holds

end ChainTable
