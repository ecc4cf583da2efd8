import ChainTable.Local.TableHistory

/-! What a reachable table lists: each of its keys once, and each entry in the order of the keys. -/

namespace ChainTable

variable {count : Nat}

/-- A key of a store is one that a lookup in its table finds. -/
theorem mem_keys_iff_get (store : Store count) {key : Key} (nonempty : store.size ≠ 0) :
    key ∈ store.pairs.map Prod.fst ↔
      ∃ data, tableGet (.ofStore store) (some key) [] = .ok (some data, []) := by
  -- A key is listed if it is stored, and it is found if it is stored.
  constructor
  · intro member
    obtain ⟨⟨key, block⟩, stored, rfl⟩ := List.mem_map.mp member
    have found := (store.mem_pairs_iff_lookup key block).mp stored
    refine ⟨.ofBlock block, ?_⟩
    rw [tableGet_spec store (store.hashesInside _ stored), found, Option.map_some]
  · rintro ⟨data, answered⟩
    by_cases inside : HashesInside count key
    · rw [tableGet_spec store inside] at answered
      cases found : store.lookup key with
      | none =>
        rw [found] at answered
        cases answered
      | some block =>
        exact List.mem_map.mpr ⟨(key, block), (store.mem_pairs_iff_lookup key block).mpr found, rfl⟩
    · -- A key without a row is not answered at all.
      rw [tableGet_outside store inside, if_neg nonempty] at answered
      cases answered

/-- The entry of a pair of a store holds what a lookup in its table answers. -/
theorem get_of_mem_pairs (store : Store count) {pair : Key × Block} (stored : pair ∈ store.pairs) :
    tableGet (.ofStore store) (Entry.ofPair pair).key [] =
      .ok ((Entry.ofPair pair).value, []) := by
  -- The pair is the only one with its key, so the lookup finds it.
  have found := (store.mem_pairs_iff_lookup pair.1 pair.2).mp stored
  simp only [Entry.ofPair]
  rw [tableGet_spec store (store.hashesInside pair stored), found, Option.map_some]

/--
The keys of a reachable table are listed once each, and its entries in the same order.

No listing runs into undefined behaviour, so no slot past the end of the array of keys is written.
-/
theorem reachable_table_listing {rows : Nat} (positive : 1 ≤ rows) {table : Table}
    (reached : TableReachable rows table) (nonempty : tableSize table ≠ 0) :
    ∃ (keys : List Key) (entries : List Entry), (keys.length : Int) = tableSize table ∧
      tableGetKeys table [] = .ok (some (keys.map some ++ [none]), []) ∧ keys.Nodup ∧
      (∀ key, key ∈ keys ↔ ∃ data, tableGet table (some key) [] = .ok (some data, [])) ∧
      getAllEntries table [] = .ok (some (entries, keys.length), []) ∧
      entries.map Entry.key = keys.map some ∧
      ∀ entry ∈ entries, tableGet table entry.key [] = .ok (entry.value, []) := by
  obtain ⟨store, rfl⟩ := reached.exists_store positive
  have filled : store.size ≠ 0 := by
    rw [tableSize, ofStore_size] at nonempty
    omega
  have length : (store.pairs.map Prod.fst).length = store.size := List.length_map _
  -- Both lists are made of the pairs of the store, row after row.
  refine ⟨store.pairs.map Prod.fst, store.pairs.map Entry.ofPair, ?_, ?_, store.nodup_keys,
    fun key => mem_keys_iff_get store filled, ?_, ?_, ?_⟩
  · rw [length, tableSize, ofStore_size]
  · rw [tableGetKeys_spec, if_neg filled]
  · rw [getAllEntries_spec, if_neg filled, length]
  · simp [Entry.ofPair]
  · intro entry member
    obtain ⟨pair, stored, rfl⟩ := List.mem_map.mp member
    exact get_of_mem_pairs store stored

/-- Two keys of one row, put in descending order, are listed in ascending order. -/
theorem reachable_table_listing_two :
    let first : Key := ⟨[97], by decide⟩
    let second : Key := ⟨[98], by decide⟩
    ∃ (table : Table) (keys : List Key), table.lists.length = 1 ∧ (keys.length : Int) = 2 ∧
      tableGetKeys table [] = .ok (some (keys.map some ++ [none]), []) ∧
      tableGetKeys table [] = .ok (some [some first, some second, none], []) := by
  -- The key put last belongs in front of the other one.
  intro first second
  let one : Block := ⟨[1], by decide⟩
  have inside : ∀ key ∈ [first, second], HashesInside 1 key := by decide
  have created : tableCreate 1 [] = .ok (some ⟨0, 1, [⟨0, []⟩], rfl⟩, []) := rfl
  have putSecond : tablePut ⟨0, 1, [⟨0, []⟩], rfl⟩ (some second) (some (.ofBlock one)) [] =
      .ok ((0, ⟨1, 1, [⟨1, [.ofPair (second, one)]⟩], rfl⟩), []) := rfl
  have putFirst : tablePut ⟨1, 1, [⟨1, [.ofPair (second, one)]⟩], rfl⟩ (some first)
      (some (.ofBlock one)) [] =
      .ok ((0, ⟨2, 1, [⟨2, [.ofPair (first, one), .ofPair (second, one)]⟩], rfl⟩), []) := rfl
  have reached : TableReachable 1
      ⟨2, 1, [⟨2, [.ofPair (first, one), .ofPair (second, one)]⟩], rfl⟩ :=
    .put (.put (.create created) (by simp [inside]) putSecond) (by simp [inside]) putFirst
  obtain ⟨keys, entries, length, listed, -⟩ :=
    reachable_table_listing (by decide) reached (by decide)
  exact ⟨_, keys, rfl, length, listed, rfl⟩

end ChainTable
