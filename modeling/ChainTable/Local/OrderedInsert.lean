import ChainTable.Local.TableHistory

/-! Adding an entry is one ordered insertion or replacement, and a put is all of it or nothing. -/

namespace ChainTable

open OrderedAssoc

/-- The keys of the nodes ascend strictly, in the order of `strcmp`. -/
def Ascending (nodes : List Entry) : Prop :=
  nodes.Pairwise fun earlier later =>
    ∃ lower upper, earlier.key = some lower ∧ later.key = some upper ∧ strcmp lower upper < 0

/-- What an ordered insertion or replacement makes of a list, and the result it is told by. -/
inductive OrderedInsert (list : EntryList) (entry : Entry) : Int → EntryList → Prop
  /-- Some node has the key, and it alone takes over the value. -/
  | replace (found : ∃ node ∈ list.head, node.key = entry.key) :
    OrderedInsert list entry 1
      { list with
        head := list.head.map fun node =>
          if node.key = entry.key then { node with value := entry.value } else node }
  /-- No node has the key, and a new one joins the others at a place where they all ascend. -/
  | insert {before behind : List Entry} (nodes : list.head = before ++ behind)
    (fresh : ∀ node ∈ list.head, node.key ≠ entry.key)
    (ascends : Ascending (before ++ entry :: behind)) :
    OrderedInsert list entry 0 { size := list.size + 1, head := before ++ entry :: behind }

/-- There is one way only to insert or replace in order. -/
theorem OrderedInsert.unique {list after after' : EntryList} {entry : Entry} {result result' : Int}
    (made : OrderedInsert list entry result after)
    (also : OrderedInsert list entry result' after') : result' = result ∧ after' = after := by
  -- The nodes decide between the two ways, and an insertion has one place only.
  cases made with
  | replace found =>
    cases also with
    | replace _ => exact ⟨rfl, rfl⟩
    | insert _ fresh _ =>
      obtain ⟨node, member, same⟩ := found
      exact absurd same (fresh node member)
  | insert nodes fresh ascends =>
    cases also with
    | replace found =>
      obtain ⟨node, member, same⟩ := found
      exact absurd same (fresh node member)
    | insert nodes' _ ascends' =>
      -- Two nodes in order are not in the opposite order too.
      have strict : ∀ left right : Entry,
          (∃ lower upper, left.key = some lower ∧ right.key = some upper ∧
            strcmp lower upper < 0) →
          ¬ ∃ lower upper, right.key = some lower ∧ left.key = some upper ∧
            strcmp lower upper < 0 := by
        rintro left right ⟨lower, upper, atLeft, atRight, less⟩ ⟨lower', upper', again, first, more⟩
        rw [atRight] at again
        rw [atLeft] at first
        cases again
        cases first
        rw [strcmp_neg_iff] at less more
        exact less.asymm more
      obtain ⟨rfl, rfl⟩ := place_unique strict (nodes.symm.trans nodes') ascends ascends'
      exact ⟨rfl, rfl⟩

/-- Nodes that pass `valid_list` are made of keys and usable data. -/
theorem exists_usable_of_validNodes {nodes : List Entry} (valid : validNodes nodes = 0) :
    ∃ pairs : List (Key × Usable), nodes = pairs.map Entry.ofUsable := by
  -- The loop has passed every node.
  induction nodes with
  | nil => exact ⟨[], rfl⟩
  | cons current next ih =>
    simp only [validNodes] at valid
    split at valid
    · cases valid
    · rename_i accepted
      obtain ⟨pairs, rfl⟩ := ih valid
      have zero : entryValid (some current) = 0 := by
        unfold entryValid at accepted ⊢
        split at accepted <;> simp_all
      obtain ⟨pair, rfl⟩ := exists_ofUsable zero
      exact ⟨pair :: pairs, rfl⟩

/-- Entries of keys with usable data ascend exactly when the keys are sorted. -/
theorem ascending_ofUsable (pairs : List (Key × Usable)) :
    Ascending (pairs.map Entry.ofUsable) ↔ Sorted pairs := by
  -- Node by node, `strcmp` is the order of the keys.
  rw [Ascending, List.pairwise_map]
  refine List.Pairwise.iff fun {left right} => ?_
  constructor
  · rintro ⟨lower, upper, atLeft, atRight, less⟩
    cases atLeft
    cases atRight
    exact (strcmp_neg_iff _ _).mp less
  · intro less
    exact ⟨left.1, right.1, rfl, rfl, (strcmp_neg_iff _ _).mpr less⟩

/-- Some node of keys with usable data has a key exactly when a search finds it. -/
theorem key_found_iff (key : Key) {pairs : List (Key × Usable)} (sorted : Sorted pairs) :
    (∃ node ∈ pairs.map Entry.ofUsable, node.key = some key) ↔ List.lookup key pairs ≠ none := by
  -- Being stored and being found are the same in a sorted list.
  rw [Option.ne_none_iff_exists']
  constructor
  · rintro ⟨node, member, same⟩
    obtain ⟨⟨other, data⟩, stored, rfl⟩ := List.mem_map.mp member
    cases same
    exact ⟨data, (sorted.mem_iff_lookup _ _).mp stored⟩
  · rintro ⟨data, found⟩
    exact ⟨_, List.mem_map_of_mem ((sorted.mem_iff_lookup _ _).mpr found), rfl⟩

/-- The insertion into an ordered association list inserts or replaces in order. -/
theorem orderedInsert_ofUsable {pairs : List (Key × Usable)} (sorted : Sorted pairs) (key : Key)
    (data : Usable) :
    OrderedInsert (.ofUsable pairs) (.ofUsable (key, data))
      (if List.lookup key pairs = none then 0 else 1)
      (.ofUsable (OrderedAssoc.insert key data pairs)) := by
  -- Whether the key is stored decides between the two kinds of insertion.
  have length := sorted.length_insert key data
  by_cases fresh : List.lookup key pairs = none
  · -- A new key goes where the pairs stay sorted, and so do the entries.
    rw [if_pos fresh] at length ⊢
    obtain ⟨before, behind, cut, inserted⟩ := insert_fresh data fresh
    have ascends := (ascending_ofUsable _).mpr (sorted.insert key data)
    have after : EntryList.ofUsable (OrderedAssoc.insert key data pairs) =
        { size := (EntryList.ofUsable pairs).size + 1
          head := before.map Entry.ofUsable ++
            Entry.ofUsable (key, data) :: behind.map Entry.ofUsable } :=
      congrArg₂ EntryList.mk (by rw [length]; rfl)
        (by rw [inserted, List.map_append, List.map_cons])
    rw [inserted, List.map_append, List.map_cons] at ascends
    rw [after]
    refine .insert (by simp only [EntryList.ofUsable, cut, List.map_append]) ?_ ascends
    intro node member same
    exact (key_found_iff key sorted).mp ⟨node, member, same⟩ fresh
  · -- A stored key keeps its node, and the nodes around it are not touched.
    rw [if_neg fresh] at length ⊢
    have after : EntryList.ofUsable (OrderedAssoc.insert key data pairs) =
        { EntryList.ofUsable pairs with
          head := (EntryList.ofUsable pairs).head.map fun node =>
            if node.key = (Entry.ofUsable (key, data)).key then
              { node with value := (Entry.ofUsable (key, data)).value } else node } := by
      refine congrArg₂ EntryList.mk (by rw [length]; rfl) ?_
      rw [sorted.insert_stored data fresh, EntryList.ofUsable, List.map_map, List.map_map]
      refine List.map_congr_left fun pair _ => ?_
      by_cases same : pair.1 = key
      · simp [Entry.ofUsable, same]
      · simp [Entry.ofUsable, same]
    rw [after]
    exact .replace ((key_found_iff key sorted).mpr fresh)

/-- With memory given, adding a valid entry to a list of valid entries inserts or replaces it. -/
theorem listAdd_spec {pairs : List (Key × Usable)} (sorted : Sorted pairs) (key : Key)
    (data : Usable) :
    listAdd (.ofUsable pairs) (.ofUsable (key, data)) [] =
      .ok ((if List.lookup key pairs = none then 0 else 1,
        .ofUsable (OrderedAssoc.insert key data pairs)), []) := by
  -- A key that is stored is replaced without any allocation.
  split
  · rename_i fresh
    exact (listAdd_fresh key data fresh sorted).succeeds
  · rename_i stored
    rw [listAdd_stored sorted key data stored]
    rfl

/-- With memory given, the general loop does the same to the nodes of a list that has some. -/
theorem listAddLoop_spec {pairs : List (Key × Usable)} (sorted : Sorted pairs)
    (nonempty : pairs ≠ []) (key : Key) (data : Usable) :
    listAddLoop (.ofUsable pairs) (.ofUsable (key, data)) [] (pairs.map Entry.ofUsable) [] =
      .ok ((if List.lookup key pairs = none then 0 else 1,
        .ofUsable (OrderedAssoc.insert key data pairs)), []) := by
  -- The loop leaves the counter as it is, or adds one to it, as the insertion does.
  have length := sorted.length_insert key data
  split
  · rename_i fresh
    rw [if_pos fresh] at length
    rw [(listAddLoop_absent (.ofUsable pairs) key data [] nonempty fresh).succeeds]
    simp only [EntryList.ofUsable, length, List.nil_append, Int.natCast_add, Int.natCast_one]
  · rename_i stored
    rw [if_neg stored] at length
    rw [listAddLoop_present (.ofUsable pairs) key data [] sorted stored]
    simp only [EntryList.ofUsable, length, List.nil_append]
    rfl

/-- A list that is valid, counted and ascending holds keys with usable data in order. -/
theorem exists_ofUsable_list {list : EntryList} (valid : validList (some list) = 0)
    (counted : list.size = list.head.length) (ascends : Ascending list.head) :
    ∃ pairs, list = .ofUsable pairs ∧ Sorted pairs := by
  -- The check of the list is the check of its nodes.
  have nodes : validNodes list.head = 0 := by
    simp only [validList] at valid
    split at valid
    · cases valid
    · exact valid
  obtain ⟨pairs, held⟩ := exists_usable_of_validNodes nodes
  refine ⟨pairs, congrArg₂ EntryList.mk ?_ held, (ascending_ofUsable pairs).mp (held ▸ ascends)⟩
  rw [counted, held, List.length_map]

/-- With memory given, adding to an ordered list is the ordered insertion or replacement. -/
theorem list_add_is_ordered_insert {list : EntryList} {entry : Entry}
    (valid : validList (some list) = 0) (counted : list.size = list.head.length)
    (ascends : Ascending list.head) (accepted : entryValid (some entry) = 0) :
    ∃ (result : Int) (after : EntryList), listAdd list entry [] = .ok ((result, after), []) ∧
      OrderedInsert list entry result after ∧
      (∀ result' after', OrderedInsert list entry result' after' →
        result' = result ∧ after' = after) ∧
      Ascending after.head ∧ after.size = after.head.length ∧
      (list.size = 1 → listAddLoop list entry [] list.head [] = .ok ((result, after), [])) := by
  -- The list holds keys with usable data, and so does the entry.
  obtain ⟨pairs, rfl, sorted⟩ := exists_ofUsable_list valid counted ascends
  obtain ⟨⟨key, data⟩, rfl⟩ := exists_ofUsable accepted
  have made := orderedInsert_ofUsable sorted key data
  refine ⟨_, _, listAdd_spec sorted key data, made, fun result' after' also => made.unique also,
    (ascending_ofUsable _).mpr (sorted.insert key data), ?_, fun single => ?_⟩
  · simp only [EntryList.ofUsable, List.length_map]
  · -- A list that counts one node is not empty, so the loop does to it what it does to any.
    refine listAddLoop_spec sorted (fun empty => ?_) key data
    rw [empty] at single
    exact absurd single (by decide)

/-- A stored key among three nodes is replaced where it is. -/
theorem list_add_is_ordered_insert_middle :
    let entry (key : Key) (value : UInt8) : Entry :=
      ⟨some key, some (.ofBlock ⟨[value], List.cons_ne_nil _ _, Nat.one_lt_two_pow (by decide)⟩)⟩
    let first : Key := ⟨[97], by decide⟩
    let second : Key := ⟨[97, 98], by decide⟩
    let third : Key := ⟨[99], by decide⟩
    OrderedInsert ⟨3, [entry first 1, entry second 2, entry third 3]⟩ (entry second 9) 1
      ⟨3, [entry first 1, entry second 9, entry third 3]⟩ := by
  intro entry first second third
  -- Each of the three keys is below those after it.
  have before : ∀ (left right : Key) (value value' : UInt8), strcmp left right < 0 →
      ∃ lower upper, (entry left value).key = some lower ∧
        (entry right value').key = some upper ∧ strcmp lower upper < 0 :=
    fun left right _ _ less => ⟨left, right, rfl, rfl, less⟩
  have ascends : Ascending [entry first 1, entry second 2, entry third 3] := by
    refine .cons ?_ (.cons ?_ (List.pairwise_singleton _ _))
    · simp only [List.forall_mem_cons]
      exact ⟨before _ _ _ _ (by decide), before _ _ _ _ (by decide), by simp⟩
    · simp only [List.forall_mem_cons]
      exact ⟨before _ _ _ _ (by decide), by simp⟩
  have valid : validList (some ⟨3, [entry first 1, entry second 2, entry third 3]⟩) = 0 := rfl
  have accepted : entryValid (some (entry second 9)) = 0 := rfl
  obtain ⟨result, after, ran, made, -⟩ := list_add_is_ordered_insert valid rfl ascends accepted
  -- The run can be followed, and gives the list with the second value replaced.
  have evaluated : listAdd ⟨3, [entry first 1, entry second 2, entry third 3]⟩ (entry second 9) [] =
      .ok ((1, ⟨3, [entry first 1, entry second 9, entry third 3]⟩), []) := rfl
  rw [evaluated] at ran
  cases ran
  exact made

/-- The table after data was put under a key: a copy stored there, and the rest as it was. -/
structure PutDone (table : Table) (key : Key) (data : Data) (after : Table) : Prop where
  /-- The key leads to data of the same size with the same bytes. -/
  stored : ∃ copy : Data, tableGet after (some key) [] = .ok (some copy, []) ∧
    copy.datasize = data.datasize ∧ copy.bytes = data.bytes
  /-- Every other key leads where it led. -/
  others : ∀ other : Key, other ≠ key → table.Inside other →
    tableGet after (some other) [] = tableGet table (some other) []
  /-- The number of rows is the same. -/
  rows : after.rows = table.rows
  /-- One row takes the entry in, at its place, and the counter of the table follows. -/
  row : ∃ (list list' : EntryList) (copy : Data) (result : Int),
    table.lists[(hashCode key table.rows).toNat]? = some list ∧
      OrderedInsert list ⟨some key, some copy⟩ result list' ∧
      after.lists = table.lists.set (hashCode key table.rows).toNat list' ∧
      after.size = if result = 0 then table.size + 1 else table.size

/-- The table of a store in which a block was inserted has that block put. -/
theorem putDone_insert {rows : Nat} (store : Store rows) {key : Key} {data : Data} {block : Block}
    (contents : data.contents = some block) (inside : HashesInside rows key) :
    PutDone (.ofStore store) key data (.ofStore (store.insert key block inside)) where
  stored := by
    -- The store finds the block, whose bytes are those of the data.
    have found := tableGet_spec (store.insert key block inside) inside
    rw [Buckets.lookup_insert, if_pos rfl] at found
    refine ⟨_, found, (datasize_of_contents contents).symm, ?_⟩
    rw [(contents_eq_some_iff data block).mp contents]
    exact (contents_eq_some_iff _ _).mp (contents_ofBlock block)
  others other differs atRow := by
    have inRange : HashesInside rows other := atRow
    rw [tableGet_spec store inRange, tableGet_spec _ inRange, Buckets.lookup_insert,
      if_neg differs]
  rows := rfl
  row := by
    -- The list of the row is one of keys with usable data, and so is the new entry.
    have made := orderedInsert_ofUsable ((store.row_sorted key).map_values Block.usable) key
      (Block.usable block)
    rw [insert_map_values, ← ofPairs_eq, ← ofPairs_eq] at made
    simp only [lookup_map_values, Option.map_eq_none_iff] at made
    refine ⟨_, _, _, _, ?_, made, ?_, ?_⟩
    · rw [Table.ofStore, List.getElem?_map, store.getElem?_row inside, Option.map_some]
    · exact (setList_ofStore store ((store.row_sorted key).insert key block)
        (store.insert_placed block inside)).symm
    · -- The counter grows exactly when the row takes in a new node.
      have counted := store.size_insert block inside
      rw [ofStore_size, ofStore_size, counted]
      change _ = if (if store.lookup key = none then (0 : Int) else 1) = 0 then _ else _
      split <;> simp

/-- Whatever becomes of its allocations, a put does all it should or nothing. -/
theorem table_put_all_or_nothing {rows : Nat} {table : Table}
    (reached : TableReachable rows table) {key : Option Key}
    (inside : ∀ held ∈ key, HashesInside rows held) (value : Option Data) (mem : Mem) :
    ∃ (result : Int) (after : Table) (mem' : Mem),
      tablePut table key value mem = .ok ((result, after), mem') ∧
      (result = -1 ∧ after = table ∨
        result = 0 ∧ ∃ held ∈ key, ∃ data ∈ value, PutDone table held data after) := by
  -- The table is that of a store, into which valid data goes at once or not at all.
  obtain ⟨store, rfl⟩ := reached.exists_store reached.positive
  rcases tablePut_cases store inside value with
    refused | ⟨held, named, data, given, block, inRange, found, attempts⟩
  · exact ⟨-1, _, mem, by rw [refused]; rfl, .inl ⟨rfl, rfl⟩⟩
  · obtain ⟨mem', gaveUp | wentOn⟩ := attempts.either mem
    · exact ⟨-1, _, mem', gaveUp, .inl ⟨rfl, rfl⟩⟩
    · exact ⟨0, _, mem', wentOn,
        .inr ⟨rfl, held, named, data, given, putDone_insert store found inRange⟩⟩

/-- A put that runs out of memory for its node, after everything was copied. -/
theorem table_put_all_or_nothing_node :
    let key : Key := ⟨[97], by decide⟩
    let one : Data := .ofBlock ⟨[1], by decide⟩
    let table : Table := ⟨0, 2, [⟨0, []⟩, ⟨0, []⟩], rfl⟩
    ∃ mem', tablePut table (some key) (some one)
      [true, true, true, true, true, true, true, false] = .ok ((-1, table), mem') := by
  -- The theorem leaves two outcomes, of which the run excludes one.
  intro key one table
  have created : tableCreate (2 : Nat) [] = .ok (some table, []) := rfl
  have inside : ∀ held ∈ some key, HashesInside 2 held := by decide
  obtain ⟨result, after, mem', ran, refused | done⟩ :=
    table_put_all_or_nothing (.create created) inside (some one)
      [true, true, true, true, true, true, true, false]
  · obtain ⟨rfl, rfl⟩ := refused
    exact ⟨mem', ran⟩
  · -- The run can be followed to the failure of the last allocation.
    have evaluated : tablePut table (some key) (some one)
        [true, true, true, true, true, true, true, false] = .ok ((-1, table), []) := rfl
    rw [evaluated] at ran
    cases ran
    exact absurd done.1 (by decide)

end ChainTable
