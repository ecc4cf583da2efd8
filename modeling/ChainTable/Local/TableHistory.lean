import ChainTable.Local.Contents

/-! Whole histories of one table: what its calls answer, and what each reachable table satisfies. -/

namespace ChainTable

/-- A call of a client of the table. -/
inductive TableCall where
  | put (key : Key) (data : Data)
  | get (key : Key)
  | remove (key : Key)
  | size
  deriving DecidableEq, Repr

/-- What a call returns: a number, or a pointer to data. -/
inductive TableReply where
  | code (result : Int)
  | data (data : Option Data)
  deriving DecidableEq, Repr

/-- Make one call on a table. -/
def callTable (table : Table) : TableCall → C (TableReply × Table)
  | .put key data => do
    let (result, table) ← tablePut table (some key) (some data)
    return (.code result, table)
  | .get key => do
    let data ← tableGet table (some key)
    return (.data data, table)
  | .remove key => do
    let (result, table) ← tableRemove table (some key)
    return (.code result, table)
  | .size => return (.code (tableSize table), table)

/-- Make calls one after another, collecting what they return. -/
def runTable (table : Table) : List TableCall → C (List TableReply × Table)
  | [] => return ([], table)
  | call :: calls => do
    let (reply, table) ← callTable table call
    let (replies, table) ← runTable table calls
    return (reply :: replies, table)

/-- What a call answers when the table is one finite map, and the map it leaves. -/
def answer (contents : Contents) : TableCall → TableReply × Contents
  | .put key data =>
    match data.contents with
    | some block => (.code 0, contents.insert key block)
    -- Data without bytes is refused.
    | none => (.code (-1), contents)
  | .get key => (.data ((contents.lookup key).map Data.ofBlock), contents)
  | .remove key =>
    if contents.lookup key = none then (.code 1, contents) else (.code 0, contents.erase key)
  | .size => (.code contents.keys.card, contents)

/-- What calls answer one after another when the table is one finite map. -/
def answers (contents : Contents) : List TableCall → List TableReply
  | [] => []
  | call :: calls => (answer contents call).1 :: answers (answer contents call).2 calls

/-- The key a call is about. -/
def TableCall.key : TableCall → Option Key
  | .put key _ | .get key | .remove key => some key
  | .size => none

/-- A call a history may contain: its key hashes inside, and its data is valid. -/
def TableCall.Admissible (rows : Nat) : TableCall → Prop
  | .put key data => HashesInside rows key ∧ dataValid (some data) = 0
  | .get key | .remove key => HashesInside rows key
  | .size => True

instance (rows : Nat) (call : TableCall) : Decidable (call.Admissible rows) :=
  match call with
  | .put _ _ => inferInstanceAs (Decidable (_ ∧ _))
  | .get _ | .remove _ => inferInstanceAs (Decidable (Buckets.InRange _ _ _))
  | .size => inferInstanceAs (Decidable True)

/-- One call answers as the map the table holds, and leaves a table that holds the next map. -/
theorem callTable_spec {table : Table} {contents : Contents} (holds : table.Holds contents)
    {rows : Nat} (created : table.rows = rows) {call : TableCall}
    (admissible : call.Admissible rows) :
    ∃ after : Table, after.Holds (answer contents call).2 ∧ after.rows = rows ∧
      callTable table call [] = .ok (((answer contents call).1, after), []) := by
  -- A key that hashes inside for the number of rows hashes inside the table.
  have isInside : ∀ {key}, HashesInside rows key → table.Inside key := fun inside => by
    rw [Table.Inside, created]
    exact inside
  cases call with
  | put key data =>
    -- Valid data has contents, which are what the put stores.
    obtain ⟨block, found⟩ := exists_contents admissible.2
    obtain ⟨after, holdsAfter, sameRows, attempts⟩ := holds.put found (isInside admissible.1)
    refine ⟨after, ?_, by rw [sameRows, created], ?_⟩
    · simpa only [answer, found] using holdsAfter
    · simp only [callTable, answer, found]
      rw [run_bind attempts.succeeds]
      rfl
  | get key =>
    refine ⟨table, holds, created, ?_⟩
    simp only [callTable, answer]
    rw [run_bind (holds.get (isInside admissible))]
    rfl
  | remove key =>
    -- A removal takes its key out of the map, or finds nothing to take out.
    obtain ⟨after, holdsAfter, sameRows, removed⟩ := holds.remove (isInside admissible)
    refine ⟨after, ?_, by rw [sameRows, created], ?_⟩
    · simp only [answer]
      split
      · rename_i absent
        rwa [contents_erase_absent absent] at holdsAfter
      · exact holdsAfter
    · simp only [callTable, answer, removed, pure_bind]
      split <;> rfl
  | size =>
    refine ⟨table, holds, created, ?_⟩
    simp only [callTable, answer, holds.size]
    rfl

/-- Calls one after another answer as the map the table held at first, with every call applied. -/
theorem runTable_spec {rows : Nat} {calls : List TableCall}
    (admissible : ∀ call ∈ calls, call.Admissible rows) {table : Table} {contents : Contents}
    (holds : table.Holds contents) (created : table.rows = rows) :
    ∃ (final : Table) (left : Contents), final.Holds left ∧ final.rows = rows ∧
      runTable table calls [] = .ok ((answers contents calls, final), []) := by
  -- Every call hands a table that holds the next map to the calls after it.
  induction calls generalizing table contents with
  | nil => exact ⟨table, contents, holds, created, rfl⟩
  | cons call calls ih =>
    obtain ⟨next, holdsNext, sameRows, called⟩ :=
      callTable_spec holds created (admissible call (by simp))
    obtain ⟨final, left, holdsFinal, finalRows, ran⟩ :=
      ih (fun later member => admissible later (by simp [member])) holdsNext sameRows
    refine ⟨final, left, holdsFinal, finalRows, ?_⟩
    simp only [runTable]
    rw [run_bind called, run_bind ran]
    rfl

/-- A call changes what the map has under its own key only. -/
theorem answer_other (contents : Contents) {call : TableCall} {key : Key}
    (other : call.key ≠ some key) : (answer contents call).2.lookup key = contents.lookup key := by
  -- Only a put and a removal change the map, and they change it under their own key.
  cases call with
  | put stored data =>
    have differs : key ≠ stored := fun same => other (by rw [same]; rfl)
    simp only [answer]
    cases data.contents with
    | none => rfl
    | some block => simp [differs]
  | get asked => rfl
  | remove removed =>
    have differs : key ≠ removed := fun same => other (by rw [same]; rfl)
    simp only [answer]
    split
    · rfl
    · simp [differs]
  | size => rfl

/--
A table answers every history of calls as one finite map, and keeps keys apart.

After any history, one more call on a key leaves what is looked up under other keys.
-/
theorem table_is_finite_map (rows : Nat) (positive : 1 ≤ rows) (calls : List TableCall)
    (admissible : ∀ call ∈ calls, call.Admissible rows) :
    ∃ table final, tableCreate rows [] = .ok (some table, []) ∧
      runTable table calls [] = .ok ((answers ∅ calls, final), []) ∧
      ∀ call : TableCall, call.Admissible rows →
        ∃ reply after, callTable final call [] = .ok ((reply, after), []) ∧
          ∀ key, HashesInside rows key → call.key ≠ some key →
            tableGet after (some key) [] = tableGet final (some key) [] := by
  -- The table is created empty, and each call of the history leaves one that holds the next map.
  obtain ⟨table, holds, created, attempts⟩ := Table.Holds.create positive
  obtain ⟨final, left, holdsFinal, finalRows, ran⟩ := runTable_spec admissible holds created
  refine ⟨table, final, attempts.succeeds, ran, fun call allowed => ?_⟩
  obtain ⟨after, holdsAfter, afterRows, called⟩ := callTable_spec holdsFinal finalRows allowed
  refine ⟨_, after, called, fun key inside other => ?_⟩
  -- Both lookups answer what the maps have, and the maps agree on the other key.
  have insideFinal : final.Inside key := by rw [Table.Inside, finalRows]; exact inside
  have insideAfter : after.Inside key := by rw [Table.Inside, afterRows]; exact inside
  rw [holdsAfter.get insideAfter, holdsFinal.get insideFinal, answer_other left other]

/-- Two colliding keys: both are stored, one is removed, and the other is still found. -/
theorem table_is_finite_map_collision :
    let first : Key := ⟨[97], by decide⟩
    let second : Key := ⟨[99], by decide⟩
    let one : Block := ⟨[1], by decide⟩
    let two : Block := ⟨[2, 3], by decide⟩
    hashCode first 2 = hashCode second 2 ∧
      ∃ table final, tableCreate 2 [] = .ok (some table, []) ∧
        runTable table [.put first (.ofBlock one), .put second (.ofBlock two), .get first,
            .remove second, .get second, .size] [] =
          .ok (([.code 0, .code 0, .data (some (.ofBlock one)), .code 0, .data none, .code 1],
            final), []) := by
  intro first second one two
  obtain ⟨table, final, created, ran, -⟩ := table_is_finite_map 2 (by decide)
    [.put first (.ofBlock one), .put second (.ofBlock two), .get first,
      .remove second, .get second, .size] (by decide)
  exact ⟨by decide, table, final, created, ran⟩

/-- The tables that creation, puts and removals lead to, with any arguments and allocations. -/
inductive TableReachable (rows : Nat) : Table → Prop
  | create {table : Table} {mem mem' : Mem} (ran : tableCreate rows mem = .ok (some table, mem')) :
    TableReachable rows table
  | put {table after : Table} {key : Option Key} {value : Option Data} {result : Int}
    {mem mem' : Mem} (reached : TableReachable rows table)
    (inside : ∀ held ∈ key, HashesInside rows held)
    (ran : tablePut table key value mem = .ok ((result, after), mem')) : TableReachable rows after
  | remove {table after : Table} {key : Option Key} {result : Int} {mem mem' : Mem}
    (reached : TableReachable rows table) (inside : ∀ held ∈ key, HashesInside rows held)
    (ran : tableRemove table key mem = .ok ((result, after), mem')) : TableReachable rows after

/-- What the operations rely on in the representation of a table. -/
structure TableInvariant (table : Table) : Prop where
  /-- Every chain of nodes ascends strictly in the order of `strcmp`. -/
  ascending : ∀ list ∈ table.lists, list.head.Pairwise fun earlier later =>
    ∃ lower upper, earlier.key = some lower ∧ later.key = some upper ∧ strcmp lower upper < 0
  /-- No key occurs twice anywhere in the table. -/
  distinct : (table.lists.flatMap fun list => list.head.map Entry.key).Nodup
  /-- The key of every node hashes to the row that holds it. -/
  home : ∀ (row : Nat) (list : EntryList), table.lists[row]? = some list → ∀ entry ∈ list.head,
    ∃ key, entry.key = some key ∧ hashCode key table.rows = row
  /-- Every stored entry is valid. -/
  valid : ∀ list ∈ table.lists, ∀ entry ∈ list.head, entryValid (some entry) = 0
  /-- The counter of every list is its number of nodes. -/
  listSize : ∀ list ∈ table.lists, list.size = list.head.length
  /-- The counter of the table is the sum of the counters of its rows. -/
  tableSize : table.size = (table.lists.map EntryList.size).sum

/-- The table of a store satisfies the invariant, since the store carries it. -/
theorem ofStore_invariant {rows : Nat} (store : Store rows) : TableInvariant (.ofStore store) where
  ascending list member := by
    -- The nodes hold the pairs of the store, each of which has its own key.
    obtain ⟨row, stored, rfl⟩ := List.mem_map.mp member
    refine List.pairwise_map.mpr ((store.sorted row stored).imp fun {left right} below => ?_)
    exact ⟨left.1, right.1, rfl, rfl, (strcmp_neg_iff left.1 right.1).mpr below⟩
  distinct := by
    have keys : ((Table.ofStore store).lists.flatMap fun list => list.head.map Entry.key) =
        (store.pairs.map Prod.fst).map some := by
      simp only [Table.ofStore, List.flatMap_def, List.map_map, Buckets.pairs, List.map_flatten]
      refine congrArg List.flatten (List.map_congr_left fun row _ => ?_)
      simp [Function.comp_def, Entry.ofPair]
    rw [keys]
    exact store.nodup_keys.map (Option.some_injective Key)
  home row list found entry member := by
    -- The list of a row holds the pairs of the store's row, placed by their keys.
    obtain ⟨pairs, atRow, rfl⟩ := Option.map_eq_some_iff.mp
      (show store.rows[row]?.map EntryList.ofPairs = some list by
        rwa [Table.ofStore, List.getElem?_map] at found)
    obtain ⟨pair, stored, rfl⟩ := List.mem_map.mp member
    exact ⟨pair.1, rfl, store.placed row pairs atRow pair stored⟩
  valid list member entry stored := by
    obtain ⟨row, -, rfl⟩ := List.mem_map.mp member
    obtain ⟨pair, -, rfl⟩ := List.mem_map.mp stored
    exact entryValid_ofPair pair
  listSize list member := by
    -- The counter of a list made of pairs is their number.
    obtain ⟨row, -, rfl⟩ := List.mem_map.mp member
    simp
  tableSize := by
    simp only [Table.ofStore, Buckets.size, Buckets.pairs, List.map_map]
    -- The number of pairs in all rows is the sum over the rows.
    induction store.rows with
    | nil => rfl
    | cons row rest ih =>
      simp only [List.flatten_cons, List.length_append, List.map_cons, List.sum_cons, ← ih]
      rfl

/-- A put into the table of a store is refused at once, or tries to store a block of the data. -/
theorem tablePut_cases {rows : Nat} (store : Store rows) {key : Option Key}
    (inside : ∀ held ∈ key, HashesInside rows held) (value : Option Data) :
    tablePut (.ofStore store) key value = pure (-1, .ofStore store) ∨
      ∃ held ∈ key, ∃ data ∈ value, ∃ block, ∃ inRange : HashesInside rows held,
        data.contents = some block ∧
        Attempts (tablePut (.ofStore store) key value) (-1, .ofStore store)
          (0, .ofStore (store.insert held block inRange)) := by
  -- Either the arguments are refused, or there is a block to be stored.
  match key, value with
  | none, value => exact .inl (tablePut_refused _ (.inl rfl))
  | some key, none => exact .inl (tablePut_refused _ (.inr rfl))
  | some key, some data =>
    cases found : data.contents with
    | none => exact .inl (tablePut_refused _ (.inr ((dataValid_eq_neg_one data).mpr found)))
    | some block =>
      have inRange := inside key rfl
      exact .inr ⟨key, rfl, data, rfl, block, inRange, found,
        tablePut_attempts store found inRange⟩

/-- A put into the table of a store returns, and leaves the table of a store. -/
theorem tablePut_returns {rows : Nat} (store : Store rows) {key : Option Key}
    (inside : ∀ held ∈ key, HashesInside rows held) (value : Option Data) (mem : Mem) :
    ∃ (result : Int) (next : Store rows) (mem' : Mem),
      tablePut (.ofStore store) key value mem = .ok ((result, .ofStore next), mem') := by
  -- A put that is not refused leaves the store as it was, or with the block in it.
  rcases tablePut_cases store inside value with refused | ⟨_, _, _, _, _, _, _, attempts⟩
  · exact ⟨-1, store, mem, by rw [refused]; rfl⟩
  · obtain ⟨mem', gaveUp | wentOn⟩ := attempts.either mem
    · exact ⟨-1, store, mem', gaveUp⟩
    · exact ⟨0, _, mem', wentOn⟩

/-- A removal from the table of a store returns, and leaves the table of a store. -/
theorem tableRemove_returns {rows : Nat} (store : Store rows) {key : Option Key}
    (inside : ∀ held ∈ key, HashesInside rows held) (mem : Mem) :
    ∃ (result : Int) (next : Store rows) (mem' : Mem),
      tableRemove (.ofStore store) key mem = .ok ((result, .ofStore next), mem') := by
  -- A removal without a key is refused, and one with a key that has a row is specified.
  cases key with
  | none => exact ⟨-1, store, mem, rfl⟩
  | some key =>
    rw [tableRemove_spec store (inside key rfl)]
    split
    · exact ⟨1, store, mem, rfl⟩
    · exact ⟨0, _, mem, rfl⟩

/-- Every reachable table is the table of a store. -/
theorem TableReachable.exists_store {rows : Nat} (positive : 1 ≤ rows) {table : Table}
    (reached : TableReachable rows table) : ∃ store : Store rows, table = .ofStore store := by
  -- Each operation returns the table of the next store.
  induction reached with
  | @create table mem mem' ran =>
    obtain ⟨left, gaveUp | created⟩ := (tableCreate_attempts positive).either mem
    · rw [gaveUp] at ran
      cases ran
    · rw [created] at ran
      cases ran
      exact ⟨_, rfl⟩
  | @put table after key value result mem mem' reached inside ran ih =>
    obtain ⟨store, rfl⟩ := ih
    obtain ⟨code, next, left, returned⟩ := tablePut_returns store inside value mem
    rw [returned] at ran
    cases ran
    exact ⟨next, rfl⟩
  | @remove table after key result mem mem' reached inside ran ih =>
    obtain ⟨store, rfl⟩ := ih
    obtain ⟨code, next, left, returned⟩ := tableRemove_returns store inside mem
    rw [returned] at ran
    cases ran
    exact ⟨next, rfl⟩

/-- A table is reached only where one was created, which takes a row. -/
theorem TableReachable.positive {rows : Nat} {table : Table}
    (reached : TableReachable rows table) : 1 ≤ rows := by
  induction reached with
  | create ran =>
    -- Creation refuses a table without rows.
    by_contra none
    obtain rfl : rows = 0 := by omega
    cases ran
  | put _ _ _ ih => exact ih
  | remove _ _ _ ih => exact ih

/-- Every reachable table satisfies the invariant, and every further call on it returns. -/
theorem reachable_table_invariant {rows : Nat} (positive : 1 ≤ rows) {table : Table}
    (reached : TableReachable rows table) :
    TableInvariant table ∧
      ∀ key : Option Key, (∀ held ∈ key, HashesInside rows held) → ∀ mem : Mem,
        (∀ value, ∃ result after mem', tablePut table key value mem = .ok ((result, after), mem')) ∧
        ∃ result after mem', tableRemove table key mem = .ok ((result, after), mem') := by
  -- The table is that of a store, which carries the invariant and answers every call.
  obtain ⟨store, rfl⟩ := reached.exists_store positive
  refine ⟨ofStore_invariant store, fun key inside mem => ⟨fun value => ?_, ?_⟩⟩
  · obtain ⟨result, next, mem', returned⟩ := tablePut_returns store inside value mem
    exact ⟨result, _, mem', returned⟩
  · obtain ⟨result, next, mem', returned⟩ := tableRemove_returns store inside mem
    exact ⟨result, _, mem', returned⟩

/-- A put that runs out of memory, and two that come into one row of the two in the wrong order. -/
theorem reachable_table_invariant_put :
    let first : Key := ⟨[97], by decide⟩
    let second : Key := ⟨[99], by decide⟩
    let one : Block := ⟨[1], by decide⟩
    ∃ table : Table,
      table.lists = [⟨0, []⟩, ⟨2, [.ofPair (first, one), .ofPair (second, one)]⟩] ∧
      TableInvariant table := by
  -- The first put copies the key, is refused memory for the data, and changes nothing.
  intro first second one
  have created : tableCreate 2 [] = .ok (some ⟨0, 2, [⟨0, []⟩, ⟨0, []⟩], rfl⟩, []) := rfl
  have failed : tablePut ⟨0, 2, [⟨0, []⟩, ⟨0, []⟩], rfl⟩ (some first) (some (.ofBlock one))
      [true, false] = .ok ((-1, ⟨0, 2, [⟨0, []⟩, ⟨0, []⟩], rfl⟩), []) := rfl
  have stored : tablePut ⟨0, 2, [⟨0, []⟩, ⟨0, []⟩], rfl⟩ (some second) (some (.ofBlock one))
      [] = .ok ((0, ⟨1, 2, [⟨0, []⟩, ⟨1, [.ofPair (second, one)]⟩], rfl⟩), []) := rfl
  have joined : tablePut ⟨1, 2, [⟨0, []⟩, ⟨1, [.ofPair (second, one)]⟩], rfl⟩ (some first)
      (some (.ofBlock one)) [] =
      .ok ((0, ⟨2, 2, [⟨0, []⟩, ⟨2, [.ofPair (first, one), .ofPair (second, one)]⟩], rfl⟩), []) :=
    rfl
  have insideFirst : ∀ held ∈ some first, HashesInside 2 held := by decide
  have insideSecond : ∀ held ∈ some second, HashesInside 2 held := by decide
  have reached : TableReachable 2
      ⟨2, 2, [⟨0, []⟩, ⟨2, [.ofPair (first, one), .ofPair (second, one)]⟩], rfl⟩ :=
    .put (.put (.put (.create created) insideFirst failed) insideSecond stored) insideFirst joined
  exact ⟨_, rfl, (reachable_table_invariant (by decide) reached).1⟩

end ChainTable
