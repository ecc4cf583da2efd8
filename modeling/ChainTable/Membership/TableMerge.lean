import ChainTable.Local.TableHistory
import ChainTable.Membership.Selection
import ChainTable.Server.ChainLaws

/-! The table of a predecessor, fetched from its server and merged entry by entry into another. -/

namespace ChainTable

/-- Any server of a chain answers a question for its table with the pairs that it holds. -/
theorem rtableGetTable_served {n : Nat} {chain : Chain n} {contents : Contents}
    (holds : chain.head.server.table.Holds contents) :
    ∃ (pairs : List (Key × Block)) (chain' : Chain n), (pairs.map Prod.fst).Nodup ∧
      (∀ key block, (key, block) ∈ pairs ↔ contents.lookup key = some block) ∧
      chain'.head.server.table = chain.head.server.table ∧
      rtableGetTable (serve n) chain [] =
        .ok ((if pairs = [] then none
          else some ((pairs.map fun pair => some (Entry.ofPair pair)) ++ [none]), chain'), []) := by
  -- The question is answered by the server itself, whose successors are not asked.
  -- The server invokes the question without its successors.
  have answered : ∃ (chain' : Chain n) (reply : MessageT),
      chain'.head.server.table = chain.head.server.table ∧
      serve n (bareRequest opGetTable) chain [] = .ok ((some reply, chain'), []) ∧
      EntriesReply contents reply := by
    cases n with
    | zero =>
      let node : Node := chain
      have invoked : ∃ (served : Server) (code : Int) (reply : MessageT),
          served.table = node.server.table ∧
          invoke (none : Option (Successor Unit)) (some (bareRequest opGetTable)) node.server ()
            [] = .ok (((code, reply, served), ()), []) ∧ EntriesReply contents reply :=
        invoke_getTable holds rfl
      obtain ⟨served, code, reply, kept, ran, replied⟩ := invoked
      exact ⟨({ node with server := served } : Node), reply, kept, serve_tail ran, replied⟩
    | succ n =>
      obtain ⟨node, rest⟩ := chain
      have invoked : ∃ (served : Server) (code : Int) (reply : MessageT),
          served.table = node.server.table ∧
          invoke (some (overLink (rtableSuccessor (serve n)))) (some (bareRequest opGetTable))
            node.server (node.link, rest) [] =
            .ok (((code, reply, served), (node.link, rest)), []) ∧ EntriesReply contents reply :=
        invoke_getTable holds rfl
      obtain ⟨served, code, reply, kept, ran, replied⟩ := invoked
      exact ⟨(({ server := served, link := node.link }, rest) : Chain (n + 1)), reply, kept,
        serve_linked ran, replied⟩
  obtain ⟨chain', reply, kept, answered, pairs, nodup, members, replied⟩ := answered
  refine ⟨pairs, chain', nodup, members, kept, ?_⟩
  -- The server of an empty table answers with an error, for which the caller gets NULL.
  by_cases empty : pairs = []
  · rw [if_pos empty] at replied
    rw [rtableGetTable_error answered replied, if_pos empty]
  · rw [if_neg empty] at replied
    rw [rtableGetTable_answered answered replied.1 replied.2.1 replied.2.2, if_neg empty]

/-- The loop of the merge puts every pair, and leaves what is stored under other keys. -/
theorem mergeLoop_pairs {pairs : List (Key × Block)} (nodup : (pairs.map Prod.fst).Nodup)
    {table : Table} {contents : Contents} (holds : table.Holds contents)
    (inside : ∀ pair ∈ pairs, table.Inside pair.1) :
    ∃ (after : Table) (merged : Contents), after.Holds merged ∧ after.rows = table.rows ∧
      mergeLoop table ((pairs.map fun pair => some (Entry.ofPair pair)) ++ [none]) [] =
        .ok (after, []) ∧
      (∀ key block, (key, block) ∈ pairs → merged.lookup key = some block) ∧
      ∀ key, key ∉ pairs.map Prod.fst → merged.lookup key = contents.lookup key := by
  -- Each pair is put in turn, and every put leaves the other keys alone.
  induction pairs generalizing table contents with
  | nil =>
    exact ⟨table, contents, holds, rfl, rfl, fun key block member => (by cases member),
      fun _ _ => rfl⟩
  | cons pair rest ih =>
    obtain ⟨key, block⟩ := pair
    obtain ⟨fresh, nodup⟩ := List.nodup_cons.mp nodup
    obtain ⟨next, holdsNext, sameRows, attempts⟩ :=
      holds.put (contents_ofBlock block) (inside (key, block) (by simp))
    have insideNext : ∀ pair ∈ rest, next.Inside pair.1 := fun pair member => by
      rw [Table.Inside, sameRows]
      exact inside pair (List.mem_cons_of_mem _ member)
    obtain ⟨after, merged, holdsAfter, rows, ran, put, kept⟩ := ih nodup holdsNext insideNext
    refine ⟨after, merged, holdsAfter, by rw [rows, sameRows], ?_, ?_, ?_⟩
    · simp only [List.map_cons, List.cons_append, mergeLoop, Entry.ofPair]
      rw [run_bind attempts.succeeds]
      exact ran
    · intro other stored member
      rcases List.mem_cons.mp member with same | later
      · -- No later pair has the key of the first one.
        cases same
        rw [kept key fresh, contents_insert, if_pos rfl]
      · exact put other stored later
    · intro other absent
      obtain ⟨differs, absent⟩ := not_or.mp (List.mem_cons.not.mp absent)
      rw [kept other absent, contents_insert, if_neg differs]

/-- The merge with the table of a server of a chain puts what that holds over the own pairs. -/
theorem mergeTable_served {n : Nat} {chain : Chain n} {own : Table} {theirs ours : Contents}
    (holdsTheirs : chain.head.server.table.Holds theirs) (holdsOurs : own.Holds ours)
    (inside : ∀ key ∈ theirs, own.Inside key) :
    ∃ (after : Table) (chain' : Chain n), after.Holds (theirs ∪ ours) ∧
      chain'.head.server.table = chain.head.server.table ∧ after.rows = own.rows ∧
      mergeTable (serve n) own chain [] = .ok ((after, chain'), []) := by
  -- The predecessor answers with its pairs, and the loop puts them.
  obtain ⟨pairs, chain', nodup, members, kept, fetched⟩ := rtableGetTable_served holdsTheirs
  have insidePairs : ∀ pair ∈ pairs, own.Inside pair.1 := fun pair member =>
    inside pair.1 (Finmap.mem_iff.mpr ⟨pair.2, (members pair.1 pair.2).mp member⟩)
  obtain ⟨after, merged, holdsAfter, rows, ran, put, others⟩ :=
    mergeLoop_pairs nodup holdsOurs insidePairs
  -- The pairs are those of the one map, and other keys have what the other map has for them.
  have whole : merged = theirs ∪ ours := by
    refine Finmap.ext_lookup fun key => ?_
    by_cases stored : key ∈ theirs
    · obtain ⟨block, found⟩ := Finmap.mem_iff.mp stored
      rw [Finmap.lookup_union_left stored, found]
      exact put key block ((members key block).mpr found)
    · rw [Finmap.lookup_union_right stored]
      refine others key fun member => stored ?_
      obtain ⟨⟨key, block⟩, paired, rfl⟩ := List.mem_map.mp member
      exact Finmap.mem_iff.mpr ⟨block, (members key block).mp paired⟩
  rw [whole] at holdsAfter
  refine ⟨after, chain', holdsAfter, kept, rows, ?_⟩
  unfold mergeTable
  rw [runOver_bind fetched]
  by_cases empty : pairs = []
  · subst empty
    -- An empty table is answered with NULL, and nothing is put.
    cases ran
    rfl
  · rw [if_neg empty]
    exact runOver_lift ran

/-- Every reachable table holds a map. -/
theorem TableReachable.holds {rows : Nat} (positive : 1 ≤ rows) {table : Table}
    (reached : TableReachable rows table) :
    ∃ contents, table.Holds contents ∧ table.rows = rows := by
  -- A reachable table is that of a store, whose lookups are those of a map.
  obtain ⟨store, rfl⟩ := reached.exists_store positive
  obtain ⟨contents, agree⟩ := store.exists_finmap
  exact ⟨contents, ⟨rows, store, rfl, agree⟩, rfl⟩

/--
Merging the table of a predecessor overrides the own table with it, whatever their rows are.

The predecessor may be any server of a chain, and keeps its table.
-/
theorem merge_overrides {rows ownRows : Nat} (positive : 1 ≤ rows) (ownPositive : 1 ≤ ownRows)
    {table own : Table} (reached : TableReachable rows table)
    (ownReached : TableReachable ownRows own) :
    ∃ theirs ours : Contents, table.Holds theirs ∧ own.Holds ours ∧
      ((∀ key ∈ theirs, HashesInside ownRows key) → ∀ (n : Nat) (chain : Chain n),
        chain.head.server.table = table → ∃ (after : Table) (chain' : Chain n),
          mergeTable (serve n) own chain [] = .ok ((after, chain'), []) ∧
          after.Holds (theirs ∪ ours) ∧ tableSize after = (theirs.keys ∪ ours.keys).card ∧
          chain'.head.server.table = table ∧ (ours = ∅ → after.Holds theirs) ∧
          ∀ key, HashesInside rows key → HashesInside ownRows key →
            ∃ answer ownAnswer, tableGet table (some key) [] = .ok (answer, []) ∧
              tableGet own (some key) [] = .ok (ownAnswer, []) ∧
              tableGet after (some key) [] = .ok (answer.or ownAnswer, [])) := by
  -- The merged table holds the union of both maps, in which the predecessor comes first.
  obtain ⟨theirs, holds, sameRows⟩ := reached.holds positive
  obtain ⟨ours, ownHolds, sameOwnRows⟩ := ownReached.holds ownPositive
  refine ⟨theirs, ours, holds, ownHolds, fun inside n chain same => ?_⟩
  have ownInside : ∀ key, HashesInside ownRows key → own.Inside key := fun key hashes => by
    rw [Table.Inside, sameOwnRows]
    exact hashes
  subst same
  obtain ⟨after, chain', holdsAfter, kept, rowsAfter, merged⟩ :=
    mergeTable_served holds ownHolds fun key stored => ownInside key (inside key stored)
  refine ⟨after, chain', merged, holdsAfter, ?_, kept, ?_, fun key hashes ownHashes => ?_⟩
  · rw [holdsAfter.size, Finmap.keys_union]
  · rintro rfl
    rwa [Finmap.union_empty] at holdsAfter
  · have atTheirs : chain.head.server.table.Inside key := by
      rw [Table.Inside, sameRows]
      exact hashes
    have atAfter : after.Inside key := by
      rw [Table.Inside, rowsAfter]
      exact ownInside key ownHashes
    refine ⟨_, _, holds.get atTheirs, ownHolds.get (ownInside key ownHashes), ?_⟩
    rw [holdsAfter.get atAfter]
    -- A key that the predecessor stores is answered as there, and every other one as before.
    by_cases stored : key ∈ theirs
    · obtain ⟨block, found⟩ := Finmap.mem_iff.mp stored
      rw [Finmap.lookup_union_left stored, found]
      rfl
    · have absent : theirs.lookup key = none := Finmap.lookup_eq_none.mpr stored
      rw [Finmap.lookup_union_right stored, absent]
      rfl

/-- A table of one row takes over the value of a key in both tables, and keeps another key. -/
theorem merge_overrides_two_keys :
    let first : Key := ⟨[97], by decide⟩
    let second : Key := ⟨[98], by decide⟩
    let one : Block := ⟨[1], by decide⟩
    let two : Block := ⟨[2, 3], by decide⟩
    let table : Table := ⟨1, 2, [⟨0, []⟩, ⟨1, [.ofPair (first, one)]⟩], rfl⟩
    let own : Table := ⟨2, 1, [⟨2, [.ofPair (first, two), .ofPair (second, two)]⟩], rfl⟩
    ∃ (after : Table) (chain' : Chain 0),
      mergeTable (serve 0) own ({ server := ⟨table, ⟨0, 0, 0⟩, []⟩, link := [] } : Node) [] =
        .ok ((after, chain'), []) ∧
      tableGet after (some first) [] = .ok (some (.ofBlock one), []) ∧
      tableGet after (some second) [] = .ok (some (.ofBlock two), []) := by
  intro first second one two table own
  have inside : ∀ rows ∈ [1, 2], ∀ key ∈ [first, second], HashesInside rows key := by decide
  have created : tableCreate 2 [] = .ok (some ⟨0, 2, [⟨0, []⟩, ⟨0, []⟩], rfl⟩, []) := rfl
  have put : tablePut ⟨0, 2, [⟨0, []⟩, ⟨0, []⟩], rfl⟩ (some first) (some (.ofBlock one)) [] =
      .ok ((0, table), []) := rfl
  have reached : TableReachable 2 table := .put (.create created) (by simp [inside]) put
  have ownCreated : tableCreate 1 [] = .ok (some ⟨0, 1, [⟨0, []⟩], rfl⟩, []) := rfl
  have ownPut : tablePut ⟨0, 1, [⟨0, []⟩], rfl⟩ (some first) (some (.ofBlock two)) [] =
      .ok ((0, ⟨1, 1, [⟨1, [.ofPair (first, two)]⟩], rfl⟩), []) := rfl
  have ownPutSecond : tablePut ⟨1, 1, [⟨1, [.ofPair (first, two)]⟩], rfl⟩ (some second)
      (some (.ofBlock two)) [] = .ok ((0, own), []) := rfl
  have ownReached : TableReachable 1 own :=
    .put (.put (.create ownCreated) (by simp [inside]) ownPut) (by simp [inside]) ownPutSecond
  obtain ⟨theirs, ours, -, -, merges⟩ :=
    merge_overrides (by decide) (by decide) reached ownReached
  -- Every key hashes to the one row.
  have oneRow : ∀ key : Key, HashesInside 1 key := fun key => by
    have row : hashCode key ((1 : Nat) : Int) = 0 := Int.tmod_one _
    exact ⟨row.ge, row.le.trans_lt (by decide)⟩
  obtain ⟨after, chain', merged, -, -, -, -, answers⟩ := merges (fun key _ => oneRow key) 0
    ({ server := ⟨table, ⟨0, 0, 0⟩, []⟩, link := [] } : Node) rfl
  refine ⟨after, chain', merged, ?_, ?_⟩
  · obtain ⟨answer, ownAnswer, theirGet, ownGet, get⟩ :=
      answers first (by simp [inside]) (by simp [inside])
    have known : tableGet table (some first) [] = .ok (some (.ofBlock one), []) := rfl
    rw [known] at theirGet
    cases theirGet
    exact get
  · obtain ⟨answer, ownAnswer, theirGet, ownGet, get⟩ :=
      answers second (by simp [inside]) (by simp [inside])
    have absent : tableGet table (some second) [] = .ok (none, []) := rfl
    have known : tableGet own (some second) [] = .ok (some (.ofBlock two), []) := rfl
    rw [absent] at theirGet
    rw [known] at ownGet
    cases theirGet
    cases ownGet
    exact get

end ChainTable
