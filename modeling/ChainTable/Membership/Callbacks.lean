import ChainTable.Local.TableHistory
import ChainTable.Membership.HeadAndTail
import ChainTable.Server.StubLaws

/-! What becomes of a server whose neighbours change while connections to them may fail. -/

namespace ChainTable

variable {ρ : Type}

/-- What the registry and the network have in store for one callback. -/
structure Outcomes (ρ : Type) where
  /-- The address that `zoo_get` finds at a path. -/
  address : Key → Key
  /-- Addresses are shorter than the room for the data of a node. -/
  short : ∀ path, (address path).bytes.length < zDataLen
  /-- What `rtable_connect` returns for an address, none for NULL. -/
  connect : Key → Option ρ
  /-- What `network_send_receive` returns to the question for a table, none for NULL. -/
  response : Option MessageT
  /-- What happens to be in the buffer that the callback allocates. -/
  fresh : List UInt8
  length_fresh : fresh.length = zDataLen

/-- The data at a path: the address, with the terminator it was registered with. -/
def Outcomes.stored (outcomes : Outcomes ρ) (path : Key) : Option (List UInt8) :=
  some ((outcomes.address path).bytes ++ [0])

/-- The registry as the callback meets it. -/
def Outcomes.registry (outcomes : Outcomes ρ) : Registry ρ where
  zooGet := copyingGet outcomes.stored
  rtableConnect := outcomes.connect
  fresh := outcomes.fresh
  length_fresh := outcomes.length_fresh

/-- The exchange with the server behind a connection. -/
def Outcomes.exchange (outcomes : Outcomes ρ) (_connection : ρ) : SendReceive Unit :=
  fun _ => pure outcomes.response

/-- A change of the membership, as one of the two callbacks of a server sees it. -/
inductive MembershipEvent (ρ : Type) where
  /-- `select_next_server` is called with a list of children. -/
  | next (outcomes : Outcomes ρ) (children : List Key)
  /-- `select_prev_server` is called with a list of children. -/
  | prev (outcomes : Outcomes ρ) (children : List Key)

/-- What the callbacks change of a server. -/
structure Member (ρ : Type) where
  nextServer : Option ρ
  table : Table

/-- The callback for one event. -/
def callback (rootPath zkNodeId : Key) (member : Member ρ) : MembershipEvent ρ → C (Member ρ)
  | .next outcomes children => do
    let (nextServer, _) ← selectNextServer outcomes.registry rootPath zkNodeId children
      member.nextServer
    return { member with nextServer := nextServer }
  | .prev outcomes children => do
    let (table, _) ← selectPrevServer outcomes.registry outcomes.exchange rootPath zkNodeId
      children member.table ()
    return { member with table := table }

/-- The outcomes that a callback meets. -/
def MembershipEvent.outcomes : MembershipEvent ρ → Outcomes ρ
  | .next outcomes _ | .prev outcomes _ => outcomes

/-- The child that the callback asks for as a predecessor, if any. -/
def MembershipEvent.predecessor (zkNodeId : Key) : MembershipEvent ρ → Option Key
  | .next _ _ => none
  | .prev _ children => prevChild zkNodeId (sortedChildren children).reverse

/-- The child that the callback asks the registry for, if any. -/
def MembershipEvent.asked (zkNodeId : Key) (event : MembershipEvent ρ) : Option Key :=
  match event with
  | .next _ children => nextChild zkNodeId (sortedChildren children)
  | .prev _ children => (event.predecessor zkNodeId).or
    -- The head asks for itself.
    ((sortedChildren children).head?.filter fun first => strcmp first zkNodeId = 0)

/-- The connection that the callback asks for is NULL. -/
def MembershipEvent.Refused (rootPath zkNodeId : Key) (event : MembershipEvent ρ) : Prop :=
  ∃ child ∈ event.asked zkNodeId,
    event.outcomes.connect (event.outcomes.address (childPath rootPath child)) = none

/-- Every callback returns, and one whose connection is refused leaves the server as it was. -/
def RunsSafely (rootPath zkNodeId : Key) : List (MembershipEvent ρ) → Member ρ → Prop
  | [], _ => True
  | event :: events, member => ∃ after : Member ρ,
    callback rootPath zkNodeId member event [] = .ok (after, []) ∧
      (event.Refused rootPath zkNodeId → after = member) ∧
      RunsSafely rootPath zkNodeId events after

/-- The table behind a connection arrives, and every key in it has a row in the own table. -/
def Outcomes.Merges (rows : Nat) (outcomes : Outcomes ρ) : Prop :=
  ∃ reply, rtableGetTable (fun _ => pure outcomes.response) () [] = .ok ((reply, ()), []) ∧
    ∀ entries ∈ reply, ∀ entry, some entry ∈ entries →
      ∀ key ∈ entry.key, HashesInside rows key

/-- The child that a callback asks for can be reached, and a predecessor's table be merged. -/
structure MembershipEvent.Succeeds (rootPath zkNodeId : Key) (rows : Nat)
    (event : MembershipEvent ρ) : Prop where
  fits : ∀ child ∈ event.asked zkNodeId, PathFits rootPath child
  connects : ¬ event.Refused rootPath zkNodeId
  merges : event.predecessor zkNodeId ≠ none → event.outcomes.Merges rows

section Connections

variable (rootPath zkNodeId : Key)

/-- The connection that is asked for at a child, unless its path does not fit or it is NULL. -/
def Outcomes.reach (outcomes : Outcomes ρ) (rootPath child : Key) : Except Fault ρ :=
  if PathFits rootPath child then
    match outcomes.connect (outcomes.address (childPath rootPath child)) with
    | some connection => .ok connection
    -- The message about the failure reads the address from the NULL pointer.
    | none => .error .nullDereference
  else .error .outOfBounds

/-- The data of a child is its address, and a connection to it is given or read from NULL. -/
theorem reach_outcomes (outcomes : Outcomes ρ) (child : Key) :
    (∃ metadata, childMetadata outcomes.registry rootPath child [] = .ok (some metadata, []) ∧
      connectTo outcomes.registry metadata [] =
        (outcomes.reach rootPath child).map fun connection => (connection, [])) ∨
    ∃ fault, childMetadata outcomes.registry rootPath child [] = .error fault ∧
      outcomes.reach rootPath child = .error fault := by
  -- The address and its terminator fit the buffer, so that both are copied.
  have room : ((outcomes.address (childPath rootPath child)).bytes.length : Int) <
      (zDataLen : Int) := by exact_mod_cast outcomes.short _
  have held : outcomes.stored (childPath rootPath child) =
      some ((outcomes.address (childPath rootPath child)).bytes ++ [0]) := rfl
  have copied := copyingGet_fits held outcomes.fresh room
  unfold childMetadata
  rw [run_bind mallocUnchecked_nil, nodePath_eq]
  by_cases fits : PathFits rootPath child
  · rw [if_pos fits, pure_bind]
    simp only [Outcomes.registry, copied, Option.map_some]
    refine .inl ⟨_, rfl, ?_⟩
    unfold connectTo
    rw [cString_terminated, pure_bind, Outcomes.reach, if_pos fits]
    dsimp only
    cases outcomes.connect (outcomes.address (childPath rootPath child)) <;> rfl
  · rw [if_neg fits]
    exact .inr ⟨.outOfBounds, rfl, by rw [Outcomes.reach, if_neg fits]⟩

/-- Whatever goes on with a connection once there is data goes on with the one that is reached. -/
theorem reach_bind {α : Type} (outcomes : Outcomes ρ) (child : Key)
    {body : Option (List UInt8) → C α} {next : ρ → C α}
    (connects : ∀ metadata, body (some metadata) =
      connectTo outcomes.registry metadata >>= next) :
    (childMetadata outcomes.registry rootPath child >>= body) [] =
      match outcomes.reach rootPath child with
      | .ok connection => next connection []
      | .error fault => .error fault := by
  rcases reach_outcomes rootPath outcomes child with
    ⟨metadata, got, connected⟩ | ⟨fault, failed, unreached⟩
  · rw [run_bind got, connects]
    -- The data is there, and the connection to it is given or not.
    cases reached : outcomes.reach rootPath child with
    | ok connection =>
      rw [reached] at connected
      exact run_bind connected
    | error fault =>
      rw [reached] at connected
      exact run_bind_error connected
  · rw [run_bind_error failed, unreached]

/-- `select_next_server` returns with the connection to the child it asks for, or faults. -/
theorem selectNextServer_outcomes (outcomes : Outcomes ρ) (children : List Key)
    (nextServer : Option ρ) :
    selectNextServer outcomes.registry rootPath zkNodeId children nextServer [] =
      match (MembershipEvent.next outcomes children).asked zkNodeId with
      | none => .ok ((none, nextServer.toList), [])
      | some child => (outcomes.reach rootPath child).map fun connection =>
          ((some connection, nextServer.toList), []) := by
  -- The child is the one at which the loop over the sorted children breaks.
  unfold selectNextServer
  rw [bubbleSort_sorts, pure_bind]
  simp only [MembershipEvent.asked]
  cases nextChild zkNodeId (sortedChildren children) with
  | none => rfl
  | some child =>
    dsimp only
    rw [reach_bind rootPath outcomes child fun _ => rfl]
    cases outcomes.reach rootPath child <;> rfl

/-- `select_prev_server` keeps the connection to a predecessor that it asks for, or faults. -/
theorem connectPrevServer_outcomes (outcomes : Outcomes ρ) (children : List Key) :
    connectPrevServer outcomes.registry rootPath zkNodeId children [] =
      match (MembershipEvent.prev outcomes children).asked zkNodeId with
      | none => .ok (none, [])
      | some child => (outcomes.reach rootPath child).map fun connection =>
          (((MembershipEvent.prev outcomes children).predecessor zkNodeId).map fun _ => connection,
            []) := by
  unfold connectPrevServer
  rw [bubbleSort_sorts, pure_bind]
  simp only [MembershipEvent.asked, MembershipEvent.predecessor]
  cases prevChild zkNodeId (sortedChildren children).reverse with
  | some child =>
    -- The predecessor is asked for, and its connection is kept.
    rw [Option.some_or]
    dsimp only
    rw [reach_bind rootPath outcomes child fun _ => rfl]
    cases outcomes.reach rootPath child <;> rfl
  | none =>
    rw [Option.none_or]
    cases sortedChildren children with
    | nil => rfl
    | cons first rest =>
      dsimp only [List.head?_cons]
      by_cases own : strcmp first zkNodeId = 0
      · -- The head asks for itself, and keeps no connection.
        rw [Option.filter_some_pos (by simpa using own), if_pos own]
        dsimp only
        rw [reach_bind rootPath outcomes first fun _ => rfl]
        cases outcomes.reach rootPath first <;> rfl
      · rw [Option.filter_some_neg (by simpa using own), if_neg own]
        rfl

/-- `select_prev_server` merges with the predecessor behind the connection, if it asked for one. -/
theorem selectPrevServer_outcomes (outcomes : Outcomes ρ) (children : List Key) (table : Table) :
    selectPrevServer outcomes.registry outcomes.exchange rootPath zkNodeId children table () [] =
      match (MembershipEvent.prev outcomes children).asked zkNodeId with
      | none => .ok ((table, ()), [])
      | some child =>
        match outcomes.reach rootPath child with
        | .error fault => .error fault
        | .ok connection =>
          if (MembershipEvent.prev outcomes children).predecessor zkNodeId = none then
            .ok ((table, ()), [])
          else mergeTable (outcomes.exchange connection) table () [] := by
  -- Nothing is merged unless there is a connection to a predecessor.
  have connected := connectPrevServer_outcomes rootPath zkNodeId outcomes children
  unfold selectPrevServer
  cases asked : (MembershipEvent.prev outcomes children).asked zkNodeId with
  | none =>
    rw [asked] at connected
    rw [runOver_bind (runOver_lift connected)]
    rfl
  | some child =>
    rw [asked] at connected
    dsimp only at connected ⊢
    cases reached : outcomes.reach rootPath child with
    | error fault =>
      rw [reached] at connected
      exact runOver_bind_error (runOver_lift_error connected)
    | ok connection =>
      rw [reached] at connected
      cases before : (MembershipEvent.prev outcomes children).predecessor zkNodeId with
      | none =>
        rw [before] at connected
        rw [runOver_bind (runOver_lift connected)]
        rfl
      | some _ =>
        rw [before] at connected
        rw [runOver_bind (runOver_lift connected)]
        rfl

end Connections

section Merging

variable {rows : Nat}

/-- The merge of pairs that all have a row returns with the table of a store. -/
theorem mergeLoop_inside {pairs : List (Key × Block)}
    (inside : ∀ pair ∈ pairs, HashesInside rows pair.1) (store : Store rows) :
    ∃ next : Store rows, mergeLoop (.ofStore store)
      ((pairs.map fun pair => some (.ofPair pair)) ++ [none]) [] = .ok (.ofStore next, []) := by
  -- Each pair is put in turn, for which memory is given.
  induction pairs generalizing store with
  | nil => exact ⟨store, rfl⟩
  | cons pair pairs ih =>
    obtain ⟨here, later⟩ := List.forall_mem_cons.mp inside
    obtain ⟨next, merged⟩ := ih later (store.insert pair.1 pair.2 here)
    refine ⟨next, ?_⟩
    simp only [List.map_cons, List.cons_append, mergeLoop, Entry.ofPair]
    rw [run_bind (tablePut_attempts store (contents_ofBlock pair.2) here).succeeds]
    exact merged

/-- The merge of pairs one of which has no row faults. -/
theorem mergeLoop_outside {pairs : List (Key × Block)}
    (outside : ∃ pair ∈ pairs, ¬ HashesInside rows pair.1) (store : Store rows) :
    mergeLoop (.ofStore store) ((pairs.map fun pair => some (.ofPair pair)) ++ [none]) [] =
      .error .outOfBounds := by
  -- The pairs before it are put, and then a row outside of the array is read.
  induction pairs generalizing store with
  | nil => simp at outside
  | cons pair pairs ih =>
    simp only [List.map_cons, List.cons_append, mergeLoop, Entry.ofPair]
    by_cases here : HashesInside rows pair.1
    · rw [run_bind (tablePut_attempts store (contents_ofBlock pair.2) here).succeeds]
      refine ih ?_ _
      obtain ⟨other, member, without⟩ := outside
      rcases List.mem_cons.mp member with rfl | later
      · exact absurd here without
      · exact ⟨other, later, without⟩
    · rw [run_bind_error (tablePut_outside store (contents_ofBlock pair.2) here)]

/-- A merge returns with the table of a store when the table of the predecessor has rows there. -/
theorem mergeTable_merges {outcomes : Outcomes ρ} (merges : outcomes.Merges rows)
    (store : Store rows) (connection : ρ) :
    ∃ next : Store rows, mergeTable (outcomes.exchange connection) (.ofStore store) () [] =
      .ok ((.ofStore next, ()), []) := by
  -- What arrives are pairs with a row each, or nothing at all.
  obtain ⟨reply, fetched, inside⟩ := merges
  unfold mergeTable Outcomes.exchange
  rw [runOver_bind fetched]
  rcases rtableGetTable_cases outcomes.response with ⟨fault, faulted⟩ | missing | ⟨pairs, copied⟩
  · rw [faulted] at fetched
    cases fetched
  · rw [missing] at fetched
    cases fetched
    exact ⟨store, rfl⟩
  · rw [copied] at fetched
    cases fetched
    have rows : ∀ pair ∈ pairs, HashesInside rows pair.1 := fun pair member =>
      inside _ rfl (.ofPair pair)
        (List.mem_append_left _ (List.mem_map.mpr ⟨pair, member, rfl⟩)) pair.1 rfl
    obtain ⟨next, merged⟩ := mergeLoop_inside rows store
    exact ⟨next, runOver_lift merged⟩

/-- A merge faults in any other case. -/
theorem mergeTable_faults {outcomes : Outcomes ρ} (fails : ¬ outcomes.Merges rows)
    (store : Store rows) (connection : ρ) :
    ∃ fault, mergeTable (outcomes.exchange connection) (.ofStore store) () [] = .error fault := by
  -- A table that does not arrive faults, and so does a pair without a row.
  unfold mergeTable Outcomes.exchange
  rcases rtableGetTable_cases outcomes.response with ⟨fault, faulted⟩ | missing | ⟨pairs, copied⟩
  · exact ⟨fault, runOver_bind_error faulted⟩
  · exact absurd ⟨none, missing, by simp⟩ fails
  · rw [runOver_bind copied]
    refine ⟨.outOfBounds, runOver_lift_error (mergeLoop_outside ?_ store)⟩
    -- Were there a row for every pair, the merge would have gone through.
    by_contra! inside
    refine fails ⟨_, copied, fun entries same entry member key named => ?_⟩
    cases same
    simp only [List.mem_append, List.mem_map, List.mem_singleton, reduceCtorEq, or_false] at member
    obtain ⟨pair, stored, same⟩ := member
    cases same
    cases named
    exact inside pair stored

end Merging

section Runs

variable {rootPath zkNodeId : Key} {rows : Nat}

/-- A connection to a child is reached when the path to it fits and the connection is not NULL. -/
theorem Outcomes.reach_iff (outcomes : Outcomes ρ) (child : Key) :
    (∃ connection, outcomes.reach rootPath child = .ok connection) ↔ PathFits rootPath child ∧
      outcomes.connect (outcomes.address (childPath rootPath child)) ≠ none := by
  -- Both tests of the definition are read off.
  unfold Outcomes.reach
  by_cases fits : PathFits rootPath child
  · cases outcomes.connect (outcomes.address (childPath rootPath child)) <;> simp [fits]
  · simp [fits]

/-- A callback that asks for nobody succeeds. -/
theorem MembershipEvent.succeeds_unasked {event : MembershipEvent ρ}
    (unasked : event.asked zkNodeId = none) : event.Succeeds rootPath zkNodeId rows where
  fits child isAsked := by
    rw [unasked] at isAsked
    cases isAsked
  connects := by
    rintro ⟨child, isAsked, -⟩
    rw [unasked] at isAsked
    cases isAsked
  merges hasPredecessor := by
    cases event with
    | next _ _ => exact absurd rfl hasPredecessor
    | prev _ _ =>
      -- A predecessor would have been asked for.
      obtain ⟨child, before⟩ := Option.ne_none_iff_exists'.mp hasPredecessor
      rw [asked, before, Option.some_or] at unasked
      cases unasked

/-- A callback that asks for a child succeeds when it reaches it and can merge its table. -/
theorem MembershipEvent.succeeds_iff {event : MembershipEvent ρ} {child : Key}
    (isAsked : event.asked zkNodeId = some child) :
    event.Succeeds rootPath zkNodeId rows ↔
      (∃ connection, event.outcomes.reach rootPath child = .ok connection) ∧
        (event.predecessor zkNodeId ≠ none → event.outcomes.Merges rows) := by
  -- The child that is asked for is the only one.
  rw [Outcomes.reach_iff]
  constructor
  · rintro ⟨fits, connects, merges⟩
    exact ⟨⟨fits child isAsked, fun refused => connects ⟨child, isAsked, refused⟩⟩, merges⟩
  · rintro ⟨⟨fits, given⟩, merges⟩
    refine ⟨fun other otherAsked => ?_, fun ⟨other, otherAsked, refused⟩ => ?_, merges⟩
    · rw [isAsked] at otherAsked
      cases otherAsked
      exact fits
    · rw [isAsked] at otherAsked
      cases otherAsked
      exact given refused

/-- What becomes of a server with the table of a store: another such server, or a fault. -/
def Settles (rootPath zkNodeId : Key) (event : MembershipEvent ρ) (rows : Nat)
    (member : Member ρ) : Prop :=
  (event.Succeeds rootPath zkNodeId rows ∧
    ∃ (after : Member ρ) (next : Store rows), after.table = .ofStore next ∧
      callback rootPath zkNodeId member event [] = .ok (after, [])) ∨
  (¬ event.Succeeds rootPath zkNodeId rows ∧
    ∃ fault, callback rootPath zkNodeId member event [] = .error fault)

/-- `select_next_server` succeeds when it can connect to the child it asks for. -/
theorem nextCallback_settles (rootPath zkNodeId : Key) (outcomes : Outcomes ρ)
    (children : List Key) (nextServer : Option ρ) (store : Store rows) :
    Settles rootPath zkNodeId (.next outcomes children) rows ⟨nextServer, .ofStore store⟩ := by
  have selected := selectNextServer_outcomes rootPath zkNodeId outcomes children nextServer
  cases isAsked : (MembershipEvent.next outcomes children).asked zkNodeId with
  | none =>
    -- The tail asks for nobody, and gives its successor up.
    rw [isAsked] at selected
    exact .inl ⟨MembershipEvent.succeeds_unasked isAsked, ⟨none, .ofStore store⟩, store, rfl,
      run_bind selected⟩
  | some child =>
    rw [isAsked] at selected
    dsimp only at selected
    rw [Settles, MembershipEvent.succeeds_iff isAsked]
    simp only [MembershipEvent.outcomes, MembershipEvent.predecessor, ne_eq, not_true_eq_false,
      false_implies, and_true]
    cases reached : outcomes.reach rootPath child with
    | error fault =>
      rw [reached] at selected
      exact .inr ⟨by simp, fault, run_bind_error selected⟩
    | ok connection =>
      rw [reached] at selected
      exact .inl ⟨⟨connection, rfl⟩, ⟨some connection, .ofStore store⟩, store, rfl,
        run_bind selected⟩

/-- `select_prev_server` succeeds when it can connect, and merge the table of a predecessor. -/
theorem prevCallback_settles (rootPath zkNodeId : Key) (outcomes : Outcomes ρ)
    (children : List Key) (nextServer : Option ρ) (store : Store rows) :
    Settles rootPath zkNodeId (.prev outcomes children) rows ⟨nextServer, .ofStore store⟩ := by
  have selected := selectPrevServer_outcomes rootPath zkNodeId outcomes children (.ofStore store)
  cases isAsked : (MembershipEvent.prev outcomes children).asked zkNodeId with
  | none =>
    -- A server that is not in the list asks for nobody.
    rw [isAsked] at selected
    exact .inl ⟨MembershipEvent.succeeds_unasked isAsked, ⟨nextServer, .ofStore store⟩, store, rfl,
      run_bind selected⟩
  | some child =>
    rw [isAsked] at selected
    dsimp only at selected
    rw [Settles, MembershipEvent.succeeds_iff isAsked]
    simp only [MembershipEvent.outcomes]
    cases reached : outcomes.reach rootPath child with
    | error fault =>
      rw [reached] at selected
      exact .inr ⟨by simp, fault, run_bind_error selected⟩
    | ok connection =>
      rw [reached] at selected
      dsimp only at selected
      by_cases isHead : (MembershipEvent.prev outcomes children).predecessor zkNodeId = none
      · -- The head has nobody to merge with.
        rw [if_pos isHead] at selected
        exact .inl ⟨⟨⟨connection, rfl⟩, fun other => absurd isHead other⟩,
          ⟨nextServer, .ofStore store⟩, store, rfl, run_bind selected⟩
      · rw [if_neg isHead] at selected
        by_cases merges : outcomes.Merges rows
        · obtain ⟨next, merged⟩ := mergeTable_merges merges store connection
          rw [merged] at selected
          exact .inl ⟨⟨⟨connection, rfl⟩, fun _ => merges⟩, ⟨nextServer, .ofStore next⟩, next,
            rfl, run_bind selected⟩
        · obtain ⟨fault, faulted⟩ := mergeTable_faults merges store connection
          rw [faulted] at selected
          exact .inr ⟨fun succeeds => merges (succeeds.2 isHead), fault,
            run_bind_error selected⟩

/-- A callback that succeeds leaves the table of a store, and any other one faults. -/
theorem callback_settles (rootPath zkNodeId : Key) (event : MembershipEvent ρ) {member : Member ρ}
    {store : Store rows} (held : member.table = .ofStore store) :
    Settles rootPath zkNodeId event rows member := by
  obtain ⟨nextServer, table⟩ := member
  obtain rfl : table = .ofStore store := held
  cases event with
  | next outcomes children =>
    exact nextCallback_settles rootPath zkNodeId outcomes children nextServer store
  | prev outcomes children =>
    exact prevCallback_settles rootPath zkNodeId outcomes children nextServer store

/-- With the table of a store, a run is safe exactly when all of its callbacks succeed. -/
theorem runsSafely_iff (events : List (MembershipEvent ρ)) {member : Member ρ} {store : Store rows}
    (held : member.table = .ofStore store) :
    RunsSafely rootPath zkNodeId events member ↔
      ∀ event ∈ events, event.Succeeds rootPath zkNodeId rows := by
  -- Each callback that succeeds leaves the table of a store to the next one.
  induction events generalizing member store with
  | nil => simp [RunsSafely]
  | cons event events ih =>
    rw [RunsSafely, List.forall_mem_cons]
    rcases callback_settles rootPath zkNodeId event held with
      ⟨succeeds, after, next, heldAfter, returned⟩ | ⟨fails, fault, faulted⟩
    · constructor
      · rintro ⟨after', returned', -, safely⟩
        rw [returned] at returned'
        cases returned'
        exact ⟨succeeds, (ih heldAfter).mp safely⟩
      · rintro ⟨-, succeed⟩
        exact ⟨after, returned, fun refused => absurd refused succeeds.connects,
          (ih heldAfter).mpr succeed⟩
    · constructor
      · rintro ⟨after', returned', -⟩
        rw [faulted] at returned'
        cases returned'
      · rintro ⟨succeeds, -⟩
        exact absurd succeeds fails

/-- Every run of the callbacks is safe exactly when each of them gets what it asks for. -/
theorem membership_runs_safely_iff {member : Member ρ} (reached : TableReachable rows member.table)
    (rootPath zkNodeId : Key) (events : List (MembershipEvent ρ)) :
    RunsSafely rootPath zkNodeId events member ↔
      ∀ event ∈ events, event.Succeeds rootPath zkNodeId rows := by
  -- A table that was reached is that of a store.
  obtain ⟨store, held⟩ := reached.exists_store reached.positive
  exact runsSafely_iff events held

end Runs

/-- A server of one row survives that it gets a predecessor and then a successor. -/
theorem membership_runs_safely_iff_joins :
    let rootPath : Key := ⟨[47, 99], by decide⟩
    let before : Key := ⟨[97], by decide⟩
    let own : Key := ⟨[98], by decide⟩
    let after : Key := ⟨[99], by decide⟩
    let address : Key := ⟨[49, 46, 49, 46, 49, 46, 49, 58, 56, 48], by decide⟩
    let block : Block := ⟨[7], by decide⟩
    let response : MessageT :=
      { opcode := opGetTable + 1, nEntries := 1,
        entries := some (sentEntries [(before, block)] ++ [none]) }
    let outcomes : Outcomes Key :=
      ⟨fun _ => address, fun _ => by decide, some, some response, zeroBuffer, length_zeroBuffer⟩
    RunsSafely rootPath own [.prev outcomes [own, before], .next outcomes [own, after, before]]
      ⟨none, ⟨0, 1, [⟨0, []⟩], rfl⟩⟩ := by
  -- Both events succeed, for which only the merge needs more than a look.
  intro rootPath before own after address block response outcomes
  have created : tableCreate 1 [] = .ok (some ⟨0, 1, [⟨0, []⟩], rfl⟩, []) := rfl
  have inside : HashesInside 1 before := by decide
  -- The table of the predecessor arrives with its one entry.
  have merges : outcomes.Merges 1 := by
    have answered : (fun _ => pure (some response) : SendReceive Unit) (bareRequest opGetTable) ()
        [] = .ok ((some response, ()), []) := rfl
    have fetched : rtableGetTable (fun _ => pure (some response)) () [] =
        .ok ((some (([(before, block)].map fun pair => some (.ofPair pair)) ++ [none]), ()), []) :=
      rtableGetTable_answered answered rfl rfl rfl
    refine ⟨_, fetched, fun entries isReply held member key named => ?_⟩
    cases isReply
    simp only [List.map_cons, List.map_nil, List.cons_append, List.nil_append, List.mem_cons,
      Option.some.injEq, reduceCtorEq, List.not_mem_nil, or_false] at member
    subst member
    cases named
    exact inside
  refine (membership_runs_safely_iff (.create created) rootPath own _).mpr ?_
  rintro event (_ | ⟨_, _ | ⟨_, member⟩⟩)
  · refine ⟨?_, ?_, fun _ => merges⟩
    · have asked : (MembershipEvent.prev outcomes [own, before]).asked own = some before := by
        decide
      rw [asked]
      decide
    · rintro ⟨child, -, refused⟩
      cases refused
  · refine ⟨?_, ?_, fun hasPredecessor => absurd rfl hasPredecessor⟩
    · have asked : (MembershipEvent.next outcomes [own, after, before]).asked own =
          some after := by decide
      rw [asked]
      decide
    · rintro ⟨child, -, refused⟩
      cases refused
  · cases member

/-- A server does not survive that it cannot connect to its successor, or to its predecessor. -/
theorem refused_connection_is_read :
    let rootPath : Key := ⟨[47, 99], by decide⟩
    let first : Key := ⟨[97], by decide⟩
    let second : Key := ⟨[98], by decide⟩
    let address : Key := ⟨[49, 46, 49, 46, 49, 46, 49, 58, 56, 48], by decide⟩
    let refusing : Outcomes Unit :=
      ⟨fun _ => address, fun _ => by decide, fun _ => none, none, zeroBuffer, length_zeroBuffer⟩
    let member : Member Unit := ⟨none, ⟨0, 1, [⟨0, []⟩], rfl⟩⟩
    callback rootPath first member (.next refusing [first, second]) [] =
        .error .nullDereference ∧
      callback rootPath second member (.prev refusing [first, second]) [] =
        .error .nullDereference ∧
      ¬ RunsSafely rootPath first [.next refusing [first, second]] member ∧
      ¬ RunsSafely rootPath second [.prev refusing [first, second]] member := by
  -- The neighbour is asked for in either case, and its connection is NULL.
  intro rootPath first second address refusing member
  have ends : ∀ child ∈ [first, second],
      refusing.reach rootPath child = .error .nullDereference := by
    intro child member
    have fits : PathFits rootPath child := by
      revert child
      decide
    exact if_pos fits
  have nextAsked : (MembershipEvent.next refusing [first, second]).asked first = some second := by
    decide
  have prevAsked : (MembershipEvent.prev refusing [first, second]).asked second = some first := by
    decide
  have next : callback rootPath first member (.next refusing [first, second]) [] =
      .error .nullDereference := by
    refine run_bind_error ?_
    rw [selectNextServer_outcomes, nextAsked]
    dsimp only
    rw [ends second (by simp)]
    rfl
  have prev : callback rootPath second member (.prev refusing [first, second]) [] =
      .error .nullDereference := by
    refine run_bind_error ?_
    rw [selectPrevServer_outcomes, prevAsked]
    dsimp only
    rw [ends first (by simp)]
  refine ⟨next, prev, ?_, ?_⟩
  · rintro ⟨after, returned, -⟩
    rw [next] at returned
    cases returned
  · rintro ⟨after, returned, -⟩
    rw [prev] at returned
    cases returned

end ChainTable
