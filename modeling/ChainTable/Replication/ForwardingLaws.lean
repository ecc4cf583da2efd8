import ChainTable.Replication.Forwarding

/-! Servers end with one map when no update overtakes another one of its key on the way down. -/

namespace ChainTable.Forwarding

open ChainTable

/-- An update on its way, as the abstract layer follows it. -/
structure Journey where
  update : Update
  hop : Nat
  retries : Nat

/-- The flight a journey is seen as. -/
def Journey.flight (journey : Journey) : Flight where
  forward := journey.update.forward
  hop := journey.hop
  retries := journey.retries

/-- The updates a server has yet to apply, in the order the head applied them. -/
def pending (server : Nat) (journeys : List Journey) : List Update :=
  (journeys.filter fun journey => journey.hop ≤ server).map Journey.update

/--
Every server is behind the head by exactly the updates it has yet to apply.

Replaying them in the order of the head, each of them applies, and the map of the head results.
-/
structure Behind (state : State) (contents : Nat → Contents) (journeys : List Journey) : Prop where
  held : ∀ (server : Nat) (table : Table), state.tables[server]? = some table →
    table.Holds (contents server)
  flying : state.flights = journeys.map Journey.flight
  started : ∀ journey ∈ journeys, 1 ≤ journey.hop
  replays : ∀ server < state.tables.length,
    Update.ops.Replays (pending server journeys) (contents server) (contents 0)

/-- The key of an update in flight is the key of the update. -/
@[simp] theorem forwardKey_forward (update : Update) :
    forwardKey update.forward = some update.key := by
  -- Both kinds of update pass on their key.
  cases update <;> rfl

/-- An update in flight is forwarded by the request for it. -/
@[simp] theorem forwardRequest_forward (update : Update) :
    forwardRequest update.forward = some update.request := by
  -- Both kinds of update are asked for by what they pass on.
  cases update <;> rfl

/-- What is pending in two parts of a list is pending in the list. -/
theorem pending_append (server : Nat) (earlier later : List Journey) :
    pending server (earlier ++ later) = pending server earlier ++ pending server later := by
  -- The parts are filtered one after another.
  simp [pending]

/-- A journey is pending where it has not been yet. -/
theorem pending_cons (server : Nat) (journey : Journey) (later : List Journey) :
    pending server (journey :: later) =
      if journey.hop ≤ server then journey.update :: pending server later
      else pending server later := by
  -- The first journey is kept by the filter or not.
  by_cases reached : journey.hop ≤ server <;> simp [pending, reached]

/-- Nothing is pending at the head, where every update starts. -/
theorem pending_head {journeys : List Journey} (started : ∀ journey ∈ journeys, 1 ≤ journey.hop) :
    pending 0 journeys = [] := by
  -- No journey is still to reach the head, as all of them have left it.
  rw [pending, List.map_eq_nil_iff, List.filter_eq_nil_iff]
  intro journey member
  have := started journey member
  simp only [decide_eq_true_eq]
  omega

/-- A journey after it has been where it was going: to the next server, or over at the tail. -/
def Journey.goOn (journey : Journey) (servers : Nat) : List Journey :=
  if journey.hop + 1 < servers then [⟨journey.update, journey.hop + 1, 0⟩] else []

/-- An update that was passed on flies as its journey goes on. -/
theorem advance_flight (journey : Journey) (servers : Nat) :
    (Flight.advance journey.flight servers (some journey.update.forward)).toList =
      (journey.goOn servers).map Journey.flight := by
  -- Behind the last server there is no further flight.
  by_cases several : journey.hop + 1 < servers
  · simp [Flight.advance, Journey.flight, Journey.goOn, several]
  · simp [Flight.advance, Journey.flight, Journey.goOn, several]

/-- A journey that goes on has left the head. -/
theorem Journey.started_goOn {journey next : Journey} {servers : Nat}
    (gone : next ∈ journey.goOn servers) : 1 ≤ next.hop := by
  -- The next server is not the head.
  unfold goOn at gone
  split at gone
  · rw [List.mem_singleton.mp gone]
    exact Nat.le_add_left 1 journey.hop
  · cases gone

/-- A journey that goes on is pending at the servers behind the one where it has been. -/
theorem pending_goOn {server servers : Nat} (inside : server < servers) {journey : Journey} :
    pending server (journey.goOn servers) =
      if journey.hop < server then [journey.update] else [] := by
  -- The journey goes on if there is a server behind, and then from the next one.
  unfold Journey.goOn
  by_cases ahead : journey.hop < server
  · have several : journey.hop + 1 < servers := by omega
    rw [if_pos several, if_pos ahead]
    exact (pending_cons server _ []).trans (if_pos ahead)
  · rw [if_neg ahead]
    split
    · exact (pending_cons server _ []).trans (if_neg ahead)
    · rfl

/-- An update that overtakes none of its key may go before everything that is pending in front. -/
theorem keys_differ_of_unovertaken {earlier : List Journey} {journey : Journey}
    (unovertaken : ∀ flight ∈ earlier.map Journey.flight,
      forwardKey flight.forward = forwardKey journey.flight.forward →
        journey.flight.hop < flight.hop) :
    ∀ other ∈ pending journey.hop earlier, other.key ≠ journey.update.key := by
  -- A pending update of the same key would have been overtaken.
  intro other member same
  obtain ⟨ahead, kept, rfl⟩ := List.mem_map.mp member
  obtain ⟨inList, reached⟩ := List.mem_filter.mp kept
  have notYet := unovertaken ahead.flight (List.mem_map.mpr ⟨ahead, inList, rfl⟩) (by
    simp only [Journey.flight, forwardKey_forward, same])
  simp only [Journey.flight, decide_eq_true_eq] at notYet reached
  omega

/-- A server that applied something had a table, and has another one now. -/
theorem applyAt_cases {tables tables' : List Table} {server : Nat} {msg : MessageT}
    {passed : Option Forward} (applied : applyAt tables server msg = some (passed, tables')) :
    ∃ table after mem, tables[server]? = some table ∧
      updateLocally msg table [] = .ok ((passed, after), mem) ∧
        tables' = tables.set server after := by
  -- Without a table, or with a fault, nothing would have been applied.
  unfold applyAt at applied
  cases found : tables[server]? with
  | none =>
    simp only [found] at applied
    cases applied
  | some table =>
    simp only [found] at applied
    cases ran : updateLocally msg table [] with
    | error fault =>
      simp only [ran] at applied
      cases applied
    | ok result =>
      simp only [ran] at applied
      cases applied
      exact ⟨table, _, _, rfl, ran, rfl⟩

/-- Tables hold what they held, but for one that was replaced. -/
theorem held_set {tables : List Table} {contents : Nat → Contents}
    (held : ∀ (server : Nat) (table : Table), tables[server]? = some table →
      table.Holds (contents server)) {server : Nat} {after : Table} {changed : Contents}
    (holds : after.Holds changed) :
    ∀ (other : Nat) (table : Table), (tables.set server after)[other]? = some table →
      table.Holds (Function.update contents server changed other) := by
  intro other table found
  by_cases same : other = server
  · subst same
    rw [Function.update_self]
    -- The table found is the one that was put there.
    rw [List.getElem?_set_self'] at found
    cases old : tables[other]? with
    | none =>
      rw [old] at found
      cases found
    | some table' =>
      rw [old] at found
      cases found
      exact holds
  · rw [Function.update_of_ne same]
    rw [List.getElem?_set_ne (Ne.symm same)] at found
    exact held other table found

/-- An update that the head applies is the last one that every other server has yet to apply. -/
theorem replays_start {contents : Nat → Contents} {journeys : List Journey} {servers : Nat}
    (started : ∀ journey ∈ journeys, 1 ≤ journey.hop) {update : Update}
    (applies : update.Applies (contents 0))
    (replays : ∀ server < servers,
      Update.ops.Replays (pending server journeys) (contents server) (contents 0)) :
    ∀ server < servers, Update.ops.Replays (pending server (journeys ++ [⟨update, 1, 0⟩]))
      (Function.update contents 0 (update.apply (contents 0)) server)
      (Function.update contents 0 (update.apply (contents 0)) 0) := by
  intro server inside
  rw [Function.update_self, pending_append, pending_cons]
  by_cases head : server = 0
  · -- Nothing is pending at the head.
    subst head
    rw [Function.update_self, pending_head started, if_neg (show ¬ 1 ≤ 0 by omega)]
    rfl
  · rw [Function.update_of_ne head, if_pos (show 1 ≤ server by omega)]
    exact Update.ops.replays_concat (replays server inside) applies

/-- Accepting a request at the head keeps every server behind it by what is pending there. -/
theorem Behind.accept {state next : State} {contents : Nat → Contents} {journeys : List Journey}
    (behind : Behind state contents journeys) {msg : MessageT}
    (stepped : step state (.accept msg) = some next) :
    ∃ contents' journeys', Behind next contents' journeys' := by
  simp only [step] at stepped
  split at stepped
  swap
  · cases stepped
  cases applied : applyAt state.tables 0 msg with
  | none =>
    simp only [applied] at stepped
    cases stepped
  | some result =>
    obtain ⟨passed, tables⟩ := result
    simp only [applied] at stepped
    obtain ⟨table, after, mem, found, ran, rfl⟩ := applyAt_cases applied
    have holds := behind.held 0 table found
    obtain ⟨-, ⟨rfl, holdsAfter⟩ | ⟨update, rfl, applies, holdsAfter⟩⟩ :=
      updateLocally_ran holds ran
    · -- Nothing was applied, so nothing starts, and the head holds what it held.
      cases stepped
      refine ⟨Function.update contents 0 (contents 0), journeys, held_set behind.held holdsAfter,
        ?_, behind.started, ?_⟩
      · simpa using behind.flying
      · rw [Function.update_eq_self, List.length_set]
        exact behind.replays
    · -- The update goes to the end of what every other server has yet to apply.
      by_cases several : 1 < (state.tables.set 0 after).length
      · simp only [Option.toList_some, List.filterMap_cons, if_pos several,
          List.filterMap_nil] at stepped
        cases stepped
        refine ⟨_, journeys ++ [⟨update, 1, 0⟩], held_set behind.held holdsAfter, ?_, ?_, ?_⟩
        · rw [List.map_append, ← behind.flying]
          rfl
        · intro journey member
          rcases List.mem_append.mp member with old | new
          · exact behind.started journey old
          · rw [List.mem_singleton.mp new]
        · rw [List.length_set]
          exact replays_start behind.started applies behind.replays
      · -- A server alone has nobody to forward to.
        simp only [Option.toList_some, List.filterMap_cons, if_neg several,
          List.filterMap_nil] at stepped
        cases stepped
        refine ⟨_, journeys, held_set behind.held holdsAfter, ?_, behind.started, ?_⟩
        · simpa using behind.flying
        · intro server inside
          have head : server = 0 := by
            rw [List.length_set] at several
            rw [List.length_set] at inside
            omega
          subst head
          rw [pending_head behind.started]
          rfl

/-- The journey at the position of a flight, with those in front of it and those behind it. -/
theorem journeys_cut {flights : List Flight} {journeys : List Journey}
    (flying : flights = journeys.map Journey.flight) {position : Nat} {flight : Flight}
    (flown : flights[position]? = some flight) :
    ∃ earlier journey later, journeys = earlier ++ journey :: later ∧ flight = journey.flight ∧
      flights.take position = earlier.map Journey.flight ∧
      flights.drop (position + 1) = later.map Journey.flight := by
  -- The list is cut at the position, before and behind the journey.
  subst flying
  rw [List.getElem?_map] at flown
  obtain ⟨journey, here, rfl⟩ := Option.map_eq_some_iff.mp flown
  obtain ⟨bound, atPosition⟩ := List.getElem?_eq_some_iff.mp here
  refine ⟨journeys.take position, journey, journeys.drop (position + 1), ?_, rfl,
    List.map_take.symm, List.map_drop.symm⟩
  rw [← atPosition, List.cons_getElem_drop_succ, List.take_append_drop]

/-- A server where an update has been replays what is pending there, and so do the others. -/
theorem replays_goOn {earlier later : List Journey} {journey : Journey} {contents : Nat → Contents}
    {servers : Nat} (first : 1 ≤ journey.hop) (inside : journey.hop < servers)
    (others : ∀ other ∈ pending journey.hop earlier, other.key ≠ journey.update.key)
    (replays : ∀ server < servers, Update.ops.Replays
      (pending server (earlier ++ journey :: later)) (contents server) (contents 0)) :
    journey.update.Applies (contents journey.hop) ∧
      ∀ server < servers, Update.ops.Replays
        (pending server (earlier ++ journey.goOn servers ++ later))
        (Function.update contents journey.hop (journey.update.apply (contents journey.hop)) server)
        (Function.update contents journey.hop (journey.update.apply (contents journey.hop)) 0) := by
  -- At that server the update comes first, past updates of other keys.
  have here := replays journey.hop inside
  rw [pending_append, pending_cons, if_pos (le_refl _)] at here
  obtain ⟨applies, rest⟩ := Update.ops.replays_extract others here
  refine ⟨applies, fun server bound => ?_⟩
  have before := replays server bound
  rw [pending_append, pending_cons] at before
  rw [Function.update_of_ne (show 0 ≠ journey.hop by omega), pending_append, pending_append,
    pending_goOn bound]
  rcases lt_trichotomy server journey.hop with passedBy | rfl | ahead
  · -- Servers before it had the update already.
    rw [Function.update_of_ne passedBy.ne, if_neg passedBy.not_gt, List.append_nil]
    rwa [if_neg passedBy.not_ge] at before
  · -- The server just visited has the update no longer pending.
    rw [Function.update_self, if_neg (lt_irrefl _), List.append_nil]
    exact rest
  · -- Servers after it still wait for the update.
    rw [Function.update_of_ne ahead.ne', if_pos ahead, List.append_assoc]
    rwa [if_pos ahead.le] at before

/-- Forwarding an update in order keeps every server behind the head by what is pending there. -/
theorem Behind.forward {state next : State} {contents : Nat → Contents} {journeys : List Journey}
    (behind : Behind state contents journeys) {position : Nat}
    (inOrder : InOrder state (.forward position))
    (stepped : step state (.forward position) = some next) :
    ∃ contents' journeys', Behind next contents' journeys' := by
  simp only [step] at stepped
  cases flown : state.flights[position]? with
  | none =>
    simp only [flown] at stepped
    cases stepped
  | some flight =>
    -- The list of journeys is cut at the one that goes on.
    obtain ⟨earlier, journey, later, rfl, rfl, inEarlier, inLater⟩ :=
      journeys_cut behind.flying flown
    have unovertaken := inOrder journey.flight flown
    rw [inEarlier] at unovertaken
    simp only [flown, inEarlier, inLater] at stepped
    simp only [Journey.flight, forwardRequest_forward] at stepped
    cases applied : applyAt state.tables journey.hop journey.update.request with
    | none =>
      simp only [applied] at stepped
      cases stepped
    | some result =>
      obtain ⟨passed, tables⟩ := result
      simp only [applied] at stepped
      obtain ⟨table, after, mem, found, ran, rfl⟩ := applyAt_cases applied
      obtain ⟨-, passedOn, holdsAfter⟩ :=
        updateLocally_request_ran (behind.held _ table found) ran
      have inside : journey.hop < state.tables.length := (List.getElem?_eq_some_iff.mp found).1
      obtain ⟨applies, replays⟩ := replays_goOn (behind.started journey (by simp)) inside
        (keys_differ_of_unovertaken unovertaken) behind.replays
      have passedUpdate : passed = some journey.update.forward := by
        rw [passedOn, if_pos applies]
      subst passedUpdate
      have advanced := advance_flight journey (state.tables.set journey.hop after).length
      simp only [Journey.flight, List.length_set] at advanced
      simp only [List.length_set, advanced] at stepped
      cases stepped
      refine ⟨_, earlier ++ journey.goOn state.tables.length ++ later,
        held_set behind.held holdsAfter, ?_, ?_, ?_⟩
      · simp only [List.map_append]
      · intro other member
        rcases List.mem_append.mp member with before | behindIt
        · rcases List.mem_append.mp before with before | gone
          · exact behind.started other (List.mem_append_left _ before)
          · exact Journey.started_goOn gone
        · exact behind.started other (List.mem_append_right _ (List.mem_cons_of_mem _ behindIt))
      · intro server bound
        rw [List.length_set] at bound
        exact replays server bound

/--
Servers that start with one map end with one, once every update was forwarded in order.

The run is any interleaving of the threads' steps, of any number of requests.
-/
theorem agree_of_inOrder {tables : List Table} (equal : Agree tables) {steps : List Step}
    (inOrder : Machine.Guarded step InOrder ⟨tables, []⟩ steps) {final : State}
    (ran : Machine.run step ⟨tables, []⟩ steps = some final) (quiet : final.flights = []) :
    Agree final.tables := by
  obtain ⟨common, equal⟩ := equal
  have start : ∃ contents journeys, Behind ⟨tables, []⟩ contents journeys :=
    ⟨fun _ => common, [],
      { held := fun server table found => equal table (List.mem_of_getElem? found)
        flying := rfl
        started := fun journey member => by cases member
        replays := fun server _ => rfl }⟩
  have preserved : ∀ state label next, (∃ contents journeys, Behind state contents journeys) →
      InOrder state label → step state label = some next →
      ∃ contents journeys, Behind next contents journeys := by
    rintro state label next ⟨contents, journeys, behind⟩ allowed stepped
    cases label with
    | accept msg => exact behind.accept stepped
    | forward position => exact behind.forward allowed stepped
  obtain ⟨contents, journeys, behind⟩ := Machine.run_invariant preserved start inOrder ran
  -- With nothing in flight, nothing is left to be replayed at any server.
  have landed : journeys = [] := by
    have flying := behind.flying
    rw [quiet] at flying
    exact List.map_eq_nil_iff.mp flying.symm
  refine ⟨contents 0, fun table member => ?_⟩
  obtain ⟨server, bound, rfl⟩ := List.getElem_of_mem member
  have replays := behind.replays server bound
  rw [landed] at replays
  have same : contents server = contents 0 := replays
  rw [← same]
  exact behind.held server _ (List.getElem?_eq_getElem bound)

/-- Two puts of one key, the second of which is forwarded first, leave servers with two values. -/
theorem overtaking_put_diverges :
    let key : Key := ⟨[107], by decide⟩
    let first : Block := ⟨[1], by decide⟩
    let second : Block := ⟨[2], by decide⟩
    let empty : Table := ⟨0, 1, [⟨0, []⟩], rfl⟩
    let holding : Block → Table := fun block => ⟨1, 1, [⟨1, [.ofPair (key, block)]⟩], rfl⟩
    Agree [empty, empty] ∧
      Machine.run step ⟨[empty, empty], []⟩
          [.accept (Update.put key first).request, .accept (Update.put key second).request,
            .forward 1, .forward 0] =
        some ⟨[holding second, holding first], []⟩ ∧
      ¬ Agree [holding second, holding first] := by
  intro key first second empty holding
  refine ⟨⟨∅, fun table member => ?_⟩, by decide +kernel, ?_⟩
  · have same : table = empty := by simpa using member
    rw [same]
    exact ⟨1, .empty _ 1, rfl, Buckets.lookup_empty⟩
  · rintro ⟨contents, holds⟩
    -- Both servers answer from the one map they are said to hold.
    have head := (holds (holding second) (by simp)).get (show (holding second).Inside key by decide)
    have tail := (holds (holding first) (by simp)).get (show (holding first).Inside key by decide)
    have differ : tableGet (holding second) (some key) [] ≠
        tableGet (holding first) (some key) [] := by decide +kernel
    exact differ (head.trans tail.symm)

/-- The same two puts forwarded in order leave both servers with the second value. -/
theorem agree_of_inOrder_two_puts :
    let key : Key := ⟨[107], by decide⟩
    let first : Update := .put key ⟨[1], by decide⟩
    let second : Update := .put key ⟨[2], by decide⟩
    let start : State := ⟨List.replicate 2 ⟨0, 1, [⟨0, []⟩], rfl⟩, []⟩
    let steps : List Step :=
      [.accept first.request, .accept second.request, .forward 0, .forward 0]
    ∃ final, Machine.run step start steps = some final ∧ final.flights = [] ∧
      Agree final.tables := by
  -- The run keeps to the condition, and ends with no update in flight.
  intro key first second start steps
  have equal : Agree start.tables := ⟨∅, fun table member => by
    rw [List.eq_of_mem_replicate member]
    exact ⟨1, .empty _ 1, rfl, Buckets.lookup_empty⟩⟩
  have inOrder : Machine.Guarded step InOrder start steps := by decide +kernel
  have runs : (Machine.run step start steps).isSome := by decide +kernel
  obtain ⟨final, ran⟩ := Option.isSome_iff_exists.mp runs
  have quiet : final.flights = [] := by
    have landed : (Machine.run step start steps).map State.flights = some [] := by decide +kernel
    rw [ran] at landed
    exact Option.some.inj landed
  exact ⟨final, ran, quiet, agree_of_inOrder equal inOrder ran quiet⟩

end ChainTable.Forwarding
