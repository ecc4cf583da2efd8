import ChainTable.Replication.Failover
import ChainTable.Replication.ForwardingLaws

/-! After a crash an update reaches every survivor, as long as nothing gives it up on the way. -/

namespace ChainTable.Failover

open ChainTable ChainTable.Forwarding

section Flights

variable {flights : List (List Frame)} {position server : Nat} {flight other : List Frame}

/-- A flight that goes on to a server does so from its first call. -/
def Reaches (flight : List Frame) (server : Nat) : Prop :=
  ∃ top ∈ flight.head?, top.answered = false ∧ top.server < server

/-- Without one of the flights, either another one brings the update or it was that one. -/
theorem Coming.erase (coming : Coming flights server) (found : flights[position]? = some flight) :
    Coming (flights.eraseIdx position) server ∨ Reaches flight server := by
  -- The flight that brings the update is another one, or the one that is gone.
  obtain ⟨brings, member, reaches⟩ := coming
  obtain ⟨place, there⟩ := List.getElem?_of_mem member
  by_cases same : place = position
  · subst same
    rw [found] at there
    cases there
    exact .inr reaches
  · exact .inl ⟨brings, List.mem_eraseIdx_iff_getElem?.mpr ⟨place, same, there⟩, reaches⟩

/-- What other flights bring does not depend on the one that changes. -/
theorem Coming.of_erase (coming : Coming (flights.eraseIdx position) server) :
    Coming (flights.set position other) server := by
  -- A flight at another place is not touched by the change.
  obtain ⟨brings, member, reaches⟩ := coming
  obtain ⟨place, differs, there⟩ := List.mem_eraseIdx_iff_getElem?.mp member
  refine ⟨brings, List.mem_of_getElem? (i := place) ?_, reaches⟩
  rwa [List.getElem?_set_ne (Ne.symm differs)]

/-- A flight that changes brings the update if what it changes to does. -/
theorem coming_of_set (found : flights[position]? = some flight) (reaches : Reaches other server) :
    Coming (flights.set position other) server := by
  -- The changed flight is the one that brings the update.
  obtain ⟨bound, -⟩ := List.getElem?_eq_some_iff.mp found
  exact ⟨other, List.mem_set bound other, reaches⟩

/-- A flight that goes on wherever it went before brings the update wherever it did. -/
theorem Coming.set (coming : Coming flights server) (found : flights[position]? = some flight)
    (goesOn : Reaches flight server → Reaches other server) :
    Coming (flights.set position other) server := by
  -- Another flight brings the update as before, or this one still does.
  rcases coming.erase found with others | this
  · exact others.of_erase
  · exact coming_of_set found (goesOn this)

/-- What holds of every flight holds of them after one has changed, if it holds of the new one. -/
theorem all_set {holds : List Frame → Prop} (all : ∀ flight ∈ flights, holds flight)
    (changed : holds other) : ∀ flight ∈ flights.set position other, holds flight := by
  -- A flight was there before, or is the one that was put in its place.
  intro flight member
  rcases List.mem_or_eq_of_mem_set member with before | rfl
  · exact all flight before
  · exact changed

/-- A flight from the head: each call waits for the one in front, which is at a later server. -/
structure Stacked (flight : List Frame) : Prop where
  waits : flight.Pairwise fun upper lower => lower.server < upper.server ∧ lower.answered = false
  bottom : ∃ frame ∈ flight.getLast?, frame.server = 0

/-- The head's own call is a flight from the head. -/
theorem stacked_start (forward : Forward) :
    Stacked [{ server := 0, forward := forward, retries := 0, answered := false }] where
  waits := List.pairwise_singleton _ _
  bottom := ⟨_, rfl, rfl⟩

/-- A failed attempt leaves all calls where they are. -/
theorem Stacked.retried {top : Frame} {below : List Frame} (stacked : Stacked (top :: below))
    (retries : Nat) : Stacked ({ top with retries := retries } :: below) where
  waits := by
    -- No order between the calls depends on their attempts.
    obtain ⟨above, rest⟩ := List.pairwise_cons.mp stacked.waits
    exact List.pairwise_cons.mpr ⟨above, rest⟩
  bottom := by
    obtain ⟨frame, last, zero⟩ := stacked.bottom
    cases below with
    | nil =>
      cases last
      exact ⟨_, rfl, zero⟩
    | cons caller others => exact ⟨frame, last, zero⟩

/-- A server further down the chain is called by the first call, which waits for it. -/
theorem Stacked.push {top : Frame} {below : List Frame} (stacked : Stacked (top :: below))
    (waiting : top.answered = false) {next : Nat} (further : top.server < next)
    (forward : Forward) :
    Stacked ({ server := next, forward := forward, retries := 0, answered := false }
      :: top :: below) where
  waits := by
    -- The call that was first waits for the new one, and so do those that waited for it.
    obtain ⟨above, rest⟩ := List.pairwise_cons.mp stacked.waits
    refine List.pairwise_cons.mpr ⟨fun lower member => ?_, stacked.waits⟩
    rcases List.mem_cons.mp member with rfl | deeper
    · exact ⟨further, waiting⟩
    · obtain ⟨behind, unanswered⟩ := above lower deeper
      exact ⟨behind.trans further, unanswered⟩
  bottom := stacked.bottom

/-- When the first call returns, its caller is the first one. -/
theorem Stacked.pop {top caller : Frame} {others : List Frame}
    (stacked : Stacked (top :: caller :: others)) :
    Stacked ({ caller with answered := true } :: others) where
  waits := by
    -- The calls below the first one are in the order they were.
    obtain ⟨-, rest⟩ := List.pairwise_cons.mp stacked.waits
    obtain ⟨above, rest⟩ := List.pairwise_cons.mp rest
    exact List.pairwise_cons.mpr ⟨above, rest⟩
  bottom := by
    obtain ⟨frame, last, zero⟩ := stacked.bottom
    cases others with
    | nil =>
      cases last
      exact ⟨_, rfl, zero⟩
    | cons caller others => exact ⟨frame, last, zero⟩

/-- A flight that goes on to a survivor goes on to it after the crash as well. -/
theorem coming_cut {dead : Nat} (internal : 0 < dead) (stacked : Stacked flight)
    (reaches : Reaches flight server) : Coming (cut dead flight) server := by
  cases flight with
  | nil =>
    obtain ⟨top, first, -⟩ := reaches
    cases first
  | cons top below =>
    obtain ⟨first, same, unanswered, before⟩ := reaches
    obtain rfl : top = first := Option.some.inj same
    by_cases here : top.server = dead
    · -- The crashed server was the last to have the update, and its caller tries again.
      have further : dead < server := by omega
      obtain ⟨above, -⟩ := List.pairwise_cons.mp stacked.waits
      cases below with
      | nil =>
        obtain ⟨frame, last, zero⟩ := stacked.bottom
        obtain rfl : top = frame := Option.some.inj last
        omega
      | cons caller others =>
        obtain ⟨lower, waiting⟩ := above caller List.mem_cons_self
        have result : cut dead (top :: caller :: others) =
            [{ caller with retries := caller.retries + 1 } :: others] := by
          simp [cut, here]
        rw [result]
        have earlier : caller.server < server := by omega
        exact ⟨_, List.mem_singleton_self _, _, rfl, waiting, earlier⟩
    · -- The first call was made further down, or the flight had not come so far.
      have kept : ∃ rest, (top :: rest) ∈ cut dead (top :: below) := by
        unfold cut
        rw [List.dropWhile_cons_of_pos (by simpa using here),
          List.takeWhile_cons_of_pos (by simpa using here)]
        cases below.dropWhile fun frame => frame.server ≠ dead with
        | nil => exact ⟨below, List.mem_singleton_self _⟩
        | cons frame rest => exact ⟨_, List.mem_append_left _ (List.mem_singleton_self _)⟩
      obtain ⟨rest, member⟩ := kept
      exact ⟨_, member, top, rfl, unanswered, before⟩

/-- The crash changes no call but for its attempts. -/
theorem forward_cut {dead : Nat} {left : List Frame} (member : left ∈ cut dead flight)
    {frame : Frame} (inside : frame ∈ left) : ∃ old ∈ flight, old.forward = frame.forward := by
  -- What is left is a part of the flight, with the attempts of one call reset.
  unfold cut at member
  cases dropped : flight.dropWhile fun frame => frame.server ≠ dead with
  -- The dead server had none of its calls, and all of them are left.
  | nil =>
    rw [dropped] at member
    obtain rfl := List.mem_singleton.mp member
    exact ⟨frame, inside, rfl⟩
  -- What is left is in front of the call of the dead server, or behind it.
  | cons crashed below =>
    have sub : ∀ old ∈ below, old ∈ flight := fun old deeper =>
      (List.dropWhile_suffix _).subset (by rw [dropped]; exact List.mem_cons_of_mem _ deeper)
    rw [dropped] at member
    rcases List.mem_append.mp member with above | waiting
    · split at above
      · cases above
      · obtain rfl := List.mem_singleton.mp above
        exact ⟨frame, (List.takeWhile_prefix _).subset inside, rfl⟩
    · cases below with
      | nil => cases waiting
      | cons caller others =>
        obtain rfl := List.mem_singleton.mp waiting
        rcases List.mem_cons.mp inside with rfl | deeper
        · exact ⟨caller, sub caller List.mem_cons_self, rfl⟩
        · exact ⟨frame, sub frame (List.mem_cons_of_mem _ deeper), rfl⟩

end Flights

/-- A server forwards to the first one behind it that is alive, or to a dead one before that. -/
theorem nextServer_le {state : State} {server next : Nat}
    (forwards : state.nextServer server = some next) :
    server < next ∧ ∀ other, server < other → other < state.members.length →
      state.dead ≠ some other → next ≤ other := by
  unfold State.nextServer at forwards
  cases found : state.members[server]? with
  | none =>
    rw [found] at forwards
    cases forwards
  | some member =>
    simp only [found] at forwards
    split at forwards
    · -- Behind the server all others in front of the one found are dead.
      obtain ⟨-, inRange, dead⟩ := List.find?_range'_eq_some.mp forwards
      rw [List.mem_range'_1] at inRange
      refine ⟨by omega, fun other behind _ survives => ?_⟩
      by_contra before
      have := dead other (by omega) (by omega)
      simp [survives] at this
    · split at forwards
      · cases forwards
        exact ⟨Nat.lt_succ_self server, fun other behind _ _ => behind⟩
      · cases forwards

/-- In front of a server but the head there is one that is alive, unless the head is dead. -/
theorem before_none {state : State} (alive : state.dead ≠ some 0) {server : Nat}
    (none : state.before server = none) : server = 0 := by
  -- The head itself would be found.
  by_contra positive
  have head := List.find?_eq_none.mp none 0 (by
    rw [List.mem_reverse, List.mem_range]
    omega)
  simp [alive] at head

section Merges

variable {merge : Merge} {pairs : List (Key × Block)}

/-- The entries that a merge has yet to put are those of the pairs that are left. -/
theorem mem_remaining (left : merge.Left pairs) (pair : Key × Block) :
    some (Entry.ofPair pair) ∈ remaining merge ↔ pair ∈ pairs := by
  -- Without an array nothing is left, and otherwise it is what follows the position.
  obtain ⟨entries, position⟩ := merge
  cases entries with
  -- The predecessor had no pairs.
  | none =>
    rw [show pairs = [] from left]
    simp [remaining]
  | some entries =>
    obtain ⟨before, rfl, rfl⟩ := left
    have rest : remaining
        ⟨some (before ++ ((pairs.map fun pair => some (Entry.ofPair pair)) ++ [none])),
          before.length⟩ = (pairs.map fun pair => some (Entry.ofPair pair)) ++ [none] := by
      simp [remaining]
    rw [rest]
    constructor
    · intro member
      simp only [List.mem_append, List.mem_map, Option.some.injEq, List.mem_singleton, reduceCtorEq,
        or_false] at member
      obtain ⟨other, inside, same⟩ := member
      rwa [← ofPair_injective same]
    · exact fun inside => List.mem_append_left _ (List.mem_map.mpr ⟨pair, inside, rfl⟩)

/-- An entry is put into a table that has a row for its key. -/
theorem inside_of_put {table : Table} {contents : Contents} (holds : table.Holds contents)
    {key : Key} {block : Block} {later : List (Key × Block)}
    (left : merge.Left ((key, block) :: later)) {result : Merge × Table}
    (ran : merge.put table = some result) : table.Inside key := by
  -- A table without that row would have been a fault.
  unfold Merge.put at ran
  rw [Merge.current_of_left left] at ran
  simp only [List.head?_cons, Option.map_some, Entry.ofPair] at ran
  cases stored : tablePut table (some key) (some (Data.ofBlock block)) [] with
  | error fault =>
    rw [stored] at ran
    cases ran
  | ok result => exact holds.inside_of_put_ran (contents_ofBlock block) stored

end Merges

/-- The map has the update, or some flight or the merge of the server goes on to bring it. -/
def Provided (update : Update) (flights : List (List Frame)) (server : Nat) (member : Member)
    (contents : Contents) : Prop :=
  contents.lookup update.key = update.value ∨ Coming flights server ∨ Awaited update member

/--
What holds while an update and a crash are dealt with.

The servers differ from the map before the update under its key alone, and so does what they
fetched.
-/
structure Repairing (update : Update) (common : Contents) (state : State)
    (contents : Nat → Contents) : Prop where
  held : ∀ (server : Nat) (member : Member), state.members[server]? = some member →
    member.table.Holds (contents server)
  others : ∀ (server : Nat) (key : Key), key ≠ update.key →
    (contents server).lookup key = common.lookup key
  merging : ∀ (server : Nat) (member : Member), state.members[server]? = some member →
    ∀ merge ∈ member.merge, ∃ pairs, merge.Left pairs ∧ ∀ key block, (key, block) ∈ pairs →
      key ≠ update.key → common.lookup key = some block
  flying : ∀ flight ∈ state.flights, ∀ frame ∈ flight, frame.forward = update.forward
  stacked : state.dead = none → ∀ flight ∈ state.flights, Stacked flight
  alive : state.dead ≠ some 0
  head : (contents 0).lookup update.key = update.value
  headMerge : ∀ member, state.members[0]? = some member → ∀ merge ∈ member.merge,
    merge.entries = none
  provided : ∀ (server : Nat) (member : Member), state.members[server]? = some member →
    state.dead ≠ some server → Provided update state.flights server member (contents server)

section Steps

variable {update : Update} {common : Contents} {state next : State} {contents : Nat → Contents}

/-- A server other than the one that changes is what it was, and the one that changes was there. -/
theorem setMember_cases {server other : Nat} {member found : Member}
    (there : (state.setMember server member).members[other]? = some found) :
    (other = server ∧ found = member) ∨ (other ≠ server ∧ state.members[other]? = some found) := by
  -- Either the place is the one that changes, or the change leaves it alone.
  -- The changed server is the new one, and was there before.
  by_cases same : other = server
  · subst same
    change (state.members.set other member)[other]? = some found at there
    rw [List.getElem?_set_self'] at there
    cases old : state.members[other]? with
    | none =>
      rw [old] at there
      cases there
    | some before =>
      rw [old] at there
      cases there
      exact .inl ⟨rfl, rfl⟩
  · refine .inr ⟨same, ?_⟩
    change (state.members.set server member)[other]? = some found at there
    rwa [List.getElem?_set_ne (Ne.symm same)] at there

/-- A call after one more attempt that returned -1. -/
def Frame.retry (frame : Frame) : Frame := { frame with retries := frame.retries + 1 }

/-- A call at a server that has just applied the update. -/
def Frame.called (server : Nat) (forward : Forward) : Frame where
  server := server
  forward := forward
  retries := 0
  answered := false

/-- An attempt fails towards a dead server, and otherwise applies the update at the next one. -/
theorem attempt_cases {position : Nat} (stepped : attempt state position = some next) :
    ∃ top below server, state.flights[position]? = some (top :: below) ∧ top.answered = false ∧
      state.nextServer top.server = some server ∧ next.dead = state.dead ∧
      ((state.dead = some server ∧ next.members = state.members ∧
          next.flights = state.flights.set position (top.retry :: below)) ∨
        (state.dead ≠ some server ∧ ∃ member request passed table,
          state.members[server]? = some member ∧ forwardRequest top.forward = some request ∧
          applyTo member.table request = some (passed, table) ∧
          next.members = state.members.set server ⟨table, member.relinked, member.merge⟩ ∧
          next.flights = state.flights.set position (match passed with
            | none => top.retry :: below
            | some forward => Frame.called server forward :: top :: below))) := by
  -- The cases are those of the step: whether the next server is there, and then alive.
  unfold attempt at stepped
  split at stepped
  case h_2 => cases stepped
  case h_1 top below found =>
    split at stepped
    case isFalse => cases stepped
    case isTrue goesOn =>
      cases forwards : state.nextServer top.server with
      | none =>
        simp only [forwards] at stepped
        cases stepped
      | some server =>
        simp only [forwards] at stepped
        split at stepped
        -- Towards a dead server the attempt is only counted.
        case isTrue dead =>
          cases stepped
          exact ⟨top, below, server, found, goesOn.1, forwards, rfl, .inl ⟨dead, rfl, rfl⟩⟩
        -- A server that is alive applies the update, and its answer is on its way.
        case isFalse alive =>
          split at stepped
          case h_2 => cases stepped
          case h_1 member request there asked =>
            cases applied : applyTo member.table request with
            | none =>
              simp only [applied] at stepped
              cases stepped
            | some result =>
              obtain ⟨passed, table⟩ := result
              simp only [applied] at stepped
              cases stepped
              refine ⟨top, below, server, found, goesOn.1, forwards, rfl, .inr ⟨alive, member,
                request, passed, table, there, asked, applied, rfl, ?_⟩⟩
              cases passed <;> rfl

/-- The first call of a flight returns, and its caller is answered. -/
theorem finish_cases {position : Nat} (stepped : finish state position = some next) :
    ∃ top below, state.flights[position]? = some (top :: below) ∧ next.members = state.members ∧
      next.dead = state.dead ∧ next.flights = match below with
        | [] => state.flights.eraseIdx position
        | caller :: others =>
          state.flights.set position ({ caller with answered := true } :: others) := by
  -- The last call of a flight ends it, and any other answers its caller.
  unfold finish at stepped
  split at stepped
  case h_2 => cases stepped
  case h_1 top below found =>
    split at stepped
    case isFalse => cases stepped
    case isTrue =>
      refine ⟨top, below, found, ?_⟩
      cases below <;> cases stepped <;> exact ⟨rfl, rfl, rfl⟩

/-- What holds does not depend on a step that changes nothing but a flight. -/
theorem Repairing.fly (repairing : Repairing update common state contents)
    (members : next.members = state.members) (dead : next.dead = state.dead)
    (flying : ∀ flight ∈ next.flights, ∀ frame ∈ flight, frame.forward = update.forward)
    (stacked : state.dead = none → ∀ flight ∈ next.flights, Stacked flight)
    (provided : ∀ server member, state.members[server]? = some member → state.dead ≠ some server →
      Provided update next.flights server member (contents server)) :
    Repairing update common next contents where
  held := by rw [members]; exact repairing.held
  others := repairing.others
  merging := by rw [members]; exact repairing.merging
  flying := flying
  stacked := by rw [dead]; exact stacked
  alive := by rw [dead]; exact repairing.alive
  head := repairing.head
  headMerge := by rw [members]; exact repairing.headMerge
  provided := by rw [members, dead]; exact provided

/-- A server may change as long as what holds of it still does. -/
theorem Repairing.replace (repairing : Repairing update common state contents) {server : Nat}
    {changed : Member} {map : Contents} (held : changed.table.Holds map)
    (others : ∀ key, key ≠ update.key → map.lookup key = common.lookup key)
    (merging : ∀ merge ∈ changed.merge, ∃ pairs, merge.Left pairs ∧ ∀ key block,
      (key, block) ∈ pairs → key ≠ update.key → common.lookup key = some block)
    (head : server = 0 → map.lookup update.key = update.value ∧
      ∀ merge ∈ changed.merge, merge.entries = none)
    (provided : state.dead ≠ some server → Provided update state.flights server changed map) :
    Repairing update common (state.setMember server changed)
      (Function.update contents server map) where
  held := by
    -- Each part holds of the changed server by assumption, and of the others as before.
    intro other found there
    rcases setMember_cases there with ⟨rfl, rfl⟩ | ⟨differs, before⟩
    · rw [Function.update_self]
      exact held
    · rw [Function.update_of_ne differs]
      exact repairing.held other found before
  others := by
    intro other key differs
    by_cases same : other = server
    · subst same
      rw [Function.update_self]
      exact others key differs
    · rw [Function.update_of_ne same]
      exact repairing.others other key differs
  merging := by
    intro other found there
    rcases setMember_cases there with ⟨rfl, rfl⟩ | ⟨-, before⟩
    · exact merging
    · exact repairing.merging other found before
  flying := repairing.flying
  stacked := repairing.stacked
  alive := repairing.alive
  head := by
    by_cases zero : 0 = server
    · subst zero
      rw [Function.update_self]
      exact (head rfl).1
    · rw [Function.update_of_ne zero]
      exact repairing.head
  headMerge := by
    intro found there
    rcases setMember_cases there with ⟨zero, rfl⟩ | ⟨-, before⟩
    · exact (head zero.symm).2
    · exact repairing.headMerge found before
  provided := by
    intro other found there survives
    rcases setMember_cases there with ⟨rfl, rfl⟩ | ⟨differs, before⟩
    · rw [Function.update_self]
      exact provided survives
    · rw [Function.update_of_ne differs]
      exact repairing.provided other found before survives

/-- A failed attempt leaves the update on its way to wherever it was. -/
theorem Coming.retry {flights : List (List Frame)} {position server : Nat} {top : Frame}
    {below : List Frame} (coming : Coming flights server)
    (found : flights[position]? = some (top :: below)) :
    Coming (flights.set position (top.retry :: below)) server := by
  -- The attempt only counts, so that the flight goes where it went.
  refine coming.set found fun reaches => ?_
  obtain ⟨first, same, unanswered, before⟩ := reaches
  obtain rfl : top = first := Option.some.inj same
  exact ⟨_, rfl, unanswered, before⟩

/-- A call of the nearest survivor leaves the update on its way to the servers behind that one. -/
theorem Coming.call {flights : List (List Frame)} {position server nearest : Nat} {top : Frame}
    {below : List Frame} (coming : Coming flights server)
    (found : flights[position]? = some (top :: below)) (differs : server ≠ nearest)
    (behind : top.server < server → nearest ≤ server) (forward : Forward) :
    Coming (flights.set position (Frame.called nearest forward :: top :: below)) server := by
  -- The new call is at the nearest survivor, with the server in question behind it.
  refine coming.set found fun reaches => ?_
  obtain ⟨first, same, -, before⟩ := reaches
  obtain rfl : top = first := Option.some.inj same
  have further := behind before
  have ahead : nearest < server := by omega
  exact ⟨_, rfl, rfl, ahead⟩

/-- An attempt brings the update to the next server, or leaves it on its way. -/
theorem Repairing.attempt (repairing : Repairing update common state contents) {position : Nat}
    (stepped : attempt state position = some next) :
    ∃ contents', Repairing update common next contents' := by
  obtain ⟨top, below, server, found, waiting, forwards, dead, outcome⟩ := attempt_cases stepped
  obtain ⟨further, nearest⟩ := nextServer_le forwards
  have flight : top :: below ∈ state.flights := List.mem_of_getElem? found
  obtain ⟨own, deeper⟩ := List.forall_mem_cons.mp (repairing.flying _ flight)
  have retriedFlying : ∀ flight ∈ state.flights.set position (top.retry :: below),
      ∀ frame ∈ flight, frame.forward = update.forward :=
    all_set repairing.flying (List.forall_mem_cons.mpr ⟨own, deeper⟩)
  have retriedStacked : state.dead = none →
      ∀ flight ∈ state.flights.set position (top.retry :: below), Stacked flight :=
    fun intact => all_set (repairing.stacked intact)
      ((repairing.stacked intact _ flight).retried _)
  rcases outcome with ⟨-, members, flights⟩ | ⟨alive, member, request, passed, table, stored, asked,
    applied, members, flights⟩
  · -- The next server is dead, and the attempt returns -1.
    refine ⟨contents, repairing.fly members dead ?_ ?_ ?_⟩
    · rw [flights]
      exact retriedFlying
    · rw [flights]
      exact retriedStacked
    · intro other found' there alive
      rw [flights]
      exact (repairing.provided other found' there alive).imp_right
        (Or.imp_left fun coming => coming.retry found)
  · -- The next server applies the update, or has it already.
    rw [own, forwardRequest_forward] at asked
    cases asked
    obtain ⟨mem, ran⟩ := applyTo_cases applied
    obtain ⟨-, passedOn, holds⟩ :=
      updateLocally_request_ran (repairing.held server member stored) ran
    have notHead : server ≠ 0 := by omega
    have has : (update.apply (contents server)).lookup update.key = update.value := by
      rw [Update.lookup_apply, if_pos rfl]
    have replaced : Repairing update common
        (state.setMember server ⟨table, member.relinked, member.merge⟩)
        (Function.update contents server (update.apply (contents server))) :=
      repairing.replace holds (fun key differs => by
          rw [Update.lookup_apply, if_neg differs]
          exact repairing.others server key differs)
        (repairing.merging server member stored) (fun zero => absurd zero notHead)
        (fun _ => .inl has)
    refine ⟨_, replaced.fly members dead ?_ ?_ ?_⟩
    · rw [flights, passedOn]
      split
      · exact retriedFlying
      · rename_i forward same
        have carried : forward = update.forward := by
          split at same
          · exact (Option.some.inj same).symm
          · cases same
        exact all_set repairing.flying
          (List.forall_mem_cons.mpr ⟨carried, List.forall_mem_cons.mpr ⟨own, deeper⟩⟩)
    · rw [flights]
      split
      · exact retriedStacked
      · exact fun intact => all_set (repairing.stacked intact)
          ((repairing.stacked intact _ flight).push waiting further _)
    · intro other found' there survives
      rcases setMember_cases there with ⟨rfl, rfl⟩ | ⟨differs, before⟩
      · rw [Function.update_self]
        exact .inl has
      · -- Survivors behind the next server are reached from there.
        have inside := (List.getElem?_eq_some_iff.mp before).1
        rw [Function.update_of_ne differs, flights]
        refine (repairing.provided other found' before survives).imp_right
          (Or.imp_left fun coming => ?_)
        split
        · exact coming.retry found
        · exact coming.call found differs (fun ahead => nearest other ahead inside survives) _

/-- A call that leaves its loop keeps the update on its way to survivors that are not assured. -/
theorem Repairing.finish (repairing : Repairing update common state contents) {position : Nat}
    (kept : Kept update state (.finish position)) (stepped : finish state position = some next) :
    Repairing update common next contents := by
  obtain ⟨top, below, found, members, dead, flights⟩ := finish_cases stepped
  have flight : top :: below ∈ state.flights := List.mem_of_getElem? found
  -- Every survivor can do without this flight.
  have without : ∀ server member, state.members[server]? = some member →
      state.dead ≠ some server →
      Provided update (state.flights.eraseIdx position) server member (contents server) := by
    intro server member there survives
    rcases repairing.provided server member there survives with has | coming | awaited
    · exact .inl has
    · rcases coming.erase found with others | ⟨first, same, unanswered, before⟩
      · exact .inr (.inl others)
      · obtain rfl : top = first := Option.some.inj same
        have inside := (List.getElem?_eq_some_iff.mp there).1
        have assured := kept _ found top rfl unanswered server inside before survives member there
        exact assured.imp_left (lookup_of_settled (repairing.held server member there))
    · exact .inr (.inr awaited)
  refine repairing.fly members dead ?_ ?_ ?_
  · rw [flights]
    cases below with
    | nil => exact fun flight' member => repairing.flying flight' (List.mem_of_mem_eraseIdx member)
    | cons caller others =>
      obtain ⟨-, deeper⟩ := List.forall_mem_cons.mp (repairing.flying _ flight)
      obtain ⟨own, deeper⟩ := List.forall_mem_cons.mp deeper
      exact all_set repairing.flying (List.forall_mem_cons.mpr ⟨own, deeper⟩)
  · rw [flights]
    intro intact
    cases below with
    | nil =>
      exact fun flight' member => repairing.stacked intact flight' (List.mem_of_mem_eraseIdx member)
    | cons caller others =>
      exact all_set (repairing.stacked intact) (repairing.stacked intact _ flight).pop
  · rw [flights]
    intro server member there survives
    refine (without server member there survives).imp_right (Or.imp_left fun coming => ?_)
    cases below with
    | nil => exact coming
    | cons caller others => exact coming.of_erase

/-- A crash leaves the update on its way to every survivor. -/
theorem Repairing.crash (repairing : Repairing update common state contents) {server : Nat}
    (stepped : step state (.crash server) = some next) : Repairing update common next contents := by
  -- Flights lose what the dead server called, and go on to whoever they went to before.
  simp only [step] at stepped
  split at stepped
  case isFalse => cases stepped
  case isTrue internal =>
    obtain ⟨intact, first, -⟩ := internal
    cases stepped
    refine { repairing with flying := ?_, stacked := ?_, alive := ?_, provided := ?_ }
    · intro left member frame inside
      obtain ⟨flight, before, cutOff⟩ := List.mem_flatMap.mp member
      obtain ⟨old, was, same⟩ := forward_cut cutOff inside
      rw [← same]
      exact repairing.flying flight before old was
    · intro none
      cases none
    · intro zero
      cases zero
      exact absurd first (lt_irrefl 0)
    · intro other member there survives
      have alive : state.dead ≠ some other := by
        rw [intact]
        simp
      refine (repairing.provided other member there alive).imp_right (Or.imp_left fun coming => ?_)
      obtain ⟨flight, before, reaches⟩ := coming
      have stacked := repairing.stacked intact flight before
      obtain ⟨left, cutOff, goesOn⟩ := coming_cut first stacked reaches
      exact ⟨left, List.mem_flatMap.mpr ⟨flight, before, cutOff⟩, goesOn⟩

/-- Running `select_next_server` changes nothing that is stored or on its way. -/
theorem Repairing.relink (repairing : Repairing update common state contents) {server : Nat}
    (stepped : step state (.relink server) = some next) :
    ∃ contents', Repairing update common next contents' := by
  -- The server keeps its table and its merge, and is only marked as connected.
  simp only [step] at stepped
  split at stepped
  case h_1 => cases stepped
  case h_2 member stored =>
    split at stepped
    case isFalse => cases stepped
    case isTrue =>
      cases stepped
      refine ⟨_, repairing.replace (repairing.held server member stored)
        (repairing.others server) (repairing.merging server member stored) ?_
        (repairing.provided server member stored)⟩
      rintro rfl
      exact ⟨repairing.head, repairing.headMerge member stored⟩

/-- A server that fetches has the update, or has it on its way, or finds it in what it fetches. -/
theorem Repairing.fetch (repairing : Repairing update common state contents) {server : Nat}
    (kept : Kept update state (.fetch server)) (stepped : step state (.fetch server) = some next) :
    ∃ contents', Repairing update common next contents' := by
  simp only [step] at stepped
  split at stepped
  case h_1 => cases stepped
  case h_2 member stored =>
    split at stepped
    case isFalse => cases stepped
    case isTrue allowed =>
      obtain ⟨-, survives, -⟩ := allowed
      have holds := repairing.held server member stored
      have provided := repairing.provided server member stored survives
      unfold Failover.fetch at stepped
      split at stepped
      case h_1 first =>
        -- Without a predecessor the server is the head.
        cases stepped
        obtain rfl := before_none repairing.alive first
        exact ⟨_, repairing.replace holds (repairing.others 0)
          (fun merge member => by
            cases member
            exact ⟨[], rfl, fun key block none => by cases none⟩)
          (fun _ => ⟨repairing.head, fun merge member => by
            cases member
            rfl⟩)
          (fun _ => .inl repairing.head)⟩
      case h_2 previous behind =>
        split at stepped
        case h_1 => cases stepped
        case h_2 other there =>
          have theirs := repairing.held previous other there
          obtain ⟨pairs, -, members, fetched⟩ := fetchTable_holds theirs
          rw [fetched] at stepped
          cases stepped
          have left := Merge.left_start pairs
          refine ⟨_, repairing.replace holds (repairing.others server) ?_ ?_ fun _ => ?_⟩
          · intro merge member
            cases member
            refine ⟨pairs, left, fun key block inside differs => ?_⟩
            rw [← repairing.others previous key differs]
            exact (members key block).mp inside
          · rintro rfl
            -- Nobody is in front of the head.
            cases behind
          · rcases kept previous behind other there member stored with has | coming | settled
            · exact .inl (lookup_of_settled holds has)
            · exact .inr (.inl coming)
            · -- A put that the predecessor has is fetched, and a deletion leaves nothing to fetch.
              have found := lookup_of_settled theirs settled
              cases update with
              | put key block =>
                refine .inr (.inr fun merge member => ?_)
                cases member
                exact (mem_remaining left (key, block)).mpr ((members key block).mpr found)
              | del key =>
                rcases provided with has | coming | awaited
                · exact .inl has
                · exact .inr (.inl coming)
                · exact awaited.elim

/-- What is awaited is still to be put, unless it is the entry just put. -/
theorem Awaited.put {member : Member} (awaited : Awaited update member) {merge merge' : Merge}
    (merging : member.merge = some merge) {key : Key} {block : Block} {later : List (Key × Block)}
    (left : merge.Left ((key, block) :: later)) (rest : merge'.Left later) (table : Table) :
    (update.key = key ∧ update.value = some block) ∨
      Awaited update ⟨table, member.relinked, some merge'⟩ := by
  -- The entry that is put is the awaited one, or that one is among those left.
  cases update with
  | put own value =>
    rcases List.mem_cons.mp ((mem_remaining left _).mp (awaited merge merging)) with first | others
    · cases first
      exact .inl ⟨rfl, rfl⟩
    · refine .inr fun merge'' now => ?_
      cases now
      exact (mem_remaining rest _).mpr others
  | del own => exact awaited.elim

/-- An entry that is put is the update, or of another key, or does not harm the update. -/
theorem Provided.put {flights : List (List Frame)} {server : Nat} {member : Member}
    {contents : Contents} (provided : Provided update flights server member contents)
    {merge merge' : Merge} (merging : member.merge = some merge) {key : Key} {block : Block}
    {later : List (Key × Block)} (left : merge.Left ((key, block) :: later))
    (rest : merge'.Left later)
    (harmless : key = update.key → some block = update.value ∨
      contents.lookup update.key ≠ update.value ∨ Coming flights server) (table : Table) :
    Provided update flights server ⟨table, member.relinked, some merge'⟩
      (contents.insert key block) := by
  -- A server is provided in three ways, and each survives the put or is replaced by it.
  rcases provided with has | coming | awaited
  · -- It has the update, which an entry of another key leaves alone.
    by_cases own : update.key = key
    · rcases harmless own.symm with value | without | coming
      · exact .inl (by rw [contents_insert, if_pos own, value])
      · exact absurd has without
      · exact .inr (.inl coming)
    · exact .inl (by rw [contents_insert, if_neg own, has])
  · -- The update is on its way, which is no matter of the table.
    exact .inr (.inl coming)
  · -- The update is awaited, and is the entry that is put or comes after it.
    rcases awaited.put merging left rest table with ⟨own, value⟩ | waiting
    · exact .inl (by rw [contents_insert, if_pos own, value])
    · exact .inr (.inr waiting)

/-- A round of a merge that does not harm the update leaves it where it is, or on its way. -/
theorem Repairing.mergePut (repairing : Repairing update common state contents) {server : Nat}
    (kept : Kept update state (.mergePut server))
    (stepped : step state (.mergePut server) = some next) :
    ∃ contents', Repairing update common next contents' := by
  simp only [step] at stepped
  split at stepped
  case h_1 => cases stepped
  case h_2 member stored =>
    split at stepped
    case isFalse => cases stepped
    case isTrue survives =>
      have holds := repairing.held server member stored
      have provided := repairing.provided server member stored survives
      unfold Failover.mergePut at stepped
      split at stepped
      case h_1 => cases stepped
      case h_2 merge merging =>
        obtain ⟨pairs, left, known⟩ := repairing.merging server member stored merge merging
        cases put : merge.put member.table with
        | none =>
          rw [put] at stepped
          cases stepped
        | some result =>
          obtain ⟨merge', table⟩ := result
          rw [put] at stepped
          cases stepped
          obtain ⟨key, block, later, rfl, rest, -, holdsAfter⟩ := Merge.put_ran left holds put
          have inside := inside_of_put holds left put
          have current := Merge.current_of_left left
          refine ⟨_, repairing.replace holdsAfter ?_ ?_ ?_ fun _ => ?_⟩
          · intro other differs
            rw [contents_insert]
            split
            · rename_i same
              subst same
              exact (known other block List.mem_cons_self differs).symm
            · exact repairing.others server other differs
          · intro merge'' same
            cases same
            exact ⟨later, rest, fun other stored member =>
              known other stored (List.mem_cons_of_mem _ member)⟩
          · rintro rfl
            -- The head has nothing to put.
            have nothing := repairing.headMerge member stored merge merging
            obtain ⟨entries, position⟩ := merge
            cases nothing
            cases show (key, block) :: later = [] from left
          · refine provided.put merging left rest (fun own => ?_) table
            subst own
            rcases kept member stored merge merging (.ofPair (update.key, block))
              (by rw [current]; rfl) rfl with value | unsettled | coming
            · -- The entry is the one of the update.
              exact .inl (Option.map_injective ofBlock_injective value)
            · exact .inr (.inl fun has => unsettled ((settled_iff holds inside).mpr has))
            · exact .inr (.inr coming)

end Steps

/-- An update can be told from what it passes on. -/
theorem forward_injective : Function.Injective Update.forward := by
  -- A put and a deletion pass on different things, and each passes on all it has.
  intro update other same
  cases update with
  | put key block =>
    cases other with
    | put key' block' =>
      cases ofPair_injective (Option.some.inj (Forward.put.inj same))
      rfl
    | del key' => cases same
  | del key =>
    cases other with
    | put key' block' => cases same
    | del key' =>
      cases same
      rfl

/-- With the update accepted at the head and nowhere else, everything is there to bring it on. -/
theorem repairing_start {tables : List Table} {common : Contents}
    (equal : ∀ table ∈ tables, table.Holds common) {update : Update} {after : Table}
    (holds : after.Holds (update.apply common)) :
    Repairing update common (start tables after update.forward)
      (Function.update (fun _ => common) 0 (update.apply common)) := by
  have members : ∀ (server : Nat) (member : Member),
      (start tables after update.forward).members[server]? = some member →
        ∃ table, (tables.set 0 after)[server]? = some table ∧ member = ⟨table, false, none⟩ := by
    intro server member there
    obtain ⟨table, found, same⟩ := List.getElem?_map ▸ there |> Option.map_eq_some_iff.mp
    exact ⟨table, found, same.symm⟩
  have flights : (start tables after update.forward).flights =
      [[Frame.called 0 update.forward]] := rfl
  refine { held := ?_, others := ?_, merging := ?_, flying := ?_, stacked := ?_, alive := ?_,
           head := ?_, headMerge := ?_, provided := ?_ }
  · -- The head has the map after the update, and the others have the one before it.
    intro server member there
    obtain ⟨table, found, rfl⟩ := members server member there
    have before : ∀ (server : Nat) (table : Table), tables[server]? = some table →
        table.Holds common := fun _ table found => equal table (List.mem_of_getElem? found)
    exact held_set before holds server table found
  · intro server key differs
    by_cases head : server = 0
    · subst head
      rw [Function.update_self, Update.lookup_apply, if_neg differs]
    · rw [Function.update_of_ne head]
  · intro server member there merge merging
    obtain ⟨table, -, rfl⟩ := members server member there
    cases merging
  · intro flight flying frame inside
    rw [flights] at flying
    obtain rfl := List.mem_singleton.mp flying
    rw [List.mem_singleton.mp inside]
    rfl
  · intro _ flight flying
    rw [flights] at flying
    obtain rfl := List.mem_singleton.mp flying
    exact stacked_start _
  · intro dead
    cases dead
  · rw [Function.update_self, Update.lookup_apply, if_pos rfl]
  · intro member there merge merging
    obtain ⟨table, -, rfl⟩ := members 0 member there
    cases merging
  · intro server member there _
    by_cases head : server = 0
    · subst head
      exact .inl (by rw [Function.update_self, Update.lookup_apply, if_pos rfl])
    · -- The head's own call is about to forward the update to everybody else.
      refine .inr (.inl ⟨_, List.mem_singleton_self _, _, rfl, rfl, ?_⟩)
      exact Nat.pos_of_ne_zero head

/-- Each step that is kept to leaves the update where it is, or on its way to where it is not. -/
theorem repairing_step {update : Update} {common : Contents} {state next : State} {label : Step}
    (kept : Kept update state label) (stepped : step state label = some next)
    (before : ∃ contents, Repairing update common state contents) :
    ∃ contents, Repairing update common next contents := by
  -- There is one lemma for each kind of step.
  obtain ⟨contents, repairing⟩ := before
  cases label with
  | attempt position => exact repairing.attempt stepped
  | finish position => exact ⟨contents, repairing.finish kept stepped⟩
  | crash server => exact ⟨contents, repairing.crash stepped⟩
  | relink server => exact repairing.relink stepped
  | fetch server => exact repairing.fetch kept stepped
  | mergePut server => exact repairing.mergePut kept stepped

/--
Every survivor ends with the map that the head has after the update.

The run is any interleaving of forwarding, a crash and the callbacks in which nothing loses the
update.
-/
theorem survivors_agree {tables : List Table} {common : Contents}
    (equal : ∀ table ∈ tables, table.Holds common) {head after : Table}
    (first : tables[0]? = some head) {msg : MessageT} {update : Update}
    (accepted : applyTo head msg = some (some update.forward, after)) {steps : List Step}
    (kept : Machine.Guarded step (Kept update) (start tables after update.forward) steps)
    {final : State} (ran : Machine.run step (start tables after update.forward) steps = some final)
    (recovered : Recovered final) :
    ∀ (server : Nat) (member : Member), final.members[server]? = some member →
      final.dead ≠ some server → member.table.Holds (update.apply common) := by
  obtain ⟨mem, applied⟩ := applyTo_cases accepted
  obtain ⟨-, ⟨nothing, -⟩ | ⟨update', passed, -, holds⟩⟩ :=
    updateLocally_ran (equal head (List.mem_of_getElem? first)) applied
  · cases nothing
  · obtain rfl := forward_injective (Option.some.inj passed)
    obtain ⟨contents, repairing⟩ := Machine.run_invariant
      (fun _ _ _ before allowed stepped => repairing_step allowed stepped before)
      ⟨_, repairing_start equal holds⟩ kept ran
    obtain ⟨-, quiet, merged⟩ := recovered
    intro server member there survives
    have inside := (List.getElem?_eq_some_iff.mp there).1
    obtain ⟨-, merge, merging, ended⟩ := merged server inside member there survives
    -- Nothing is on its way any longer, so the update has arrived.
    have has : (contents server).lookup update.key = update.value := by
      rcases repairing.provided server member there survives with has | coming | awaited
      · exact has
      · obtain ⟨flight, flying, -⟩ := coming
        rw [quiet] at flying
        cases flying
      · obtain ⟨pairs, left, -⟩ := repairing.merging server member there merge merging
        obtain rfl := Merge.left_of_ended left ended
        cases update with
        | put key block =>
          have waiting := (mem_remaining left _).mp (awaited merge merging)
          exact absurd waiting (by simp)
        | del key => exact awaited.elim
    have whole : contents server = update.apply common := by
      refine Finmap.ext_lookup fun key => ?_
      rw [Update.lookup_apply]
      split
      · rename_i same
        rw [same, has]
      · rename_i differs
        exact repairing.others server key differs
    rw [← whole]
    exact repairing.held server member there

/--
A deletion that the head gives up on is never made good, and a put not in every order of callbacks.

The chains have three and four servers, of which the second one crashes before it is reached.
In the second run the tail fetches the table of its predecessor before that has merged.
-/
theorem update_is_lost :
    let key : Key := ⟨[107], by decide⟩
    let block : Block := ⟨[1], by decide⟩
    let empty : Table := ⟨0, 1, [⟨0, []⟩], rfl⟩
    let holding : Table := ⟨1, 1, [⟨1, [.ofPair (key, block)]⟩], rfl⟩
    let lost : List Step := .crash 1 :: (List.replicate 10 (.attempt 0) ++ [.finish 0])
    let deletion : State := start (List.replicate 3 holding) empty (Update.del key).forward
    let deleted : State :=
      ⟨[⟨empty, true, some ⟨none, 0⟩⟩, ⟨holding, false, none⟩, ⟨holding, true, some ⟨none, 0⟩⟩],
        some 1, []⟩
    let putting : State := start (List.replicate 4 empty) holding (Update.put key block).forward
    let pair : Option Entry := some (.ofPair (key, block))
    let put : State :=
      ⟨[⟨holding, true, some ⟨none, 0⟩⟩, ⟨empty, false, none⟩,
        ⟨holding, true, some ⟨some [pair, none], 1⟩⟩, ⟨empty, true, some ⟨none, 0⟩⟩], some 1, []⟩
    (∀ table ∈ List.replicate 3 holding, table.Holds ((∅ : Contents).insert key block)) ∧
      applyTo holding (Update.del key).request = some (some (Update.del key).forward, empty) ∧
      Machine.run step deletion (lost ++ [.relink 0, .relink 2, .fetch 0, .fetch 2]) =
        some deleted ∧
      Recovered deleted ∧ empty.Holds ∅ ∧ ¬ holding.Holds ∅ ∧
    (∀ table ∈ List.replicate 4 empty, table.Holds ∅) ∧
      applyTo empty (Update.put key block).request =
        some (some (Update.put key block).forward, holding) ∧
      Machine.run step putting (lost ++ [.relink 0, .relink 2, .relink 3, .fetch 0, .fetch 3,
        .fetch 2, .mergePut 2]) = some put ∧
      Recovered put ∧ ¬ empty.Holds ((∅ : Contents).insert key block) := by
  -- Both runs are evaluated, and the tables with and without the key are told apart.
  intro key block empty holding lost deletion deleted putting pair put
  have isEmpty : empty.Holds ∅ := Table.Holds.empty
  have stored : tablePut empty (some key) (some (.ofBlock block)) [] = .ok ((0, holding), []) := rfl
  obtain ⟨-, -, full⟩ := isEmpty.put_ran (contents_ofBlock block) stored
  have differ : (∅ : Contents).insert key block ≠ ∅ := by
    intro same
    have lookups := congrArg (Finmap.lookup key) same
    rw [contents_insert, if_pos rfl, Finmap.lookup_empty] at lookups
    cases lookups
  refine ⟨fun table member => ?_, by decide +kernel, by decide +kernel, by decide +kernel, isEmpty,
    fun other => differ (full.unique other), fun table member => ?_, by decide +kernel,
    by decide +kernel, by decide +kernel, fun other => differ (other.unique isEmpty)⟩
  · rw [List.eq_of_mem_replicate member]
    exact full
  · rw [List.eq_of_mem_replicate member]
    exact isEmpty

/--
The update reaches all survivors if the head connects past the crashed server before it gives up.

The first run deletes in a chain of three. In the second one the head gives up on a put, and every
survivor fetches after its predecessor has merged.
-/
theorem survivors_agree_two_runs :
    let key : Key := ⟨[107], by decide⟩
    let block : Block := ⟨[1], by decide⟩
    let empty : Table := ⟨0, 1, [⟨0, []⟩], rfl⟩
    let holding : Table := ⟨1, 1, [⟨1, [.ofPair (key, block)]⟩], rfl⟩
    let deleting : List Step := [.crash 1, .attempt 0, .relink 0, .attempt 0, .finish 0, .finish 0,
      .relink 2, .fetch 2, .fetch 0]
    let giving : List Step := .crash 1 :: (List.replicate 10 (.attempt 0) ++ [.finish 0, .relink 3,
      .relink 2, .relink 0, .fetch 0, .fetch 2, .mergePut 2, .fetch 3, .mergePut 3])
    (∃ final, Machine.run step (start (List.replicate 3 holding) empty (Update.del key).forward)
        deleting = some final ∧ ∀ server member, final.members[server]? = some member →
          final.dead ≠ some server →
            member.table.Holds ((Update.del key).apply ((∅ : Contents).insert key block))) ∧
    ∃ final, Machine.run step
        (start (List.replicate 4 empty) holding (Update.put key block).forward) giving =
      some final ∧ ∀ server member, final.members[server]? = some member →
        final.dead ≠ some server → member.table.Holds ((Update.put key block).apply ∅) := by
  -- Both runs keep to the condition, which is evaluated along them.
  intro key block empty holding deleting giving
  have isEmpty : empty.Holds ∅ := Table.Holds.empty
  have stored : tablePut empty (some key) (some (.ofBlock block)) [] = .ok ((0, holding), []) := rfl
  obtain ⟨-, -, full⟩ := isEmpty.put_ran (contents_ofBlock block) stored
  constructor
  · have equal : ∀ table ∈ List.replicate 3 holding,
        table.Holds ((∅ : Contents).insert key block) := fun table member => by
      rw [List.eq_of_mem_replicate member]
      exact full
    have accepted : applyTo holding (Update.del key).request =
        some (some (Update.del key).forward, empty) := by decide +kernel
    have kept : Machine.Guarded step (Kept (.del key))
        (start (List.replicate 3 holding) empty (Update.del key).forward) deleting := by
      decide +kernel
    have runs : (Machine.run step (start (List.replicate 3 holding) empty
        (Update.del key).forward) deleting).any Recovered := by decide +kernel
    obtain ⟨final, ran, recovered⟩ := Option.any_eq_true _ _ |>.mp runs
    exact ⟨final, ran, survivors_agree equal rfl accepted kept ran (of_decide_eq_true recovered)⟩
  · have equal : ∀ table ∈ List.replicate 4 empty, table.Holds ∅ := fun table member => by
      rw [List.eq_of_mem_replicate member]
      exact isEmpty
    have accepted : applyTo empty (Update.put key block).request =
        some (some (Update.put key block).forward, holding) := by decide +kernel
    have kept : Machine.Guarded step (Kept (.put key block))
        (start (List.replicate 4 empty) holding (Update.put key block).forward) giving := by
      decide +kernel
    have runs : (Machine.run step (start (List.replicate 4 empty) holding
        (Update.put key block).forward) giving).any Recovered := by decide +kernel
    obtain ⟨final, ran, recovered⟩ := Option.any_eq_true _ _ |>.mp runs
    exact ⟨final, ran, survivors_agree equal rfl accepted kept ran (of_decide_eq_true recovered)⟩

end ChainTable.Failover
