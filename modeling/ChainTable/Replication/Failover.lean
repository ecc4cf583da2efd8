import ChainTable.Library.Machine
import ChainTable.Replication.Forwarding
import ChainTable.Replication.Merge
import ChainTable.Server.Acknowledgement

/-! A server that crashes while an update is forwarded, and what its neighbours do about it. -/

namespace ChainTable.Failover

open ChainTable ChainTable.Forwarding

/-- A server, by its place in the order of the children. -/
structure Member where
  table : Table
  /-- It has run `select_next_server` on the children that are left. -/
  relinked : Bool
  /-- Its merge with the predecessor that is left, once it has fetched the table of that server. -/
  merge : Option Merge
  deriving DecidableEq, Repr

/-- A call of `invoke` that has applied the update, and is to forward it. -/
structure Frame where
  server : Nat
  forward : Forward
  /-- The attempts that have returned -1. -/
  retries : Nat
  /-- An attempt has returned 0. -/
  answered : Bool
  deriving DecidableEq, Repr

/--
The servers, and the calls of `invoke` in progress.

Every call but the last of a flight was made by the call behind it, which waits for its reply.
-/
structure State where
  members : List Member
  dead : Option Nat
  flights : List (List Frame)
  deriving DecidableEq, Repr

/-- A step of some server. -/
inductive Step where
  /-- The first call of a flight makes an attempt to forward the update. -/
  | attempt (position : Nat)
  /-- The first call of a flight leaves its loop and replies. -/
  | finish (position : Nat)
  | crash (server : Nat)
  /-- The watcher of a server runs `select_next_server`. -/
  | relink (server : Nat)
  /-- The watcher of a server runs `select_prev_server` up to the answer of the predecessor. -/
  | fetch (server : Nat)
  /-- The watcher of a server puts the next entry that it fetched. -/
  | mergePut (server : Nat)
  deriving DecidableEq, Repr

namespace State

/-- The first server behind another one that is alive. -/
def after (state : State) (server : Nat) : Option Nat :=
  (List.range' (server + 1) (state.members.length - (server + 1))).find? fun other =>
    state.dead ≠ some other

/-- The last server in front of another one that is alive. -/
def before (state : State) (server : Nat) : Option Nat :=
  (List.range server).reverse.find? fun other => state.dead ≠ some other

/-- The server that `next_server` is connected to. -/
def nextServer (state : State) (server : Nat) : Option Nat :=
  match state.members[server]? with
  | none => none
  | some member =>
    if member.relinked then state.after server
    -- Up to the callback the connection is the one from before the crash.
    else if server + 1 < state.members.length then some (server + 1)
    else none

end State

/-- One attempt of the first call of a flight. -/
def attempt (state : State) (position : Nat) : Option State :=
  match state.flights[position]? with
  | some (top :: below) =>
    if top.answered = false ∧ top.retries < maxRetries then
      match state.nextServer top.server with
      | none => none
      | some next =>
        let failed := state.flights.set position ({ top with retries := top.retries + 1 } :: below)
        -- An attempt towards the dead server returns -1.
        if state.dead = some next then some { state with flights := failed }
        else match state.members[next]?, forwardRequest top.forward with
          | some member, some request =>
            match applyTo member.table request with
            | none => none
            | some (passed, table) =>
              some
                { state with
                  members := state.members.set next { member with table := table }
                  flights := match passed with
                    | none => failed
                    | some forward => state.flights.set position
                        ({ server := next, forward := forward, retries := 0, answered := false }
                          :: top :: below) }
          | _, _ => none
    else none
  | _ => none

/-- The first call of a flight returns, and its caller gets a success, whatever the loop did. -/
def finish (state : State) (position : Nat) : Option State :=
  match state.flights[position]? with
  | some (top :: below) =>
    if top.answered = true ∨ maxRetries ≤ top.retries ∨ state.nextServer top.server = none then
      match below with
      | [] => some { state with flights := state.flights.eraseIdx position }
      | caller :: others =>
        some { state with
               flights := state.flights.set position ({ caller with answered := true } :: others) }
    else none
  | _ => none

/-- What the crash of a server leaves of a flight: the calls it made, and those that wait for it. -/
def cut (server : Nat) (flight : List Frame) : List (List Frame) :=
  match flight.dropWhile fun frame => frame.server ≠ server with
  | [] => [flight]
  | _ :: below =>
    let above := flight.takeWhile fun frame => frame.server ≠ server
    (if above = [] then [] else [above]) ++
      match below with
      | [] => []
      -- The attempt that waits for the server returns -1.
      | caller :: others => [{ caller with retries := caller.retries + 1 } :: others]

/-- A server changes. -/
def State.setMember (state : State) (server : Nat) (member : Member) : State :=
  { state with members := state.members.set server member }

/-- `select_prev_server` up to the answer of the predecessor. -/
def fetch (state : State) (server : Nat) (member : Member) : Option State :=
  match state.before server with
  -- The head merges nothing.
  | none =>
    some (state.setMember server { member with merge := some { entries := none, position := 0 } })
  | some previous =>
    match state.members[previous]? with
    | none => none
    | some other =>
      match fetchTable other.table with
      | none => none
      | some entries =>
        some (state.setMember server
          { member with merge := some { entries := entries, position := 0 } })

/-- One round of the loop of `select_prev_server`. -/
def mergePut (state : State) (server : Nat) (member : Member) : Option State :=
  match member.merge with
  | none => none
  | some merge =>
    match merge.put member.table with
    | none => none
    | some (merge, table) =>
      some (state.setMember server { member with table := table, merge := some merge })

/-- What one step does, if it is possible. -/
def step (state : State) : Step → Option State
  | .attempt position => attempt state position
  | .finish position => finish state position
  | .crash server =>
    -- One internal server crashes.
    if state.dead = none ∧ 0 < server ∧ server + 1 < state.members.length then
      some { state with dead := some server, flights := state.flights.flatMap (cut server) }
    else none
  | .relink server =>
    match state.members[server]? with
    | none => none
    | some member =>
      if state.dead ≠ none ∧ state.dead ≠ some server then
        some (state.setMember server { member with relinked := true })
      else none
  | .fetch server =>
    match state.members[server]? with
    | none => none
    | some member =>
      if state.dead ≠ none ∧ state.dead ≠ some server ∧ member.merge = none then
        fetch state server member
      else none
  | .mergePut server =>
    match state.members[server]? with
    | none => none
    | some member =>
      if state.dead ≠ some server then mergePut state server member else none

/-- The head has just accepted an update, and nobody else has heard of it. -/
def start (tables : List Table) (after : Table) (forward : Forward) : State where
  members := (tables.set 0 after).map fun table =>
    { table := table, relinked := false, merge := none }
  dead := none
  flights := [[{ server := 0, forward := forward, retries := 0, answered := false }]]

/-- Every survivor has run both callbacks, and no request is in flight. -/
def Recovered (state : State) : Prop :=
  state.dead ≠ none ∧ state.flights = [] ∧ ∀ server < state.members.length,
    ∀ member ∈ state.members[server]?, state.dead ≠ some server →
      member.relinked = true ∧ ∃ merge ∈ member.merge, merge.current = none

/-- Some flight goes on to forward the update from a server in front. -/
def Coming (flights : List (List Frame)) (server : Nat) : Prop :=
  ∃ flight ∈ flights, ∃ top ∈ flight.head?, top.answered = false ∧ top.server < server

/-- The entries that a merge has yet to put, up to the NULL behind them. -/
def remaining (merge : Merge) : List (Option Entry) :=
  (merge.entries.getD []).drop merge.position

/-- The pair of a put is what a server has yet to fetch, or to put. -/
def Awaited (update : Update) (member : Member) : Prop :=
  match update with
  | .put key block => ∀ merge ∈ member.merge, some (.ofPair (key, block)) ∈ remaining merge
  | .del _ => False

/-- A server has the update, or some flight or its merge goes on to bring it. -/
def Assured (update : Update) (flights : List (List Frame)) (server : Nat)
    (member : Member) : Prop :=
  update.Settled member.table ∨ Coming flights server ∨ Awaited update member

/--
What keeps an update from getting lost on its way to a survivor.

A call that leaves its loop without an answer leaves every server behind it assured otherwise.
A server fetches when it has the update, or some flight brings it, or its predecessor has it.
An older value of the key is put only where the update is not yet, or where some flight brings it.
-/
def Kept (update : Update) (state : State) : Step → Prop
  | .finish position => ∀ flight ∈ state.flights[position]?, ∀ top ∈ flight.head?,
      top.answered = false → ∀ server < state.members.length, top.server < server →
        state.dead ≠ some server → ∀ member ∈ state.members[server]?,
          Assured update (state.flights.eraseIdx position) server member
  | .fetch server => ∀ previous ∈ state.before server, ∀ other ∈ state.members[previous]?,
      ∀ member ∈ state.members[server]?, update.Settled member.table ∨
        Coming state.flights server ∨ update.Settled other.table
  | .mergePut server => ∀ member ∈ state.members[server]?, ∀ merge ∈ member.merge,
      ∀ entry ∈ merge.current, entry.key = some update.key →
        entry.value = update.value.map Data.ofBlock ∨ ¬ update.Settled member.table ∨
          Coming state.flights server
  | _ => True

instance (state : State) : Decidable (Recovered state) :=
  inferInstanceAs (Decidable (_ ∧ _ ∧ ∀ server < state.members.length,
    ∀ member ∈ state.members[server]?, state.dead ≠ some server →
      member.relinked = true ∧ ∃ merge ∈ member.merge, merge.current = none))

instance (update : Update) (table : Table) : Decidable (update.Settled table) :=
  inferInstanceAs (Decidable (_ = _))

instance (flights : List (List Frame)) (server : Nat) : Decidable (Coming flights server) :=
  inferInstanceAs (Decidable (∃ flight ∈ flights, ∃ top ∈ flight.head?,
    top.answered = false ∧ top.server < server))

instance (update : Update) (member : Member) : Decidable (Awaited update member) :=
  match update with
  | .put key block => inferInstanceAs (Decidable (∀ merge ∈ member.merge,
      some (.ofPair (key, block)) ∈ remaining merge))
  | .del _ => inferInstanceAs (Decidable False)

instance (update : Update) (flights : List (List Frame)) (server : Nat) (member : Member) :
    Decidable (Assured update flights server member) :=
  inferInstanceAs (Decidable (_ ∨ _ ∨ _))

instance (update : Update) (state : State) (label : Step) : Decidable (Kept update state label) :=
  match label with
  | .finish position => inferInstanceAs (Decidable (∀ flight ∈ state.flights[position]?,
      ∀ top ∈ flight.head?, top.answered = false → ∀ server < state.members.length,
        top.server < server → state.dead ≠ some server → ∀ member ∈ state.members[server]?,
          Assured update (state.flights.eraseIdx position) server member))
  | .fetch server => inferInstanceAs (Decidable (∀ previous ∈ state.before server,
      ∀ other ∈ state.members[previous]?, ∀ member ∈ state.members[server]?,
        update.Settled member.table ∨ Coming state.flights server ∨ update.Settled other.table))
  | .mergePut server => inferInstanceAs (Decidable (∀ member ∈ state.members[server]?,
      ∀ merge ∈ member.merge, ∀ entry ∈ merge.current, entry.key = some update.key →
        entry.value = update.value.map Data.ofBlock ∨ ¬ update.Settled member.table ∨
          Coming state.flights server))
  | .attempt _ | .crash _ | .relink _ => inferInstanceAs (Decidable True)

end ChainTable.Failover
