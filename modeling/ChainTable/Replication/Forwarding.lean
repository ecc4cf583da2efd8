import ChainTable.Library.Machine
import ChainTable.Library.Replay
import ChainTable.Server.Update

/-! Updates applied at the head by many threads, and forwarded down the chain one hop at a time. -/

namespace ChainTable.Forwarding

open ChainTable

/-- An update on its way down the chain, in the hands of the thread that applied it last. -/
structure Flight where
  forward : Forward
  /-- The server the update is to be applied at next. -/
  hop : Nat
  /-- The failed attempts to have it applied there. -/
  retries : Nat
  deriving DecidableEq, Repr

/-- The tables of all servers, and the updates in flight in the order the head applied them. -/
structure State where
  tables : List Table
  flights : List Flight
  deriving DecidableEq, Repr

/-- A step of some thread. -/
inductive Step where
  /-- The head applies the request of a client under its lock. -/
  | accept (msg : MessageT)
  /-- The update at a position of the list is forwarded by one more hop. -/
  | forward (position : Nat)
  deriving DecidableEq, Repr

/-- The request by which an update is forwarded, unless a field it is made of is missing. -/
def forwardRequest : Forward → Option MessageT
  | .put (some { key := key, value := some value }) => some (putRequest key value)
  | .put _ => none
  | .del key => some (delRequest (some key))

/-- The key an update in flight is about. -/
def forwardKey : Forward → Option Key
  | .put entry => entry.bind Entry.key
  | .del key => some key

/-- One server applies an update under its lock, with memory given and no undefined behaviour. -/
def applyAt (tables : List Table) (server : Nat) (msg : MessageT) :
    Option (Option Forward × List Table) :=
  match tables[server]? with
  | none => none
  | some table =>
    match updateLocally msg table [] with
    | .ok ((passed, after), _) => some (passed, tables.set server after)
    | .error _ => none

/-- What becomes of an update in flight after one more attempt to have it applied. -/
def Flight.advance (flight : Flight) (servers : Nat) : Option Forward → Option Flight
  | some forward =>
    -- The server that applied it forwards it in turn, unless it is the tail.
    if flight.hop + 1 < servers then
      some { forward := forward, hop := flight.hop + 1, retries := 0 }
    else none
  | none =>
    -- After the last failed attempt the thread goes on as if it had succeeded.
    if flight.retries + 1 < maxRetries then some { flight with retries := flight.retries + 1 }
    else none

/-- What one step of a thread does. -/
def step (state : State) : Step → Option State
  | .accept msg =>
    if msg.opcode = opPut ∨ msg.opcode = opDel then
      match applyAt state.tables 0 msg with
      | none => none
      | some (passed, tables) =>
        let started := passed.toList.filterMap fun forward =>
          if 1 < tables.length then some { forward := forward, hop := 1, retries := 0 } else none
        some { tables := tables, flights := state.flights ++ started }
    else none
  | .forward position =>
    match state.flights[position]? with
    | none => none
    | some flight =>
      match forwardRequest flight.forward with
      | none => none
      | some request =>
        match applyAt state.tables flight.hop request with
        | none => none
        | some (passed, tables) =>
          some
            { tables := tables
              flights := state.flights.take position ++
                (flight.advance tables.length passed).toList ++ state.flights.drop (position + 1) }

/-- All servers hold the same map. -/
def Agree (tables : List Table) : Prop :=
  ∃ contents, ∀ table ∈ tables, table.Holds contents

/-- An update is forwarded only past servers that have applied all earlier updates of its key. -/
def InOrder (state : State) : Step → Prop
  | .accept _ => True
  | .forward position =>
    ∀ flight ∈ state.flights[position]?, ∀ earlier ∈ state.flights.take position,
      forwardKey earlier.forward = forwardKey flight.forward → flight.hop < earlier.hop

instance (state : State) (label : Step) : Decidable (InOrder state label) :=
  match label with
  | .accept _ => inferInstanceAs (Decidable True)
  | .forward position =>
    match flown : state.flights[position]? with
    | none => isTrue (by simp [InOrder, flown])
    | some flight => decidable_of_iff
        (∀ earlier ∈ state.flights.take position,
          forwardKey earlier.forward = forwardKey flight.forward → flight.hop < earlier.hop)
        (by simp [InOrder, flown])

end ChainTable.Forwarding
