import Mathlib.Algebra.BigOperators.Group.Finset.Basic
import ChainTable.Server.ChainHistory
import ChainTable.Wire.Capacity
import ChainTable.Wire.Session

/-! A chain whose servers and clients exchange bytes over connections. -/

namespace ChainTable

/-- A chain of a server and as many successors as said, each behind a connection. -/
def WiredChain : (successors : Nat) → Type
  | 0 => Server
  | successors + 1 => Server × Connection × WiredChain successors

/-- The servers of a chain, from its head to its tail. -/
def WiredChain.servers : {n : Nat} → WiredChain n → List Server
  | 0, (server : Server) => [server]
  | _ + 1, (server, _, rest) => server :: rest.servers

/-- The connections between the servers of a chain. -/
def WiredChain.connections : {n : Nat} → WiredChain n → List Connection
  | 0, _ => []
  | _ + 1, (_, connection, rest) => connection :: rest.connections

/-- The head of a chain invokes a message, and passes an update on over its connection. -/
def invokeOver (codec : Codec) (garbage : Garbage) : (n : Nat) → Handler (WiredChain n)
  | 0, msg, (server : Server) => do
    -- The tail has no successor.
    let ((_, reply, server), _) ← invoke (none : Option (Successor Unit)) (some msg) server ()
    return (reply, server)
  | n + 1, msg, (server, connection, rest) => do
    let ((_, reply, server), connection, rest) ←
      invoke (some (rtableSuccessor (callOver codec garbage (invokeOver codec garbage n))))
        (some msg) server (connection, rest)
    return (reply, (server, connection, rest))

/-- The tail of a chain invokes a message. -/
def invokeTailOver (codec : Codec) (garbage : Garbage) : (n : Nat) → Handler (WiredChain n)
  | 0, msg, server => invokeOver codec garbage 0 msg server
  | n + 1, msg, (server, connection, rest) => do
    let (reply, rest) ← invokeTailOver codec garbage n msg rest
    return (reply, (server, connection, rest))

/-- The connections of a client, to the head and to the tail of the chain. -/
structure ClientEnds where
  head : Connection := {}
  tail : Connection := {}
  deriving DecidableEq, Repr

variable {ι : Type} [DecidableEq ι] {n : Nat}

/-- Run a call of a client on its connection to the head. -/
def atHead {α : Type} (client : ι) (run : StateT (Connection × WiredChain n) C α) :
    StateT ((ι → ClientEnds) × WiredChain n) C α := fun (ends, chain) => do
  let (result, connection, chain) ← run ((ends client).head, chain)
  return (result, (Function.update ends client { ends client with head := connection }, chain))

/-- Run a call of a client on its connection to the tail. -/
def atTail {α : Type} (client : ι) (run : StateT (Connection × WiredChain n) C α) :
    StateT ((ι → ClientEnds) × WiredChain n) C α := fun (ends, chain) => do
  let (result, connection, chain) ← run ((ends client).tail, chain)
  return (result, (Function.update ends client { ends client with tail := connection }, chain))

/-- One of the clients makes a call on a chain. -/
def callWired (codec : Codec) (garbage : Garbage) (client : ι) :
    ChainCall → StateT ((ι → ClientEnds) × WiredChain n) C ChainReply
  | .put key data => atHead client do
    return .code (← rtablePut (callOver codec garbage (invokeOver codec garbage n))
      (some ⟨some key, some data⟩))
  | .del key => atHead client do
    return .code (← rtableDel (callOver codec garbage (invokeOver codec garbage n)) (some key))
  | .get key => atTail client do
    return .data (← rtableGet (callOver codec garbage (invokeTailOver codec garbage n)) (some key))
  | .size => atTail client do
    return .code (← rtableSize (callOver codec garbage (invokeTailOver codec garbage n)))
  | .getKeys => atTail client do
    return .keys (← rtableGetKeys (callOver codec garbage (invokeTailOver codec garbage n)))
  | .getTable => atTail client do
    return .entries (← rtableGetTable (callOver codec garbage (invokeTailOver codec garbage n)))

/-- The bytes of a repeated field with one element of so many bytes. -/
def elementSize (length : Nat) : Nat := 1 + (varint length).length + length

/-- The request of a call and its reply fit a frame, when the chain is one finite map. -/
def ChainCall.Fits (contents : Contents) : ChainCall → Prop
  | .put key data => packedSize (putRequest (some key) data) ≤ maxFrame
  | .del key => packedSize (delRequest (some key)) ≤ maxFrame
  | .get key => packedSize (getRequest (some key)) ≤ maxFrame
  -- The number of keys is an `int`.
  | .size => contents.keys.card < 2 ^ 31
  | .getKeys => 4 + ∑ key ∈ contents.keys, elementSize key.bytes.length ≤ maxFrame
  | .getTable => 4 + ∑ key ∈ contents.keys,
      ((contents.lookup key).elim 0 fun block =>
        elementSize (entrySize key.bytes.length block.val.length)) ≤ maxFrame

instance (contents : Contents) (call : ChainCall) : Decidable (call.Fits contents) :=
  match call with
  | .put _ _ | .del _ | .get _ | .getKeys | .getTable => inferInstanceAs (Decidable (_ ≤ _))
  | .size => inferInstanceAs (Decidable (_ < _))

/-- Every call fits, whatever the ones before it have changed. -/
def AllFit (contents : Contents) : List ChainCall → Prop
  | [] => True
  | call :: calls => call.Fits contents ∧ AllFit (call.effect contents) calls

instance AllFit.decidable : (contents : Contents) → (calls : List ChainCall) →
    Decidable (AllFit contents calls)
  | _, [] => inferInstanceAs (Decidable True)
  | contents, call :: calls =>
    let _ := AllFit.decidable (call.effect contents) calls
    inferInstanceAs (Decidable (_ ∧ _))

/-- A call whose data is valid, and whose key hashes inside every table. -/
def ChainCall.AdmissibleOn (servers : List Server) : ChainCall → Prop
  | .put key data => (∀ server ∈ servers, server.table.Inside key) ∧ dataValid (some data) = 0
  | .del key | .get key => ∀ server ∈ servers, server.table.Inside key
  | .size | .getKeys | .getTable => True

/--
A chain serves calls over its connections one after another as one finite map.

Every call returns what the map answers, and leaves all servers with the map it makes.
-/
def ServesOver (codec : Codec) (garbage : Garbage) (contents : Contents) :
    List (ι × ChainCall) → (ι → ClientEnds) × WiredChain n → Prop
  | [], _ => True
  | (client, call) :: calls, state =>
    ∃ reply after, callWired codec garbage client call state [] = .ok ((reply, after), []) ∧
      call.Answered contents reply ∧
      (∀ server ∈ after.2.servers, server.table.Holds (call.effect contents)) ∧
      ServesOver codec garbage (call.effect contents) calls after

/-- All servers hold one map, and nothing is under way on a connection between them. -/
structure WiredChain.Agrees (contents : Contents) (chain : WiredChain n) : Prop where
  holds : ∀ server ∈ chain.servers, server.table.Holds contents
  idle : ∀ connection ∈ chain.connections, connection.Idle

/-- The numbers of rows of the tables of a chain. -/
def WiredChain.rows (chain : WiredChain n) : List Int :=
  chain.servers.map fun server => server.table.rows

end ChainTable
