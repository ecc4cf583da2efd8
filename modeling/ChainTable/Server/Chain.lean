import ChainTable.Server.StubLaws

/-! A chain of servers, where each passes the updates it applied on to its successor. -/

namespace ChainTable

/-- A server of the chain, with what becomes of its attempts to reach the next one. -/
structure Node where
  server : Server
  /-- Whether the attempts to come get through, which all do past the end. -/
  link : List Bool

/-- A chain of a server and as many successors as said. -/
def Chain : (successors : Nat) → Type
  | 0 => Node
  | successors + 1 => Node × Chain successors

/-- The servers of a chain, from its head to its tail. -/
def Chain.nodes : {n : Nat} → Chain n → List Node
  | 0, (node : Node) => [node]
  | _ + 1, (node, rest) => node :: rest.nodes

/-- A successor behind a link: an attempt that does not get through returns -1. -/
def overLink {σ : Type} (successor : Successor σ) : Successor (List Bool × σ) :=
  fun forward (link, state) =>
    match link with
    | false :: later => return (-1, (later, state))
    | link => do
      let (result, state) ← successor forward state
      return (result, (link.tail, state))

/-- The head of a chain receives a message, invokes it, and sends back what became of it. -/
def serve : (n : Nat) → SendReceive (Chain n)
  | 0, msg, (node : Node) => do
    -- The tail has no successor.
    let ((_, reply, server), _) ←
      invoke (none : Option (Successor Unit)) (some msg) node.server ()
    return (some reply, ({ node with server := server } : Node))
  | n + 1, msg, (node, rest) => do
    let ((_, reply, server), link, rest) ←
      invoke (some (overLink (rtableSuccessor (serve n)))) (some msg) node.server (node.link, rest)
    return (some reply, ({ server := server, link := link }, rest))

/-- The tail of a chain receives a message, invokes it, and sends back what became of it. -/
def serveTail : (n : Nat) → SendReceive (Chain n)
  | 0, msg, node => serve 0 msg node
  | n + 1, msg, (node, rest) => do
    let (reply, rest) ← serveTail n msg rest
    return (reply, (node, rest))

/-- Some of the attempts a server makes for one update gets through. -/
def GetsThrough (link : List Bool) : Prop :=
  link.take maxRetries ≠ List.replicate maxRetries false

instance (link : List Bool) : Decidable (GetsThrough link) :=
  inferInstanceAs (Decidable (_ ≠ _))

/-- The first server of a chain. -/
def Chain.head : {n : Nat} → Chain n → Node
  | 0, (node : Node) => node
  | _ + 1, (node, _) => node

end ChainTable
