import ChainTable.Library.Machine
import ChainTable.Membership.Address

/-! Servers that come and go, and the one-shot watches by which the others learn of it. -/

namespace ChainTable.Watching

/-- The watch of a server on the children of the root, which fires once and has to be set again. -/
inductive Watch where
  /-- `zk_get_children` has yet to be called. -/
  | unset
  | set
  /-- The children have changed, and `zk_child_watcher` has yet to get them. -/
  | fired
  deriving DecidableEq, Repr

/-- The threads of a server that run `select_next_server`. -/
inductive Thread where
  /-- `main`, which calls `zk_get_children` once. -/
  | main
  /-- The thread of the ZooKeeper client library that calls `zk_child_watcher`. -/
  | watcher
  deriving DecidableEq, Repr

/-- A node that a server has created below the root. -/
structure Node where
  zkNodeId : Key
  nodeMetadata : List UInt8
  /-- The address of the host, and the port that the socket of the server is bound to. -/
  listener : SockaddrIn
  deriving DecidableEq, Repr

/-- How far a thread is with `select_next_server`, which takes no lock. -/
inductive Progress where
  /-- It is not in the callback. -/
  | idle
  /-- It has got the children, and has yet to choose from them. -/
  | got (children : List Key)
  /-- It has connected to the child that it chose, or has found that there is none to choose. -/
  | chosen (tempNextServer : Option SockaddrIn)
  /-- It has looked at `next_server`, and has disconnected it if it was connected. -/
  | looked (tempNextServer : Option SockaddrIn) (connected : Bool)
  deriving DecidableEq, Repr

/-- A server whose node exists. -/
structure Server where
  node : Node
  /-- The process still runs, and not only its session. -/
  running : Bool
  watch : Watch
  progress : Thread → Progress
  nextServer : Option SockaddrIn
  /-- The connection behind `next_server` was disconnected, and nothing was stored since. -/
  dangling : Bool

/-- The servers in the order of their registration, and the number that no node has had yet. -/
structure State where
  servers : List Server
  counter : Nat

/--
A thread calls `zoo_wget_children` or runs a part of `select_next_server`, or a server comes or
goes.

The threads of a server share `next_server` without a lock, so that the parts of their callbacks may
come in any order. The callbacks of `select_prev_server` use nothing of this.
-/
inductive Step where
  /-- `main` up to `zk_register_server`, on a host with these interfaces. -/
  | register (number : Nat) (interfaces : List IfaAddr) (serverAddress : List UInt8)
    (serverPort : Key) (ephemeral : UInt16)
  /-- `main` calls `zk_get_children` with `select_next_server`, up to the callback. -/
  | getChildren (position : Nat) (children : List Key)
  /-- `zk_child_watcher` is called for a change of the children, up to the callback. -/
  | childEvent (position : Nat) (children : List Key)
  /-- A thread sorts the children that it got, and connects to the one that comes next. -/
  | choose (position : Nat) (thread : Thread) (network : Network)
    (fresh : { block : List UInt8 // block.length = zDataLen })
  /-- A thread looks at `next_server`, and disconnects it if it is not NULL. -/
  | look (position : Nat) (thread : Thread)
  /-- A thread stores the new connection in `next_server` and prints it, or stores NULL. -/
  | store (position : Nat) (thread : Thread)
  /-- The process of a server ends. -/
  | stop (position : Nat)
  /-- The session of a server that has ended is over, and its node is gone. -/
  | expire (position : Nat)

/-- The path of the root, `/chain`. -/
def rootNode : Key := ⟨[47, 99, 104, 97, 105, 110], by decide⟩

/-- The nodes below the root, with the servers that created them. -/
def State.nodes (state : State) : List Node :=
  state.servers.map Server.node

/-- The names of the nodes, in the order of their creation. -/
def childrenOf (nodes : List Node) : List Key :=
  nodes.map Node.zkNodeId

/--
`zoo_create` of an ephemeral node with a sequence number, which is printed in ten digits.

The guide in `docs/zookeeperProgrammers.html` of ZooKeeper gives the format as `%010d`.
-/
def sequenced (number : Nat) (path : Key) : Key where
  bytes := path.bytes ++ Decimal.padded 10 number
  nulFree := fun zero => (List.mem_append.mp zero).elim path.nulFree fun digit =>
    absurd (Decimal.isDigit_of_mem_padded digit) (by decide)

/-- The data that is stored at a path. -/
def storedAt (nodes : List Node) (path : Key) : Option (List UInt8) :=
  (nodes.find? fun node => childPath rootNode node.zkNodeId = path).map Node.nodeMetadata

/-- What the servers find behind the calls of the client library, and behind `rtable_connect`. -/
def registry (nodes : List Node) (network : Network)
    (fresh : { block : List UInt8 // block.length = zDataLen }) : Registry SockaddrIn where
  zooGet := copyingGet (storedAt nodes)
  rtableConnect addressPort :=
    match rtableConnect network addressPort [] with
    | .ok (connection, _) => connection
    -- The callback faults in any case.
    | .error _ => none
  fresh := fresh.val
  length_fresh := fresh.property

/--
`select_next_server` up to the connection to the next child, or none if there is no such child.

These parts of it use nothing that the threads of a server share.
-/
def chooseNextServer {ρ : Type} (registry : Registry ρ) (rootPath zkNodeId : Key)
    (children : List Key) : C (Option ρ) := do
  let children ← bubbleSort children
  match nextChild zkNodeId children with
  | some child =>
    let metadata := (← childMetadata registry rootPath child).getD registry.fresh
    let tempNextServer ← connectTo registry metadata
    return some tempNextServer
  | none => return none

/--
A change of the children uses up the watch, if it is set.

The guide in `docs/zookeeperProgrammers.html` of ZooKeeper calls a watch a one-time trigger: nothing
is sent again until another read has set a new one.
-/
def Server.notify (server : Server) : Server :=
  { server with watch := if server.watch = .set then .fired else server.watch }

/-- A thread goes on with its callback. -/
def Server.goOn (server : Server) (thread : Thread) (progress : Progress) : Server :=
  { server with progress := Function.update server.progress thread progress }

/-- `zoo_wget_children` in one of the threads, which sets the watch and gets the children. -/
def Server.wget (server : Server) (thread : Thread) (children : List Key) : Server :=
  { server.goOn thread (.got children) with watch := .set }

/-- A look at `next_server`, after which the connection that was there is closed. -/
def Server.look (server : Server) (thread : Thread) (tempNextServer : Option SockaddrIn) : Server :=
  { server.goOn thread (.looked tempNextServer server.nextServer.isSome) with
    dangling := server.nextServer.isSome }

/-- The end of `select_next_server` in one of the threads. -/
def Server.store (server : Server) (thread : Thread) (tempNextServer : Option SockaddrIn)
    (connected : Bool) : Server :=
  { server.goOn thread .idle with
    -- The tail stores NULL only if there was a connection to close.
    nextServer := if tempNextServer.isSome ∨ connected then tempNextServer else server.nextServer
    dangling := !tempNextServer.isSome && !connected && server.dangling }

/-- A server that was just registered. -/
def Server.started (node : Node) : Server where
  node := node
  running := true
  watch := .unset
  progress _ := .idle
  nextServer := none
  dangling := false

/-- Replace the server at a position. -/
def State.set (state : State) (position : Nat) (server : Server) : State :=
  { state with servers := state.servers.set position server }

/-- `main` of a new server up to `zk_register_server`: the node that it creates. -/
def createNode (number : Nat) (interfaces : List IfaAddr) (serverAddress : List UInt8)
    (serverPort : Key) (ephemeral : UInt16) : Option Node :=
  if AcceptedPort serverPort then
    match localAddr interfaces,
      zkRegisterServer rootNode (fun path _ => some (sequenced number path)) (some interfaces)
        serverAddress serverPort [] with
    | some addr, .ok (some (zkNodeId, nodeMetadata), _) => some {
        zkNodeId := zkNodeId
        nodeMetadata := nodeMetadata
        listener := ⟨addr, networkServerInit ephemeral (atoi serverPort)⟩ }
    | _, _ => none
  else none

/-- What one step does, if it is possible and no callback runs into undefined behaviour. -/
def step (state : State) : Step → Option State
  | .register number interfaces serverAddress serverPort ephemeral =>
    -- The counter of the root only grows, and overflows after the largest number of 32 bits.
    if state.counter ≤ number ∧ number < 2 ^ 31 ∧ serverAddress.length = 100 then
      (createNode number interfaces serverAddress serverPort ephemeral).map fun node =>
        { servers := state.servers.map Server.notify ++ [Server.started node]
          counter := number + 1 }
    else none
  | .getChildren position children =>
    match state.servers[position]? with
    | none => none
    | some server =>
      if server.running = true ∧ server.watch = .unset ∧ children.Perm (childrenOf state.nodes) then
        some (state.set position (server.wget .main children))
      else none
  | .childEvent position children =>
    match state.servers[position]? with
    | none => none
    | some server =>
      -- The library calls its watchers one after another.
      if server.running = true ∧ server.watch = .fired ∧ server.progress .watcher = .idle ∧
          children.Perm (childrenOf state.nodes) then
        some (state.set position (server.wget .watcher children))
      else none
  | .choose position thread network fresh =>
    match state.servers[position]? with
    | none => none
    | some server =>
      match server.running, server.progress thread with
      | true, .got children =>
        match chooseNextServer (registry state.nodes network fresh) rootNode server.node.zkNodeId
          children [] with
        | .ok (tempNextServer, _) =>
          some (state.set position (server.goOn thread (.chosen tempNextServer)))
        | .error _ => none
      | _, _ => none
  | .look position thread =>
    match state.servers[position]? with
    | none => none
    | some server =>
      match server.running, server.progress thread with
      | true, .chosen tempNextServer =>
        -- A connection that the other thread has disconnected must not be used.
        if server.dangling then none
        else some (state.set position (server.look thread tempNextServer))
      | _, _ => none
  | .store position thread =>
    match state.servers[position]? with
    | none => none
    | some server =>
      match server.running, server.progress thread with
      | true, .looked tempNextServer connected =>
        some (state.set position (server.store thread tempNextServer connected))
      | _, _ => none
  | .stop position =>
    match state.servers[position]? with
    | none => none
    | some server => some (state.set position { server with running := false })
  | .expire position =>
    match state.servers[position]? with
    | none => none
    | some server =>
      if server.running then none
      else some { state with servers := (state.servers.eraseIdx position).map Server.notify }

/-- No server is registered yet. -/
def start : State where
  servers := []
  counter := 0

/--
A server is started with a port that it can listen on, and its `main` returns from its callback
before the watcher looks at `next_server`.

Otherwise `main` may overwrite the choice of the watcher with one that is out of date.
-/
def InOrder (state : State) : Step → Prop
  | .register _ _ _ serverPort _ => ¬ (2 ^ 16 : Int) ∣ atoi serverPort
  | .look position .watcher =>
    ∀ server ∈ state.servers[position]?, server.progress .main = .idle
  | _ => True

instance (state : State) (label : Step) : Decidable (InOrder state label) :=
  match label with
  | .register _ _ _ serverPort _ =>
    inferInstanceAs (Decidable (¬ (2 ^ 16 : Int) ∣ atoi serverPort))
  | .look position .watcher =>
    inferInstanceAs (Decidable (∀ server ∈ state.servers[position]?,
      server.progress .main = .idle))
  | .look _ .main | .choose _ _ _ _ | .store _ _ | .getChildren _ _ | .childEvent _ _ | .stop _
  | .expire _ => inferInstanceAs (Decidable True)

/-- Every server runs, has its watch set, and has no callback under way. -/
def Settled (state : State) : Prop :=
  ∀ server ∈ state.servers, server.running = true ∧ server.watch = .set ∧
    server.progress .main = .idle ∧ server.progress .watcher = .idle

instance (state : State) : Decidable (Settled state) :=
  inferInstanceAs (Decidable (∀ server ∈ state.servers, server.running = true ∧
    server.watch = .set ∧ server.progress .main = .idle ∧ server.progress .watcher = .idle))

/-- A step by which a server catches up with the children as they are. -/
def Step.IsCallback : Step → Prop
  | .getChildren _ _ | .childEvent _ _ | .choose _ _ _ _ | .look _ _ | .store _ _ => True
  | .register _ _ _ _ _ | .stop _ | .expire _ => False

/-- How many steps of its callback a thread has left. -/
def Progress.pending : Progress → Nat
  | idle => 0
  | got _ => 3
  | chosen _ => 2
  | looked _ _ => 1

/-- How many steps a server is away from having handled its watch. -/
def Server.pending (server : Server) : Nat :=
  -- A watch that is not set asks for the children, and for the three steps of a callback.
  (if server.watch = .set then 0 else 4) + (server.progress .main).pending +
    (server.progress .watcher).pending

/-- How many steps all servers are away from it. -/
def State.pending (state : State) : Nat :=
  (state.servers.map Server.pending).sum

end ChainTable.Watching
