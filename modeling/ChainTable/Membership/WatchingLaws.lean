import ChainTable.Membership.Watching

/-! What the nodes tell of the servers, and what a server has got as long as its watch is set. -/

namespace ChainTable.Watching

section Names

/-- The name of the server whose node has a number. -/
def numberedName (number : Nat) : Key :=
  sequenced number nodeName

/-- The name that `zk_register_server` is left with is the one below the root. -/
theorem zkNodeName_sequenced (number : Nat) :
    zkNodeName (sequenced number (childPath rootNode nodeName)) = numberedName number := rfl

/-- Servers with larger numbers have larger names. -/
theorem numberedName_lt {m n : Nat} (bound : n < 2 ^ 31) (less : m < n) :
    numberedName m < numberedName n := by
  -- Ten digits are enough for all numbers, and the letters in front are the same.
  have digits := @Decimal.padded_lt 10 m n (by decide) (by omega) less
  rw [Key.lt_iff]
  simpa [numberedName, sequenced, nodeName, List.cons_lt_cons_iff] using digits

/-- The path of a server fits the array it is put together in. -/
theorem pathFits_numberedName {n : Nat} (bound : n < 2 ^ 31) :
    PathFits rootNode (numberedName n) := by
  -- The number has ten digits, and the whole path twenty-one bytes.
  have digits := @Decimal.length_padded 10 n (by decide) (by omega)
  simp only [PathFits, childPath, numberedName, sequenced, nodeName, rootNode, List.length_append,
    List.length_cons, List.length_nil, digits]
  omega

/-- Different children have different paths. -/
theorem childPath_injective (rootPath : Key) : Function.Injective (childPath rootPath) := by
  -- The root and the slash in front are the same, and the rest is the name.
  intro left right same
  have bytes := congrArg Key.bytes same
  simp only [childPath, List.append_cancel_left_eq, List.cons.injEq, true_and] at bytes
  cases left
  cases right
  cases bytes
  rfl

end Names

/-- What is registered for a node leads `rtable_connect` to its server. -/
def Node.Told (node : Node) : Prop :=
  ∃ text : Key, node.nodeMetadata = text.bytes ++ [0] ∧ text.bytes.length < zDataLen ∧
    ∀ network, rtableConnect network text [] =
      .ok (if network.socket = true ∧ network.connect node.listener = true then some node.listener
        else none, [])

/-- The nodes have the names of ascending numbers, and tell where their servers listen. -/
structure Registered (nodes : List Node) (counter : Nat) : Prop where
  numbered : ∃ numbers : List Nat, childrenOf nodes = numbers.map numberedName ∧
    numbers.Pairwise (· < ·) ∧ ∀ number ∈ numbers, number < counter ∧ number < 2 ^ 31
  told : ∀ node ∈ nodes, node.Told

section Nodes

variable {nodes : List Node} {counter : Nat}

/-- The names ascend in the order in which the servers were registered. -/
theorem Registered.ascends (registered : Registered nodes counter) :
    (childrenOf nodes).Pairwise (· < ·) := by
  -- The numbers ascend, and names sort as their numbers do.
  obtain ⟨numbers, names, ascending, bounds⟩ := registered.numbered
  rw [names, List.pairwise_map]
  exact ascending.imp_of_mem fun _ member less => numberedName_lt (bounds _ member).2 less

/-- Each node's path fits. -/
theorem Registered.fits (registered : Registered nodes counter) {node : Node}
    (member : node ∈ nodes) : PathFits rootNode node.zkNodeId := by
  -- The name of the node is a number below the counter.
  obtain ⟨numbers, names, -, bounds⟩ := registered.numbered
  have named : node.zkNodeId ∈ numbers.map numberedName := names ▸ List.mem_map_of_mem member
  obtain ⟨number, inside, same⟩ := List.mem_map.mp named
  rw [← same]
  exact pathFits_numberedName (bounds number inside).2

/-- A node is found by its path. -/
theorem Registered.find (registered : Registered nodes counter) {node : Node}
    (member : node ∈ nodes) :
    nodes.find? (fun other => childPath rootNode other.zkNodeId =
      childPath rootNode node.zkNodeId) = some node := by
  -- Different names have different paths, so that only the node itself is found.
  simp only [(childPath_injective rootNode).eq_iff]
  exact find?_same registered.ascends member

/-- The upward loop breaks at the first node with a larger name. -/
theorem nextChild_childrenOf (own : Key) :
    nextChild own (childrenOf nodes) =
      (nodes.find? fun node => own < node.zkNodeId).map Node.zkNodeId := by
  -- The loop and the search go along the nodes together.
  unfold childrenOf
  induction nodes with
  | nil => rfl
  | cons first rest ih =>
    rw [List.map_cons, nextChild]
    by_cases above : own < first.zkNodeId
    · rw [if_pos ((strcmp_pos_iff _ _).mpr above), List.find?_cons_of_pos (by simpa using above)]
      rfl
    · rw [if_neg (fun positive => above ((strcmp_pos_iff _ _).mp positive)), ih,
        List.find?_cons_of_neg (by simpa using above)]

/-- Children that are those of the nodes are sorted in the order of the nodes. -/
theorem Registered.sortedChildren (registered : Registered nodes counter) {children : List Key}
    (same : children.Perm (childrenOf nodes)) :
    ChainTable.sortedChildren children = childrenOf nodes := by
  -- Two sorted lists of the same names are the same list.
  have ascends := registered.ascends
  have sorted := (sortedChildren_perm children).trans same
  have distinct : children.Nodup :=
    same.nodup_iff.mpr (ascends.imp fun less => less.ne)
  exact sorted.eq_of_pairwise (fun _ _ _ _ less greater => absurd greater less.asymm)
    (sortedChildren_ascend distinct) ascends

/-- The data of a node is found, and is the address that `rtable_connect` is given. -/
theorem Registered.connectTo (registered : Registered nodes counter) {node : Node}
    (member : node ∈ nodes) (network : Network)
    (fresh : { block : List UInt8 // block.length = zDataLen }) :
    ∃ metadata, childMetadata (registry nodes network fresh) rootNode node.zkNodeId [] =
        .ok (some metadata, []) ∧
      ChainTable.connectTo (registry nodes network fresh) metadata [] =
        if network.socket = true ∧ network.connect node.listener = true then
          .ok (node.listener, [])
        else .error .nullDereference := by
  -- The path fits and its node is there, so that its data is copied whole.
  obtain ⟨text, stored, short, connects⟩ := registered.told node member
  have held : storedAt nodes (childPath rootNode node.zkNodeId) = some (text.bytes ++ [0]) := by
    rw [storedAt, registered.find member, Option.map_some, stored]
  have room : (text.bytes.length : Int) < (zDataLen : Int) := by exact_mod_cast short
  have copied := copyingGet_fits held fresh.val room
  unfold childMetadata
  rw [run_bind mallocUnchecked_nil, nodePath_eq, if_pos (registered.fits member), pure_bind]
  simp only [registry, copied, Option.map_some]
  refine ⟨_, rfl, ?_⟩
  unfold ChainTable.connectTo
  rw [cString_terminated, pure_bind]
  dsimp only
  rw [connects network]
  -- A connection that fails is NULL, and its fields are printed all the same.
  by_cases reached : network.socket = true ∧ network.connect node.listener = true
  · simp only [if_pos reached]
    rfl
  · simp only [if_neg reached]
    rfl

/-- A thread chooses the first node with a larger name, once it has got all children. -/
theorem Registered.chooseNextServer (registered : Registered nodes counter) {children : List Key}
    (same : children.Perm (childrenOf nodes)) (own : Key) (network : Network)
    (fresh : { block : List UInt8 // block.length = zDataLen }) :
    Watching.chooseNextServer (registry nodes network fresh) rootNode own children [] =
      match nodes.find? fun node => own < node.zkNodeId with
      | none => .ok (none, [])
      | some node =>
        if network.socket = true ∧ network.connect node.listener = true then
          .ok (some node.listener, [])
        else .error .nullDereference := by
  -- The sorted children are those of the nodes, of which the loop takes the first larger one.
  unfold Watching.chooseNextServer
  rw [bubbleSort_sorts, pure_bind, registered.sortedChildren same, nextChild_childrenOf]
  cases found : nodes.find? fun node => own < node.zkNodeId with
  | none => rfl
  | some node =>
    obtain ⟨metadata, got, connected⟩ :=
      registered.connectTo (List.mem_of_find?_eq_some found) network fresh
    simp only [Option.map_some]
    rw [run_bind got, Option.getD_some]
    -- Only whether the connection is made is left open.
    by_cases reached : network.socket = true ∧ network.connect node.listener = true
    · rw [if_pos reached] at connected ⊢
      rw [run_bind connected]
      rfl
    · rw [if_neg reached] at connected ⊢
      rw [run_bind_error connected]

end Nodes

/-- A new server creates a node with its number, which tells where it listens. -/
theorem createNode_told {number : Nat} {interfaces : List IfaAddr} {serverAddress : List UInt8}
    {serverPort : Key} {ephemeral : UInt16} {node : Node} (room : serverAddress.length = 100)
    (isPort : ¬ (2 ^ 16 : Int) ∣ atoi serverPort)
    (created : createNode number interfaces serverAddress serverPort ephemeral = some node) :
    node.zkNodeId = numberedName number ∧ node.Told := by
  unfold createNode at created
  by_cases accepted : AcceptedPort serverPort
  · rw [if_pos accepted] at created
    cases found : localAddr interfaces with
    | none =>
      rw [found] at created
      cases created
    | some addr =>
      have fits : PathFits rootNode nodeName := by decide
      have registers := zkRegisterServer_spec fits (fun path _ => some (sequenced number path))
        found (by omega : 16 ≤ serverAddress.length) serverPort
      rw [found, registers] at created
      by_cases short : (addressText (inetNtop addr) serverPort).bytes.length < 120
      · rw [if_pos short] at created
        cases created
        refine ⟨zkNodeName_sequenced number, addressText (inetNtop addr) serverPort, rfl, ?_,
          fun network => ?_⟩
        · exact short.trans (by decide)
        · -- A port that can be listened on is the one that the socket is bound to.
          have bound :
              networkServerInit ephemeral (atoi serverPort) = sinPort (atoi serverPort) := by
            rw [networkServerInit, sinPort_int16, if_neg (mt (sinPort_eq_zero_iff _).mp isPort)]
          rw [rtableConnect_addressText network addr accepted, networkConnect_inetNtop, bound]
      · rw [if_neg short] at created
        cases created
  · rw [if_neg accepted] at created
    cases created

section Membership

variable {nodes : List Node} {counter : Nat}

/-- A node with a new number comes last. -/
theorem Registered.append (registered : Registered nodes counter) {node : Node} {number : Nat}
    (named : node.zkNodeId = numberedName number) (told : node.Told) (new : counter ≤ number)
    (bound : number < 2 ^ 31) : Registered (nodes ++ [node]) (number + 1) := by
  obtain ⟨numbers, names, ascending, bounds⟩ := registered.numbered
  refine ⟨⟨numbers ++ [number], ?_, ?_, ?_⟩, ?_⟩
  · unfold childrenOf at names ⊢
    rw [List.map_append, names, List.map_append, List.map_singleton, List.map_singleton, named]
  · -- The numbers so far are below the counter.
    rw [List.pairwise_append]
    refine ⟨ascending, List.pairwise_singleton _ _, fun earlier member last isLast => ?_⟩
    rw [List.mem_singleton.mp isLast]
    exact (bounds earlier member).1.trans_le new
  · intro other member
    rcases List.mem_append.mp member with earlier | isLast
    · exact ⟨by have := (bounds other earlier).1; omega, (bounds other earlier).2⟩
    · rw [List.mem_singleton.mp isLast]
      exact ⟨Nat.lt_succ_self number, bound⟩
  · intro other member
    rcases List.mem_append.mp member with earlier | isLast
    · exact registered.told other earlier
    · rw [List.mem_singleton.mp isLast]
      exact told

/-- The other nodes stay when one is gone. -/
theorem Registered.eraseIdx (registered : Registered nodes counter) (position : Nat) :
    Registered (nodes.eraseIdx position) counter := by
  -- The number is taken out at the same position as the node.
  obtain ⟨numbers, names, ascending, bounds⟩ := registered.numbered
  refine ⟨⟨numbers.eraseIdx position, ?_, ascending.sublist (List.eraseIdx_sublist _ _),
    fun number member => bounds number (List.mem_of_mem_eraseIdx member)⟩,
    fun node member => registered.told node (List.mem_of_mem_eraseIdx member)⟩
  unfold childrenOf at names ⊢
  rw [← List.eraseIdx_map, names, List.eraseIdx_map]

end Membership

/-- The listener of the first node with a larger name. -/
def successor (nodes : List Node) (own : Key) : Option SockaddrIn :=
  (nodes.find? fun node => own < node.zkNodeId).map Node.listener

/-- The callback that a server is going to go by, or the last one that has returned. -/
def Server.latest (server : Server) : Progress :=
  if server.progress .watcher = .idle then server.progress .main else server.progress .watcher

/-- A callback has the children as they are, or has chosen the one that comes next. -/
def Progress.UpToDate (nodes : List Node) (own : Key) (nextServer : Option SockaddrIn) :
    Progress → Prop
  | idle => nextServer = successor nodes own
  | got children => children.Perm (childrenOf nodes)
  | chosen tempNextServer | looked tempNextServer _ => tempNextServer = successor nodes own

/-- Until it has returned, what a callback goes by is not what other callbacks have stored. -/
theorem Progress.upToDate_congr {nodes : List Node} {own : Key} {stored : Option SockaddrIn}
    (nextServer : Option SockaddrIn) {progress : Progress} (busy : progress ≠ .idle) :
    progress.UpToDate nodes own nextServer ↔ progress.UpToDate nodes own stored := by
  -- Only a thread without a callback looks at what is stored.
  cases progress with
  | idle => exact absurd rfl busy
  | got | chosen | looked => rfl

/-- No thread has a callback before there is a watch. -/
def Server.Begun (server : Server) : Prop :=
  server.watch = .unset → ∀ thread, server.progress thread = .idle

/--
As long as its watch is set, a server goes by the children as they are.

The other properties say why the last callback to look at `next_server` has the last word, and why
none of them uses a connection that the other one has disconnected.
-/
structure Server.Current (nodes : List Node) (server : Server) : Prop where
  /-- From its look at `next_server` on, the watcher is alone. -/
  alone : ∀ temp connected, server.progress .watcher = .looked temp connected →
    server.progress .main = .idle
  /-- What a thread has seen of `next_server` is still there. -/
  seen : ∀ thread temp connected, server.progress thread = .looked temp connected →
    connected = server.nextServer.isSome
  /-- A connection that was disconnected is about to be replaced. -/
  replaced : server.dangling = true →
    ∃ thread temp, server.progress thread = .looked temp true
  upToDate : server.watch = .set →
    server.latest.UpToDate nodes server.node.zkNodeId server.nextServer

/-- The nodes are registered in order, and every server is current. -/
structure Consistent (state : State) : Prop where
  registered : Registered state.nodes state.counter
  current : ∀ server ∈ state.servers, server.Current state.nodes

section Servers

variable {state : State} {nodes others : List Node} {position : Nat} {server : Server}
  {thread : Thread}

/-- A thread that goes on is where it has gone. -/
@[simp] theorem progress_goOn (server : Server) (thread : Thread) (progress : Progress) :
    (server.goOn thread progress).progress thread = progress :=
  Function.update_self ..

/-- The other thread stays where it is. -/
theorem progress_goOn_other {other : Thread} (differs : other ≠ thread) (server : Server)
    (progress : Progress) : (server.goOn thread progress).progress other = server.progress other :=
  Function.update_of_ne differs ..

/-- A watch that is not set after a change of the children was not set before it. -/
theorem Server.unset_of_notify (isUnset : server.notify.watch = .unset) :
    server.watch = .unset := by
  -- A notification never leaves a watch unset.
  unfold Server.notify at isUnset
  split at isUnset
  · cases isUnset
  · exact isUnset

/-- A change of the children leaves no watch set. -/
theorem Server.notify_watch_ne_set (server : Server) : server.notify.watch ≠ .set := by
  -- A watch that is set fires, and any other was not set anyway.
  unfold Server.notify
  split
  · exact nofun
  · assumption

/-- A change of the children begins nothing. -/
theorem Server.Begun.notify (begun : server.Begun) : server.notify.Begun :=
  fun isUnset => begun (Server.unset_of_notify isUnset)

/-- A server whose watch has fired may have any children. -/
theorem Server.Current.notify (current : server.Current nodes) : server.notify.Current others where
  alone := current.alone
  seen := current.seen
  replaced := current.replaced
  upToDate isSet := absurd isSet server.notify_watch_ne_set

/-- A server that was just registered has nothing to go by. -/
theorem Server.current_started (node : Node) : (Server.started node).Current nodes where
  alone _ _ looked := by cases looked
  seen _ _ _ looked := by cases looked
  replaced dangling := by cases dangling
  upToDate isSet := by cases isSet

/-- What a server has got from its watch is what there is. -/
theorem Server.Current.childEvent (current : server.Current nodes)
    (idle : server.progress .watcher = .idle) {children : List Key}
    (same : children.Perm (childrenOf nodes)) : (server.wget .watcher children).Current nodes where
  alone _ _ looked := by
    -- The watcher has only got its children.
    rw [Server.wget, progress_goOn] at looked
    cases looked
  seen other _ _ looked := by
    cases other with
    | main => exact current.seen .main _ _ looked
    | watcher =>
      rw [Server.wget, progress_goOn] at looked
      cases looked
  replaced dangling := by
    obtain ⟨other, temp, looked⟩ := current.replaced dangling
    cases other with
    | main => exact ⟨.main, temp, looked⟩
    | watcher =>
      rw [idle] at looked
      cases looked
  upToDate _ := same

/-- What a server has got at its start is what there is. -/
theorem Server.Current.getChildren (current : server.Current nodes) (begun : server.Begun)
    (isUnset : server.watch = .unset) {children : List Key}
    (same : children.Perm (childrenOf nodes)) : (server.wget .main children).Current nodes := by
  -- The watcher has not been called yet.
  have idle : (server.wget .main children).progress .watcher = .idle := begun isUnset .watcher
  refine ⟨fun temp connected looked => ?_, fun other temp connected looked => ?_,
    fun dangling => ?_, fun _ => ?_⟩
  · rw [idle] at looked
    cases looked
  · cases other with
    | main =>
      rw [Server.wget, progress_goOn] at looked
      cases looked
    | watcher =>
      rw [idle] at looked
      cases looked
  · obtain ⟨other, temp, looked⟩ := current.replaced dangling
    rw [begun isUnset other] at looked
    cases looked
  · rw [Server.latest, if_pos idle]
    exact same

/-- A callback of `main` has the last word unless the watcher has one. -/
theorem latest_goOn_main (server : Server) (progress : Progress) :
    (server.goOn .main progress).latest =
      if server.progress .watcher = .idle then progress else server.progress .watcher := rfl

/-- A callback of the watcher has the last word. -/
theorem latest_goOn_watcher (server : Server) {progress : Progress} (busy : progress ≠ .idle) :
    (server.goOn .watcher progress).latest = progress := by
  -- The watcher is looked at first, and it is not idle.
  rw [Server.latest, progress_goOn, if_neg busy]

/--
A thread that goes on from children to a choice, and from the choice to a look, stays up to date.

Only the watcher has to be alone for that, and only for its look.
-/
theorem Server.Current.goOn (current : server.Current nodes) {progress : Progress}
    (busy : server.progress thread ≠ .idle) (further : progress ≠ .idle)
    (unlooked : ∀ temp connected, server.progress thread ≠ .looked temp connected)
    (inOrder : ∀ temp connected, progress = .looked temp connected →
      connected = server.nextServer.isSome ∧
        (thread = .watcher → server.progress .main = .idle))
    (upToDate : (server.progress thread).UpToDate nodes server.node.zkNodeId server.nextServer →
      progress.UpToDate nodes server.node.zkNodeId server.nextServer) :
    (server.goOn thread progress).Current nodes where
  alone temp connected looked := by
    cases thread with
    | main => exact absurd (current.alone temp connected looked) busy
    | watcher =>
      rw [progress_goOn] at looked
      exact (inOrder temp connected looked).2 rfl
  seen other temp connected looked := by
    by_cases same : other = thread
    · subst same
      rw [progress_goOn] at looked
      exact (inOrder temp connected looked).1
    · rw [progress_goOn_other same] at looked
      exact current.seen other temp connected looked
  replaced dangling := by
    obtain ⟨other, temp, looked⟩ := current.replaced dangling
    have differs : other ≠ thread := fun same => unlooked temp true (same ▸ looked)
    exact ⟨other, temp, (progress_goOn_other differs server progress).trans looked⟩
  upToDate isSet := by
    have before := current.upToDate isSet
    cases thread with
    | main =>
      -- The watcher has the last word before and after, or it has it neither time.
      rw [latest_goOn_main]
      unfold Server.latest at before
      by_cases idle : server.progress .watcher = .idle
      · rw [if_pos idle] at before ⊢
        exact upToDate before
      · rw [if_neg idle] at before ⊢
        exact before
    | watcher =>
      rw [latest_goOn_watcher server further]
      rw [Server.latest, if_neg busy] at before
      exact upToDate before

/-- The two threads are never both between their look and their store. -/
theorem Server.Current.looked_unique (current : server.Current nodes) {other : Thread}
    {temp temp' : Option SockaddrIn} {connected connected' : Bool}
    (here : server.progress other = .looked temp connected)
    (there : server.progress thread = .looked temp' connected') : other = thread := by
  -- If one of them is the watcher, `main` is idle, and has not looked.
  cases other with
  | main =>
    cases thread with
    | main => rfl
    | watcher =>
      rw [current.alone temp' connected' there] at here
      cases here
  | watcher =>
    cases thread with
    | main =>
      rw [current.alone temp connected here] at there
      cases there
    | watcher => rfl

/-- A thread that looks in order finds no connection that was disconnected. -/
theorem Server.Current.valid (current : server.Current nodes) {temp : Option SockaddrIn}
    (hasChosen : server.progress thread = .chosen temp)
    (inOrder : thread = .watcher → server.progress .main = .idle) : server.dangling = false := by
  -- The thread that disconnected it would be the other one, which has not looked.
  by_contra dangling
  obtain ⟨other, temp', looked⟩ := current.replaced (Bool.not_eq_false _ ▸ dangling)
  cases thread with
  | main =>
    cases other with
    | main =>
      rw [hasChosen] at looked
      cases looked
    | watcher =>
      rw [current.alone temp' true looked] at hasChosen
      cases hasChosen
  | watcher =>
    cases other with
    | main =>
      rw [inOrder rfl] at looked
      cases looked
    | watcher =>
      rw [hasChosen] at looked
      cases looked

/-- What a callback has chosen is in `next_server` at its end, stored or as it was. -/
theorem Server.Current.nextServer_store (current : server.Current nodes)
    {temp : Option SockaddrIn} {connected : Bool}
    (looked : server.progress thread = .looked temp connected) :
    (server.store thread temp connected).nextServer = temp := by
  have seen := current.seen thread temp connected looked
  unfold Server.store
  dsimp only
  split
  · rfl
  · -- The tail that saw NULL leaves it there.
    rename_i nothing
    obtain ⟨isTail, sawNull⟩ := not_or.mp nothing
    rw [seen] at sawNull
    rw [Option.not_isSome_iff_eq_none.mp isTail, Option.not_isSome_iff_eq_none.mp sawNull]

/-- What a callback stores at its end is up to date. -/
theorem Server.Current.store (current : server.Current nodes) {temp : Option SockaddrIn}
    {connected : Bool} (looked : server.progress thread = .looked temp connected) :
    (server.store thread temp connected).Current nodes := by
  have busy : server.progress thread ≠ .idle := by
    rw [looked]
    exact nofun
  -- No thread is left that has looked: this one has returned, and the two are not there at once.
  have returned : ∀ other temp' connected',
      (server.store thread temp connected).progress other ≠ .looked temp' connected' := by
    intro other temp' connected' still
    change (server.goOn thread .idle).progress other = _ at still
    by_cases same : other = thread
    · subst same
      rw [progress_goOn] at still
      cases still
    · rw [progress_goOn_other same] at still
      exact same (current.looked_unique still looked)
  refine ⟨fun _ _ still => absurd still (returned _ _ _),
    fun _ _ _ still => absurd still (returned _ _ _), fun dangling => ?_, fun isSet => ?_⟩
  · -- What was disconnected was so by this thread, which has replaced it now.
    simp only [Server.store, Bool.and_eq_true, Bool.not_eq_true'] at dangling
    obtain ⟨⟨-, sawNull⟩, dangling⟩ := dangling
    obtain ⟨other, temp', still⟩ := current.replaced dangling
    obtain rfl := current.looked_unique still looked
    rw [looked] at still
    cases still
    cases sawNull
  have before := current.upToDate isSet
  rw [current.nextServer_store looked]
  change (server.goOn thread .idle).latest.UpToDate nodes server.node.zkNodeId temp
  cases thread with
  | main =>
    -- The choice of `main` is the last word only as long as the watcher has not been called.
    rw [latest_goOn_main]
    unfold Server.latest at before
    by_cases idle : server.progress .watcher = .idle
    · rw [if_pos idle, looked] at before
      rw [if_pos idle]
      exact before
    · rw [if_neg idle] at before ⊢
      exact (Progress.upToDate_congr temp idle).mpr before
  | watcher =>
    have idle := current.alone temp connected looked
    rw [Server.latest, if_neg busy, looked] at before
    rw [Server.latest, progress_goOn, if_pos rfl, progress_goOn_other (by decide), idle]
    exact before

/-- Replacing a server by one with the same node keeps the nodes. -/
theorem nodes_set (found : state.servers[position]? = some server) {after : Server}
    (same : after.node = server.node) : (state.set position after).nodes = state.nodes := by
  -- The node in the same place is the same.
  obtain ⟨inside, rfl⟩ := List.getElem?_eq_some_iff.mp found
  simp only [State.nodes, State.set, List.map_set, same]
  rw [← List.getElem_map Server.node (h := by simpa using inside), List.set_getElem_self]

/-- The server at a position is one of those that are current. -/
theorem Consistent.currentAt (consistent : Consistent state)
    (found : state.servers[position]? = some server) : server.Current state.nodes :=
  consistent.current server (List.mem_of_getElem? found)

/-- Replacing a server by a current one with the same node keeps all consistent. -/
theorem Consistent.set (consistent : Consistent state)
    (found : state.servers[position]? = some server) {after : Server}
    (same : after.node = server.node) (current : after.Current state.nodes) :
    Consistent (state.set position after) := by
  -- The new server is current by assumption, and the others as they were.
  have nodes := nodes_set found same
  refine ⟨by rw [nodes]; exact consistent.registered, fun other member => ?_⟩
  rw [nodes]
  rcases List.mem_or_eq_of_mem_set member with unchanged | rfl
  · exact consistent.current other unchanged
  · exact current

end Servers

end ChainTable.Watching
