import ChainTable.Membership.WatchingLaws
import Mathlib.Algebra.Order.BigOperators.Group.List

/-! Once every server has handled its watch, the servers form a chain in the order they came. -/

namespace ChainTable.Watching

/-- What can be said of a step that was taken, one case for each kind of step. -/
inductive Stepped (state : State) : Step → State → Prop where
  | register {number : Nat} {interfaces : List IfaAddr} {serverAddress : List UInt8}
    {serverPort : Key} {ephemeral : UInt16} {node : Node} (new : state.counter ≤ number)
    (bound : number < 2 ^ 31) (room : serverAddress.length = 100)
    (created : createNode number interfaces serverAddress serverPort ephemeral = some node) :
    Stepped state (.register number interfaces serverAddress serverPort ephemeral)
      { servers := state.servers.map Server.notify ++ [Server.started node]
        counter := number + 1 }
  | getChildren {position : Nat} {children : List Key} {server : Server}
    (found : state.servers[position]? = some server) (running : server.running = true)
    (isUnset : server.watch = .unset) (same : children.Perm (childrenOf state.nodes)) :
    Stepped state (.getChildren position children) (state.set position (server.wget .main children))
  | childEvent {position : Nat} {children : List Key} {server : Server}
    (found : state.servers[position]? = some server) (running : server.running = true)
    (isFired : server.watch = .fired) (idle : server.progress .watcher = .idle)
    (same : children.Perm (childrenOf state.nodes)) :
    Stepped state (.childEvent position children)
      (state.set position (server.wget .watcher children))
  | choose {position : Nat} {thread : Thread} {network : Network}
    {fresh : { block : List UInt8 // block.length = zDataLen }} {server : Server}
    {children : List Key} {temp : Option SockaddrIn} {mem : Mem}
    (found : state.servers[position]? = some server) (running : server.running = true)
    (hasGot : server.progress thread = .got children)
    (ran : chooseNextServer (registry state.nodes network fresh) rootNode server.node.zkNodeId
      children [] = .ok (temp, mem)) :
    Stepped state (.choose position thread network fresh)
      (state.set position (server.goOn thread (.chosen temp)))
  | look {position : Nat} {thread : Thread} {server : Server} {temp : Option SockaddrIn}
    (found : state.servers[position]? = some server) (running : server.running = true)
    (hasChosen : server.progress thread = .chosen temp) (valid : server.dangling = false) :
    Stepped state (.look position thread) (state.set position (server.look thread temp))
  | store {position : Nat} {thread : Thread} {server : Server} {temp : Option SockaddrIn}
    {connected : Bool} (found : state.servers[position]? = some server)
    (running : server.running = true)
    (hasLooked : server.progress thread = .looked temp connected) :
    Stepped state (.store position thread) (state.set position (server.store thread temp connected))
  | stop {position : Nat} {server : Server} (found : state.servers[position]? = some server) :
    Stepped state (.stop position) (state.set position { server with running := false })
  | expire {position : Nat} {server : Server} (found : state.servers[position]? = some server)
    (stopped : server.running = false) :
    Stepped state (.expire position)
      { state with servers := (state.servers.eraseIdx position).map Server.notify }

/-- A step that was possible is one of these. -/
theorem stepped_of_step {state next : State} {label : Step}
    (stepped : step state label = some next) : Stepped state label next := by
  -- Each kind of step has its guards, and is not possible without them.
  cases label with
  -- A server comes if its number is new and its node can be created.
  | register number interfaces serverAddress serverPort ephemeral =>
    simp only [step] at stepped
    split at stepped
    · rename_i possible
      obtain ⟨new, bound, room⟩ := possible
      obtain ⟨node, created, rfl⟩ := Option.map_eq_some_iff.mp stepped
      exact .register new bound room created
    · cases stepped
  -- The callbacks need their server, its process, and the place they go on from.
  | getChildren position children =>
    simp only [step] at stepped
    split at stepped
    · cases stepped
    · rename_i server found
      split at stepped
      · rename_i possible
        obtain ⟨running, isUnset, same⟩ := possible
        cases stepped
        exact .getChildren found running isUnset same
      · cases stepped
  | childEvent position children =>
    simp only [step] at stepped
    split at stepped
    · cases stepped
    · rename_i server found
      split at stepped
      · rename_i possible
        obtain ⟨running, isFired, idle, same⟩ := possible
        cases stepped
        exact .childEvent found running isFired idle same
      · cases stepped
  | choose position thread network fresh =>
    simp only [step] at stepped
    split at stepped
    · cases stepped
    · rename_i server found
      split at stepped
      · rename_i running hasGot
        split at stepped
        · rename_i ran
          cases stepped
          exact .choose found running hasGot ran
        · cases stepped
      · cases stepped
  | look position thread =>
    simp only [step] at stepped
    split at stepped
    · cases stepped
    · rename_i server found
      split at stepped
      · rename_i running hasChosen
        split at stepped
        · cases stepped
        · rename_i valid
          cases stepped
          exact .look found running hasChosen (by simpa using valid)
      · cases stepped
  | store position thread =>
    simp only [step] at stepped
    split at stepped
    · cases stepped
    · rename_i server found
      split at stepped
      · rename_i running hasLooked
        cases stepped
        exact .store found running hasLooked
      · cases stepped
  -- A process can end at any time, and its session after it.
  | stop position =>
    simp only [step] at stepped
    split at stepped
    · cases stepped
    · rename_i server found
      cases stepped
      exact .stop found
  | expire position =>
    simp only [step] at stepped
    split at stepped
    · cases stepped
    · rename_i server found
      split at stepped
      · cases stepped
      · rename_i stopped
        cases stepped
        exact .expire found (by simpa using stopped)

/-- The whole of `select_next_server` is its choice, and then the switch to it. -/
theorem selectNextServer_eq {ρ : Type} (registry : Registry ρ) (rootPath own : Key)
    (children : List Key) (previous : Option ρ) :
    selectNextServer registry rootPath own children previous = do
      let temp ← chooseNextServer registry rootPath own children
      return (temp, previous.toList) := by
  -- The children are sorted first, and the loop then finds a child or does not.
  unfold selectNextServer chooseNextServer
  simp only [bind_assoc]
  refine congrArg _ (funext fun sorted => ?_)
  cases nextChild own sorted with
  | none => rfl
  | some child => simp only [bind_assoc, pure_bind]

/-- Replacing a server that is there puts the other one in its place. -/
theorem getElem?_set {state : State} {position : Nat} {server : Server}
    (found : state.servers[position]? = some server) (after : Server) :
    (state.set position after).servers[position]? = some after := by
  -- The position is inside.
  obtain ⟨inside, -⟩ := List.getElem?_eq_some_iff.mp found
  exact List.getElem?_set_self inside

section Parts

variable {state : State} {position : Nat} {thread : Thread} {server : Server}

/-- A thread that has got the children chooses from them. -/
theorem step_choose {network : Network} {fresh : { block : List UInt8 // block.length = zDataLen }}
    {children : List Key} {temp : Option SockaddrIn} {mem : Mem}
    (found : state.servers[position]? = some server) (running : server.running = true)
    (hasGot : server.progress thread = .got children)
    (ran : chooseNextServer (registry state.nodes network fresh) rootNode server.node.zkNodeId
      children [] = .ok (temp, mem)) :
    step state (.choose position thread network fresh) =
      some (state.set position (server.goOn thread (.chosen temp))) := by
  -- All guards of the step are there.
  simp only [step, found, running, hasGot, ran]

/-- A thread that has chosen looks at `next_server`. -/
theorem step_look {temp : Option SockaddrIn} (found : state.servers[position]? = some server)
    (running : server.running = true) (hasChosen : server.progress thread = .chosen temp)
    (valid : server.dangling = false) :
    step state (.look position thread) = some (state.set position (server.look thread temp)) := by
  -- All guards of the step are there.
  simp only [step, found, running, hasChosen, valid, Bool.false_eq_true, if_false]

/-- A thread that has looked stores its choice. -/
theorem step_store {temp : Option SockaddrIn} {connected : Bool}
    (found : state.servers[position]? = some server) (running : server.running = true)
    (hasLooked : server.progress thread = .looked temp connected) :
    step state (.store position thread) =
      some (state.set position (server.store thread temp connected)) := by
  -- All guards of the step are there.
  simp only [step, found, running, hasLooked]

/-- Parts that no other step comes between do together what `select_next_server` does. -/
theorem run_undisturbed {network : Network}
    {fresh : { block : List UInt8 // block.length = zDataLen }} {children : List Key}
    {nextServer : Option SockaddrIn} {closed : List SockaddrIn} {mem : Mem}
    (found : state.servers[position]? = some server) (running : server.running = true)
    (hasGot : server.progress thread = .got children) (valid : server.dangling = false)
    (ran : selectNextServer (registry state.nodes network fresh) rootNode server.node.zkNodeId
      children server.nextServer [] = .ok ((nextServer, closed), mem)) :
    ∃ final after, Machine.run step state [.choose position thread network fresh,
        .look position thread, .store position thread] = some final ∧
      final.servers[position]? = some after ∧ after.progress thread = .idle ∧
      after.nextServer = nextServer ∧ after.dangling = false := by
  rw [selectNextServer_eq] at ran
  obtain ⟨temp, _, chosen, switched⟩ := bind_ran ran
  cases switched
  -- Each part takes the thread on from where the part before it has left it.
  let chose := server.goOn thread (.chosen nextServer)
  let looked := chose.look thread nextServer
  have hasChosen : chose.progress thread = .chosen nextServer := progress_goOn _ _ _
  have hasLooked : looked.progress thread = .looked nextServer server.nextServer.isSome :=
    progress_goOn _ _ _
  have looks := getElem?_set found chose
  have stores := getElem?_set looks looked
  refine ⟨_, looked.store thread nextServer server.nextServer.isSome, ?_, getElem?_set stores _,
    progress_goOn _ _ _, ?_, ?_⟩
  · rw [Machine.run, step_choose found running hasGot chosen]
    dsimp only
    rw [Machine.run, step_look looks running hasChosen valid]
    dsimp only
    rw [Machine.run, step_store stores running hasLooked]
    rfl
  · -- Without a choice, NULL is stored or has been there before.
    change (if nextServer.isSome ∨ server.nextServer.isSome then nextServer
      else server.nextServer) = nextServer
    cases nextServer <;> cases server.nextServer <;> rfl
  · change (!nextServer.isSome && !server.nextServer.isSome && server.nextServer.isSome) = false
    cases nextServer <;> cases server.nextServer <;> rfl

end Parts

/-- A change of the membership notifies all servers that are left. -/
theorem nodes_notified (servers : List Server) :
    (servers.map Server.notify).map Server.node = servers.map Server.node := by
  -- A notification keeps the node.
  rw [List.map_map]
  rfl

/-- Every server of a state that has a callback has a watch. -/
def State.Begun (state : State) : Prop :=
  ∀ server ∈ state.servers, server.Begun

/-- Replacing a server by one that has begun keeps all of them so. -/
theorem State.Begun.set {state : State} (begun : state.Begun) (position : Nat) {after : Server}
    (own : after.Begun) : (state.set position after).Begun := by
  -- The new server has begun by assumption, and the others as before.
  intro other member
  rcases List.mem_or_eq_of_mem_set member with unchanged | rfl
  · exact begun other unchanged
  · exact own

/-- Every step keeps callbacks to the servers that have a watch. -/
theorem State.Begun.step {state next : State} {label : Step} (begun : state.Begun)
    (stepped : Watching.step state label = some next) : next.Begun := by
  -- A thread that has a callback under way has a watch, which is not unset any more.
  have busy : ∀ {position : Nat} {server : Server} {thread : Thread} {progress : Progress},
      state.servers[position]? = some server → server.progress thread = progress →
      progress ≠ .idle → server.watch ≠ .unset := by
    intro position server thread progress found has notIdle isUnset
    exact notIdle (has.symm.trans (begun server (List.mem_of_getElem? found) isUnset thread))
  cases stepped_of_step stepped with
  | register =>
    intro server member
    rcases List.mem_append.mp member with earlier | isNew
    · obtain ⟨before, there, rfl⟩ := List.mem_map.mp earlier
      exact (begun before there).notify
    · rw [List.mem_singleton.mp isNew]
      exact fun _ _ => rfl
  | getChildren => exact begun.set _ nofun
  | childEvent => exact begun.set _ nofun
  | choose found running hasGot ran =>
    have started := busy found hasGot nofun
    exact begun.set _ fun isUnset => absurd isUnset started
  | look found running hasChosen valid =>
    have started := busy found hasChosen nofun
    exact begun.set _ fun isUnset => absurd isUnset started
  | store found running hasLooked =>
    have started := busy found hasLooked nofun
    exact begun.set _ fun isUnset => absurd isUnset started
  | @stop position server found =>
    exact begun.set _ fun isUnset => begun server (List.mem_of_getElem? found) isUnset
  | @expire position server found stopped =>
    intro server member
    obtain ⟨before, there, rfl⟩ := List.mem_map.mp member
    exact (begun before (List.mem_of_mem_eraseIdx there)).notify

/-- After every run, only servers that have a watch have callbacks. -/
theorem begun_run {labels : List Step} {final : State}
    (ran : Machine.run step start labels = some final) : final.Begun := by
  -- Nothing is asked of the steps for that.
  have free := @Machine.guarded_of_forall _ _ step (fun _ _ => True) (fun _ _ => trivial) labels
  exact Machine.run_invariant (fun _ _ _ begun _ stepped => begun.step stepped)
    (fun _ member => by cases member) (free start) ran

/-- Steps in order keep the servers consistent. -/
theorem Consistent.step {state next : State} {label : Step} (consistent : Consistent state)
    (begun : state.Begun) (inOrder : InOrder state label)
    (stepped : Watching.step state label = some next) : Consistent next := by
  cases stepped_of_step stepped with
  | @register number _ _ _ _ node new bound room created =>
    obtain ⟨named, told⟩ := createNode_told room inOrder created
    have nodes : State.nodes { servers := state.servers.map Server.notify ++ [Server.started node]
                               counter := number + 1 } = state.nodes ++ [node] := by
      simp only [State.nodes, List.map_append, nodes_notified, List.map_singleton]
      rfl
    refine ⟨nodes ▸ consistent.registered.append named told new bound, fun server member => ?_⟩
    -- The servers that were there have been notified, and the new one has nothing yet.
    rcases List.mem_append.mp member with earlier | isNew
    · obtain ⟨before, there, rfl⟩ := List.mem_map.mp earlier
      exact (consistent.current before there).notify
    · rw [List.mem_singleton.mp isNew]
      exact Server.current_started node
  | getChildren found running isUnset same =>
    have own := begun _ (List.mem_of_getElem? found)
    exact consistent.set found rfl ((consistent.currentAt found).getChildren own isUnset same)
  | childEvent found running isFired idle same =>
    exact consistent.set found rfl ((consistent.currentAt found).childEvent idle same)
  | @choose position thread network fresh server children temp mem found running hasGot ran =>
    have current := consistent.currentAt found
    refine consistent.set found rfl
      (current.goOn (by simp [hasGot]) (by simp) (by simp [hasGot]) (by simp) fun same => ?_)
    -- With all children in hand, the choice is the first larger name.
    rw [hasGot] at same
    rw [consistent.registered.chooseNextServer same] at ran
    change temp = successor state.nodes server.node.zkNodeId
    unfold successor
    split at ran
    · rename_i none
      cases ran
      rw [none]
      rfl
    · rename_i node some
      split at ran
      · cases ran
        rw [some]
        rfl
      · cases ran
  | @look position thread server temp found running hasChosen valid =>
    have current := consistent.currentAt found
    have looked : (server.goOn thread (.looked temp server.nextServer.isSome)).Current
        state.nodes := by
      refine current.goOn (by simp [hasChosen]) (by simp) (by simp [hasChosen]) ?_
        fun chosen => by rwa [hasChosen] at chosen
      -- The guard keeps the watcher from looking before `main` has returned.
      rintro _ _ ⟨⟩
      refine ⟨rfl, fun isWatcher => ?_⟩
      subst isWatcher
      exact inOrder server found
    -- What is disconnected now is what this thread has seen.
    refine consistent.set found rfl
      ⟨looked.alone, looked.seen, fun connected => ?_, looked.upToDate⟩
    exact ⟨thread, temp, (progress_goOn server thread _).trans (congrArg _ connected)⟩
  | store found running hasLooked =>
    exact consistent.set found rfl ((consistent.currentAt found).store hasLooked)
  | @stop position server found =>
    have current := consistent.currentAt found
    exact consistent.set found rfl
      ⟨current.alone, current.seen, current.replaced, current.upToDate⟩
  | @expire position server found stopped =>
    have nodes : State.nodes { state with
        servers := (state.servers.eraseIdx position).map Server.notify } =
        state.nodes.eraseIdx position := by
      simp only [State.nodes, nodes_notified, List.eraseIdx_map]
    refine ⟨nodes ▸ consistent.registered.eraseIdx position, fun server member => ?_⟩
    obtain ⟨before, there, rfl⟩ := List.mem_map.mp member
    exact (consistent.current before (List.mem_of_mem_eraseIdx there)).notify

/-- All is consistent when no server is registered yet. -/
theorem consistent_start : Consistent start where
  registered := ⟨⟨[], rfl, List.Pairwise.nil, fun number member => by cases member⟩,
    fun node member => by cases member⟩
  current := fun server member => by cases member

/-- Every run in order leaves the servers consistent. -/
theorem consistent_run {labels : List Step} {final : State}
    (inOrder : Machine.Guarded step InOrder start labels)
    (ran : Machine.run step start labels = some final) : Consistent final := by
  -- That callbacks have a watch holds along the run as well.
  have starts : start.Begun ∧ Consistent start :=
    ⟨fun _ member => (by cases member), consistent_start⟩
  have ends := Machine.run_invariant (fun _ _ _ holds guard stepped =>
    And.intro (State.Begun.step holds.1 stepped) (holds.2.step holds.1 guard stepped))
    starts inOrder ran
  exact ends.2

/--
Once every server has handled its watch, each is connected to the one that registered after it.

The servers may have come, gone and been notified in any order, and the parts of the callbacks of
their threads may have come in any order, but for a look of the watcher at `next_server` before
`main` has returned. No thread then uses a connection that the other one has disconnected. A client
that asks for the head and the tail is told the server that came first, and the one that came last.
-/
theorem settled_servers_form_chain {labels : List Step} {final : State}
    (inOrder : Machine.Guarded step InOrder start labels)
    (ran : Machine.run step start labels = some final) :
    (∀ position server thread temp, final.servers[position]? = some server →
      server.progress thread = .chosen temp → InOrder final (.look position thread) →
        server.dangling = false) ∧
    (Settled final →
      (∀ position server, final.servers[position]? = some server →
        server.nextServer = final.servers[position + 1]?.map fun next => next.node.listener) ∧
      ∀ first ∈ final.servers.head?, ∀ last ∈ final.servers.getLast?, ∀ children,
        children.Perm (childrenOf final.nodes) →
          headAndTail children = pure (some (first.node.zkNodeId, last.node.zkNodeId))) := by
  have consistent := consistent_run inOrder ran
  have registered := consistent.registered
  refine ⟨fun position server thread temp found hasChosen looksInOrder => ?_,
    fun settled => ⟨?_, ?_⟩⟩
  · -- The guard keeps the watcher from looking before `main` has returned.
    have current := consistent.currentAt found
    refine current.valid hasChosen fun isWatcher => ?_
    subst isWatcher
    exact looksInOrder server found
  · intro position server found
    have current := consistent.currentAt found
    obtain ⟨-, isSet, idle, idleWatcher⟩ := settled server (List.mem_of_getElem? found)
    have chosen := current.upToDate isSet
    rw [Server.latest, if_pos idleWatcher, idle] at chosen
    have nodeFound : final.nodes[position]? = some server.node := by
      rw [State.nodes, List.getElem?_map, found, Option.map_some]
    -- The names ascend, so that the first larger one is the next one.
    rw [show server.nextServer = _ from chosen, successor, find?_above registered.ascends nodeFound,
      State.nodes, List.getElem?_map, Option.map_map]
    rfl
  · intro first isFirst last isLast children same
    have sorted := registered.sortedChildren same
    refine headAndTail_eq ?_ ?_
    · rw [sorted, childrenOf, State.nodes, List.head?_map, List.head?_map,
        Option.mem_def.mp isFirst]
      rfl
    · rw [sorted, childrenOf, State.nodes, List.getLast?_map, List.getLast?_map,
        Option.mem_def.mp isLast]
      rfl

/-- A network on which every connection is made. -/
def reaching : Network := ⟨true, fun _ => true⟩

/-- A buffer that holds nothing but terminators. -/
def blank : { block : List UInt8 // block.length = zDataLen } :=
  ⟨List.replicate zDataLen 0, List.length_replicate⟩

/-- The three parts of a callback of one thread. -/
def selects (position : Nat) (thread : Thread) : List Step :=
  [.choose position thread reaching blank, .look position thread, .store position thread]

/-- Two servers register, and the first one has only got itself when the second one comes. -/
def joins : List Step :=
  [.register 3 [.inet ⟨10, 0, 0, 1⟩] (List.replicate 100 0) ⟨[57, 48, 48, 49], by decide⟩ 0,
    .getChildren 0 [numberedName 3],
    .register 4 [.inet ⟨10, 0, 0, 2⟩] (List.replicate 100 0) ⟨[57, 48, 48, 50], by decide⟩ 0,
    .getChildren 1 [numberedName 4, numberedName 3]] ++ selects 1 .main

/-- The first server catches up: its watcher chooses while `main` is at it, but looks after it. -/
def catchesUp : List Step :=
  [.choose 0 .main reaching blank, .childEvent 0 [numberedName 4, numberedName 3], .look 0 .main,
    .choose 0 .watcher reaching blank, .store 0 .main, .look 0 .watcher, .store 0 .watcher]

/-- The two servers form a chain in the end. -/
theorem settled_servers_form_chain_two :
    ∃ final, Machine.run step start (joins ++ catchesUp) = some final ∧
      ∀ position server, final.servers[position]? = some server →
        server.nextServer = final.servers[position + 1]?.map fun next => next.node.listener := by
  -- The run is evaluated, and all callbacks have returned at its end.
  cases ran : Machine.run step start (joins ++ catchesUp) with
  | none => exact absurd ran (by decide +kernel)
  | some final =>
    have settles : ∀ final ∈ Machine.run step start (joins ++ catchesUp), Settled final := by
      decide +kernel
    obtain ⟨-, chain⟩ := settled_servers_form_chain (by decide +kernel) ran
    exact ⟨final, rfl, (chain (settles final ran)).1⟩

/-- When `main` looks after the watcher, the first server ends without a successor. -/
example : (Machine.run step start (joins ++ [.childEvent 0 [numberedName 4, numberedName 3]] ++
      selects 0 .watcher ++ selects 0 .main)).map
        (fun final => (decide (Settled final), final.servers.map Server.nextServer)) =
      some (true, [none, none]) := by
  decide +kernel

section Pending

variable {state : State} {position : Nat} {server after : Server}

/-- A thread is idle exactly if it has no steps of a callback left. -/
theorem Progress.pending_eq_zero_iff (progress : Progress) :
    progress.pending = 0 ↔ progress = .idle := by
  -- Every part of a callback has another number of steps left.
  cases progress <;> simp [Progress.pending]

/-- A server is settled exactly if it has no steps left, as long as it runs. -/
theorem Server.pending_eq_zero_iff (server : Server) :
    server.pending = 0 ↔ server.watch = .set ∧ server.progress .main = .idle ∧
      server.progress .watcher = .idle := by
  -- A watch that is not set, and each busy thread, would add to the steps.
  rw [← Progress.pending_eq_zero_iff, ← Progress.pending_eq_zero_iff, Server.pending]
  by_cases isSet : server.watch = .set <;> simp [isSet]

/-- A callback has three steps. -/
theorem Progress.pending_le (progress : Progress) : progress.pending ≤ 3 := by
  -- The three parts are those after `zoo_wget_children`.
  cases progress <;> simp [Progress.pending]

/-- No server has more than ten steps left. -/
theorem Server.pending_le (server : Server) : server.pending ≤ 10 := by
  -- Both threads have three steps at most, and the watch brings four more.
  have main := (server.progress .main).pending_le
  have watcher := (server.progress .watcher).pending_le
  unfold Server.pending
  split <;> omega

/-- Replacing one server changes what is pending by what is pending there. -/
theorem pending_set (found : state.servers[position]? = some server) (after : Server) :
    (state.set position after).pending + server.pending = state.pending + after.pending := by
  -- The servers in front and behind are the same ones.
  obtain ⟨inside, rfl⟩ := List.getElem?_eq_some_iff.mp found
  have split : state.servers = state.servers.take position ++ state.servers[position] ::
      state.servers.drop (position + 1) := by
    rw [← List.drop_eq_getElem_cons inside, List.take_append_drop]
  have whole := congrArg (fun servers => (servers.map Server.pending).sum) split
  simp only [List.map_append, List.map_cons, List.sum_append, List.sum_cons] at whole
  simp only [State.pending, State.set, List.set_eq_take_append_cons_drop, if_pos inside,
    List.map_append, List.map_cons, List.sum_append, List.sum_cons]
  omega

/-- A server is one step further when one of its threads is. -/
theorem Server.pending_goOn {thread : Thread} {progress : Progress}
    (further : progress.pending + 1 = (server.progress thread).pending) :
    (server.goOn thread progress).pending + 1 = server.pending := by
  -- The watch and the other thread are where they were.
  cases thread with
  | main =>
    change (if server.watch = .set then 0 else 4) + progress.pending +
      (server.progress .watcher).pending + 1 = _
    rw [Server.pending]
    omega
  | watcher =>
    change (if server.watch = .set then 0 else 4) + (server.progress .main).pending +
      progress.pending + 1 = _
    rw [Server.pending]
    omega

/-- A server that gets the children is one step further, as the callback has three more. -/
theorem Server.pending_wget {thread : Thread} (notSet : server.watch ≠ .set)
    (idle : server.progress thread = .idle) (children : List Key) :
    (server.wget thread children).pending + 1 = server.pending := by
  -- A watch that is not set stands for four steps, of which three are left to the thread.
  cases thread with
  | main =>
    change 0 + 3 + (server.progress .watcher).pending + 1 = _
    rw [Server.pending, if_neg notSet, idle, Progress.pending]
    omega
  | watcher =>
    change 0 + (server.progress .main).pending + 3 + 1 = _
    rw [Server.pending, if_neg notSet, idle, Progress.pending]
    omega

/-- The step of a callback takes one server one step further, and stops none of them. -/
theorem State.Begun.pending_step {next : State} {label : Step} (begun : state.Begun)
    (isCallback : label.IsCallback) (stepped : Watching.step state label = some next) :
    next.pending + 1 = state.pending ∧
      ((∀ server ∈ state.servers, server.running = true) →
        ∀ server ∈ next.servers, server.running = true) := by
  -- In each case one server is replaced by one that runs as well.
  have replaced : ∀ {position server after}, state.servers[position]? = some server →
      after.pending + 1 = server.pending → after.running = true →
      (state.set position after).pending + 1 = state.pending ∧
        ((∀ server ∈ state.servers, server.running = true) →
          ∀ server ∈ (state.set position after).servers, server.running = true) := by
    intro position server after found further runs
    have moved := pending_set found after
    refine ⟨by omega, fun running other member => ?_⟩
    rcases List.mem_or_eq_of_mem_set member with unchanged | rfl
    · exact running other unchanged
    · exact runs
  cases stepped_of_step stepped with
  | register => exact isCallback.elim
  | getChildren found running isUnset same =>
    have idle := begun _ (List.mem_of_getElem? found) isUnset .main
    exact replaced found (Server.pending_wget (by rw [isUnset]; nofun) idle _) running
  | childEvent found running isFired idle same =>
    exact replaced found (Server.pending_wget (by rw [isFired]; nofun) idle _) running
  | choose found running hasGot ran =>
    exact replaced found (Server.pending_goOn (by rw [hasGot]; rfl)) running
  | @look position thread server temp found running hasChosen valid =>
    have further : (server.goOn thread (.looked temp server.nextServer.isSome)).pending + 1 =
        server.pending := Server.pending_goOn (by rw [hasChosen]; rfl)
    exact replaced found further running
  | @store position thread server temp connected found running hasLooked =>
    have further : (server.goOn thread .idle).pending + 1 = server.pending :=
      Server.pending_goOn (by rw [hasLooked]; rfl)
    exact replaced found further running
  | stop => exact isCallback.elim
  | expire => exact isCallback.elim

/-- Every callback of a run takes one of the servers one step further. -/
theorem pending_run {callbacks : List Step} (only : ∀ label ∈ callbacks, label.IsCallback) :
    ∀ {mid final : State}, mid.Begun → Machine.run step mid callbacks = some final →
      callbacks.length + final.pending = mid.pending ∧
        ((∀ server ∈ mid.servers, server.running = true) →
          ∀ server ∈ final.servers, server.running = true) := by
  -- The first callback leaves one step less for the others.
  induction callbacks with
  | nil =>
    intro mid final _ ran
    cases ran
    exact ⟨Nat.zero_add _, id⟩
  | cons label rest ih =>
    intro mid final begun ran
    obtain ⟨next, stepped, ran⟩ := Machine.run_cons ran
    have later := fun other member => only other (List.mem_cons_of_mem label member)
    obtain ⟨further, runs⟩ := begun.pending_step (only label List.mem_cons_self) stepped
    obtain ⟨rest, stays⟩ := ih later (begun.step stepped) ran
    exact ⟨by rw [List.length_cons]; omega, fun running => stays (runs running)⟩

/--
Once no server comes or goes any more, the callbacks settle all servers, in whatever order they run.

There are at most ten steps of them for each server, and the servers are settled exactly when as
many have run as were pending. No order of the threads of a server is asked for.
-/
theorem callbacks_settle {before callbacks : List Step} {mid final : State}
    (reached : Machine.run step start before = some mid)
    (ran : Machine.run step mid callbacks = some final)
    (only : ∀ label ∈ callbacks, label.IsCallback)
    (running : ∀ server ∈ mid.servers, server.running = true) :
    callbacks.length ≤ mid.pending ∧ mid.pending ≤ 10 * mid.servers.length ∧
      (Settled final ↔ callbacks.length = mid.pending) := by
  obtain ⟨further, stays⟩ := pending_run only (begun_run reached) ran
  have bound := List.sum_le_card_nsmul (mid.servers.map Server.pending) 10 fun amount member => by
    obtain ⟨server, -, rfl⟩ := List.mem_map.mp member
    exact server.pending_le
  rw [List.length_map, nsmul_eq_mul, Nat.cast_id, Nat.mul_comm] at bound
  refine ⟨by omega, bound, ?_⟩
  -- All are settled if none of them has a step left.
  have settled : Settled final ↔ final.pending = 0 := by
    rw [State.pending, List.sum_eq_zero_iff]
    simp only [List.mem_map, forall_exists_index, and_imp, forall_apply_eq_imp_iff₂,
      Server.pending_eq_zero_iff]
    exact ⟨fun settled server member => (settled server member).2,
      fun handled server member => ⟨stays running server member, handled server member⟩⟩
  rw [settled]
  omega

/-- The steps by which the first server catches up are those that were pending. -/
theorem callbacks_settle_two :
    ∃ mid final, Machine.run step start joins = some mid ∧
      Machine.run step mid catchesUp = some final ∧ Settled final := by
  -- The steps are as many as were pending, and all of them are of callbacks.
  have computed : ∀ mid ∈ Machine.run step start joins,
      Machine.run step mid catchesUp ≠ none ∧
        (∀ server ∈ mid.servers, server.running = true) ∧ catchesUp.length = mid.pending := by
    decide +kernel
  cases reached : Machine.run step start joins with
  | none => exact absurd reached (by decide +kernel)
  | some mid =>
    obtain ⟨possible, running, enough⟩ := computed mid reached
    obtain ⟨final, ran⟩ := Option.ne_none_iff_exists'.mp possible
    have settles := callbacks_settle reached ran (by simp [catchesUp, Step.IsCallback]) running
    exact ⟨mid, final, rfl, ran, settles.2.2.mpr enough⟩

end Pending

end ChainTable.Watching
