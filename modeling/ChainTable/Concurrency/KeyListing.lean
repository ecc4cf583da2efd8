import ChainTable.Library.Machine
import ChainTable.Server.InvokeLaws
import ChainTable.Server.Update

/-! Requests for all keys, answered by handler threads while other threads update the table. -/

namespace ChainTable.KeyListing

open ChainTable

/-- A request for all keys in the hands of a thread. -/
structure Request where
  msg : MessageT
  /-- What the thread has copied under the lock, once it has been there, and from which table. -/
  copied : Option (Option (List (Option Key)) × Table)
  /-- The tables that the server has had since the request arrived. -/
  moments : List Table
  deriving DecidableEq

/-- A reply, with the tables that the server had between the request and the reply. -/
structure Answer where
  reply : MessageT
  moments : List Table
  deriving DecidableEq

/-- The table of the server, its requests for all keys in progress, and the replies to others. -/
structure State where
  table : Table
  requests : List Request
  answers : List Answer
  deriving DecidableEq

/-- A step of some handler thread. -/
inductive Step where
  /-- The section under the lock of a PUT or a DEL. -/
  | update (msg : MessageT)
  /-- A request for all keys arrives. -/
  | arrive (msg : MessageT)
  /-- The section under the lock of a request for all keys. -/
  | copyKeys (position : Nat)
  /-- The call of `table_size` behind that section, with which the reply is made. -/
  | readSize (position : Nat)
  deriving DecidableEq

/-- What `invoke` replies to OP_GETKEYS, given the keys and the number that it got. -/
def keysReply (msg : MessageT) (keys : Option (List (Option Key))) (size : Int) : MessageT :=
  -- The number is compared with -1 as `size_t`, which no `int` but -1 becomes.
  if keys.isNone ∨ size = -1 then errorReply msg
  else { msg with opcode := opGetKeys + 1, cType := ctKeys, keys := keys, nKeys := sizeT size }

/-- What one step does, with memory given and no undefined behaviour. -/
def step (state : State) : Step → Option State
  | .update msg =>
    if msg.opcode = opPut ∨ msg.opcode = opDel then
      match applyTo state.table msg with
      | none => none
      | some (_, table) =>
        some { state with
          table := table
          requests := state.requests.map fun request =>
            { request with moments := request.moments ++ [table] } }
    else none
  | .arrive msg =>
    if msg.opcode = opGetKeys then
      some { state with
        requests := state.requests ++ [{ msg := msg, copied := none, moments := [state.table] }] }
    else none
  | .copyKeys position =>
    match state.requests[position]? with
    | some { msg := msg, copied := none, moments := moments } =>
      match tableGetKeys state.table [] with
      | .ok (keys, _) =>
        let request := { msg := msg, copied := some (keys, state.table), moments := moments }
        some { state with requests := state.requests.set position request }
      | .error _ => none
    | _ => none
  | .readSize position =>
    match state.requests[position]? with
    | some { msg := msg, copied := some (keys, _), moments := moments } =>
      some { state with
        requests := state.requests.eraseIdx position
        answers := state.answers ++
          [{ reply := keysReply msg keys (tableSize state.table), moments := moments }] }
    | _ => none

/-- The strings of an array in front of and between its NULL pointers. -/
def strings (array : List (Option Key)) : List Key := array.filterMap id

/-- These are all the keys of a table, each of them once. -/
def Lists (table : Table) (keys : List Key) : Prop :=
  keys.Nodup ∧ ∃ contents, table.Holds contents ∧ ∀ key, key ∈ keys ↔ key ∈ contents

/-- The reply counts its strings, which are the keys of the table at one moment of the request. -/
def Agrees (answer : Answer) : Prop :=
  ∃ array, answer.reply.keys = some array ∧ answer.reply.nKeys = (strings array).length ∧
    ∃ moment ∈ answer.moments, Lists moment (strings array)

/-- When the number of keys is read, there are as many as there were when they were copied. -/
def Undisturbed (state : State) : Step → Prop
  | .readSize position => ∀ request ∈ state.requests[position]?, ∀ copied ∈ request.copied,
      tableSize state.table = tableSize copied.2
  | _ => True

instance (state : State) (label : Step) : Decidable (Undisturbed state label) :=
  match label with
  | .update _ | .arrive _ | .copyKeys _ => inferInstanceAs (Decidable True)
  | .readSize position => inferInstanceAs (Decidable (∀ request ∈ state.requests[position]?,
      ∀ copied ∈ request.copied, tableSize state.table = tableSize copied.2))

/-- A table that no request has reached yet. -/
def start (table : Table) : State := ⟨table, [], []⟩

/-- Every request in progress knows the present table, and has copied the keys of one it knows. -/
structure Observed (state : State) : Prop where
  held : ∃ contents, state.table.Holds contents
  present : ∀ request ∈ state.requests, state.table ∈ request.moments
  copied : ∀ request ∈ state.requests, ∀ array moment, request.copied = some (some array, moment) →
    moment ∈ request.moments ∧ Lists moment (strings array) ∧
      tableSize moment = (strings array).length
  answered : ∀ answer ∈ state.answers, answer.reply.opcode = opGetKeys + 1 → Agrees answer

/-- A thread that is not disturbed between its two sections replies as `invoke` does. -/
theorem invokeGetKeys_reply {σ : Type} {msg : MessageT} {server : Server} {state : σ}
    {mem mem' : Mem} {keys : Option (List (Option Key))}
    (copied : tableGetKeys server.table mem = .ok (keys, mem')) :
    ∃ code served, invokeGetKeys msg server state mem =
      .ok (((code, keysReply msg keys (tableSize server.table), served), state), mem') := by
  -- The clock leaves the table alone, so that both sections look at the same one.
  have sameTable := gettimeofday_table server
  unfold invokeGetKeys
  simp only [sameTable]
  rw [runOver_bind (runOver_lift copied)]
  unfold keysReply
  split <;> exact ⟨_, _, rfl⟩

/-- What a table lists under the lock are all its keys, as many as it counts. -/
theorem lists_of_getKeys {table : Table} {contents : Contents} (holds : table.Holds contents)
    {array : List (Option Key)} {mem : Mem}
    (copied : tableGetKeys table [] = .ok (some array, mem)) :
    Lists table (strings array) ∧ tableSize table = (strings array).length := by
  -- The copied array lists the keys of the map, or is NULL when there are none.
  obtain ⟨keys, nodup, members, listed⟩ := holds.getKeys
  rw [listed] at copied
  by_cases empty : keys = []
  · rw [if_pos empty] at copied
    cases copied
  · rw [if_neg empty] at copied
    cases copied
    have same : strings (keys.map some ++ [none]) = keys := by
      simp [strings, List.filterMap_append, List.filterMap_map]
    have whole : keys.toFinset = contents.keys := by
      ext key
      rw [List.mem_toFinset, Finmap.mem_keys, members]
    rw [same, holds.size, ← whole, List.toFinset_card_of_nodup nodup]
    exact ⟨⟨nodup, contents, holds, members⟩, rfl⟩

section Steps

variable {state next : State}

/-- An update adds the new table to what every request knows. -/
theorem Observed.update (observed : Observed state) {msg : MessageT}
    (stepped : step state (.update msg) = some next) : Observed next := by
  -- The table changes, but every moment that a request knew before stays among its moments.
  obtain ⟨contents, holds⟩ := observed.held
  simp only [step] at stepped
  split at stepped
  case isFalse => cases stepped
  case isTrue =>
    cases applied : applyTo state.table msg with
    | none =>
      rw [applied] at stepped
      cases stepped
    | some result =>
      obtain ⟨passed, after⟩ := result
      rw [applied] at stepped
      cases stepped
      obtain ⟨mem, ran⟩ := applyTo_cases applied
      refine ⟨?_, ?_, ?_, observed.answered⟩
      · obtain ⟨-, ⟨-, held⟩ | ⟨update, -, -, held⟩⟩ := updateLocally_ran holds ran
        · exact ⟨_, held⟩
        · exact ⟨_, held⟩
      · intro request member
        obtain ⟨before, -, rfl⟩ := List.mem_map.mp member
        simp
      · intro request member array moment copied
        obtain ⟨before, pending, rfl⟩ := List.mem_map.mp member
        obtain ⟨known, lists⟩ := observed.copied before pending array moment copied
        exact ⟨List.mem_append_left _ known, lists⟩

/-- A request that arrives knows the present table. -/
theorem Observed.arrive (observed : Observed state) {msg : MessageT}
    (stepped : step state (.arrive msg) = some next) : Observed next := by
  -- The new request has copied nothing, and the table is among the moments it knows.
  simp only [step] at stepped
  split at stepped
  case isFalse => cases stepped
  case isTrue =>
    cases stepped
    refine ⟨observed.held, ?_, ?_, observed.answered⟩
    · intro request member
      rcases List.mem_append.mp member with before | last
      · exact observed.present request before
      · rw [List.mem_singleton.mp last]
        exact List.mem_singleton.mpr rfl
    · intro request member array moment copied
      rcases List.mem_append.mp member with before | last
      · exact observed.copied request before array moment copied
      · rw [List.mem_singleton.mp last] at copied
        cases copied

/-- The keys that a thread copies are those of the present table. -/
theorem Observed.copyKeys (observed : Observed state) {position : Nat}
    (stepped : step state (.copyKeys position) = some next) : Observed next := by
  -- The request is marked with the keys of the table at this very step.
  obtain ⟨contents, holds⟩ := observed.held
  simp only [step] at stepped
  split at stepped
  case h_2 => cases stepped
  case h_1 msg moments found =>
    have known : state.table ∈ moments := observed.present _ (List.mem_of_getElem? found)
    split at stepped
    case h_2 => cases stepped
    case h_1 keys mem copied =>
      cases stepped
      refine ⟨observed.held, ?_, ?_, observed.answered⟩
      · intro request member
        rcases List.mem_or_eq_of_mem_set member with before | rfl
        · exact observed.present request before
        · exact known
      · intro request member array moment holdsKeys
        rcases List.mem_or_eq_of_mem_set member with before | rfl
        · exact observed.copied request before array moment holdsKeys
        · cases holdsKeys
          exact ⟨known, lists_of_getKeys holds copied⟩

/-- A reply counts the keys that were copied if there are as many when their number is read. -/
theorem Observed.readSize (observed : Observed state) {position : Nat}
    (undisturbed : Undisturbed state (.readSize position))
    (stepped : step state (.readSize position) = some next) : Observed next := by
  simp only [step] at stepped
  split at stepped
  case h_2 => cases stepped
  case h_1 msg keys source moments found =>
    cases stepped
    have remains : ∀ request ∈ state.requests.eraseIdx position, request ∈ state.requests :=
      fun request member => List.mem_of_mem_eraseIdx member
    refine ⟨observed.held, fun request member => observed.present request (remains request member),
      fun request member => observed.copied request (remains request member), ?_⟩
    intro answer member success
    rcases List.mem_append.mp member with before | last
    · exact observed.answered answer before success
    · obtain rfl := List.mem_singleton.mp last
      cases keys with
      | none => exact absurd success (by simp [keysReply, errorReply, opError, opGetKeys])
      | some array =>
        have same : tableSize state.table = tableSize source := undisturbed _ found _ rfl
        obtain ⟨known, lists, counted⟩ :=
          observed.copied _ (List.mem_of_getElem? found) array source rfl
        -- The number is that of strings, so it is not the one for an error.
        have reply : keysReply msg (some array) (tableSize state.table) =
            { msg with opcode := opGetKeys + 1, cType := ctKeys, keys := some array,
                       nKeys := (strings array).length } := by
          rw [keysReply, same, counted, if_neg (by simp), sizeT_natCast]
        exact ⟨array, by rw [reply], by rw [reply], source, known, lists⟩

end Steps

/-- Every step in which no number of keys is disturbed keeps what is observed. -/
theorem observed_step {state next : State} {label : Step} (undisturbed : Undisturbed state label)
    (stepped : step state label = some next) (observed : Observed state) : Observed next := by
  -- There is one lemma for each kind of step.
  cases label with
  | update msg => exact observed.update stepped
  | arrive msg => exact observed.arrive stepped
  | copyKeys position => exact observed.copyKeys stepped
  | readSize position => exact observed.readSize undisturbed stepped

/--
A successful reply counts its strings, and they are the keys of one moment of its request.

The run is any interleaving of threads in which each number is read while it is that of the copied
keys.
-/
theorem replies_agree {table : Table} {contents : Contents} (holds : table.Holds contents)
    {steps : List Step} (undisturbed : Machine.Guarded step Undisturbed (start table) steps)
    {final : State} (ran : Machine.run step (start table) steps = some final) :
    ∀ answer ∈ final.answers, answer.reply.opcode = opGetKeys + 1 → Agrees answer := by
  -- At the start there is neither a request nor an answer.
  have begins : Observed (start table) :=
    ⟨⟨contents, holds⟩, fun request member => (by cases member),
      fun request member => (by cases member), fun answer member => (by cases member)⟩
  exact (Machine.run_invariant (fun _ _ _ observed undisturbed stepped =>
    observed_step undisturbed stepped observed) begins undisturbed ran).answered

/-- A key that is put between the two sections of a request is counted, but is not in the array. -/
theorem put_between_sections_is_counted :
    let first : Key := ⟨[107], by decide⟩
    let second : Key := ⟨[108], by decide⟩
    let block : Block := ⟨[1], by decide⟩
    let empty : Table := ⟨0, 1, [⟨0, []⟩], rfl⟩
    let steps : List Step := [.update (Update.put first block).request,
      .arrive (bareRequest opGetKeys), .copyKeys 0, .update (Update.put second block).request,
      .readSize 0]
    let reply : MessageT := { opcode := opGetKeys + 1, cType := ctKeys,
                              keys := some [some first, none], nKeys := 2 }
    empty.Holds ∅ ∧ ∃ final answer, Machine.run step (start empty) steps = some final ∧
      final.answers = [answer] ∧ answer.reply = reply ∧ ¬ Agrees answer := by
  intro first second block empty steps reply
  have runs : (Machine.run step (start empty) steps).map
      (fun state => state.answers.map Answer.reply) = some [reply] := by decide +kernel
  obtain ⟨final, ran, answered⟩ := Option.map_eq_some_iff.mp runs
  obtain ⟨answer, rest, answers, same, others⟩ := List.map_eq_cons_iff.mp answered
  obtain rfl := List.map_eq_nil_iff.mp others
  refine ⟨Table.Holds.empty, final, answer, ran, answers, same, ?_⟩
  rintro ⟨array, keys, counted, -⟩
  -- The reply counts two strings, and has one.
  rw [same] at keys counted
  cases keys
  exact absurd counted (by decide)

/-- A put before the keys are copied, and a replaced value after it, are not in the way. -/
theorem replies_agree_replacement :
    let key : Key := ⟨[107], by decide⟩
    let empty : Table := ⟨0, 1, [⟨0, []⟩], rfl⟩
    let steps : List Step := [.arrive (bareRequest opGetKeys),
      .update (Update.put key ⟨[1], by decide⟩).request, .copyKeys 0,
      .update (Update.put key ⟨[2], by decide⟩).request, .readSize 0]
    ∃ final answer, Machine.run step (start empty) steps = some final ∧
      final.answers = [answer] ∧ Agrees answer := by
  -- The run keeps to the condition, and ends with one answer.
  intro key empty steps
  have undisturbed : Machine.Guarded step Undisturbed (start empty) steps := by decide +kernel
  have runs : (Machine.run step (start empty) steps).map (fun state => state.answers.map
      fun answer => answer.reply.opcode) = some [opGetKeys + 1] := by decide +kernel
  obtain ⟨final, ran, answered⟩ := Option.map_eq_some_iff.mp runs
  obtain ⟨answer, rest, answers, opcode, others⟩ := List.map_eq_cons_iff.mp answered
  obtain rfl := List.map_eq_nil_iff.mp others
  exact ⟨final, answer, ran, answers, replies_agree Table.Holds.empty undisturbed ran answer
    (by rw [answers]; exact List.mem_singleton_self _) opcode⟩

end ChainTable.KeyListing
