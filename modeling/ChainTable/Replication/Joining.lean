import ChainTable.Library.Machine
import ChainTable.Replication.ForwardingLaws
import ChainTable.Replication.Merge

/-! A new server that joins behind the tail, while the tail goes on to handle puts. -/

namespace ChainTable.Joining

open ChainTable ChainTable.Forwarding

/-- The old tail and the server that joins behind it. -/
structure State where
  tail : Table
  joiner : Table
  /-- The joiner has created its node in ZooKeeper. -/
  registered : Bool
  /-- The merge of the joiner, once it has asked for the table of the tail. -/
  merge : Option Merge
  /-- The tail has connected to the joiner as its `next_server`. -/
  linked : Bool
  /-- The puts that the tail has applied, and that its threads have yet to forward or not. -/
  applied : List Forward
  /-- The keys whose put the tail has acknowledged. -/
  acknowledged : List Key
  deriving DecidableEq, Repr

/-- A step of the joiner, of the watcher of the tail, or of a thread of the tail. -/
inductive Step where
  | register
  /-- The joiner runs `select_prev_server` up to the answer of the tail. -/
  | fetch
  /-- The joiner puts the next entry that it fetched. -/
  | mergePut
  /-- The watcher of the tail runs `select_next_server`. -/
  | link
  /-- A thread of the tail applies a put under its lock. -/
  | apply (msg : MessageT)
  /-- The thread of the put at a position looks at `next_server`, forwards, and acknowledges. -/
  | settle (position : Nat)
  deriving DecidableEq, Repr

/-- What one step does, if it is possible. -/
def step (state : State) : Step → Option State
  | .register => if state.registered then none else some { state with registered := true }
  | .fetch =>
    if state.registered ∧ state.merge = none then
      match fetchTable state.tail with
      | none => none
      | some entries =>
        some { state with merge := some { entries := entries, position := 0 } }
    else none
  | .mergePut =>
    match state.merge with
    | none => none
    | some merge =>
      match merge.put state.joiner with
      | none => none
      | some (merge, joiner) => some { state with joiner := joiner, merge := some merge }
  | .link =>
    -- The watcher is called when the joiner has registered, however much later.
    if state.registered then some { state with linked := true } else none
  | .apply msg =>
    if msg.opcode = opPut then
      match applyTo state.tail msg with
      | none => none
      | some (passed, tail) =>
        some { state with tail := tail, applied := state.applied ++ passed.toList }
    else none
  | .settle position =>
    match state.applied[position]? with
    | none => none
    | some forward =>
      let settled := { state with
        applied := state.applied.eraseIdx position
        acknowledged := state.acknowledged ++ (forwardKey forward).toList }
      -- Without a successor the put is acknowledged as it is.
      if state.linked then
        match forwardRequest forward with
        | none => none
        | some request =>
          match applyTo state.joiner request with
          | none => none
          | some (_, joiner) => some { settled with joiner := joiner }
      else some settled

/-- The join is over: the joiner has merged, the tail has connected to it, and no put is open. -/
def Finished (state : State) : Prop :=
  (∃ merge, state.merge = some merge ∧ merge.current = none) ∧ state.linked = true ∧
    state.applied = []

/-- The joiner answers a lookup of the key with data. -/
def Present (state : State) (key : Key) : Prop :=
  ∃ data, tableGet state.joiner (some key) [] = .ok (some data, [])

/-- The key is one of those that the joiner has fetched. -/
def Fetched (merge : Merge) (key : Option Key) : Prop :=
  -- An array that is NULL has no keys.
  ∃ entry ∈ merge.entries.getD [], entry.map Entry.key = some key

/-- The joiner has not fetched yet, or the key is one of those that it has fetched. -/
def Fetches (state : State) (key : Option Key) : Prop :=
  ∀ merge ∈ state.merge, Fetched merge key

instance (merge : Merge) (key : Option Key) : Decidable (Fetched merge key) :=
  inferInstanceAs (Decidable (∃ entry ∈ merge.entries.getD [], entry.map Entry.key = some key))

instance (state : State) (key : Option Key) : Decidable (Fetches state key) :=
  inferInstanceAs (Decidable (∀ merge ∈ state.merge, Fetched merge key))

/-- A put is settled without a successor only if the joiner fetches its key. -/
def Covered (state : State) : Step → Prop
  | .settle position => state.linked = true ∨
      ∀ forward ∈ state.applied[position]?, Fetches state (forwardKey forward)
  | _ => True

instance (state : State) (label : Step) : Decidable (Covered state label) :=
  match label with
  | .register | .fetch | .mergePut | .link | .apply _ => inferInstanceAs (Decidable True)
  | .settle position =>
    inferInstanceAs (Decidable (state.linked = true ∨
      ∀ forward ∈ state.applied[position]?, Fetches state (forwardKey forward)))

/-- The tail and a joiner with an empty table, before anything happens. -/
def start (tail joiner : Table) : State where
  tail := tail
  joiner := joiner
  registered := false
  merge := none
  linked := false
  applied := []
  acknowledged := []

/--
Every acknowledged key is at the tail, and at the joiner or on its way there.

A key is on its way as long as the joiner has yet to fetch, or to put what it has fetched.
-/
structure Catching (state : State) (tail joiner : Contents) : Prop where
  atTail : state.tail.Holds tail
  atJoiner : state.joiner.Holds joiner
  merging : ∀ merge ∈ state.merge, ∃ pairs, merge.Left pairs ∧
    ∀ key, Fetched merge (some key) → joiner.lookup key ≠ none ∨ key ∈ pairs.map Prod.fst
  applied : ∀ forward ∈ state.applied, ∃ update : Update,
    forward = update.forward ∧ update.value ≠ none ∧ tail.lookup update.key ≠ none
  acknowledged : ∀ key ∈ state.acknowledged,
    tail.lookup key ≠ none ∧ (joiner.lookup key ≠ none ∨ Fetches state (some key))

/-- What a map has, it still has when a pair was put into it. -/
theorem lookup_insert_ne_none {contents : Contents} {key : Key}
    (stored : contents.lookup key ≠ none) (other : Key) (block : Block) :
    (contents.insert other block).lookup key ≠ none := by
  -- The key has the new block, or what it had.
  rw [contents_insert]
  split
  · simp
  · exact stored

/-- An update that stores something takes nothing out of a map. -/
theorem lookup_apply_ne_none {contents : Contents} {update : Update} (put : update.value ≠ none)
    {key : Key} (stored : contents.lookup key ≠ none) :
    (update.apply contents).lookup key ≠ none := by
  -- The key has the value of the update, or what it had.
  rw [Update.lookup_apply]
  split
  · exact put
  · exact stored

/-- An update that stores something leaves its key in the map. -/
theorem lookup_apply_key_ne_none {update : Update} (put : update.value ≠ none)
    (contents : Contents) : (update.apply contents).lookup update.key ≠ none := by
  -- Its own key has the value of the update.
  rw [Update.lookup_apply, if_pos rfl]
  exact put

/-- What a put passes on stores something. -/
theorem value_of_forward_put {update : Update} {entry : Option Entry}
    (put : update.forward = .put entry) : update.value ≠ none := by
  -- A deletion would have passed on a deletion.
  cases update with
  | put key block => simp [Update.value]
  | del key => cases put

/-- A put passes on a put. -/
theorem updateLocally_passes_put {msg : MessageT} {table after : Table} {mem : Mem}
    {passed : Option Forward} (isPut : msg.opcode = opPut)
    (ran : updateLocally msg table [] = .ok ((passed, after), mem)) :
    ∀ forward ∈ passed, ∃ entry, forward = .put entry := by
  -- The branch of a put is taken, and what that passes on is an entry to put.
  unfold updateLocally at ran
  rw [if_pos isPut] at ran
  cases put : putLocally msg table [] with
  -- A fault would not have returned.
  | error fault =>
    rw [run_bind_error put] at ran
    cases ran
  | ok result =>
    obtain ⟨⟨stored, next⟩, left⟩ := result
    rw [run_bind put] at ran
    cases ran
    intro forward member
    obtain ⟨entry, -, same⟩ := Option.map_eq_some_iff.mp member
    exact ⟨entry, same.symm⟩

section Steps

variable {state next : State} {tail joiner : Contents}

/-- Fetching puts every acknowledged key on its way. -/
theorem Catching.fetch (catching : Catching state tail joiner)
    (stepped : step state .fetch = some next) : Catching next tail joiner := by
  simp only [step] at stepped
  split at stepped
  case isFalse => cases stepped
  case isTrue =>
    obtain ⟨pairs, -, members, fetched⟩ := fetchTable_holds catching.atTail
    rw [fetched] at stepped
    cases stepped
    -- The keys fetched are those of the pairs of the tail.
    have keys : ∀ key, Fetched ⟨if pairs = [] then none
        else some ((pairs.map fun pair => some (Entry.ofPair pair)) ++ [none]), 0⟩ (some key) ↔
          key ∈ pairs.map Prod.fst := by
      intro key
      by_cases empty : pairs = []
      · simp [Fetched, empty]
      · simp [Fetched, empty, Entry.ofPair]
    refine ⟨catching.atTail, catching.atJoiner, ?_, catching.applied, ?_⟩
    · intro merge member
      cases member
      exact ⟨pairs, Merge.left_start pairs, fun key fetched => .inr ((keys key).mp fetched)⟩
    · intro key member
      obtain ⟨stored, -⟩ := catching.acknowledged key member
      refine ⟨stored, .inr fun merge member => ?_⟩
      cases member
      obtain ⟨block, found⟩ := Option.ne_none_iff_exists'.mp stored
      exact (keys key).mpr (List.mem_map.mpr ⟨(key, block), (members key block).mpr found, rfl⟩)

/-- An entry that is put has arrived, and the others are still on their way. -/
theorem Catching.mergePut (catching : Catching state tail joiner)
    (stepped : step state .mergePut = some next) : ∃ joiner', Catching next tail joiner' := by
  -- The fetched entry that is put is at the joiner now, and the others are where they were.
  simp only [step] at stepped
  split at stepped
  case h_1 => cases stepped
  case h_2 merge merging =>
    obtain ⟨pairs, left, arrives⟩ := catching.merging merge merging
    cases put : merge.put state.joiner with
    -- A put that faults is no step.
    | none =>
      rw [put] at stepped
      cases stepped
    | some result =>
      obtain ⟨merge', after⟩ := result
      rw [put] at stepped
      cases stepped
      obtain ⟨key, block, later, rfl, rest, same, holds⟩ := Merge.put_ran left catching.atJoiner put
      -- What was fetched has arrived, or is among the entries that are left.
      refine ⟨joiner.insert key block, catching.atTail, holds, ?_, catching.applied, ?_⟩
      · intro merge'' member
        cases member
        refine ⟨later, rest, fun other fetched => ?_⟩
        have before : Fetched merge (some other) := by
          rw [Fetched, ← same]
          exact fetched
        rcases arrives other before with stored | waiting
        · exact .inl (lookup_insert_ne_none stored key block)
        · rcases List.mem_cons.mp waiting with rfl | later
          · exact .inl (by rw [contents_insert, if_pos rfl]; simp)
          · exact .inr later
      · intro other member
        obtain ⟨stored, arrived | fetches⟩ := catching.acknowledged other member
        · exact ⟨stored, .inl (lookup_insert_ne_none arrived key block)⟩
        · refine ⟨stored, .inr fun merge'' member => ?_⟩
          cases member
          rw [Fetched, same]
          exact fetches merge merging

/-- A put applied at the tail adds to what the tail holds. -/
theorem Catching.apply (catching : Catching state tail joiner) {msg : MessageT}
    (stepped : step state (.apply msg) = some next) : ∃ tail', Catching next tail' joiner := by
  -- An update that is not refused is a put here, and a put takes nothing out of the tail.
  simp only [step] at stepped
  split at stepped
  case isFalse => cases stepped
  case isTrue isPut =>
    cases applied : applyTo state.tail msg with
    | none =>
      rw [applied] at stepped
      cases stepped
    | some result =>
      obtain ⟨passed, after⟩ := result
      rw [applied] at stepped
      obtain ⟨mem, ran⟩ := applyTo_cases applied
      obtain ⟨-, ⟨rfl, holds⟩ | ⟨update, rfl, -, holds⟩⟩ := updateLocally_ran catching.atTail ran
      · cases stepped
        exact ⟨tail, holds, catching.atJoiner, catching.merging,
          by simpa using catching.applied, catching.acknowledged⟩
      · cases stepped
        obtain ⟨entry, put⟩ := updateLocally_passes_put isPut ran _ rfl
        have stores : update.value ≠ none := value_of_forward_put put
        refine ⟨update.apply tail, holds, catching.atJoiner, catching.merging, ?_, ?_⟩
        · intro forward member
          rcases List.mem_append.mp member with before | last
          · obtain ⟨earlier, same, puts, stored⟩ := catching.applied forward before
            exact ⟨earlier, same, puts, lookup_apply_ne_none stores stored⟩
          · obtain rfl := List.mem_singleton.mp last
            exact ⟨update, rfl, stores, lookup_apply_key_ne_none stores tail⟩
        · intro other member
          obtain ⟨stored, arrives⟩ := catching.acknowledged other member
          exact ⟨lookup_apply_ne_none stores stored, arrives⟩

/-- A put that is settled is forwarded to the joiner, or on its way there by the merge. -/
theorem Catching.settle (catching : Catching state tail joiner) {position : Nat}
    (covered : Covered state (.settle position))
    (stepped : step state (.settle position) = some next) :
    ∃ joiner', Catching next tail joiner' := by
  simp only [step] at stepped
  split at stepped
  case h_1 => cases stepped
  case h_2 forward found =>
    obtain ⟨update, rfl, stores, stored⟩ :=
      catching.applied forward (List.mem_of_getElem? found)
    have remains : ∀ forward ∈ state.applied.eraseIdx position, ∃ update : Update,
        forward = update.forward ∧ update.value ≠ none ∧ tail.lookup update.key ≠ none :=
      fun forward member => catching.applied forward (List.mem_of_mem_eraseIdx member)
    simp only [forwardKey_forward, forwardRequest_forward] at stepped
    split at stepped
    case isTrue =>
      cases applied : applyTo state.joiner update.request with
      | none =>
        rw [applied] at stepped
        cases stepped
      | some result =>
        obtain ⟨passed, after⟩ := result
        rw [applied] at stepped
        cases stepped
        obtain ⟨mem, ran⟩ := applyTo_cases applied
        obtain ⟨-, -, holds⟩ := updateLocally_request_ran catching.atJoiner ran
        -- What the joiner holds is only added to.
        refine ⟨update.apply joiner, catching.atTail, holds, ?_, remains, ?_⟩
        · intro merge merging
          obtain ⟨pairs, left, arrives⟩ := catching.merging merge merging
          exact ⟨pairs, left, fun other fetched => (arrives other fetched).imp_left fun arrived =>
            lookup_apply_ne_none stores arrived⟩
        · intro other member
          rcases List.mem_append.mp member with before | last
          · obtain ⟨atTail, arrives⟩ := catching.acknowledged other before
            exact ⟨atTail, arrives.imp_left fun arrived => lookup_apply_ne_none stores arrived⟩
          · obtain rfl : other = update.key := by simpa using last
            exact ⟨stored, .inl (lookup_apply_key_ne_none stores joiner)⟩
    case isFalse unlinked =>
      cases stepped
      have fetches : Fetches state (some update.key) := by
        rcases covered with linked | fetches
        · exact absurd linked unlinked
        · simpa only [forwardKey_forward] using fetches _ found
      refine ⟨joiner, catching.atTail, catching.atJoiner, catching.merging, remains, ?_⟩
      intro other member
      rcases List.mem_append.mp member with before | last
      · exact catching.acknowledged other before
      · obtain rfl : other = update.key := by simpa using last
        exact ⟨stored, .inr fetches⟩

end Steps

/-- Each step that is covered leaves the acknowledged keys at the joiner or on their way there. -/
theorem catching_step {state next : State} {label : Step} (covered : Covered state label)
    (stepped : step state label = some next) (before : ∃ tail joiner, Catching state tail joiner) :
    ∃ tail joiner, Catching next tail joiner := by
  -- There is a lemma for each step that changes a table, and the other two change none.
  obtain ⟨tail, joiner, catching⟩ := before
  cases label with
  -- Registering and connecting change no table.
  | register =>
    simp only [step] at stepped
    split at stepped
    · cases stepped
    · cases stepped
      exact ⟨tail, joiner, catching.atTail, catching.atJoiner, catching.merging, catching.applied,
        catching.acknowledged⟩
  | fetch => exact ⟨tail, joiner, catching.fetch stepped⟩
  | mergePut =>
    obtain ⟨joiner', after⟩ := catching.mergePut stepped
    exact ⟨tail, joiner', after⟩
  | link =>
    simp only [step] at stepped
    split at stepped
    · cases stepped
      exact ⟨tail, joiner, catching.atTail, catching.atJoiner, catching.merging, catching.applied,
        catching.acknowledged⟩
    · cases stepped
  | apply msg =>
    obtain ⟨tail', after⟩ := catching.apply stepped
    exact ⟨tail', joiner, after⟩
  | settle position =>
    obtain ⟨joiner', after⟩ := catching.settle covered stepped
    exact ⟨tail, joiner', after⟩

/--
Once a join has finished, every key whose put the tail has acknowledged is at the joiner.

The run is any interleaving of the join and of puts that are settled while they are covered.
-/
theorem present_of_covered {tail joiner : Table} {contents : Contents} (full : tail.Holds contents)
    (empty : joiner.Holds ∅) {steps : List Step}
    (covered : Machine.Guarded step Covered (start tail joiner) steps) {final : State}
    (ran : Machine.run step (start tail joiner) steps = some final) (finished : Finished final) :
    ∀ key ∈ final.acknowledged, Present final key := by
  have begins : ∃ atTail atJoiner, Catching (start tail joiner) atTail atJoiner :=
    ⟨contents, ∅, full, empty, fun merge member => (by cases member),
      fun forward member => (by cases member), fun key member => (by cases member)⟩
  obtain ⟨atTail, atJoiner, catching⟩ := Machine.run_invariant
    (fun _ _ _ catching covered stepped => catching_step covered stepped catching)
    begins covered ran
  obtain ⟨⟨merge, merging, ended⟩, -, -⟩ := finished
  intro key member
  -- A merge that has ended has put all that it fetched.
  obtain ⟨pairs, left, arrives⟩ := catching.merging merge merging
  obtain rfl := Merge.left_of_ended left ended
  have arrived : atJoiner.lookup key ≠ none := by
    rcases (catching.acknowledged key member).2 with arrived | fetches
    · exact arrived
    · exact (arrives key (fetches merge merging)).resolve_right (by simp)
  obtain ⟨block, found⟩ := Option.ne_none_iff_exists'.mp arrived
  have answer := catching.atJoiner.get (catching.atJoiner.inside found)
  rw [found] at answer
  exact ⟨_, answer⟩

/--
A put that is settled after the joiner has fetched, and before the tail connects to it, is lost.

Both tables start empty, and the put is acknowledged all the same.
-/
theorem acknowledged_put_is_lost :
    let key : Key := ⟨[107], by decide⟩
    let block : Block := ⟨[1], by decide⟩
    let empty : Table := ⟨0, 1, [⟨0, []⟩], rfl⟩
    let holding : Table := ⟨1, 1, [⟨1, [.ofPair (key, block)]⟩], rfl⟩
    let steps : List Step :=
      [.register, .fetch, .apply (Update.put key block).request, .settle 0, .link]
    let final : State := ⟨holding, empty, true, some ⟨none, 0⟩, true, [], [key]⟩
    empty.Holds ∅ ∧ Machine.run step (start empty empty) steps = some final ∧ Finished final ∧
      key ∈ final.acknowledged ∧ ¬ Present final key := by
  -- The run is evaluated, and the joiner has nothing under the key.
  intro key block empty holding steps final
  refine ⟨Table.Holds.empty, by decide +kernel, ⟨⟨_, rfl, rfl⟩, rfl, rfl⟩,
    List.mem_cons_self, ?_⟩
  rintro ⟨data, answered⟩
  have absent : tableGet empty (some key) [] = .ok (none, []) := by decide +kernel
  rw [absent] at answered
  cases answered

/-- A put settled before the joiner fetches and one settled after the tail connects both arrive. -/
theorem present_of_covered_two_puts :
    let first : Update := .put ⟨[107], by decide⟩ ⟨[1], by decide⟩
    let second : Update := .put ⟨[108], by decide⟩ ⟨[2], by decide⟩
    let empty : Table := ⟨0, 1, [⟨0, []⟩], rfl⟩
    let steps : List Step := [.apply first.request, .settle 0, .register, .fetch,
      .apply second.request, .link, .settle 0, .mergePut]
    ∃ final, Machine.run step (start empty empty) steps = some final ∧
      final.acknowledged = [first.key, second.key] ∧
      ∀ key ∈ final.acknowledged, Present final key := by
  -- The run keeps to the condition, and ends with nothing left to do.
  intro first second empty steps
  have covered : Machine.Guarded step Covered (start empty empty) steps := by decide +kernel
  have runs : (Machine.run step (start empty empty) steps).map (fun state =>
      ((state.merge.map Merge.current, state.linked), state.applied, state.acknowledged)) =
      some ((some none, true), [], [first.key, second.key]) := by decide +kernel
  obtain ⟨final, ran, ended⟩ := Option.map_eq_some_iff.mp runs
  have merged : final.merge.map Merge.current = some none :=
    congrArg (fun result => result.1.1) ended
  have finished : Finished final := ⟨Option.map_eq_some_iff.mp merged,
    congrArg (fun result => result.1.2) ended, congrArg (fun result => result.2.1) ended⟩
  exact ⟨final, ran, congrArg (fun result => result.2.2) ended,
    present_of_covered Table.Holds.empty Table.Holds.empty covered ran finished⟩

end ChainTable.Joining
