import ChainTable.Library.Replay
import ChainTable.Server.Stub

/-! Updates as the chain passes them on, and what one server does to its map for each of them. -/

namespace ChainTable

/-- A change of the map: a block put under a key, or a key deleted. -/
inductive Update where
  | put (key : Key) (block : Block)
  | del (key : Key)
  deriving DecidableEq, Repr

namespace Update

/-- The key an update is about. -/
def key : Update → Key
  | put key _ => key
  | del key => key

/-- What is stored under the key once the update is applied. -/
def value : Update → Option Block
  | put _ block => some block
  | del _ => none

/-- The map an update makes of another one. -/
def apply : Update → Contents → Contents
  | put key block, contents => contents.insert key block
  | del key, contents => contents.erase key

/-- A put always applies, and a deletion only where its key is stored. -/
def Applies : Update → Contents → Prop
  | put _ _, _ => True
  | del key, contents => contents.lookup key ≠ none

instance (update : Update) (contents : Contents) : Decidable (update.Applies contents) :=
  match update with
  | put _ _ => inferInstanceAs (Decidable True)
  | del _ => inferInstanceAs (Decidable (_ ≠ _))

/-- A deletion applies where its key is stored. -/
theorem del_applies_iff (key : Key) (contents : Contents) :
    (del key).Applies contents ↔ key ∈ contents := by
  rw [Applies, ne_eq, Finmap.lookup_eq_none, not_not]

/-- What a server passes on after it applied the update. -/
def forward : Update → Forward
  | put key block => .put (some (.ofPair (key, block)))
  | del key => .del key

/-- The request that asks a server for the update. -/
def request : Update → MessageT
  | put key block => putRequest (some key) (.ofBlock block)
  | del key => delRequest (some key)

/-- The request is a PUT or a DEL. -/
theorem request_opcode (update : Update) :
    update.request.opcode = opPut ∨ update.request.opcode = opDel := by
  cases update with
  | put key block => exact .inl rfl
  | del key => exact .inr rfl

/-- A deletion is not asked for as a put. -/
theorem del_opcode (key : Key) : (del key).request.opcode ≠ opPut :=
  (by decide : opDel ≠ opPut)

/-- After an update its key has the value of the update, and other keys have what they had. -/
theorem lookup_apply (update : Update) (contents : Contents) (other : Key) :
    (update.apply contents).lookup other =
      if other = update.key then update.value else contents.lookup other := by
  -- A put inserts at its key, and a deletion erases at its key.
  cases update with
  | put key block => exact contents_insert contents key other block
  | del key => exact contents_erase contents key other

/-- An update that does not apply changes nothing. -/
theorem apply_eq_self {update : Update} {contents : Contents}
    (refused : ¬ update.Applies contents) : update.apply contents = contents := by
  -- Only a deletion can fail to apply, namely of a key that is not stored.
  cases update with
  | put key block => exact absurd trivial refused
  | del key => exact contents_erase_absent (not_not.mp refused)

/-- Updates of a map are operations about one key each. -/
def ops : KeyedOps Key Contents Update where
  key := key
  Applies := Applies
  apply := apply
  commute {first second} contents differs := by
    refine Finmap.ext_lookup fun other => ?_
    simp only [lookup_apply]
    -- No key is that of both updates.
    by_cases isFirst : other = first.key
    · simp [isFirst, differs]
    · simp [isFirst]
  unaffected {first second} contents differs := by
    cases first with
    | put key block => exact Iff.rfl
    | del key =>
      have notSecond : key ≠ second.key := differs
      simp only [Applies, lookup_apply, if_neg notSecond]

end Update

variable {table : Table} {contents : Contents} {mem mem' : Mem}

/-- Creating data from what a request carries of valid data gives its block. -/
theorem dataCreate_contents {data : Data} {bytes : List UInt8} {block : Block}
    (held : data.data = some bytes) (found : data.contents = some block) :
    dataCreate (sizeT data.datasize) (some bytes) [] = .ok (some (.ofBlock block), []) := by
  have taken := (contents_eq_some_iff data block).mp found
  have fits := data.readable bytes held
  have isInt := data.isInt
  -- Some byte is taken, so the size is positive, and survives both conversions.
  have positive : 0 < data.datasize := by
    have length := List.length_pos_iff.mpr block.property.1
    rw [← taken, Data.bytes, List.length_take] at length
    omega
  have converted : int32 (sizeT data.datasize) = data.datasize := by
    rw [sizeT, if_pos positive.le, Int.toNat_of_nonneg positive.le, isInt]
  refine (dataCreate_attempts ?_ ?_ ?_).succeeds
  · omega
  · omega
  · rw [converted, ← taken, Data.bytes, held, Option.getD_some]

/-- Data created with memory given is NULL or holds a block. -/
theorem dataCreate_ran {size : Int} {bytes : Option (List UInt8)} {data : Option Data}
    (ran : dataCreate size bytes [] = .ok (data, mem)) :
    mem = [] ∧ (data = none ∨ ∃ block, data = some (.ofBlock block)) := by
  -- A creation that faults has not run.
  rcases dataCreate_cases size bytes with ⟨fault, faulted⟩ | refused | ⟨block, created⟩
  · rw [faulted] at ran
    cases ran
  · rw [refused] at ran
    cases ran
    exact ⟨rfl, .inl rfl⟩
  · rw [created] at ran
    cases ran
    exact ⟨rfl, .inr ⟨block, rfl⟩⟩

/-- A put whose data could be created and stored passes a copy of its pair on. -/
theorem putLocally_stored {msg : MessageT} {entry : EntryT} {key : Key} {bytes : List UInt8}
    {block : Block} {after : Table} (sent : msg.entry = some entry) (named : entry.key = some key)
    (held : entry.value.data = some bytes)
    (created : dataCreate entry.value.len (some bytes) [] = .ok (some (.ofBlock block), []))
    (put : tablePut table (some key) (some (.ofBlock block)) [] = .ok ((0, after), [])) :
    putLocally msg table [] = .ok ((some (some (.ofPair (key, block))), after), []) := by
  simp only [putLocally, sent, named, held]
  rw [run_bind created, run_bind put]
  -- The put succeeded, so the copies are made next.
  simp only [show ¬ ((0 : Int) = -1) by omega, if_false]
  have contents := contents_ofBlock block
  rw [run_bind (strdup_attempts key).succeeds, run_bind (dataDup_attempts contents).succeeds,
    run_bind (entryCreate_attempts key contents).succeeds]
  rfl

/-- A request for a put of valid data stores its block, and passes the pair on. -/
theorem putLocally_request {key : Key} {data : Data} {bytes : List UInt8} {block : Block}
    {after : Table} (held : data.data = some bytes) (found : data.contents = some block)
    (put : tablePut table (some key) (some (.ofBlock block)) [] = .ok ((0, after), [])) :
    putLocally (putRequest (some key) data) table [] =
      .ok ((some (some (.ofPair (key, block))), after), []) := by
  -- The entry of the request names the key, and carries the bytes of the data.
  have sent : (putRequest (some key) data).entry =
      some { key := some key, value := ⟨sizeT data.datasize, data.data⟩ } := rfl
  exact putLocally_stored sent rfl held (dataCreate_contents held found) put

/-- A request for a put faults where storing its block does. -/
theorem putLocally_request_error {key : Key} {data : Data} {bytes : List UInt8} {block : Block}
    {fault : Fault} (held : data.data = some bytes) (found : data.contents = some block)
    (put : tablePut table (some key) (some (.ofBlock block)) [] = .error fault) :
    putLocally (putRequest (some key) data) table [] = .error fault := by
  -- The data of the request is created first, for which memory is given.
  simp only [putLocally, putRequest, held]
  rw [run_bind (dataCreate_contents held found), run_bind_error put]

/-- A put that ran stored a block and passes its pair on, or changed nothing. -/
theorem putLocally_ran (holds : table.Holds contents) {msg : MessageT}
    {stored : Option (Option Entry)} {after : Table}
    (ran : putLocally msg table [] = .ok ((stored, after), mem)) :
    mem = [] ∧ ((stored = none ∧ after = table) ∨ ∃ key block,
      stored = some (some (.ofPair (key, block))) ∧ after.Holds (contents.insert key block)) := by
  -- Without an entry, a key or a value the request is refused at once.
  cases sent : msg.entry with
  | none =>
    simp only [putLocally, sent] at ran
    cases ran
    exact ⟨rfl, .inl ⟨rfl, rfl⟩⟩
  | some entry =>
    cases named : entry.key with
    | none =>
      simp only [putLocally, sent, named] at ran
      cases ran
      exact ⟨rfl, .inl ⟨rfl, rfl⟩⟩
    | some key =>
      cases held : entry.value.data with
      | none =>
        simp only [putLocally, sent, named, held] at ran
        cases ran
        exact ⟨rfl, .inl ⟨rfl, rfl⟩⟩
      | some bytes =>
        cases created : dataCreate entry.value.len (some bytes) [] with
        | error fault =>
          simp only [putLocally, sent, named, held, run_bind_error created] at ran
          cases ran
        | ok result =>
          obtain ⟨data, mem'⟩ := result
          obtain ⟨rfl, rfl | ⟨block, rfl⟩⟩ := dataCreate_ran created
          · -- No data was created, and the put refuses NULL.
            have refused : tablePut table (some key) none = pure (-1, table) :=
              tablePut_refused table (.inr rfl)
            simp only [putLocally, sent, named, held, run_bind created, refused, pure_bind,
              if_true] at ran
            cases ran
            exact ⟨rfl, .inl ⟨rfl, rfl⟩⟩
          · cases put : tablePut table (some key) (some (.ofBlock block)) [] with
            | error fault =>
              simp only [putLocally, sent, named, held, run_bind created,
                run_bind_error put] at ran
              cases ran
            | ok result =>
              obtain ⟨⟨code, next⟩, mem'⟩ := result
              obtain ⟨rfl, rfl, holdsNext⟩ := holds.put_ran (contents_ofBlock block) put
              rw [putLocally_stored sent named held created put] at ran
              cases ran
              exact ⟨rfl, .inr ⟨key, block, rfl, holdsNext⟩⟩

/-- A removal that ran says whether it took a key out. -/
theorem delLocally_ran (holds : table.Holds contents) {key : Key} {removed : Bool} {after : Table}
    (ran : delLocally key table mem = .ok ((removed, after), mem')) :
    removed = decide (contents.lookup key ≠ none) ∧ mem' = mem ∧
      after.Holds (contents.erase key) := by
  -- The removal decides, as nothing else happens under the lock.
  cases took : tableRemove table (some key) mem with
  | error fault =>
    rw [delLocally, run_bind_error took] at ran
    cases ran
  | ok result =>
    obtain ⟨⟨code, next⟩, left⟩ := result
    obtain ⟨rfl, rfl, holdsNext⟩ := holds.remove_ran took
    rw [delLocally, run_bind took] at ran
    -- The removal answers 1 for a key that is not stored, and 0 for one that is.
    by_cases absent : contents.lookup key = none
    · simp only [if_pos absent] at ran
      cases ran
      exact ⟨by simp [absent], rfl, holdsNext⟩
    · simp only [if_neg absent] at ran
      cases ran
      exact ⟨by simp [absent], rfl, holdsNext⟩

/--
What an update does under the lock: it applies and is passed on, or changes nothing.

The request may come from any client, and need not be well formed.
-/
theorem updateLocally_ran (holds : table.Holds contents) {msg : MessageT}
    {passed : Option Forward} {after : Table}
    (ran : updateLocally msg table [] = .ok ((passed, after), mem)) :
    mem = [] ∧ ((passed = none ∧ after.Holds contents) ∨ ∃ update : Update,
      passed = some update.forward ∧ update.Applies contents ∧
        after.Holds (update.apply contents)) := by
  -- A PUT is stored as an entry, and any other request removes its key.
  unfold updateLocally at ran
  by_cases isPut : msg.opcode = opPut
  · rw [if_pos isPut] at ran
    cases put : putLocally msg table [] with
    | error fault =>
      rw [run_bind_error put] at ran
      cases ran
    | ok result =>
      obtain ⟨⟨stored, next⟩, left⟩ := result
      rw [run_bind put] at ran
      cases ran
      -- A stored entry is passed on, and without one nothing happened.
      obtain ⟨rfl, ⟨rfl, rfl⟩ | ⟨key, block, rfl, holdsNext⟩⟩ := putLocally_ran holds put
      · exact ⟨rfl, .inl ⟨rfl, holds⟩⟩
      · exact ⟨rfl, .inr ⟨.put key block, rfl, trivial, holdsNext⟩⟩
  · -- A removal needs a key.
    rw [if_neg isPut] at ran
    cases named : msg.key with
    | none =>
      simp only [named] at ran
      cases ran
      exact ⟨rfl, .inl ⟨rfl, holds⟩⟩
    | some key =>
      simp only [named] at ran
      cases del : delLocally key table [] with
      | error fault =>
        rw [run_bind_error del] at ran
        cases ran
      | ok result =>
        obtain ⟨⟨removed, next⟩, left⟩ := result
        rw [run_bind del] at ran
        cases ran
        obtain ⟨rfl, rfl, holdsNext⟩ := delLocally_ran holds del
        -- Only a key that was stored is passed on.
        by_cases absent : contents.lookup key = none
        · refine ⟨rfl, .inl ⟨by simp [absent], ?_⟩⟩
          rwa [contents_erase_absent absent] at holdsNext
        · exact ⟨rfl, .inr ⟨.del key, by simp [absent, Update.forward], absent, holdsNext⟩⟩

/-- The request for an update that ran applied that update, and passes it on where it applies. -/
theorem updateLocally_request_ran (holds : table.Holds contents) {update : Update}
    {passed : Option Forward} {after : Table}
    (ran : updateLocally update.request table [] = .ok ((passed, after), mem)) :
    mem = [] ∧ passed = (if update.Applies contents then some update.forward else none) ∧
      after.Holds (update.apply contents) := by
  -- The request is well formed, so that it is refused for the contents of the table only.
  cases update with
  | put key block =>
    have isPut : (Update.put key block).request.opcode = opPut := rfl
    unfold updateLocally at ran
    rw [if_pos isPut] at ran
    cases put : tablePut table (some key) (some (.ofBlock block)) [] with
    | error fault =>
      -- A put of the block that faulted makes the request for it fault.
      have faulted : putLocally (Update.put key block).request table [] = .error fault :=
        putLocally_request_error rfl (contents_ofBlock block) put
      rw [run_bind_error faulted] at ran
      cases ran
    | ok result =>
      obtain ⟨⟨code, next⟩, left⟩ := result
      obtain ⟨rfl, rfl, holdsNext⟩ := holds.put_ran (contents_ofBlock block) put
      have stored : putLocally (Update.put key block).request table [] =
          .ok ((some (some (.ofPair (key, block))), next), []) :=
        putLocally_request rfl (contents_ofBlock block) put
      rw [run_bind stored] at ran
      cases ran
      exact ⟨rfl, rfl, holdsNext⟩
  | del key =>
    unfold updateLocally at ran
    rw [if_neg (Update.del_opcode key)] at ran
    cases del : delLocally key table [] with
    | error fault =>
      simp only [Update.request, delRequest] at ran
      rw [run_bind_error del] at ran
      cases ran
    | ok result =>
      obtain ⟨⟨removed, next⟩, left⟩ := result
      simp only [Update.request, delRequest] at ran
      rw [run_bind del] at ran
      cases ran
      obtain ⟨rfl, rfl, holdsNext⟩ := delLocally_ran holds del
      -- The key is passed on exactly where it was stored.
      refine ⟨rfl, ?_, holdsNext⟩
      by_cases absent : contents.lookup key = none <;> simp [absent, Update.Applies, Update.forward]

/-- The request for an update runs on every table whose rows the key hashes to. -/
theorem updateLocally_request (holds : table.Holds contents) {update : Update}
    (inside : table.Inside update.key) :
    ∃ after : Table, after.Holds (update.apply contents) ∧ after.rows = table.rows ∧
      updateLocally update.request table [] =
        .ok ((if update.Applies contents then some update.forward else none, after), []) := by
  -- With a row for the key, a put and a removal go through.
  cases update with
  | put key block =>
    obtain ⟨after, holdsAfter, sameRows, attempts⟩ := holds.put (contents_ofBlock block) inside
    refine ⟨after, holdsAfter, sameRows, ?_⟩
    have stored : putLocally (Update.put key block).request table [] =
        .ok ((some (some (.ofPair (key, block))), after), []) :=
      putLocally_request rfl (contents_ofBlock block) attempts.succeeds
    have isPut : (Update.put key block).request.opcode = opPut := rfl
    unfold updateLocally
    rw [if_pos isPut, run_bind stored]
    rfl
  | del key =>
    obtain ⟨after, holdsAfter, sameRows, removed⟩ := holds.remove inside
    refine ⟨after, holdsAfter, sameRows, ?_⟩
    have took : tableRemove table (some key) [] = _ := congrFun removed []
    unfold updateLocally delLocally
    rw [if_neg (Update.del_opcode key)]
    simp only [Update.request, delRequest, bind_assoc]
    rw [run_bind took]
    -- The removal answers 1 for a key that is not stored, and 0 for one that is.
    by_cases absent : contents.lookup key = none
    · simp [absent, Update.Applies, Update.key, run_pure]
    · simp [absent, Update.Applies, Update.key, Update.forward, run_pure]

/-- What an update does under the lock with memory given, unless that is undefined behaviour. -/
def applyTo (table : Table) (msg : MessageT) : Option (Option Forward × Table) :=
  match updateLocally msg table [] with
  | .ok (result, _) => some result
  | .error _ => none

/-- What was applied was run under the lock. -/
theorem applyTo_cases {msg : MessageT} {passed : Option Forward} {after : Table}
    (applied : applyTo table msg = some (passed, after)) :
    ∃ mem, updateLocally msg table [] = .ok ((passed, after), mem) := by
  -- Only a run that did not fault gives a result.
  unfold applyTo at applied
  cases ran : updateLocally msg table [] with
  | error fault =>
    rw [ran] at applied
    cases applied
  | ok result =>
    obtain ⟨result, mem⟩ := result
    rw [ran] at applied
    cases applied
    exact ⟨mem, rfl⟩

end ChainTable
