import ChainTable.Server.Update

/-! What one server does with a request: updates, and the questions that leave its table alone. -/

namespace ChainTable

variable {σ : Type} {state state' : σ} {mem mem' mem'' : Mem}

/-- Reading the clock leaves the table alone. -/
@[simp] theorem gettimeofday_table (server : Server) :
    server.gettimeofday.2.table = server.table := by
  -- Only the readings are touched.
  unfold Server.gettimeofday
  split <;> rfl

/-- Counting an operation leaves the table alone. -/
@[simp] theorem finish_table (server : Server) (startTime : Timeval) :
    (server.finish startTime).table = server.table :=
  gettimeofday_table server

/-- A server after an operation that changed nothing but the clock and the counters. -/
def Server.counted (server : Server) : Server :=
  server.gettimeofday.2.finish server.gettimeofday.1

/-- An operation that changed nothing but the clock and the counters left the table alone. -/
@[simp] theorem counted_table (server : Server) : server.counted.table = server.table :=
  (finish_table _ _).trans (gettimeofday_table server)

section Dispatch

variable {nextServer : Option (Successor σ)} {msg : MessageT} {server : Server}

/-- A request for a put is handled as one. -/
theorem invoke_opPut (isPut : msg.opcode = opPut) :
    invoke nextServer (some msg) server = invokePut nextServer msg server := by
  -- It is the first code that is tested for.
  rw [invoke, if_pos isPut]

/-- A request for a lookup is handled as one. -/
theorem invoke_opGet (isGet : msg.opcode = opGet) :
    invoke nextServer (some msg) server = invokeGet msg server := by
  -- The codes tested for before it are different.
  have notPut : ¬ opGet = opPut := by decide
  rw [invoke, isGet, if_neg notPut, if_pos rfl]

/-- A request for a deletion is handled as one. -/
theorem invoke_opDel (isDel : msg.opcode = opDel) :
    invoke nextServer (some msg) server = invokeDel nextServer msg server := by
  -- The codes tested for before it are different.
  have notPut : ¬ opDel = opPut := by decide
  have notGet : ¬ opDel = opGet := by decide
  rw [invoke, isDel, if_neg notPut, if_neg notGet, if_pos rfl]

/-- A question for the size is handled as one. -/
theorem invoke_opSize (isSize : msg.opcode = opSize) :
    invoke nextServer (some msg) server = invokeSize msg server := by
  -- The codes tested for before it are different.
  have notPut : ¬ opSize = opPut := by decide
  have notGet : ¬ opSize = opGet := by decide
  have notDel : ¬ opSize = opDel := by decide
  rw [invoke, isSize, if_neg notPut, if_neg notGet, if_neg notDel, if_pos rfl]

/-- A question for the keys is handled as one. -/
theorem invoke_opGetKeys (isGetKeys : msg.opcode = opGetKeys) :
    invoke nextServer (some msg) server = invokeGetKeys msg server := by
  -- The codes tested for before it are different.
  have notPut : ¬ opGetKeys = opPut := by decide
  have notGet : ¬ opGetKeys = opGet := by decide
  have notDel : ¬ opGetKeys = opDel := by decide
  have notSize : ¬ opGetKeys = opSize := by decide
  rw [invoke, isGetKeys, if_neg notPut, if_neg notGet, if_neg notDel, if_neg notSize, if_pos rfl]

/-- A question for the table is handled as one. -/
theorem invoke_opGetTable (isGetTable : msg.opcode = opGetTable) :
    invoke nextServer (some msg) server = invokeGetTable msg server := by
  -- The codes tested for before it are different.
  have notPut : ¬ opGetTable = opPut := by decide
  have notGet : ¬ opGetTable = opGet := by decide
  have notDel : ¬ opGetTable = opDel := by decide
  have notSize : ¬ opGetTable = opSize := by decide
  have notGetKeys : ¬ opGetTable = opGetKeys := by decide
  rw [invoke, isGetTable, if_neg notPut, if_neg notGet, if_neg notDel, if_neg notSize,
    if_neg notGetKeys, if_pos rfl]

/-- A question for the statistics is handled as one. -/
theorem invoke_opStats (isStats : msg.opcode = opStats) :
    invoke nextServer (some msg) server = invokeStats msg server := by
  -- The codes tested for before it are different.
  have notPut : ¬ opStats = opPut := by decide
  have notGet : ¬ opStats = opGet := by decide
  have notDel : ¬ opStats = opDel := by decide
  have notSize : ¬ opStats = opSize := by decide
  have notGetKeys : ¬ opStats = opGetKeys := by decide
  have notGetTable : ¬ opStats = opGetTable := by decide
  rw [invoke, isStats, if_neg notPut, if_neg notGet, if_neg notDel, if_neg notSize,
    if_neg notGetKeys, if_neg notGetTable, if_pos rfl]

/-- A request of the table, timed and counted, as opposed to one about the server. -/
def MessageT.OnTable (msg : MessageT) : Prop :=
  msg.opcode = opPut ∨ msg.opcode = opGet ∨ msg.opcode = opDel ∨ msg.opcode = opSize ∨
    msg.opcode = opGetKeys ∨ msg.opcode = opGetTable

instance (msg : MessageT) : Decidable msg.OnTable :=
  inferInstanceAs (Decidable (_ ∨ _))

/-- Any other request is refused. -/
theorem invoke_other (other : ¬ msg.OnTable) (notStats : msg.opcode ≠ opStats) :
    invoke nextServer (some msg) server = pure (-1, errorReply msg, server) := by
  -- No code that is tested for is the one of this request.
  simp only [MessageT.OnTable, not_or] at other
  obtain ⟨notPut, notGet, notDel, notSize, notGetKeys, notGetTable⟩ := other
  rw [invoke, if_neg notPut, if_neg notGet, if_neg notDel, if_neg notSize, if_neg notGetKeys,
    if_neg notGetTable, if_neg notStats]

end Dispatch

/-- The reply to an update that was applied. -/
def updateReply (msg : MessageT) : MessageT :=
  { msg with opcode := msg.opcode + 1, cType := ctNone }

/-- A put under the lock is what `putLocally` does. -/
theorem updateLocally_put {msg : MessageT} (isPut : msg.opcode = opPut) {table after : Table}
    {passed : Option Forward} (ran : updateLocally msg table mem = .ok ((passed, after), mem')) :
    ∃ stored, putLocally msg table mem = .ok ((stored, after), mem') ∧
      passed = stored.map .put := by
  -- What is stored is wrapped as what is passed on.
  unfold updateLocally at ran
  rw [if_pos isPut] at ran
  cases put : putLocally msg table mem with
  | error fault =>
    rw [run_bind_error put] at ran
    cases ran
  | ok result =>
    rw [run_bind put] at ran
    cases ran
    exact ⟨_, rfl, rfl⟩

/-- A deletion under the lock needs a key, and is then what `delLocally` does. -/
theorem updateLocally_del {msg : MessageT} (isDel : msg.opcode = opDel) {table after : Table}
    {passed : Option Forward} (ran : updateLocally msg table mem = .ok ((passed, after), mem')) :
    (msg.key = none ∧ passed = none ∧ after = table ∧ mem' = mem) ∨
      ∃ key removed, msg.key = some key ∧
        delLocally key table mem = .ok ((removed, after), mem') ∧
        passed = if removed then some (.del key) else none := by
  -- Without a key nothing happens, and otherwise the removal decides what is passed on.
  have notPut : msg.opcode ≠ opPut := by rw [isDel]; decide
  unfold updateLocally at ran
  rw [if_neg notPut] at ran
  cases named : msg.key with
  | none =>
    simp only [named] at ran
    cases ran
    exact .inl ⟨rfl, rfl, rfl, rfl⟩
  | some key =>
    simp only [named] at ran
    cases del : delLocally key table mem with
    | error fault =>
      rw [run_bind_error del] at ran
      cases ran
    | ok result =>
      rw [run_bind del] at ran
      cases ran
      exact .inr ⟨key, _, rfl, del, rfl⟩

/-- An update that fails under the lock is answered with an error, and passed on to nobody. -/
theorem invoke_refused {nextServer : Option (Successor σ)} {msg : MessageT} {server : Server}
    {after : Table} (isUpdate : msg.opcode = opPut ∨ msg.opcode = opDel)
    (ran : updateLocally msg server.table mem = .ok ((none, after), mem')) :
    ∃ served : Server, served.table = after ∧
      invoke nextServer (some msg) server state mem =
        .ok (((-1, errorReply msg, served), state), mem') := by
  -- Both handlers read the clock, run the part under the lock, and count the operation.
  have sameTable := gettimeofday_table server
  rcases isUpdate with isPut | isDel
  · -- A put fails when nothing could be stored.
    obtain ⟨stored, put, missing⟩ := updateLocally_put isPut ran
    obtain rfl := Option.map_eq_none_iff.mp missing.symm
    rw [invoke_opPut isPut]
    simp only [invokePut, sameTable]
    rw [runOver_bind (runOver_lift put)]
    exact ⟨_, finish_table _ _, rfl⟩
  · rw [invoke_opDel isDel]
    simp only [invokeDel, sameTable]
    -- A deletion fails without a key, or when the key is not stored.
    obtain ⟨named, -, rfl, rfl⟩ | ⟨key, removed, named, del, missing⟩ := updateLocally_del isDel ran
    · simp only [named]
      exact ⟨_, sameTable, rfl⟩
    · have notRemoved : removed = false := by
        cases removed with
        | false => rfl
        | true => cases missing
      subst notRemoved
      simp only [named]
      rw [runOver_bind (runOver_lift del)]
      exact ⟨_, finish_table _ _, rfl⟩

/-- An update applied under the lock is passed on next, and then answered with success. -/
theorem invoke_forwards {nextServer : Option (Successor σ)} {msg : MessageT} {server : Server}
    {after : Table} {forward : Forward}
    (isUpdate : msg.opcode = opPut ∨ msg.opcode = opDel)
    (ran : updateLocally msg server.table mem = .ok ((some forward, after), mem')) :
    ∃ served : Server, served.table = after ∧
      invoke nextServer (some msg) server state mem =
        (sendDown nextServer forward >>= fun _ => pure (0, updateReply msg, served))
          state mem' := by
  -- Both handlers read the clock, run the part under the lock, and then pass the update on.
  have sameTable := gettimeofday_table server
  unfold updateReply
  rcases isUpdate with isPut | isDel
  · -- The pair stored is the one passed on.
    obtain ⟨stored, put, passed⟩ := updateLocally_put isPut ran
    obtain ⟨entry, rfl, rfl⟩ := Option.map_eq_some_iff.mp passed.symm
    rw [invoke_opPut isPut]
    simp only [invokePut, sameTable, isPut]
    rw [runOver_bind (runOver_lift put)]
    exact ⟨_, finish_table _ _, rfl⟩
  · rw [invoke_opDel isDel]
    simp only [invokeDel, sameTable]
    -- Something is passed on, so there was a key, and it was removed.
    obtain ⟨-, missing, -, -⟩ | ⟨key, removed, named, del, passed⟩ := updateLocally_del isDel ran
    · cases missing
    · cases removed with
      | false => cases passed
      | true =>
        cases passed
        simp only [named, isDel]
        rw [runOver_bind (runOver_lift del)]
        exact ⟨_, finish_table _ _, rfl⟩

/--
An update applied under the lock is passed on, and answered with success.

Nothing of how the passing on went is left in the answer.
-/
theorem invoke_passed {nextServer : Option (Successor σ)} {msg : MessageT} {server : Server}
    {after : Table} {forward : Forward} (isUpdate : msg.opcode = opPut ∨ msg.opcode = opDel)
    (ran : updateLocally msg server.table mem = .ok ((some forward, after), mem'))
    (sent : sendDown nextServer forward state mem' = .ok (((), state'), mem'')) :
    ∃ served : Server, served.table = after ∧
      invoke nextServer (some msg) server state mem =
        .ok (((0, updateReply msg, served), state'), mem'') := by
  -- The passing on ended, so the answer follows.
  obtain ⟨served, same, invoked⟩ := invoke_forwards isUpdate ran
  refine ⟨served, same, ?_⟩
  rw [invoked, runOver_bind sent]
  rfl

section Questions

variable {server : Server} {contents : Contents} {nextServer : Option (Successor σ)}
  {msg : MessageT}

/-- What a GET replies when its key is looked up to this. -/
def getAnswer (msg : MessageT) : Option Block → MessageT
  | none => errorReply msg
  | some block => { msg with opcode := opGet + 1, cType := ctValue,
                             value := ⟨block.val.length, some block.val⟩ }

/-- The block that the map finds is what a GET answers with. -/
theorem invoke_getAnswer (holds : server.table.Holds contents) {key : Key}
    (inside : server.table.Inside key) (isGet : msg.opcode = opGet) (named : msg.key = some key) :
    ∃ code : Int, invoke nextServer (some msg) server state [] =
      .ok (((code, getAnswer msg (contents.lookup key), server.counted), state), []) := by
  -- The lookup answers as the map does, and its answer becomes the reply.
  have sameTable := gettimeofday_table server
  have found := holds.get inside
  rw [invoke_opGet isGet]
  simp only [invokeGet, named, sameTable]
  rw [runOver_bind (runOver_lift found)]
  cases contents.lookup key with
  | none => exact ⟨-1, rfl⟩
  | some block =>
    -- The length of the block is what its size becomes as `size_t`.
    refine ⟨0, ?_⟩
    simp only [Option.map_some, Data.ofBlock, sizeT_natCast, getAnswer, named]
    rfl

/-- A GET is answered with the block of its key, or with an error. -/
theorem invoke_get (holds : server.table.Holds contents) {key : Key}
    (inside : server.table.Inside key) (isGet : msg.opcode = opGet) (named : msg.key = some key) :
    ∃ (served : Server) (code : Int) (reply : MessageT), served.table = server.table ∧
      invoke nextServer (some msg) server state [] = .ok (((code, reply, served), state), []) ∧
      match contents.lookup key with
      | none => reply.opcode = opError
      | some block =>
        reply.opcode = opGet + 1 ∧ reply.value = ⟨block.val.length, some block.val⟩ := by
  -- The answer to the lookup tells whether there is a block.
  obtain ⟨code, invoked⟩ := invoke_getAnswer holds inside isGet named
  refine ⟨server.counted, code, _, counted_table server, invoked, ?_⟩
  cases contents.lookup key with
  | none => rfl
  | some block => exact ⟨rfl, rfl⟩

/-- What a SIZE replies when this is the number of keys. -/
def sizeAnswer (msg : MessageT) (size : Int) : MessageT :=
  { msg with opcode := opSize + 1, cType := ctResult, result := size }

/-- The number of keys of the map is what a SIZE answers with. -/
theorem invoke_sizeAnswer (holds : server.table.Holds contents) (isSize : msg.opcode = opSize) :
    invoke nextServer (some msg) server state [] =
      .ok (((0, sizeAnswer msg contents.keys.card, server.counted), state), []) := by
  -- The counter of the table is the number of keys.
  have sameTable := gettimeofday_table server
  -- A number of keys is never the -1 that stands for an error.
  have notError : ¬ ((contents.keys.card : Int) = -1) := by omega
  rw [invoke_opSize isSize]
  simp only [invokeSize, sameTable, holds.size, if_neg notError]
  rfl

/-- A SIZE is answered with the number of keys. -/
theorem invoke_size (holds : server.table.Holds contents) (isSize : msg.opcode = opSize) :
    ∃ (served : Server) (reply : MessageT), served.table = server.table ∧
      invoke nextServer (some msg) server state [] = .ok (((0, reply, served), state), []) ∧
      reply.opcode = opSize + 1 ∧ reply.result = contents.keys.card :=
  ⟨server.counted, _, counted_table server, invoke_sizeAnswer holds isSize, rfl, rfl⟩

/-- What a GETKEYS returns and replies when these are the keys of the table, in this order. -/
def keysAnswer (msg : MessageT) (keys : List Key) : Int × MessageT :=
  if keys = [] then (-1, errorReply msg)
  else (0, { msg with opcode := opGetKeys + 1, cType := ctKeys, nKeys := keys.length,
                      keys := some (keys.map some ++ [none]) })

/-- The keys that the table lists are what a GETKEYS answers with. -/
theorem invoke_getKeys_listed {keys : List Key} (isGetKeys : msg.opcode = opGetKeys)
    (listed : tableGetKeys server.table [] =
      .ok (if keys = [] then none else some (keys.map some ++ [none]), []))
    (counted : tableSize server.table = keys.length) :
    invoke nextServer (some msg) server state [] =
      .ok ((((keysAnswer msg keys).1, (keysAnswer msg keys).2, server.counted), state), []) := by
  -- No keys are told by NULL, and a number of keys is never the -1 of an error.
  have sameTable := gettimeofday_table server
  have notError : ¬ ((keys.length : Int) = -1) := by omega
  rw [invoke_opGetKeys isGetKeys]
  simp only [invokeGetKeys, sameTable]
  rw [runOver_bind (runOver_lift listed)]
  simp only [counted, keysAnswer]
  by_cases empty : keys = []
  · simp only [empty, if_true, Option.isNone_none, true_or]
    rfl
  · simp only [empty, if_false, Option.isNone_some, Bool.false_eq_true, notError, or_self,
      sizeT_natCast]
    rfl

/-- A message that replies to a GETKEYS as the map has it. -/
def KeysReply (contents : Contents) (reply : MessageT) : Prop :=
  ∃ keys : List Key, keys.Nodup ∧ (∀ key, key ∈ keys ↔ key ∈ contents) ∧
    if keys = [] then reply.opcode = opError
    else reply.opcode = opGetKeys + 1 ∧ reply.nKeys = keys.length ∧
      reply.keys = some (keys.map some ++ [none])

/-- The keys of the map, each once, are what a GETKEYS answers with. -/
theorem invoke_keysAnswer (holds : server.table.Holds contents)
    (isGetKeys : msg.opcode = opGetKeys) :
    ∃ keys : List Key, keys.Nodup ∧ (∀ key, key ∈ keys ↔ key ∈ contents) ∧
      invoke nextServer (some msg) server state [] =
        .ok ((((keysAnswer msg keys).1, (keysAnswer msg keys).2, server.counted), state), []) := by
  -- The keys are listed as the map has them, or NULL stands for an empty map.
  obtain ⟨keys, nodup, members, listed⟩ := holds.getKeys
  -- The keys are as many as the counter says, since each is listed once.
  have counted : (contents.keys.card : Int) = keys.length := by
    rw [← List.toFinset_card_of_nodup nodup]
    congr 2
    ext key
    rw [List.mem_toFinset, Finmap.mem_keys, members]
  exact ⟨keys, nodup, members,
    invoke_getKeys_listed isGetKeys listed (by rw [holds.size, counted])⟩

/-- A GETKEYS is answered with every key once, or with an error when there is none. -/
theorem invoke_getKeys (holds : server.table.Holds contents) (isGetKeys : msg.opcode = opGetKeys) :
    ∃ (served : Server) (code : Int) (reply : MessageT), served.table = server.table ∧
      invoke nextServer (some msg) server state [] = .ok (((code, reply, served), state), []) ∧
      KeysReply contents reply := by
  -- The answer is an error for an empty table, and lists the keys otherwise.
  obtain ⟨keys, nodup, members, invoked⟩ := invoke_keysAnswer holds isGetKeys
  refine ⟨server.counted, _, _, counted_table server, invoked, keys, nodup, members, ?_⟩
  by_cases empty : keys = []
  · rw [if_pos empty, keysAnswer, if_pos empty]
    rfl
  · rw [if_neg empty, keysAnswer, if_neg empty]
    exact ⟨rfl, rfl, rfl⟩

/-- An entry of a pair is copied into the reply as it is. -/
theorem entryToMessage_ofPair (pair : Key × Block) :
    entryToMessage (.ofPair pair) [] =
      .ok ({ key := some pair.1, value := ⟨pair.2.val.length, some pair.2.val⟩ }, []) := by
  -- Three blocks are allocated, and the bytes copied are all of those of the block.
  simp only [entryToMessage, Entry.ofPair]
  rw [run_bind mallocUnchecked_nil, run_bind mallocUnchecked_nil, run_bind mallocUnchecked_nil]
  simp [Data.ofBlock, run_pure]

/-- The pairs of a table as they lie in the reply to a GETTABLE. -/
def sentEntries (pairs : List (Key × Block)) : List (Option EntryT) :=
  pairs.map fun pair =>
    some { key := some pair.1, value := ⟨pair.2.val.length, some pair.2.val⟩ }

/-- The entries of pairs are copied into the reply in order, followed by NULL. -/
theorem entriesToMessage_ofPairs (pairs : List (Key × Block)) :
    entriesToMessage (pairs.map Entry.ofPair) [] = .ok (sentEntries pairs ++ [none], []) := by
  -- The loop copies the entries one after another.
  induction pairs with
  | nil => rfl
  | cons pair rest ih =>
    simp only [List.map_cons, entriesToMessage]
    rw [run_bind (entryToMessage_ofPair pair), run_bind ih]
    rfl

/-- What a GETTABLE returns and replies when these are the pairs of the table, in this order. -/
def entriesAnswer (msg : MessageT) (pairs : List (Key × Block)) : Int × MessageT :=
  if pairs = [] then (-1, errorReply msg)
  else (0, { msg with opcode := opGetTable + 1, cType := ctTable, nEntries := pairs.length,
                      entries := some (sentEntries pairs ++ [none]) })

/-- The entries that the table lists are what a GETTABLE answers with. -/
theorem invoke_getTable_listed {pairs : List (Key × Block)} (isGetTable : msg.opcode = opGetTable)
    (listed : getAllEntries server.table [] =
      .ok (if pairs = [] then none else some (pairs.map Entry.ofPair, pairs.length), [])) :
    invoke nextServer (some msg) server state [] =
      .ok ((((entriesAnswer msg pairs).1, (entriesAnswer msg pairs).2, server.counted), state),
        []) := by
  -- No entries are told by NULL, and others are copied into the reply.
  have sameTable := gettimeofday_table server
  rw [invoke_opGetTable isGetTable]
  simp only [invokeGetTable, sameTable]
  rw [runOver_bind (runOver_lift listed)]
  simp only [entriesAnswer]
  by_cases empty : pairs = []
  · simp only [empty, if_true]
    rfl
  · simp only [if_neg empty]
    rw [runOver_bind (runOver_lift mallocUnchecked_nil),
      runOver_bind (runOver_lift (entriesToMessage_ofPairs pairs))]
    rfl

/-- A message that replies to a GETTABLE as the map has it. -/
def EntriesReply (contents : Contents) (reply : MessageT) : Prop :=
  ∃ pairs : List (Key × Block), (pairs.map Prod.fst).Nodup ∧
    (∀ key block, (key, block) ∈ pairs ↔ contents.lookup key = some block) ∧
    if pairs = [] then reply.opcode = opError
    else reply.opcode = opGetTable + 1 ∧ reply.nEntries = pairs.length ∧
      reply.entries = some (sentEntries pairs ++ [none])

/-- The pairs of the map, each once, are what a GETTABLE answers with. -/
theorem invoke_entriesAnswer (holds : server.table.Holds contents)
    (isGetTable : msg.opcode = opGetTable) :
    ∃ pairs : List (Key × Block), (pairs.map Prod.fst).Nodup ∧
      (∀ key block, (key, block) ∈ pairs ↔ contents.lookup key = some block) ∧
      invoke nextServer (some msg) server state [] =
        .ok ((((entriesAnswer msg pairs).1, (entriesAnswer msg pairs).2, server.counted), state),
          []) := by
  -- The entries are listed as the map has them, or NULL stands for an empty map.
  obtain ⟨pairs, nodup, members, listed⟩ := holds.allEntries
  exact ⟨pairs, nodup, members, invoke_getTable_listed isGetTable listed⟩

/-- A GETTABLE is answered with every pair once, or with an error when there is none. -/
theorem invoke_getTable (holds : server.table.Holds contents)
    (isGetTable : msg.opcode = opGetTable) :
    ∃ (served : Server) (code : Int) (reply : MessageT), served.table = server.table ∧
      invoke nextServer (some msg) server state [] = .ok (((code, reply, served), state), []) ∧
      EntriesReply contents reply := by
  -- The answer is an error for an empty table, and lists the pairs otherwise.
  obtain ⟨pairs, nodup, members, invoked⟩ := invoke_entriesAnswer holds isGetTable
  refine ⟨server.counted, _, _, counted_table server, invoked, pairs, nodup, members, ?_⟩
  by_cases empty : pairs = []
  · rw [if_pos empty, entriesAnswer, if_pos empty]
    rfl
  · rw [if_neg empty, entriesAnswer, if_neg empty]
    exact ⟨rfl, rfl, rfl⟩

end Questions

end ChainTable
