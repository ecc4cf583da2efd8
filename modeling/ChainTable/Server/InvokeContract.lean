import ChainTable.Server.InvokeLaws
import ChainTable.Local.TableHistory

/-! What `invoke` promises: its code, its reply and the table fit each other at every exit. -/

namespace ChainTable

variable {σ : Type} {rows : Nat}

/-- The key a request is about, if it names one. -/
def MessageT.subject (msg : MessageT) : Option Key :=
  if msg.opcode = opPut then msg.entry.bind EntryT.key
  else if msg.opcode = opGet ∨ msg.opcode = opDel then msg.key
  else none

/-- The bytes of the entry are as many as its length says, as for any message in memory. -/
def MessageT.Readable (msg : MessageT) : Prop :=
  ∀ entry ∈ msg.entry, ∀ bytes ∈ entry.value.data, entry.value.len ≤ bytes.length

/-- Every attempt to pass an update on ends, with whatever result. -/
def Successor.Ends (successor : Successor σ) : Prop :=
  ∀ (forward : Forward) (state : σ), ∃ (result : Int) (state' : σ),
    successor forward state [] = .ok ((result, state'), [])

/-- A code, a reply and a table that fit each other and the request. -/
inductive Exit (rows : Nat) (msg : MessageT) (table : Table) : Int → MessageT → Table → Prop
  /-- An error is told by the code and by the reply, and changes nothing. -/
  | failed {reply : MessageT} (error : reply.opcode = opError) (empty : reply.cType = ctNone) :
    Exit rows msg table (-1) reply table
  /-- A question is answered under the next code, and changes nothing. -/
  | answered {reply : MessageT} (notPut : msg.opcode ≠ opPut) (notDel : msg.opcode ≠ opDel)
    (next : reply.opcode = msg.opcode + 1) : Exit rows msg table 0 reply table
  /-- An update is answered under the next code, and changes what its key leads to, if anything. -/
  | updated {reply : MessageT} {after : Table} {key : Key}
    (isUpdate : msg.opcode = opPut ∨ msg.opcode = opDel) (named : msg.subject = some key)
    (next : reply.opcode = msg.opcode + 1) (sameRows : after.rows = table.rows)
    (others : ∀ other, other ≠ key → HashesInside rows other →
      tableGet after (some other) [] = tableGet table (some other) []) :
    Exit rows msg table 0 reply after

/-- A loop of attempts that end ends too. -/
theorem retryLoop_ends {attempt : StateT σ C Int}
    (ends : ∀ state, ∃ (result : Int) (state' : σ), attempt state [] = .ok ((result, state'), []))
    (retriesLeft : Nat) (state : σ) :
    ∃ (result : Int) (state' : σ),
      retryLoop attempt retriesLeft state [] = .ok ((result, state'), []) := by
  -- A failed attempt leaves one retry less, and any other ends the loop.
  induction retriesLeft generalizing state with
  | zero => exact ⟨-1, state, rfl⟩
  | succ retriesLeft ih =>
    obtain ⟨result, state', ran⟩ := ends state
    simp only [retryLoop]
    rw [runOver_bind ran]
    by_cases failed : result = -1
    · simpa only [if_pos failed] using ih state'
    · simp only [if_neg failed]
      exact ⟨result, state', rfl⟩

/-- Passing an update on ends, whether there is a successor or not. -/
theorem sendDown_ends {nextServer : Option (Successor σ)}
    (ends : ∀ successor ∈ nextServer, successor.Ends) (forward : Forward) (state : σ) :
    ∃ state', sendDown nextServer forward state [] = .ok (((), state'), []) := by
  -- The loop over the successor ends after as many rounds as there are retries.
  cases nextServer with
  | none => exact ⟨state, rfl⟩
  | some successor =>
    obtain ⟨result, state', ran⟩ := retryLoop_ends (ends successor rfl forward) maxRetries state
    refine ⟨state', ?_⟩
    simp only [sendDown]
    rw [runOver_bind ran]
    rfl

/-- A put under the lock refuses what it is asked for, or stores a block under the key it names. -/
theorem putLocally_store (store : Store rows) {msg : MessageT} (isPut : msg.opcode = opPut)
    (inside : ∀ key ∈ msg.subject, HashesInside rows key) (readable : msg.Readable) :
    putLocally msg (.ofStore store) [] = .ok ((none, .ofStore store), []) ∨
      ∃ key block, ∃ inRange : HashesInside rows key, msg.subject = some key ∧
        putLocally msg (.ofStore store) [] =
          .ok ((some (some (.ofPair (key, block))), .ofStore (store.insert key block inRange)),
            []) := by
  -- Without an entry, a key or a value the request is refused at once.
  rw [MessageT.subject, if_pos isPut] at inside ⊢
  cases sent : msg.entry with
  | none => exact .inl (by simp only [putLocally, sent]; rfl)
  | some entry =>
    cases named : entry.key with
    | none => exact .inl (by simp only [putLocally, sent, named]; rfl)
    | some key =>
      cases held : entry.value.data with
      | none => exact .inl (by simp only [putLocally, sent, named, held]; rfl)
      | some bytes =>
        have inRange := inside key (by rw [sent]; exact named)
        by_cases positive : 0 < int32 entry.value.len
        · -- As many bytes are there as the length says, so a block of them is stored.
          have fits : int32 entry.value.len ≤ bytes.length := by
            have bound := readable entry sent bytes held
            have shrinks := int32_natCast_le entry.value.len
            omega
          obtain ⟨block, -, created⟩ := dataCreate_block positive fits
          have put := tablePut_attempts store (contents_ofBlock block) inRange
          exact .inr ⟨key, block, inRange, named,
            putLocally_stored sent named held created.succeeds put.succeeds⟩
        · -- No data is created for a length that is not positive, and the put refuses NULL.
          have none : dataCreate entry.value.len (some bytes) [] = .ok (none, []) := by
            simp only [dataCreate, if_pos (show int32 entry.value.len ≤ 0 by omega)]
            rfl
          refine .inl ?_
          simp only [putLocally, sent, named, held]
          rw [run_bind none, tablePut_refused _ (.inr rfl)]
          rfl

/-- An update under the lock changes nothing, or what is stored under the key it names. -/
theorem updateLocally_store (store : Store rows) {msg : MessageT}
    (isUpdate : msg.opcode = opPut ∨ msg.opcode = opDel)
    (inside : ∀ key ∈ msg.subject, HashesInside rows key) (readable : msg.Readable) :
    updateLocally msg (.ofStore store) [] = .ok ((none, .ofStore store), []) ∨
      ∃ (key : Key) (forward : Forward) (next : Store rows), msg.subject = some key ∧
        (∀ other, other ≠ key → next.lookup other = store.lookup other) ∧
        updateLocally msg (.ofStore store) [] = .ok ((some forward, .ofStore next), []) := by
  -- A put is refused, or stores the block that came with the request.
  rcases isUpdate with isPut | isDel
  · unfold updateLocally
    rw [if_pos isPut]
    rcases putLocally_store store isPut inside readable with
      refused | ⟨key, block, inRange, named, stored⟩
    · exact .inl (by rw [run_bind refused]; rfl)
    · refine .inr ⟨key, _, _, named, fun other differs => ?_, by rw [run_bind stored]; rfl⟩
      rw [Buckets.lookup_insert, if_neg differs]
  · -- A deletion needs a key, and then a pair to remove.
    have notPut : msg.opcode ≠ opPut := by rw [isDel]; decide
    rw [MessageT.subject, if_neg notPut, if_pos (.inr isDel)] at inside ⊢
    unfold updateLocally
    rw [if_neg notPut]
    cases named : msg.key with
    | none => exact .inl rfl
    | some key =>
      have inRange := inside key named
      simp only [delLocally, bind_assoc, tableRemove_spec store inRange]
      split
      · exact .inl rfl
      · refine .inr ⟨key, _, _, rfl, fun other differs => ?_, rfl⟩
        rw [Buckets.lookup_erase, if_neg differs]

section Exits

variable {nextServer : Option (Successor σ)} {msg : MessageT} {server : Server}

/-- A reply of error fits any request, with the table as it was. -/
theorem Exit.error (rows : Nat) (msg : MessageT) (table : Table) :
    Exit rows msg table (-1) (errorReply msg) table :=
  .failed rfl rfl

/-- The code of a fitting exit is 0 or -1. -/
theorem Exit.code {table after : Table} {code : Int} {reply : MessageT}
    (exit : Exit rows msg table code reply after) : code = 0 ∨ code = -1 := by
  -- Only a failing exit has the code -1.
  cases exit with
  | failed => exact .inr rfl
  | answered => exact .inl rfl
  | updated => exact .inl rfl

/-- An update ends at a fitting exit. -/
theorem invoke_update_exit {store : Store rows} (same : server.table = .ofStore store)
    (isUpdate : msg.opcode = opPut ∨ msg.opcode = opDel)
    (ends : ∀ successor ∈ nextServer, successor.Ends)
    (inside : ∀ key ∈ msg.subject, HashesInside rows key) (readable : msg.Readable) (state : σ) :
    ∃ code reply served state', invoke nextServer (some msg) server state [] =
        .ok (((code, reply, served), state'), []) ∧
      Exit rows msg server.table code reply served.table := by
  -- What happens under the lock decides between an error and an update that is passed on.
  rcases updateLocally_store store isUpdate inside readable with
    refused | ⟨key, forward, next, named, others, applied⟩
  · rw [← same] at refused
    obtain ⟨served, unchanged, invoked⟩ := invoke_refused isUpdate refused
    exact ⟨_, _, served, state, invoked, by rw [unchanged]; exact .error rows msg _⟩
  · rw [← same] at applied
    obtain ⟨state', sent⟩ := sendDown_ends ends forward state
    obtain ⟨served, changed, invoked⟩ := invoke_passed isUpdate applied sent
    refine ⟨_, _, served, state', invoked, ?_⟩
    rw [changed, same]
    -- Lookups in the two tables are lookups in the two stores.
    refine .updated isUpdate named rfl rfl fun other differs inRange => ?_
    rw [tableGet_spec store inRange, tableGet_spec next inRange, others other differs]

/-- A GET ends at a fitting exit. -/
theorem invoke_get_exit {store : Store rows} (same : server.table = .ofStore store)
    (isGet : msg.opcode = opGet) (inside : ∀ key ∈ msg.subject, HashesInside rows key)
    (state : σ) :
    ∃ code reply served, invoke nextServer (some msg) server state [] =
        .ok (((code, reply, served), state), []) ∧
      Exit rows msg server.table code reply served.table := by
  -- Without a key, or without data under it, the answer is an error.
  have sameTable := gettimeofday_table server
  have notPut : msg.opcode ≠ opPut := by rw [isGet]; decide
  have notDel : msg.opcode ≠ opDel := by rw [isGet]; decide
  rw [MessageT.subject, if_neg notPut, if_pos (.inl isGet)] at inside
  rw [invoke_opGet isGet]
  cases named : msg.key with
  | none =>
    refine ⟨-1, errorReply msg, server.counted, ?_, ?_⟩
    · simp only [invokeGet, named]
      rfl
    · rw [counted_table]
      exact .error rows msg _
  | some key =>
    have found := tableGet_spec store (inside key named)
    rw [← same] at found
    simp only [invokeGet, named, sameTable]
    rw [runOver_bind (runOver_lift found)]
    cases store.lookup key with
    | none =>
      refine ⟨_, _, server.counted, rfl, ?_⟩
      rw [counted_table]
      exact .error rows msg _
    | some block =>
      refine ⟨_, _, server.counted, rfl, ?_⟩
      rw [counted_table]
      exact .answered notPut notDel (by rw [isGet])

/-- A question about the whole table ends at a fitting exit. -/
theorem invoke_question_exit {store : Store rows} (same : server.table = .ofStore store)
    (question : msg.opcode = opSize ∨ msg.opcode = opGetKeys ∨ msg.opcode = opGetTable)
    (state : σ) :
    ∃ code reply served, invoke nextServer (some msg) server state [] =
        .ok (((code, reply, served), state), []) ∧
      Exit rows msg server.table code reply served.table := by
  -- Each question is answered from what the store lists.
  have sameTable := gettimeofday_table server
  rcases question with isSize | isGetKeys | isGetTable
  · -- A number of pairs is never the -1 of an error.
    have notError : ¬ tableSize server.table = -1 := by
      rw [same, tableSize, ofStore_size]
      omega
    rw [invoke_opSize isSize]
    simp only [invokeSize, sameTable, if_neg notError]
    refine ⟨_, _, server.counted, rfl, ?_⟩
    rw [counted_table]
    exact .answered (by rw [isSize]; decide) (by rw [isSize]; decide) (by rw [isSize])
  · have keys := tableGetKeys_spec store
    simp only [Buckets.size, List.length_eq_zero_iff] at keys
    simp only [← List.map_eq_nil_iff (f := Prod.fst)] at keys
    have counted : tableSize (.ofStore store) = (store.pairs.map Prod.fst).length := by
      rw [tableSize, ofStore_size, Buckets.size, List.length_map]
    rw [← same] at keys counted
    refine ⟨_, _, server.counted, invoke_getKeys_listed isGetKeys keys counted, ?_⟩
    rw [counted_table, keysAnswer]
    split
    · exact .error rows msg _
    · exact .answered (by rw [isGetKeys]; decide) (by rw [isGetKeys]; decide) (by rw [isGetKeys])
  · have entries := getAllEntries_spec store
    simp only [Buckets.size, List.length_eq_zero_iff] at entries
    rw [← same] at entries
    refine ⟨_, _, server.counted, invoke_getTable_listed isGetTable entries, ?_⟩
    rw [counted_table, entriesAnswer]
    split
    · exact .error rows msg _
    · exact .answered (by rw [isGetTable]; decide) (by rw [isGetTable]; decide)
        (by rw [isGetTable])

/-- Every request that `invoke` is given ends at a fitting exit, however it is passed on. -/
theorem invoke_exit (reached : TableReachable rows server.table)
    (ends : ∀ successor ∈ nextServer, successor.Ends)
    (inside : ∀ key ∈ msg.subject, HashesInside rows key) (readable : msg.Readable) (state : σ) :
    ∃ code reply served state', invoke nextServer (some msg) server state [] =
        .ok (((code, reply, served), state'), []) ∧
      (code = 0 ∨ code = -1) ∧ Exit rows msg server.table code reply served.table := by
  -- The codes follow from the exits, so that only those are left to be found for each opcode.
  obtain ⟨store, same⟩ := reached.exists_store reached.positive
  suffices exit : ∃ code reply served state', invoke nextServer (some msg) server state [] =
      .ok (((code, reply, served), state'), []) ∧
      Exit rows msg server.table code reply served.table by
    obtain ⟨code, reply, served, state', invoked, fits⟩ := exit
    exact ⟨code, reply, served, state', invoked, fits.code, fits⟩
  by_cases onTable : msg.OnTable
  · rcases onTable with isPut | isGet | isDel | question
    · exact invoke_update_exit same (.inl isPut) ends inside readable state
    · obtain ⟨code, reply, served, exit⟩ := invoke_get_exit same isGet inside state
      exact ⟨code, reply, served, state, exit⟩
    · exact invoke_update_exit same (.inr isDel) ends inside readable state
    · obtain ⟨code, reply, served, exit⟩ := invoke_question_exit same question state
      exact ⟨code, reply, served, state, exit⟩
  · by_cases isStats : msg.opcode = opStats
    · rw [invoke_opStats isStats]
      exact ⟨_, _, server, state, rfl,
        .answered (by rw [isStats]; decide) (by rw [isStats]; decide) (by rw [isStats])⟩
    · rw [invoke_other onTable isStats]
      exact ⟨_, _, server, state, rfl, .error rows msg _⟩

/-- A PUT to a server whose successor refuses every attempt. -/
theorem invoke_exit_put :
    let refusing : Successor Nat := fun _ attempts => pure (-1, attempts + 1)
    let first : Key := ⟨[97], by decide⟩
    let put := putRequest (some first) (.ofBlock ⟨[1], by decide⟩)
    let server : Server := ⟨⟨0, 2, [⟨0, []⟩, ⟨0, []⟩], rfl⟩, ⟨0, 0, 0⟩, []⟩
    ∃ code reply served attempts, invoke (some refusing) (some put) server 0 [] =
        .ok (((code, reply, served), attempts), []) ∧ (code = 0 ∨ code = -1) ∧
      Exit 2 put server.table code reply served.table := by
  -- A successor that refuses everything ends as well, with its attempts counted.
  intro refusing first put server
  have created : tableCreate (2 : Nat) [] = .ok (some server.table, []) := rfl
  exact invoke_exit (.create created)
    (fun successor is forward state => by cases is; exact ⟨-1, state + 1, rfl⟩) (by decide)
    (fun entry sent bytes held => by cases sent; cases held; decide) 0

end Exits

end ChainTable
