import ChainTable.Local.RowRange
import ChainTable.Local.TableHistory
import ChainTable.Server.InvokeLaws

/-! The debug output of `get_all_entries`, which reads the bytes of every value as a string. -/

namespace ChainTable.DebugOutput

/-- The `printf` of one entry: its key and its bytes are both read up to a terminator. -/
def printEntry (entry : Entry) : C Unit := do
  match entry.key, entry.value with
  | some _, some value =>
    match value.data with
    | some bytes =>
      let _ ← cString bytes
    | none => throw .nullDereference
  | _, _ => throw .nullDereference

/-- The loop that prints the entries gathered so far. -/
def printEntries : List Entry → C Unit
  | [] => return ()
  | entry :: entries => do
    printEntry entry
    printEntries entries

/-- The loop of `get_all_entries` over the keys, with the output of every round. -/
def gatherEntries (table : Table) (entries : List Entry) :
    List (Option Key) → C (Option (List Entry))
  | [] => throw .outOfBounds
  | none :: _ => return some entries
  | some key :: allKeys => do
    match ← tableGetEntry table (some key) with
    | none => return none
    | some entry =>
      if !(← malloc) then throw (if entries.isEmpty then .nullDereference else .outOfBounds)
      printEntries (entries ++ [entry])
      gatherEntries table (entries ++ [entry]) allKeys

/-- `get_all_entries`, with its output. -/
def getAllEntries (table : Table) : C (Option (List Entry × Nat)) := do
  match ← tableGetKeys table with
  | none => return none
  | some allKeys =>
    match ← gatherEntries table [] allKeys with
    | none => return none
    | some entries => return some (entries, entries.length)

variable {σ : Type}

/-- `invoke` on OP_GETTABLE, with the output of `get_all_entries`. -/
def invokeGetTable (msg : MessageT) (server : Server) : StateT σ C (Int × MessageT × Server) := do
  let (startTime, server) := server.gettimeofday
  match ← (getAllEntries server.table : C _) with
  | none => return (-1, errorReply msg, server.finish startTime)
  | some (allEntries, numEntries) =>
    (mallocUnchecked : C _)
    let entries ← entriesToMessage allEntries
    return (0,
      { msg with opcode := opGetTable + 1, cType := ctTable,
                 entries := some entries, nEntries := numEntries },
      server.finish startTime)

/--
The code reads no value past its end: never as a string, and in no other way with memory given.

An array of entries that could not grow is used out of bounds, which is no reading of a value.
-/
def WithinValues {α : Type} (run : C α) : Prop :=
  (∀ mem, run mem ≠ .error .unterminated) ∧ run [] ≠ .error .outOfBounds

/--
Code ends with a value that is wanted, or in a fault other than an unterminated string.

When all allocations succeed, such a value is reached.
-/
structure Yields {α : Type} (run : C α) (wanted : α → Prop) : Prop where
  /-- No outcome of the allocations leads to any other value, or past the end of a string. -/
  either : ∀ mem, (∃ fault, run mem = .error fault ∧ fault ≠ .unterminated) ∨
    ∃ value mem', run mem = .ok (value, mem') ∧ wanted value
  /-- Allocations that succeed lead to a value. -/
  succeeds : ∃ value, run [] = .ok (value, []) ∧ wanted value

namespace Yields

variable {α β : Type}

/-- A value that is wanted is yielded. -/
theorem pure {value : α} {wanted : α → Prop} (holds : wanted value) :
    Yields (Pure.pure value) wanted where
  either mem := .inr ⟨value, mem, rfl, holds⟩
  succeeds := ⟨value, rfl, holds⟩

/-- An allocation is given or not. -/
theorem malloc : Yields malloc fun _ => True where
  either mem := by
    -- The script ended, or it says what becomes of this allocation.
    cases mem with
    | nil => exact .inr ⟨true, [], rfl, trivial⟩
    | cons outcome rest => exact .inr ⟨outcome, rest, rfl, trivial⟩
  succeeds := ⟨true, rfl, trivial⟩

/-- Code with one value yields that value. -/
theorem unchecked {run : C α} {value : α} (reaches : Unchecked run value) :
    Yields run (· = value) where
  either mem := by
    -- The only fault is the use of a pointer that was not given.
    obtain faulted | ⟨mem', ran⟩ := reaches.either mem
    · exact .inl ⟨_, faulted, nofun⟩
    · exact .inr ⟨value, mem', ran, rfl⟩
  succeeds := ⟨value, reaches.succeeds, rfl⟩

/-- An attempt yields one of its two values. -/
theorem attempts {run : C α} {failed completed : α} (attempt : Attempts run failed completed) :
    Yields run fun value => value = failed ∨ value = completed where
  either mem := by
    obtain ⟨mem', gaveUp | wentOn⟩ := attempt.either mem
    · exact .inr ⟨failed, mem', gaveUp, .inl rfl⟩
    · exact .inr ⟨completed, mem', wentOn, .inr rfl⟩
  succeeds := ⟨completed, attempt.succeeds, .inr rfl⟩

/-- A sequence yields what its second part does after everything that the first one yields. -/
theorem bind {first : C α} {next : α → C β} {between : α → Prop} {wanted : β → Prop}
    (head : Yields first between) (tail : ∀ value, between value → Yields (next value) wanted) :
    Yields (first >>= next) wanted where
  either mem := by
    -- A fault of the first part is one of the sequence, and a value goes to the second part.
    obtain ⟨fault, faulted, other⟩ | ⟨value, mem', ran, holds⟩ := head.either mem
    · exact .inl ⟨fault, run_bind_error faulted, other⟩
    · rw [run_bind ran]
      exact (tail value holds).either mem'
  succeeds := by
    obtain ⟨value, ran, holds⟩ := head.succeeds
    rw [run_bind ran]
    exact (tail value holds).succeeds

/-- What follows an allocation is yielded, as a refusal leads to a fault that is allowed. -/
theorem allocated {fault : Fault} {rest : C α} {wanted : α → Prop}
    (other : fault ≠ .unterminated) (tail : Yields rest wanted) :
    Yields (do
      if !(← ChainTable.malloc) then throw fault
      rest) wanted where
  either mem := by
    -- The script ended, or it says what becomes of this allocation.
    cases mem with
    | nil => exact tail.either []
    | cons outcome script =>
      cases outcome with
      | false => exact .inl ⟨fault, rfl, other⟩
      | true => exact tail.either script
  succeeds := tail.succeeds

/-- Code that knows nothing of a further state yields the same over it. -/
theorem lifted {σ : Type} {run : C α} {wanted : α → Prop} {state : σ} (yields : Yields run wanted) :
    Yields ((liftM run : StateT σ C α) state) fun result => wanted result.1 := by
  -- The state is handed through beside the value.
  change Yields (run >>= fun result => Pure.pure (result, state)) _
  exact .bind yields fun _ holds => .pure holds

/-- A sequence over a further state yields what its second part does after the first one. -/
theorem runOver {σ : Type} {first : StateT σ C α} {next : α → StateT σ C β} {state : σ}
    {between : α × σ → Prop} {wanted : β × σ → Prop} (head : Yields (first state) between)
    (tail : ∀ result, between result → Yields (next result.1 result.2) wanted) :
    Yields ((first >>= next) state) wanted := by
  -- The outer bind runs the first part as the first part of an inner bind.
  change Yields (first state >>= fun result => next result.1 result.2) _
  exact .bind head tail

/-- Code that yields anything reads no value past its end. -/
theorem withinValues {run : C α} {wanted : α → Prop} (yields : Yields run wanted) :
    WithinValues run := by
  refine ⟨fun mem left => ?_, fun left => ?_⟩
  · obtain ⟨fault, faulted, other⟩ | ⟨value, mem', ran, -⟩ := yields.either mem
    · exact other (Except.error.inj (faulted.symm.trans left))
    · cases ran.symm.trans left
  · -- With memory given there is no fault at all.
    obtain ⟨value, ran, -⟩ := yields.succeeds
    cases ran.symm.trans left

end Yields

section Output

variable {count : Nat}

/-- The output of stored pairs needs a terminator in all of their blocks. -/
theorem printEntries_pairs (pairs : List (Key × Block)) :
    printEntries (pairs.map Entry.ofPair) =
      if ∀ pair ∈ pairs, 0 ∈ pair.2.val then pure () else throw .unterminated := by
  -- An entry is printed if its own bytes have a terminator, and the others come after it.
  induction pairs with
  | nil => rfl
  | cons pair rest ih =>
    have printed : printEntry (.ofPair pair) =
        cString pair.2.val >>= fun _ => pure () := rfl
    rw [List.map_cons, printEntries, ih, printed, cString]
    by_cases terminated : 0 ∈ pair.2.val
    · rw [if_pos terminated]
      simp only [List.forall_mem_cons, terminated, true_and, pure_bind]
    · have missing : ¬ ∀ other ∈ pair :: rest, 0 ∈ other.2.val :=
        fun all => terminated (all pair List.mem_cons_self)
      rw [if_neg terminated, if_neg missing]
      rfl

/-- The keys of a table are none, or all its keys followed by NULL. -/
theorem tableGetKeys_yields (store : Store count) :
    Yields (tableGetKeys (.ofStore store))
      fun keys => keys = none ∨ keys = some ((store.pairs.map Prod.fst).map some ++ [none]) := by
  -- An empty table and a failed allocation are answered with NULL.
  unfold tableGetKeys
  split
  · exact .pure (.inl rfl)
  refine .bind .malloc fun given _ => ?_
  split
  · exact .pure (.inl rfl)
  · refine .bind (.unchecked (copyTableKeys_store store)) fun keys filled => ?_
    rw [filled]
    exact .pure (.inr rfl)

/-- With a terminator in every block, the entries gathered are none or those of the keys. -/
theorem gatherEntries_yields (store : Store count) (before : List (Key × Block))
    {pairs : List (Key × Block)} (stored : ∀ pair ∈ pairs, pair ∈ store.pairs)
    (terminated : ∀ pair ∈ before ++ pairs, 0 ∈ pair.2.val) :
    Yields (gatherEntries (.ofStore store) (before.map Entry.ofPair)
        ((pairs.map Prod.fst).map some ++ [none]))
      fun entries => entries = none ∨ entries = some ((before ++ pairs).map Entry.ofPair) := by
  -- Each round prints the entries gathered so far, all of which have their terminators.
  induction pairs generalizing before with
  | nil => exact .pure (.inr (by simp))
  | cons pair rest ih =>
    have member := stored pair List.mem_cons_self
    have looked := tableGetEntry_attempts store (store.hashesInside pair member)
    rw [(store.mem_pairs_iff_lookup pair.1 pair.2).mp member] at looked
    simp only [List.map_cons, List.cons_append, gatherEntries]
    refine .bind (.attempts looked) fun entry found => ?_
    obtain rfl | rfl := found
    · exact .pure (.inl rfl)
    refine .allocated (by split <;> exact nofun) ?_
    have printed := printEntries_pairs (before ++ [pair])
    rw [if_pos fun other among => terminated other (by
      rw [List.append_cons]
      exact List.mem_append_left _ among)] at printed
    have walked := ih (before ++ [pair]) (fun other later => stored other (.tail _ later))
      (by simpa using terminated)
    simp only [List.map_append, List.map_cons, List.map_nil] at printed walked ⊢
    rw [printed, pure_bind]
    simpa using walked

/-- Gathering that reads no value past its end has seen a terminator in every block. -/
theorem terminated_of_gatherEntries (store : Store count) (before : List (Key × Block))
    {pairs : List (Key × Block)} (stored : ∀ pair ∈ pairs, pair ∈ store.pairs)
    (within : gatherEntries (.ofStore store) (before.map Entry.ofPair)
      ((pairs.map Prod.fst).map some ++ [none]) [] ≠ .error .unterminated) :
    ∀ pair ∈ pairs, 0 ∈ pair.2.val := by
  -- The pair of a round is printed in that round.
  induction pairs generalizing before with
  | nil => exact fun _ member => absurd member List.not_mem_nil
  | cons pair rest ih =>
    have member := stored pair List.mem_cons_self
    have looked := tableGetEntry_attempts store (store.hashesInside pair member)
    rw [(store.mem_pairs_iff_lookup pair.1 pair.2).mp member] at looked
    have printed := printEntries_pairs (before ++ [pair])
    simp only [List.map_append, List.map_cons, List.map_nil] at printed
    simp only [List.map_cons, List.cons_append, gatherEntries] at within
    rw [run_bind looked.succeeds] at within
    simp only [Option.map_some] at within
    rw [run_bind malloc_nil] at within
    simp only [Bool.not_true, Bool.false_eq_true, if_false, printed] at within
    by_cases terminated : ∀ other ∈ before ++ [pair], 0 ∈ other.2.val
    · rw [if_pos terminated, pure_bind] at within
      have later := ih (before ++ [pair]) (fun other later => stored other (.tail _ later))
        (by simpa using within)
      intro other among
      rcases List.mem_cons.mp among with rfl | among
      · exact terminated other (by simp)
      · exact later other among
    · rw [if_neg terminated] at within
      exact absurd rfl within

/-- With a terminator in every block, the entries of a table are none or all of its pairs. -/
theorem getAllEntries_yields (store : Store count)
    (terminated : ∀ pair ∈ store.pairs, 0 ∈ pair.2.val) :
    Yields (getAllEntries (.ofStore store)) fun all =>
      all = none ∨ all = some (store.pairs.map Entry.ofPair, store.pairs.length) := by
  -- The entries of the keys are those of all pairs.
  refine .bind (tableGetKeys_yields store) fun keys listed => ?_
  -- A table without keys, or no memory for their array: nothing is gathered.
  obtain rfl | rfl := listed
  · exact .pure (.inl rfl)
  refine .bind (gatherEntries_yields store [] (fun _ member => member) terminated)
    fun entries gathered => ?_
  obtain rfl | rfl := gathered
  · exact .pure (.inl rfl)
  · exact .pure (.inr (by simp))

/-- The copy of one entry for the reply uses no more than the entry has. -/
theorem entriesToMessage_yields (pairs : List (Key × Block)) :
    Yields (entriesToMessage (pairs.map Entry.ofPair)) fun _ => True := by
  induction pairs with
  | nil => exact .pure trivial
  | cons pair rest ih =>
    -- One block for the copy, one for its key and one for its bytes.
    have copied : Unchecked (entryToMessage (.ofPair pair)) _ :=
      .bind .malloc (.bind .malloc (.bind .malloc (.pure _)))
    exact .bind (.unchecked copied) fun _ _ => .bind ih fun _ _ => .pure trivial

end Output

variable {rows : Nat} {msg : MessageT} {server : Server}

/-- Every value of a table has a zero byte. -/
def Terminated (table : Table) : Prop :=
  ∀ list ∈ table.lists, ∀ entry ∈ list.head, ∀ value ∈ entry.value, ∀ bytes ∈ value.data, 0 ∈ bytes

instance (table : Table) : Decidable (Terminated table) :=
  inferInstanceAs (Decidable (∀ list ∈ table.lists, ∀ entry ∈ list.head, ∀ value ∈ entry.value,
    ∀ bytes ∈ value.data, 0 ∈ bytes))

/-- The values of a table are the blocks of its pairs. -/
theorem terminated_ofStore {count : Nat} (store : Store count) :
    Terminated (.ofStore store) ↔ ∀ pair ∈ store.pairs, 0 ∈ pair.2.val := by
  constructor
  · intro all pair stored
    obtain ⟨row, inRows, inRow⟩ := List.mem_flatten.mp stored
    exact all (.ofPairs row) (List.mem_map_of_mem inRows) (.ofPair pair)
      (List.mem_map_of_mem inRow) _ rfl _ rfl
  · intro all list inLists entry inList value held bytes pointed
    -- A list is that of a row, and an entry that of a pair.
    obtain ⟨row, inRows, rfl⟩ := List.mem_map.mp inLists
    obtain ⟨pair, inRow, rfl⟩ := List.mem_map.mp inList
    cases held
    cases pointed
    exact all pair (List.mem_flatten.mpr ⟨row, inRows, inRow⟩)

section Refinement

variable {mem mem' : Mem}

/-- Output changes nothing. -/
theorem printEntries_kept {entries : List Entry}
    (ran : printEntries entries mem = .ok ((), mem')) : mem' = mem := by
  induction entries generalizing mem with
  | nil =>
    cases ran
    rfl
  | cons entry rest ih =>
    obtain ⟨_, between, first, later⟩ := bind_ran ran
    rw [ih later]
    -- An entry is printed only if it has its key and its bytes, and those a terminator.
    obtain ⟨key, value⟩ := entry
    cases key with
    | none => cases first
    | some key =>
      cases value with
      | none => cases first
      | some value =>
        obtain ⟨size, data, _, _⟩ := value
        cases data with
        | none => cases first
        | some bytes =>
          obtain ⟨string, _, read, returned⟩ := bind_ran first
          cases returned
          unfold cString at read
          split at read <;> cases read
          rfl

/-- Entries gathered with output are those gathered without it. -/
theorem gatherEntries_refines {table : Table} {entries : List Entry} {allKeys : List (Option Key)}
    {result : Option (List Entry) × Mem}
    (ran : gatherEntries table entries allKeys mem = .ok result) :
    ChainTable.gatherEntries table entries allKeys mem = .ok result := by
  -- Each round does what the round without output does, and prints in between.
  induction allKeys generalizing entries mem with
  | nil => cases ran
  | cons key rest ih =>
    cases key with
    | none => exact ran
    | some key =>
      unfold ChainTable.gatherEntries
      obtain ⟨entry, _, looked, following⟩ := bind_ran ran
      rw [run_bind looked]
      cases entry with
      | none => exact following
      | some entry =>
        obtain ⟨given, _, allocated, following⟩ := bind_ran following
        dsimp only
        rw [run_bind allocated]
        cases given with
        | false => exact following
        | true =>
          obtain ⟨_, _, printed, following⟩ := bind_ran following
          rw [printEntries_kept printed] at following
          exact ih following

/-- All entries got with output are those got without it. -/
theorem getAllEntries_refines {table : Table} {result : Option (List Entry × Nat) × Mem}
    (ran : getAllEntries table mem = .ok result) :
    ChainTable.getAllEntries table mem = .ok result := by
  -- The keys are the same, and so are the entries gathered for them.
  obtain ⟨keys, _, listed, following⟩ := bind_ran ran
  unfold ChainTable.getAllEntries
  rw [run_bind listed]
  cases keys with
  | none => exact following
  | some allKeys =>
    obtain ⟨entries, _, gathered, returned⟩ := bind_ran following
    dsimp only
    rw [run_bind (gatherEntries_refines gathered)]
    exact returned

/-- What is answered with the output is what is answered without it. -/
theorem invokeGetTable_refines {state : σ} {result : ((Int × MessageT × Server) × σ) × Mem}
    (ran : invokeGetTable msg server state mem = .ok result) :
    ChainTable.invokeGetTable msg server state mem = .ok result := by
  -- The entries are gathered in the same way, and what follows is the same code.
  obtain ⟨all, state', _, gathered, following⟩ := runOver_bind_ran ran
  obtain ⟨_, _, gathered, same⟩ := runOver_lift_ran gathered
  cases same
  exact (runOver_bind (runOver_lift (getAllEntries_refines gathered))).trans following

end Refinement

/--
Answering OP_GETTABLE stays within the values exactly if each of them has a zero byte.

With memory given, any other value is read past its end by the output.
-/
theorem get_table_bounded_iff (reached : TableReachable rows server.table) (state : σ) :
    WithinValues (invokeGetTable msg server state) ↔ Terminated server.table := by
  obtain ⟨store, same⟩ := reached.exists_store reached.positive
  have unchanged : server.gettimeofday.2.table = .ofStore store := by
    rw [gettimeofday_table, same]
  rw [same, terminated_ofStore]
  constructor
  · intro within
    by_cases empty : store.size = 0
    · rw [show store.pairs = [] from List.length_eq_zero_iff.mp empty]
      exact fun _ member => absurd member List.not_mem_nil
    -- With all memory given, the pairs are looked up and printed one after another.
    refine terminated_of_gatherEntries store [] (fun _ member => member) fun faulted => ?_
    have read : getAllEntries (.ofStore store) [] = .error .unterminated := by
      unfold getAllEntries
      rw [run_bind (tableGetKeys_spec store), if_neg empty]
      exact run_bind_error faulted
    refine within.1 [] ?_
    rw [← unchanged] at read
    exact runOver_bind_error (runOver_lift_error read)
  · intro terminated
    have gathers := getAllEntries_yields store terminated
    rw [← unchanged] at gathers
    -- What is answered after the output is made of the entries that were gathered.
    have yields : Yields (invokeGetTable msg server state) fun _ => True := by
      refine .runOver (.lifted gathers) fun gathered found => ?_
      obtain ⟨all, state'⟩ := gathered
      obtain rfl | rfl := found
      · exact .pure trivial
      · refine .runOver (.lifted (.unchecked .malloc)) fun _ _ => ?_
        exact .runOver (.lifted (entriesToMessage_yields store.pairs)) fun _ _ => .pure trivial
    exact yields.withinValues

/-- A server whose table has one row with one pair, of the key `a` and a single byte. -/
def sampleServer (byte : UInt8) : Server where
  table := ⟨1, 1, [⟨1, [.ofPair (⟨[97], by decide⟩,
    ⟨[byte], List.cons_ne_nil _ _, (by decide : 1 < 2 ^ 31)⟩)]⟩], rfl⟩
  stats := ⟨0, 0, 0⟩
  clock := []

/-- One put leads to that table. -/
theorem sampleServer_reachable (byte : UInt8) : TableReachable 1 (sampleServer byte).table := by
  -- The put stores a copy of the byte in the only row.
  let key : Key := ⟨[97], by decide⟩
  have created : tableCreate 1 [] = .ok (some ⟨0, 1, [⟨0, []⟩], rfl⟩, []) := rfl
  have put : tablePut ⟨0, 1, [⟨0, []⟩], rfl⟩ (some key)
      (some (.ofBlock ⟨[byte], List.cons_ne_nil _ _, (by decide : 1 < 2 ^ 31)⟩)) [] =
      .ok ((0, (sampleServer byte).table), []) := rfl
  have inside : HashesInside 1 key := by decide
  exact .put (.create created) (by simpa using inside) put

/-- A value of the single byte 1 is read past its end. -/
theorem get_table_reads_past_value :
    TableReachable 1 (sampleServer 1).table ∧
      ¬ WithinValues (invokeGetTable {} (sampleServer 1) ()) :=
  ⟨sampleServer_reachable 1, fun within => within.1 [] rfl⟩

/-- A value of the single byte 0 is not. -/
theorem get_table_bounded_iff_zero : WithinValues (invokeGetTable {} (sampleServer 0) ()) :=
  (get_table_bounded_iff (sampleServer_reachable 0) ()).mpr (by decide)

end ChainTable.DebugOutput
