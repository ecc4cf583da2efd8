import ChainTable.Local.Contents
import ChainTable.Wire.Message

/-! The skeleton of a server: one request handled on its table, and forwarded down the chain. -/

namespace ChainTable

/-- `struct timeval`. -/
structure Timeval where
  tvSec : Int
  tvUsec : Int
  deriving DecidableEq, Repr

/-- `struct statistics_t`. -/
structure Statistics where
  numOps : Int
  totalTimeMicroseconds : Nat
  numClientsConnected : Int
  deriving DecidableEq, Repr

/-- What the threads of one server share, with the readings of its clock to come. -/
structure Server where
  table : Table
  stats : Statistics
  clock : List Timeval
  deriving DecidableEq, Repr

/-- `gettimeofday`. -/
def Server.gettimeofday (server : Server) : Timeval × Server :=
  match server.clock with
  -- A clock without further readings answers the beginning of time.
  | [] => (⟨0, 0⟩, server)
  | now :: later => (now, { server with clock := later })

/-- `update_stats`. -/
def updateStats (startTime endTime : Timeval) (stats : Statistics) : Statistics :=
  { stats with
    -- The counter of microseconds is an `unsigned long`, and wraps as one.
    totalTimeMicroseconds :=
      ((stats.totalTimeMicroseconds + (endTime.tvUsec - startTime.tvUsec)) % 2 ^ 64).toNat
    -- The number of operations is an `int`.
    numOps := int32 (stats.numOps + 1) }

/-- The end of an operation: read the clock again and count the operation. -/
def Server.finish (server : Server) (startTime : Timeval) : Server :=
  let (endTime, server) := server.gettimeofday
  { server with stats := updateStats startTime endTime server.stats }

/-- What a server passes on to its successor after an update. -/
inductive Forward where
  | put (entry : Option Entry)
  | del (key : Key)
  deriving DecidableEq, Repr

/-- The connection to a successor: one attempt to pass an update on, as 0 or -1. -/
abbrev Successor (σ : Type) := Forward → StateT σ C Int

variable {σ : Type}

/-- The number of attempts to pass an update on. -/
def maxRetries : Nat := 10

/-- The loop that repeats a failing attempt until the retries run out. -/
def retryLoop (attempt : StateT σ C Int) : (retriesLeft : Nat) → StateT σ C Int
  | 0 => return -1
  | retriesLeft + 1 => do
    let result ← attempt
    if result = -1 then retryLoop attempt retriesLeft else return result

/-- Pass an update on to the successor, if there is one, and look no further at the result. -/
def sendDown (nextServer : Option (Successor σ)) (forward : Forward) : StateT σ C Unit := do
  match nextServer with
  | none => return ()
  | some successor =>
    let _ ← retryLoop (successor forward) maxRetries

/-- The reply to a request that failed. -/
def errorReply (msg : MessageT) : MessageT :=
  { msg with opcode := opError, cType := ctNone }

/-- OP_PUT up to the release of `table_lock` and the copy to be passed on, none on failure. -/
def putLocally (msg : MessageT) (table : Table) : C (Option (Option Entry) × Table) := do
  match msg.entry with
  | none => return (none, table)
  | some entry =>
    match entry.key, entry.value.data with
    | some key, some bytes =>
      let data ← dataCreate entry.value.len (some bytes)
      let (result, table) ← tablePut table (some key) data
      if result = -1 then return (none, table)
      let keyCopy ← strdup key
      let dataCopy ← dataDup data
      let copy ← entryCreate keyCopy dataCopy
      return (some copy, table)
    | _, _ => return (none, table)

/-- OP_DEL on a key that is there, up to the release of `table_lock`: whether it was removed. -/
def delLocally (key : Key) (table : Table) : C (Bool × Table) := do
  let (delResult, table) ← tableRemove table (some key)
  if delResult = -1 ∨ delResult = 1 then return (false, table)
  return (true, table)

/-- What an update does up to the release of `table_lock`: what is passed on, none on failure. -/
def updateLocally (msg : MessageT) (table : Table) : C (Option Forward × Table) := do
  if msg.opcode = opPut then
    let (stored, table) ← putLocally msg table
    return (stored.map .put, table)
  else match msg.key with
    | none => return (none, table)
    | some key =>
      let (removed, table) ← delLocally key table
      return (if removed then some (.del key) else none, table)

/-- `invoke` on OP_PUT. -/
def invokePut (nextServer : Option (Successor σ)) (msg : MessageT) (server : Server) :
    StateT σ C (Int × MessageT × Server) := do
  let (startTime, server) := server.gettimeofday
  let (stored, table) ← putLocally msg server.table
  let server := { server with table := table }
  match stored with
  | none => return (-1, errorReply msg, server.finish startTime)
  | some entry =>
    sendDown nextServer (.put entry)
    -- The reply does not depend on how the forwarding went.
    return (0, { msg with opcode := opPut + 1, cType := ctNone }, server.finish startTime)

/-- `invoke` on OP_GET. -/
def invokeGet (msg : MessageT) (server : Server) : StateT σ C (Int × MessageT × Server) := do
  let (startTime, server) := server.gettimeofday
  match msg.key with
  | none => return (-1, errorReply msg, server.finish startTime)
  | some key =>
    match ← tableGet server.table (some key) with
    | none => return (-1, errorReply msg, server.finish startTime)
    | some data =>
      return (0,
        { msg with opcode := opGet + 1, cType := ctValue,
                   value := { len := sizeT data.datasize, data := data.data } },
        server.finish startTime)

/-- `invoke` on OP_DEL. -/
def invokeDel (nextServer : Option (Successor σ)) (msg : MessageT) (server : Server) :
    StateT σ C (Int × MessageT × Server) := do
  let (startTime, server) := server.gettimeofday
  match msg.key with
  -- Here alone a failed operation is not counted.
  | none => return (-1, errorReply msg, server)
  | some key =>
    let (removed, table) ← delLocally key server.table
    let server := { server with table := table }
    if !removed then return (-1, errorReply msg, server.finish startTime)
    sendDown nextServer (.del key)
    return (0, { msg with opcode := opDel + 1, cType := ctNone }, server.finish startTime)

/-- `invoke` on OP_SIZE. -/
def invokeSize (msg : MessageT) (server : Server) : StateT σ C (Int × MessageT × Server) := do
  let (startTime, server) := server.gettimeofday
  let size := tableSize server.table
  if size = -1 then return (-1, errorReply msg, server.finish startTime)
  return (0, { msg with opcode := opSize + 1, cType := ctResult, result := size },
    server.finish startTime)

/-- `invoke` on OP_GETKEYS. -/
def invokeGetKeys (msg : MessageT) (server : Server) : StateT σ C (Int × MessageT × Server) := do
  let (startTime, server) := server.gettimeofday
  let keys ← tableGetKeys server.table
  let nKeys := sizeT (tableSize server.table)
  -- The number is compared with -1 as `size_t`, which no `int` but -1 becomes.
  if keys.isNone ∨ tableSize server.table = -1 then
    return (-1, errorReply msg, server.finish startTime)
  return (0, { msg with opcode := opGetKeys + 1, cType := ctKeys, keys := keys, nKeys := nKeys },
    server.finish startTime)

/-- One entry as OP_GETTABLE copies it into the reply. -/
def entryToMessage (entry : Entry) : C EntryT := do
  mallocUnchecked
  match entry.key, entry.value with
  | some key, some value =>
    -- One block for the key and one for the bytes.
    mallocUnchecked
    mallocUnchecked
    match value.data with
    | some bytes =>
      return { key := some key,
               value := { len := sizeT value.datasize,
                          data := some (bytes.take value.datasize.toNat) } }
    | none => throw .nullDereference
  | _, _ => throw .nullDereference

/-- The loop of OP_GETTABLE over all entries, which ends with NULL. -/
def entriesToMessage : List Entry → C (List (Option EntryT))
  | [] => return [none]
  | entry :: entries => do
    let copy ← entryToMessage entry
    let copies ← entriesToMessage entries
    return some copy :: copies

/-- `invoke` on OP_GETTABLE. -/
def invokeGetTable (msg : MessageT) (server : Server) : StateT σ C (Int × MessageT × Server) := do
  let (startTime, server) := server.gettimeofday
  match ← (getAllEntries server.table : C _) with
  | none => return (-1, errorReply msg, server.finish startTime)
  | some (allEntries, numEntries) =>
    (mallocUnchecked : C _)
    let entries ← entriesToMessage allEntries
    return (0,
      { msg with opcode := opGetTable + 1, cType := ctTable,
                 entries := some entries, nEntries := numEntries },
      server.finish startTime)

/-- `invoke` on OP_STATS. -/
def invokeStats (msg : MessageT) (server : Server) : StateT σ C (Int × MessageT × Server) := do
  -- The structure is initialised before the pointer to it is checked.
  (mallocUnchecked : C _)
  return (0,
    { msg with
      opcode := opStats + 1, cType := ctStats,
      stats := some
        { ops := int32 server.stats.numOps
          totalTime := server.stats.totalTimeMicroseconds
          clients := int32 server.stats.numClientsConnected } },
    server)

/--
`invoke`: handle one request on the table, in the message that holds it.

The table of a server is never NULL, so of the first check only the message is left.
-/
def invoke (nextServer : Option (Successor σ)) (msg : Option MessageT) (server : Server) :
    StateT σ C (Int × MessageT × Server) :=
  match msg with
  | none => throw .nullDereference
  | some msg =>
    if msg.opcode = opPut then invokePut nextServer msg server
    else if msg.opcode = opGet then invokeGet msg server
    else if msg.opcode = opDel then invokeDel nextServer msg server
    else if msg.opcode = opSize then invokeSize msg server
    else if msg.opcode = opGetKeys then invokeGetKeys msg server
    else if msg.opcode = opGetTable then invokeGetTable msg server
    else if msg.opcode = opStats then invokeStats msg server
    else return (-1, errorReply msg, server)

end ChainTable
