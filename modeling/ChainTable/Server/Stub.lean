import ChainTable.Server.Skel

/-! The stub of a client: every call as one request, and its result read from the response. -/

namespace ChainTable

variable {σ : Type}

/-- `network_send_receive` on an open connection: the response, or NULL on an error. -/
abbrev SendReceive (σ : Type) := MessageT → StateT σ C (Option MessageT)

/-- Exchange a request for a response, and go on with the response without checking for NULL. -/
def exchange (sendReceive : SendReceive σ) (request : MessageT) : StateT σ C MessageT := do
  match ← sendReceive request with
  | some response => return response
  | none => throw .nullDereference

/-- The request of `rtable_put`. -/
def putRequest (key : Option Key) (value : Data) : MessageT :=
  { opcode := opPut, cType := ctEntry,
    entry := some { key := key, value := { len := sizeT value.datasize, data := value.data } } }

/-- The request of `rtable_del`. -/
def delRequest (key : Option Key) : MessageT :=
  { opcode := opDel, cType := ctKey, key := key }

/-- The request of `rtable_get`. -/
def getRequest (key : Option Key) : MessageT :=
  { opcode := opGet, cType := ctKey, key := key }

/-- The request of the calls that send a code alone. -/
def bareRequest (opcode : Int) : MessageT :=
  { opcode := opcode, cType := ctNone }

/-- `rtable_put`. -/
def rtablePut (sendReceive : SendReceive σ) (entry : Option Entry) : StateT σ C Int := do
  (mallocUnchecked : C _)
  (mallocUnchecked : C _)
  match entry with
  | some { key := key, value := some value } =>
    let response ← exchange sendReceive (putRequest key value)
    return if response.opcode = opPut + 1 then 0 else -1
  -- The fields of the entry are read without a check.
  | _ => throw .nullDereference

/-- `rtable_get`. -/
def rtableGet (sendReceive : SendReceive σ) (key : Option Key) : StateT σ C (Option Data) := do
  (mallocUnchecked : C _)
  let response ← exchange sendReceive (getRequest key)
  if response.opcode ≠ opGet + 1 then return none
  (mallocUnchecked : C _)
  (mallocUnchecked : C _)
  let bytes := response.value.data.getD []
  -- The copy reads as many bytes as the length says.
  if fits : response.value.len ≤ bytes.length then
    return some
      { datasize := int32 response.value.len
        data := some (bytes.take response.value.len)
        isInt := int32_int32 response.value.len
        readable := fun block held => by
          cases held
          rw [List.length_take, min_eq_left fits]
          exact int32_natCast_le response.value.len }
  else throw .outOfBounds

/-- `rtable_del`. -/
def rtableDel (sendReceive : SendReceive σ) (key : Option Key) : StateT σ C Int := do
  (mallocUnchecked : C _)
  let response ← exchange sendReceive (delRequest key)
  return if response.opcode ≠ opError then response.result else -1

/-- `rtable_size`. -/
def rtableSize (sendReceive : SendReceive σ) : StateT σ C Int := do
  (mallocUnchecked : C _)
  let response ← exchange sendReceive (bareRequest opSize)
  return if response.opcode ≠ opError then response.result else -1

/-- The loop of `rtable_get_keys`, over as many keys as the response counts. -/
def copyKeys : (count : Nat) → List (Option Key) → C (List (Option Key))
  -- The array ends with NULL.
  | 0, _ => return [none]
  | count + 1, some key :: keys => do
    let copy ← strdup key
    let copies ← copyKeys count keys
    return copy :: copies
  | _ + 1, none :: _ => throw .nullDereference
  | _ + 1, [] => throw .outOfBounds

/-- `rtable_get_keys`. -/
def rtableGetKeys (sendReceive : SendReceive σ) :
    StateT σ C (Option (List (Option Key))) := do
  (mallocUnchecked : C _)
  let response ← exchange sendReceive (bareRequest opGetKeys)
  if response.opcode = opError then return none
  (mallocUnchecked : C _)
  let keys ← copyKeys response.nKeys (response.keys.getD [])
  return some keys

/-- The loop of `rtable_get_table`, over as many entries as the response counts. -/
def copyEntries : (count : Nat) → List (Option EntryT) → C (Option (List (Option Entry)))
  -- The array ends with NULL.
  | 0, _ => return some [none]
  | count + 1, some received :: entries => do
    if !(← malloc) then return none
    match received.key with
    | none => throw .nullDereference
    | some key =>
      if !(← malloc) then return none
      let value ← dataCreate received.value.len received.value.data
      if value.isNone then return none
      match ← copyEntries count entries with
      | none => return none
      | some copies => return some (some { key := some key, value := value } :: copies)
  | _ + 1, none :: _ => throw .nullDereference
  | _ + 1, [] => throw .outOfBounds

/-- `rtable_get_table`. -/
def rtableGetTable (sendReceive : SendReceive σ) :
    StateT σ C (Option (List (Option Entry))) := do
  (mallocUnchecked : C _)
  let response ← exchange sendReceive (bareRequest opGetTable)
  if response.opcode = opError then return none
  (mallocUnchecked : C _)
  copyEntries response.nEntries (response.entries.getD [])

/-- `rtable_stats`. -/
def rtableStats (sendReceive : SendReceive σ) : StateT σ C (Option Statistics) := do
  (mallocUnchecked : C _)
  let response ← exchange sendReceive (bareRequest opStats)
  if response.opcode = opError then return none
  (mallocUnchecked : C _)
  match response.stats with
  | none => throw .nullDereference
  | some stats =>
    return some
      { numOps := stats.ops, totalTimeMicroseconds := stats.totalTime,
        numClientsConnected := stats.clients }

/-- The successor behind a connection, reached by `rtable_put` and `rtable_del`. -/
def rtableSuccessor (sendReceive : SendReceive σ) : Successor σ
  | .put entry => rtablePut sendReceive entry
  | .del key => rtableDel sendReceive (some key)

end ChainTable
