import ChainTable.Server.Stub

/-! Which servers a server and a client connect to, given the list of children in ZooKeeper. -/

namespace ChainTable

/-- `swap` of two strings of an array. -/
def swap (stringArray : List Key) (posA posB : Nat) : C (List Key) :=
  match stringArray[posA]?, stringArray[posB]? with
  | some first, some second => return (stringArray.set posA second).set posB first
  | _, _ => throw .outOfBounds

/-- The inner loop of `bubble_sort`, with `j` going down to `i`. -/
def bubbleInner (i : Nat) : (j : Nat) → List Key → C (List Key)
  | 0, stringArray => return stringArray
  | before + 1, stringArray => do
    let j := before + 1
    if i < j then
      match stringArray[j - 1]?, stringArray[j]? with
      | some left, some right =>
        -- The smaller string goes to the front of the larger one.
        let stringArray ←
          if 0 < strcmp left right then swap stringArray (j - 1) j else pure stringArray
        bubbleInner i before stringArray
      | _, _ => throw .outOfBounds
    else return stringArray

/-- The outer loop of `bubble_sort`, with so many rounds to go and `i` going up. -/
def bubbleOuter : (rounds : Nat) → (i : Nat) → List Key → C (List Key)
  | 0, _, stringArray => return stringArray
  | rounds + 1, i, stringArray => do
    -- Every round starts from the end of the array again.
    let stringArray ← bubbleInner i (stringArray.length - 1) stringArray
    bubbleOuter rounds (i + 1) stringArray

/-- `bubble_sort` of an array whose size is its number of strings. -/
def bubbleSort (stringArray : List Key) : C (List Key) :=
  bubbleOuter (stringArray.length - 1) 0 stringArray

/-- The room for the data of a node. -/
def zDataLen : Nat := 1024 * 1024

/-- What the code learns from the client library of ZooKeeper and from the network. -/
structure Registry (ρ : Type) where
  /-- `zoo_get`: what becomes of the buffer and of its length, unless the call fails. -/
  zooGet : (path : Key) → (buffer : List UInt8) → (bufferLen : Int) → Option (List UInt8 × Int)
  /-- `rtable_connect`: a connection, or NULL. -/
  rtableConnect : (addressPort : Key) → Option ρ
  /-- What happens to be in a buffer that was just allocated. -/
  fresh : List UInt8
  length_fresh : fresh.length = zDataLen

variable {ρ σ : Type}

/-- The path of a child, put together in an array of 120 bytes. -/
def nodePath (rootPath child : Key) : C Key :=
  -- The last of the bytes is for the terminator.
  if (rootPath.bytes ++ 47 :: child.bytes).length < 120 then
    return ⟨rootPath.bytes ++ 47 :: child.bytes, by
      simp [rootPath.nulFree, child.nulFree]⟩
  else throw .outOfBounds

/-- Ask `zoo_get` for the data of a child in a fresh buffer: the buffer, unless the call fails. -/
def childMetadata (registry : Registry ρ) (rootPath child : Key) : C (Option (List UInt8)) := do
  mallocUnchecked
  let path ← nodePath rootPath child
  return (registry.zooGet path registry.fresh zDataLen).map Prod.fst

/-- Connect to the address in a buffer, where the message about a failure reads the NULL pointer. -/
def connectTo (registry : Registry ρ) (metadata : List UInt8) : C ρ := do
  match registry.rtableConnect (← cString metadata) with
  | none => throw .nullDereference
  | some connection => return connection

/-- The upward loop of `select_next_server`: the child at which it breaks. -/
def nextChild (zkNodeId : Key) : (children : List Key) → Option Key
  | [] => none
  | child :: children =>
    if 0 < strcmp child zkNodeId then some child else nextChild zkNodeId children

/--
`select_next_server`: the new `next_server`, and the connections that were closed.

The list of children is sorted in place first.
-/
def selectNextServer (registry : Registry ρ) (rootPath zkNodeId : Key) (children : List Key)
    (nextServer : Option ρ) : C (Option ρ × List ρ) := do
  let children ← bubbleSort children
  match nextChild zkNodeId children with
  | some child =>
    -- When `zoo_get` fails, the buffer is used as it was allocated.
    let metadata := (← childMetadata registry rootPath child).getD registry.fresh
    let tempNextServer ← connectTo registry metadata
    return (some tempNextServer, nextServer.toList)
  -- The tail has no successor, and closes the connection that it had.
  | none => return (none, nextServer.toList)

/-- The downward loop of `select_prev_server`, from the last child on: where it breaks. -/
def prevChild (zkNodeId : Key) : (downwards : List Key) → Option Key
  | [] => none
  | child :: downwards =>
    if strcmp child zkNodeId < 0 then some child else prevChild zkNodeId downwards

/-- `select_prev_server` up to the connection to the predecessor, if there is one. -/
def connectPrevServer (registry : Registry ρ) (rootPath zkNodeId : Key) (children : List Key) :
    C (Option ρ) := do
  let children ← bubbleSort children
  match prevChild zkNodeId children.reverse with
  | some child =>
    match ← childMetadata registry rootPath child with
    -- Without data there is nobody to connect to, and the table stays as it is.
    | none => return none
    | some metadata =>
      let prevServer ← connectTo registry metadata
      return some prevServer
  | none =>
    -- The head connects to itself, and closes the connection again.
    match children with
    | first :: _ =>
      if strcmp first zkNodeId = 0 then
        match ← childMetadata registry rootPath first with
        | none => return none
        | some metadata =>
          let _ ← connectTo registry metadata
          return none
      else return none
    | [] => return none

/-- The loop of `select_prev_server` over the entries of the predecessor, up to the NULL. -/
def mergeLoop (table : Table) : (prevTableEntries : List (Option Entry)) → C Table
  | [] => throw .outOfBounds
  | none :: _ => return table
  | some entry :: entries => do
    -- The result is only looked at to print a message.
    let (_, table) ← tablePut table entry.key entry.value
    mergeLoop table entries

/-- The merge of `select_prev_server` with the table behind a connection. -/
def mergeTable (sendReceive : SendReceive σ) (table : Table) : StateT σ C Table := do
  match ← rtableGetTable sendReceive with
  | none => return table
  | some prevTableEntries => (mergeLoop table prevTableEntries : C _)

/-- `select_prev_server`: the local table once it was merged with that of the predecessor. -/
def selectPrevServer (registry : Registry ρ) (transport : ρ → SendReceive σ)
    (rootPath zkNodeId : Key) (children : List Key) (table : Table) : StateT σ C Table := do
  match ← (connectPrevServer registry rootPath zkNodeId children : C _) with
  | none => return table
  | some prevServer => mergeTable (transport prevServer) table

/-- The names that `select_head_and_tail_servers` asks `zoo_get` for: the head and the tail. -/
def headAndTail (children : List Key) : C (Option (Key × Key)) := do
  let children ← bubbleSort children
  match children[0]?, children[children.length - 1]? with
  | some first, some last => return some (first, last)
  -- Without children there is neither a head nor a tail.
  | _, _ => return none

/-- `select_head_and_tail_servers`: the connections of the client to the head and to the tail. -/
def selectHeadAndTailServers (registry : Registry ρ) (rootPath : Key) (children : List Key)
    (head tail : Option ρ) : C (Option ρ × Option ρ) := do
  match ← headAndTail children with
  | none => return (head, tail)
  | some (first, last) =>
    mallocUnchecked
    let path ← nodePath rootPath first
    let (metadata, length) :=
      (registry.zooGet path registry.fresh zDataLen).getD (registry.fresh, zDataLen)
    let head := registry.rtableConnect (← cString metadata)
    let path ← nodePath rootPath last
    -- The second call is given the buffer and the length that the first one left.
    let (metadata, _) := (registry.zooGet path metadata length).getD (metadata, length)
    let tail := registry.rtableConnect (← cString metadata)
    return (head, tail)

end ChainTable
