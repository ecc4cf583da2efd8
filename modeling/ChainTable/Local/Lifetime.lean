import ChainTable.Library.Heap

/-! Data blocks and entries as pointers: what their functions free, and what is left to point to. -/

namespace ChainTable.Lifetime

/-- A pointer to bytes: a block of memory, and a position in it. -/
structure Pointer where
  block : Nat
  offset : Nat
  deriving DecidableEq, Repr

/-- `struct data_t` in memory. -/
structure DataObject where
  datasize : Int
  data : Option Pointer
  deriving DecidableEq, Repr

/-- `struct entry_t` in memory. -/
structure EntryObject where
  key : Option Pointer
  value : Option Nat
  deriving DecidableEq, Repr

/-- What `malloc` gave out and `free` has not taken back, by the type of what is stored there. -/
structure Memory where
  blocks : Heap (List UInt8)
  datas : Heap DataObject
  entries : Heap EntryObject
  /-- Arrays of pointers to entries. -/
  arrays : Heap (List (Option Nat))

/-- Code that works on memory, and ends nowhere when it uses what is not or no longer there. -/
abbrev Managed := StateT Memory Option

/-- Read the structure of a data block. -/
def readData (data : Nat) : Managed DataObject := fun memory =>
  (memory.datas.objects data).map (·, memory)

/-- Assign the structure of a data block. -/
def writeData (data : Nat) (object : DataObject) : Managed Unit := do
  let _ ← readData data
  modify fun memory => { memory with datas := memory.datas.modify data fun _ => object }

/-- `free` of the structure of a data block. -/
def freeData (data : Nat) : Managed Unit := do
  let _ ← readData data
  modify fun memory => { memory with datas := memory.datas.free data }

/-- Read an entry. -/
def readEntry (entry : Nat) : Managed EntryObject := fun memory =>
  (memory.entries.objects entry).map (·, memory)

/-- Assign an entry. -/
def writeEntry (entry : Nat) (object : EntryObject) : Managed Unit := do
  let _ ← readEntry entry
  modify fun memory => { memory with entries := memory.entries.modify entry fun _ => object }

/-- `free` of an entry. -/
def freeEntry (entry : Nat) : Managed Unit := do
  let _ ← readEntry entry
  modify fun memory => { memory with entries := memory.entries.free entry }

/-- The bytes behind a pointer, if so many are there. -/
def Memory.bytesAt (memory : Memory) (pointer : Pointer) (size : Nat) : Option (List UInt8) :=
  (memory.blocks.objects pointer.block).bind fun block =>
    if pointer.offset + size ≤ block.length then some ((block.drop pointer.offset).take size)
    else none

/-- The string behind a pointer, if its terminator is there. -/
def Memory.stringAt (memory : Memory) (pointer : Pointer) : Option (List UInt8) :=
  (memory.blocks.objects pointer.block).bind fun block =>
    if 0 ∈ block.drop pointer.offset then
      some ((block.drop pointer.offset).takeWhile (· ≠ 0))
    else none

/-- `malloc` of a block of bytes, which is zero where it is not written. -/
def mallocBlock (granted : Bool) (size : Nat) : Managed (Option Pointer) := fun memory =>
  if granted then
    some (some ⟨memory.blocks.next, 0⟩,
      { memory with blocks := memory.blocks.alloc (List.replicate size 0) })
  else some (none, memory)

/-- `memcpy` to the start of a block. -/
def memcpy (target source : Pointer) (size : Nat) : Managed Unit := fun memory =>
  match memory.bytesAt source size, memory.bytesAt target size with
  | some bytes, some _ =>
    let written := memory.blocks.modify target.block fun block =>
      block.take target.offset ++ bytes ++ block.drop (target.offset + size)
    some ((), { memory with blocks := written })
  | _, _ => none

/-- `free` of a block of bytes, which has to be given the pointer that `malloc` returned. -/
def freeBlock : Option Pointer → Managed Unit
  -- There is nothing to be freed behind NULL.
  | none => return ()
  | some pointer => fun memory =>
    if pointer.offset = 0 ∧ (memory.blocks.objects pointer.block).isSome then
      some ((), { memory with blocks := memory.blocks.free pointer.block })
    else none

/-- `data_valid`. -/
def dataValid : Option Nat → Managed Int
  | none => return -1
  | some data => do
    let held ← readData data
    if held.data.isNone then return -1
    if held.datasize ≤ 0 then return -1
    return 0

/-- `data_destroy`. -/
def dataDestroy (data : Option Nat) : Managed Int := do
  if (← dataValid data) = -1 then return -1
  match data with
  | none => return -1
  | some data =>
    let held ← readData data
    freeBlock held.data
    freeData data
    return 0

/-- `data_replace`, with what becomes of its allocation. -/
def dataReplace (granted : Bool) (data : Option Nat) (newSize : Int) (newData : Option Pointer) :
    Managed Int := do
  if (← dataValid data) = -1 then return -1
  if newSize ≤ 0 then return -1
  match data, newData with
  | some data, some source =>
    let held ← readData data
    freeBlock held.data
    -- The old bytes are gone before it is known whether there is memory for the new ones.
    let block ← mallocBlock granted newSize.toNat
    writeData data ⟨newSize, block⟩
    match block with
    | none => return -1
    | some target =>
      memcpy target source newSize.toNat
      return 0
  | _, _ => return -1

/-- `entry_valid`. -/
def entryValid : Option Nat → Managed Int
  | none => return -1
  | some entry => do
    let held ← readEntry entry
    if held.key.isNone then return -1
    if (← dataValid held.value) = -1 then return -1
    return 0

/-- `entry_destroy`. -/
def entryDestroy (entry : Option Nat) : Managed Int := do
  if (← entryValid entry) = -1 then return -1
  match entry with
  | none => return -1
  | some entry =>
    let held ← readEntry entry
    let _ ← dataDestroy held.value
    freeBlock held.key
    freeEntry entry
    return 0

/-- `entry_replace`. -/
def entryReplace (entry : Option Nat) (newKey : Option Pointer) (newValue : Option Nat) :
    Managed Int := do
  if (← entryValid entry) = -1 then return -1
  match entry, newKey with
  | some entry, some newKey =>
    let held ← readEntry entry
    if (← dataDestroy held.value) = -1 then return -1
    freeBlock held.key
    -- The new value is not looked at.
    writeEntry entry ⟨some newKey, newValue⟩
    return 0
  | _, _ => return -1

end ChainTable.Lifetime
