import ChainTable.Local.Entry
import ChainTable.Local.Lifetime

/-! Replacing the contents of data and of entries: when the result is valid, and what it holds. -/

namespace ChainTable.Lifetime

variable {α β : Type} {memory memory' : Memory}

/-- Running a sequence whose first part is known continues with the second. -/
theorem run_bind {first : Managed α} {next : α → Managed β} {value : α}
    (ran : first memory = some (value, memory')) :
    (first >>= next) memory = next value memory' := by
  -- The first part has its value, which is handed on.
  simp [Bind.bind, StateT.bind, ran]

/-- Running a sequence whose first part uses what is not there goes no further. -/
theorem run_bind_none {first : Managed α} {next : α → Managed β} (stuck : first memory = none) :
    (first >>= next) memory = none := by
  -- There is no value to hand on.
  simp [Bind.bind, StateT.bind, stuck]

/-- A sequence that ran has run its first part, and then its second one. -/
theorem bind_ran {first : Managed α} {next : α → Managed β} {result : β × Memory}
    (ran : (first >>= next) memory = some result) :
    ∃ value memory', first memory = some (value, memory') ∧ next value memory' = some result := by
  -- A first part that is stuck leaves nothing for the second to run on.
  cases head : first memory with
  | none =>
    rw [run_bind_none head] at ran
    cases ran
  | some left =>
    obtain ⟨value, memory'⟩ := left
    rw [run_bind head] at ran
    exact ⟨value, memory', rfl, ran⟩

/-- The bytes that a data block says it has. -/
def Memory.contents (memory : Memory) (data : Nat) : Option (List UInt8) :=
  (memory.datas.objects data).bind fun object =>
    object.data.bind fun pointer => memory.bytesAt pointer object.datasize.toNat

/-- A data block is valid, and holds exactly these bytes. -/
def Memory.DataHolds (memory : Memory) (data : Nat) (bytes : List UInt8) : Prop :=
  dataValid (some data) memory = some (0, memory) ∧ memory.contents data = some bytes

/-- The key and the bytes that an entry holds. -/
def Memory.pair (memory : Memory) (entry : Nat) : Option (List UInt8 × List UInt8) :=
  (memory.entries.objects entry).bind fun object =>
    object.key.bind fun key => object.value.bind fun value =>
      (memory.stringAt key).bind fun string =>
        (memory.contents value).map fun bytes => (string, bytes)

/-- An entry is valid, and holds exactly this key and these bytes. -/
def Memory.EntryHolds (memory : Memory) (entry : Nat) (key bytes : List UInt8) : Prop :=
  entryValid (some entry) memory = some (0, memory) ∧ memory.pair entry = some (key, bytes)

/-- A valid data block, with a block of memory of its own for its bytes. -/
structure Memory.OwnsData (memory : Memory) (data block : Nat) (bytes : List UInt8) : Prop where
  object : memory.datas.objects data = some ⟨bytes.length, some ⟨block, 0⟩⟩
  stored : memory.bytesAt ⟨block, 0⟩ bytes.length = some bytes
  nonempty : bytes ≠ []

/-- A valid entry, with a block of memory for its key and a data block, both its own. -/
structure Memory.OwnsEntry (memory : Memory) (entry keyBlock data block : Nat)
    (key bytes : List UInt8) : Prop where
  object : memory.entries.objects entry = some ⟨some ⟨keyBlock, 0⟩, some data⟩
  key : memory.stringAt ⟨keyBlock, 0⟩ = some key
  value : memory.OwnsData data block bytes
  apart : keyBlock ≠ block

section Data

variable {data block : Nat} {bytes : List UInt8}

/-- Reading the structure of a data block that is there. -/
theorem readData_live {object : DataObject} (live : memory.datas.objects data = some object) :
    readData data memory = some (object, memory) := by
  -- The structure is there.
  rw [readData, live, Option.map_some]

/-- Assigning the structure of a data block that is there. -/
theorem writeData_live {object old : DataObject} (live : memory.datas.objects data = some old) :
    writeData data object memory =
      some ((), { memory with datas := memory.datas.modify data fun _ => object }) := by
  -- The structure is read before it is assigned.
  rw [writeData, run_bind (readData_live live)]
  rfl

/-- Freeing the structure of a data block that is there. -/
theorem freeData_live {object : DataObject} (live : memory.datas.objects data = some object) :
    freeData data memory = some ((), { memory with datas := memory.datas.free data }) := by
  -- The structure is read before it is freed.
  rw [freeData, run_bind (readData_live live)]
  rfl

/-- What `data_valid` says about a data block that is there. -/
theorem dataValid_live {size : Int} {pointer : Pointer}
    (live : memory.datas.objects data = some ⟨size, some pointer⟩) (positive : 0 < size) :
    dataValid (some data) memory = some (0, memory) := by
  -- The pointer is not NULL, and the size is positive.
  rw [dataValid, run_bind (readData_live live), if_neg (by simp), if_neg (by simpa using positive)]
  rfl

/-- A data block that is valid is there, with a pointer and a positive size. -/
theorem live_of_dataValid (valid : dataValid (some data) memory = some (0, memory)) :
    ∃ size pointer, memory.datas.objects data = some ⟨size, some pointer⟩ ∧ 0 < size := by
  -- Each of the checks that was passed shows one of the parts.
  cases live : memory.datas.objects data with
  | none =>
    have stuck : readData data memory = none := by rw [readData, live, Option.map_none]
    rw [dataValid, run_bind_none stuck] at valid
    cases valid
  | some object =>
    obtain ⟨size, pointer⟩ := object
    rw [dataValid, run_bind (readData_live live)] at valid
    cases pointer with
    | none => cases valid
    | some pointer =>
      refine ⟨size, pointer, rfl, ?_⟩
      by_contra negative
      rw [if_neg (by simp), if_pos (Int.not_lt.mp negative)] at valid
      cases valid

/-- Freeing a block that is there, by the pointer to its start. -/
theorem freeBlock_live {held : List UInt8} (live : memory.blocks.objects block = some held) :
    freeBlock (some ⟨block, 0⟩) memory =
      some ((), { memory with blocks := memory.blocks.free block }) := by
  -- The pointer is to the start of the block, as `free` needs it.
  simp [freeBlock, live]

/-- Bytes that can be read are in a block that is there, and are as many as were asked for. -/
theorem live_of_bytesAt {pointer : Pointer} {size : Nat}
    (read : memory.bytesAt pointer size = some bytes) :
    (∃ held, memory.blocks.objects pointer.block = some held) ∧ bytes.length = size := by
  -- The bytes are cut out of the block.
  rw [Memory.bytesAt, Option.bind_eq_some_iff] at read
  obtain ⟨held, live, read⟩ := read
  refine ⟨⟨held, live⟩, ?_⟩
  split at read
  · cases read
    rw [List.length_take, List.length_drop]
    omega
  · cases read

/-- The contents of a data block that is there are the bytes behind its pointer. -/
theorem contents_live {size : Int} {pointer : Pointer}
    (live : memory.datas.objects data = some ⟨size, some pointer⟩) :
    memory.contents data = memory.bytesAt pointer size.toNat := by
  -- Both the structure and its pointer are there.
  rw [Memory.contents, live, Option.bind_some, Option.bind_some]

namespace Memory.OwnsData

variable (owns : memory.OwnsData data block bytes)
include owns

/-- The size is that of at least one byte. -/
theorem positive : 0 < (bytes.length : Int) := by
  -- There is at least one byte.
  have := List.length_pos_iff.mpr owns.nonempty
  omega

/-- It passes the check. -/
theorem valid : dataValid (some data) memory = some (0, memory) :=
  dataValid_live owns.object owns.positive

/-- It holds its bytes. -/
theorem holds : memory.DataHolds data bytes := by
  -- The data is valid, and its bytes are those behind the pointer.
  refine ⟨owns.valid, ?_⟩
  rw [contents, owns.object]
  exact owns.stored

/-- The block is there to be freed. -/
theorem freeBlock : freeBlock (some ⟨block, 0⟩) memory =
    some ((), { memory with blocks := memory.blocks.free block }) := by
  -- Its bytes are in a block that is there.
  obtain ⟨⟨held, live⟩, -⟩ := live_of_bytesAt owns.stored
  exact freeBlock_live live

/-- Destroying it frees its block and its structure. -/
theorem destroy : dataDestroy (some data) memory =
    some (0, { memory with
      blocks := memory.blocks.free block, datas := memory.datas.free data }) := by
  -- The data is valid, and both frees are of what is there.
  rw [dataDestroy, run_bind owns.valid, if_neg (by decide)]
  rw [run_bind (readData_live owns.object), run_bind owns.freeBlock]
  exact run_bind (freeData_live owns.object)

end Memory.OwnsData

/-- All bytes of a block can be read. -/
theorem bytesAt_whole {held : List UInt8} {size : Nat}
    (live : memory.blocks.objects block = some held) (length : held.length = size) :
    memory.bytesAt ⟨block, 0⟩ size = some held := by
  -- Nothing is dropped in front, and everything is taken.
  subst length
  rw [Memory.bytesAt, live, Option.bind_some, if_pos (by simp), List.drop_zero, List.take_length]

/-- Bytes that can be read are copied to where there is room for them. -/
theorem memcpy_read {target source : Pointer} {size : Nat} {new : List UInt8}
    (read : memory.bytesAt source size = some new)
    (room : memory.bytesAt target size = some bytes) :
    memcpy target source size memory =
      some ((), { memory with blocks := memory.blocks.modify target.block fun block =>
                    block.take target.offset ++ new ++ block.drop (target.offset + size) }) := by
  -- Both ranges are there, so that the copy goes ahead.
  rw [memcpy, read, room]

/-- What memory is like when there is a block for the new bytes, before they are copied. -/
def Memory.emptied (memory : Memory) (data block : Nat) (newSize : Int) : Memory where
  blocks := (memory.blocks.free block).alloc (List.replicate newSize.toNat 0)
  datas := memory.datas.modify data fun _ => ⟨newSize, some ⟨memory.blocks.next, 0⟩⟩
  entries := memory.entries
  arrays := memory.arrays

/-- The bytes that were freed are gone, and those of other blocks can be read as before. -/
theorem emptied_bytesAt (data block : Nat) {source : Pointer} {new : List UInt8} {size : Nat}
    (newSize : Int) (read : memory.bytesAt source size = some new) :
    (memory.emptied data block newSize).bytesAt source size =
      if source.block = block then none else some new := by
  -- The block of the source was there before, so it is not the new one.
  obtain ⟨⟨held, live⟩, -⟩ := live_of_bytesAt read
  have older : source.block ≠ (memory.blocks.free block).next :=
    memory.blocks.ne_next_of_live live
  rw [← read, Memory.bytesAt, Memory.bytesAt, Memory.emptied, Heap.alloc_other _ _ older]
  split
  · rename_i own
    rw [own, Heap.free_self, Option.bind_none]
  · rename_i apart
    rw [Heap.free_other _ apart]

variable (owns : memory.OwnsData data block bytes) {newSize : Int} {newData : Option Pointer}
include owns

/-- Without a size or without bytes nothing is replaced. -/
theorem dataReplace_refused (granted : Bool) (refused : newSize ≤ 0 ∨ newData = none) :
    dataReplace granted (some data) newSize newData memory = some (-1, memory) := by
  -- The size is checked before the bytes are.
  unfold dataReplace
  rw [run_bind owns.valid, if_neg (by decide)]
  by_cases empty : newSize ≤ 0
  · rw [if_pos empty]
    rfl
  · obtain rfl := refused.resolve_left empty
    rw [if_neg empty]
    rfl

/-- Up to the allocation, the old bytes are freed. -/
theorem dataReplace_freed (granted : Bool) (positive : ¬ newSize ≤ 0) (source : Pointer) :
    dataReplace granted (some data) newSize (some source) memory =
      (do
        let block ← mallocBlock granted newSize.toNat
        writeData data ⟨newSize, block⟩
        match block with
        | none => return -1
        | some target =>
          memcpy target source newSize.toNat
          return 0 : Managed Int) { memory with blocks := memory.blocks.free block } := by
  -- The data and the size are valid, and the old block is there to be freed.
  unfold dataReplace
  rw [run_bind owns.valid, if_neg (by decide), if_neg positive]
  exact (run_bind (readData_live owns.object)).trans (run_bind owns.freeBlock)

/-- When there is no memory for the new bytes, the old ones are gone nevertheless. -/
theorem dataReplace_ungranted (positive : ¬ newSize ≤ 0) (source : Pointer) :
    dataReplace false (some data) newSize (some source) memory =
      some (-1, { memory with blocks := memory.blocks.free block
                              datas := memory.datas.modify data fun _ => ⟨newSize, none⟩ }) := by
  -- The structure gets the pointer that was not given.
  have given : mallocBlock false newSize.toNat { memory with blocks := memory.blocks.free block } =
      some (none, { memory with blocks := memory.blocks.free block }) := rfl
  rw [dataReplace_freed owns false positive, run_bind given]
  exact run_bind (writeData_live owns.object)

/-- With memory for the new bytes, they are copied once the old ones are freed. -/
theorem dataReplace_granted (positive : ¬ newSize ≤ 0) (source : Pointer) :
    dataReplace true (some data) newSize (some source) memory =
      (do
        memcpy ⟨memory.blocks.next, 0⟩ source newSize.toNat
        return 0 : Managed Int) (memory.emptied data block newSize) := by
  -- The block that was given out is a new one, and the structure points to it.
  have given : mallocBlock true newSize.toNat { memory with blocks := memory.blocks.free block } =
      some (some ⟨memory.blocks.next, 0⟩,
        { memory with
          blocks := (memory.blocks.free block).alloc (List.replicate newSize.toNat 0) }) := rfl
  rw [dataReplace_freed owns true positive, run_bind given]
  exact run_bind (writeData_live owns.object)

/-- Bytes from another block are copied, and the data block then holds them. -/
theorem dataReplace_copied (positive : ¬ newSize ≤ 0) {source : Pointer} {new : List UInt8}
    (read : memory.bytesAt source newSize.toNat = some new) (apart : source.block ≠ block) :
    ∃ after, dataReplace true (some data) newSize (some source) memory = some (0, after) ∧
      after.DataHolds data new := by
  obtain ⟨-, length⟩ := live_of_bytesAt read
  have copied := emptied_bytesAt data block newSize read
  rw [if_neg apart] at copied
  -- The new block has room for all of them, and nothing of it is left as it was.
  have placed : (memory.emptied data block newSize).blocks.objects memory.blocks.next =
      some (List.replicate newSize.toNat 0) := Heap.alloc_next (memory.blocks.free block) _
  have room := bytesAt_whole placed List.length_replicate
  have object : (memory.emptied data block newSize).datas.objects data =
      some ⟨newSize, some ⟨memory.blocks.next, 0⟩⟩ := by
    rw [Memory.emptied, Heap.modify_self, owns.object, Option.map_some]
  refine ⟨_, (dataReplace_granted owns positive source).trans (run_bind (memcpy_read copied room)),
    dataValid_live object (Int.not_le.mp positive), ?_⟩
  rw [Memory.contents, object]
  refine bytesAt_whole ?_ length
  rw [Heap.modify_self, placed]
  simp

/-- What a replacement of the contents of data is to do: all of it, or nothing. -/
def DataReplaced (memory : Memory) (granted : Bool) (data : Nat) (newSize : Int)
    (newData : Option Pointer) (old : List UInt8) : Prop :=
  ∃ result after, dataReplace granted (some data) newSize newData memory = some (result, after) ∧
    (result = 0 → ∃ source ∈ newData, ∃ new,
      memory.bytesAt source newSize.toNat = some new ∧ after.DataHolds data new) ∧
    (result = -1 → after.DataHolds data old)

/-- Without a size or without bytes the data is kept, as it is to be. -/
theorem dataReplaced_of_refused (granted : Bool) (refused : newSize ≤ 0 ∨ newData = none) :
    DataReplaced memory granted data newSize newData bytes :=
  ⟨-1, memory, dataReplace_refused owns granted refused, fun done => absurd done (by decide),
    fun _ => owns.holds⟩

/-- Data is replaced as it is to be exactly if there is memory for bytes from elsewhere. -/
theorem dataReplaced_iff (granted : Bool) :
    DataReplaced memory granted data newSize newData bytes ↔
      newSize ≤ 0 ∨ newData = none ∨ (granted = true ∧ ∃ source ∈ newData,
        source.block ≠ block ∧ (memory.bytesAt source newSize.toNat).isSome) := by
  constructor
  · rintro ⟨result, after, ran, replaced, kept⟩
    by_cases positive : newSize ≤ 0
    · exact .inl positive
    cases newData with
    | none => exact .inr (.inl rfl)
    | some source =>
      cases granted with
      | false =>
        -- The block has lost its bytes, which it is to have kept.
        rw [dataReplace_ungranted owns positive] at ran
        cases ran
        obtain ⟨size, pointer, live, -⟩ := live_of_dataValid (kept rfl).1
        rw [Heap.modify_self, owns.object] at live
        cases live
      | true =>
        rw [dataReplace_granted owns positive] at ran
        cases copied : memcpy ⟨memory.blocks.next, 0⟩ source newSize.toNat
            (memory.emptied data block newSize) with
        | none =>
          rw [run_bind_none copied] at ran
          cases ran
        | some copy =>
          rw [run_bind copied] at ran
          cases ran
          obtain ⟨_, found, new, read, -⟩ := replaced rfl
          cases found
          refine .inr (.inr ⟨rfl, source, rfl, fun own => ?_, by rw [read]; rfl⟩)
          -- The bytes of the block itself are gone before they could be copied.
          have gone := emptied_bytesAt data block newSize read
          rw [if_pos own] at gone
          rw [memcpy, gone] at copied
          cases copied
  · rintro (empty | missing | ⟨rfl, source, found, apart, readable⟩)
    · exact dataReplaced_of_refused owns granted (.inl empty)
    · exact dataReplaced_of_refused owns granted (.inr missing)
    · cases found
      by_cases positive : newSize ≤ 0
      · exact dataReplaced_of_refused owns true (.inl positive)
      · obtain ⟨new, read⟩ := Option.isSome_iff_exists.mp readable
        obtain ⟨after, ran, holds⟩ := dataReplace_copied owns positive read apart
        exact ⟨0, after, ran, fun _ => ⟨source, rfl, new, read, holds⟩,
          fun failed => absurd failed (by decide)⟩

end Data

section Entries

variable {entry keyBlock data block : Nat} {key bytes : List UInt8}

/-- Reading an entry that is there. -/
theorem readEntry_live {object : EntryObject} (live : memory.entries.objects entry = some object) :
    readEntry entry memory = some (object, memory) := by
  -- The structure is there.
  rw [readEntry, live, Option.map_some]

/-- Assigning an entry that is there. -/
theorem writeEntry_live {object old : EntryObject}
    (live : memory.entries.objects entry = some old) :
    writeEntry entry object memory =
      some ((), { memory with entries := memory.entries.modify entry fun _ => object }) := by
  -- The structure is read before it is assigned.
  rw [writeEntry, run_bind (readEntry_live live)]
  rfl

/-- A string that can be read is in a block that is there. -/
theorem live_of_stringAt {pointer : Pointer} (read : memory.stringAt pointer = some key) :
    ∃ held, memory.blocks.objects pointer.block = some held := by
  -- There is no string without a block.
  rw [Memory.stringAt, Option.bind_eq_some_iff] at read
  obtain ⟨held, live, -⟩ := read
  exact ⟨held, live⟩

/-- An entry that is there, with a key and valid data, is valid. -/
theorem entryValid_live {pointer : Pointer}
    (live : memory.entries.objects entry = some ⟨some pointer, some data⟩)
    (valid : dataValid (some data) memory = some (0, memory)) :
    entryValid (some entry) memory = some (0, memory) := by
  -- The key is not NULL, and the data is valid.
  rw [entryValid, run_bind (readEntry_live live), if_neg (by simp), run_bind valid,
    if_neg (by decide)]
  rfl

/-- The pair of an entry is its key, and what its data holds. -/
theorem pair_live {pointer : Pointer}
    (live : memory.entries.objects entry = some ⟨some pointer, some data⟩) :
    memory.pair entry = some (key, bytes) ↔
      memory.stringAt pointer = some key ∧ memory.contents data = some bytes := by
  -- Both pointers are followed from the structure.
  rw [Memory.pair, live]
  simp [Option.bind_eq_some_iff]

/-- What `data_valid` says leaves memory as it was. -/
theorem dataValid_cases {value : Option Nat} {result : Int}
    (ran : dataValid value memory = some (result, memory')) :
    memory' = memory ∧ (result = 0 ∨ result = -1) := by
  -- The checks only read the structure.
  cases value with
  | none =>
    cases ran
    exact ⟨rfl, .inr rfl⟩
  | some data =>
    cases live : memory.datas.objects data with
    | none =>
      have stuck : readData data memory = none := by rw [readData, live, Option.map_none]
      rw [dataValid, run_bind_none stuck] at ran
      cases ran
    | some object =>
      rw [dataValid, run_bind (readData_live live)] at ran
      split at ran
      · cases ran
        exact ⟨rfl, .inr rfl⟩
      split at ran
      · cases ran
        exact ⟨rfl, .inr rfl⟩
      · cases ran
        exact ⟨rfl, .inl rfl⟩

/-- The value of a valid entry is valid. -/
theorem value_of_entryValid {object : EntryObject}
    (live : memory.entries.objects entry = some object)
    (valid : entryValid (some entry) memory = some (0, memory)) :
    dataValid object.value memory = some (0, memory) := by
  rw [entryValid, run_bind (readEntry_live live)] at valid
  split at valid
  · cases valid
  · cases checked : dataValid object.value memory with
    | none =>
      rw [run_bind_none checked] at valid
      cases valid
    | some outcome =>
      obtain ⟨result, after⟩ := outcome
      obtain ⟨rfl, rfl | rfl⟩ := dataValid_cases checked
      · rfl
      · -- An invalid value makes the entry invalid.
        rw [run_bind checked, if_pos rfl] at valid
        cases valid

/-- What memory is like after an entry got another key and another value. -/
def Memory.exchanged (memory : Memory) (entry keyBlock data block : Nat) (newKey : Pointer)
    (newValue : Option Nat) : Memory where
  blocks := (memory.blocks.free block).free keyBlock
  datas := memory.datas.free data
  entries := memory.entries.modify entry fun _ => ⟨some newKey, newValue⟩
  arrays := memory.arrays

section Exchanged

variable {newKey : Pointer} {newValue : Option Nat}

/-- The blocks that are there after the exchange are those there before, but for two of them. -/
theorem exchanged_live {address : Nat} {held : List UInt8}
    (live : (memory.exchanged entry keyBlock data block newKey newValue).blocks.objects address =
      some held) :
    (address ≠ keyBlock ∧ address ≠ block) ∧ memory.blocks.objects address = some held := by
  -- The exchange frees the key first and the block of the value after it.
  obtain ⟨notKey, live⟩ := Heap.live_of_free _ live
  obtain ⟨notBlock, live⟩ := Heap.live_of_free _ live
  exact ⟨⟨notKey, notBlock⟩, live⟩

/-- A block that is not freed is there after the exchange as it was before. -/
theorem exchanged_blocks {address : Nat} (kept : address ≠ keyBlock ∧ address ≠ block) :
    (memory.exchanged entry keyBlock data block newKey newValue).blocks.objects address =
      memory.blocks.objects address :=
  (Heap.free_other _ kept.1).trans (Heap.free_other _ kept.2)

end Exchanged

variable (owns : memory.OwnsEntry entry keyBlock data block key bytes)
include owns

/-- It is valid, and holds its key and its bytes. -/
theorem Memory.OwnsEntry.holds : memory.EntryHolds entry key bytes :=
  ⟨entryValid_live owns.object owns.value.valid,
    (pair_live owns.object).mpr ⟨owns.key, owns.value.holds.2⟩⟩

/-- Without a key nothing is replaced. -/
theorem entryReplace_refused (newValue : Option Nat) :
    entryReplace (some entry) none newValue memory = some (-1, memory) := by
  -- The entry is valid, but the key is NULL.
  unfold entryReplace
  rw [run_bind owns.holds.1, if_neg (by decide)]
  rfl

/-- With a key, the old key and value are freed, and the new ones are assigned as they are. -/
theorem entryReplace_exchanged (newKey : Pointer) (newValue : Option Nat) :
    entryReplace (some entry) (some newKey) newValue memory =
      some (0, memory.exchanged entry keyBlock data block newKey newValue) := by
  obtain ⟨held, keyLive⟩ := live_of_stringAt owns.key
  -- The block of the key is another one than that of the value, so it is still there.
  rw [← Heap.free_other memory.blocks owns.apart] at keyLive
  unfold entryReplace
  rw [run_bind owns.holds.1, if_neg (by decide)]
  refine (run_bind (readEntry_live owns.object)).trans ((run_bind owns.value.destroy).trans ?_)
  rw [if_neg (by decide)]
  exact (run_bind (freeBlock_live keyLive)).trans (run_bind (writeEntry_live owns.object))

/-- The new key and the new value are in the entry. -/
theorem exchanged_object (newKey : Pointer) (newValue : Option Nat) :
    (memory.exchanged entry keyBlock data block newKey newValue).entries.objects entry =
      some ⟨some newKey, newValue⟩ := by
  -- The exchange assigns the structure, which was there.
  rw [Memory.exchanged, Heap.modify_self, owns.object, Option.map_some]

/-- What a replacement of the contents of an entry is to do: all of it, or nothing. -/
def EntryReplaced (memory : Memory) (entry : Nat) (newKey : Option Pointer) (newValue : Option Nat)
    (key bytes : List UInt8) : Prop :=
  ∃ result after, entryReplace (some entry) newKey newValue memory = some (result, after) ∧
    (result = 0 → ∃ target ∈ newKey, ∃ value ∈ newValue, ∃ string new,
      memory.stringAt target = some string ∧ memory.contents value = some new ∧
        after.EntryHolds entry string new) ∧
    (result = -1 → after.EntryHolds entry key bytes)

/-- The new key and the new value of an entry share no memory with the old ones. -/
structure Memory.Apart (memory : Memory) (keyBlock data block : Nat) (newKey : Pointer)
    (newValue : Nat) : Prop where
  key : newKey.block ≠ keyBlock ∧ newKey.block ≠ block
  value : newValue ≠ data
  bytes : ∀ size pointer, memory.datas.objects newValue = some ⟨size, some pointer⟩ →
    pointer.block ≠ keyBlock ∧ pointer.block ≠ block

/-- An entry is replaced as it is to be exactly if the new value is valid and nothing is shared. -/
theorem entryReplaced_iff (newKey : Option Pointer) (newValue : Option Nat) :
    EntryReplaced memory entry newKey newValue key bytes ↔
      newKey = none ∨ ∃ target ∈ newKey, ∃ value ∈ newValue,
        (memory.stringAt target).isSome ∧ (∃ new, memory.DataHolds value new) ∧
          memory.Apart keyBlock data block target value := by
  constructor
  · rintro ⟨result, after, ran, replaced, -⟩
    cases newKey with
    | none => exact .inl rfl
    | some target =>
      rw [entryReplace_exchanged owns] at ran
      cases ran
      obtain ⟨_, foundKey, value, foundValue, string, new, read, contents, valid, pair⟩ :=
        replaced rfl
      cases foundKey
      cases foundValue
      -- The new value is still there, and so are the key and the bytes that can be read.
      have object := exchanged_object owns target (some value)
      obtain ⟨size, pointer, live, positive⟩ :=
        live_of_dataValid (value_of_entryValid object valid)
      obtain ⟨other, before⟩ := Heap.live_of_free _ live
      obtain ⟨string', bytes'⟩ := (pair_live object).mp pair
      obtain ⟨held, keyLive⟩ := live_of_stringAt string'
      rw [contents_live live] at bytes'
      obtain ⟨⟨held', bytesLive⟩, -⟩ := live_of_bytesAt bytes'
      refine .inr ⟨target, rfl, value, rfl, by rw [read]; rfl,
        ⟨new, dataValid_live before positive, contents⟩, (exchanged_live keyLive).1, other,
        fun size' pointer' same => ?_⟩
      rw [before] at same
      cases same
      exact (exchanged_live bytesLive).1
  · rintro (rfl | ⟨target, rfl, value, rfl, readable, ⟨new, valid, contents⟩, apart⟩)
    · exact ⟨-1, memory, entryReplace_refused owns newValue, fun done => absurd done (by decide),
        fun _ => owns.holds⟩
    · obtain ⟨string, read⟩ := Option.isSome_iff_exists.mp readable
      refine ⟨0, _, entryReplace_exchanged owns target (some value),
        fun _ => ⟨target, rfl, value, rfl, string, new, read, contents, ?_⟩,
        fun failed => absurd failed (by decide)⟩
      -- Neither the new value nor the blocks behind its pointer and the key are freed.
      obtain ⟨size, pointer, live, positive⟩ := live_of_dataValid valid
      have object := exchanged_object owns target (some value)
      have kept : (memory.exchanged entry keyBlock data block target (some value)).datas.objects
          value = some ⟨size, some pointer⟩ := by
        rw [Memory.exchanged, Heap.free_other _ apart.value, live]
      refine ⟨entryValid_live object (dataValid_live kept positive),
        (pair_live object).mpr ⟨?_, ?_⟩⟩
      · rwa [Memory.stringAt, exchanged_blocks apart.key]
      · rw [contents_live live] at contents
        rwa [contents_live kept, Memory.bytesAt, exchanged_blocks (apart.bytes size pointer live)]

end Entries

/-- With a key and a value from elsewhere, an entry is replaced as entries are as values. -/
theorem entryReplace_refines {entry keyBlock data block value : Nat} {old new : Key × Block}
    (owns : memory.OwnsEntry entry keyBlock data block old.1.bytes old.2.val) {target : Pointer}
    (string : memory.stringAt target = some new.1.bytes) (holds : memory.DataHolds value new.2.val)
    (apart : memory.Apart keyBlock data block target value) :
    ∃ after result, entryReplace (some entry) (some target) (some value) memory =
        some (result, after) ∧
      after.EntryHolds entry new.1.bytes new.2.val ∧
      ChainTable.entryReplace (some (.ofPair old)) (Entry.ofPair new).key (Entry.ofPair new).value =
        (result, some (.ofPair new)) := by
  -- In memory all of the replacement is done, and it says so as that of the values does.
  have replaced := (entryReplaced_iff owns (some target) (some value)).mpr
    (.inr ⟨target, rfl, value, rfl, by rw [string]; rfl, ⟨new.2.val, holds⟩, apart⟩)
  obtain ⟨result, after, ran, done, -⟩ := replaced
  have returned : result = 0 := by
    rw [entryReplace_exchanged owns] at ran
    cases ran
    rfl
  subst returned
  obtain ⟨_, foundKey, _, foundValue, key, bytes, sameKey, sameBytes, entryHolds⟩ := done rfl
  cases foundKey
  cases foundValue
  rw [string] at sameKey
  rw [holds.2] at sameBytes
  cases sameKey
  cases sameBytes
  refine ⟨after, 0, ran, entryHolds, ?_⟩
  exact entryReplace_ofUsable (old.map id Block.usable) (new.map id Block.usable)

/--
`data_replace` and `entry_replace` do all of their work, or leave everything as it was, if only
memory is given for new bytes from elsewhere, and the new value is valid and shares no memory.
-/
theorem replacements_iff {memory : Memory} {data block : Nat} {old : List UInt8}
    (dataOwned : memory.OwnsData data block old) {entry keyBlock value valueBlock : Nat}
    {key bytes : List UInt8}
    (entryOwned : memory.OwnsEntry entry keyBlock value valueBlock key bytes) :
    (∀ granted newSize newData, DataReplaced memory granted data newSize newData old ↔
      newSize ≤ 0 ∨ newData = none ∨ (granted = true ∧ ∃ source ∈ newData,
        source.block ≠ block ∧ (memory.bytesAt source newSize.toNat).isSome)) ∧
    ∀ newKey newValue, EntryReplaced memory entry newKey newValue key bytes ↔
      newKey = none ∨ ∃ target ∈ newKey, ∃ newData ∈ newValue,
        (memory.stringAt target).isSome ∧ (∃ new, memory.DataHolds newData new) ∧
          memory.Apart keyBlock value valueBlock target newData :=
  ⟨fun granted _ _ => dataReplaced_iff dataOwned granted,
    fun newKey newValue => entryReplaced_iff entryOwned newKey newValue⟩

/-- An entry with the key `a` and one byte, and another byte and the key `b` to replace them. -/
def sampleMemory : Memory where
  blocks := (((Heap.empty.alloc [7]).alloc [8]).alloc [97, 0]).alloc [98, 0]
  datas := (Heap.empty.alloc ⟨1, some ⟨0, 0⟩⟩).alloc ⟨1, some ⟨1, 0⟩⟩
  entries := Heap.empty.alloc ⟨some ⟨2, 0⟩, some 0⟩
  arrays := .empty

/-- The first byte belongs to the first data block. -/
theorem sampleMemory_data : sampleMemory.OwnsData 0 0 [7] where
  object := rfl
  stored := rfl
  nonempty := by decide

/-- The entry owns its key and the first data block. -/
theorem sampleMemory_entry : sampleMemory.OwnsEntry 0 2 0 0 [97] [7] where
  object := rfl
  key := rfl
  value := sampleMemory_data
  apart := by decide

/-- Without memory data is lost, and without a value an entry is no longer valid. -/
theorem failed_replacement_is_invalid :
    sampleMemory.DataHolds 0 [7] ∧ ¬ DataReplaced sampleMemory false 0 1 (some ⟨1, 0⟩) [7] ∧
      sampleMemory.EntryHolds 0 [97] [7] ∧
      ¬ EntryReplaced sampleMemory 0 (some ⟨3, 0⟩) none [97] [7] := by
  refine ⟨sampleMemory_data.holds, ?_, sampleMemory_entry.holds, ?_⟩
  · rintro ⟨result, after, ran, -, kept⟩
    cases ran
    -- There is nothing behind the pointer any more.
    cases (kept rfl).2
  · rintro ⟨result, after, ran, replaced, -⟩
    cases ran
    obtain ⟨_, -, value, missing, -⟩ := replaced rfl
    cases missing

/-- With memory the byte and the entry are both replaced. -/
theorem replacements_iff_sample :
    DataReplaced sampleMemory true 0 1 (some ⟨1, 0⟩) [7] ∧
      EntryReplaced sampleMemory 0 (some ⟨3, 0⟩) (some 1) [97] [7] := by
  -- The conditions of the theorem are checked one by one.
  obtain ⟨data, entry⟩ := replacements_iff sampleMemory_data sampleMemory_entry
  refine ⟨(data true 1 _).mpr (.inr (.inr ⟨rfl, _, rfl, by decide, rfl⟩)),
    (entry _ _).mpr (.inr ⟨_, rfl, _, rfl, rfl, ⟨[8], rfl, rfl⟩, ⟨by decide, by decide⟩, by decide,
      ?_⟩)⟩
  intro size pointer held
  cases held
  exact ⟨by decide, by decide⟩

end ChainTable.Lifetime
