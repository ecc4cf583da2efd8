import ChainTable.Local.Replacement

/-! What `rtable_free_entries` does with the array of entries that a client got from a server. -/

namespace ChainTable.Lifetime

/-- Read a slot of an array of pointers to entries. -/
def readArray (array index : Nat) : Managed (Option Nat) := fun memory =>
  ((memory.arrays.objects array).bind fun slots => slots[index]?).map (·, memory)

/-- `free` of an array of pointers to entries. -/
def freeArray (array : Nat) : Managed Unit := fun memory =>
  (memory.arrays.objects array).map fun _ =>
    ((), { memory with arrays := memory.arrays.free array })

/-- The loop of `rtable_free_entries` for so many rounds: whether it came to its end. -/
def freeEntriesLoop (entries i : Nat) : (rounds : Nat) → Managed Bool
  | 0 => return false
  | rounds + 1 => do
    match ← readArray entries i with
    | none => return true
    | some entry =>
      let _ ← entryDestroy (some entry)
      -- The next round looks at the same slot again.
      freeEntriesLoop entries i rounds

/-- `rtable_free_entries`, given so many rounds of its loop: whether it returned. -/
def rtableFreeEntries (rounds : Nat) : (entries : Option Nat) → Managed Bool
  | none => return true
  | some entries => do
    if !(← freeEntriesLoop entries 0 rounds) then return false
    freeArray entries
    return true

variable {memory memory' : Memory}

/-- Reading the structure of a data block leaves memory as it was. -/
theorem readData_kept {data : Nat} {object : DataObject}
    (ran : readData data memory = some (object, memory')) : memory' = memory := by
  -- The read answers with the memory it was given.
  obtain ⟨_, -, same⟩ := Option.map_eq_some_iff.mp ran
  cases same
  rfl

/-- Reading an entry leaves memory as it was. -/
theorem readEntry_kept {entry : Nat} {object : EntryObject}
    (ran : readEntry entry memory = some (object, memory')) : memory' = memory := by
  -- The read answers with the memory it was given.
  obtain ⟨_, -, same⟩ := Option.map_eq_some_iff.mp ran
  cases same
  rfl

/-- Freeing a block changes nothing but the blocks. -/
theorem freeBlock_kept {pointer : Option Pointer}
    (ran : freeBlock pointer memory = some ((), memory')) :
    ∃ blocks, memory' = { memory with blocks := blocks } := by
  -- A NULL pointer frees nothing, and any other one its block.
  cases pointer with
  | none =>
    cases ran
    exact ⟨memory.blocks, rfl⟩
  | some pointer =>
    dsimp only [freeBlock] at ran
    split at ran
    · cases ran
      exact ⟨_, rfl⟩
    · cases ran

/-- Destroying data changes nothing but the data and the blocks. -/
theorem dataDestroy_kept {value : Option Nat} {result : Int}
    (ran : dataDestroy value memory = some (result, memory')) :
    ∃ blocks datas, memory' = { memory with blocks := blocks, datas := datas } := by
  obtain ⟨checked, _, validated, destroyed⟩ := bind_ran ran
  obtain ⟨rfl, -⟩ := dataValid_cases validated
  split at destroyed
  · cases destroyed
    exact ⟨_, _, rfl⟩
  cases value with
  | none =>
    cases destroyed
    exact ⟨_, _, rfl⟩
  | some data =>
    -- The block is freed first, and then the structure.
    obtain ⟨object, _, read, freeing⟩ := bind_ran destroyed
    obtain rfl := readData_kept read
    obtain ⟨_, _, freed, freeing⟩ := bind_ran freeing
    obtain ⟨blocks, rfl⟩ := freeBlock_kept freed
    obtain ⟨_, _, gone, returned⟩ := bind_ran freeing
    obtain ⟨_, _, found, rest⟩ := bind_ran gone
    obtain rfl := readData_kept found
    cases rest
    cases returned
    exact ⟨_, _, rfl⟩

/-- Destroying a valid entry takes the entry away, and no array. -/
theorem entryDestroy_freed {entry : Nat} {result : Int}
    (valid : entryValid (some entry) memory = some (0, memory))
    (ran : entryDestroy (some entry) memory = some (result, memory')) :
    memory'.entries.objects entry = none ∧ memory'.arrays = memory.arrays := by
  unfold entryDestroy at ran
  rw [run_bind valid, if_neg (by decide)] at ran
  -- The value is destroyed first, then the key is freed, and then the entry.
  obtain ⟨object, _, read, freeing⟩ := bind_ran ran
  obtain rfl := readEntry_kept read
  obtain ⟨_, _, destroyed, freeing⟩ := bind_ran freeing
  obtain ⟨blocks, datas, rfl⟩ := dataDestroy_kept destroyed
  obtain ⟨_, _, freed, freeing⟩ := bind_ran freeing
  obtain ⟨blocks', rfl⟩ := freeBlock_kept freed
  obtain ⟨_, _, gone, returned⟩ := bind_ran freeing
  obtain ⟨_, _, found, rest⟩ := bind_ran gone
  obtain rfl := readEntry_kept found
  cases rest
  cases returned
  exact ⟨Heap.free_self _, rfl⟩

/-- An entry cannot be destroyed once it is gone. -/
theorem entryDestroy_gone {entry : Nat} (gone : memory.entries.objects entry = none) :
    entryDestroy (some entry) memory = none := by
  -- The check of the entry already reads it.
  have stuck : readEntry entry memory = none := by rw [readEntry, gone, Option.map_none]
  have unchecked : entryValid (some entry) memory = none := run_bind_none stuck
  exact run_bind_none unchecked

/-- All entries of an array are destroyed, each of them once, and then the array is freed. -/
def EntriesFreed (memory : Memory) (array : Nat) (entries : List Nat) : Prop :=
  ∃ rounds after, rtableFreeEntries rounds (some array) memory = some (true, after) ∧
    (∀ entry ∈ entries, after.entries.objects entry = none) ∧ after.arrays.objects array = none

/-- Reading a slot of an array that is there. -/
theorem readArray_live {array index : Nat} {slots : List (Option Nat)} {slot : Option Nat}
    (live : memory.arrays.objects array = some slots) (found : slots[index]? = some slot) :
    readArray array index memory = some (slot, memory) := by
  -- The array is there, and has the slot.
  rw [readArray, live, Option.bind_some, found, Option.map_some]

/-- With an entry in front the loop never comes to its end. -/
theorem freeEntriesLoop_endless {array first : Nat} {slots : List (Option Nat)}
    (held : memory.arrays.objects array = some (some first :: slots))
    (valid : entryValid (some first) memory = some (0, memory)) (rounds : Nat) (after : Memory) :
    freeEntriesLoop array 0 rounds memory ≠ some (true, after) := by
  intro ended
  cases rounds with
  | zero => cases ended
  | succ rounds =>
    rw [freeEntriesLoop, run_bind (readArray_live held rfl)] at ended
    obtain ⟨result, freed, destroyed, again⟩ := bind_ran ended
    obtain ⟨gone, arrays⟩ := entryDestroy_freed valid destroyed
    cases rounds with
    | zero => cases again
    | succ rounds =>
      -- The slot still points to the entry, which is destroyed a second time.
      have same : freed.arrays.objects array = some (some first :: slots) := by rw [arrays, held]
      rw [freeEntriesLoop, run_bind (readArray_live same rfl)] at again
      obtain ⟨_, _, destroyed, -⟩ := bind_ran again
      cases (entryDestroy_gone gone).symm.trans destroyed

/--
`rtable_free_entries` frees an array and its entries exactly if there are no entries.

With any entry it destroys the first one twice.
-/
theorem free_entries_iff {array : Nat} {entries : List Nat}
    (held : memory.arrays.objects array = some (entries.map some ++ [none]))
    (valid : ∀ entry ∈ entries, entryValid (some entry) memory = some (0, memory)) :
    EntriesFreed memory array entries ↔ entries = [] := by
  constructor
  · rintro ⟨rounds, after, ran, -⟩
    cases entries with
    | nil => rfl
    | cons first rest =>
      obtain ⟨ended, freed, looped, returned⟩ := bind_ran ran
      cases ended with
      | false => cases returned
      | true =>
        exact absurd looped (freeEntriesLoop_endless held (valid first List.mem_cons_self) _ _)
  · rintro rfl
    -- The loop sees NULL in the first slot, and the array is freed.
    have looped : freeEntriesLoop array 0 1 memory = some (true, memory) := by
      rw [freeEntriesLoop, run_bind (readArray_live held rfl)]
      rfl
    have freed : freeArray array memory =
        some ((), { memory with arrays := memory.arrays.free array }) := by
      rw [freeArray, held, Option.map_some]
    refine ⟨1, { memory with arrays := memory.arrays.free array }, ?_,
      fun entry member => absurd member List.not_mem_nil, Heap.free_self _⟩
    rw [rtableFreeEntries, run_bind looped, if_neg (by decide)]
    exact run_bind freed

/-- The array that a client gets with one entry. -/
def sampleAnswer : Memory := { sampleMemory with arrays := Heap.empty.alloc [some 0, none] }

/-- The entry is valid and in the array alone, but it is not destroyed just once. -/
theorem free_entries_frees_twice :
    sampleAnswer.arrays.objects 0 = some ([0].map some ++ [none]) ∧
      entryValid (some 0) sampleAnswer = some (0, sampleAnswer) ∧
      ¬ EntriesFreed sampleAnswer 0 [0] := by
  refine ⟨rfl, rfl, ?_⟩
  rintro ⟨rounds, after, ran, -⟩
  match rounds with
  | 0 => cases ran
  | 1 => cases ran
  -- From the second round on there is no entry to destroy.
  | rounds + 2 => cases ran

/-- The array of an empty table is freed, and one with an entry is not. -/
theorem free_entries_iff_empty :
    EntriesFreed { sampleMemory with arrays := Heap.empty.alloc [none] } 0 [] ∧
      ¬ EntriesFreed sampleAnswer 0 [0] := by
  -- The theorem is applied to both arrays, and only the first has no entries.
  refine ⟨(free_entries_iff rfl fun _ member => absurd member List.not_mem_nil).mpr rfl,
    fun freed => ?_⟩
  have valid : ∀ entry ∈ [0], entryValid (some entry) sampleAnswer = some (0, sampleAnswer) :=
    List.forall_mem_singleton.mpr rfl
  exact absurd ((free_entries_iff rfl valid).mp freed) (List.cons_ne_nil _ _)

end ChainTable.Lifetime
