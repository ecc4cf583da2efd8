import ChainTable.Local.Replacement
import ChainTable.Pointers.Memory

/-! Data and entries behind pointers: their copies, and what they have in memory. -/

namespace ChainTable.Lifetime


/-- The string behind a pointer. -/
def readString (pointer : Pointer) : Pointed (List UInt8) := fun memory =>
  (memory.memory.stringAt pointer).map (·, memory)

/-- `strdup`, with the block of the copy. -/
def strdup (source : Pointer) : Pointed (Option Nat) := do
  let string ← readString source
  match ← blocks.malloc (List.replicate (string.length + 1) 0) with
  | none => return none
  | some block =>
    blocks.write block (string ++ [0])
    return some block

/-- `data_dup`. -/
def dataDup (data : Option Nat) : Pointed (Option Nat) := do
  if (← onMemory (dataValid data)) = -1 then return none
  match data with
  | none => failure
  | some data =>
    match ← datas.malloc ⟨0, none⟩ with
    | none => return none
    | some newData =>
      let held ← datas.read data
      let block ← blocks.malloc (List.replicate held.datasize.toNat 0)
      datas.write newData ⟨held.datasize, block.map fun block => ⟨block, 0⟩⟩
      match block, held.data with
      | some block, some source =>
        onMemory (memcpy ⟨block, 0⟩ source held.datasize.toNat)
        return some newData
      | none, _ =>
        datas.free newData
        return none
      | some _, none => failure

/-- The copies that `entry_create` and `entry_dup` give to a new entry, or its end without them. -/
def fillEntry (entry : Nat) (key : Pointer) (data : Option Nat) : Pointed (Option Nat) := do
  let string ← readString key
  let keyBlock ← blocks.malloc (List.replicate (string.length + 1) 0)
  entries.write entry ⟨keyBlock.map fun block => ⟨block, 0⟩, none⟩
  match keyBlock with
  | none =>
    entries.free entry
    return none
  | some keyBlock =>
    blocks.write keyBlock (string ++ [0])
    let value ← dataDup data
    entries.write entry ⟨some ⟨keyBlock, 0⟩, value⟩
    if value.isNone then
      blocks.free keyBlock
      entries.free entry
      return none
    return some entry

/-- `entry_create`. -/
def entryCreate (key : Option Pointer) (data : Option Nat) : Pointed (Option Nat) := do
  match key with
  | none => return none
  | some key =>
    if (← onMemory (dataValid data)) = -1 then return none
    match ← entries.malloc ⟨none, none⟩ with
    | none => return none
    | some entry => fillEntry entry key data

/-- `entry_dup`. -/
def entryDup (entry : Option Nat) : Pointed (Option Nat) := do
  if (← onMemory (entryValid entry)) = -1 then return none
  match entry with
  | none => failure
  | some entry =>
    match ← entries.malloc ⟨none, none⟩ with
    | none => return none
    | some newEntry =>
      let held ← entries.read entry
      match held.key with
      | none => failure
      | some key => fillEntry newEntry key held.value

/-- `entry_compare`. -/
def entryCompare (entry1 entry2 : Option Nat) : Pointed Int := do
  if (← onMemory (entryValid entry1)) = -1 then return -2
  if (← onMemory (entryValid entry2)) = -1 then return -2
  match entry1, entry2 with
  | some entry1, some entry2 =>
    let held1 ← entries.read entry1
    let held2 ← entries.read entry2
    match held1.key, held2.key with
    | some key1, some key2 =>
      let string1 ← readString key1
      let string2 ← readString key2
      let compare := strcmpBytes string1 string2
      if compare < 0 then return -1
      if compare > 0 then return 1
      return 0
    | _, _ => failure
  | _, _ => failure

section OnMemory

variable {α β : Type}

/-- A value takes no memory. -/
@[simp] theorem onMemory_pure (value : α) : onMemory (pure value) = pure value := rfl

/-- A sequence on a part of the memory is a sequence on all of it. -/
@[simp] theorem onMemory_bind (first : Managed α) (next : α → Managed β) :
    onMemory (first >>= next) = onMemory first >>= fun value => onMemory (next value) := by
  -- A first part that faults does so on all of the memory.
  funext memory
  cases head : first memory.memory with
  | none => simp [onMemory, Bind.bind, StateT.bind, head]
  | some left => simp [onMemory, Bind.bind, StateT.bind, head]

/-- A choice on a part of the memory is a choice on all of it. -/
@[simp] theorem onMemory_ite (condition : Prop) [Decidable condition] (first second : Managed α) :
    onMemory (if condition then first else second) =
      if condition then onMemory first else onMemory second :=
  apply_ite onMemory condition first second

/-- Reading the structure of data. -/
@[simp] theorem onMemory_readData (data : Nat) : onMemory (readData data) = datas.read data := by
  -- The rest of the memory is handed through.
  funext memory
  simp [onMemory, readData, Kind.read, datas, Function.comp_def]

/-- Freeing the structure of data. -/
@[simp] theorem onMemory_freeData (data : Nat) : onMemory (freeData data) = datas.free data := by
  -- Data is freed by reading it first, which is how a live object is told from a freed one.
  rw [freeData, onMemory_bind, onMemory_readData]
  rfl

/-- Reading an entry. -/
@[simp] theorem onMemory_readEntry (entry : Nat) :
    onMemory (readEntry entry) = entries.read entry := by
  -- The rest of the memory is handed through.
  funext memory
  simp [onMemory, readEntry, Kind.read, entries, Function.comp_def]

/-- Assigning an entry. -/
@[simp] theorem onMemory_writeEntry (entry : Nat) (object : EntryObject) :
    onMemory (writeEntry entry object) = entries.write entry object := by
  -- An entry is assigned by reading it first, so that only a live one can be.
  rw [writeEntry, onMemory_bind, onMemory_readEntry]
  rfl

/-- Freeing an entry. -/
@[simp] theorem onMemory_freeEntry (entry : Nat) :
    onMemory (freeEntry entry) = entries.free entry := by
  -- An entry is freed by reading it first, so that only a live one can be.
  rw [freeEntry, onMemory_bind, onMemory_readEntry]
  rfl

/-- Freeing a block by the pointer to its start. -/
@[simp] theorem onMemory_freeBlock (block : Nat) :
    onMemory (freeBlock (some ⟨block, 0⟩)) = blocks.free block := by
  -- The pointer to the start of a block is the only one that may be freed.
  funext memory
  cases live : memory.memory.blocks.objects block with
  | none => simp [onMemory, freeBlock, Kind.free, Kind.read, blocks, Bind.bind, StateT.bind, live]
  | some held =>
    simp [onMemory, freeBlock, Kind.free, Kind.read, blocks, Bind.bind, StateT.bind, live]
    rfl

end OnMemory

/-- A string has a block of its own. -/
def stringAt (block : Nat) (key : Key) : Assertion Address Object :=
  blocks.holds block (key.bytes ++ [0])

/-- Valid data has a structure and a block, both its own. -/
def dataAt (data : Nat) (held : Data) : Assertion Address Object :=
  .any fun block => .any fun bytes => .given (held.data = some bytes ∧ 0 < held.datasize)
    (datas.holds data ⟨held.datasize, some ⟨block, 0⟩⟩ * blocks.holds block bytes)

/-- A valid entry has a structure, a key and data, all its own. -/
def entryAt (entry : Nat) (held : Entry) : Assertion Address Object :=
  .any fun keyBlock => .any fun data => .any fun key => .any fun value =>
    .given (held = ⟨some key, some value⟩)
      (entries.holds entry ⟨some ⟨keyBlock, 0⟩, some data⟩ *
        (stringAt keyBlock key * dataAt data value))

/-- A pointer and a value are both there, or neither is. -/
def nullable {γ δ : Type} (holds : γ → δ → Assertion Address Object) :
    Option γ → Option δ → Assertion Address Object
  | some pointer, some value => holds pointer value
  | none, none => 1
  | _, _ => .given False 1

section Rules

variable {α β : Type} {others : Assertion Address Object} {model : C β}
  {after : α → β → Assertion Address Object}

/-- A string in a block of its own is read. -/
theorem readString_next {block : Nat} {key : Key} {next : List UInt8 → Pointed α}
    (rest : Follows objects (stringAt block key * others) (next key.bytes) model after) :
    Follows objects (stringAt block key * others) (readString ⟨block, 0⟩ >>= next) model after := by
  -- The bytes up to the terminator are those of the key, and nothing is changed.
  refine .access _ (some (.block (key.bytes ++ [0]))) key.bytes
    (fun memory seen => ⟨memory, ?_, rfl, ?_⟩) rest
  · have live : memory.memory.blocks.objects block = some (key.bytes ++ [0]) :=
      blocks.live_of_seen seen
    have string := Terminated.takeWhile_word 0 key.nulFree []
    simp only [readString, Memory.stringAt, live, Option.bind_some, List.drop_zero]
    rw [if_pos (by simp), string, Option.map_some]
  · exact (Function.update_eq_self_iff.mpr seen.symm).symm

/-- The parts of data are data. -/
theorem le_dataAt (data block : Nat) {held : Data} {bytes : List UInt8}
    (valid : held.data = some bytes ∧ 0 < held.datasize) :
    datas.holds data ⟨held.datasize, some ⟨block, 0⟩⟩ * blocks.holds block bytes ≤
      dataAt data held :=
  fun _ parts => ⟨block, bytes, valid, parts⟩

/-- The parts of an entry are an entry. -/
theorem le_entryAt (keyBlock data : Nat) {key : Key} {value : Data} {entry : Nat} :
    entries.holds entry ⟨some ⟨keyBlock, 0⟩, some data⟩ *
      (stringAt keyBlock key * dataAt data value) ≤ entryAt entry ⟨some key, some value⟩ :=
  fun _ parts => ⟨keyBlock, data, key, value, rfl, parts⟩

/-- Valid data passes its check. -/
theorem dataValid_next {data : Nat} {held : Data} {next : Int → Pointed α}
    (rest : Follows objects (dataAt data held * others) (next 0) model after) :
    Follows objects (dataAt data held * others) (onMemory (dataValid (some data)) >>= next) model
      after := by
  -- The check reads the structure, whose pointer and size are those of valid data.
  refine .choose fun block => .choose fun bytes => .assume fun valid => ?_
  rw [mul_assoc]
  simp only [dataValid, onMemory_bind, onMemory_readData, bind_assoc]
  refine Kind.read_next ?_
  simp only [onMemory_ite, onMemory_pure]
  rw [if_neg (by simp), if_neg (Int.not_le.mpr valid.2), pure_bind, ← mul_assoc]
  exact rest.strengthen (mul_le_mul_left (le_dataAt _ _ valid) _)

/-- Valid data is freed with its block. -/
theorem dataDestroy_next {data : Nat} {held : Data} {next : Int → Pointed α}
    (rest : Follows objects others (next 0) model after) :
    Follows objects (dataAt data held * others) (onMemory (dataDestroy (some data)) >>= next) model
      after := by
  -- The data passes its check, and then the block and the structure are freed in turn.
  simp only [dataDestroy, onMemory_bind, onMemory_ite, onMemory_pure, bind_assoc]
  refine dataValid_next ?_
  rw [if_neg (by decide)]
  refine .choose fun block => .choose fun bytes => .assume fun valid => ?_
  rw [mul_assoc]
  simp only [onMemory_readData, bind_assoc]
  refine Kind.read_next ?_
  simp only [onMemory_freeBlock, onMemory_freeData]
  refine .permute (blocks.holds block bytes * (datas.holds data _ * others)) (mul_left_comm _ _ _)
    (Kind.free_next (Kind.free_next ?_))
  rwa [pure_bind]

/-- A valid entry passes its check. -/
theorem entryValid_next {entry : Nat} {held : Entry} {next : Int → Pointed α}
    (rest : Follows objects (entryAt entry held * others) (next 0) model after) :
    Follows objects (entryAt entry held * others) (onMemory (entryValid (some entry)) >>= next)
      model after := by
  -- The check reads the entry and then its data, which both stay where they are.
  refine .choose fun keyBlock => .choose fun data => .choose fun key => .choose fun value =>
    .assume fun same => ?_
  subst same
  rw [mul_assoc]
  simp only [entryValid, onMemory_bind, onMemory_readEntry, bind_assoc]
  refine Kind.read_next ?_
  simp only [onMemory_ite, onMemory_pure, onMemory_bind]
  rw [if_neg (by simp), bind_assoc]
  refine .permute (dataAt data value * (entries.holds entry _ * (stringAt keyBlock key * others)))
    (by ac_rfl) (dataValid_next ?_)
  rw [if_neg (by decide), pure_bind]
  refine rest.strengthen ?_
  rw [show dataAt data value * (entries.holds entry _ * (stringAt keyBlock key * others)) =
    entries.holds entry ⟨some ⟨keyBlock, 0⟩, some data⟩ *
      (stringAt keyBlock key * dataAt data value) * others by ac_rfl]
  exact mul_le_mul_left (le_entryAt keyBlock data) _

/-- A valid entry is freed with its key and its data. -/
theorem entryDestroy_next {entry : Nat} {held : Entry} {next : Int → Pointed α}
    (rest : Follows objects others (next 0) model after) :
    Follows objects (entryAt entry held * others) (onMemory (entryDestroy (some entry)) >>= next)
      model after := by
  -- The entry passes its check, and its data, its key and the entry itself are freed in turn.
  simp only [entryDestroy, onMemory_bind, onMemory_ite, onMemory_pure, bind_assoc]
  refine entryValid_next ?_
  rw [if_neg (by decide)]
  refine .choose fun keyBlock => .choose fun data => .choose fun key => .choose fun value =>
    .assume fun same => ?_
  rw [mul_assoc]
  simp only [onMemory_readEntry, bind_assoc]
  refine Kind.read_next ?_
  refine .permute (dataAt data value * (stringAt keyBlock key * (entries.holds entry _ * others)))
    (by ac_rfl) (dataDestroy_next ?_)
  simp only [onMemory_freeBlock, onMemory_freeEntry]
  refine Kind.free_next (Kind.free_next ?_)
  rwa [pure_bind]

/-- An entry is given another key and another value, which are a part of it from then on. -/
theorem entryReplace_next {entry keyBlock data : Nat} {held : Entry} {key : Key} {value : Data}
    {next : Int → Pointed α}
    (rest : Follows objects (entryAt entry ⟨some key, some value⟩ * others) (next 0) model after) :
    Follows objects (entryAt entry held * (stringAt keyBlock key * (dataAt data value * others)))
      (onMemory (entryReplace (some entry) (some ⟨keyBlock, 0⟩) (some data)) >>= next) model
      after := by
  -- The old data and the old key are freed before the entry is given the new ones.
  simp only [entryReplace, onMemory_bind, onMemory_ite, onMemory_pure, bind_assoc]
  refine entryValid_next ?_
  rw [if_neg (by decide)]
  refine .choose fun oldKeyBlock => .choose fun oldData => .choose fun oldKey =>
    .choose fun oldValue => .assume fun _ => ?_
  simp only [onMemory_readEntry, bind_assoc]
  rw [mul_assoc]
  refine Kind.read_next (.permute (dataAt oldData oldValue * (stringAt oldKeyBlock oldKey *
    (entries.holds entry _ * (stringAt keyBlock key * (dataAt data value * others))))) (by ac_rfl)
    (dataDestroy_next ?_))
  rw [if_neg (by decide)]
  simp only [onMemory_freeBlock, onMemory_writeEntry, bind_assoc]
  refine Kind.free_next ?_
  refine Kind.write_next ?_
  rw [pure_bind]
  refine rest.strengthen (le_trans (le_of_eq ?_) (mul_le_mul_left (le_entryAt keyBlock data) _))
  ac_rfl

/-- The first bytes of a block are copied to another one that has room for just these. -/
theorem memcpy_next {target source size : Nat} {bytes room : List UInt8} {next : Unit → Pointed α}
    (enough : size ≤ bytes.length) (length : room.length = size)
    (rest : Follows objects (blocks.holds target (bytes.take size) *
      (blocks.holds source bytes * others)) (next ()) model after) :
    Follows objects (blocks.holds target room * (blocks.holds source bytes * others))
      (onMemory (memcpy ⟨target, 0⟩ ⟨source, 0⟩ size) >>= next) model after := by
  have copies : Follows objects (blocks.holds target room * blocks.holds source bytes)
      (onMemory (memcpy ⟨target, 0⟩ ⟨source, 0⟩ size)) (pure () : C Unit)
      fun _ _ => blocks.holds target (bytes.take size) * blocks.holds source bytes := by
    intro frame memory held value left ran
    cases ran
    rw [mul_assoc, View.Has, Kind.holds, Assertion.cell_mul] at held
    obtain ⟨seen, held⟩ := held
    have source_held := held
    rw [Kind.holds, Assertion.cell_mul] at held
    obtain ⟨there, -⟩ := held
    -- The source is another block than the target, so it is seen in the memory itself.
    have apart : blocks.address source ≠ blocks.address target := fun same => by
      rw [same, Function.update_self] at there
      cases there
    rw [Function.update_of_ne apart] at there
    have liveTarget : memory.memory.blocks.objects target = some room :=
      blocks.live_of_seen seen
    have liveSource : memory.memory.blocks.objects source = some bytes :=
      blocks.live_of_seen there
    let copied := blocks.update (memory.memory.blocks.modify target fun _ => bytes.take size) memory
    refine ⟨(), copied, ?_, rfl, ?_⟩
    · simp only [onMemory, memcpy, Memory.bytesAt, liveTarget, liveSource, Option.bind_some,
        List.drop_zero]
      rw [if_pos (by simpa using enough), if_pos (by simp [length])]
      simp [Heap.modify, liveTarget, copied, blocks, ← length]
    · have changed : copied.objects = Function.update memory.objects (blocks.address target)
          (some (blocks.object (bytes.take size))) := by
        refine blocks.objects_update (some (bytes.take size)) ?_
        change (memory.memory.blocks.modify target fun _ => bytes.take size).objects = _
        dsimp only [Heap.modify]
        rw [liveTarget, Option.map_some]
        rfl
      change (_ * _ * frame) copied.objects
      rw [changed, mul_assoc, Kind.holds, Assertion.cell_mul, Function.update_self,
        Function.update_idem]
      exact ⟨rfl, source_held⟩
  rw [← mul_assoc] at rest ⊢
  exact copies.step fun _ => rest

/-- The parts of valid data pass the check of the model. -/
theorem dataValid_of_parts {held : Data} {bytes : List UInt8}
    (valid : held.data = some bytes ∧ 0 < held.datasize) :
    ¬ ChainTable.dataValid (some held) = -1 := by
  -- The pointer is not NULL and the size is positive, so that neither test refuses the data.
  unfold ChainTable.dataValid
  dsimp only
  rw [if_neg (by simp [valid.1]), if_neg (Int.not_le.mpr valid.2)]
  decide

/-- `data_dup` does what it does with values, and the copy has memory of its own. -/
theorem dataDup_follows (data : Nat) (held : Data) :
    Follows objects (dataAt data held) (dataDup (some data)) (ChainTable.dataDup (some held))
      fun result copy => dataAt data held * nullable dataAt result copy := by
  -- Two allocations are asked for, and after a second one that is refused the first is freed.
  unfold dataDup
  refine .permute (dataAt data held * 1) (mul_one _).symm (dataValid_next ?_)
  rw [if_neg (by decide)]
  refine .choose fun block => .choose fun bytes => .assume fun valid => ?_
  obtain ⟨size, pointed, isInt, readable⟩ := held
  obtain ⟨rfl, positive⟩ := id valid
  have fits : size ≤ bytes.length := readable bytes rfl
  unfold ChainTable.dataDup
  rw [if_neg (dataValid_of_parts valid)]
  dsimp only
  refine Kind.malloc_next ?_ fun newData => ?_
  · -- Without memory for the structure nothing was allocated.
    dsimp only
    simp only [Bool.not_false]
    exact .done (mul_le_mul_left (le_dataAt _ _ valid) _)
  · dsimp only
    simp only [Bool.not_true]
    refine .permute (datas.holds data _ * (blocks.holds block bytes * datas.holds newData _))
      (by rw [mul_one]; ac_rfl) (Kind.read_next (Kind.malloc_next ?_ fun newBlock => ?_))
    · -- Without memory for the block the structure is freed.
      refine .permute (datas.holds newData _ * (datas.holds data _ * blocks.holds block bytes))
        (by ac_rfl) (Kind.write_next ?_)
      simp only [Bool.not_false]
      exact Kind.free_next
        (.done (mul_le_mul_left (le_dataAt _ _ valid) 1 |>.trans' (mul_one _).ge))
    · -- With both the bytes are copied, and the copy has a block of its own.
      refine .permute (datas.holds newData _ * (blocks.holds newBlock _ *
        (blocks.holds block bytes * datas.holds data _))) (by ac_rfl) (Kind.write_next ?_)
      refine .permute (blocks.holds newBlock _ * (blocks.holds block bytes *
        (datas.holds newData _ * datas.holds data _))) (by ac_rfl)
        (memcpy_next (Int.toNat_le.mpr fits) List.length_replicate (.done ?_))
      have copied : (copyOf size bytes isInt (readable bytes rfl)).data =
          some (bytes.take size.toNat) ∧
            0 < (copyOf size bytes isInt (readable bytes rfl)).datasize := ⟨rfl, positive⟩
      have both := mul_le_mul' (le_dataAt data block valid) (le_dataAt newData newBlock copied)
      refine le_trans (le_of_eq ?_) both
      ac_rfl

/-- Valid data is valid for the model as well. -/
theorem valid_of_dataAt {data : Nat} {held : Data} {program : Pointed α}
    (each : ¬ ChainTable.dataValid (some held) = -1 →
      Follows objects (dataAt data held * others) program model after) :
    Follows objects (dataAt data held * others) program model after :=
  .choose fun _ => .choose fun _ => .assume fun valid =>
    (each (dataValid_of_parts valid)).strengthen (mul_le_mul_left (le_dataAt _ _ valid) _)

/-- A valid entry is valid for the model as well. -/
theorem valid_of_entryAt {entry : Nat} {held : Entry} {program : Pointed α}
    (each : ¬ ChainTable.entryValid (some held) = -1 →
      Follows objects (entryAt entry held * others) program model after) :
    Follows objects (entryAt entry held * others) program model after := by
  -- The entry that is held in memory has a key, and data that is valid.
  refine .choose fun keyBlock => .choose fun data => .choose fun key => .choose fun value =>
    .assume fun same => ?_
  subst same
  refine .permute (dataAt data value * (entries.holds entry _ * (stringAt keyBlock key * others)))
    (by ac_rfl) (valid_of_dataAt fun valid => ?_)
  refine (each ?_).strengthen ?_
  · unfold ChainTable.entryValid
    dsimp only
    rw [if_neg (by simp), if_neg valid]
    decide
  · refine le_trans (le_of_eq ?_) (mul_le_mul_left (le_entryAt keyBlock data) _)
    ac_rfl

/-- Either both the pointer and the value are missing, or both are there. -/
theorem nullable_cases {γ δ : Type} {holds : γ → δ → Assertion Address Object}
    {result : Option γ} {answer : Option δ} {program : Pointed α}
    (missing : result = none → answer = none → Follows objects others program model after)
    (there : ∀ pointer value, result = some pointer → answer = some value →
      Follows objects (holds pointer value * others) program model after) :
    Follows objects (nullable holds result answer * others) program model after := by
  -- In the mixed cases nothing can be held.
  cases result <;> cases answer
  · exact .permute others (one_mul _) (missing rfl rfl)
  · exact .assume False.elim
  · exact .assume False.elim
  · exact there _ _ rfl rfl

/-- `strdup` does what it does with values, and the copy has a block of its own. -/
theorem strdup_follows (block : Nat) (key : Key) :
    Follows objects (stringAt block key) (strdup ⟨block, 0⟩) (ChainTable.strdup key)
      fun result copy => stringAt block key * nullable stringAt result copy := by
  -- The string is read, one block is asked for, and the string is written to it.
  unfold strdup ChainTable.strdup
  refine .permute (stringAt block key * 1) (mul_one _).symm
    (readString_next (Kind.malloc_next (.done (le_refl _)) fun copy => ?_))
  exact Kind.write_next (.done (le_of_eq (by rw [mul_one]; exact mul_comm _ _)))

/-- A new entry is given copies of a key and of data, or is freed when one of them is missing. -/
theorem fillEntry_follows (entry block data : Nat) (fresh : EntryObject) (key : Key)
    (value : Data) :
    Follows objects (entries.holds entry fresh * (stringAt block key * dataAt data value))
      (fillEntry entry ⟨block, 0⟩ (some data))
      (do
        if !(← ChainTable.malloc) then return none
        let copy ← ChainTable.dataDup (some value)
        if copy.isNone then return none
        return some { key := some key, value := copy } : C (Option Entry))
      fun result entry => stringAt block key * dataAt data value *
        nullable entryAt result entry := by
  -- The key is copied first, and then the data; what is there already is freed on failure.
  unfold fillEntry
  refine .permute (stringAt block key * (entries.holds entry _ * dataAt data value))
    (by ac_rfl) (readString_next (Kind.malloc_next ?_ fun keyBlock => ?_))
  · -- Without memory for the key the entry is freed.
    refine .permute (entries.holds entry _ * (stringAt block key * dataAt data value))
      (by ac_rfl) (Kind.write_next (Kind.free_next (.done ?_)))
    exact (mul_one _).ge
  · refine .permute (entries.holds entry _ * (blocks.holds keyBlock _ *
      (stringAt block key * dataAt data value))) (by ac_rfl) (Kind.write_next ?_)
    refine .permute (blocks.holds keyBlock _ * (entries.holds entry _ *
      (stringAt block key * dataAt data value))) (by ac_rfl) (Kind.write_next ?_)
    refine .permute (dataAt data value * (entries.holds entry _ *
      (stringAt keyBlock key * stringAt block key))) (by unfold stringAt; ac_rfl)
      ((dataDup_follows data value).call fun copy held => ?_)
    refine .permute (nullable dataAt copy held * (entries.holds entry _ *
      (stringAt keyBlock key * (stringAt block key * dataAt data value)))) (by ac_rfl)
      (nullable_cases ?_ ?_)
    · -- Without a copy of the data the key and the entry are freed.
      rintro rfl rfl
      refine Kind.write_next (.permute (stringAt keyBlock key * (entries.holds entry _ *
        (stringAt block key * dataAt data value))) (by ac_rfl) ?_)
      exact Kind.free_next (Kind.free_next (.done (mul_one _).ge))
    · -- With both the entry is filled, and the arguments are what they were.
      rintro copy held rfl rfl
      refine .permute (entries.holds entry _ * (stringAt keyBlock key * dataAt copy held *
        (stringAt block key * dataAt data value))) (by ac_rfl) (Kind.write_next (.done ?_))
      rw [← mul_assoc, mul_comm]
      exact mul_le_mul_right (le_entryAt keyBlock copy) _

/-- `entry_create` does what it does with values, and copies the key and the data. -/
theorem entryCreate_follows (block data : Nat) (key : Key) (value : Data) :
    Follows objects (stringAt block key * dataAt data value)
      (entryCreate (some ⟨block, 0⟩) (some data)) (ChainTable.entryCreate (some key) (some value))
      fun result entry => stringAt block key * dataAt data value *
        nullable entryAt result entry := by
  -- The arguments are valid, so that one allocation decides whether an entry is filled.
  unfold entryCreate ChainTable.entryCreate
  refine .permute (dataAt data value * stringAt block key) (mul_comm _ _)
    (dataValid_next (valid_of_dataAt fun valid => ?_))
  dsimp only
  rw [if_neg (by decide), if_neg valid]
  refine Kind.malloc_next (.done (le_of_eq ?_)) fun entry => ?_
  · rw [mul_comm (dataAt data value)]
    exact (mul_one _).symm
  · refine (fillEntry_follows entry block data ⟨none, none⟩ key value).strengthen (le_of_eq ?_)
    ac_rfl

/-- `entry_dup` does what it does with values, and the copy has memory of its own. -/
theorem entryDup_follows (entry : Nat) (held : Entry) :
    Follows objects (entryAt entry held) (entryDup (some entry))
      (ChainTable.entryDup (some held))
      fun result copy => entryAt entry held * nullable entryAt result copy := by
  -- The entry is valid, and a new one is filled with copies of its two parts.
  unfold entryDup ChainTable.entryDup
  refine .permute (entryAt entry held * 1) (mul_one _).symm
    (entryValid_next (valid_of_entryAt fun valid => ?_))
  dsimp only
  rw [if_neg (by decide), if_neg valid]
  refine .choose fun keyBlock => .choose fun data => .choose fun key => .choose fun value =>
    .assume fun same => ?_
  subst same
  refine Kind.malloc_next (.done (mul_le_mul_left (le_entryAt keyBlock data) 1))
    fun newEntry => ?_
  refine .permute (entries.holds entry _ * (stringAt keyBlock key * dataAt data value *
    entries.holds newEntry _)) (by rw [mul_one]; ac_rfl) (Kind.read_next ?_)
  refine ((fillEntry_follows newEntry keyBlock data ⟨none, none⟩ key value).frame
    (entries.holds entry ⟨some ⟨keyBlock, 0⟩, some data⟩)).weaken (le_of_eq (by ac_rfl))
      fun result copy => ?_
  refine le_trans (le_of_eq ?_) (mul_le_mul_left (le_entryAt keyBlock data) _)
  ac_rfl

/-- `entry_compare` answers for entries behind pointers what it answers for values. -/
theorem entryCompare_next {entry1 entry2 : Nat} {held1 held2 : Entry} {next : Int → Pointed α}
    (rest : Follows objects (entryAt entry1 held1 * (entryAt entry2 held2 * others))
      (next (ChainTable.entryCompare (some held1) (some held2))) model after) :
    Follows objects (entryAt entry1 held1 * (entryAt entry2 held2 * others))
      (entryCompare (some entry1) (some entry2) >>= next) model after := by
  unfold entryCompare
  simp only [bind_assoc]
  refine entryValid_next (valid_of_entryAt fun valid1 => ?_)
  rw [if_neg (by decide)]
  simp only [bind_assoc]
  refine .permute (entryAt entry2 held2 * (entryAt entry1 held1 * others)) (by ac_rfl)
    (entryValid_next (valid_of_entryAt fun valid2 => ?_))
  rw [if_neg (by decide)]
  -- The parts of both entries are read, and put together again.
  refine .choose fun keyBlock2 => .choose fun data2 => .choose fun key2 => .choose fun value2 =>
    .assume fun same2 => ?_
  refine .permute (entryAt entry1 held1 * (entries.holds entry2 _ * (stringAt keyBlock2 key2 *
    (dataAt data2 value2 * others)))) (by ac_rfl) ?_
  refine .choose fun keyBlock1 => .choose fun data1 => .choose fun key1 => .choose fun value1 =>
    .assume fun same1 => ?_
  subst same1 same2
  simp only [bind_assoc]
  refine .permute (entries.holds entry1 _ * (entries.holds entry2 _ * (stringAt keyBlock1 key1 *
    (stringAt keyBlock2 key2 * (dataAt data1 value1 * (dataAt data2 value2 * others))))))
    (by ac_rfl) (Kind.read_next ?_)
  refine .permute (entries.holds entry2 _ * (entries.holds entry1 _ * (stringAt keyBlock1 key1 *
    (stringAt keyBlock2 key2 * (dataAt data1 value1 * (dataAt data2 value2 * others))))))
    (by ac_rfl) (Kind.read_next ?_)
  simp only [bind_assoc]
  refine .permute (stringAt keyBlock1 key1 * (stringAt keyBlock2 key2 * (entries.holds entry1 _ *
    (entries.holds entry2 _ * (dataAt data1 value1 * (dataAt data2 value2 * others))))))
    (by ac_rfl) (readString_next ?_)
  refine .permute (stringAt keyBlock2 key2 * (stringAt keyBlock1 key1 * (entries.holds entry1 _ *
    (entries.holds entry2 _ * (dataAt data1 value1 * (dataAt data2 value2 * others))))))
    (by ac_rfl) (readString_next ?_)
  rw [ChainTable.entryCompare, if_neg valid1, if_neg valid2] at rest
  rw [show strcmpBytes key1.bytes key2.bytes = strcmp key1 key2 from rfl]
  have whole := rest.strengthen (mul_le_mul' (le_entryAt keyBlock1 data1)
    (mul_le_mul_left (le_entryAt keyBlock2 data2) others))
  dsimp only at whole
  -- The comparison of the strings is that of the keys, in both of the comparisons made with it.
  by_cases below : strcmp key1 key2 < 0
  · rw [if_pos below, pure_bind]
    rw [if_pos below] at whole
    exact .permute _ (by ac_rfl) whole
  rw [if_neg below]
  rw [if_neg below] at whole
  by_cases above : strcmp key1 key2 > 0
  · rw [if_pos above, pure_bind]
    rw [if_pos above] at whole
    exact .permute _ (by ac_rfl) whole
  · rw [if_neg above, pure_bind]
    rw [if_neg above] at whole
    exact .permute _ (by ac_rfl) whole

end Rules

end ChainTable.Lifetime
