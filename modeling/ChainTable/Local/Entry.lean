import ChainTable.Local.Key

/-! Data blocks and key-value entries: creation, copies, validity and replacement. -/

namespace ChainTable

/-- `struct data_t`, a block of bytes behind a pointer and the size it is said to have. -/
structure Data where
  datasize : Int
  data : Option (List UInt8)
  /-- The size is an `int`. -/
  isInt : int32 datasize = datasize
  /-- The block behind the pointer has at least as many bytes as are read from it. -/
  readable : ∀ block ∈ data, datasize ≤ block.length
  deriving DecidableEq, Repr

/-- `struct entry_t`, a key and a value behind pointers that may be NULL. -/
structure Entry where
  key : Option Key
  value : Option Data
  deriving DecidableEq, Repr

/-- `data_valid`: 0 for a usable block, -1 for a NULL pointer or an empty size. -/
def dataValid : Option Data → Int
  | none => -1
  | some data =>
    if data.data.isNone then -1
    else if data.datasize ≤ 0 then -1
    else 0

/-- The first `size` bytes behind a pointer, as `memcpy` copies them into a fresh block. -/
def copyOf (size : Int) (block : List UInt8) (isInt : int32 size = size)
    (fits : size ≤ block.length) : Data where
  datasize := size
  data := some (block.take size.toNat)
  isInt := isInt
  readable copy found := by
    cases found
    rw [List.length_take]
    omega

/-- `data_create`: a block of the given size with the bytes behind the given pointer. -/
def dataCreate (size : Int) (data : Option (List UInt8)) : C (Option Data) := do
  -- The parameter is an `int`, whatever the caller passes.
  let intSize := int32 size
  if intSize ≤ 0 then return none
  match data with
  | none => return none
  | some block =>
    -- One allocation for the structure and one for its bytes.
    if !(← malloc) then return none
    if !(← malloc) then return none
    -- As many bytes are copied as the size says, so that many have to be there.
    if fits : intSize ≤ block.length then
      return some (copyOf intSize block (int32_int32 size) fits)
    else throw .outOfBounds

/-- `data_destroy`: frees a valid block, and refuses any other. -/
def dataDestroy (data : Option Data) : Int :=
  if dataValid data = -1 then -1 else 0

/-- `data_dup`: a copy of a valid block. -/
def dataDup (data : Option Data) : C (Option Data) := do
  if dataValid data = -1 then return none
  match data with
  | none => throw .nullDereference
  | some data =>
    if !(← malloc) then return none
    if !(← malloc) then return none
    -- A valid block has bytes behind its pointer.
    match held : data.data with
    | none => throw .nullDereference
    | some block =>
      return some (copyOf data.datasize block data.isInt (data.readable block held))

/-- `entry_valid`: 0 for an entry with a key and a valid value, -1 otherwise. -/
def entryValid : Option Entry → Int
  | none => -1
  | some entry =>
    if entry.key.isNone then -1
    else if dataValid entry.value = -1 then -1
    else 0

/-- `strdup` of a key. -/
def strdup (key : Key) : C (Option Key) := do
  if !(← malloc) then return none
  return some key

/-- `entry_create`: an entry with copies of the key and of the data. -/
def entryCreate (key : Option Key) (data : Option Data) : C (Option Entry) := do
  match key with
  | none => return none
  | some key =>
    if dataValid data = -1 then return none
    -- One allocation for the entry, and one for the copy of its key.
    if !(← malloc) then return none
    if !(← malloc) then return none
    let value ← dataDup data
    if value.isNone then return none
    return some { key := some key, value := value }

/-- `entry_destroy`: frees a valid entry, and refuses any other. -/
def entryDestroy (entry : Option Entry) : Int :=
  if entryValid entry = -1 then -1 else 0

/-- `entry_dup`: a copy of a valid entry. -/
def entryDup (entry : Option Entry) : C (Option Entry) := do
  if entryValid entry = -1 then return none
  match entry with
  | none => throw .nullDereference
  | some entry =>
    -- One allocation for the entry, and one for the copy of its key.
    if !(← malloc) then return none
    if !(← malloc) then return none
    let value ← dataDup entry.value
    if value.isNone then return none
    return some { key := entry.key, value := value }

/-- `entry_replace`: put a new key and a new value in the place of the old ones. -/
def entryReplace (entry : Option Entry) (newKey : Option Key) (newValue : Option Data) :
    Int × Option Entry :=
  if entryValid entry = -1 then (-1, entry)
  else match entry, newKey with
    | some entry, some newKey =>
      -- The old key and the old value are freed before the new ones are taken over.
      if dataDestroy entry.value = -1 then (-1, some entry)
      else (0, some { key := some newKey, value := newValue })
    | entry, _ => (-1, entry)

/-- `entry_compare`: the order of two valid entries by key, or -2. -/
def entryCompare (entry1 entry2 : Option Entry) : Int :=
  if entryValid entry1 = -1 then -2
  else if entryValid entry2 = -1 then -2
  else match entry1, entry2 with
    | some { key := some key1, .. }, some { key := some key2, .. } =>
      let compare := strcmp key1 key2
      if compare < 0 then -1
      else if compare > 0 then 1
      else 0
    -- Valid entries have keys.
    | _, _ => -2

/-- Bytes of a value as the table keeps them: never empty, and as many as an `int` can count. -/
abbrev Block := { bytes : List UInt8 // bytes ≠ [] ∧ bytes.length < 2 ^ 31 }

/-- The structure that holds exactly the bytes of a block. -/
def Data.ofBlock (block : Block) : Data where
  datasize := block.val.length
  data := some block.val
  isInt := int32_of_bounds (by omega) (by exact_mod_cast block.property.2)
  readable held found := by cases found; exact le_refl _

/-- The bytes a data structure says it has, none when the pointer is NULL. -/
def Data.bytes (data : Data) : List UInt8 :=
  (data.data.getD []).take data.datasize.toNat

/-- There are no more bytes than an `int` can count. -/
theorem Data.length_bytes_lt (data : Data) : data.bytes.length < 2 ^ 31 := by
  -- At most as many bytes are taken as the size says, and that is an `int`.
  have isInt := data.isInt
  unfold int32 at isInt
  unfold Data.bytes
  rw [List.length_take]
  omega

/-- The block can be read back from the structure that holds it. -/
theorem ofBlock_injective : Function.Injective Data.ofBlock := by
  -- The bytes behind the pointer are those of the block.
  intro block block' same
  simp only [Data.ofBlock, Data.mk.injEq, Option.some.injEq] at same
  exact Subtype.ext same.2

/-- The block a data structure stands for, if it has any bytes. -/
def Data.contents (data : Data) : Option Block :=
  if held : data.bytes ≠ [] then some ⟨data.bytes, held, data.length_bytes_lt⟩ else none

/-- The entry that holds exactly one key and one block. -/
def Entry.ofPair (pair : Key × Block) : Entry where
  key := some pair.1
  value := some (Data.ofBlock pair.2)

/-- The pair can be read back from the entry that holds it. -/
theorem ofPair_injective : Function.Injective Entry.ofPair := by
  -- The key is copied as it is, and the value can be read back.
  rintro ⟨key, block⟩ ⟨key', block'⟩ same
  simp only [Entry.ofPair, Entry.mk.injEq, Option.some.injEq] at same
  exact Prod.ext same.1 (ofBlock_injective same.2)

/-- Data that passes the check of `data_valid`. -/
abbrev Usable := { data : Data // dataValid (some data) = 0 }

/-- The entry with a key and usable data behind its two pointers. -/
def Entry.ofUsable (pair : Key × Usable) : Entry where
  key := some pair.1
  value := some pair.2.val

/-- Data is refused exactly when it has no bytes. -/
theorem dataValid_eq (data : Data) :
    dataValid (some data) = if data.bytes = [] then -1 else 0 := by
  -- The pointer and the size are there exactly when some byte can be read.
  unfold dataValid Data.bytes
  dsimp only
  cases held : data.data with
  | none => simp
  | some block =>
    have fits := data.readable block held
    by_cases positive : data.datasize ≤ 0
    · simp [positive, show data.datasize.toNat = 0 by omega]
    · have : block ≠ [] := fun empty => by simp [empty] at fits; omega
      simp [positive, this, show ¬ data.datasize.toNat = 0 by omega]

/-- The contents of data are its bytes, as soon as there are any. -/
theorem contents_eq_some_iff (data : Data) (block : Block) :
    data.contents = some block ↔ data.bytes = block.val := by
  -- A block is never empty, so the bytes decide whether there are contents.
  unfold Data.contents
  split
  · simp [Subtype.ext_iff]
  · rename_i empty
    simp only [ne_eq, not_not] at empty
    simp [empty, block.property.1.symm]

/-- Data with contents is accepted. -/
theorem dataValid_of_contents {data : Data} {block : Block}
    (contents : data.contents = some block) : dataValid (some data) = 0 := by
  -- Contents are never empty.
  rw [dataValid_eq, (contents_eq_some_iff data block).mp contents, if_neg block.property.1]

/-- Data is refused exactly when it has no contents. -/
theorem dataValid_eq_neg_one (data : Data) :
    dataValid (some data) = -1 ↔ data.contents = none := by
  -- Having contents and being accepted both mean that there are bytes.
  rw [dataValid_eq]
  unfold Data.contents
  split <;> simp_all

/-- Data that is accepted has a block as its contents. -/
theorem exists_contents {data : Data} (valid : dataValid (some data) = 0) :
    ∃ block, data.contents = some block := by
  -- Without contents it would be refused.
  refine Option.ne_none_iff_exists'.mp fun missing => ?_
  have refused := (dataValid_eq_neg_one data).mpr missing
  omega

/-- A block stands for itself. -/
@[simp] theorem contents_ofBlock (block : Block) : (Data.ofBlock block).contents = some block := by
  -- The size of the structure is the number of bytes of the block.
  rw [contents_eq_some_iff]
  simp [Data.bytes, Data.ofBlock]

/-- A block is valid as data. -/
@[simp] theorem dataValid_ofBlock (block : Block) : dataValid (some (Data.ofBlock block)) = 0 :=
  dataValid_of_contents (contents_ofBlock block)

/-- A block as usable data. -/
def Block.usable (block : Block) : Usable := ⟨Data.ofBlock block, dataValid_ofBlock block⟩

/-- An entry made of a key and usable data is valid. -/
@[simp] theorem entryValid_ofUsable (pair : Key × Usable) :
    entryValid (some (Entry.ofUsable pair)) = 0 := by
  simp [entryValid, Entry.ofUsable, pair.2.property]

/-- An entry made of a key and a block is valid. -/
@[simp] theorem entryValid_ofPair (pair : Key × Block) :
    entryValid (some (Entry.ofPair pair)) = 0 :=
  entryValid_ofUsable (pair.map id Block.usable)

/-- A valid entry is made of a key and usable data. -/
theorem exists_ofUsable {entry : Entry} (valid : entryValid (some entry) = 0) :
    ∃ pair, entry = .ofUsable pair := by
  -- The check has passed both pointers, and the data behind the second one.
  obtain ⟨key, value⟩ := entry
  match key, value with
  | none, _ => simp [entryValid] at valid
  | some key, none => simp [entryValid, dataValid] at valid
  | some key, some data =>
    have usable : dataValid (some data) = 0 := by
      have refused : dataValid (some data) ≠ -1 := fun refused => by
        simp [entryValid, refused] at valid
      rw [dataValid_eq] at refused ⊢
      split at refused
      · exact absurd rfl refused
      · rename_i held
        rw [if_neg held]
    exact ⟨(key, ⟨data, usable⟩), rfl⟩

/-- Copying the bytes of valid data gives the structure that holds exactly them. -/
theorem copyOf_contents {data : Data} {bytes : List UInt8} {block : Block}
    (held : data.data = some bytes) (contents : data.contents = some block)
    (fits : data.datasize ≤ bytes.length) :
    copyOf data.datasize bytes data.isInt fits = Data.ofBlock block := by
  -- The size says how many bytes the copy takes, and that many are there.
  have taken := (contents_eq_some_iff data block).mp contents
  have size := congrArg List.length taken
  have positive := List.length_pos_iff.mpr block.property.1
  simp only [Data.bytes, held, Option.getD_some, List.length_take] at taken size
  simp only [copyOf, Data.ofBlock, Data.mk.injEq, taken, and_true]
  omega

/-- The size of valid data is the number of its bytes. -/
theorem datasize_of_contents {data : Data} {block : Block}
    (contents : data.contents = some block) : data.datasize = block.val.length := by
  -- As many bytes are there as the size says, and at least one.
  have taken := (contents_eq_some_iff data block).mp contents
  have length := congrArg List.length taken
  have positive := List.length_pos_iff.mpr block.property.1
  simp only [Data.bytes, List.length_take] at length
  cases held : data.data with
  | none => simp only [held, Option.getD_none, List.length_nil] at length; omega
  | some bytes =>
    have fits := data.readable bytes held
    simp only [held, Option.getD_some] at length
    omega

/-- Duplicating valid data gives its contents or nothing. -/
theorem dataDup_attempts {data : Data} {block : Block} (contents : data.contents = some block) :
    Attempts (dataDup (some data)) none (some (Data.ofBlock block)) := by
  -- Valid data passes the check, and then only the two allocations may fail.
  have valid : dataValid (some data) = 0 := dataValid_of_contents contents
  unfold dataDup
  simp only [valid]
  refine .bind .malloc rfl (.bind .malloc rfl ?_)
  simp only [Bool.not_true, Bool.false_eq_true, if_false]
  split
  · -- Valid data has bytes behind its pointer.
    rename_i held
    simp [dataValid, held] at valid
  · rename_i bytes held
    rw [copyOf_contents held contents]
    exact .pure _ _

/-- Creating data from at least as many bytes as asked for gives them or nothing. -/
theorem dataCreate_attempts {size : Int} {bytes : List UInt8} {block : Block}
    (positive : 0 < int32 size) (fits : int32 size ≤ bytes.length)
    (prefixed : bytes.take (int32 size).toNat = block.val) :
    Attempts (dataCreate size (some bytes)) none (some (Data.ofBlock block)) := by
  -- A positive size passes the check, and then only the two allocations may fail.
  unfold dataCreate
  simp only [if_neg (show ¬ int32 size ≤ 0 by omega)]
  refine .bind .malloc rfl (.bind .malloc rfl ?_)
  -- The copy has as many bytes as the block, namely the size asked for.
  have same : copyOf (int32 size) bytes (int32_int32 size) fits = Data.ofBlock block := by
    have length : block.val.length = (int32 size).toNat := by
      rw [← prefixed, List.length_take]
      omega
    simp only [copyOf, Data.ofBlock, Data.mk.injEq, prefixed, length, and_true]
    omega
  simp only [Bool.not_true, Bool.false_eq_true, if_false, dif_pos fits, same]
  exact .pure _ _

/-- As many bytes as asked for, at least one, are a block that creating data gives or not. -/
theorem dataCreate_block {size : Int} {bytes : List UInt8} (positive : 0 < int32 size)
    (fits : int32 size ≤ bytes.length) :
    ∃ block : Block, block.val = bytes.take (int32 size).toNat ∧
      Attempts (dataCreate size (some bytes)) none (some (Data.ofBlock block)) := by
  -- The size is an `int`, so it bounds the bytes that are taken.
  have bound : int32 size < 2 ^ 31 := by unfold int32; omega
  have length : (bytes.take (int32 size).toNat).length = (int32 size).toNat := by
    rw [List.length_take]
    omega
  have nonempty : bytes.take (int32 size).toNat ≠ [] := by
    intro empty
    rw [empty, List.length_nil] at length
    omega
  exact ⟨⟨bytes.take (int32 size).toNat, nonempty, by omega⟩, rfl,
    dataCreate_attempts positive fits rfl⟩

/-- Creating data gives a block, is refused, or would read past the end of the bytes. -/
theorem dataCreate_cases (size : Int) (data : Option (List UInt8)) :
    (∃ fault, dataCreate size data [] = .error fault) ∨ dataCreate size data [] = .ok (none, []) ∨
      ∃ block : Block, dataCreate size data [] = .ok (some (.ofBlock block), []) := by
  by_cases refused : int32 size ≤ 0
  · exact .inr (.inl (by unfold dataCreate; rw [if_pos refused]; rfl))
  · cases data with
    | none => exact .inr (.inl (by unfold dataCreate; rw [if_neg refused]; rfl))
    | some bytes =>
      by_cases fits : int32 size ≤ bytes.length
      · obtain ⟨block, -, attempts⟩ := dataCreate_block (not_le.mp refused) fits
        exact .inr (.inr ⟨block, attempts.succeeds⟩)
      · refine .inl ⟨.outOfBounds, ?_⟩
        unfold dataCreate
        simp only [if_neg refused, dif_neg fits]
        rfl

/-- Duplicating a key gives the key or nothing. -/
theorem strdup_attempts (key : Key) : Attempts (strdup key) none (some key) :=
  .bind .malloc rfl (.pure _ _)

/-- Creating an entry from a key and valid data gives that pair or nothing. -/
theorem entryCreate_attempts (key : Key) {data : Data} {block : Block}
    (contents : data.contents = some block) :
    Attempts (entryCreate (some key) (some data)) none (some (Entry.ofPair (key, block))) := by
  -- The entry and the copy of its key are allocated, and then the data is duplicated.
  have valid : dataValid (some data) = 0 := dataValid_of_contents contents
  unfold entryCreate
  simp only [valid]
  refine .bind .malloc rfl (.bind .malloc rfl ?_)
  exact .bind (dataDup_attempts contents) rfl (.pure _ _)

/-- Duplicating the entry of a pair gives that entry or nothing. -/
theorem entryDup_attempts (pair : Key × Block) :
    Attempts (entryDup (some (Entry.ofPair pair))) none (some (Entry.ofPair pair)) := by
  -- The entry and the copy of its key are allocated, and then the data is duplicated.
  unfold entryDup
  simp only [entryValid_ofPair]
  refine .bind .malloc rfl (.bind .malloc rfl ?_)
  exact .bind (dataDup_attempts (contents_ofBlock pair.2)) rfl (.pure _ _)

/-- Comparing two valid entries compares their keys. -/
theorem entryCompare_ofUsable (left right : Key × Usable) :
    entryCompare (some (Entry.ofUsable left)) (some (Entry.ofUsable right)) =
      if left.1 < right.1 then -1 else if left.1 = right.1 then 0 else 1 := by
  -- Both entries are valid, so the sign of the comparison of their keys is the answer.
  simp only [entryCompare, entryValid_ofUsable]
  simp only [Entry.ofUsable]
  have negative := strcmp_neg_iff left.1 right.1
  have zero := strcmp_eq_zero_iff left.1 right.1
  by_cases less : left.1 < right.1
  · simp [less, negative.mpr less]
  · have notNegative : ¬ strcmp left.1 right.1 < 0 := fun below => less (negative.mp below)
    by_cases same : left.1 = right.1
    · simp [same, (strcmp_eq_zero_iff right.1 right.1).mpr rfl]
    · -- What is neither negative nor zero is positive.
      have positive : 0 < strcmp left.1 right.1 := by
        have : ¬ strcmp left.1 right.1 = 0 := fun equal => same (zero.mp equal)
        omega
      simp [less, notNegative, same, positive]

/-- Replacing the contents of a valid entry by those of another valid entry. -/
theorem entryReplace_ofUsable (left right : Key × Usable) :
    entryReplace (some (Entry.ofUsable left)) (Entry.ofUsable right).key
        (Entry.ofUsable right).value =
      (0, some (Entry.ofUsable right)) := by
  -- The old value is valid, so it is freed, and the new key and value take the place.
  simp [entryReplace, dataDestroy, Entry.ofUsable, entryValid, left.2.property]

end ChainTable
