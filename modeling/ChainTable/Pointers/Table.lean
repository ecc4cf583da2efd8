import ChainTable.Local.TableLaws
import ChainTable.Pointers.List

/-! The table behind a pointer: its functions, and the values that it keeps. -/

namespace ChainTable.Lifetime

/-- `table->lists[row]`. -/
def readRow (table : Nat) (row : Int) : Pointed (Option Nat) := do
  let held ← tables.read table
  match held.lists with
  | none => failure
  | some array =>
    let slots ← rows.read array
    if 0 ≤ row then fun memory => slots[row.toNat]?.map (·, memory)
    else failure

/-- The assignment of `table->lists[row]`. -/
def writeRow (table : Nat) (row : Int) (list : Option Nat) : Pointed Unit := do
  let held ← tables.read table
  match held.lists with
  | none => failure
  | some array =>
    let slots ← rows.read array
    if 0 ≤ row ∧ row.toNat < slots.length then rows.write array (slots.set row.toNat list)
    else failure

/-- `table->size += change`. -/
def resizeTable (table : Nat) (change : Int) : Pointed Unit := do
  let held ← tables.read table
  tables.write table { held with size := held.size + change }

/-- `hash_code` of a key, in the table. -/
def rowOf (table : Nat) (key : Pointer) : Pointed Int := do
  let held ← tables.read table
  let bytes ← readString key
  return (bytes.foldl (fun sum byte => int32 (sum + signedChar byte)) 0).tmod held.rows

/-- The loops over `list_destroy`: so many rows, from one of them on. -/
def destroyLists (table row : Nat) : Nat → Pointed Unit
  | 0 => return ()
  | count + 1 => do
    let _ ← listDestroy (← readRow table row)
    destroyLists table (row + 1) count

/--
The loop of `table_create` over the rows that are left, from one of them on.

The answer is whether each of them was given a list.
-/
def createLists (table row : Nat) : Nat → Pointed Bool
  | 0 => return true
  | left + 1 => do
    let list ← listCreate
    writeRow table row list
    if list.isNone then
      destroyLists table 0 row
      return false
    createLists table (row + 1) left

/-- `table_create`. -/
def tableCreate (n : Int) : Pointed (Option Nat) := do
  if n ≤ 0 then return none
  match ← tables.malloc ⟨none, 0, 0⟩ with
  | none => return none
  | some table =>
    tables.write table ⟨none, n, 0⟩
    let lists ← rows.malloc (List.replicate n.toNat none)
    tables.write table ⟨lists, n, 0⟩
    match lists with
    | none =>
      tables.free table
      return none
    | some lists =>
      if ← createLists table 0 n.toNat then return some table
      rows.free lists
      tables.free table
      return none

/-- `table_destroy`. -/
def tableDestroy : Option Nat → Pointed Int
  | none => return -1
  | some table => do
    let held ← tables.read table
    destroyLists table 0 held.rows.toNat
    match held.lists with
    | none => failure
    | some lists =>
      rows.free lists
      tables.free table
      return 0

/-- `table_put`. -/
def tablePut (table : Option Nat) (key : Option Pointer) (value : Option Nat) : Pointed Int := do
  match table, key with
  | some table, some key =>
    if (← onMemory (dataValid value)) = -1 then return -1
    match ← strdup key with
    | none => return -1
    | some keyCopy =>
      match ← dataDup value with
      | none =>
        blocks.free keyCopy
        return -1
      | some valueCopy =>
        match ← entryCreate (some ⟨keyCopy, 0⟩) (some valueCopy) with
        | none =>
          blocks.free keyCopy
          let _ ← onMemory (dataDestroy (some valueCopy))
          return -1
        | some newEntry =>
          let row ← rowOf table key
          let list ← readRow table row
          let result ← listAdd list newEntry
          if result = -1 then
            -- The copies of the key and of the value are not freed here.
            let _ ← onMemory (entryDestroy (some newEntry))
            return -1
          if result = 0 then resizeTable table 1
          writeRow table row list
          blocks.free keyCopy
          let _ ← onMemory (dataDestroy (some valueCopy))
          return 0
  | _, _ => return -1

/-- `table_get`. -/
def tableGet (table : Option Nat) (key : Option Pointer) : Pointed (Option Nat) := do
  match table, key with
  | some table, some key =>
    let held ← tables.read table
    if held.size = 0 then return none
    let row ← rowOf table key
    match ← listGet (← readRow table row) (some key) with
    | none => return none
    | some entry =>
      let found ← entries.read entry
      dataDup found.value
  | _, _ => return none

/-- `table_get_entry`. -/
def tableGetEntry (table : Option Nat) (key : Option Pointer) : Pointed (Option Nat) := do
  match table, key with
  | some table, some key =>
    let held ← tables.read table
    if held.size = 0 then return none
    let row ← rowOf table key
    match ← listGet (← readRow table row) (some key) with
    | none => return none
    | some entry => entryDup (some entry)
  | _, _ => return none

/-- `table_remove`. -/
def tableRemove (table : Option Nat) (key : Option Pointer) : Pointed Int := do
  match table, key with
  | some table, some key =>
    let held ← tables.read table
    if held.size = 0 then return 1
    let row ← rowOf table key
    let result ← listRemove (← readRow table row) (some key)
    if result = -1 then return -1
    if result = 0 then
      resizeTable table (-1)
      return 0
    return 1
  | _, _ => return -1

/-- `table_size`. -/
def tableSize : Option Nat → Pointed Int
  | none => return -1
  | some table => return (← tables.read table).size

/--
`table_put` on values, with the copies that it makes and never frees.

Apart from these it is the same: where no node is given for the entry, its copies stay behind.
-/
def tablePutKeeping (table : Table) (key : Key) (value : Data) :
    C ((Int × Table) × List (Key × Data)) := do
  if ChainTable.dataValid (some value) = -1 then return ((-1, table), [])
  match ← ChainTable.strdup key with
  | none => return ((-1, table), [])
  | some keyCopy =>
    match ← ChainTable.dataDup (some value) with
    | none => return ((-1, table), [])
    | some valueCopy =>
      match ← ChainTable.entryCreate (some keyCopy) (some valueCopy) with
      | none => return ((-1, table), [])
      | some newEntry =>
        let row := hashCode key table.rows
        let list ← table.listAt row
        let (result, list) ← ChainTable.listAdd list newEntry
        let table := table.setList row list
        if result = -1 then return ((-1, table), [(keyCopy, valueCopy)])
        if result = 0 then return ((0, { table with size := table.size + 1 }), [])
        return ((0, table), [])

/-- A table has a structure, an array, and the lists of its rows. -/
def tableAt (table : Nat) (held : Table) : Assertion Address Object :=
  .any fun array => .any fun slots =>
    .given (∀ list ∈ held.lists, list.size = list.head.length)
      (tables.holds table ⟨some array, held.rows, held.size⟩ *
        (rows.holds array slots * .pairwise listAt slots held.lists))

/-- A table without the list of one of its rows, for which any other may be put in. -/
def lackingAt (table : Nat) (held : Table) (row : Int) (list : Nat) : Assertion Address Object :=
  .any fun array => .any fun slots => .any fun rest =>
    .given ((∀ list ∈ held.lists, list.size = list.head.length) ∧ 0 ≤ row ∧
        slots[row.toNat]? = some (some list) ∧
        ∀ new, listAt list new * rest ≤ .pairwise listAt slots (held.lists.set row.toNat new))
      (tables.holds table ⟨some array, held.rows, held.size⟩ * (rows.holds array slots * rest))

/-- A caller's data, which need not be valid. -/
def argumentAt (data : Nat) (held : Data) : Assertion Address Object :=
  match held.data with
  | none => datas.holds data ⟨held.datasize, none⟩
  | some bytes => .any fun block =>
      datas.holds data ⟨held.datasize, some ⟨block, 0⟩⟩ * blocks.holds block bytes

/-- Copies that nothing points to any more. -/
def lostAt : List (Key × Data) → Assertion Address Object
  | [] => 1
  | (key, value) :: lost => .any fun block => .any fun data =>
      stringAt block key * dataAt data value * lostAt lost

/-- A list that is put back where it came from changes nothing. -/
theorem setList_stored {held : Table} {row : Int} {list : EntryList}
    (stored : held.lists[row.toNat]? = some list) : held.setList row list = held := by
  -- The array of lists gets at this row what it has there.
  obtain ⟨bound, same⟩ := List.getElem?_eq_some_iff.mp stored
  refine Table.ext rfl rfl ?_
  change held.lists.set row.toNat list = held.lists
  rw [← same, List.set_getElem_self]

section Rules

variable {α β : Type} {others : Assertion Address Object} {model : C β}
  {after : α → β → Assertion Address Object} {table : Nat} {held : Table} {row : Int}

/-- What is left of a table once a list is taken out. -/
theorem le_lackingAt (array : Nat) {list : Nat} {slots : List (Option Nat)}
    {rest : Assertion Address Object}
    (all : ∀ list ∈ held.lists, list.size = list.head.length) (inside : 0 ≤ row)
    (opened : slots[row.toNat]? = some (some list) ∧
      ∀ new, listAt list new * rest ≤ .pairwise listAt slots (held.lists.set row.toNat new)) :
    tables.holds table ⟨some array, held.rows, held.size⟩ * (rows.holds array slots * rest) ≤
      lackingAt table held row list :=
  fun _ parts => ⟨array, slots, rest, ⟨all, inside, opened⟩, parts⟩

/-- A list with as many nodes as it says completes the table again. -/
theorem listAt_mul_le (list : Nat) {new : EntryList} (counted : new.size = new.head.length) :
    listAt list new * lackingAt table held row list ≤ tableAt table (held.setList row new) := by
  -- What lacks one list is completed by any list, and all of them still count their nodes.
  simp only [lackingAt, Assertion.given, mul_comm (listAt list new), Assertion.any_mul]
  refine Assertion.any_le fun array => Assertion.any_le fun slots => Assertion.any_le fun rest =>
    Assertion.any_le fun lacking => ?_
  obtain ⟨all, -, -, completes⟩ := lacking
  have whole := mul_le_mul_right (mul_le_mul_right (completes new) (rows.holds array slots))
    (tables.holds table ⟨some array, held.rows, held.size⟩)
  refine le_trans (le_of_eq ?_) (whole.trans fun _ parts => ⟨array, slots, fun other stored => ?_,
    parts⟩)
  · ac_rfl
  · rcases List.mem_or_eq_of_mem_set stored with old | same
    · exact all other old
    · rw [same]
      exact counted

/-- The list that was taken out completes the table that it came from. -/
theorem listAt_mul_le_same (list : Nat) {value : EntryList}
    (counted : value.size = value.head.length) (same : held.setList row value = held) :
    listAt list value * lackingAt table held row list ≤ tableAt table held := by
  -- Putting the same list back changes nothing.
  have whole : listAt list value * lackingAt table held row list ≤
      tableAt table (held.setList row value) := listAt_mul_le list counted
  rwa [same] at whole

/-- The row of a key is the one that the model computes. -/
theorem rowOf_next {keyBlock : Nat} {key : Key} {object : TableObject} {next : Int → Pointed α}
    (rest : Follows objects (tables.holds table object * (stringAt keyBlock key * others))
      (next (hashCode key object.rows)) model after) :
    Follows objects (tables.holds table object * (stringAt keyBlock key * others))
      (rowOf table ⟨keyBlock, 0⟩ >>= next) model after := by
  -- The number of rows is read first, and then the bytes of the key.
  simp only [rowOf, bind_assoc]
  refine Kind.read_next (.permute (stringAt keyBlock key * (tables.holds table object * others))
    (mul_left_comm _ _ _) (readString_next ?_))
  rw [pure_bind]
  exact .permute _ (mul_left_comm _ _ _) rest

/-- What is in the array at a row is read. -/
theorem readSlot_next {array : Nat} {n size : Int} {slots : List (Option Nat)}
    (slot : Option Nat) {next : Option Nat → Pointed α} (inside : 0 ≤ row)
    (found : slots[row.toNat]? = some slot)
    (rest : Follows objects (tables.holds table ⟨some array, n, size⟩ *
      (rows.holds array slots * others)) (next slot) model after) :
    Follows objects (tables.holds table ⟨some array, n, size⟩ * (rows.holds array slots * others))
      (readRow table row >>= next) model after := by
  -- The table gives its array, and the array gives what is in the slot.
  simp only [readRow, bind_assoc]
  refine Kind.read_next ?_
  simp only [bind_assoc]
  refine .permute (rows.holds array slots * (tables.holds table _ * others)) (mul_left_comm _ _ _)
    (Kind.read_next ?_)
  have answers : (fun memory => slots[row.toNat]?.map (·, memory)) =
      (pure slot : Pointed (Option Nat)) := by
    rw [found]
    rfl
  rw [if_pos inside, answers, pure_bind]
  exact .permute _ (mul_left_comm _ _ _) rest

/-- What is in the array at a row is assigned. -/
theorem writeSlot_next {array : Nat} {n size : Int} {slots : List (Option Nat)}
    (slot : Option Nat) {next : Unit → Pointed α} (inside : 0 ≤ row)
    (bound : row.toNat < slots.length)
    (rest : Follows objects (tables.holds table ⟨some array, n, size⟩ *
      (rows.holds array (slots.set row.toNat slot) * others)) (next ()) model after) :
    Follows objects (tables.holds table ⟨some array, n, size⟩ * (rows.holds array slots * others))
      (writeRow table row slot >>= next) model after := by
  -- The table gives its array, and the slot is inside it.
  simp only [writeRow, bind_assoc]
  refine Kind.read_next ?_
  simp only [bind_assoc]
  refine .permute (rows.holds array slots * (tables.holds table _ * others)) (mul_left_comm _ _ _)
    (Kind.read_next ?_)
  rw [if_pos ⟨inside, bound⟩]
  exact Kind.write_next (.permute _ (mul_left_comm _ _ _) rest)

/-- The list of a row is taken out of the table, unless there is no such row. -/
theorem readRow_next {next : Option Nat → Pointed α} {modelNext : EntryList → C β}
    (rest : ∀ list value, value.size = value.head.length → held.setList row value = held →
      Follows objects (listAt list value * (lackingAt table held row list * others))
        (next (some list)) (modelNext value) after) :
    Follows objects (tableAt table held * others) (readRow table row >>= next)
      (held.listAt row >>= modelNext) after := by
  unfold Table.listAt
  by_cases inside : 0 ≤ row
  · rw [if_pos inside]
    cases found : held.lists[row.toNat]? with
    | none =>
      refine .faulty fun outcomes ended ran => ?_
      cases ran
    | some value =>
      refine .choose fun array => .choose fun slots => .assume fun all => ?_
      rw [pure_bind]
      -- One list is separated from the others.
      refine .permute (.pairwise listAt slots held.lists * (tables.holds table _ *
        (rows.holds array slots * others))) (by ac_rfl) (.strengthen ?_ (mul_le_mul_left
          (Assertion.pairwise_open slots held.lists found) _))
      refine .choose fun list => .choose fun left => .assume fun opened => ?_
      refine .permute (tables.holds table _ * (rows.holds array slots * (listAt list value *
        (left * others)))) (by ac_rfl) (readSlot_next (some list) inside opened.1 ?_)
      refine (rest list value (all value (List.mem_of_getElem? found))
        (setList_stored found)).strengthen ?_
      refine le_trans (le_of_eq ?_) (mul_le_mul_right (mul_le_mul_left
        (le_lackingAt array all inside opened) others) _)
      ac_rfl
  · rw [if_neg inside]
    refine .faulty fun outcomes ended ran => ?_
    cases ran

/-- The list of a row is put back where it was. -/
theorem writeRow_next {list : Nat} {next : Unit → Pointed α}
    (rest : Follows objects (lackingAt table held row list * others) (next ()) model after) :
    Follows objects (lackingAt table held row list * others)
      (writeRow table row (some list) >>= next) model after := by
  -- The slot held this very list, so that the array stays as it is.
  refine .choose fun array => .choose fun slots => .choose fun left => .assume fun lacking => ?_
  obtain ⟨all, inside, found, completes⟩ := lacking
  obtain ⟨bound, same⟩ := List.getElem?_eq_some_iff.mp found
  refine .permute (tables.holds table _ * (rows.holds array slots * (left * others))) (by ac_rfl)
    (writeSlot_next (some list) inside bound ?_)
  rw [← same, List.set_getElem_self]
  refine rest.strengthen (le_trans (le_of_eq ?_)
    (mul_le_mul_left (le_lackingAt array all inside ⟨found, completes⟩) others))
  ac_rfl

/-- Copies that nothing points to are lost with those that were lost before. -/
theorem le_lostAt (block data : Nat) (key : Key) (value : Data) :
    stringAt block key * dataAt data value ≤ lostAt [(key, value)] := by
  -- The two copies are the only ones of their list.
  rw [← mul_one (_ * _)]
  exact fun _ parts => ⟨block, data, parts⟩

/-- The counter of a table changes, and nothing else. -/
theorem resizeTable_next {list : Nat} (change : Int) {next : Unit → Pointed α}
    (rest : Follows objects
      (lackingAt table { held with size := held.size + change } row list * others) (next ())
      model after) :
    Follows objects (lackingAt table held row list * others) (resizeTable table change >>= next)
      model after := by
  -- The counter is a field of the structure, which is read and written back.
  refine .choose fun array => .choose fun slots => .choose fun left => .assume fun lacking => ?_
  simp only [resizeTable, bind_assoc]
  rw [mul_assoc]
  refine Kind.read_next (Kind.write_next (rest.strengthen ?_))
  rw [← mul_assoc]
  exact mul_le_mul_left (fun _ parts => ⟨array, slots, left, lacking, parts⟩) others

/-- The structure of a table is looked at, and the table is what it was. -/
theorem readTable_next {next : TableObject → Pointed α}
    (rest : ∀ array, Follows objects (tableAt table held * others)
      (next ⟨some array, held.rows, held.size⟩) model after) :
    Follows objects (tableAt table held * others) (tables.read table >>= next) model after := by
  -- The structure is opened for the read, and the table closed again.
  refine .choose fun array => .choose fun slots => .assume fun all => ?_
  rw [mul_assoc]
  refine Kind.read_next ((rest array).strengthen ?_)
  rw [← mul_assoc]
  exact mul_le_mul_left (fun _ parts => ⟨array, slots, all, parts⟩) others

/-- The row of a key in a table is the one that the model computes. -/
theorem rowOfTable_next {keyBlock : Nat} {key : Key} {next : Int → Pointed α}
    (rest : Follows objects (tableAt table held * (stringAt keyBlock key * others))
      (next (hashCode key held.rows)) model after) :
    Follows objects (tableAt table held * (stringAt keyBlock key * others))
      (rowOf table ⟨keyBlock, 0⟩ >>= next) model after := by
  -- The table is opened, its row computed, and the table closed again.
  refine .choose fun array => .choose fun slots => .assume fun all => ?_
  refine .permute (tables.holds table _ * (stringAt keyBlock key * (rows.holds array slots *
    .pairwise listAt slots held.lists * others))) (by ac_rfl) (rowOf_next (rest.strengthen ?_))
  refine le_trans (le_of_eq ?_) (mul_le_mul_left (fun _ parts => ⟨array, slots, all, parts⟩) _)
  ac_rfl

/-- The check of a caller's data answers what it answers in the model. -/
theorem argumentValid_next {data : Nat} {given : Data} {next : Int → Pointed α}
    (rest : Follows objects (argumentAt data given * others)
      (next (ChainTable.dataValid (some given))) model after) :
    Follows objects (argumentAt data given * others) (onMemory (dataValid (some data)) >>= next)
      model after := by
  -- The pointer is looked at before the size, as in the model.
  obtain ⟨size, pointed, isInt, readable⟩ := given
  simp only [dataValid, onMemory_bind, onMemory_readData, onMemory_ite, onMemory_pure, bind_assoc]
  cases pointed with
  | none =>
    refine Kind.read_next ?_
    rw [if_pos (Option.isNone_none), pure_bind]
    exact rest
  | some bytes =>
    refine .choose fun block => ?_
    rw [mul_assoc]
    refine Kind.read_next ?_
    rw [if_neg (by simp)]
    have folded : datas.holds data ⟨size, some ⟨block, 0⟩⟩ * (blocks.holds block bytes * others) ≤
        argumentAt data ⟨size, some bytes, isInt, readable⟩ * others := by
      rw [← mul_assoc]
      exact mul_le_mul_left (fun _ parts => ⟨block, parts⟩) others
    simp only [ChainTable.dataValid, Option.isNone_some] at rest
    rw [if_neg (by decide)] at rest
    by_cases empty : size ≤ 0
    · rw [if_pos empty, pure_bind]
      rw [if_pos empty] at rest
      exact rest.strengthen folded
    · rw [if_neg empty, pure_bind]
      rw [if_neg empty] at rest
      exact rest.strengthen folded

/-- Valid data of a caller is data like any other. -/
theorem argumentAt_of_valid {data : Nat} {given : Data}
    (valid : ¬ ChainTable.dataValid (some given) = -1) :
    argumentAt data given = dataAt data given := by
  -- Valid data has a block and a positive size, so that both say the same.
  obtain ⟨size, pointed, isInt, readable⟩ := given
  cases pointed with
  | none => exact absurd rfl valid
  | some bytes =>
    have positive : 0 < size := by
      by_contra empty
      exact valid (by simp [ChainTable.dataValid, not_lt.mp empty])
    apply le_antisymm
    · rintro _ ⟨block, parts⟩
      exact ⟨block, bytes, ⟨rfl, positive⟩, parts⟩
    · rintro _ ⟨block, _, ⟨⟨⟩, _⟩, parts⟩
      exact ⟨block, parts⟩

end Rules

end ChainTable.Lifetime
