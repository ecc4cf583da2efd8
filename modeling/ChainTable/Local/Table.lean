import ChainTable.Local.EntryList
import ChainTable.Library.Buckets

/-! The hash table of one server: rows of ordered lists, and a counter of all entries. -/

namespace ChainTable

/-- `struct table_t`. -/
structure Table where
  size : Int
  rows : Int
  lists : List EntryList
  /-- One list was created for each row. -/
  length_lists : lists.length = rows
  deriving DecidableEq, Repr

/-- `table->lists[row]`, outside of the array when the row does not exist. -/
def Table.listAt (table : Table) (row : Int) : C EntryList :=
  if 0 ≤ row then
    match table.lists[row.toNat]? with
    | some list => return list
    | none => throw .outOfBounds
  else throw .outOfBounds

/-- Put a list in the place of the one in a row. -/
def Table.setList (table : Table) (row : Int) (list : EntryList) : Table where
  size := table.size
  rows := table.rows
  lists := table.lists.set row.toNat list
  length_lists := by rw [List.length_set, table.length_lists]

/-- The loop of `table_create` over the rows. -/
def createLists : (count : Nat) → C (Option { lists : List EntryList // lists.length = count })
  | 0 => return some ⟨[], rfl⟩
  | count + 1 => do
    match ← listCreate with
    | none => return none
    | some list =>
      match ← createLists count with
      | none => return none
      | some lists => return some ⟨list :: lists.val, by rw [List.length_cons, lists.property]⟩

/-- `table_create`: a table of `n` empty rows. -/
def tableCreate (n : Int) : C (Option Table) := do
  if positive : n ≤ 0 then return none
  else
    if !(← malloc) then return none
    if !(← malloc) then return none
    match ← createLists n.toNat with
    | none => return none
    | some lists =>
      return some
        { size := 0, rows := n, lists := lists.val,
          length_lists := by rw [lists.property]; omega }

/-- `table_put`: store a copy of the value under a copy of the key. -/
def tablePut (table : Table) (key : Option Key) (value : Option Data) : C (Int × Table) := do
  match key with
  | none => return (-1, table)
  | some key =>
    if dataValid value = -1 then return (-1, table)
    let keyCopy ← strdup key
    if keyCopy.isNone then return (-1, table)
    let valueCopy ← dataDup value
    if valueCopy.isNone then return (-1, table)
    match ← entryCreate keyCopy valueCopy with
    | none => return (-1, table)
    | some newEntry =>
      let row := hashCode key table.rows
      let list ← table.listAt row
      let (result, list) ← listAdd list newEntry
      -- The list is changed in place, whatever the result says.
      let table := table.setList row list
      if result = -1 then return (-1, table)
      if result = 0 then return (0, { table with size := table.size + 1 })
      return (0, table)

/-- `table_get`: a copy of the data stored under the key, or NULL. -/
def tableGet (table : Table) (key : Option Key) : C (Option Data) := do
  match key with
  | none => return none
  | some key =>
    if table.size = 0 then return none
    let list ← table.listAt (hashCode key table.rows)
    match ← listGet list (some key) with
    | none => return none
    | some entry => dataDup entry.value

/-- `table_get_entry`: a copy of the entry with the key, or NULL. -/
def tableGetEntry (table : Table) (key : Option Key) : C (Option Entry) := do
  match key with
  | none => return none
  | some key =>
    if table.size = 0 then return none
    let list ← table.listAt (hashCode key table.rows)
    match ← listGet list (some key) with
    | none => return none
    | some entry => entryDup (some entry)

/-- `table_remove`: 0 when the entry was removed, 1 when there is none, -1 on error. -/
def tableRemove (table : Table) (key : Option Key) : C (Int × Table) := do
  match key with
  | none => return (-1, table)
  | some key =>
    if table.size = 0 then return (1, table)
    let row := hashCode key table.rows
    let list ← table.listAt row
    let (result, list) ← listRemove list (some key)
    let table := table.setList row list
    if result = -1 then return (-1, table)
    if result = 0 then return (0, { table with size := table.size - 1 })
    return (1, table)

/-- `table_size`: the counter of entries. -/
def tableSize (table : Table) : Int :=
  table.size

/-- The loop of `table_get_keys` over the keys of one row, up to the NULL that ends them. -/
def copyRowKeys (keys : List (Option Key)) (keyIndex : Nat) :
    List (Option Key) → C (List (Option Key) × Nat)
  | [] => throw .outOfBounds
  | none :: _ => return (keys, keyIndex)
  | some key :: listKeys => do
    mallocUnchecked
    let keys ← storeAt keys keyIndex key
    copyRowKeys keys (keyIndex + 1) listKeys

/-- The loop of `table_get_keys` over the rows. -/
def copyTableKeys (keys : List (Option Key)) (keyIndex : Nat) :
    List EntryList → C (List (Option Key))
  | [] => return keys
  | list :: lists => do
    match ← listGetKeys list with
    | none => copyTableKeys keys keyIndex lists
    | some listKeys =>
      let (keys, keyIndex) ← copyRowKeys keys keyIndex listKeys
      copyTableKeys keys keyIndex lists

/-- `table_get_keys`: a NULL-terminated array with a copy of every key, or NULL. -/
def tableGetKeys (table : Table) : C (Option (List (Option Key))) := do
  if table.size = 0 then return none
  if !(← malloc) then return none
  let keys ← copyTableKeys (List.replicate (tableSize table + 1).toNat none) 0 table.lists
  return some keys

/--
The loop of `get_all_entries` over the keys, up to the NULL that ends them.

The debug output of every round prints the entries gathered so far and leaves them as they are.
-/
def gatherEntries (table : Table) (entries : List Entry) :
    List (Option Key) → C (Option (List Entry))
  | [] => throw .outOfBounds
  | none :: _ => return some entries
  | some key :: allKeys => do
    match ← tableGetEntry table (some key) with
    | none => return none
    | some entry =>
      -- The number of entries is one more before the array grows by a slot for the entry, and the
      -- clean-up goes by the number: it uses the slot that is missing, or NULL as the array.
      if !(← malloc) then throw (if entries.isEmpty then .nullDereference else .outOfBounds)
      gatherEntries table (entries ++ [entry]) allKeys

/-- `get_all_entries`: copies of all entries and their number, or NULL. -/
def getAllEntries (table : Table) : C (Option (List Entry × Nat)) := do
  match ← tableGetKeys table with
  | none => return none
  | some allKeys =>
    match ← gatherEntries table [] allKeys with
    | none => return none
    | some entries => return some (entries, entries.length)

end ChainTable
