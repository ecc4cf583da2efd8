import ChainTable.Local.Contents
import Mathlib.Algebra.BigOperators.Group.List.Basic

/-! Which keys hash to a row that exists, and what calls with the other keys run into. -/

namespace ChainTable

/-- The sum of the bytes of a key, each of them read through the signed `char`. -/
def signedSum (key : Key) : Int := (key.bytes.map signedChar).sum

/-- A wrapped number added to another one wraps as the number itself does. -/
theorem int32_int32_add (left right : Int) : int32 (int32 left + right) = int32 (left + right) := by
  -- Both sides have the same remainder, as the inner conversion takes off a multiple.
  unfold int32
  omega

/-- The loop of `hash_code` wraps the running sum as often as it likes, and ends with one sum. -/
theorem foldl_signedChar (bytes : List UInt8) (start : Int) :
    bytes.foldl (fun sum byte => int32 (sum + signedChar byte)) (int32 start) =
      int32 (start + (bytes.map signedChar).sum) := by
  -- A sum wrapped at every byte is the sum wrapped once, by the lemma above.
  induction bytes generalizing start with
  | nil => simp
  | cons byte rest ih =>
    rw [List.foldl_cons, int32_int32_add, ih, List.map_cons, List.sum_cons, Int.add_assoc]

/-- The row of a key is the remainder of its sum of bytes, once that sum is an `int`. -/
theorem hashCode_eq_tmod (key : Key) (module : Int) :
    hashCode key module = (int32 (signedSum key)).tmod module := by
  -- The loop starts from zero, which is an `int`.
  have summed := foldl_signedChar key.bytes 0
  rw [Int.zero_add, show int32 0 = 0 from rfl] at summed
  rw [hashCode, summed, signedSum]

/-- The remainder of C stays in range for numbers that are not negative, and for multiples. -/
theorem tmod_inside_iff (sum : Int) {rows : Int} (positive : 0 < rows) :
    (0 ≤ sum.tmod rows ∧ sum.tmod rows < rows) ↔ 0 ≤ sum ∨ rows ∣ sum := by
  -- The remainder takes the sign of the sum, so a negative sum leaves zero or a negative number.
  have below : sum.tmod rows < rows := Int.tmod_lt_of_pos sum positive
  have zero : sum.tmod rows = 0 ↔ rows ∣ sum := Int.dvd_iff_tmod_eq_zero.symm
  constructor
  · rintro ⟨inside, -⟩
    by_cases negative : 0 ≤ sum
    · exact .inl negative
    · have mirrored := Int.tmod_nonneg rows (show 0 ≤ -sum by omega)
      rw [Int.neg_tmod] at mirrored
      exact .inr (zero.mp (by omega))
  · -- A sum that is not negative leaves no negative remainder, and a multiple leaves zero.
    rintro (positive | multiple)
    · exact ⟨Int.tmod_nonneg rows positive, below⟩
    · exact ⟨(zero.mpr multiple).ge, below⟩

/-- The code never reads or writes past the end of an array, whatever its allocations do. -/
def Bounded {α : Type} (run : C α) : Prop := ∀ mem, run mem ≠ .error .outOfBounds

namespace Bounded

variable {α β : Type}

/-- A value is within bounds. -/
theorem pure (value : α) : Bounded (Pure.pure value) := by
  -- Nothing is used.
  intro mem left
  cases left

/-- An allocation is within bounds. -/
theorem malloc : Bounded malloc := by
  -- An allocation is given or refused, and is no fault.
  intro mem left
  cases mem <;> cases left

/-- The use of a NULL pointer is not one of an array. -/
theorem nullDereference : Bounded (throw .nullDereference : C α) := by
  -- The fault is another one.
  intro mem left
  cases left

/-- A sequence is within bounds if both of its parts are. -/
theorem bind {first : C α} {next : α → C β} (head : Bounded first)
    (tail : ∀ value, Bounded (next value)) : Bounded (first >>= next) := by
  -- A first part that faults does so within bounds, and the second part runs otherwise.
  intro mem
  cases ran : first mem with
  | error fault =>
    rw [run_bind_error ran]
    have within := head mem
    rw [ran] at within
    intro left
    cases left
    exact within rfl
  | ok result =>
    obtain ⟨value, mem'⟩ := result
    rw [run_bind ran]
    exact tail value mem'

/-- What follows an allocation is all that can leave the bounds. -/
theorem allocated {failed : α} {rest : C α} (tail : Bounded rest) :
    Bounded (do
      if !(← ChainTable.malloc) then return failed
      rest) := by
  -- Memory that was not given ends the code with a value.
  refine .bind .malloc fun given => ?_
  split
  · exact .pure _
  · exact tail

end Bounded

/-- Copying data stays within bounds, as the structure says how many bytes can be read. -/
theorem dataDup_bounded (data : Option Data) : Bounded (dataDup data) := by
  -- The copy takes as many bytes as the size says, which the structure can be read for.
  unfold dataDup
  split
  · exact .pure _
  cases data with
  | none => exact .nullDereference
  | some data =>
    refine .allocated (.allocated ?_)
    split
    · exact .nullDereference
    · exact .pure _

/-- Creating an entry stays within bounds. -/
theorem entryCreate_bounded (key : Option Key) (data : Option Data) :
    Bounded (entryCreate key data) := by
  -- The arguments are checked, and two allocations come before the copy of the data.
  cases key with
  | none => exact .pure _
  | some key =>
    unfold entryCreate
    dsimp only
    split
    · exact .pure _
    refine .allocated (.allocated ?_)
    refine .bind (dataDup_bounded data) fun value => ?_
    split <;> exact .pure _

/-- Copying an entry stays within bounds. -/
theorem entryDup_bounded (entry : Option Entry) : Bounded (entryDup entry) := by
  -- The entry is checked, and two allocations come before the copy of its data.
  unfold entryDup
  split
  · exact .pure _
  cases entry with
  | none => exact .nullDereference
  | some entry =>
    refine .allocated (.allocated ?_)
    refine .bind (dataDup_bounded entry.value) fun value => ?_
    split <;> exact .pure _

/-- The general loop of an insertion stays within bounds. -/
theorem listAddLoop_bounded (list : EntryList) (entry : Entry) (previous nodes : List Entry) :
    Bounded (listAddLoop list entry previous nodes) := by
  -- The walk follows the nodes, and only allocates where it ends.
  induction nodes generalizing previous with
  | nil => exact .pure _
  | cons current next ih =>
    unfold listAddLoop
    dsimp only
    split
    · exact .allocated (.pure _)
    split
    · exact .pure _
    split
    · exact .allocated (.pure _)
    · exact ih _

/-- An insertion into a list stays within bounds. -/
theorem listAdd_bounded (list : EntryList) (entry : Entry) : Bounded (listAdd list entry) := by
  -- Each case allocates a node, replaces an entry, or leaves the work to the loop.
  have loop := listAddLoop_bounded list entry [] list.head
  unfold listAdd
  split
  · exact .pure _
  split
  · exact .pure _
  split
  · exact .allocated (.pure _)
  split
  · split
    · exact .nullDereference
    · dsimp only
      split
      · exact .allocated (.pure _)
      split
      · split <;> exact .pure _
      split
      · exact .allocated (.pure _)
      · exact loop
  · exact loop

/-- Looking for a key in the nodes of a list stays within bounds. -/
theorem listGetLoop_bounded (key : Key) (nodes : List Entry) : Bounded (listGetLoop key nodes) := by
  -- The walk follows the nodes, and compares the keys that they have.
  induction nodes with
  | nil => exact .pure _
  | cons current next ih =>
    unfold listGetLoop
    split
    · exact .nullDereference
    · split
      · exact .pure _
      · exact ih

/-- A lookup in a list stays within bounds. -/
theorem listGet_bounded (list : EntryList) (key : Key) : Bounded (listGet list (some key)) := by
  -- An invalid and an empty list are not searched.
  unfold listGet
  split
  · exact .pure _
  dsimp only
  split
  · exact .pure _
  · exact listGetLoop_bounded key list.head

/-- Looking for a key to remove in the nodes of a list stays within bounds. -/
theorem listRemoveLoop_bounded (list : EntryList) (key : Key) (previous nodes : List Entry) :
    Bounded (listRemoveLoop list key previous nodes) := by
  -- The walk follows the nodes, and compares the keys that they have.
  induction nodes generalizing previous with
  | nil => exact .pure _
  | cons current next ih =>
    unfold listRemoveLoop
    split
    · exact .nullDereference
    · split
      · exact .pure _
      · exact ih _

/-- A removal from a list stays within bounds. -/
theorem listRemove_bounded (list : EntryList) (key : Key) :
    Bounded (listRemove list (some key)) := by
  -- From an invalid and an empty list nothing is removed.
  unfold listRemove
  split
  · exact .pure _
  dsimp only
  split
  · exact .pure _
  · exact listRemoveLoop_bounded list key [] list.head

/-- Indexing the array of rows stays within bounds for every key that hashes inside. -/
theorem listAt_bounded {table : Table} {key : Key} (inside : table.Inside key) :
    Bounded (table.listAt (hashCode key table.rows)) := by
  -- The array has as many lists as the table has rows.
  have length := table.length_lists
  have inRange : (hashCode key table.rows).toNat < table.lists.length := by
    have := inside.1
    have := inside.2
    omega
  simp only [Table.listAt, if_pos inside.1, List.getElem?_eq_getElem inRange]
  exact .pure _

/-- A put under a key that hashes inside stays within bounds. -/
theorem tablePut_bounded {table : Table} {key : Key} (inside : table.Inside key)
    (value : Option Data) : Bounded (tablePut table (some key) value) := by
  unfold tablePut
  dsimp only
  split
  · exact .pure _
  -- The key and the value are copied, and an entry is made of the copies.
  refine .bind (.bind .malloc fun given => by split <;> exact .pure _) fun keyCopy => ?_
  split
  · exact .pure _
  refine .bind (dataDup_bounded value) fun valueCopy => ?_
  split
  · exact .pure _
  refine .bind (entryCreate_bounded keyCopy valueCopy) fun created => ?_
  split
  · exact .pure _
  · -- Only now the row is read, which is there.
    refine .bind (listAt_bounded inside) fun list => ?_
    refine .bind (listAdd_bounded list _) fun added => ?_
    split
    · exact .pure _
    · split <;> exact .pure _

/-- A lookup of a key that hashes inside stays within bounds. -/
theorem tableGet_bounded {table : Table} {key : Key} (inside : table.Inside key) :
    Bounded (tableGet table (some key)) := by
  -- The row is inside, and so is what is done with its list.
  unfold tableGet
  dsimp only
  split
  · exact .pure _
  refine .bind (listAt_bounded inside) fun list => ?_
  refine .bind (listGet_bounded list key) fun found => ?_
  split
  · exact .pure _
  · exact dataDup_bounded _

/-- A lookup of the entry with a key that hashes inside stays within bounds. -/
theorem tableGetEntry_bounded {table : Table} {key : Key} (inside : table.Inside key) :
    Bounded (tableGetEntry table (some key)) := by
  -- The row is inside, and so is what is done with its list.
  unfold tableGetEntry
  dsimp only
  split
  · exact .pure _
  refine .bind (listAt_bounded inside) fun list => ?_
  refine .bind (listGet_bounded list key) fun found => ?_
  split
  · exact .pure _
  · exact entryDup_bounded _

/-- A removal of a key that hashes inside stays within bounds. -/
theorem tableRemove_bounded {table : Table} {key : Key} (inside : table.Inside key) :
    Bounded (tableRemove table (some key)) := by
  -- The row is inside, and so is what is done with its list.
  unfold tableRemove
  dsimp only
  split
  · exact .pure _
  refine .bind (listAt_bounded inside) fun list => ?_
  refine .bind (listRemove_bounded list key) fun took => ?_
  split
  · exact .pure _
  · split <;> exact .pure _

/-- The calls that index the array of rows, with their other arguments, stay inside it. -/
def CallsBounded (table : Table) (key : Key) : Prop :=
  (∀ value, Bounded (tablePut table (some key) value)) ∧ Bounded (tableGet table (some key)) ∧
    Bounded (tableGetEntry table (some key)) ∧ Bounded (tableRemove table (some key))

/-- Every call with a key that hashes inside stays inside the array of rows. -/
theorem calls_bounded {table : Table} {key : Key} (inside : table.Inside key) :
    CallsBounded table key :=
  ⟨tablePut_bounded inside, tableGet_bounded inside, tableGetEntry_bounded inside,
    tableRemove_bounded inside⟩

/--
A key hashes to a row of the table, and no call with it leaves the rows, for certain sums only.

The sum of its signed bytes must, once it is an `int`, be a multiple of the rows or not be negative.
-/
theorem hash_inside_iff (key : Key) (table : Table) (positive : 1 ≤ table.rows) :
    (0 ≤ hashCode key table.rows ∧ hashCode key table.rows < table.rows ∧ CallsBounded table key) ↔
      0 ≤ int32 (signedSum key) ∨ table.rows ∣ int32 (signedSum key) := by
  -- The row is the remainder of the sum, and the calls follow from the row.
  have range := tmod_inside_iff (int32 (signedSum key)) (show 0 < table.rows by omega)
  rw [← hashCode_eq_tmod] at range
  rw [← range]
  exact ⟨fun both => ⟨both.1, both.2.1⟩, fun inside => ⟨inside.1, inside.2, calls_bounded inside⟩⟩

/-- A key of two bytes above 127 hashes to a row if their sum is a multiple of the rows. -/
theorem hash_inside_iff_multiple :
    let key : Key := ⟨[255, 254], by decide⟩
    let table : Table := ⟨0, 3, [⟨0, []⟩, ⟨0, []⟩, ⟨0, []⟩], rfl⟩
    signedSum key = -3 ∧ CallsBounded table key := by
  -- The signed bytes are -1 and -2, and -3 is a multiple of the three rows.
  intro key table
  have inside := (hash_inside_iff key table (by decide)).mpr (.inr (by decide))
  exact ⟨by decide, inside.2.2⟩

/-- The key of the single byte 255 hashes to row -1 of two rows, and its put leaves the array. -/
theorem hash_of_high_byte_is_negative :
    let key : Key := ⟨[255], by decide⟩
    let table : Table := ⟨0, 2, [⟨0, []⟩, ⟨0, []⟩], rfl⟩
    1 ≤ table.rows ∧ hashCode key table.rows = -1 ∧
      tablePut table (some key) (some (.ofBlock ⟨[1], by decide⟩)) [] = .error .outOfBounds := by
  -- The signed byte is -1, and its remainder by two is negative.
  intro key table
  exact ⟨by decide, by decide, rfl⟩

end ChainTable
