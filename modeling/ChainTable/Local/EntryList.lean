import ChainTable.Local.Entry

/-! Ordered lists of entries: the rows of the table, with their counters. -/

namespace ChainTable

/-- `struct list_t`, a counter and the chain of nodes from its head on. -/
structure EntryList where
  size : Int
  head : List Entry
  deriving DecidableEq, Repr

/-- The loop of `valid_list` over the nodes. -/
def validNodes : List Entry → Int
  | [] => 0
  | current :: next => if entryValid (some current) = -1 then -1 else validNodes next

/-- `valid_list`: 0 for a list of valid entries, -1 otherwise. -/
def validList : Option EntryList → Int
  | none => -1
  | some list =>
    if !list.head.isEmpty && list.size < 0 then -1
    else validNodes list.head

/-- `list_create`: a list without nodes. -/
def listCreate : C (Option EntryList) := do
  if !(← malloc) then return none
  return some { size := 0, head := [] }

/--
The general loop of `list_add`, which serves lists of two nodes and more.

The nodes already passed stand for the `previous` pointer.
-/
def listAddLoop (list : EntryList) (entry : Entry) (previous : List Entry) :
    List Entry → C (Int × EntryList)
  | [] => return (-1, list)
  | current :: next => do
    let compare := entryCompare (some entry) (some current)
    -- Past the right node, so the new one goes before it.
    if compare = -1 then
      if !(← malloc) then return (-1, list)
      return (0, { size := list.size + 1, head := previous ++ entry :: current :: next })
    -- On the right node, whose entry is replaced.
    if compare = 0 then
      return (1, { list with head := previous ++ entry :: next })
    -- On the last node, so the new one is appended.
    if next.isEmpty then
      if !(← malloc) then return (-1, list)
      return (0, { size := list.size + 1, head := previous ++ [current, entry] })
    listAddLoop list entry (previous ++ [current]) next

/-- `list_add`: insert an entry in order, or replace the one with its key. -/
def listAdd (list : EntryList) (entry : Entry) : C (Int × EntryList) := do
  if validList (some list) = -1 then return (-1, list)
  if entryValid (some entry) = -1 then return (-1, list)
  -- The head is assigned before the allocation is checked.
  if list.size = 0 then
    if !(← malloc) then return (-1, { list with head := [] })
    return (0, { size := 1, head := [entry] })
  if list.size = 1 then
    match list.head with
    | [] => throw .nullDereference
    | first :: rest =>
      -- The only node is compared with the new entry, the other way around than in the loop.
      let compare := entryCompare (some first) (some entry)
      if compare = 1 then
        if !(← malloc) then return (-1, list)
        return (0, { size := 2, head := entry :: first :: rest })
      if compare = 0 then
        let (replaced, updated) := entryReplace (some first) entry.key entry.value
        if replaced = -1 then return (-1, list)
        return (1, { list with head := updated.toList ++ rest })
      if compare = -1 then
        if !(← malloc) then return (-1, list)
        return (0, { size := 2, head := [first, entry] })
  listAddLoop list entry [] list.head

/-- The loop of `list_remove` over the nodes. -/
def listRemoveLoop (list : EntryList) (key : Key) (previous : List Entry) :
    List Entry → C (Int × EntryList)
  | [] => return (1, list)
  | current :: next =>
    match current.key with
    | none => throw .nullDereference
    | some held =>
      if strcmp key held = 0 then
        return (0, { size := list.size - 1, head := previous ++ next })
      else listRemoveLoop list key (previous ++ [current]) next

/-- `list_remove`: 0 when the entry with the key was removed, 1 when there is none. -/
def listRemove (list : EntryList) (key : Option Key) : C (Int × EntryList) :=
  if validList (some list) = -1 then return (-1, list)
  else match key with
    | none => return (-1, list)
    | some key =>
      if list.size = 0 then return (1, list)
      else listRemoveLoop list key [] list.head

/-- The loop of `list_get` over the nodes. -/
def listGetLoop (key : Key) : List Entry → C (Option Entry)
  | [] => return none
  | current :: next =>
    match current.key with
    | none => throw .nullDereference
    | some held =>
      if strcmp key held = 0 then return some current
      else listGetLoop key next

/-- `list_get`: the entry with the key, or NULL. -/
def listGet (list : EntryList) (key : Option Key) : C (Option Entry) :=
  if validList (some list) = -1 then return none
  else match key with
    | none => return none
    | some key =>
      if list.size = 0 then return none
      else listGetLoop key list.head

/-- Assignment to a slot of an allocated array of pointers. -/
def storeAt {α : Type} (array : List (Option α)) (index : Nat) (value : α) :
    C (List (Option α)) :=
  if index < array.length then return array.set index (some value)
  else throw .outOfBounds

/-- The loop of `list_get_keys`, copying the key of each node. -/
def listGetKeysLoop (keys : List (Option Key)) (index : Nat) :
    List Entry → C (List (Option Key))
  | [] => return keys
  | current :: next => do
    match current.key with
    | none => throw .nullDereference
    | some key =>
      mallocUnchecked
      let keys ← storeAt keys index key
      listGetKeysLoop keys (index + 1) next

/-- `list_get_keys`: a NULL-terminated array with a copy of every key. -/
def listGetKeys (list : EntryList) : C (Option (List (Option Key))) := do
  if validList (some list) = -1 then return none
  if list.size = 0 then return none
  mallocUnchecked
  let keys ← listGetKeysLoop (List.replicate (list.size + 1).toNat none) 0 list.head
  return some keys

/-- The list that holds exactly the given keys, each with its usable data. -/
def EntryList.ofUsable (pairs : List (Key × Usable)) : EntryList where
  size := pairs.length
  head := pairs.map Entry.ofUsable

/-- The list that holds exactly the given pairs. -/
def EntryList.ofPairs (pairs : List (Key × Block)) : EntryList where
  size := pairs.length
  head := pairs.map Entry.ofPair

/-- The counter is the number of pairs. -/
@[simp] theorem ofPairs_size (pairs : List (Key × Block)) :
    (EntryList.ofPairs pairs).size = pairs.length := rfl

/-- The nodes hold the pairs in order. -/
@[simp] theorem ofPairs_head (pairs : List (Key × Block)) :
    (EntryList.ofPairs pairs).head = pairs.map Entry.ofPair := rfl

/-- A list of pairs is one of keys with usable data. -/
theorem ofPairs_eq (pairs : List (Key × Block)) :
    EntryList.ofPairs pairs = .ofUsable (pairs.map (Prod.map id Block.usable)) := by
  -- Each pair becomes the same entry, directly or by way of the usable data.
  simp only [EntryList.ofPairs, EntryList.ofUsable, List.length_map, List.map_map]
  rfl

/-- A list with a node does not count zero of them. -/
theorem size_cons_ne_zero (first : Key × Block) (rest : List (Key × Block)) :
    (EntryList.ofPairs (first :: rest)).size ≠ 0 := by
  rw [ofPairs_size, List.length_cons]
  omega

/-- A list with two nodes counts neither zero nor one of them. -/
theorem size_of_two (first second : Key × Usable) (rest : List (Key × Usable)) :
    (EntryList.ofUsable (first :: second :: rest)).size ≠ 0 ∧
      (EntryList.ofUsable (first :: second :: rest)).size ≠ 1 := by
  simp only [EntryList.ofUsable, List.length_cons]
  omega

/-- The pairs can be read back from the list that holds them. -/
theorem ofPairs_injective : Function.Injective EntryList.ofPairs := by
  -- The nodes are those of the pairs, and an entry stands for one pair.
  intro left right same
  have entries : left.map Entry.ofPair = right.map Entry.ofPair := congrArg EntryList.head same
  exact List.map_injective_iff.mpr ofPair_injective entries

/-- Nodes holding usable data are valid. -/
theorem validNodes_ofUsable (pairs : List (Key × Usable)) :
    validNodes (pairs.map Entry.ofUsable) = 0 := by
  -- The loop passes every node, since the entry of a pair is valid.
  induction pairs with
  | nil => rfl
  | cons pair rest ih => simp [validNodes, ih]

/-- A list holding usable data is valid. -/
@[simp] theorem validList_ofUsable (pairs : List (Key × Usable)) :
    validList (some (EntryList.ofUsable pairs)) = 0 := by
  -- Its counter is a length, so it cannot be negative.
  have counter : ¬ (pairs.length : Int) < 0 := by omega
  simp [validList, EntryList.ofUsable, counter, validNodes_ofUsable]

/-- A list holding pairs is valid. -/
@[simp] theorem validList_ofPairs (pairs : List (Key × Block)) :
    validList (some (EntryList.ofPairs pairs)) = 0 := by
  rw [ofPairs_eq, validList_ofUsable]

open OrderedAssoc

/-- The general loop replaces the value of a key it finds. -/
theorem listAddLoop_present (list : EntryList) (key : Key) (data : Usable)
    (previous : List Entry) {pairs : List (Key × Usable)} (sorted : Sorted pairs)
    (present : List.lookup key pairs ≠ none) :
    listAddLoop list (.ofUsable (key, data)) previous (pairs.map Entry.ofUsable) =
      pure (1, { list with
        head := previous ++ (OrderedAssoc.insert key data pairs).map Entry.ofUsable }) := by
  -- The walk ends at the node with the key, which is behind every smaller one.
  induction pairs generalizing previous with
  | nil => exact absurd rfl present
  | cons pair rest ih =>
    obtain ⟨other, stored⟩ := pair
    have compare := entryCompare_ofUsable (key, data) (other, stored)
    simp only [lookup_cons] at present
    simp only [List.map_cons, listAddLoop, compare, OrderedAssoc.insert]
    by_cases below : key < other
    · -- A key below the head is nowhere in a sorted list.
      refine absurd ?_ present
      rw [if_neg below.ne]
      exact lookup_eq_none fun pair member => (below.trans (sorted.head_lt pair member)).ne'
    · by_cases same : key = other
      · -- On the right node, the new entry takes the place of the old one.
        simp [same]
      · simp only [if_neg same] at present
        -- The key is further on, so this is not the last node, and the walk goes on.
        have more : rest ≠ [] := fun empty => present (by simp [empty])
        have walked := ih (previous ++ [.ofUsable (other, stored)]) sorted.tail present
        simp [below, same, more, walked]

/-- The general loop inserts a key it does not find, if memory for its node is given. -/
theorem listAddLoop_absent (list : EntryList) (key : Key) (data : Usable)
    (previous : List Entry) {pairs : List (Key × Usable)} (nonempty : pairs ≠ [])
    (absent : List.lookup key pairs = none) :
    Attempts (listAddLoop list (.ofUsable (key, data)) previous (pairs.map Entry.ofUsable))
      (-1, list)
      (0, { size := list.size + 1,
            head := previous ++ (OrderedAssoc.insert key data pairs).map Entry.ofUsable }) := by
  -- The walk ends in front of the first larger node, or behind the last one.
  induction pairs generalizing previous with
  | nil => exact absurd rfl nonempty
  | cons pair rest ih =>
    obtain ⟨other, stored⟩ := pair
    have compare := entryCompare_ofUsable (key, data) (other, stored)
    rw [lookup_cons] at absent
    have differs : key ≠ other := fun same => by simp [same] at absent
    simp only [if_neg differs] at absent
    simp only [List.map_cons, listAddLoop, compare, OrderedAssoc.insert]
    by_cases below : key < other
    · -- Here the new node goes before the one the walk stands on.
      simp only [below, if_true]
      exact .bind .malloc rfl (.pure _ _)
    · simp only [below, differs, if_false]
      by_cases last : rest = []
      · -- The walk stands on the last node, and appends after it.
        subst last
        exact .bind .malloc rfl (.pure _ _)
      · -- The node is smaller and not the last one, so the walk goes on behind it.
        have walked := ih (previous ++ [.ofUsable (other, stored)]) last absent
        simpa [last] using walked

/-- Adding a stored key to a list of valid entries replaces its value, and allocates nothing. -/
theorem listAdd_stored {pairs : List (Key × Usable)} (sorted : Sorted pairs) (key : Key)
    (data : Usable) (present : List.lookup key pairs ≠ none) :
    listAdd (.ofUsable pairs) (.ofUsable (key, data)) =
      pure (1, .ofUsable (OrderedAssoc.insert key data pairs)) := by
  -- A list of one node is handled apart, and a longer one by the general loop.
  have kept := sorted.length_insert key data
  rw [if_neg present] at kept
  unfold listAdd
  match pairs with
  | [] => exact absurd rfl present
  | [(other, stored)] =>
    -- The only node has the key, and takes over key and value of the new entry.
    have same : key = other := by
      by_contra differs
      exact present (by simp [lookup_cons, differs])
    subst same
    have compare := entryCompare_ofUsable (key, stored) (key, data)
    have nodes := validNodes_ofUsable [(key, stored)]
    rw [List.map_cons, List.map_nil] at nodes
    simp [EntryList.ofUsable, compare, entryReplace_ofUsable, OrderedAssoc.insert, validList, nodes]
  | first :: second :: rest =>
    -- The general loop keeps the counter, as the insertion keeps the number of pairs.
    have loop :=
      listAddLoop_present (.ofUsable (first :: second :: rest)) key data [] sorted present
    obtain ⟨notEmpty, notSingle⟩ := size_of_two first second rest
    simp only [validList_ofUsable, entryValid_ofUsable, notEmpty, notSingle, if_false]
    change listAddLoop _ _ [] (List.map Entry.ofUsable (first :: second :: rest)) = _
    rw [loop]
    simp only [EntryList.ofUsable, kept, List.nil_append]

/-- Adding a new key to a list of valid entries inserts it in order, if memory is given. -/
theorem listAdd_fresh {pairs : List (Key × Usable)} (key : Key) (data : Usable)
    (absent : List.lookup key pairs = none) (sorted : Sorted pairs) :
    Attempts (listAdd (.ofUsable pairs) (.ofUsable (key, data))) (-1, .ofUsable pairs)
      (0, .ofUsable (OrderedAssoc.insert key data pairs)) := by
  -- The three cases are an empty list, a list of one node, and a longer one.
  have grown := sorted.length_insert key data
  rw [if_pos absent] at grown
  unfold listAdd
  match pairs with
  | [] =>
    -- The new node becomes the head.
    simp only [validList_ofUsable, entryValid_ofUsable]
    exact .bind .malloc rfl (.pure _ _)
  | [(other, stored)] =>
    have differs : key ≠ other := fun same => by simp [same] at absent
    have compare := entryCompare_ofUsable (other, stored) (key, data)
    simp only [validList_ofUsable, entryValid_ofUsable]
    simp only [EntryList.ofUsable, List.map_cons, List.map_nil, List.length_cons, List.length_nil,
      compare, OrderedAssoc.insert]
    rcases lt_or_gt_of_ne differs with below | above
    · -- The new key goes before the only node.
      simp only [below.asymm, below.ne', below, if_true, if_false]
      exact .bind .malloc rfl (.pure _ _)
    · -- The new key goes after the only node.
      simp only [above, above.asymm, above.ne', if_true, if_false]
      exact .bind .malloc rfl (.pure _ _)
  | first :: second :: rest =>
    have loop := listAddLoop_absent (.ofUsable (first :: second :: rest)) key data []
      (by simp) absent
    obtain ⟨notEmpty, notSingle⟩ := size_of_two first second rest
    simp only [validList_ofUsable, entryValid_ofUsable, notEmpty, notSingle, if_false]
    -- The counter grows by one, as the number of pairs does.
    have counted : EntryList.ofUsable (OrderedAssoc.insert key data (first :: second :: rest)) =
        { size := (EntryList.ofUsable (first :: second :: rest)).size + 1
          head := [] ++
            (OrderedAssoc.insert key data (first :: second :: rest)).map Entry.ofUsable } := by
      simp only [EntryList.ofUsable, grown, List.nil_append, Int.natCast_add, Int.natCast_one]
    rw [counted]
    exact loop

/-- Adding a stored key replaces its value, and allocates nothing. -/
theorem listAdd_present {pairs : List (Key × Block)} (sorted : Sorted pairs) (key : Key)
    (block : Block) (present : List.lookup key pairs ≠ none) :
    listAdd (.ofPairs pairs) (.ofPair (key, block)) =
      pure (1, .ofPairs (OrderedAssoc.insert key block pairs)) := by
  -- A block is usable data, and the keys decide where it goes.
  have stored : List.lookup key (pairs.map (Prod.map id Block.usable)) ≠ none := by
    rwa [lookup_map_values, ne_eq, Option.map_eq_none_iff]
  rw [ofPairs_eq, ofPairs_eq, ← insert_map_values]
  exact listAdd_stored (sorted.map_values _) key (Block.usable block) stored

/-- Adding a key that is not stored inserts it in order, if memory for its node is given. -/
theorem listAdd_absent {pairs : List (Key × Block)} (key : Key) (block : Block)
    (absent : List.lookup key pairs = none) (sorted : Sorted pairs) :
    Attempts (listAdd (.ofPairs pairs) (.ofPair (key, block))) (-1, .ofPairs pairs)
      (0, .ofPairs (OrderedAssoc.insert key block pairs)) := by
  -- A block is usable data, and the keys decide where it goes.
  have fresh : List.lookup key (pairs.map (Prod.map id Block.usable)) = none := by
    rw [lookup_map_values, absent, Option.map_none]
  rw [ofPairs_eq, ofPairs_eq, ← insert_map_values]
  exact listAdd_fresh key (Block.usable block) fresh (sorted.map_values _)

/-- Removal walks to the key, and takes its node out. -/
theorem listRemoveLoop_spec (list : EntryList) (key : Key) (previous : List Entry)
    (pairs : List (Key × Block)) :
    listRemoveLoop list key previous (pairs.map Entry.ofPair) =
      if List.lookup key pairs = none then pure (1, list)
      else pure (0, { size := list.size - 1,
                      head := previous ++ (OrderedAssoc.erase key pairs).map Entry.ofPair }) := by
  -- The walk stops at the first node with the key, as the erasure does.
  induction pairs generalizing previous with
  | nil => rfl
  | cons pair rest ih =>
    obtain ⟨other, stored⟩ := pair
    simp only [List.map_cons, listRemoveLoop, Entry.ofPair, strcmp_eq_zero_iff, lookup_cons,
      OrderedAssoc.erase]
    by_cases same : key = other
    · -- The node with the key is skipped, and its successors are kept.
      simp [same]
    · -- Another node joins those already passed.
      have walked := ih (previous ++ [.ofPair (other, stored)])
      simp only [Entry.ofPair] at walked
      simp only [same, if_false, walked, List.append_assoc, List.cons_append, List.nil_append,
        List.map_cons, Entry.ofPair]

/-- Removing from a list of pairs erases the key, and says whether it was stored. -/
theorem listRemove_spec (pairs : List (Key × Block)) (key : Key) :
    listRemove (.ofPairs pairs) (some key) =
      if List.lookup key pairs = none then pure (1, .ofPairs pairs)
      else pure (0, .ofPairs (OrderedAssoc.erase key pairs)) := by
  -- An empty list is answered before the loop, which handles all other ones.
  have shrunk := length_erase key pairs
  simp only [listRemove, validList_ofPairs]
  match pairs with
  | [] => rfl
  | first :: rest =>
    have notEmpty := size_cons_ne_zero first rest
    simp only [notEmpty, if_false]
    change listRemoveLoop _ key [] (List.map Entry.ofPair (first :: rest)) = _
    rw [listRemoveLoop_spec]
    split
    · rfl
    · -- The counter shrinks by one, as the number of pairs does.
      rename_i present
      rw [if_neg present] at shrunk
      simp [EntryList.ofPairs, shrunk]

/-- Searching the nodes of pairs finds the entry stored under the key. -/
theorem listGetLoop_spec (key : Key) (pairs : List (Key × Block)) :
    listGetLoop key (pairs.map Entry.ofPair) =
      pure ((List.lookup key pairs).map fun block => .ofPair (key, block)) := by
  -- The walk stops at the first node with the key, as the search does.
  induction pairs with
  | nil => rfl
  | cons pair rest ih =>
    obtain ⟨other, stored⟩ := pair
    simp only [List.map_cons, listGetLoop, Entry.ofPair, strcmp_eq_zero_iff, lookup_cons]
    by_cases same : key = other
    · simp [same]
    · simp only [Entry.ofPair] at ih
      simp [same, ih]

/-- Searching a list of pairs finds the entry stored under the key. -/
theorem listGet_spec (pairs : List (Key × Block)) (key : Key) :
    listGet (.ofPairs pairs) (some key) =
      pure ((List.lookup key pairs).map fun block => .ofPair (key, block)) := by
  -- An empty list is answered before the loop, which handles all other ones.
  simp only [listGet, validList_ofPairs]
  match pairs with
  | [] => rfl
  | first :: rest =>
    have notEmpty := size_cons_ne_zero first rest
    simp only [notEmpty, if_false]
    exact listGetLoop_spec key (first :: rest)

/-- Filling the first free slot of an array that has one. -/
theorem storeAt_filled {α : Type} (filled : List α) (free : Nat) (value : α) :
    storeAt (filled.map some ++ List.replicate (free + 1) none) filled.length value =
      pure ((filled ++ [value]).map some ++ List.replicate free none) := by
  -- The slot after the filled ones is the first of the free ones.
  simp [storeAt, List.replicate_succ]

/-- The keys of all nodes are copied into the free slots in order. -/
theorem listGetKeysLoop_unchecked (filled : List Key) (pairs : List (Key × Block)) (free : Nat) :
    Unchecked
      (listGetKeysLoop (filled.map some ++ List.replicate (pairs.length + free) none) filled.length
        (pairs.map Entry.ofPair))
      ((filled ++ pairs.map Prod.fst).map some ++ List.replicate free none) := by
  -- Each node fills the slot after those filled before it.
  induction pairs generalizing filled with
  | nil => simpa [listGetKeysLoop] using Unchecked.pure _
  | cons pair rest ih =>
    have slots : (pair :: rest).length + free = (rest.length + free) + 1 := by
      simp only [List.length_cons]
      omega
    have walked := ih (filled ++ [pair.1])
    simp only [List.length_append, List.length_cons, List.length_nil, List.append_assoc] at walked
    simp only [List.map_cons, listGetKeysLoop, Entry.ofPair, slots, storeAt_filled, pure_bind]
    exact .bind .malloc walked

/-- The keys of a list are copied in order, followed by NULL. -/
theorem listGetKeys_unchecked (pairs : List (Key × Block)) :
    Unchecked (listGetKeys (.ofPairs pairs))
      (if pairs = [] then none else some ((pairs.map Prod.fst).map some ++ [none])) := by
  -- An empty list is answered with NULL, and any other fills all slots but the last one.
  match pairs with
  | [] => exact .pure _
  | first :: rest =>
    have loop := listGetKeysLoop_unchecked [] (first :: rest) 1
    have notEmpty := size_cons_ne_zero first rest
    have slots :
        ((EntryList.ofPairs (first :: rest)).size + 1).toNat = (first :: rest).length + 1 := by
      simp only [EntryList.ofPairs]
      omega
    simp only [listGetKeys, validList_ofPairs, notEmpty, if_false, slots, ofPairs_head]
    simp only [List.map_nil, List.nil_append, List.length_nil] at loop
    exact .bind .malloc (.bind loop (.pure _))

end ChainTable
