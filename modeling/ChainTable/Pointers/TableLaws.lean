import ChainTable.Pointers.Table

/-! What the calls of a table do behind pointers is what they do with values. -/

namespace ChainTable.Lifetime

section Counted

/-- An attempt with one allocation ends in one of two ways. -/
theorem malloc_ran {γ : Type} {refused granted value : γ} {outcomes left : Mem}
    (ran : (ChainTable.malloc >>= fun given => if (!given) = true then pure refused
      else pure granted : C γ) outcomes = .ok (value, left)) :
    value = refused ∨ value = granted := by
  -- Either the allocation is given, or it is refused.
  obtain ⟨given, _, _, rest⟩ := ChainTable.bind_ran ran
  cases given <;> cases rest
  · exact .inl rfl
  · exact .inr rfl

/-- The loop of `list_add` counts the nodes that it adds. -/
theorem listAddLoop_counted (list : EntryList) (entry : Entry) (previous back : List Entry)
    (counted : list.size = list.head.length) (whole : list.head = previous ++ back)
    {outcomes left : Mem} {value : Int × EntryList}
    (ran : ChainTable.listAddLoop list entry previous back outcomes = .ok (value, left)) :
    value.2.size = value.2.head.length := by
  -- The nodes already passed and those still ahead are all nodes of the list.
  induction back generalizing previous with
  | nil =>
    cases ran
    exact counted
  | cons current next ih =>
    rw [whole] at counted
    simp only [ChainTable.listAddLoop] at ran
    split at ran
    · rcases malloc_ran ran with rfl | rfl
      · rwa [whole]
      · simp at counted ⊢
        omega
    split at ran
    · cases ran
      simpa using counted
    split at ran
    · rename_i last
      obtain rfl := List.isEmpty_iff.mp last
      rcases malloc_ran ran with rfl | rfl
      · rwa [whole]
      · simp at counted ⊢
        omega
    · exact ih (previous ++ [current]) (by rw [whole, List.append_cons]) ran

/-- An entry is still there after its replacement. -/
theorem entryReplace_some (entry : Entry) (key : Option Key) (value : Option Data) :
    ∃ updated, (ChainTable.entryReplace (some entry) key value).2 = some updated := by
  -- Every branch keeps the entry, or exchanges what is in it.
  unfold ChainTable.entryReplace
  split
  · exact ⟨entry, rfl⟩
  · cases key with
    | none => exact ⟨entry, rfl⟩
    | some key =>
      dsimp only
      split
      · exact ⟨entry, rfl⟩
      · exact ⟨_, rfl⟩

/-- `list_add` counts the nodes that it adds. -/
theorem listAdd_counted {list : EntryList} (entry : Entry) (counted : list.size = list.head.length)
    {outcomes left : Mem} {value : Int × EntryList}
    (ran : ChainTable.listAdd list entry outcomes = .ok (value, left)) :
    value.2.size = value.2.head.length := by
  -- Every branch either keeps the list or adds exactly one node to it.
  obtain ⟨size, nodes⟩ := list
  dsimp only at counted
  simp only [ChainTable.listAdd] at ran
  split at ran
  · cases ran
    exact counted
  split at ran
  · cases ran
    exact counted
  split at ran
  · rename_i empty
    obtain rfl : nodes = [] := by simpa [empty] using counted.symm
    rcases malloc_ran ran with rfl | rfl
    · exact counted
    · rfl
  split at ran
  · rename_i single
    match nodes with
    | [] => cases ran
    | first :: second :: rest => simp at counted; omega
    | [first] =>
      dsimp only at ran
      split at ran
      · rcases malloc_ran ran with rfl | rfl
        · exact counted
        · rfl
      split at ran
      · split at ran
        · cases ran
          exact counted
        · cases ran
          obtain ⟨updated, same⟩ := entryReplace_some first entry.key entry.value
          simpa [same] using counted
      split at ran
      · rcases malloc_ran ran with rfl | rfl
        · exact counted
        · rfl
      · exact listAddLoop_counted ⟨size, [first]⟩ entry [] [first] counted rfl ran
  · exact listAddLoop_counted ⟨size, nodes⟩ entry [] nodes counted rfl ran

/-- The loop of `list_remove` counts the node that it takes out. -/
theorem listRemoveLoop_counted (list : EntryList) (key : Key) (previous back : List Entry)
    (counted : list.size = list.head.length) (whole : list.head = previous ++ back)
    {outcomes left : Mem} {value : Int × EntryList}
    (ran : ChainTable.listRemoveLoop list key previous back outcomes = .ok (value, left)) :
    value.2.size = value.2.head.length := by
  -- The induction is on the nodes ahead, and those behind are collected in front.
  induction back generalizing previous with
  | nil =>
    cases ran
    exact counted
  | cons current next ih =>
    simp only [ChainTable.listRemoveLoop] at ran
    cases keyed : current.key with
    | none =>
      rw [keyed] at ran
      cases ran
    | some held =>
      rw [keyed] at ran
      dsimp only at ran
      split at ran
      · cases ran
        rw [whole] at counted
        simp at counted ⊢
        omega
      · exact ih (previous ++ [current]) (by rw [whole, List.append_cons]) ran

/-- `list_remove` counts the node that it takes out. -/
theorem listRemove_counted {list : EntryList} (key : Key) (counted : list.size = list.head.length)
    {outcomes left : Mem} {value : Int × EntryList}
    (ran : ChainTable.listRemove list (some key) outcomes = .ok (value, left)) :
    value.2.size = value.2.head.length := by
  -- An invalid and an empty list stay as they are, and the loop counts otherwise.
  simp only [ChainTable.listRemove] at ran
  split at ran
  · cases ran
    exact counted
  split at ran
  · cases ran
    exact counted
  · exact listRemoveLoop_counted list key [] list.head counted rfl ran

end Counted

section Calls

variable {table : Nat} {held : Table}

/-- `table_put` does what it does with values, and loses the copies that are told. -/
theorem tablePut_follows (keyBlock data : Nat) (key : Key) (given : Data) :
    Follows objects (tableAt table held * (stringAt keyBlock key * argumentAt data given))
      (tablePut (some table) (some ⟨keyBlock, 0⟩) (some data)) (tablePutKeeping held key given)
      fun result value => .given (result = value.1.1)
        (tableAt table value.1.2 * (stringAt keyBlock key * argumentAt data given) *
          lostAt value.2) := by
  unfold tablePut tablePutKeeping
  refine .permute (argumentAt data given * (tableAt table held * stringAt keyBlock key))
    (by ac_rfl) (argumentValid_next ?_)
  -- Invalid data is refused before anything is copied.
  by_cases valid : ChainTable.dataValid (some given) = -1
  · rw [if_pos valid, if_pos valid]
    refine .done (le_trans (le_of_eq ?_) (Assertion.le_given _ rfl))
    rw [lostAt, mul_one]
    ac_rfl
  rw [if_neg valid, if_neg valid, argumentAt_of_valid valid]
  -- Whenever nothing is left behind, the table and the arguments are what they were.
  have kept : tableAt table held * (stringAt keyBlock key * dataAt data given) ≤
      .given ((-1 : Int) = -1)
        (tableAt table held * (stringAt keyBlock key * dataAt data given) * lostAt []) := by
    refine le_trans ?_ (Assertion.le_given _ rfl)
    rw [lostAt, mul_one]
  -- The key is copied first, the data after it, and an entry made of the copies.
  refine .permute (stringAt keyBlock key * (tableAt table held * dataAt data given)) (by ac_rfl)
    ((strdup_follows keyBlock key).call fun keyCopy copiedKey => ?_)
  refine .permute (nullable stringAt keyCopy copiedKey * (tableAt table held *
    (stringAt keyBlock key * dataAt data given))) (by ac_rfl) (nullable_cases ?_ ?_)
  · rintro rfl rfl
    exact .done kept
  rintro keyCopy copiedKey rfl rfl
  refine .permute (dataAt data given * (stringAt keyCopy copiedKey * (tableAt table held *
    stringAt keyBlock key))) (by ac_rfl)
    ((dataDup_follows data given).call fun valueCopy copied => ?_)
  refine .permute (nullable dataAt valueCopy copied * (stringAt keyCopy copiedKey *
    (tableAt table held * (stringAt keyBlock key * dataAt data given)))) (by ac_rfl)
    (nullable_cases ?_ ?_)
  · rintro rfl rfl
    exact Kind.free_next (.done kept)
  rintro valueCopy copied rfl rfl
  refine .permute (stringAt keyCopy copiedKey * dataAt valueCopy copied * (tableAt table held *
    (stringAt keyBlock key * dataAt data given))) (by ac_rfl)
    ((entryCreate_follows keyCopy valueCopy copiedKey copied).call fun newEntry created => ?_)
  refine .permute (nullable entryAt newEntry created * (stringAt keyCopy copiedKey *
    (dataAt valueCopy copied * (tableAt table held *
    (stringAt keyBlock key * dataAt data given))))) (by ac_rfl) (nullable_cases ?_ ?_)
  · rintro rfl rfl
    exact Kind.free_next (dataDestroy_next (.done kept))
  rintro newEntry created rfl rfl
  -- With all three at hand, the list of the key's row is taken out of the table.
  refine .permute (tableAt table held * (stringAt keyBlock key * (entryAt newEntry created *
    (stringAt keyCopy copiedKey * (dataAt valueCopy copied * dataAt data given))))) (by ac_rfl)
    (rowOfTable_next (readRow_next fun list value counted _ => ?_))
  refine .permute (listAt list value * entryAt newEntry created * (lackingAt table held _ list *
    (stringAt keyCopy copiedKey * (dataAt valueCopy copied * (stringAt keyBlock key *
      dataAt data given))))) (by ac_rfl)
    (((listAdd_follows newEntry created counted).learn (listAdd_counted created counted)).call
      fun result value => .assume fun grown => .assume fun same => ?_)
  subst same
  obtain ⟨result, new⟩ := value
  dsimp only at grown ⊢
  -- A list that refuses the entry gets it destroyed, and both copies are lost.
  by_cases refused : result = -1
  · rw [if_pos refused, if_pos refused, if_pos refused]
    refine .permute (entryAt newEntry created * (listAt list new * (lackingAt table held _ list *
      (stringAt keyCopy copiedKey * (dataAt valueCopy copied * (stringAt keyBlock key *
        dataAt data given)))))) (by ac_rfl) (entryDestroy_next (.done ?_))
    refine le_trans ?_ (Assertion.le_given _ rfl)
    refine le_trans (le_of_eq ?_) (mul_le_mul' (mul_le_mul_left (listAt_mul_le list grown)
      (stringAt keyBlock key * dataAt data given)) (le_lostAt keyCopy valueCopy copiedKey copied))
    ac_rfl
  · rw [if_neg refused, if_neg refused, if_neg refused]
    -- The counter grows with the list, and the copies are freed.
    have finished : ∀ counted : Table, Follows objects
        (lackingAt table counted (hashCode key held.rows) list * (listAt list new *
          (stringAt keyCopy copiedKey * (dataAt valueCopy copied * (stringAt keyBlock key *
            dataAt data given)))))
        (do
          writeRow table (hashCode key held.rows) (some list)
          blocks.free keyCopy
          let _ ← onMemory (dataDestroy (some valueCopy))
          return 0)
        (pure ((0, counted.setList (hashCode key held.rows) new), []) :
          C ((Int × Table) × List (Key × Data)))
        fun result value => .given (result = value.1.1)
          (tableAt table value.1.2 * (stringAt keyBlock key * dataAt data given) *
            lostAt value.2) := by
      intro counted
      refine writeRow_next ?_
      refine .permute (stringAt keyCopy copiedKey * (dataAt valueCopy copied *
        (listAt list new * (lackingAt table counted _ list * (stringAt keyBlock key *
          dataAt data given))))) (by ac_rfl) (Kind.free_next (dataDestroy_next (.done ?_)))
      refine le_trans ?_ (Assertion.le_given _ rfl)
      dsimp only
      rw [lostAt, mul_one]
      refine le_trans (le_of_eq ?_) (mul_le_mul_left (listAt_mul_le list grown) _)
      ac_rfl
    -- Only a new key is counted.
    by_cases added : result = 0
    · rw [if_pos added, if_pos added]
      rw [mul_one]
      refine .permute _ (mul_left_comm _ _ _) (resizeTable_next 1 ?_)
      exact .permute _ (by ac_rfl) (finished { held with size := held.size + 1 })
    · rw [if_neg added, if_neg added]
      exact .permute _ (by ac_rfl) (finished held)

/-- What was found is nowhere, or a part of the whole. -/
theorem foundIn_cases {α β : Type} {others whole : Assertion Address Object} {model : C β}
    {after : α → β → Assertion Address Object} {result : Option Nat} {found : Option Entry}
    {program : Pointed α}
    (missing : result = none → found = none →
      Follows objects (whole * others) program model after)
    (there : ∀ entry held rest, result = some entry → found = some held →
      entryAt entry held * rest ≤ whole →
      Follows objects (entryAt entry held * (rest * others)) program model after) :
    Follows objects (foundIn whole result found * others) program model after := by
  -- A result and what was found are both there, or both missing.
  cases result <;> cases found
  · -- Nothing was found, so that the whole is still there.
    exact missing rfl rfl
  · exact .assume False.elim
  · exact .assume False.elim
  · -- An entry was found, and the rest of the whole is what it leaves.
    refine .choose fun rest => .assume fun completes => ?_
    rw [mul_assoc]
    exact there _ _ rest rfl rfl completes

/-- An entry that was found is looked at, and the table completed again. -/
theorem found_le (table : Nat) {keyBlock list entry : Nat} {key : Key} {row : Int}
    {value : EntryList} {found : Entry} {rest : Assertion Address Object}
    (counted : value.size = value.head.length)
    (same : held.setList row value = held)
    (completes : entryAt entry found * rest ≤ listAt list value * stringAt keyBlock key) :
    entryAt entry found * (rest * lackingAt table held row list) ≤
      tableAt table held * stringAt keyBlock key := by
  -- The entry completes its list, and the list completes the table.
  rw [← mul_assoc]
  refine (mul_le_mul_left completes _).trans (le_trans (le_of_eq ?_)
    (mul_le_mul_left (listAt_mul_le_same list counted same) _))
  ac_rfl

/-- `table_get` does what it does with values, and its answer has memory of its own. -/
theorem tableGet_follows (keyBlock : Nat) (key : Key) :
    Follows objects (tableAt table held * stringAt keyBlock key)
      (tableGet (some table) (some ⟨keyBlock, 0⟩)) (ChainTable.tableGet held (some key))
      fun result value => tableAt table held * stringAt keyBlock key *
        nullable dataAt result value := by
  -- The table is opened down to the entry that is found, and closed around its copy.
  unfold tableGet ChainTable.tableGet
  refine readTable_next fun _ => ?_
  dsimp only
  -- An empty table is not searched.
  by_cases empty : held.size = 0
  · rw [if_pos empty, if_pos empty]
    exact .done (mul_one _).ge
  rw [if_neg empty, if_neg empty]
  refine .permute (tableAt table held * (stringAt keyBlock key * 1)) (by rw [mul_one])
    (rowOfTable_next (readRow_next fun list value counted same => ?_))
  rw [mul_one]
  refine .permute (listAt list value * stringAt keyBlock key * lackingAt table held _ list)
    (by ac_rfl) ((listGet_follows keyBlock key value).call fun result found =>
      foundIn_cases ?_ ?_)
  · -- Nothing was found, and the list goes back to its row.
    rintro rfl rfl
    refine .done (le_trans (le_of_eq ?_) ((mul_le_mul_left (listAt_mul_le_same list counted same)
      (stringAt keyBlock key)).trans (mul_one _).ge))
    ac_rfl
  · -- The data of the entry is copied, with the rest of the table around it.
    rintro entry found rest rfl rfl completes
    have whole := found_le table counted same completes
    refine .choose fun heldBlock => .choose fun data => .choose fun heldKey =>
      .choose fun stored => .assume fun parts => ?_
    subst parts
    rw [mul_assoc]
    refine Kind.read_next ?_
    refine ((dataDup_follows data stored).frame (entries.holds entry
      ⟨some ⟨heldBlock, 0⟩, some data⟩ * (stringAt heldBlock heldKey *
        (rest * lackingAt table held _ list)))).weaken (le_of_eq (by ac_rfl))
      fun result value => ?_
    refine le_trans (le_of_eq ?_) (mul_le_mul_left ((mul_le_mul_left
      (le_entryAt heldBlock data) _).trans whole) _)
    ac_rfl

/-- `table_get_entry` does what it does with values, and its answer has memory of its own. -/
theorem tableGetEntry_follows (keyBlock : Nat) (key : Key) :
    Follows objects (tableAt table held * stringAt keyBlock key)
      (tableGetEntry (some table) (some ⟨keyBlock, 0⟩)) (ChainTable.tableGetEntry held (some key))
      fun result value => tableAt table held * stringAt keyBlock key *
        nullable entryAt result value := by
  -- The table is opened down to the entry that is found, and closed around its copy.
  unfold tableGetEntry ChainTable.tableGetEntry
  refine readTable_next fun _ => ?_
  dsimp only
  -- An empty table is not searched.
  by_cases empty : held.size = 0
  · rw [if_pos empty, if_pos empty]
    exact .done (mul_one _).ge
  rw [if_neg empty, if_neg empty]
  refine .permute (tableAt table held * (stringAt keyBlock key * 1)) (by rw [mul_one])
    (rowOfTable_next (readRow_next fun list value counted same => ?_))
  rw [mul_one]
  refine .permute (listAt list value * stringAt keyBlock key * lackingAt table held _ list)
    (by ac_rfl) ((listGet_follows keyBlock key value).call fun result found =>
      foundIn_cases ?_ ?_)
  · -- Nothing was found, and the list goes back to its row.
    rintro rfl rfl
    refine .done (le_trans (le_of_eq ?_) ((mul_le_mul_left (listAt_mul_le_same list counted same)
      (stringAt keyBlock key)).trans (mul_one _).ge))
    ac_rfl
  · -- The entry is copied, with the rest of the table around it.
    rintro entry found rest rfl rfl completes
    refine ((entryDup_follows entry found).frame (rest * lackingAt table held _ list)).weaken
      (le_refl _) fun result value => ?_
    refine le_trans (le_of_eq ?_) (mul_le_mul_left (found_le table counted same completes) _)
    ac_rfl

/-- `table_remove` does what it does with values, and frees what it takes out. -/
theorem tableRemove_follows (keyBlock : Nat) (key : Key) :
    Follows objects (tableAt table held * stringAt keyBlock key)
      (tableRemove (some table) (some ⟨keyBlock, 0⟩)) (ChainTable.tableRemove held (some key))
      fun result value => .given (result = value.1)
        (tableAt table value.2 * stringAt keyBlock key) := by
  -- The list is taken out of the table, and the shorter one put back in its row.
  unfold tableRemove ChainTable.tableRemove
  refine readTable_next fun _ => ?_
  dsimp only
  -- In an empty table there is nothing to remove.
  by_cases empty : held.size = 0
  · rw [if_pos empty, if_pos empty]
    exact .done (Assertion.le_given _ rfl)
  rw [if_neg empty, if_neg empty]
  refine .permute (tableAt table held * (stringAt keyBlock key * 1)) (by rw [mul_one])
    (rowOfTable_next (readRow_next fun list value counted _ => ?_))
  rw [mul_one]
  refine .permute (listAt list value * stringAt keyBlock key * lackingAt table held _ list)
    (by ac_rfl) (((listRemove_follows keyBlock key value).learn
      (listRemove_counted key counted)).call
      fun result value => .assume fun shrunk => .assume fun same => ?_)
  subst same
  obtain ⟨result, new⟩ := value
  dsimp only at shrunk ⊢
  -- Whatever the counter says, the list completes the table again.
  have put : ∀ counted : Table, listAt list new * stringAt keyBlock key *
      lackingAt table counted (hashCode key held.rows) list ≤
        tableAt table (counted.setList (hashCode key held.rows) new) * stringAt keyBlock key := by
    intro counted
    refine le_trans (le_of_eq ?_) (mul_le_mul_left (listAt_mul_le list shrunk) _)
    ac_rfl
  by_cases refused : result = -1
  · rw [if_pos refused, if_pos refused]
    exact .done ((put held).trans (Assertion.le_given _ rfl))
  rw [if_neg refused, if_neg refused]
  -- Only a key that was there is no longer counted.
  by_cases taken : result = 0
  · rw [if_pos taken, if_pos taken]
    refine .permute (lackingAt table held _ list * (listAt list new * stringAt keyBlock key))
      (mul_comm _ _) (resizeTable_next (-1) (.done ?_))
    refine le_trans (le_of_eq (mul_comm _ _)) ((put _).trans (Assertion.le_given _ rfl))
  · rw [if_neg taken, if_neg taken]
    exact .done ((put held).trans (Assertion.le_given _ rfl))

end Calls

section Creation

variable {table array : Nat} {n size : Int}

/-- The lists of rows are destroyed one after another, up to the last one asked for. -/
theorem destroyLists_next {α β : Type} {others : Assertion Address Object} {model : C β}
    {after : α → β → Assertion Address Object} {next : Unit → Pointed α}
    (front back rest : List (Option Nat)) (values : List EntryList) {row : Nat}
    (starts : row = front.length)
    (goes : Follows objects (tables.holds table ⟨some array, n, size⟩ *
      (rows.holds array (front ++ back ++ rest) * others)) (next ()) model after) :
    Follows objects (tables.holds table ⟨some array, n, size⟩ *
        (rows.holds array (front ++ back ++ rest) * (.pairwise listAt back values * others)))
      (destroyLists table row back.length >>= next) model after := by
  induction back generalizing front values row with
  -- After the last row there are no lists left.
  | nil =>
    rw [List.length_nil, destroyLists, pure_bind]
    refine goes.strengthen (mul_le_mul_right (mul_le_mul_right ?_ _) _)
    cases values with
    | nil => exact (one_mul _).le
    | cons value values =>
      exact (Assertion.any_mul _ _).le.trans (Assertion.any_le False.elim)
  -- The list of this row is read from the array and destroyed.
  | cons slot back ih =>
    refine .permute (.pairwise listAt (slot :: back) values * (tables.holds table _ *
      (rows.holds array (front ++ slot :: back ++ rest) * others))) (by ac_rfl) ?_
    match slot, values with
    | none, _ | some _, [] => exact .assume False.elim
    | some list, value :: values =>
      rw [List.length_cons, destroyLists]
      simp only [bind_assoc]
      refine .permute (tables.holds table _ * (rows.holds array
        (front ++ some list :: back ++ rest) *
          (listAt list value * (.pairwise listAt back values * others))))
        (by simp only [Assertion.pairwise]; ac_rfl)
        (readSlot_next (some list) (by omega) (by simp [starts]) ?_)
      refine .permute (listAt list value * (tables.holds table _ * (rows.holds array
        (front ++ some list :: back ++ rest) * (.pairwise listAt back values * others))))
        (by ac_rfl) (listDestroy_next ?_)
      -- The row that comes next is the one behind what was destroyed.
      have next : row + 1 = (front ++ [some list]).length := by simp [starts]
      have behind := ih (front ++ [some list]) values next
      rw [← List.append_cons] at behind
      exact behind goes

/-- After the loop of `table_create`: lists for all rows, or for none. -/
def created (table array : Nat) (n : Int) (values : List EntryList) {count : Nat} (result : Bool) :
    Option { lists : List EntryList // lists.length = count } → Assertion Address Object
  | some lists => .any fun slots => .given (result = true) (tables.holds table ⟨some array, n, 0⟩ *
      (rows.holds array slots * .pairwise listAt slots (values ++ lists.val)))
  | none => .any fun slots => .given (result = false) (tables.holds table ⟨some array, n, 0⟩ *
      rows.holds array slots)

/-- The loop of `table_create` does what it does with values. -/
theorem createLists_follows (left : Nat) (slots : List (Option Nat)) (values : List EntryList) :
    Follows objects (tables.holds table ⟨some array, n, 0⟩ *
        (rows.holds array (slots ++ List.replicate left none) * .pairwise listAt slots values))
      (createLists table slots.length left) (ChainTable.createLists left)
      fun result lists => created table array n values result lists := by
  induction left generalizing slots values with
  -- All rows have their lists.
  | zero =>
    rw [createLists, ChainTable.createLists]
    refine .done fun _ parts => ⟨slots, rfl, ?_⟩
    simpa using parts
  | succ left ih =>
    rw [createLists, ChainTable.createLists]
    have filled : ∀ slot, (slots ++ List.replicate (left + 1) none).set (slots.length : Int).toNat
        slot = slots ++ [slot] ++ List.replicate left none := by
      intro slot
      simp [List.set_append_right, List.replicate_succ]
    refine .permute (1 * (tables.holds table _ * (rows.holds array _ *
      .pairwise listAt slots values))) (one_mul _).symm (listCreate_follows.call fun list value =>
        nullable_cases ?_ ?_)
    · -- Without a list for this row, those of the earlier ones are destroyed.
      rintro rfl rfl
      refine writeSlot_next none (by omega) (by simp) ?_
      rw [filled]
      refine .permute (tables.holds table ⟨some array, n, 0⟩ * (rows.holds array
        ([] ++ slots ++ ([none] ++ List.replicate left none)) *
          (.pairwise listAt slots values * 1)))
        (by simp) ?_
      rw [if_pos Option.isNone_none]
      refine destroyLists_next [] slots _ values rfl (.done ?_)
      rw [mul_one]
      exact fun _ parts => ⟨_, rfl, parts⟩
    · -- The new list joins those of the earlier rows, and the loop goes on.
      rintro list value rfl rfl
      refine .permute (tables.holds table _ * (rows.holds array _ *
        (listAt list value * .pairwise listAt slots values))) (by ac_rfl)
        (writeSlot_next (some list) (by omega) (by simp) ?_)
      rw [filled, if_neg (by simp), ← bind_pure (createLists _ _ _)]
      have further := ih (slots ++ [some list]) (values ++ [value])
      rw [List.length_append, List.length_singleton] at further
      refine .bind (further.strengthen ?_) fun result lists => ?_
      · refine mul_le_mul_right (mul_le_mul_right ?_ _) _
        exact (mul_comm _ _).le.trans (Assertion.pairwise_concat_le slots values list value)
      · cases lists with
        | none => exact .done (le_refl _)
        | some lists =>
          refine .done ?_
          rintro _ ⟨slots, same, parts⟩
          rw [← List.append_cons] at parts
          exact ⟨slots, same, parts⟩

/-- The lists of a new table count no nodes, and have none. -/
theorem createLists_counted {count : Nat} {outcomes left : Mem}
    {value : Option { lists : List EntryList // lists.length = count }}
    (ran : ChainTable.createLists count outcomes = .ok (value, left)) :
    ∀ lists, value = some lists → ∀ list ∈ lists.val, list.size = list.head.length := by
  -- The loop ends with nothing, or with empty lists as the library of attempts has it.
  obtain ⟨_, gaveUp | went⟩ := (createLists_attempts count).either outcomes
  · rw [gaveUp] at ran
    cases ran
    rintro _ ⟨⟩
  · rw [went] at ran
    cases ran
    rintro _ ⟨rfl⟩ list member
    rw [List.eq_of_mem_replicate member]
    rfl

/-- A table is created with all its rows, or nothing is left of it. -/
theorem tableCreate_follows (n : Int) :
    Follows objects 1 (tableCreate n) (ChainTable.tableCreate n) (nullable tableAt) := by
  -- Each refused allocation frees what was allocated before it.
  unfold tableCreate ChainTable.tableCreate
  -- A table without rows is not created.
  by_cases empty : n ≤ 0
  · rw [if_pos empty, dif_pos empty]
    exact .done (le_refl _)
  rw [if_neg empty, dif_neg empty]
  refine Kind.malloc_next (.done (le_refl _)) fun table => Kind.write_next ?_
  refine Kind.malloc_next ?_ fun array => ?_
  · -- Without memory for the array the table is freed.
    exact Kind.write_next (Kind.free_next (.done (le_refl _)))
  · refine .permute (tables.holds table _ * (rows.holds array _ * 1)) (mul_left_comm _ _ _)
      (Kind.write_next ?_)
    refine .bind ((createLists_follows n.toNat [] []).learn createLists_counted)
      fun result lists => ?_
    refine .permute _ (mul_one _).symm (.assume fun counted => ?_)
    cases lists with
    -- Without memory for one of the lists the array and the table are freed.
    | none =>
      refine .choose fun slots => .assume fun same => ?_
      subst same
      rw [if_neg (by decide), mul_one, mul_comm]
      exact Kind.free_next (.permute _ (mul_one _).symm (Kind.free_next (.done (le_refl _))))
    -- The array points at all the lists, each of which counts its nodes.
    | some lists =>
      refine .choose fun slots => .assume fun same => ?_
      subst same
      rw [if_pos rfl, mul_one]
      exact .done fun _ parts => ⟨array, slots, counted lists rfl, parts⟩

/-- `table_destroy` frees a table with all that is in it. -/
theorem tableDestroy_next {α β : Type} {others : Assertion Address Object} {model : C β}
    {after : α → β → Assertion Address Object} {held : Table} {next : Int → Pointed α}
    (rest : Follows objects others (next 0) model after) :
    Follows objects (tableAt table held * others) (tableDestroy (some table) >>= next) model
      after := by
  refine .choose fun array => .choose fun slots => .assume fun all => ?_
  simp only [tableDestroy, bind_assoc]
  rw [mul_assoc]
  refine Kind.read_next ?_
  simp only [bind_assoc]
  -- There is a list for each of the rows, so all of them are destroyed.
  refine .permute (.pairwise listAt slots held.lists * (tables.holds table _ *
    (rows.holds array slots * others))) (by ac_rfl) ?_
  refine .strengthen (.assume fun lengths => ?_) (mul_le_mul_left
    (Assertion.pairwise_le_length slots held.lists) _)
  refine .permute (tables.holds table ⟨some array, held.rows, held.size⟩ *
    (rows.holds array ([] ++ slots ++ []) * (.pairwise listAt slots held.lists * others)))
    (by simp only [List.nil_append, List.append_nil]; ac_rfl) ?_
  have many : held.rows.toNat = slots.length := by
    rw [← held.length_lists, lengths, Int.toNat_natCast]
  rw [many]
  refine destroyLists_next [] slots [] held.lists rfl ?_
  rw [mul_left_comm]
  exact Kind.free_next (Kind.free_next rest)

end Creation

end ChainTable.Lifetime
