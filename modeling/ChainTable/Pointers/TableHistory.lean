import ChainTable.Local.TableHistory
import ChainTable.Pointers.TableLaws

/-! Whole histories of a table behind a pointer: its answers, and the memory it leaves behind. -/

namespace ChainTable.Lifetime

/-- A caller's data comes into memory. -/
def bringData (data : Data) : Pointed Nat := do
  match data.data with
  | none => datas.place ⟨data.datasize, none⟩
  | some bytes =>
    let block ← blocks.place bytes
    datas.place ⟨data.datasize, some ⟨block, 0⟩⟩

/-- A caller frees its own data. -/
def takeBack (data : Nat) : Pointed Unit := do
  let held ← datas.read data
  match held.data with
  | none => datas.free data
  | some pointer =>
    blocks.free pointer.block
    datas.free data

/-- What a caller finds behind a pointer to data. -/
def observe (data : Nat) : Pointed Data := do
  let held ← datas.read data
  match held.data with
  | none => failure
  | some pointer =>
    let bytes ← blocks.read pointer.block
    if proper : int32 held.datasize = held.datasize ∧ held.datasize ≤ bytes.length then
      return { datasize := held.datasize, data := some bytes, isInt := proper.1,
               readable := fun block found => by cases found; exact proper.2 }
    else failure

/--
One call, with a key and data of the caller.

The caller frees what it brought along, and the answer once it has looked at it.
-/
def callTable (table : Nat) : TableCall → Pointed TableReply
  | .put key data => do
    let keyBlock ← blocks.place (key.bytes ++ [0])
    let brought ← bringData data
    let result ← tablePut (some table) (some ⟨keyBlock, 0⟩) (some brought)
    blocks.free keyBlock
    takeBack brought
    return .code result
  | .get key => do
    let keyBlock ← blocks.place (key.bytes ++ [0])
    let answer ← tableGet (some table) (some ⟨keyBlock, 0⟩)
    blocks.free keyBlock
    match answer with
    | none => return .data none
    | some data =>
      let found ← observe data
      let _ ← onMemory (dataDestroy (some data))
      return .data (some found)
  | .remove key => do
    let keyBlock ← blocks.place (key.bytes ++ [0])
    let result ← tableRemove (some table) (some ⟨keyBlock, 0⟩)
    blocks.free keyBlock
    return .code result
  | .size => return .code (← tableSize (some table))

/-- Calls one after another, collecting what they return. -/
def runTable (table : Nat) : List TableCall → Pointed (List TableReply)
  | [] => return []
  | call :: calls => do
    let reply ← callTable table call
    let replies ← runTable table calls
    return reply :: replies

/-- A table from its creation to its destruction, with the calls in between. -/
def useTable (n : Int) (calls : List TableCall) : Pointed (Option (List TableReply)) := do
  match ← tableCreate n with
  | none => return none
  | some table =>
    let replies ← runTable table calls
    let _ ← tableDestroy (some table)
    return some replies

/-- One call on values, with the copies that it never frees. -/
def callKeeping (table : Table) : TableCall → C ((TableReply × Table) × List (Key × Data))
  | .put key data => do
    let ((result, table), lost) ← tablePutKeeping table key data
    return ((.code result, table), lost)
  | call => do
    let answered ← ChainTable.callTable table call
    return (answered, [])

/-- Calls on values one after another, with the copies that they never free. -/
def runKeeping (table : Table) :
    List TableCall → C ((List TableReply × Table) × List (Key × Data))
  | [] => return (([], table), [])
  | call :: calls => do
    let ((reply, table), lost) ← callKeeping table call
    let ((replies, table), more) ← runKeeping table calls
    return ((reply :: replies, table), lost ++ more)

/-- A table of values from its creation on, with the copies that its calls never free. -/
def useKeeping (n : Int) (calls : List TableCall) :
    C (Option (List TableReply) × List (Key × Data)) := do
  match ← ChainTable.tableCreate n with
  | none => return (none, [])
  | some table =>
    let ((replies, _), lost) ← runKeeping table calls
    return (some replies, lost)

/-- A table of values from its creation on. -/
def useValues (n : Int) (calls : List TableCall) : C (Option (List TableReply)) := do
  match ← ChainTable.tableCreate n with
  | none => return none
  | some table =>
    let (replies, _) ← ChainTable.runTable table calls
    return some replies

section Rules

variable {α β : Type} {others : Assertion Address Object} {model : C β}
  {after : α → β → Assertion Address Object}

/-- A caller's data is next to what was there. -/
theorem bringData_next {data : Data} {next : Nat → Pointed α}
    (rest : ∀ brought, Follows objects (argumentAt brought data * others) (next brought) model
      after) :
    Follows objects others (bringData data >>= next) model after := by
  -- Data with a null pointer is one object, and any other is two.
  obtain ⟨size, pointed, isInt, readable⟩ := data
  cases pointed with
  | none => exact Kind.place_next rest
  | some bytes =>
    simp only [bringData, bind_assoc]
    refine Kind.place_next fun block => Kind.place_next fun data => (rest data).strengthen ?_
    rw [← mul_assoc]
    exact mul_le_mul_left (fun _ parts => ⟨block, parts⟩) others

/-- A caller's data is gone once the caller has freed it. -/
theorem takeBack_next {brought : Nat} {data : Data} {next : Unit → Pointed α}
    (rest : Follows objects others (next ()) model after) :
    Follows objects (argumentAt brought data * others) (takeBack brought >>= next) model after := by
  -- The structure tells whether there is a block to be freed.
  obtain ⟨size, pointed, isInt, readable⟩ := data
  simp only [takeBack, bind_assoc]
  cases pointed with
  | none => exact Kind.read_next (Kind.free_next rest)
  | some bytes =>
    refine .choose fun block => ?_
    rw [mul_assoc]
    refine Kind.read_next ?_
    simp only [bind_assoc]
    exact .permute _ (mul_left_comm _ _ _) (Kind.free_next (Kind.free_next rest))

/-- What is found behind a pointer to data is that data. -/
theorem observe_next {data : Nat} {held : Data} {next : Data → Pointed α}
    (rest : Follows objects (dataAt data held * others) (next held) model after) :
    Follows objects (dataAt data held * others) (observe data >>= next) model after := by
  -- The structure and its block are read, and together they are the data.
  refine .choose fun block => .choose fun bytes => .assume fun valid => ?_
  obtain ⟨size, pointed, isInt, readable⟩ := held
  obtain ⟨rfl, positive⟩ := id valid
  have proper : int32 size = size ∧ size ≤ bytes.length := ⟨isInt, readable bytes rfl⟩
  simp only [observe, bind_assoc]
  rw [mul_assoc]
  refine Kind.read_next ?_
  simp only [bind_assoc]
  refine .permute (blocks.holds block bytes * (datas.holds data _ * others)) (mul_left_comm _ _ _)
    (Kind.read_next ?_)
  rw [dif_pos proper, pure_bind]
  refine rest.strengthen ?_
  rw [mul_left_comm, ← mul_assoc]
  exact mul_le_mul_left (le_dataAt data block valid) others

end Rules

/-- What is lost first and what is lost later is all that is lost. -/
theorem lostAt_mul_le (lost more : List (Key × Data)) :
    lostAt lost * lostAt more ≤ lostAt (lost ++ more) := by
  -- The copies of the first list are taken one after another.
  induction lost with
  | nil => exact (one_mul _).le
  | cons copies lost ih =>
    simp only [List.cons_append, lostAt, Assertion.any_mul]
    refine Assertion.any_le fun block => Assertion.any_le fun data => ?_
    rw [mul_assoc]
    exact (mul_le_mul_right ih _).trans fun _ parts => ⟨block, data, parts⟩

/-- Lost copies are three objects each: the key, the structure of the data, and its block. -/
theorem lostAt_adds (lost : List (Key × Data)) : (lostAt lost).Adds (3 * lost.length) := by
  -- Every pair of copies adds its string, its structure and its block.
  induction lost with
  | nil => exact .one
  | cons copies lost ih =>
    rw [List.length_cons, Nat.mul_succ, Nat.add_comm]
    refine .any fun block => .any fun data => .mul ?_ ih
    exact .mul (.cell _ _) (.any fun _ => .any fun _ => .any fun _ => .mul (.cell _ _) (.cell _ _))

section History

variable {table : Nat} {held : Table}

/-- A call answers what it answers on values, and loses the copies that are told. -/
theorem callTable_follows (call : TableCall) :
    Follows objects (tableAt table held) (callTable table call) (callKeeping held call)
      fun reply value => .given (reply = value.1.1) (tableAt table value.1.2 * lostAt value.2) := by
  -- Every call brings its arguments, follows its function, and frees what it brought.
  cases call with
  -- A put brings a key and data, and takes both back afterwards.
  | put key data =>
    unfold callTable callKeeping
    refine Kind.place_next fun keyBlock => bringData_next fun brought => ?_
    refine .permute (tableAt table held * (stringAt keyBlock key * argumentAt brought data) * 1)
      (by rw [mul_one, stringAt]; ac_rfl) ((tablePut_follows keyBlock brought key data).call
        fun result value => .assume fun same => ?_)
    subst same
    refine .permute (stringAt keyBlock key * (argumentAt brought data * (tableAt table value.1.2 *
      lostAt value.2))) (by rw [mul_one]; ac_rfl) ?_
    exact Kind.free_next (takeBack_next (.done (Assertion.le_given _ rfl)))
  -- A get brings a key, and its answer is looked at and destroyed.
  | get key =>
    unfold callTable callKeeping ChainTable.callTable
    simp only [bind_assoc, pure_bind]
    refine Kind.place_next fun keyBlock => ?_
    refine .permute (tableAt table held * stringAt keyBlock key * 1)
      (by rw [mul_one, mul_comm]; rfl) ((tableGet_follows keyBlock key).call
        fun result value => ?_)
    refine .permute (stringAt keyBlock key * (nullable dataAt result value * tableAt table held))
      (by rw [mul_one]; ac_rfl) (Kind.free_next (nullable_cases ?_ ?_))
    · rintro rfl rfl
      exact .done ((mul_one _).ge.trans (Assertion.le_given _ rfl))
    · rintro data found rfl rfl
      refine observe_next (dataDestroy_next (.done ?_))
      exact (mul_one _).ge.trans (Assertion.le_given _ rfl)
  -- A removal brings a key, and answers a number.
  | remove key =>
    unfold callTable callKeeping ChainTable.callTable
    simp only [bind_assoc, pure_bind]
    refine Kind.place_next fun keyBlock => ?_
    refine .permute (tableAt table held * stringAt keyBlock key * 1)
      (by rw [mul_one, mul_comm]; rfl) ((tableRemove_follows keyBlock key).call
        fun result value => .assume fun same => ?_)
    subst same
    refine .permute (stringAt keyBlock key * tableAt table value.2) (by rw [mul_one]; ac_rfl)
      (Kind.free_next (.done ?_))
    exact (mul_one _).ge.trans (Assertion.le_given _ rfl)
  -- The size is a field of the table.
  | size =>
    unfold callTable callKeeping ChainTable.callTable tableSize
    simp only [bind_assoc, pure_bind]
    refine .permute (tableAt table held * 1) (mul_one _).symm (readTable_next fun _ => .done ?_)
    exact Assertion.le_given _ rfl

/-- Calls one after another answer what they answer on values. -/
theorem runTable_follows (calls : List TableCall) :
    Follows objects (tableAt table held) (runTable table calls) (runKeeping held calls)
      fun replies value => .given (replies = value.1.1)
        (tableAt table value.1.2 * lostAt value.2) := by
  -- The induction is on the calls, and the copies lost by each are collected.
  induction calls generalizing held with
  | nil => exact .done ((mul_one _).ge.trans (Assertion.le_given _ rfl))
  | cons call calls ih =>
    unfold runTable runKeeping
    refine .bind (callTable_follows call) fun reply value => ?_
    refine .permute _ (mul_one _).symm (.assume fun same => ?_)
    subst same
    refine .permute (tableAt table value.1.2 * lostAt value.2) (mul_one _) (ih.call
      fun replies further => .assume fun same => .done ?_)
    subst same
    refine le_trans ?_ (Assertion.le_given _ rfl)
    refine le_trans (le_of_eq ?_) (mul_le_mul_right (lostAt_mul_le value.2 further.2) _)
    ac_rfl

/-- A table in use answers what it answers on values, and only copies are left of it. -/
theorem useTable_follows (n : Int) (calls : List TableCall) :
    Follows objects 1 (useTable n calls) (useKeeping n calls)
      fun replies value => .given (replies = value.1) (lostAt value.2) := by
  -- The table is created, used and destroyed, and only the lost copies stay.
  unfold useTable useKeeping
  refine .bind (tableCreate_follows n) fun table held => ?_
  refine .permute _ (mul_one _).symm (nullable_cases ?_ ?_)
  · rintro rfl rfl
    exact .done (Assertion.le_given _ rfl)
  · rintro table held rfl rfl
    rw [mul_one]
    refine .bind (runTable_follows calls) fun replies value => ?_
    refine .permute _ (mul_one _).symm (.assume fun same => ?_)
    subst same
    rw [mul_one]
    exact tableDestroy_next (.done (Assertion.le_given _ rfl))

end History

section Values

/-- Apart from the copies that are told, it is `table_put`. -/
theorem tablePutKeeping_fst (table : Table) (key : Key) (data : Data) :
    Prod.fst <$> tablePutKeeping table key data =
      ChainTable.tablePut table (some key) (some data) := by
  -- Both sides are compared step by step, and a step that fails ends both.
  unfold tablePutKeeping ChainTable.tablePut
  dsimp only
  by_cases valid : ChainTable.dataValid (some data) = -1
  · rw [if_pos valid, if_pos valid]
    rfl
  rw [if_neg valid, if_neg valid, map_bind]
  refine congrArg _ (funext fun keyCopy => ?_)
  cases keyCopy with
  | none => rfl
  | some keyCopy =>
    rw [if_neg (by simp), map_bind]
    refine congrArg _ (funext fun valueCopy => ?_)
    cases valueCopy with
    | none => rfl
    | some valueCopy =>
      rw [if_neg (by simp), map_bind]
      refine congrArg _ (funext fun newEntry => ?_)
      cases newEntry with
      | none => rfl
      | some newEntry =>
        simp only [map_bind]
        refine congrArg _ (funext fun list => congrArg _ (funext fun added => ?_))
        obtain ⟨result, list⟩ := added
        dsimp only
        -- The list has answered, and the copies are told where it refused.
        by_cases refused : result = -1
        · rw [if_pos refused, if_pos refused]
          rfl
        rw [if_neg refused, if_neg refused]
        by_cases added : result = 0
        · rw [if_pos added, if_pos added]
          rfl
        · rw [if_neg added, if_neg added]
          rfl

/-- Only a refused put loses copies, and only those of its own key and data. -/
theorem tablePutKeeping_lost {table : Table} {key : Key} {data : Data} {outcomes left : Mem}
    {value : (Int × Table) × List (Key × Data)}
    (ran : tablePutKeeping table key data outcomes = .ok (value, left)) :
    value.2.length ≤ if value.1.1 = -1 then 1 else 0 := by
  -- Copies are lost in one branch only, where the list refuses the entry.
  unfold tablePutKeeping at ran
  by_cases valid : ChainTable.dataValid (some data) = -1
  · rw [if_pos valid] at ran
    cases ran
    simp
  rw [if_neg valid] at ran
  obtain ⟨keyCopy, _, _, ran⟩ := ChainTable.bind_ran ran
  cases keyCopy with
  | none =>
    cases ran
    simp
  | some keyCopy =>
    obtain ⟨valueCopy, _, _, ran⟩ := ChainTable.bind_ran ran
    cases valueCopy with
    | none =>
      cases ran
      simp
    | some valueCopy =>
      obtain ⟨newEntry, _, _, ran⟩ := ChainTable.bind_ran ran
      cases newEntry with
      | none =>
        cases ran
        simp
      | some newEntry =>
        obtain ⟨list, _, _, ran⟩ := ChainTable.bind_ran ran
        obtain ⟨⟨result, grown⟩, _, _, ran⟩ := ChainTable.bind_ran ran
        dsimp only at ran
        split at ran
        · cases ran
          simp
        split at ran <;> cases ran <;> simp

/-- Apart from the copies that are told, it is one call. -/
theorem callKeeping_fst (table : Table) (call : TableCall) :
    Prod.fst <$> callKeeping table call = ChainTable.callTable table call := by
  -- Only a put keeps copies in mind, and the others have nothing to forget.
  cases call with
  | put key data =>
    simp only [callKeeping, ChainTable.callTable, ← tablePutKeeping_fst, map_bind, bind_map_left]
    rfl
  | get key | remove key | size =>
    simp only [callKeeping, map_bind]
    exact bind_pure _

/-- Only a call that is refused loses copies. -/
theorem callKeeping_lost {table : Table} {call : TableCall} {outcomes left : Mem}
    {value : (TableReply × Table) × List (Key × Data)}
    (ran : callKeeping table call outcomes = .ok (value, left)) :
    value.2.length ≤ if value.1.1 = .code (-1) then 1 else 0 := by
  -- Only a put can lose copies, and it loses them when it is refused.
  cases call with
  | put key data =>
    obtain ⟨⟨⟨result, next⟩, lost⟩, _, called, ran⟩ := ChainTable.bind_ran ran
    cases ran
    simpa using tablePutKeeping_lost called
  | get key | remove key | size =>
    obtain ⟨answered, _, _, ran⟩ := ChainTable.bind_ran ran
    cases ran
    exact Nat.zero_le _

/-- Apart from the copies that are told, they are the calls one after another. -/
theorem runKeeping_fst (table : Table) (calls : List TableCall) :
    Prod.fst <$> runKeeping table calls = ChainTable.runTable table calls := by
  -- The induction is on the calls, each of which is compared on its own.
  induction calls generalizing table with
  | nil => rfl
  | cons call calls ih =>
    simp only [runKeeping, ChainTable.runTable, ← callKeeping_fst, ← ih, map_bind, bind_map_left]
    rfl

/-- Only refused puts lose copies. -/
theorem runKeeping_lost {table : Table} {calls : List TableCall} {outcomes left : Mem}
    {value : (List TableReply × Table) × List (Key × Data)}
    (ran : runKeeping table calls outcomes = .ok (value, left)) :
    value.2.length ≤ value.1.1.count (.code (-1)) := by
  -- Every call adds at most one pair of copies, and only with a refused answer.
  induction calls generalizing table outcomes left value with
  | nil =>
    cases ran
    simp
  | cons call calls ih =>
    obtain ⟨⟨⟨reply, next⟩, lost⟩, _, called, ran⟩ := ChainTable.bind_ran ran
    obtain ⟨⟨⟨replies, final⟩, more⟩, _, further, ran⟩ := ChainTable.bind_ran ran
    cases ran
    have first := callKeeping_lost called
    have rest := ih further
    rw [List.length_append, List.count_cons]
    simp only [beq_iff_eq] at first rest ⊢
    omega

/-- Apart from the copies that are told, it is a table in use. -/
theorem useKeeping_fst (n : Int) (calls : List TableCall) :
    Prod.fst <$> useKeeping n calls = useValues n calls := by
  -- Without a table there is nothing to run, and otherwise the runs are compared.
  unfold useKeeping useValues
  rw [map_bind]
  refine congrArg _ (funext fun table => ?_)
  cases table with
  | none => rfl
  | some table =>
    simp only [← runKeeping_fst, map_bind, bind_map_left]
    rfl

/-- Only refused puts lose copies. -/
theorem useKeeping_lost {n : Int} {calls : List TableCall} {outcomes left : Mem}
    {value : Option (List TableReply) × List (Key × Data)}
    (ran : useKeeping n calls outcomes = .ok (value, left)) :
    value.2.length ≤ (value.1.getD []).count (.code (-1)) := by
  -- Without a table no call is made, and otherwise the calls are counted.
  obtain ⟨table, _, _, ran⟩ := ChainTable.bind_ran ran
  cases table with
  | none =>
    cases ran
    exact Nat.zero_le _
  | some table =>
    obtain ⟨⟨⟨replies, final⟩, lost⟩, _, went, ran⟩ := ChainTable.bind_ran ran
    cases ran
    exact runKeeping_lost went

variable {rows : Nat}

/-- Calls return, whatever memory there is for them. -/
theorem runTable_returns (store : Store rows) {calls : List TableCall}
    (inside : ∀ call ∈ calls, ∀ key ∈ call.key, HashesInside rows key) (outcomes : Mem) :
    ∃ value left, ChainTable.runTable (.ofStore store) calls outcomes = .ok (value, left) := by
  -- Each call leaves the table of a store to those after it.
  induction calls generalizing store outcomes with
  | nil => exact ⟨_, _, rfl⟩
  | cons call calls ih =>
    obtain ⟨reply, next, between, called⟩ : ∃ reply next left,
        ChainTable.callTable (.ofStore store) call outcomes =
          .ok ((reply, .ofStore (next : Store rows)), left) := by
      have own := inside call (by simp)
      cases call with
      | put key data =>
        have allowed : ∀ held ∈ some key, HashesInside rows held := own
        obtain ⟨result, next, left, ran⟩ := tablePut_returns store allowed (some data) outcomes
        exact ⟨_, next, left, by rw [ChainTable.callTable, ChainTable.run_bind ran]; rfl⟩
      | get key =>
        obtain ⟨left, ran | ran⟩ := (tableGet_attempts store (own key rfl)).either outcomes
        · exact ⟨_, store, left, by rw [ChainTable.callTable, ChainTable.run_bind ran]; rfl⟩
        · exact ⟨_, store, left, by rw [ChainTable.callTable, ChainTable.run_bind ran]; rfl⟩
      | remove key =>
        have allowed : ∀ held ∈ some key, HashesInside rows held := own
        obtain ⟨result, next, left, ran⟩ := tableRemove_returns store allowed outcomes
        exact ⟨_, next, left, by rw [ChainTable.callTable, ChainTable.run_bind ran]; rfl⟩
      | size => exact ⟨_, store, outcomes, rfl⟩
    obtain ⟨value, left, ran⟩ :=
      ih next (fun later member => inside later (by simp [member])) between
    refine ⟨(reply :: value.1, value.2), left, ?_⟩
    rw [ChainTable.runTable, ChainTable.run_bind called]
    dsimp only
    rw [ChainTable.run_bind ran]
    rfl

/-- A table in use returns, whatever memory there is for it. -/
theorem useValues_returns {calls : List TableCall}
    (inside : ∀ call ∈ calls, ∀ key ∈ call.key, HashesInside rows key) (outcomes : Mem) :
    ∃ value left, useValues rows calls outcomes = .ok (value, left) := by
  -- The creation gives a table or gives up, and every run over a table returns.
  unfold useValues
  -- There is no table without rows.
  by_cases empty : rows = 0
  · subst empty
    exact ⟨none, outcomes, rfl⟩
  · obtain ⟨between, gaveUp | created⟩ :=
      (tableCreate_attempts (Nat.pos_of_ne_zero empty)).either outcomes
    · exact ⟨none, between, by rw [ChainTable.run_bind gaveUp]; rfl⟩
    · obtain ⟨value, left, ran⟩ := runTable_returns _ inside between
      refine ⟨some value.1, left, ?_⟩
      rw [ChainTable.run_bind created]
      dsimp only
      rw [ChainTable.run_bind ran]
      rfl

end Values

/-- What ran without something further ran with it. -/
theorem ran_of_fst {α β : Type} {run : C (α × β)} {plain : C α} (same : Prod.fst <$> run = plain)
    {outcomes left : Mem} {value : α} (ran : plain outcomes = .ok (value, left)) :
    ∃ further, run outcomes = .ok ((value, further), left) := by
  -- The run is one that forgets something, and it is still told at its end.
  rw [← same, map_eq_pure_bind] at ran
  obtain ⟨⟨value, further⟩, _, went, rest⟩ := ChainTable.bind_ran ran
  cases rest
  exact ⟨further, went⟩

/-- A table in use leaves the memory as it was, next to the objects of the copies it lost. -/
theorem useTable_ran {n : Int} {calls : List TableCall} {memory : TableMemory} {left : Mem}
    {replies : Option (List TableReply)} {lost : List (Key × Data)}
    (kept : useKeeping n calls memory.outcomes = .ok ((replies, lost), left)) :
    ∃ memory', useTable n calls memory = some (replies, memory') ∧ memory'.outcomes = left ∧
      (∀ address object, memory.objects address = some object →
        memory'.objects address = some object) ∧
      {address | memory'.objects address ≠ memory.objects address}.encard =
        (3 * lost.length : Nat) := by
  -- The memory at the end holds exactly the lost copies beside what was there.
  obtain ⟨_, memory', went, same, holds⟩ := (useTable_follows n calls).adds_to_memory memory kept
  dsimp only [View.Has, Assertion.given] at holds
  rw [Assertion.any_mul] at holds
  obtain ⟨rfl, holds⟩ := holds
  exact ⟨memory', went, same, lostAt_adds lost _ _ holds⟩

/--
A table in memory answers what a table of values answers, whichever allocations are refused.

With keys that hash inside, it uses nothing that is not there, and frees what it allocates and
nothing else. All that is ever left of it are the three objects of a copied key and copied data,
for some of the refused puts.
-/
theorem table_in_memory_answers {rows : Nat} {calls : List TableCall}
    (inside : ∀ call ∈ calls, ∀ key ∈ call.key, HashesInside rows key) (memory : TableMemory) :
    ∃ (replies : Option (List TableReply)) (memory' : TableMemory) (lost : Nat),
      useTable rows calls memory = some (replies, memory') ∧
      useValues rows calls memory.outcomes = .ok (replies, memory'.outcomes) ∧
      lost ≤ (replies.getD []).count (.code (-1)) ∧
      (∀ address object, memory.objects address = some object →
        memory'.objects address = some object) ∧
      {address | memory'.objects address ≠ memory.objects address}.encard =
        (3 * lost : Nat) := by
  -- The run over values returns, and the one in memory follows it.
  obtain ⟨replies, left, ran⟩ := useValues_returns inside memory.outcomes
  obtain ⟨lost, kept⟩ := ran_of_fst (useKeeping_fst rows calls) ran
  obtain ⟨memory', went, same, unchanged, added⟩ := useTable_ran kept
  refine ⟨replies, memory', lost.length, went, ?_, useKeeping_lost kept, unchanged, added⟩
  rw [ran, same]

/-- No memory for the node of a second key: its copies stay behind, and nothing else does. -/
theorem table_in_memory_answers_refused :
    let first : Key := ⟨[97], by decide⟩
    let second : Key := ⟨[98], by decide⟩
    let calls : List TableCall := [.put first (.ofBlock ⟨[1], by decide⟩),
      .put second (.ofBlock ⟨[2], by decide⟩), .get second, .size]
    -- Four allocations for the table, eight for the first put, and seven for the second one.
    let memory := freshMemory (List.replicate 19 true ++ [false])
    ∃ memory', ∃ lost ≤ 1, useTable 2 calls memory =
        some (some [.code 0, .code (-1), .data none, .code 1], memory') ∧
      {address | memory'.objects address ≠ memory.objects address}.encard = (3 * lost : Nat) := by
  intro first second calls memory
  have inside : ∀ call ∈ calls, ∀ key ∈ call.key, HashesInside 2 key := by decide
  obtain ⟨replies, memory', lost, used, answered, few, -, many⟩ :=
    table_in_memory_answers inside memory
  -- The table of values tells what is answered.
  have told : useValues 2 calls memory.outcomes =
      .ok (some [.code 0, .code (-1), .data none, .code 1], []) := by decide
  have same := congrArg Prod.fst (Except.ok.inj (told.symm.trans answered))
  subst same
  exact ⟨memory', lost, few, used, many⟩

/-- The answers to calls with valid data are not those of refused puts. -/
theorem answers_refuse_nothing {rows : Nat} {calls : List TableCall}
    (admissible : ∀ call ∈ calls, call.Admissible rows) (contents : Contents) :
    (answers contents calls).count (.code (-1)) = 0 := by
  -- The induction is on the calls, and a put of valid data answers zero.
  induction calls generalizing contents with
  | nil => rfl
  | cons call calls ih =>
    rw [answers, List.count_cons, ih fun later member => admissible later (by simp [member])]
    have own := admissible call (by simp)
    have accepted : (answer contents call).1 ≠ .code (-1) := by
      cases call with
      | put key data =>
        cases found : data.contents with
        | none =>
          have refused := (dataValid_eq_neg_one data).mpr found
          exact absurd (refused.symm.trans own.2) (by decide)
        | some block => simp [answer, found]
      | get key => simp [answer]
      | remove key =>
        simp only [answer]
        split <;> simp
      | size =>
        simp only [answer, ne_eq, TableReply.code.injEq]
        omega
    simp [accepted]

/-- With memory for everything, a table in memory is one finite map, and nothing is left of it. -/
theorem table_in_memory_is_finite_map {rows : Nat} (positive : 1 ≤ rows) {calls : List TableCall}
    (admissible : ∀ call ∈ calls, call.Admissible rows) (memory : TableMemory)
    (given : memory.outcomes = []) :
    ∃ memory', useTable rows calls memory = some (some (answers ∅ calls), memory') ∧
      memory'.objects = memory.objects := by
  obtain ⟨table, holds, created, attempts⟩ := Table.Holds.create positive
  obtain ⟨final, left, -, -, ran⟩ := runTable_spec admissible holds created
  have answered : useValues rows calls memory.outcomes = .ok (some (answers ∅ calls), []) := by
    rw [given, useValues, ChainTable.run_bind attempts.succeeds]
    dsimp only
    rw [ChainTable.run_bind ran]
    rfl
  obtain ⟨lost, kept⟩ := ran_of_fst (useKeeping_fst rows calls) answered
  obtain ⟨memory', went, -, -, added⟩ := useTable_ran kept
  -- No put is refused, so that no copies are lost.
  have few := useKeeping_lost kept
  rw [Option.getD_some, answers_refuse_nothing admissible] at few
  rw [Nat.le_zero.mp few, Nat.mul_zero, Nat.cast_zero, Set.encard_eq_zero] at added
  refine ⟨memory', went, funext fun address => ?_⟩
  by_contra differs
  exact Set.notMem_empty address (added ▸ differs)

/-- Two colliding keys are stored, one is removed, and the memory is as empty as before. -/
theorem table_in_memory_is_finite_map_collision :
    let first : Key := ⟨[97], by decide⟩
    let second : Key := ⟨[99], by decide⟩
    let one : Block := ⟨[1], by decide⟩
    let two : Block := ⟨[2, 3], by decide⟩
    ∃ memory', useTable 2 [.put first (.ofBlock one), .put second (.ofBlock two), .get second,
        .put first (.ofBlock two), .remove second, .get first] (freshMemory []) =
        some (some [.code 0, .code 0, .data (some (.ofBlock two)), .code 0, .code 0,
          .data (some (.ofBlock two))], memory') ∧
      memory'.objects = (freshMemory []).objects := by
  -- Both keys hash to the second of the two rows.
  intro first second one two
  have positive : 1 ≤ 2 := by decide
  exact table_in_memory_is_finite_map positive (by decide) (freshMemory []) rfl

end ChainTable.Lifetime
