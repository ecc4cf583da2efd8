import ChainTable.Server.InvokeLaws
import ChainTable.Local.TableHistory

/-! The order in which a table lists its entries does not depend on the history of the table. -/

namespace ChainTable

/-- A call that may change a table. -/
inductive TableChange where
  | put (key : Option Key) (value : Option Data)
  | remove (key : Option Key)
  deriving DecidableEq, Repr

/-- The key a change is about. -/
def TableChange.key : TableChange → Option Key
  | put key _ | remove key => key

/-- Make one change. -/
def changeTable (table : Table) : TableChange → C (Int × Table)
  | .put key value => tablePut table key value
  | .remove key => tableRemove table key

/-- Make changes one after another, whatever each of them returns. -/
def changeAll (table : Table) : List TableChange → C Table
  | [] => return table
  | change :: changes => do
    let (_, table) ← changeTable table change
    changeAll table changes

/-- With memory given, changes returned from leave the table of a store. -/
theorem changeAll_returns {rows : Nat} (store : Store rows) {changes : List TableChange}
    (inside : ∀ change ∈ changes, ∀ key ∈ change.key, HashesInside rows key) :
    ∃ next : Store rows, changeAll (.ofStore store) changes [] = .ok (.ofStore next, []) := by
  -- Each change leaves the table of a store to the changes after it.
  induction changes generalizing store with
  | nil => exact ⟨store, rfl⟩
  | cons change rest ih =>
    have here := inside change (by simp)
    have step : ∃ (code : Int) (next : Store rows),
        changeTable (.ofStore store) change [] = .ok ((code, .ofStore next), []) := by
      cases change with
      | put key value =>
        -- A put is refused at once, or stores its block with the memory that is given.
        have named : ∀ held ∈ key, HashesInside rows held := here
        rcases tablePut_cases store named value with refused | ⟨_, _, _, _, _, _, _, attempts⟩
        · exact ⟨-1, store, by rw [changeTable, refused]; rfl⟩
        · exact ⟨0, _, attempts.succeeds⟩
      | remove key =>
        cases key with
        | none => exact ⟨-1, store, rfl⟩
        | some key =>
          rw [changeTable, tableRemove_spec store (here key rfl)]
          split
          · exact ⟨1, store, rfl⟩
          · exact ⟨0, _, rfl⟩
    obtain ⟨code, next, ran⟩ := step
    obtain ⟨last, others⟩ := ih next fun change later => inside change (by simp [later])
    exact ⟨last, by rw [changeAll, run_bind ran]; exact others⟩

/-- Two stores whose tables answer every lookup alike are the same store. -/
theorem store_eq_of_tableGet {rows : Nat} {left right : Store rows}
    (agree : ∀ key, HashesInside rows key →
      tableGet (.ofStore left) (some key) [] = tableGet (.ofStore right) (some key) []) :
    left = right := by
  -- A lookup of a key that hashes inside tells its block, and no other key is stored.
  refine Buckets.ext_lookup fun key => ?_
  by_cases inside : HashesInside rows key
  · have found := agree key inside
    rw [tableGet_spec left inside, tableGet_spec right inside] at found
    simp only [Except.ok.injEq, Prod.mk.injEq, and_true] at found
    exact Option.map_injective ofBlock_injective found
  · have absent : ∀ store : Store rows, store.lookup key = none := fun store => by
      by_contra stored
      obtain ⟨block, found⟩ := Option.ne_none_iff_exists'.mp stored
      exact inside (store.inRange_of_lookup found)
    rw [absent left, absent right]

/-- Two tables that look the same row by row, and to every request for keys or for entries. -/
structure Alike (left right : Table) : Prop where
  /-- The rows hold the same nodes with the same values in the same order. -/
  lists : left.lists = right.lists
  /-- The counters agree. -/
  size : left.size = right.size
  /-- The same keys are listed, in the same order. -/
  keys : tableGetKeys left [] = tableGetKeys right []
  /-- The same entries are listed, in the same order. -/
  entries : getAllEntries left [] = getAllEntries right []
  /-- Replicas with these tables answer GETKEYS and GETTABLE with the same code and reply. -/
  replies : ∀ {σ τ : Type} (next : Option (Successor σ)) (next' : Option (Successor τ))
    (msg : MessageT) (server server' : Server) (state : σ) (state' : τ),
    server.table = left → server'.table = right →
    msg.opcode = opGetKeys ∨ msg.opcode = opGetTable →
    ∃ code reply served served',
      invoke next (some msg) server state [] = .ok (((code, reply, served), state), []) ∧
        invoke next' (some msg) server' state' [] = .ok (((code, reply, served'), state'), [])

/-- A table of a store is like itself, since all it answers is in the store. -/
theorem alike_ofStore {rows : Nat} (store : Store rows) :
    Alike (.ofStore store) (.ofStore store) where
  lists := rfl
  size := rfl
  keys := rfl
  entries := rfl
  replies next next' msg server server' state state' same same' question := by
    -- The pairs of the store are what both replicas list.
    have keys := tableGetKeys_spec store
    have entries := getAllEntries_spec store
    simp only [Buckets.size, List.length_eq_zero_iff] at keys entries
    simp only [← List.map_eq_nil_iff (f := Prod.fst)] at keys
    rcases question with isGetKeys | isGetTable
    · have counted : tableSize (.ofStore store) = (store.pairs.map Prod.fst).length := by
        rw [tableSize, ofStore_size, Buckets.size, List.length_map]
      exact ⟨_, _, _, _, invoke_getKeys_listed isGetKeys (same ▸ keys) (same ▸ counted),
        invoke_getKeys_listed isGetKeys (same' ▸ keys) (same' ▸ counted)⟩
    · exact ⟨_, _, _, _, invoke_getTable_listed isGetTable (same ▸ entries),
        invoke_getTable_listed isGetTable (same' ▸ entries)⟩

/-- Histories that end with the same map end with tables that nothing tells apart. -/
theorem table_forgets_history {rows : Nat} (positive : 1 ≤ rows)
    {changes changes' : List TableChange}
    (inside : ∀ change ∈ changes, ∀ key ∈ change.key, HashesInside rows key)
    (inside' : ∀ change ∈ changes', ∀ key ∈ change.key, HashesInside rows key) :
    ∃ created left right : Table, tableCreate rows [] = .ok (some created, []) ∧
      changeAll created changes [] = .ok (left, []) ∧
      changeAll created changes' [] = .ok (right, []) ∧
      ((∀ key, HashesInside rows key →
        tableGet left (some key) [] = tableGet right (some key) []) → Alike left right) := by
  -- Both histories start from the empty store, and each ends with a store.
  obtain ⟨left, ran⟩ := changeAll_returns (.empty _ rows) inside
  obtain ⟨right, ran'⟩ := changeAll_returns (.empty _ rows) inside'
  refine ⟨_, _, _, (tableCreate_attempts positive).succeeds, ran, ran', fun agree => ?_⟩
  -- A store is determined by what it finds.
  obtain rfl := store_eq_of_tableGet agree
  exact alike_ofStore left

/-- Two keys put in one order, or in the other with a third one in between that is removed. -/
theorem table_forgets_history_orders :
    let first : Key := ⟨[97], by decide⟩
    let second : Key := ⟨[98], by decide⟩
    let third : Key := ⟨[99], by decide⟩
    let one : Data := .ofBlock ⟨[1], by decide⟩
    let two : Data := .ofBlock ⟨[2], by decide⟩
    ∃ created left right : Table, tableCreate 1 [] = .ok (some created, []) ∧
      changeAll created [.put first one, .put second two] [] = .ok (left, []) ∧
      changeAll created [.put second one, .put third two, .put first one, .remove third,
        .put second two] [] = .ok (right, []) ∧ Alike left right := by
  intro first second third one two
  have inside : ∀ change ∈ [TableChange.put first one, .put second two],
      ∀ key ∈ change.key, HashesInside 1 key := by decide
  have inside' : ∀ change ∈ [TableChange.put second one, .put third two, .put first one,
      .remove third, .put second two], ∀ key ∈ change.key, HashesInside 1 key := by decide
  obtain ⟨created, left, right, made, ran, ran', alike⟩ :=
    table_forgets_history (le_refl 1) inside inside'
  refine ⟨created, left, right, made, ran, ran', alike ?_⟩
  -- Both runs can be followed, and end with the same two nodes.
  have evaluated : tableCreate (1 : Nat) [] = .ok (some ⟨0, 1, [⟨0, []⟩], rfl⟩, []) := rfl
  rw [evaluated] at made
  cases made
  have last : changeAll ⟨0, 1, [⟨0, []⟩], rfl⟩ [.put first one, .put second two] [] =
      .ok (⟨2, 1, [⟨2, [⟨some first, some one⟩, ⟨some second, some two⟩]⟩], rfl⟩, []) := rfl
  have last' : changeAll ⟨0, 1, [⟨0, []⟩], rfl⟩ [.put second one, .put third two, .put first one,
      .remove third, .put second two] [] =
      .ok (⟨2, 1, [⟨2, [⟨some first, some one⟩, ⟨some second, some two⟩]⟩], rfl⟩, []) := rfl
  rw [last] at ran
  rw [last'] at ran'
  cases ran
  cases ran'
  exact fun key inside => rfl

end ChainTable
