import ChainTable.Library.Following
import ChainTable.Local.Lifetime
import ChainTable.Local.Memory

/-! The memory of the pointer program: every kind of object that a table is made of. -/

namespace ChainTable.Lifetime

/-- `struct node_t` in memory. -/
structure NodeObject where
  entry : Option Nat
  next : Option Nat
  deriving DecidableEq, Repr

/-- `struct list_t` in memory. -/
structure ListObject where
  size : Int
  head : Option Nat
  deriving DecidableEq, Repr

/-- `struct table_t` in memory, with the address of its array of lists. -/
structure TableObject where
  lists : Option Nat
  rows : Int
  size : Int
  deriving DecidableEq, Repr

/-- Data and entries, with the objects that a table keeps them in. -/
structure TableMemory where
  memory : Memory
  nodes : Heap NodeObject
  lists : Heap ListObject
  /-- Arrays of pointers to lists. -/
  rows : Heap (List (Option Nat))
  tables : Heap TableObject
  /-- The outcomes of the allocations to come. -/
  outcomes : Mem

/-- A memory in which nothing was allocated yet. -/
def freshMemory (outcomes : Mem) : TableMemory where
  memory := ⟨.empty, .empty, .empty, .empty⟩
  nodes := .empty
  lists := .empty
  rows := .empty
  tables := .empty
  outcomes := outcomes

instance : Nonempty TableMemory := ⟨freshMemory []⟩

/-- Code that works on this memory, and ends nowhere when it uses what is not or no longer there. -/
abbrev Pointed := StateT TableMemory Option

/-- The address of an object, with its kind. -/
inductive Address where
  | block (block : Nat)
  | data (data : Nat)
  | entry (entry : Nat)
  | array (array : Nat)
  | node (node : Nat)
  | list (list : Nat)
  | row (row : Nat)
  | table (table : Nat)
  deriving DecidableEq, Repr

/-- An object. -/
inductive Object where
  | block (bytes : List UInt8)
  | data (object : DataObject)
  | entry (object : EntryObject)
  | array (slots : List (Option Nat))
  | node (object : NodeObject)
  | list (object : ListObject)
  | row (slots : List (Option Nat))
  | table (object : TableObject)
  deriving DecidableEq, Repr

/-- The objects of a memory by their addresses. -/
def TableMemory.objects (memory : TableMemory) : Address → Option Object
  | .block block => (memory.memory.blocks.objects block).map .block
  | .data data => (memory.memory.datas.objects data).map .data
  | .entry entry => (memory.memory.entries.objects entry).map .entry
  | .array array => (memory.memory.arrays.objects array).map .array
  | .node node => (memory.nodes.objects node).map .node
  | .list list => (memory.lists.objects list).map .list
  | .row row => (memory.rows.objects row).map .row
  | .table table => (memory.tables.objects table).map .table

/-- How the program sees its memory. -/
def objects : View TableMemory Mem Address Object := ⟨TableMemory.objects, TableMemory.outcomes⟩

/-- Code that knows of data and entries alone. -/
def onMemory {α : Type} (run : Managed α) : Pointed α := fun memory =>
  (run memory.memory).map fun (value, left) => (value, { memory with memory := left })

/-- The outcome of the next allocation. -/
def outcome : Pointed Bool := fun memory =>
  match memory.outcomes with
  -- With no scripted outcome left, memory is always there.
  | [] => some (true, memory)
  | given :: rest => some (given, { memory with outcomes := rest })

/-- The objects of one kind, which are kept in a heap of their own. -/
structure Kind (τ : Type) where
  heap : TableMemory → Heap τ
  update : Heap τ → TableMemory → TableMemory
  address : Nat → Address
  object : τ → Object
  seen : ∀ memory name,
    memory.objects (address name) = ((heap memory).objects name).map object := by
      intro _ _; rfl
  updated : ∀ new memory, heap (update new memory) = new := by intro _ _; rfl
  others : ∀ new memory place, (∀ name, place ≠ address name) →
    (update new memory).objects place = memory.objects place := by
      intro _ _ place differs
      cases place <;> first | rfl | exact absurd rfl (differs _)
  outcomes : ∀ new memory, (update new memory).outcomes = memory.outcomes := by intro _ _; rfl
  recovered : Function.Injective object := by
    intro _ _ same
    injection same

namespace Kind

variable {τ : Type}

/-- Read an object. -/
def read (kind : Kind τ) (name : Nat) : Pointed τ := fun memory =>
  ((kind.heap memory).objects name).map (·, memory)

/-- Assign an object. -/
def write (kind : Kind τ) (name : Nat) (new : τ) : Pointed Unit := do
  let _ ← kind.read name
  modify fun memory => kind.update ((kind.heap memory).modify name fun _ => new) memory

/-- `free` of an object. -/
def free (kind : Kind τ) (name : Nat) : Pointed Unit := do
  let _ ← kind.read name
  modify fun memory => kind.update ((kind.heap memory).free name) memory

/-- An object that is new, for which there is memory. -/
def place (kind : Kind τ) (new : τ) : Pointed Nat := fun memory =>
  some ((kind.heap memory).next, kind.update ((kind.heap memory).alloc new) memory)

/-- `malloc` of an object, with what happens to be in it. -/
def malloc (kind : Kind τ) (fresh : τ) : Pointed (Option Nat) := do
  if !(← outcome) then return none
  return some (← kind.place fresh)

end Kind

/-- Blocks of bytes. -/
def blocks : Kind (List UInt8) where
  heap memory := memory.memory.blocks
  update heap memory := { memory with memory := { memory.memory with blocks := heap } }
  address := .block
  object := .block

/-- Structures of data. -/
def datas : Kind DataObject where
  heap memory := memory.memory.datas
  update heap memory := { memory with memory := { memory.memory with datas := heap } }
  address := .data
  object := .data

/-- Entries. -/
def entries : Kind EntryObject where
  heap memory := memory.memory.entries
  update heap memory := { memory with memory := { memory.memory with entries := heap } }
  address := .entry
  object := .entry

/-- Nodes of lists. -/
def nodes : Kind NodeObject where
  heap memory := memory.nodes
  update heap memory := { memory with nodes := heap }
  address := .node
  object := .node

/-- Lists. -/
def lists : Kind ListObject where
  heap memory := memory.lists
  update heap memory := { memory with lists := heap }
  address := .list
  object := .list

/-- Arrays of lists. -/
def rows : Kind (List (Option Nat)) where
  heap memory := memory.rows
  update heap memory := { memory with rows := heap }
  address := .row
  object := .row

/-- Tables. -/
def tables : Kind TableObject where
  heap memory := memory.tables
  update heap memory := { memory with tables := heap }
  address := .table
  object := .table

namespace Kind

variable {τ : Type} (kind : Kind τ)

/-- The object of this kind at an address, next to no others. -/
def holds (name : Nat) (held : τ) : Assertion Address Object :=
  .cell (kind.address name) (kind.object held)

variable {memory : TableMemory} {name : Nat}

/-- A change at one address of a heap is a change at one address of the memory. -/
theorem objects_update {new : Heap τ} (held : Option τ)
    (changed : new.objects = Function.update (kind.heap memory).objects name held) :
    (kind.update new memory).objects =
      Function.update memory.objects (kind.address name) (held.map kind.object) := by
  funext place
  by_cases here : place = kind.address name
  · rw [here, Function.update_self, kind.seen, kind.updated, changed, Function.update_self]
  · rw [Function.update_of_ne here]
    by_cases own : ∃ other, place = kind.address other
    · -- Another object of this kind is kept.
      obtain ⟨other, rfl⟩ := own
      have differs : other ≠ name := fun same => here (by rw [same])
      rw [kind.seen, kind.seen, kind.updated, changed, Function.update_of_ne differs]
    · exact kind.others _ _ _ (not_exists.mp own)

/-- An object that is seen at its address is in its heap. -/
theorem live_of_seen {held : τ}
    (seen : memory.objects (kind.address name) = some (kind.object held)) :
    (kind.heap memory).objects name = some held := by
  -- The view shows the object that the heap has, as each kind of object can be recovered.
  rw [kind.seen, Option.map_eq_some_iff] at seen
  obtain ⟨_, live, same⟩ := seen
  rw [live, kind.recovered same]

variable {kind}

/-- The program is told the outcome that the model is told, and nothing else happens. -/
theorem outcome_told {given : Bool} {left : Mem}
    (asked : ChainTable.malloc memory.outcomes = .ok (given, left)) :
    outcome memory = some (given, { memory with outcomes := left }) ∧
      TableMemory.objects { memory with outcomes := left } = memory.objects := by
  -- A script that has ended gives everything, and otherwise its first outcome is the answer.
  constructor
  · unfold outcome
    obtain ⟨_, _, _, _, _, script⟩ := memory
    cases script with
    | nil =>
      cases asked
      rfl
    | cons first rest =>
      cases asked
      rfl
  · funext place
    cases place <;> rfl

section Rules

variable {α β : Type} {others : Assertion Address Object} {model : C β} {held new : τ}
  {after : α → β → Assertion Address Object}

/-- A read answers the object. -/
theorem read_next {next : τ → Pointed α}
    (rest : Follows objects (kind.holds name held * others) (next held) model after) :
    Follows objects (kind.holds name held * others) (kind.read name >>= next) model after := by
  -- The object is seen, and stays as it is.
  refine .access _ (some (kind.object held)) held (fun memory seen => ⟨memory, ?_, rfl, ?_⟩) rest
  · rw [read, kind.live_of_seen seen, Option.map_some]
  · rw [← seen, Function.update_eq_self]

/-- An assignment replaces the object. -/
theorem write_next {next : Unit → Pointed α}
    (rest : Follows objects (kind.holds name new * others) (next ()) model after) :
    Follows objects (kind.holds name held * others) (kind.write name new >>= next) model after := by
  -- The object that is seen is live, so that it may be replaced in its heap.
  refine .access _ (some (kind.object new)) () (fun memory seen =>
    ⟨kind.update ((kind.heap memory).modify name fun _ => new) memory, ?_, kind.outcomes _ _, ?_⟩)
    rest
  · simp [write, read, kind.live_of_seen seen, Bind.bind, StateT.bind]
    rfl
  · refine kind.objects_update (some new) ?_
    dsimp only [Heap.modify]
    rw [kind.live_of_seen seen, Option.map_some]

/-- What is freed is gone. -/
theorem free_next {next : Unit → Pointed α} (rest : Follows objects others (next ()) model after) :
    Follows objects (kind.holds name held * others) (kind.free name >>= next) model after := by
  -- The object that is seen is live, and its cell is empty afterwards.
  refine .access _ none () (fun memory seen =>
    ⟨kind.update ((kind.heap memory).free name) memory, ?_, kind.outcomes _ _, ?_⟩) ?_
  · simp [free, read, kind.live_of_seen seen, Bind.bind, StateT.bind]
    rfl
  · exact kind.objects_update none rfl
  · rwa [Assertion.slot, one_mul]

/-- What is placed is new to the memory. -/
theorem placed (kind : Kind τ) (memory : TableMemory) (new : τ) :
    memory.objects (kind.address (kind.heap memory).next) = none ∧
      (kind.update ((kind.heap memory).alloc new) memory).objects =
        Function.update memory.objects (kind.address (kind.heap memory).next)
          (some (kind.object new)) := by
  refine ⟨?_, kind.objects_update (some new) rfl⟩
  -- The next address was never given out.
  rw [kind.seen, Heap.unused _ _ (le_refl _), Option.map_none]

/-- An object is there when there is memory for it. -/
theorem place_next {next : Nat → Pointed α}
    (rest : ∀ name, Follows objects (kind.holds name new * others) (next name) model after) :
    Follows objects others (kind.place new >>= next) model after := by
  -- The new name was free, so that its cell joins what was held before.
  intro frame memory held value left ran
  obtain ⟨fresh, changed⟩ := placed kind memory new
  let placed := kind.update ((kind.heap memory).alloc new) memory
  have holds : objects.Has placed (kind.holds (kind.heap memory).next new * others * frame) := by
    rw [mul_assoc, View.Has, Kind.holds, Assertion.cell_mul]
    change placed.objects _ = _ ∧ (others * frame) (Function.update placed.objects _ none)
    rw [changed, Function.update_self, Function.update_idem, ← fresh, Function.update_eq_self]
    exact ⟨rfl, held⟩
  have same : objects.outcomes placed = objects.outcomes memory := kind.outcomes _ _
  obtain ⟨result, memory', went, rest⟩ := rest _ frame placed holds value left (by rwa [same])
  refine ⟨result, memory', ?_, rest⟩
  simp only [Bind.bind, StateT.bind, place, Option.bind_some]
  exact went

/-- An object is given or not, as the model is told. -/
theorem malloc_next {next : Option Nat → Pointed α} {modelNext : Bool → C β} {fresh : τ}
    (refused : Follows objects others (next none) (modelNext false) after)
    (granted : ∀ name, Follows objects (kind.holds name fresh * others) (next (some name))
      (modelNext true) after) :
    Follows objects others (kind.malloc fresh >>= next) (ChainTable.malloc >>= modelNext)
      after := by
  -- Both sides are told the same outcome, and only one that is given brings a new object.
  refine .alloc kind.address (fun memory given left asked => ?_) refused granted
  obtain ⟨told, kept⟩ := outcome_told asked
  cases given with
  | false =>
    refine ⟨{ memory with outcomes := left }, rfl, ?_⟩
    rw [if_neg (by decide)]
    refine ⟨?_, kept⟩
    simp [malloc, told, Bind.bind, StateT.bind]
    rfl
  | true =>
    let named := { memory with outcomes := left }
    obtain ⟨unused, changed⟩ := placed kind named fresh
    rw [kept] at unused changed
    refine ⟨kind.update ((kind.heap named).alloc fresh) named, kind.outcomes _ _, ?_⟩
    rw [if_pos rfl]
    exact ⟨(kind.heap named).next, by
      simp [malloc, place, told, Bind.bind, StateT.bind, named]; rfl, unused, changed⟩

end Rules

end Kind

end ChainTable.Lifetime
