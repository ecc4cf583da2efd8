import ChainTable.Client.Options
import ChainTable.Library.Words

/-! The sentences of the menu, and the commands that lines are taken for. -/

namespace ChainTable

/-- A command of the menu other than `quit`. -/
inductive Verb where
  | put
  | get
  | del
  | size
  | getKeys
  | getTable
  | stats
  deriving DecidableEq, Repr

namespace Verb

/-- The word of a command. -/
def word : Verb → List UInt8
  | put => Word.put
  | get => Word.get
  | del => Word.del
  | size => Word.size
  | getKeys => Word.getKeys
  | getTable => Word.getTable
  | stats => Word.stats

/-- How many arguments a command has on the menu. -/
def arity : Verb → Nat
  | put => 2
  | get | del => 1
  | size | getKeys | getTable | stats => 0

/-- The commands in the order in which they are tested for. -/
def inOrder : List Verb := [put, getKeys, getTable, get, del, size, stats]

/-- The command with the first of the arguments, if there are enough of them. -/
def command : Verb → List (List UInt8) → Option (Command (List UInt8))
  | put, key :: value :: _ => some (.put key value)
  | get, key :: _ => some (.get key)
  | del, key :: _ => some (.del key)
  | size, _ => some .size
  | getKeys, _ => some .getKeys
  | getTable, _ => some .getTable
  | stats, _ => some .stats
  | _, _ => none

end Verb

namespace Command

variable {α β : Type}

/-- The same command on other arguments. -/
def map (f : α → β) : Command α → Command β
  | put key value => put (f key) (f value)
  | get key => get (f key)
  | del key => del (f key)
  | size => size
  | getKeys => getKeys
  | getTable => getTable
  | stats => stats

/-- What kind of command it is. -/
def verb : Command α → Verb
  | put _ _ => .put
  | get _ => .get
  | del _ => .del
  | size => .size
  | getKeys => .getKeys
  | getTable => .getTable
  | stats => .stats

/-- The arguments in their order. -/
def args : Command α → List α
  | put key value => [key, value]
  | get key | del key => [key]
  | size | getKeys | getTable | stats => []

/-- A command as the menu has it written, word by word. -/
def sentence (command : Command (List UInt8)) : List (List UInt8) :=
  command.verb.word :: command.args

/-- A command has as many arguments as the menu says. -/
theorem length_args (command : Command α) : command.args.length = command.verb.arity := by
  -- Each command is looked at.
  cases command <;> rfl

end Command

/-- The command whose word a line starts with, the first in the order of the tests. -/
def verbOf (line : List UInt8) : Option Verb :=
  Verb.inOrder.find? fun verb => verb.word <+: line

/-- What a line is taken to ask for. -/
def commandOn (line : List UInt8) : Option (Command (List UInt8)) :=
  (verbOf line).bind fun verb => verb.command (words 32 line).tail

variable {verb : Verb} {args : List (List UInt8)}

/-- A command takes the first arguments. -/
theorem command_eq_some_iff {command : Command (List UInt8)} :
    verb.command args = some command ↔ command.verb = verb ∧ command.args <+: args := by
  -- A command that is taken has the first arguments; the others are not looked at.
  constructor
  · intro taken
    unfold Verb.command at taken
    split at taken <;> cases taken <;> exact ⟨rfl, by simp [Command.args]⟩
  · rintro ⟨rfl, rest, rfl⟩
    cases command <;> rfl

/-- A command is there if its arguments are. -/
theorem exists_command (enough : verb.arity ≤ args.length) :
    ∃ command, verb.command args = some command := by
  -- The arguments that are looked at are there.
  refine ⟨_, Option.eq_some_of_isSome ?_⟩
  match verb, args, enough with
  | .put, _ :: _ :: _, _ => rfl
  | .get, _ :: _, _ | .del, _ :: _, _ => rfl
  | .size, _, _ | .getKeys, _, _ | .getTable, _, _ | .stats, _, _ => rfl

section Line

variable {line : List UInt8}

/-- Each command is tested for. -/
theorem mem_inOrder (verb : Verb) : verb ∈ Verb.inOrder := by
  -- Each command is looked at.
  cases verb <;> decide

/-- No word of a command has a space inside, or a byte that ends a string. -/
theorem word_free (verb : Verb) : 32 ∉ verb.word ∧ 0 ∉ verb.word := by
  -- Each word is looked at.
  cases verb <;> decide

/-- A line is taken for a command only if it starts with its word. -/
theorem starts_of_verbOf (found : verb ∈ verbOf line) : verb.word <+: line := by
  -- The test that found it is that of its word.
  simpa using List.find?_some found

/-- A line that starts with a word does not start with a space. -/
theorem flush_of_prefix {word : List UInt8} (free : 32 ∉ word) (filled : word ≠ [])
    (prefixed : word <+: line) : line.head? ≠ some 32 := by
  -- The first byte of the line is that of the word.
  obtain ⟨rest, rfl⟩ := prefixed
  obtain ⟨first, word, rfl⟩ := List.exists_cons_of_ne_nil filled
  intro same
  cases same
  exact free List.mem_cons_self

/-- The first word alone decides what a line is taken for. -/
theorem verbOf_head (flush : line.head? ≠ some 32) :
    verbOf line = verbOf ((words 32 line).headD []) := by
  -- A word has no space, so that the line starts with it if its first word does.
  have same : ∀ verb : Verb, verb.word <+: line ↔ verb.word <+: (words 32 line).headD [] :=
    fun verb => Words.prefix_iff (word_free verb).1 flush
  simp only [verbOf, same]

/-- Each command is told from those that are tested for before it. -/
theorem verbOf_word (verb : Verb) : verbOf verb.word = some verb := by
  -- No word starts with one that is tested for before it.
  cases verb <;> rfl

end Line

end ChainTable
