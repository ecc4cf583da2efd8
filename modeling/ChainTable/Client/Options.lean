import ChainTable.Server.Stub

/-! The client: lines are read into one array, and each of them may ask for a call of the stub. -/

namespace ChainTable

/-- The bytes up to a newline and with it, or as many as there is room for, and those behind. -/
def takeLine : (room : Nat) → (stdin : List UInt8) → List UInt8 × List UInt8
  | 0, stdin => ([], stdin)
  | _ + 1, [] => ([], [])
  | room + 1, byte :: stdin =>
    if byte = 10 then ([byte], stdin)
    else
      let (line, rest) := takeLine room stdin
      (byte :: line, rest)

/-- `fgets`, which writes nothing at the end of the input. -/
def fgets (input : List UInt8) (size : Nat) (stdin : List UInt8) :
    C (List UInt8 × List UInt8) := do
  if stdin = [] then return (input, stdin)
  let (line, rest) := takeLine (size - 1) stdin
  let input ← writeAt input 0 (line ++ [0])
  return (input, rest)

/-- `readOption`: the array with the next line, and the input behind it. -/
def readOption (input : List UInt8) (size : Nat) (stdin : List UInt8) :
    C (List UInt8 × List UInt8) := do
  let (input, stdin) ← fgets input size stdin
  let string ← cString input
  -- In front of an empty string there is no byte of the array.
  if string.bytes.length = 0 then throw .outOfBounds
  let input ← writeAt input (string.bytes.length - 1) [0]
  return (input, stdin)

namespace Word

/-- `PUT`. -/
def put : List UInt8 := [112, 117, 116]
/-- `GET`. -/
def get : List UInt8 := [103, 101, 116]
/-- `DEL`. -/
def del : List UInt8 := [100, 101, 108]
/-- `SIZE`. -/
def size : List UInt8 := [115, 105, 122, 101]
/-- `QUIT`. -/
def quit : List UInt8 := [113, 117, 105, 116]
/-- `GET_KEYS`. -/
def getKeys : List UInt8 := [103, 101, 116, 107, 101, 121, 115]
/-- `GETTABLE`. -/
def getTable : List UInt8 := [103, 101, 116, 116, 97, 98, 108, 101]
/-- `STATS`. -/
def stats : List UInt8 := [115, 116, 97, 116, 115]

end Word

/-- `strncmp` from the C library. -/
def strncmp : (left right : List UInt8) → (n : Nat) → C Int
  | _, _, 0 => return 0
  | left :: lefts, right :: rights, n + 1 =>
    if left ≠ right then return (left.toNat : Int) - right.toNat
    else if left = 0 then return 0
    else strncmp lefts rights n
  | _, _, _ + 1 => throw .outOfBounds

/-- Whether the array starts with a word, as all tests for a command find out. -/
def commandIs (word option : List UInt8) : C Bool := do
  return (← strncmp option (word ++ [0]) word.length) = 0

/-- `commandIsPut`. -/
def commandIsPut : (option : List UInt8) → C Bool := commandIs Word.put

/-- `commandIsGet`. -/
def commandIsGet : (option : List UInt8) → C Bool := commandIs Word.get

/-- `commandIsDel`. -/
def commandIsDel : (option : List UInt8) → C Bool := commandIs Word.del

/-- `commandIsSize`. -/
def commandIsSize : (option : List UInt8) → C Bool := commandIs Word.size

/-- `commandIsQuit`. -/
def commandIsQuit : (option : List UInt8) → C Bool := commandIs Word.quit

/-- `commandIsGetTable`. -/
def commandIsGetTable : (option : List UInt8) → C Bool := commandIs Word.getTable

/-- `commandIsGetKeys`. -/
def commandIsGetKeys : (option : List UInt8) → C Bool := commandIs Word.getKeys

/-- `commandIsStats`. -/
def commandIsStats : (option : List UInt8) → C Bool := commandIs Word.stats

/--
`strtok` with one separator, from the position that it left off at.

It gives the position of the token, the array with the token terminated, and where to go on.
-/
def strtok (separator : UInt8) (buffer : List UInt8) (position : Nat) :
    C (Option Nat × List UInt8 × Nat) :=
  let start := position + ((buffer.drop position).takeWhile (· = separator)).length
  let inToken byte := byte ≠ separator ∧ byte ≠ 0
  let finish := start + ((buffer.drop start).takeWhile (inToken ·)).length
  match buffer[start]?, buffer[finish]? with
  | some first, some last =>
    if first = 0 then return (none, buffer, start)
    else if last = 0 then return (some start, buffer, finish)
    else return (some start, buffer.set finish 0, finish + 1)
  | _, _ => throw .outOfBounds

/-- What a line can ask the stub for. -/
inductive Command (α : Type) where
  | put (key value : α)
  | get (key : α)
  | del (key : α)
  | size
  | getKeys
  | getTable
  | stats
  deriving DecidableEq, Repr

/-- `executePut` up to its call: the key and the value of the line, if both are there. -/
def executePut (option : List UInt8) : C (Option (Command Key) × List UInt8) := do
  let (_, option, position) ← strtok 32 option 0
  let (token, option, position) ← strtok 32 option position
  match token with
  | none => return (none, option)
  | some token =>
    let key ← strdup (← cString (option.drop token))
    let (token, option, _) ← strtok 32 option position
    match token with
    | none => return (none, option)
    | some token =>
      let value ← strdup (← cString (option.drop token))
      match key, value with
      | some key, some value => return (some (.put key value), option)
      | _, _ => return (none, option)

/-- The second token of a line, as `executeGet` and `executeDel` look for their key. -/
def keyArgument (option : List UInt8) : C (Option Key × List UInt8) := do
  let (_, option, position) ← strtok 32 option 0
  let (token, option, _) ← strtok 32 option position
  match token with
  | none => return (none, option)
  | some token =>
    let key ← strdup (← cString (option.drop token))
    return (key, option)

/-- `executeGet` up to its call. -/
def executeGet (option : List UInt8) : C (Option (Command Key) × List UInt8) := do
  let (key, option) ← keyArgument option
  return (key.map .get, option)

/-- `executeDel` up to its call. -/
def executeDel (option : List UInt8) : C (Option (Command Key) × List UInt8) := do
  let (key, option) ← keyArgument option
  return (key.map .del, option)

/-- The tests of the loop in `main`: what the line asks for, and what the array is like then. -/
def dispatch (option : List UInt8) : C (Option (Command Key) × List UInt8) := do
  if ← commandIsPut option then executePut option
  else if ← commandIsGetKeys option then return (some .getKeys, option)
  else if ← commandIsGetTable option then return (some .getTable, option)
  else if ← commandIsGet option then executeGet option
  else if ← commandIsDel option then executeDel option
  else if ← commandIsSize option then return (some .size, option)
  else if ← commandIsStats option then return (some .stats, option)
  else
    -- This only decides whether the command is called invalid.
    let _ ← commandIsQuit option
    return (none, option)

variable {σ : Type}

/-- The call of the stub for a command, of which only the output is left out. -/
def Command.perform (head tail : SendReceive σ) : Command Key → StateT σ C Unit
  | .put key value => do
    let data ← (dataCreate (value.bytes.length + 1) (some (value.bytes ++ [0])) : C _)
    let entry ← (entryCreate (some key) data : C _)
    let _ ← rtablePut head entry
  | .get key => do
    let _ ← rtableGet tail (some key)
  | .del key => do
    let _ ← rtableDel head (some key)
  | .size => do
    let _ ← rtableSize tail
  | .getKeys => do
    let _ ← rtableGetKeys tail
  | .getTable => do
    let _ ← rtableGetTable tail
  | .stats => do
    let _ ← rtableStats tail

/--
The loop of `main` for so many rounds, on the array and the input: the lines that it dispatched.

It is none if the loop did not come to its end. The calls know nothing of the array and the input.
-/
def clientLoop (perform : Command Key → StateT σ C Unit) :
    (rounds : Nat) → (option stdin : List UInt8) → StateT σ C (Option (List Key))
  | 0, _, _ => return none
  | rounds + 1, option, stdin => do
    let (option, stdin) ← (readOption option 1024 stdin : C _)
    let line ← (cString option : C _)
    let (command, option) ← (dispatch option : C _)
    command.forM perform
    if ← (commandIsQuit option : C _) then return some [line]
    return (← clientLoop perform rounds option stdin).map (line :: ·)

end ChainTable
