import ChainTable.Client.Lines
import ChainTable.Client.Requests

/-! Which lines are sent as the requests that the menu has for them. -/

namespace ChainTable

/-- A round of the loop up to its call: what is asked for, and whether the loop is left then. -/
def onLine (option stdin : List UInt8) : C (Option (Command Key) × Bool) := do
  let (option, _) ← readOption option 1024 stdin
  let (command, option) ← dispatch option
  return (command, ← commandIsQuit option)

/--
Code that sends the request of a command over its connection, and nothing after the answer to it.

Without a command it sends nothing at all.
-/
def Sends {σ : Type} (head tail : SendReceive σ) (command : Option (Command Key)) (leaves : Bool)
    (run : StateT σ C Bool) : Prop :=
  match command with
  | none => ∀ state, run state [] = .ok ((leaves, state), [])
  | some command => ∃ finish : MessageT → C Unit, ∀ state, run state [] = (do
      liftM (finish (← exchange (command.connection head tail) command.request))
      return leaves : StateT σ C Bool) state []

/--
A line is sent as the request of a command exactly if its words are the sentence of that command,
and leaves the loop exactly if it is `quit`, whatever is in the array before it and behind it in
the input.
-/
def FollowsGrammar (line : List UInt8) : Prop :=
  ∀ option rest, option.length = 1024 → ∃ command leaves,
    onLine option (line ++ 10 :: rest) [] = .ok ((command, leaves), []) ∧
    (∀ (σ : Type) (head tail : SendReceive σ), Sends head tail command leaves
      (Option.isSome <$> clientLoop (Command.perform head tail) 1 option (line ++ 10 :: rest))) ∧
    (∀ sent, command.map (Command.map Key.bytes) = some sent ↔ words 32 line = sent.sentence) ∧
    (leaves = true ↔ line = Word.quit)

/-- Words that are a command of the menu and its arguments. -/
def IsSentence (sentence : List (List UInt8)) : Prop :=
  ∃ verb ∈ Verb.inOrder, sentence.head? = some verb.word ∧ sentence.tail.length = verb.arity

instance (sentence : List (List UInt8)) : Decidable (IsSentence sentence) :=
  inferInstanceAs (Decidable (∃ verb ∈ Verb.inOrder, _ ∧ _))

/--
A line that does not go on where the menu does not.

It has a command for its first word and no argument too many, or one too few, and starts with no
space where its words are a sentence, and with no `quit` but as a whole.
-/
structure Regular (line : List UInt8) : Prop where
  exact : ∀ verb ∈ verbOf line, verb.arity ≤ (words 32 line).tail.length →
    (words 32 line).head? = some verb.word ∧ (words 32 line).tail.length = verb.arity
  flush : IsSentence (words 32 line) → line.head? ≠ some 32
  quits : Word.quit <+: line → line = Word.quit

/-- What the array has of a line with a NUL byte inside. -/
def cutAtNul (line : List UInt8) : List UInt8 :=
  (line.takeWhile (· ≠ 0)).dropLast

/-- A line with a NUL byte that is no sentence, and of which nothing is acted on. -/
structure Ignored (line : List UInt8) : Prop where
  readable : line.head? ≠ some 0
  short : ∀ verb ∈ verbOf (cutAtNul line), (words 32 (cutAtNul line)).tail.length < verb.arity
  stays : ¬ Word.quit <+: cutAtNul line
  noSentence : ¬ IsSentence (words 32 line)

section Sentences

variable {line : List UInt8} {sent : Command (List UInt8)}

/-- A line is taken for a command if the command it is taken for has its arguments. -/
theorem commandOn_eq_some_iff :
    commandOn line = some sent ↔
      verbOf line = some sent.verb ∧ sent.args <+: (words 32 line).tail := by
  -- The command has the verb that was found, and arguments in front of the words.
  rw [commandOn, Option.bind_eq_some_iff]
  constructor
  · rintro ⟨verb, found, taken⟩
    obtain ⟨rfl, arguments⟩ := command_eq_some_iff.mp taken
    exact ⟨found, arguments⟩
  · rintro ⟨found, arguments⟩
    exact ⟨sent.verb, found, command_eq_some_iff.mpr ⟨rfl, arguments⟩⟩

/-- Words that start with the word of a command, and have its arguments, are its sentence. -/
theorem eq_sentence_iff {sentence : List (List UInt8)} :
    sentence = sent.sentence ↔
      sentence.head? = some sent.verb.word ∧ sentence.tail = sent.args := by
  -- A sentence is its first word and the others.
  cases sentence with
  | nil => simp [Command.sentence]
  | cons first args => simp [Command.sentence]

/-- The sentences are those of the commands. -/
theorem isSentence_iff {sentence : List (List UInt8)} :
    IsSentence sentence ↔ ∃ sent : Command (List UInt8), sentence = sent.sentence := by
  -- As many arguments as the command takes are all of its arguments.
  constructor
  · rintro ⟨verb, -, head, length⟩
    obtain ⟨sent, taken⟩ := exists_command (Nat.le_of_eq length.symm)
    obtain ⟨rfl, arguments⟩ := command_eq_some_iff.mp taken
    exact ⟨sent, eq_sentence_iff.mpr ⟨head,
      (arguments.eq_of_length (sent.length_args.trans length.symm)).symm⟩⟩
  · rintro ⟨sent, rfl⟩
    exact ⟨sent.verb, mem_inOrder sent.verb, rfl, sent.length_args⟩

/-- A line is taken for the sentences that it is exactly if it is regular. -/
theorem regular_iff :
    Regular line ↔ (∀ sent, commandOn line = some sent ↔ words 32 line = sent.sentence) ∧
      (Word.quit <+: line ↔ line = Word.quit) := by
  constructor
  · rintro ⟨exact, flush, quits⟩
    refine ⟨fun sent => ⟨fun taken => ?_, fun same => ?_⟩, quits,
      fun same => same ▸ List.prefix_rfl⟩
    · obtain ⟨found, arguments⟩ := commandOn_eq_some_iff.mp taken
      have enough := sent.length_args ▸ arguments.length_le
      obtain ⟨head, length⟩ := exact sent.verb found enough
      exact eq_sentence_iff.mpr ⟨head,
        (arguments.eq_of_length (sent.length_args.trans length.symm)).symm⟩
    · have found := verbOf_head (flush (isSentence_iff.mpr ⟨sent, same⟩))
      rw [same] at found
      exact commandOn_eq_some_iff.mpr ⟨found.trans (verbOf_word sent.verb), by
        rw [same]
        exact List.prefix_rfl⟩
  · rintro ⟨sent_iff, quit_iff⟩
    refine ⟨fun verb found enough => ?_, fun sentence => ?_, quit_iff.mp⟩
    · -- With enough arguments the command is sent, so that the words are its sentence.
      obtain ⟨sent, taken⟩ := exists_command enough
      obtain ⟨rfl, arguments⟩ := command_eq_some_iff.mp taken
      obtain ⟨head, tail⟩ :=
        eq_sentence_iff.mp ((sent_iff sent).mp (commandOn_eq_some_iff.mpr ⟨found, arguments⟩))
      exact ⟨head, by rw [tail, sent.length_args]⟩
    · obtain ⟨sent, same⟩ := isSentence_iff.mp sentence
      obtain ⟨found, -⟩ := commandOn_eq_some_iff.mp ((sent_iff sent).mpr same)
      have filled : sent.verb.word ≠ [] := by cases sent.verb <;> decide
      exact flush_of_prefix (word_free sent.verb).1 filled (starts_of_verbOf found)

/-- A sentence with a NUL byte inside is no command that the array can be taken for. -/
theorem not_sentence_of_nul {cut : List UInt8} (nul : 0 ∈ line) (nulFree : 0 ∉ cut)
    (taken : commandOn cut = some sent) : words 32 line ≠ sent.sentence := by
  -- The word with the NUL byte would be one of the words in front of it.
  intro same
  obtain ⟨-, arguments⟩ := commandOn_eq_some_iff.mp taken
  obtain ⟨word, member, inside⟩ := Words.mem_words.mpr ⟨nul, (by decide : (0 : UInt8) ≠ 32)⟩
  rw [same] at member
  rcases List.mem_cons.mp member with rfl | argument
  · exact (word_free sent.verb).2 inside
  · have among := List.mem_of_mem_tail (arguments.subset argument)
    exact nulFree (Words.mem_words.mp ⟨word, among, inside⟩).1

/-- A line with a NUL byte is taken for the sentences that it is exactly if it is ignored. -/
theorem ignored_iff (nul : 0 ∈ line) (readable : line.head? ≠ some 0)
    (nulFree : 0 ∉ cutAtNul line) :
    Ignored line ↔ (∀ sent, commandOn (cutAtNul line) = some sent ↔ words 32 line = sent.sentence) ∧
      (Word.quit <+: cutAtNul line ↔ line = Word.quit) := by
  have other : line ≠ Word.quit := fun same => by
    rw [same] at nul
    exact absurd nul (by decide)
  constructor
  · rintro ⟨-, short, stays, noSentence⟩
    refine ⟨fun sent => ⟨fun taken => ?_, fun same => ?_⟩, iff_of_false stays other⟩
    · -- There are too few arguments for anything to be sent.
      obtain ⟨found, arguments⟩ := commandOn_eq_some_iff.mp taken
      have few := short sent.verb found
      have := sent.length_args ▸ arguments.length_le
      omega
    · exact absurd (isSentence_iff.mpr ⟨sent, same⟩) noSentence
  · rintro ⟨sent_iff, quit_iff⟩
    refine ⟨readable, fun verb found => ?_, fun leaves => other (quit_iff.mp leaves),
      fun sentence => ?_⟩
    · by_contra enough
      obtain ⟨sent, taken⟩ := exists_command (Nat.le_of_not_lt enough)
      obtain ⟨rfl, arguments⟩ := command_eq_some_iff.mp taken
      have taken := commandOn_eq_some_iff.mpr ⟨found, arguments⟩
      exact not_sentence_of_nul nul nulFree taken ((sent_iff sent).mp taken)
    · obtain ⟨sent, same⟩ := isSentence_iff.mp sentence
      exact not_sentence_of_nul nul nulFree ((sent_iff sent).mpr same) same

end Sentences

/-- The arguments of a command go where the command goes. -/
theorem args_map {α β : Type} (f : α → β) (command : Command α) :
    (command.map f).args = command.args.map f := by
  -- Each command is looked at.
  cases command <;> rfl

/-- A command that a string is taken for has no argument that is longer than the string. -/
theorem args_short {string : Key} {command : Command Key}
    (taken : some (command.map Key.bytes) = commandOn string.bytes) :
    ∀ value ∈ command.args, value.bytes.length ≤ string.bytes.length := by
  intro value member
  -- The argument is one of the words of the string.
  obtain ⟨-, arguments⟩ := commandOn_eq_some_iff.mp taken.symm
  have among : value.bytes ∈ words 32 string.bytes := by
    refine List.mem_of_mem_tail (arguments.subset ?_)
    rw [args_map]
    exact List.mem_map_of_mem member
  calc value.bytes.length
      ≤ (words 32 string.bytes).flatten.length := (List.sublist_flatten_of_mem among).length_le
    _ ≤ string.bytes.length := by
      rw [Words.flatten_words]
      exact List.length_filter_le _ _

variable {line : List UInt8}

/-- A round that comes to a command sends its request, and no other one. -/
theorem sends_of_dispatch {option stdin read rest option' : List UInt8} {string : Key}
    {command : Option (Command Key)} {leaves : Bool}
    (readRan : readOption option 1024 stdin = pure (read, rest)) (holds : Holds read string)
    (dispatched : dispatch read [] = .ok ((command, option'), []))
    (tested : commandIsQuit option' = pure leaves)
    (taken : command.map (Command.map Key.bytes) = commandOn string.bytes)
    (short : string.bytes.length < 1024) {σ : Type} (head tail : SendReceive σ) :
    Sends head tail command leaves
      (Option.isSome <$> clientLoop (Command.perform head tail) 1 option stdin) := by
  -- The round is the calls of the command, with the test for the end behind them.
  have round : ∀ state, (Option.isSome <$> clientLoop (Command.perform head tail) 1 option stdin)
      state [] = (do command.forM (Command.perform head tail); return leaves) state [] := by
    intro state
    simp only [clientLoop, readRan, holds.cString, liftM_pure, pure_bind, map_bind]
    rw [runOver_bind (runOver_lift dispatched)]
    dsimp only
    rw [tested]
    cases leaves <;> simp
  cases command with
  | none => exact fun state => round state
  | some command =>
    have small := args_short (taken : some _ = _)
    obtain ⟨finish, asks⟩ := perform_asks head tail command fun value member => by
      have := small value member
      omega
    refine ⟨finish, fun state => (round state).trans ?_⟩
    have continued : (command.perform head tail >>= fun _ => pure leaves) state [] =
        ((do liftM (finish (← exchange (command.connection head tail) command.request)) :
          StateT σ C Unit) >>= fun _ => pure leaves) state [] := by
      simp only [Bind.bind, StateT.bind, asks]
    refine continued.trans ?_
    simp only [bind_assoc]

/-- Where the array has a string of the line, that string alone is what the grammar is about. -/
theorem followsGrammar_iff {string : Key} (short : string.bytes.length < 1024)
    (reads : ∀ option rest, option.length = 1024 → ∃ option',
      readOption option 1024 (line ++ 10 :: rest) = pure (option', rest) ∧ Holds option' string) :
    FollowsGrammar line ↔
      (∀ sent, commandOn string.bytes = some sent ↔ words 32 line = sent.sentence) ∧
        (Word.quit <+: string.bytes ↔ line = Word.quit) := by
  -- A round comes to what the string is taken for, and the first array shows it as well as any.
  have ran : ∀ option rest, option.length = 1024 → ∃ command,
      onLine option (line ++ 10 :: rest) [] =
        .ok ((command, decide (Word.quit <+: string.bytes)), []) ∧
      (∀ (σ : Type) (head tail : SendReceive σ),
        Sends head tail command (decide (Word.quit <+: string.bytes))
          (Option.isSome <$>
            clientLoop (Command.perform head tail) 1 option (line ++ 10 :: rest))) ∧
      command.map (Command.map Key.bytes) = commandOn string.bytes := by
    intro option rest length
    obtain ⟨read, readRan, holds⟩ := reads option rest length
    obtain ⟨command, option', left, attempts, taken, left_holds, -, -, quits⟩ :=
      dispatch_takenFor holds
    have tested : commandIsQuit option' = pure (decide (Word.quit <+: string.bytes)) := by
      simp only [commandIsQuit, commandIs_spec (by decide : 0 ∉ Word.quit) left_holds, quits]
    refine ⟨command, ?_, fun σ head tail => ?_, taken⟩
    · simp only [onLine, readRan, pure_bind]
      rw [run_bind attempts.succeeds]
      simp only [tested, pure_bind]
      rfl
    · exact sends_of_dispatch readRan holds attempts.succeeds tested taken short head tail
  constructor
  · intro follows
    obtain ⟨command, _, result, -, sent_iff, quit_iff⟩ :=
      follows (List.replicate 1024 0) [] (List.length_replicate ..)
    obtain ⟨taken, result', -, same⟩ := ran (List.replicate 1024 0) [] (List.length_replicate ..)
    cases result.symm.trans result'
    rw [same] at sent_iff
    exact ⟨sent_iff, by simpa using quit_iff⟩
  · rintro ⟨sent_iff, quit_iff⟩ option rest length
    obtain ⟨command, result, sends, same⟩ := ran option rest length
    exact ⟨command, _, result, sends, by rwa [same], by simpa using quit_iff⟩

section Nul

variable (free : 10 ∉ line) (shorter : line.length + 1 < 1024)
include free shorter

/-- A line that starts with a NUL byte makes the array be left. -/
theorem readOption_of_nul {option : List UInt8} (length : option.length = 1024)
    (nul : line.head? = some 0) (rest : List UInt8) :
    readOption option 1024 (line ++ 10 :: rest) = throw .outOfBounds := by
  -- The first byte that is read ends the string.
  have took := takeLine_fits free (show line.length < 1024 - 1 by omega) rest
  have room : (line ++ [10]).length < option.length := by
    rw [List.length_append, List.length_singleton]
    omega
  obtain ⟨more, rfl⟩ := List.head?_eq_some_iff.mp nul
  have got := fgets_taken (by simp) took room
  exact readOption_empty got (show Holds _ emptyString from ⟨_, rfl⟩) rfl

/-- Of a line with a NUL byte inside what is in front of it is read, but for the last byte. -/
theorem readOption_nul (nul : 0 ∈ line) (readable : line.head? ≠ some 0) :
    ∃ string : Key, string.bytes = cutAtNul line ∧
      ∀ option rest, option.length = 1024 → ∃ option',
        readOption option 1024 (line ++ 10 :: rest) = pure (option', rest) ∧
          Holds option' string := by
  -- The string ends in front of the first NUL byte, and a byte of the line is taken off.
  obtain ⟨bytes, behind, rfl, nulFree⟩ := List.eq_append_cons_of_mem nul
  have visible := Terminated.takeWhile_word 0 nulFree behind
  let read : Key := ⟨bytes, nulFree⟩
  have filled : read.bytes ≠ [] := by
    rintro rfl
    exact readable rfl
  refine ⟨read.dropLast, by rw [cutAtNul, visible]; rfl, fun option rest length => ?_⟩
  have took := takeLine_fits free
    (show (bytes ++ 0 :: behind).length < 1024 - 1 by omega) rest
  have room : (bytes ++ 0 :: behind ++ [10]).length < option.length := by
    rw [List.length_append, List.length_singleton]
    omega
  have holds : Holds (bytes ++ 0 :: behind ++ [10] ++ [0]) read :=
    ⟨behind ++ [10, 0], by simp [read]⟩
  obtain ⟨option', ran, left, -⟩ := readOption_taken (by simp) took room holds filled
  exact ⟨option', ran, left⟩

end Nul

/-- With a NUL byte inside, a line follows the grammar exactly if it is ignored. -/
theorem followsGrammar_of_nul (nul : 0 ∈ line) (free : 10 ∉ line)
    (shorter : line.length + 1 < 1024) : FollowsGrammar line ↔ Ignored line := by
  -- With a NUL byte in front the string is empty, and otherwise it is what was cut off.
  by_cases readable : line.head? = some 0
  · refine ⟨fun follows => ?_, fun ignored => absurd readable ignored.readable⟩
    obtain ⟨_, _, ran, -⟩ := follows (List.replicate 1024 0) [] (List.length_replicate ..)
    have faulted : readOption (List.replicate 1024 0) 1024 (line ++ [10]) [] =
        .error .outOfBounds := by
      rw [readOption_of_nul free shorter (List.length_replicate ..) readable]
      rfl
    rw [onLine, run_bind_error faulted] at ran
    cases ran
  · obtain ⟨string, bytes, reads⟩ := readOption_nul free shorter nul readable
    have short : string.bytes.length < 1024 := by
      have cut := (List.takeWhile_prefix (l := line) (· ≠ 0)).length_le
      rw [bytes, cutAtNul, List.length_dropLast]
      omega
    rw [ignored_iff nul readable (bytes ▸ string.nulFree), ← bytes]
    exact followsGrammar_iff short reads

/-- Without a NUL byte, a line follows the grammar exactly if it is regular. -/
theorem followsGrammar_of_nulFree (nulFree : 0 ∉ line) (free : 10 ∉ line)
    (shorter : line.length + 1 < 1024) : FollowsGrammar line ↔ Regular line := by
  -- The array has the whole line.
  let string : Key := ⟨line, nulFree⟩
  have fits : string.bytes.length ≤ 1022 := Nat.le_of_lt_succ (Nat.lt_of_succ_lt_succ shorter)
  have reads : ∀ option rest, option.length = 1024 → ∃ option',
      readOption option 1024 (line ++ 10 :: rest) = pure (option', rest) ∧
        Holds option' string := by
    intro option rest length
    obtain ⟨option', ran, holds, -⟩ := readOption_line length free fits rest
    exact ⟨option', ran, holds⟩
  rw [regular_iff]
  exact followsGrammar_iff (Nat.lt_of_succ_lt shorter) reads

/--
A line is sent as the request that the menu has for it exactly if it is regular.

If it has a NUL byte inside, it must be no sentence, and nothing of it may be acted on.
-/
theorem sentences_sent_iff (free : 10 ∉ line) (shorter : line.length + 1 < 1024) :
    FollowsGrammar line ↔ if 0 ∈ line then Ignored line else Regular line := by
  -- The two cases are settled on their own.
  split
  · exact followsGrammar_of_nul ‹0 ∈ line› free shorter
  · exact followsGrammar_of_nulFree ‹0 ∉ line› free shorter

/-- The line `putx k v` is sent as a put. -/
theorem putx_is_sent : ¬ FollowsGrammar [112, 117, 116, 120, 32, 107, 32, 118] := by
  -- The first word is longer than that of the command.
  rw [followsGrammar_of_nulFree (by decide) (by decide) (by decide)]
  intro regular
  have exact := regular.exact .put (by decide) (by decide)
  revert exact
  decide

/-- The line `put k v` is sent as the put that it is. -/
theorem sentences_sent_iff_put : FollowsGrammar [112, 117, 116, 32, 107, 32, 118] := by
  -- The words are `put`, `k` and `v`, and there is no NUL byte.
  refine (sentences_sent_iff (by decide) (by decide)).mpr ?_
  rw [if_neg (by decide)]
  exact ⟨by decide, by decide, by decide⟩

end ChainTable
