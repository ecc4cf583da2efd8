import ChainTable.Client.Grammar

/-! What `strncmp` and `strtok` see in the array, and what a line is taken to ask for. -/

namespace ChainTable

/-- The array holds a string and its terminator, whatever is behind it. -/
def Holds (option : List UInt8) (string : Key) : Prop :=
  ∃ rest, option = string.bytes ++ 0 :: rest

/-- The string that the array holds is the one that is read from it. -/
theorem Holds.cString {option : List UInt8} {string : Key} (holds : Holds option string) :
    ChainTable.cString option = pure string := by
  -- What is behind the terminator is not read.
  obtain ⟨rest, rfl⟩ := holds
  exact cString_terminated string rest

/-- The comparison with a word is zero exactly if the string starts with it. -/
theorem strncmp_spec {word : List UInt8} (free : 0 ∉ word) (bytes rest : List UInt8) :
    ∃ result, strncmp (bytes ++ 0 :: rest) (word ++ [0]) word.length = pure result ∧
      (result = 0 ↔ word <+: bytes) := by
  induction word generalizing bytes with
  | nil => exact ⟨0, by simp [strncmp], by simp⟩
  | cons byte word ih =>
    obtain ⟨nonzero, free⟩ := not_or.mp (List.mem_cons.not.mp free)
    cases bytes with
    | nil =>
      -- The terminator differs from every byte of the word.
      have differs : (0 : UInt8) ≠ byte := nonzero
      refine ⟨(0 : UInt8).toNat - byte.toNat, ?_, ?_⟩
      · simp [strncmp, differs]
      · have : (0 : UInt8).toNat ≠ byte.toNat := fun same => differs (UInt8.toNat_inj.mp same)
        simp only [List.prefix_nil, List.cons_ne_nil, iff_false]
        omega
    | cons first bytes =>
      by_cases same : first = byte
      · obtain ⟨result, compared, zero⟩ := ih free bytes
        refine ⟨result, ?_, by rw [zero, List.cons_prefix_cons]; simp [same]⟩
        simpa [strncmp, same, Ne.symm nonzero] using compared
      · refine ⟨(first.toNat : Int) - byte.toNat, by simp [strncmp, same], ?_⟩
        have : first.toNat ≠ byte.toNat := fun equal => same (UInt8.toNat_inj.mp equal)
        rw [List.cons_prefix_cons]
        simp only [Ne.symm same, false_and, iff_false]
        omega

/-- The test for a command is passed exactly if the string starts with its word. -/
theorem commandIs_spec {word option : List UInt8} {string : Key} (free : 0 ∉ word)
    (holds : Holds option string) :
    commandIs word option = pure (decide (word <+: string.bytes)) := by
  -- The comparison answers zero exactly for a string that starts so.
  obtain ⟨rest, rfl⟩ := holds
  obtain ⟨result, compared, zero⟩ := strncmp_spec free string.bytes rest
  rw [commandIs, compared, pure_bind, decide_eq_decide.mpr zero]

section Strtok

variable {separator : UInt8} (nonzero : separator ≠ 0) (before after : List UInt8) (gap : Nat)

/-- What the scan for a token skips. -/
theorem takeWhile_gap {word : List UInt8} (free : separator ∉ word) (filled : word ≠ [])
    (rest : List UInt8) :
    (List.replicate gap separator ++ word ++ rest).takeWhile (· = separator) =
      List.replicate gap separator := by
  -- The first byte of the word is no separator.
  obtain ⟨first, word, rfl⟩ := List.exists_cons_of_ne_nil filled
  have differs : first ≠ separator := fun same => free (by simp [same])
  rw [List.append_assoc, List.takeWhile_append_of_pos (by simp)]
  simp [differs]

/-- What the scan for the end of a token skips. -/
theorem takeWhile_token {word : List UInt8} (free : separator ∉ word) (nulFree : 0 ∉ word)
    {byte : UInt8} (ends : byte = separator ∨ byte = 0) (rest : List UInt8) :
    (word ++ byte :: rest).takeWhile (fun byte => byte ≠ separator ∧ byte ≠ 0) = word := by
  -- The byte behind the word is where the scan stops.
  rw [List.takeWhile_append_of_pos]
  · rcases ends with rfl | rfl <;> simp
  · intro item member
    have other : item ≠ separator := fun same => free (same ▸ member)
    have nonzero : item ≠ 0 := fun same => nulFree (same ▸ member)
    simp [other, nonzero]

include nonzero in
/-- Where only separators are left there is no token. -/
theorem strtok_none :
    strtok separator (before ++ List.replicate gap separator ++ 0 :: after) before.length =
      pure (none, before ++ List.replicate gap separator ++ 0 :: after, before.length + gap) := by
  -- Both scans stop at the terminator.
  have front : (before ++ List.replicate gap separator).length = before.length + gap := by simp
  have skipped : ((before ++ List.replicate gap separator ++ 0 :: after).drop
      before.length).takeWhile (· = separator) = List.replicate gap separator := by
    rw [List.append_assoc, List.drop_left, List.takeWhile_append_of_pos (by simp)]
    simp [Ne.symm nonzero]
  have head : (before ++ List.replicate gap separator ++ 0 :: after)[before.length + gap]? =
      some 0 := by
    rw [List.getElem?_append_right (by simp), front, Nat.sub_self]
    rfl
  have scanned : ((before ++ List.replicate gap separator ++ 0 :: after).drop
      (before.length + gap)).takeWhile (fun byte => byte ≠ separator ∧ byte ≠ 0) = [] := by
    rw [← front, List.drop_left]
    simp
  simp only [strtok, skipped, List.length_replicate, scanned, List.length_nil, Nat.add_zero, head,
    if_true]

/-- A token is terminated in the place of the separator that ends it, if there is one. -/
theorem strtok_word {word : List UInt8} (free : separator ∉ word) (nulFree : 0 ∉ word)
    (filled : word ≠ []) {byte : UInt8} (ends : byte = separator ∨ byte = 0) :
    strtok separator (before ++ List.replicate gap separator ++ word ++ byte :: after)
        before.length =
      pure (some (before.length + gap),
        before ++ List.replicate gap separator ++ word ++ 0 :: after,
        if byte = 0 then before.length + gap + word.length
        else before.length + gap + word.length + 1) := by
  -- The first scan stops at the word, and the second one at the byte behind it.
  have skipped : ((before ++ List.replicate gap separator ++ word ++ byte :: after).drop
      before.length).takeWhile (· = separator) = List.replicate gap separator := by
    rw [List.append_assoc, List.append_assoc, List.drop_left, ← List.append_assoc]
    exact takeWhile_gap gap free filled _
  have front : (before ++ List.replicate gap separator).length = before.length + gap := by simp
  have whole : (before ++ List.replicate gap separator ++ word).length =
      before.length + gap + word.length := by rw [List.length_append, front]
  have scanned : ((before ++ List.replicate gap separator ++ word ++ byte :: after).drop
      (before.length + gap)).takeWhile (fun byte => byte ≠ separator ∧ byte ≠ 0) = word := by
    rw [List.append_assoc, ← front, List.drop_left]
    exact takeWhile_token free nulFree ends after
  have last : (before ++ List.replicate gap separator ++ word ++ byte :: after)[
      before.length + gap + word.length]? = some byte := by
    rw [List.getElem?_append_right (Nat.le_of_eq whole), whole, Nat.sub_self]
    rfl
  obtain ⟨first, word, rfl⟩ := List.exists_cons_of_ne_nil filled
  have nonzero : first ≠ 0 := fun same => nulFree (by simp [same])
  have head : (before ++ List.replicate gap separator ++ first :: word ++ byte :: after)[
      before.length + gap]? = some first := by
    rw [List.append_assoc, List.getElem?_append_right (by simp), front, Nat.sub_self]
    rfl
  have terminated : (before ++ List.replicate gap separator ++ first :: word ++ byte :: after).set
      (before.length + gap + (first :: word).length) 0 =
        before ++ List.replicate gap separator ++ first :: word ++ 0 :: after := by
    rw [List.set_append_right _ _ (Nat.le_of_eq whole), whole, Nat.sub_self]
    rfl
  simp only [strtok, skipped, List.length_replicate, scanned, head, last, if_neg nonzero,
    terminated]
  by_cases zero : byte = 0
  · simp only [zero, if_true]
  · simp only [if_neg zero]

omit nonzero in
/-- The string behind a token is the word that it was made of. -/
theorem cString_token (word : Key) :
    cString ((before ++ List.replicate gap separator ++ word.bytes ++ 0 :: after).drop
      (before.length + gap)) = pure word := by
  -- The token begins behind the gap, and ends at its terminator.
  have front : (before ++ List.replicate gap separator).length = before.length + gap := by simp
  rw [List.append_assoc, ← front, List.drop_left, cString_terminated]

end Strtok

/-- Where `strtok` goes on in an array, of whose start some bytes are not written any more. -/
structure Ahead (kept buffer : List UInt8) (position : Nat) (items : List UInt8) : Prop where
  placed : ∃ before after, buffer = before ++ items ++ 0 :: after ∧ position = before.length ∧
    (items = [] ∨ kept.length ≤ before.length)
  nulFree : 0 ∉ items
  start : kept <+: buffer

/-- The next token is the next word, and keeps the start of the array. -/
theorem strtok_ahead {kept buffer items : List UInt8} {position : Nat}
    (ahead : Ahead kept buffer position items) :
    ∃ token buffer' position' items', strtok 32 buffer position = pure (token, buffer', position') ∧
      Ahead kept buffer' position' items' ∧ buffer'.length = buffer.length ∧
      (token = none ∧ words 32 items = [] ∨
        ∃ start word, token = some start ∧ cString (buffer'.drop start) = pure word ∧
          words 32 items = word.bytes :: words 32 items') := by
  obtain ⟨⟨before, after, rfl, rfl, room⟩, nulFree, start⟩ := ahead
  -- How the items begin decides what the scan finds.
  cases Words.beginning 32 items with
  | none gap =>
    have stopped := strtok_none (by decide : (32 : UInt8) ≠ 0) before after gap
    refine ⟨_, _, _, [], stopped, ⟨⟨before ++ List.replicate gap 32, after, ?_, ?_, .inl rfl⟩, ?_,
      start⟩, rfl, .inl ⟨rfl, ?_⟩⟩
    · rw [List.append_nil]
    · simp
    · exact List.not_mem_nil
    · rw [← List.append_nil (List.replicate gap 32), Words.words_replicate, Words.words_nil]
  | @last gap word free filled =>
    have wordFree : 0 ∉ word := fun member => nulFree (List.mem_append_right _ member)
    have found := strtok_word before after gap free wordFree filled (.inr rfl)
    rw [List.append_assoc before] at found
    refine ⟨_, _, _, [], found, ⟨⟨before ++ (List.replicate gap 32 ++ word), after, ?_, ?_,
      .inl rfl⟩, List.not_mem_nil, start⟩, rfl, .inr ⟨_, ⟨word, wordFree⟩, rfl, ?_, ?_⟩⟩
    · rw [List.append_nil]
    · simp [Nat.add_assoc]
    · rw [← List.append_assoc before]
      exact cString_token before after gap ⟨word, wordFree⟩
    · rw [Words.words_replicate, Words.words_single free filled, Words.words_nil]
  | @first gap word free filled rest =>
    have wordFree : 0 ∉ word := fun member => nulFree (by simp [member])
    have restFree : 0 ∉ rest := fun member => nulFree (by simp [member])
    have found := strtok_word before (rest ++ 0 :: after) gap free wordFree filled (.inl rfl)
    have same : before ++ List.replicate gap 32 ++ word ++ 32 :: (rest ++ 0 :: after) =
        before ++ (List.replicate gap 32 ++ word ++ 32 :: rest) ++ 0 :: after := by simp
    rw [same] at found
    -- The terminator is written behind the bytes that are kept.
    have within : kept.length ≤ before.length := room.resolve_left (by simp)
    rw [List.append_assoc] at start
    have kept := List.prefix_of_prefix_length_le start (List.prefix_append _ _) within
    refine ⟨_, _, _, rest, found, ⟨⟨before ++ List.replicate gap 32 ++ word ++ [0], after, ?_, ?_,
      .inr ?_⟩, restFree, ?_⟩, ?_, .inr ⟨_, ⟨word, wordFree⟩, rfl, ?_, ?_⟩⟩
    · simp
    · simp [Nat.add_assoc]
    · simp only [List.length_append]
      omega
    · simp only [List.append_assoc]
      exact kept.trans (List.prefix_append _ _)
    · simp
    · exact cString_token before (rest ++ 0 :: after) gap ⟨word, wordFree⟩
    · rw [List.append_assoc, Words.words_replicate, Words.words_first free filled]

section Arguments

variable {option : List UInt8} {string first : Key} {args : List (List UInt8)}

/-- The first call of `strtok` terminates the first word, and keeps it from then on. -/
theorem strtok_command (holds : Holds option string) (flush : string.bytes.head? ≠ some 32)
    (split : words 32 string.bytes = first.bytes :: args) :
    ∃ token option' position items, strtok 32 option 0 = pure (token, option', position) ∧
      Ahead (first.bytes ++ [0]) option' position items ∧ option'.length = option.length ∧
      words 32 items = args := by
  obtain ⟨rest, rfl⟩ := holds
  have nulFree := string.nulFree
  generalize string.bytes = bytes at *
  -- With no gap in front, the array starts with the word.
  cases Words.beginning 32 bytes with
  | none gap =>
    cases gap with
    | zero => cases split
    | succ gap => exact absurd rfl flush
  | @last gap word free filled =>
    cases gap with
    | succ gap => exact absurd rfl flush
    | zero =>
      simp only [List.replicate_zero, List.nil_append] at *
      rw [Words.words_single free filled] at split
      cases split
      have found := strtok_word [] rest 0 free nulFree filled (.inr rfl)
      simp only [List.replicate_zero, List.nil_append, List.length_nil, Nat.zero_add] at found
      exact ⟨_, _, _, [], found, ⟨⟨first.bytes, rest, by simp, rfl, .inl rfl⟩, List.not_mem_nil,
        ⟨rest, by simp⟩⟩, rfl, rfl⟩
  | @first gap word free filled items =>
    cases gap with
    | succ gap => exact absurd rfl flush
    | zero =>
      simp only [List.replicate_zero, List.nil_append, List.append_assoc, List.cons_append] at *
      rw [Words.words_first free filled] at split
      cases split
      have itemsFree : 0 ∉ items := fun member => nulFree (by simp [member])
      have found := strtok_word [] (items ++ 0 :: rest) 0 free first.nulFree filled (.inl rfl)
      simp only [List.replicate_zero, List.nil_append, List.length_nil, Nat.zero_add] at found
      exact ⟨_, _, _, items, found, ⟨⟨first.bytes ++ [0], rest, by simp, by simp, .inr (by simp)⟩,
        itemsFree, ⟨items ++ 0 :: rest, by simp⟩⟩, by simp, rfl⟩

/-- An array of which the terminated first word is kept holds that word. -/
theorem Ahead.holds {position : Nat} {items : List UInt8}
    (ahead : Ahead (first.bytes ++ [0]) option position items) : Holds option first := by
  -- The kept front is the word with its terminator.
  obtain ⟨rest, same⟩ := ahead.start
  exact ⟨rest, by rw [← same, List.append_assoc, List.singleton_append]⟩

/-- The key of a lookup or a deletion is the second word of the line. -/
theorem keyArgument_attempts (holds : Holds option string)
    (flush : string.bytes.head? ≠ some 32) (split : words 32 string.bytes = first.bytes :: args) :
    ∃ (key : Option Key) (option' : List UInt8),
      Attempts (keyArgument option) (none, option') (key, option') ∧
      Holds option' first ∧ option'.length = option.length ∧ key.map Key.bytes = args.head? := by
  -- The first token is the command, and the second one is copied if it is there.
  obtain ⟨_, kept, position, items, started, ahead, length, rfl⟩ :=
    strtok_command holds flush split
  obtain ⟨token, option', _, _, next, ahead', length', found⟩ := strtok_ahead ahead
  obtain ⟨rfl, missing⟩ | ⟨start, word, rfl, read, behind⟩ := found
  · refine ⟨none, option', ?_, ahead'.holds, length'.trans length, by rw [missing]; rfl⟩
    simp only [keyArgument, started, next, pure_bind]
    exact .pure _ _
  · refine ⟨some word, option', ?_, ahead'.holds, length'.trans length, by rw [behind]; rfl⟩
    simp only [keyArgument, started, next, read, pure_bind]
    exact .bind (strdup_attempts word) rfl (.pure _ _)

/-- The command of a put has the second and the third word of the line. -/
theorem executePut_attempts (holds : Holds option string)
    (flush : string.bytes.head? ≠ some 32) (split : words 32 string.bytes = first.bytes :: args) :
    ∃ (command : Option (Command Key)) (option' : List UInt8),
      Attempts (executePut option) (none, option') (command, option') ∧
      Holds option' first ∧ option'.length = option.length ∧
      command.map (Command.map Key.bytes) = Verb.put.command args := by
  -- After the command, two more tokens are looked for.
  obtain ⟨_, kept, position, items, started, ahead, length, rfl⟩ :=
    strtok_command holds flush split
  obtain ⟨token, between, position', items', next, ahead', length', found⟩ := strtok_ahead ahead
  obtain ⟨rfl, missing⟩ | ⟨start, key, rfl, read, behind⟩ := found
  · refine ⟨none, between, ?_, ahead'.holds, length'.trans length, by rw [missing]; rfl⟩
    simp only [executePut, started, next, pure_bind]
    exact .pure _ _
  obtain ⟨token, option', _, _, next', ahead'', length'', found⟩ := strtok_ahead ahead'
  have length := length''.trans (length'.trans length)
  obtain ⟨rfl, missing⟩ | ⟨start', value, rfl, read', behind'⟩ := found
  · refine ⟨none, option', ?_, ahead''.holds, length, by rw [behind, missing]; rfl⟩
    simp only [executePut, started, next, read, next', pure_bind]
    exact .bindBoth (strdup_attempts key) (.pure _ _) (.pure _ _)
  · refine ⟨some (.put key value), option', ?_, ahead''.holds, length, by rw [behind, behind']; rfl⟩
    simp only [executePut, started, next, read, next', read', pure_bind]
    -- The value is copied even if there was no memory for the key.
    exact .bindBoth (strdup_attempts key)
      (.bindBoth (strdup_attempts value) (.pure _ _) (.pure _ _))
      (.bindBoth (strdup_attempts value) (.pure _ _) (.pure _ _))

/-- The command of a lookup has the second word of the line. -/
theorem executeGet_attempts (holds : Holds option string)
    (flush : string.bytes.head? ≠ some 32) (split : words 32 string.bytes = first.bytes :: args) :
    ∃ (command : Option (Command Key)) (option' : List UInt8),
      Attempts (executeGet option) (none, option') (command, option') ∧
      Holds option' first ∧ option'.length = option.length ∧
      command.map (Command.map Key.bytes) = Verb.get.command args := by
  -- The key is the second word, and the words behind it are not looked at.
  obtain ⟨key, option', attempts, left, length, found⟩ := keyArgument_attempts holds flush split
  refine ⟨key.map .get, option', .bind attempts rfl (.pure _ _), left, length, ?_⟩
  cases args <;> cases key <;> cases found <;> rfl

/-- The command of a deletion has the second word of the line. -/
theorem executeDel_attempts (holds : Holds option string)
    (flush : string.bytes.head? ≠ some 32) (split : words 32 string.bytes = first.bytes :: args) :
    ∃ (command : Option (Command Key)) (option' : List UInt8),
      Attempts (executeDel option) (none, option') (command, option') ∧
      Holds option' first ∧ option'.length = option.length ∧
      command.map (Command.map Key.bytes) = Verb.del.command args := by
  -- The key is the second word, and the words behind it are not looked at.
  obtain ⟨key, option', attempts, left, length, found⟩ := keyArgument_attempts holds flush split
  refine ⟨key.map .del, option', .bind attempts rfl (.pure _ _), left, length, ?_⟩
  cases args <;> cases key <;> cases found <;> rfl

end Arguments

/-- A string that starts with a word has a first word, and starts with what that starts with. -/
theorem first_word {string : Key} {word : List UInt8} (free : 32 ∉ word) (filled : word ≠ [])
    (prefixed : word <+: string.bytes) :
    ∃ (first : Key) (args : List (List UInt8)), words 32 string.bytes = first.bytes :: args ∧
      first.bytes <+: string.bytes ∧
      ∀ start, 32 ∉ start → (start <+: first.bytes ↔ start <+: string.bytes) := by
  -- With no space in front, the line starts with its first word.
  have flush := flush_of_prefix free filled prefixed
  have inside := (Words.prefix_iff free flush).mp prefixed
  cases split : words 32 string.bytes with
  | nil =>
    rw [split] at inside
    exact absurd (List.prefix_nil.mp inside) filled
  | cons first args =>
    have member : ∀ item ∈ first, item ∈ string.bytes ∧ item ≠ 32 := fun item inFirst =>
      Words.mem_words.mp ⟨first, by simp [split], inFirst⟩
    have starts : ∀ start, 32 ∉ start → (start <+: first ↔ start <+: string.bytes) := by
      intro start free
      rw [Words.prefix_iff free flush, split]
      rfl
    have firstFree : 32 ∉ first := fun inFirst => (member 32 inFirst).2 rfl
    exact ⟨⟨first, fun zero => string.nulFree (member 0 zero).1⟩, args, rfl,
      (starts first firstFree).mp List.prefix_rfl, starts⟩

/-- The tests of the loop look for the words of the commands in their order. -/
theorem verbOf_eq (line : List UInt8) :
    verbOf line =
      if Word.put <+: line then some .put
      else if Word.getKeys <+: line then some .getKeys
      else if Word.getTable <+: line then some .getTable
      else if Word.get <+: line then some .get
      else if Word.del <+: line then some .del
      else if Word.size <+: line then some .size
      else if Word.stats <+: line then some .stats
      else none := by
  -- The search goes through the list of commands one after the other.
  have tested : ∀ (verb : Verb) (verbs : List Verb),
      (verb :: verbs).find? (fun verb => verb.word <+: line) =
        if verb.word <+: line then some verb else verbs.find? fun verb => verb.word <+: line := by
    intro verb verbs
    by_cases starts : verb.word <+: line <;> simp [starts]
  simp only [verbOf, Verb.inOrder, tested, List.find?_nil]
  rfl

/--
A string in the array is taken for a command, unless memory runs out.

The array then holds the start of the string, which is a line to quit exactly if the string is.
-/
def TakenFor (run : C (Option (Command Key) × List UInt8)) (option : List UInt8) (string : Key)
    (command : Option (Command (List UInt8))) : Prop :=
  ∃ (taken : Option (Command Key)) (option' : List UInt8) (left : Key),
    Attempts run (none, option') (taken, option') ∧ taken.map (Command.map Key.bytes) = command ∧
    Holds option' left ∧ option'.length = option.length ∧ left.bytes <+: string.bytes ∧
    (Word.quit <+: left.bytes ↔ Word.quit <+: string.bytes)

section Dispatch

variable {option : List UInt8} {string : Key} (holds : Holds option string)

include holds in
/-- A command without arguments leaves the array alone. -/
theorem takenFor_bare (command : Option (Command Key)) :
    TakenFor (pure (command, option)) option string (command.map (Command.map Key.bytes)) :=
  ⟨command, option, string, .pure _ _, rfl, holds, rfl, List.prefix_rfl, Iff.rfl⟩

include holds in
/-- A command with arguments takes them from the words behind the first one. -/
theorem takenFor_executed {run : C (Option (Command Key) × List UInt8)} (verb : Verb)
    (prefixed : verb.word <+: string.bytes)
    (attempts : ∀ {first : Key} {args : List (List UInt8)}, Holds option string →
      string.bytes.head? ≠ some 32 → words 32 string.bytes = first.bytes :: args →
      ∃ (command : Option (Command Key)) (option' : List UInt8),
        Attempts run (none, option') (command, option') ∧
        Holds option' first ∧ option'.length = option.length ∧
        command.map (Command.map Key.bytes) = verb.command args) :
    TakenFor run option string (verb.command (words 32 string.bytes).tail) := by
  -- The words behind the first one are what the calls of `strtok` find.
  have filled : verb.word ≠ [] := by cases verb <;> decide
  obtain ⟨first, args, split, starts, same⟩ := first_word (word_free verb).1 filled prefixed
  have flush := flush_of_prefix (word_free verb).1 filled prefixed
  obtain ⟨command, option', attempted, left, length, taken⟩ := attempts holds flush split
  exact ⟨command, option', first, attempted, by rw [split]; exact taken, left, length, starts,
    same Word.quit (by decide)⟩

/-- Each line is dispatched as what it is taken for. -/
theorem dispatch_takenFor (holds : Holds option string) :
    TakenFor (dispatch option) option string (commandOn string.bytes) := by
  have tested : ∀ word, 0 ∉ word → commandIs word option = pure (decide (word <+: string.bytes)) :=
    fun word free => commandIs_spec free holds
  simp only [dispatch, commandIsPut, commandIsGetKeys, commandIsGetTable, commandIsGet,
    commandIsDel, commandIsSize, commandIsStats, commandIsQuit, tested Word.put (by decide),
    tested Word.getKeys (by decide), tested Word.getTable (by decide), tested Word.get (by decide),
    tested Word.del (by decide), tested Word.size (by decide), tested Word.stats (by decide),
    tested Word.quit (by decide), pure_bind, decide_eq_true_eq]
  rw [commandOn, verbOf_eq]
  -- Both sides make the same tests in the same order.
  split_ifs with put getKeys getTable get del size stats
  · exact takenFor_executed holds .put put executePut_attempts
  · exact takenFor_bare holds (some .getKeys)
  · exact takenFor_bare holds (some .getTable)
  · exact takenFor_executed holds .get get executeGet_attempts
  · exact takenFor_executed holds .del del executeDel_attempts
  · exact takenFor_bare holds (some .size)
  · exact takenFor_bare holds (some .stats)
  · exact takenFor_bare holds none

end Dispatch

end ChainTable
