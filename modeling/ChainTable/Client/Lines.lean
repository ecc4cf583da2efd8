import ChainTable.Client.Tokens

/-! Which lines of the input the loop of the client dispatches, and how that loop ends. -/

namespace ChainTable

section Reading

variable {line rest option : List UInt8} {room : Nat}

/-- A line for which there is room is taken with its newline. -/
theorem takeLine_fits (free : 10 ∉ line) (fits : line.length < room) (rest : List UInt8) :
    takeLine room (line ++ 10 :: rest) = (line ++ [10], rest) := by
  -- There is room for the newline when it is reached.
  induction line generalizing room with
  | nil =>
    obtain ⟨room, rfl⟩ : ∃ less, room = less + 1 := ⟨room - 1, by omega⟩
    rfl
  | cons byte line ih =>
    obtain ⟨room, rfl⟩ : ∃ less, room = less + 1 := ⟨room - 1, by omega⟩
    obtain ⟨differs, free⟩ := not_or.mp (List.mem_cons.not.mp free)
    rw [List.cons_append, takeLine, if_neg (Ne.symm differs), ih free (by simpa using fits)]
    rfl

/-- Of a longer line as much is taken as there is room for. -/
theorem takeLine_full (free : 10 ∉ line) (full : room ≤ line.length) (rest : List UInt8) :
    takeLine room (line ++ rest) = (line.take room, line.drop room ++ rest) := by
  -- No newline comes before the room is used up.
  induction line generalizing room with
  | nil =>
    obtain rfl : room = 0 := by simpa using full
    rfl
  | cons byte line ih =>
    cases room with
    | zero => rfl
    | succ room =>
      obtain ⟨differs, free⟩ := not_or.mp (List.mem_cons.not.mp free)
      rw [List.cons_append, takeLine, if_neg (Ne.symm differs), ih free (by simpa using full)]
      rfl

/-- What is taken is written to the start of the array. -/
theorem fgets_taken {size : Nat} {stdin taken : List UInt8} (some : stdin ≠ [])
    (took : takeLine (size - 1) stdin = (taken, rest)) (fits : taken.length < option.length) :
    fgets option size stdin =
      pure (taken ++ 0 :: option.drop (taken.length + 1), rest) := by
  -- The array is written from its first byte on, and the terminator behind what was taken.
  have written : writeAt ([] ++ option) 0 (taken ++ [0]) =
      pure ([] ++ (taken ++ [0]) ++ option.drop (taken ++ [0]).length) :=
    writeAt_front (by rw [List.length_append]; exact fits)
  simp only [List.nil_append, List.length_append, List.length_singleton, List.append_assoc,
    List.singleton_append] at written
  simp only [fgets, if_neg some, took, written, pure_bind]

/-- The string without its last byte. -/
def Key.dropLast (string : Key) : Key where
  bytes := string.bytes.dropLast
  nulFree member := string.nulFree (List.mem_of_mem_dropLast member)

/-- The last byte of what the array holds is taken off. -/
theorem readOption_dropLast {size : Nat} {stdin input : List UInt8} {string : Key}
    (got : fgets option size stdin = pure (input, rest)) (holds : Holds input string)
    (filled : string.bytes ≠ []) :
    ∃ option', readOption option size stdin = pure (option', rest) ∧
      Holds option' string.dropLast ∧ option'.length = input.length := by
  -- The last byte is found by the length of the string, and zero is written there.
  obtain ⟨behind, rfl⟩ := holds
  have positive := List.length_pos_iff.mpr filled
  have shorter : string.bytes.length - 1 = string.bytes.dropLast.length := by simp
  have split : string.bytes ++ 0 :: behind =
      string.bytes.dropLast ++ string.bytes.getLast filled :: 0 :: behind := by
    rw [List.append_cons string.bytes.dropLast, List.dropLast_append_getLast filled]
  have written : writeAt (string.bytes.dropLast ++ string.bytes.getLast filled :: 0 :: behind)
      string.bytes.dropLast.length [0] = pure (string.bytes.dropLast ++ [0] ++ 0 :: behind) :=
    writeAt_front (by simp)
  refine ⟨_, ?_, ⟨0 :: behind, rfl⟩, ?_⟩
  · rw [readOption, got, pure_bind]
    dsimp only
    rw [cString_terminated, pure_bind, if_neg (by omega), shorter, split]
    simp only [written, pure_bind]
    simp [Key.dropLast]
  · simp only [Key.dropLast, List.length_append, List.length_cons, List.length_dropLast]
    omega

/-- In front of an empty string the array is left. -/
theorem readOption_empty {size : Nat} {stdin input : List UInt8} {string : Key}
    (got : fgets option size stdin = pure (input, rest)) (holds : Holds input string)
    (empty : string.bytes = []) : readOption option size stdin = throw .outOfBounds := by
  rw [readOption, got, pure_bind]
  dsimp only
  rw [holds.cString, pure_bind, if_pos (by simp [empty])]
  rfl

/-- Of the string that was read all but the last byte is in the array afterwards. -/
theorem readOption_taken {size : Nat} {stdin taken : List UInt8} {string : Key} (some : stdin ≠ [])
    (took : takeLine (size - 1) stdin = (taken, rest)) (fits : taken.length < option.length)
    (holds : Holds (taken ++ [0]) string) (filled : string.bytes ≠ []) :
    ∃ option', readOption option size stdin = pure (option', rest) ∧
      Holds option' string.dropLast ∧ option'.length = option.length := by
  -- The string ends inside what was taken, or with the terminator behind it.
  obtain ⟨more, same⟩ := holds
  have read : Holds (taken ++ 0 :: option.drop (taken.length + 1)) string := by
    refine ⟨more ++ option.drop (taken.length + 1), ?_⟩
    rw [List.append_cons, same, List.append_assoc, List.cons_append]
  obtain ⟨option', ran, left, length⟩ :=
    readOption_dropLast (fgets_taken some took fits) read filled
  refine ⟨option', ran, left, length.trans ?_⟩
  rw [List.length_append, List.length_cons, List.length_drop]
  omega

/-- A line that fits into the array is in it afterwards. -/
theorem readOption_line {line : Key} (length : option.length = 1024) (free : 10 ∉ line.bytes)
    (fits : line.bytes.length ≤ 1022) (rest : List UInt8) :
    ∃ option', readOption option 1024 (line.bytes ++ 10 :: rest) = pure (option', rest) ∧
      Holds option' line ∧ option'.length = 1024 := by
  -- What was read ends with the newline, which is the byte that is taken off.
  have took := takeLine_fits free (show line.bytes.length < 1024 - 1 by omega) rest
  let read : Key := ⟨line.bytes ++ [10], by simpa using line.nulFree⟩
  have room : (line.bytes ++ [10]).length < option.length := by
    rw [List.length_append, List.length_singleton]
    omega
  obtain ⟨option', ran, holds, kept⟩ :=
    readOption_taken (by simp) took room (show Holds _ read from ⟨[], rfl⟩) (by simp [read])
  have same : read.dropLast.bytes = line.bytes := List.dropLast_concat
  rw [Holds, same] at holds
  exact ⟨option', ran, holds, kept.trans length⟩

/-- Of a longer line the array gets one byte less than was read, and the rest is left over. -/
theorem readOption_cut {line : Key} (length : option.length = 1024) (free : 10 ∉ line.bytes)
    (long : 1023 ≤ line.bytes.length) (rest : List UInt8) :
    ∃ (option' : List UInt8) (cut : Key), cut.bytes = line.bytes.take 1022 ∧
      readOption option 1024 (line.bytes ++ rest) = pure (option', line.bytes.drop 1023 ++ rest) ∧
      Holds option' cut ∧ option'.length = 1024 := by
  -- What was read has no newline, so that a byte of the line is taken off.
  have took := takeLine_full free (show 1024 - 1 ≤ line.bytes.length from long) rest
  have taken : (line.bytes.take 1023).length = 1023 := by
    rw [List.length_take]
    omega
  let read : Key := ⟨line.bytes.take 1023, fun member => line.nulFree (List.mem_of_mem_take member)⟩
  have filled : read.bytes ≠ [] := fun empty => by
    rw [show line.bytes.take 1023 = [] from empty] at taken
    cases taken
  have some : line.bytes ++ rest ≠ [] := fun empty => by
    rw [(List.append_eq_nil_iff.mp empty).1] at long
    cases long
  have room : (line.bytes.take 1023).length < option.length := by omega
  obtain ⟨option', ran, holds, kept⟩ :=
    readOption_taken some took room (show Holds _ read from ⟨[], rfl⟩) filled
  refine ⟨option', read.dropLast, ?_, ran, holds, kept.trans length⟩
  change (line.bytes.take 1023).dropLast = _
  rw [List.dropLast_eq_take, taken, List.take_take]
  rfl

end Reading

/-- The lines up to the first one that starts with `quit`, and with it. -/
def upToQuit : List Key → List Key
  | [] => []
  | line :: lines => if Word.quit <+: line.bytes then [line] else line :: upToQuit lines

variable {σ : Type}

/-- A fault that one of the calls can end with. -/
def CallFaults (perform : Command Key → StateT σ C Unit) (fault : Fault) : Prop :=
  ∃ command state mem, perform command state mem = .error fault

/--
The loop dispatches the lines up to the one to quit, whatever is in the array before them.

The only other way in which it may end is a fault of a call that it makes.
-/
def DispatchesLines (lines : List Key) : Prop :=
  ∀ (σ : Type) (perform : Command Key → StateT σ C Unit) (option : List UInt8),
    option.length = 1024 → ∀ state mem, ∃ rounds,
      let ran :=
        clientLoop perform rounds option (Terminated.join 10 (lines.map Key.bytes)) state mem
      (∃ state' mem', ran = .ok ((some (upToQuit lines), state'), mem')) ∨
        ∃ fault, CallFaults perform fault ∧ ran = .error fault

section Loop

variable {perform : Command Key → StateT σ C Unit} {option stdin : List UInt8}

/-- One round dispatches what was read, and leaves the loop or goes on with the array. -/
theorem clientLoop_round {read rest : List UInt8} {string : Key}
    (ran : readOption option 1024 stdin = pure (read, rest)) (holds : Holds read string)
    (length : read.length = 1024) (state : σ) (mem : Mem) :
    (∃ fault, CallFaults perform fault ∧ ∀ rounds,
      clientLoop perform (rounds + 1) option stdin state mem = .error fault) ∨
    ∃ (left : Key) (option' : List UInt8) (state' : σ) (mem' : Mem), Holds option' left ∧
      option'.length = 1024 ∧ left.bytes <+: string.bytes ∧
      (Word.quit <+: left.bytes ↔ Word.quit <+: string.bytes) ∧
      ∀ rounds, clientLoop perform (rounds + 1) option stdin state mem =
        if Word.quit <+: string.bytes then .ok ((some [string], state'), mem')
        else (do return (← clientLoop perform rounds option' rest).map (string :: ·) :
          StateT σ C (Option (List Key))) state' mem' := by
  obtain ⟨taken, option', left, attempts, -, held, sameLength, starts, quits⟩ :=
    dispatch_takenFor holds
  have readRan : readOption option 1024 stdin mem = .ok ((read, rest), mem) := by rw [ran]; rfl
  have lineRan : cString read mem = .ok (string, mem) := by rw [holds.cString]; rfl
  obtain ⟨command, mem', dispatched⟩ :
      ∃ command mem', dispatch read mem = .ok ((command, option'), mem') := by
    obtain ⟨mem', failed | completed⟩ := attempts.either mem
    · exact ⟨_, mem', failed⟩
    · exact ⟨_, mem', completed⟩
  -- Up to the call the round runs through.
  have called : ∀ rounds, clientLoop perform (rounds + 1) option stdin state mem =
      (do
        command.forM perform
        if ← (commandIsQuit option' : C _) then return some [string]
        return (← clientLoop perform rounds option' rest).map (string :: ·) :
          StateT σ C (Option (List Key))) state mem' := by
    intro rounds
    rw [clientLoop, runOver_bind (runOver_lift readRan)]
    dsimp only
    rw [runOver_bind (runOver_lift lineRan), runOver_bind (runOver_lift dispatched)]
  cases performed : command.forM perform state mem' with
  | error fault =>
    have faults : CallFaults perform fault := by
      cases command with
      | none => cases performed
      | some command => exact ⟨command, state, mem', performed⟩
    exact .inl ⟨fault, faults, fun rounds => by rw [called, runOver_bind_error performed]⟩
  | ok result =>
    obtain ⟨⟨⟨⟩, state'⟩, mem''⟩ := result
    have tested : commandIsQuit option' mem'' =
        .ok (decide (Word.quit <+: string.bytes), mem'') := by
      rw [commandIsQuit, commandIs_spec (by decide) held, decide_eq_decide.mpr quits]
      rfl
    refine .inr ⟨left, option', state', mem'', held, sameLength.trans length, starts, quits,
      fun rounds => ?_⟩
    rw [called, runOver_bind performed, runOver_bind (runOver_lift tested)]
    by_cases leaves : Word.quit <+: string.bytes
    · rw [if_pos leaves, if_pos (decide_eq_true leaves)]
      rfl
    · rw [if_neg leaves, if_neg (by simpa using leaves)]

/-- With a line to quit and no line that is too long, all lines are dispatched. -/
theorem clientLoop_dispatches {lines : List Key} (free : ∀ line ∈ lines, 10 ∉ line.bytes)
    (quits : ∃ line ∈ lines, Word.quit <+: line.bytes)
    (short : ∀ line ∈ upToQuit lines, line.bytes.length ≤ 1022) (length : option.length = 1024)
    (state : σ) (mem : Mem) : ∃ rounds,
      let ran :=
        clientLoop perform rounds option (Terminated.join 10 (lines.map Key.bytes)) state mem
      (∃ state' mem', ran = .ok ((some (upToQuit lines), state'), mem')) ∨
        ∃ fault, CallFaults perform fault ∧ ran = .error fault := by
  -- One round for each line, until the one to quit.
  induction lines generalizing option state mem with
  | nil =>
    obtain ⟨_, member, -⟩ := quits
    exact absurd member List.not_mem_nil
  | cons line lines ih =>
    obtain ⟨here, later⟩ := List.forall_mem_cons.mp free
    have fits : line.bytes.length ≤ 1022 := short line (by rw [upToQuit]; split <;> simp)
    obtain ⟨read, ran, holds, kept⟩ :=
      readOption_line length here fits (Terminated.join 10 (lines.map Key.bytes))
    rw [List.map_cons, Terminated.join_cons]
    obtain ⟨fault, faults, round⟩ | ⟨left, option', state', mem', -, length', -, -, round⟩ :=
      clientLoop_round ran holds kept state mem
    · exact ⟨1, .inr ⟨fault, faults, round 0⟩⟩
    by_cases leaves : Word.quit <+: line.bytes
    · refine ⟨1, .inl ⟨state', mem', ?_⟩⟩
      rw [round, if_pos leaves, upToQuit, if_pos leaves]
    · rw [upToQuit, if_neg leaves] at short
      obtain ⟨other, member, found⟩ := quits
      have ahead : ∃ line ∈ lines, Word.quit <+: line.bytes := by
        rcases List.mem_cons.mp member with rfl | behind
        · exact absurd found leaves
        · exact ⟨other, behind, found⟩
      obtain ⟨rounds, ⟨state'', mem'', followed⟩ | ⟨fault, faults, followed⟩⟩ := ih later ahead
        (fun other member => short other (List.mem_cons_of_mem _ member)) length' state' mem'
      · refine ⟨rounds + 1, .inl ⟨state'', mem'', ?_⟩⟩
        rw [round, if_neg leaves, runOver_bind followed, upToQuit, if_neg leaves]
        rfl
      · refine ⟨rounds + 1, .inr ⟨fault, faults, ?_⟩⟩
        rw [round, if_neg leaves, runOver_bind_error followed]

/-- At the end of the input the loop takes one byte after the other off, and leaves the array. -/
theorem clientLoop_at_end {string : Key} (holds : Holds option string)
    (length : option.length = 1024) (stays : ¬ Word.quit <+: string.bytes) (rounds : Nat)
    {state state' : σ} {mem mem' : Mem} {lines : List Key} :
    clientLoop perform rounds option [] state mem ≠ .ok ((some lines, state'), mem') := by
  -- Nothing is read any more, so that the string loses a byte in every round.
  intro ended
  induction rounds generalizing option string state state' mem mem' lines with
  | zero => cases ended
  | succ rounds ih =>
    have got : fgets option 1024 [] = pure (option, []) := rfl
    by_cases empty : string.bytes = []
    · have faulted : readOption option 1024 [] mem = .error .outOfBounds := by
        rw [readOption_empty got holds empty]
        rfl
      rw [clientLoop, runOver_bind_error (runOver_lift_error faulted)] at ended
      cases ended
    · obtain ⟨read, ran, held, kept⟩ := readOption_dropLast got holds empty
      obtain ⟨_, -, round⟩ | ⟨left, option', _, _, holds', length', -, quits, round⟩ :=
        clientLoop_round ran held (kept.trans length) state mem
      · cases (round rounds).symm.trans ended
      have shorter : ¬ Word.quit <+: string.dropLast.bytes := fun prefixed =>
        stays (prefixed.trans (List.dropLast_prefix _))
      rw [round, if_neg shorter] at ended
      obtain ⟨after, _, _, followed, mapped⟩ := runOver_bind_ran ended
      cases after with
      | none => cases mapped
      | some after => exact ih holds' length' (mt quits.mp shorter) followed

/-- A loop that dispatched the lines has seen one to quit, and none before it that is too long. -/
theorem lines_of_clientLoop {lines : List Key} (free : ∀ line ∈ lines, 10 ∉ line.bytes)
    {string : Key} (holds : Holds option string) (length : option.length = 1024)
    (stays : ¬ Word.quit <+: string.bytes) {rounds : Nat} {state state' : σ} {mem mem' : Mem}
    (ended : clientLoop perform rounds option (Terminated.join 10 (lines.map Key.bytes)) state mem =
      .ok ((some (upToQuit lines), state'), mem')) :
    (∃ line ∈ lines, Word.quit <+: line.bytes) ∧
      ∀ line ∈ upToQuit lines, line.bytes.length ≤ 1022 := by
  induction lines generalizing option string rounds state state' mem mem' with
  | nil => exact absurd ended (clientLoop_at_end holds length stays rounds)
  | cons line lines ih =>
    obtain ⟨here, later⟩ := List.forall_mem_cons.mp free
    rw [List.map_cons, Terminated.join_cons] at ended
    cases rounds with
    | zero => cases ended
    | succ rounds =>
      by_cases fits : line.bytes.length ≤ 1022
      · obtain ⟨read, ran, held, kept⟩ :=
          readOption_line length here fits (Terminated.join 10 (lines.map Key.bytes))
        obtain ⟨_, -, round⟩ | ⟨left, option', _, _, holds', length', -, quits, round⟩ :=
          clientLoop_round ran held kept state mem
        · cases (round rounds).symm.trans ended
        rw [round] at ended
        rw [upToQuit] at ended ⊢
        by_cases leaves : Word.quit <+: line.bytes
        · rw [if_pos leaves]
          exact ⟨⟨line, List.mem_cons_self, leaves⟩, by simpa using fits⟩
        · rw [if_neg leaves, if_neg leaves] at ended
          rw [if_neg leaves]
          obtain ⟨after, _, _, followed, mapped⟩ := runOver_bind_ran ended
          cases after with
          | none => cases mapped
          | some after =>
            cases mapped
            obtain ⟨⟨other, member, found⟩, short⟩ :=
              ih later holds' length' (mt quits.mp leaves) followed
            exact ⟨⟨other, List.mem_cons_of_mem _ member, found⟩,
              List.forall_mem_cons.mpr ⟨fits, short⟩⟩
      · -- What is dispatched first is shorter than the line.
        obtain ⟨read, cut, bytes, ran, held, kept⟩ := readOption_cut length here
          (show 1023 ≤ line.bytes.length by omega)
          (10 :: Terminated.join 10 (lines.map Key.bytes))
        obtain ⟨_, -, round⟩ | ⟨left, option', _, _, -, -, -, -, round⟩ :=
          clientLoop_round ran held kept state mem
        · cases (round rounds).symm.trans ended
        rw [round] at ended
        have differs : line ≠ cut := by
          rintro rfl
          have := congrArg List.length bytes
          rw [List.length_take] at this
          omega
        have first : (upToQuit (line :: lines)).head? = some line := by
          rw [upToQuit]
          split <;> rfl
        generalize upToQuit (line :: lines) = dispatched at ended first
        split at ended
        · cases ended
          exact absurd (Option.some.inj first) (Ne.symm differs)
        · obtain ⟨after, _, _, -, mapped⟩ := runOver_bind_ran ended
          cases after with
          | none => cases mapped
          | some after =>
            cases mapped
            exact absurd (Option.some.inj first) (Ne.symm differs)

end Loop

/-- Without a line to quit, or with one before it that is too long, other lines are dispatched. -/
theorem not_dispatchesLines {lines : List Key} (free : ∀ line ∈ lines, 10 ∉ line.bytes)
    (endless : ¬ ((∃ line ∈ lines, Word.quit <+: line.bytes) ∧
      ∀ line ∈ upToQuit lines, line.bytes.length ≤ 1022)) : ¬ DispatchesLines lines := by
  intro dispatches
  -- Calls that do nothing, and an array of zeros, are enough to see it.
  have holds : Holds (List.replicate 1024 0) emptyString := ⟨List.replicate 1023 0, rfl⟩
  obtain ⟨rounds, ⟨state', mem', ended⟩ | ⟨fault, ⟨_, _, _, faulted⟩, -⟩⟩ :=
    dispatches Unit (fun _ => pure ()) (List.replicate 1024 0) (List.length_replicate ..) () []
  · exact endless (lines_of_clientLoop free holds (List.length_replicate ..) (by decide) ended)
  · cases faulted

/--
The loop dispatches the lines up to the one to quit, and ends there, exactly if there is such a
line, and up to it none is longer than the array less a newline and a terminator.
-/
theorem lines_dispatched_iff {lines : List Key} (free : ∀ line ∈ lines, 10 ∉ line.bytes) :
    DispatchesLines lines ↔
      (∃ line ∈ lines, Word.quit <+: line.bytes) ∧
        ∀ line ∈ upToQuit lines, line.bytes.length ≤ 1022 := by
  -- Without the condition the loop cannot end as it is to, and with it every round goes well.
  constructor
  · intro dispatches
    by_contra endless
    exact not_dispatchesLines free endless dispatches
  · rintro ⟨quits, short⟩ σ perform option length state mem
    exact clientLoop_dispatches free quits short length state mem

/-- The line `size` alone is not all that the loop dispatches. -/
theorem lines_end_without_quit : ¬ DispatchesLines [⟨Word.size, by decide⟩] :=
  not_dispatchesLines (by decide) (by decide)

/-- The line `size` and a line `quit` are dispatched. -/
theorem lines_dispatched_iff_quit :
    DispatchesLines [⟨Word.size, by decide⟩, ⟨Word.quit, by decide⟩] :=
  (lines_dispatched_iff (by decide)).mpr (by decide)

end ChainTable
