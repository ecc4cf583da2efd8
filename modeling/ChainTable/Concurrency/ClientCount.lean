import ChainTable.Concurrency.MainLoop

/-! The counter of connected clients against the handlers that have yet to lower it. -/

namespace ChainTable.MainLoop

open ChainTable

/-- The handler has not lowered the counter yet. -/
def Handler.counted (handler : Handler) : Bool := handler.position != .ended

/-- The connections handed to a handler that has not lowered the counter yet. -/
def State.handed (state : State) : Nat := state.handlers.countP Handler.counted

/-- The client that the main loop has counted, and neither handed to a handler nor given up. -/
def MainPosition.between : MainPosition → Nat
  | allocating _ | creating _ => 1
  | _ => 0

/-- The number of clients by which the counter is too high. -/
def State.excess (state : State) : Int :=
  state.numClientsConnected - state.handed - state.main.between

/-- What the main loop read from the counter, when it is about to write it. -/
def MainPosition.read : MainPosition → Option Int
  | adding _ read => some read
  | _ => none

/-- What a handler read from the counter, when it is about to write it. -/
def HandlerPosition.read : HandlerPosition → Option Int
  | subtracting read => some read
  | _ => none

/-- A thread that writes the counter finds it as it has read it. -/
def Current (state : State) : Step → Prop
  | .main _ => ∀ read ∈ state.main.read, read = state.numClientsConnected
  | .handler thread _ => ∀ handler ∈ state.handlers[thread]?, ∀ read ∈ handler.position.read,
      read = state.numClientsConnected
  | _ => True

/-- A client that was counted gets its arguments, and its thread. -/
def Given (state : State) : Step → Prop
  | .main given => state.main.between = 1 → given = true
  | _ => True

instance (state : State) (label : Step) : Decidable (Current state label) :=
  match label with
  | .main _ => inferInstanceAs (Decidable (∀ read ∈ state.main.read, read = _))
  | .handler thread _ => inferInstanceAs (Decidable (∀ handler ∈ state.handlers[thread]?,
      ∀ read ∈ handler.position.read, read = _))
  | .accept _ | .signal | .close => inferInstanceAs (Decidable True)

instance (state : State) (label : Step) : Decidable (Given state label) :=
  match label with
  | .main given => inferInstanceAs (Decidable (state.main.between = 1 → given = true))
  | .accept _ | .handler _ _ | .signal | .close => inferInstanceAs (Decidable True)

/-- A handler that moves is handed its connection before and after, unless it ends. -/
theorem handed_move {state : State} {thread : Nat} {handler : Handler}
    (found : state.handlers[thread]? = some handler) (position : HandlerPosition) :
    (state.move thread handler position).handed + (if handler.counted then 1 else 0) =
      state.handed + if position != .ended then 1 else 0 := by
  obtain ⟨bound, here⟩ := List.getElem?_eq_some_iff.mp found
  -- One element of the list is replaced, so the count changes by what it contributes.
  have before : (if handler.counted then 1 else 0) ≤ state.handed := by
    rw [← here]
    exact List.boole_getElem_le_countP (p := Handler.counted) bound
  have after : (state.move thread handler position).handed =
      state.handed - (if handler.counted then 1 else 0) + if position != .ended then 1 else 0 := by
    rw [← here]
    exact List.countP_set bound
  omega

/-- A handler that has not ended stays counted while it moves on to another position. -/
theorem handed_move_on {state : State} {thread : Nat} {handler : Handler}
    (found : state.handlers[thread]? = some handler) (counted : handler.counted = true)
    {position : HandlerPosition} (goesOn : position ≠ .ended) :
    (state.move thread handler position).handed = state.handed := by
  -- The handler is counted before and after the move.
  have moved := handed_move found position
  simp only [counted, bne_iff_ne, ne_eq, goesOn, not_false_eq_true, if_true] at moved
  omega

/-- A handler that ends is not counted any longer. -/
theorem handed_move_ended {state : State} {thread : Nat} {handler : Handler}
    (found : state.handlers[thread]? = some handler) (counted : handler.counted = true) :
    (state.move thread handler .ended).handed + 1 = state.handed := by
  -- The handler is counted before the move only.
  have moved := handed_move found .ended
  simp only [counted, if_true, bne_self_eq_false, Bool.false_eq_true, if_false] at moved
  omega

/-- The counter is as right as it was when neither it nor what it counts has changed. -/
theorem excess_kept {state next : State}
    (counter : next.numClientsConnected = state.numClientsConnected)
    (handed : next.handed = state.handed) (between : next.main.between = state.main.between) :
    next.excess = state.excess := by
  -- The excess is made of these three numbers.
  rw [State.excess, counter, handed, between, State.excess]

/-- A handler that finds the counter as it read it keeps the counter as right as it was. -/
theorem handlerStep_excess {state next : State} {thread : Nat} {received : Bool}
    (current : Current state (.handler thread received))
    (stepped : handlerStep state thread received = some next) : next.excess = state.excess := by
  obtain ⟨handler, found, stepped⟩ := handlerStep_cases stepped
  have unended : handler.position ≠ .ended → handler.counted = true := by
    intro goesOn
    simpa [Handler.counted] using goesOn
  -- Only the last position lowers the counter, and there the handler ends.
  cases stepped with
  | moves openSockets before after used =>
    exact excess_kept rfl (handed_move_on found (unended before) after) rfl
  | @ends read here =>
    have fewer := handed_move_ended found (unended (by rw [here]; simp))
    have asRead : read = state.numClientsConnected :=
      current handler found read (by rw [here]; rfl)
    change read - 1 - ((state.move thread handler .ended).handed : Int) - state.main.between = _
    simp only [State.excess]
    omega

/-- A step that gives no client up keeps the counter as right as it was. -/
theorem excess_of_given {state next : State} {label : Step} (given : Given state label)
    (kept : next.excess = state.excess) :
    next.excess = state.excess + if Given state label then 0 else 1 := by
  -- Nothing is added.
  rw [if_pos given, Int.add_zero, kept]

/-- A step that gives a counted client up makes the counter too high. -/
theorem excess_of_givenUp {state next : State} {label : Step} (givenUp : ¬ Given state label)
    (more : next.excess = state.excess + 1) :
    next.excess = state.excess + if Given state label then 0 else 1 := by
  -- One is added.
  rw [if_neg givenUp, more]

/-- With no counted client in its hands, the main loop gives none up. -/
theorem given_of_not_between {state : State} (free : state.main.between = 0) (given : Bool) :
    Given state (.main given) := by
  -- A client is given up by the main loop only while it holds one that is counted.
  intro one
  rw [free] at one
  cases one

/-- Where the main loop only moves, it keeps the client in its hands, or gives up a counted one. -/
theorem MainPosition.Turn.between {running given : Bool} {counter : Int}
    {main position : MainPosition} (turn : MainPosition.Turn running given counter main position) :
    (position.between = main.between ∧ (main.between = 1 → given = true)) ∨
      (main.between = 1 ∧ position.between = 0 ∧ given = false) := by
  -- Counted clients are given up at the two positions where something may be lacking.
  cases turn with
  | allocates gets => exact .inl ⟨rfl, fun _ => gets⟩
  | dropsArguments lacks | dropsThread lacks => exact .inr ⟨rfl, rfl, lacks⟩
  | stays | stops | fails | admits | refuses | reads | givesUpName | givesUpEntry =>
    exact .inl ⟨rfl, fun one => by cases one⟩

/-- The main loop makes the counter too high by one client wherever it gives a counted one up. -/
theorem mainStep_excess {state next : State} {given : Bool} (current : Current state (.main given))
    (stepped : mainStep state given = some next) :
    next.excess = state.excess + if Given state (.main given) then 0 else 1 := by
  -- A counted client is in the hands of the main loop from `adding` to `creating`, and only there.
  cases mainStep_cases stepped with
  | turns turn =>
    rcases turn.between with ⟨same, allGiven⟩ | ⟨one, free, lacks⟩
    · exact excess_of_given allGiven (excess_kept rfl rfl same)
    · -- A counted client that the main loop gives up stays in the counter.
      have givenUp : ¬ Given state (.main given) := fun all => by
        rw [lacks] at all
        exact absurd (all one) (by decide)
      refine excess_of_givenUp givenUp ?_
      simp only [State.excess, State.handed, free, one]
      omega
  | @counts socket read here =>
    -- The client that is added to the counter is now in the hands of the main loop.
    refine excess_of_given (given_of_not_between (by rw [here]; rfl) given) ?_
    have asRead : read = state.numClientsConnected := current read (by rw [here]; rfl)
    change read + 1 - (state.handed : Int) - 1 = _
    simp only [State.excess, here, MainPosition.between]
    omega
  | @creates socket here gets =>
    refine excess_of_given (fun _ => gets) ?_
    have one : state.main.between = 1 := by rw [here]; rfl
    -- The client goes from the hands of the main loop into those of the new thread.
    have more : (state.handlers ++ [(⟨socket, .receiving⟩ : Handler)]).countP Handler.counted =
        state.handed + 1 := by
      rw [List.countP_append]
      rfl
    change state.numClientsConnected - ((state.handlers ++ [_]).countP _ : Int) - 0 = _
    simp only [more, State.excess, one]
    omega
  | names here | records here | leaves here =>
    refine excess_of_given (given_of_not_between (by rw [here]; rfl) given) ?_
    exact excess_kept rfl rfl (by rw [here]; rfl)

/-- The signal handler knows nothing of the counter and of what it counts. -/
theorem closeStep_excess {state next : State} (stepped : closeStep state = some next) :
    next.excess = state.excess := by
  -- The handlers and the main loop are as they were.
  have kept := closeStep_kept stepped
  exact excess_kept kept.numClientsConnected (by rw [State.handed, kept.handlers, State.handed])
    (by rw [kept.main])

/-- A new connection is not counted before the main loop has looked at it. -/
theorem acceptStep_excess {state next : State} {clientSocket : Option Nat}
    (stepped : acceptStep state clientSocket = some next) : next.excess = state.excess := by
  -- The main loop holds no counted client before or after it accepts.
  obtain ⟨here, openSockets, rfl⟩ := acceptStep_cases stepped
  exact excess_kept rfl rfl (by rw [here]; rfl)

/-- A step makes the counter too high by one client exactly when it gives a counted one up. -/
theorem step_excess {state next : State} {label : Step} (current : Current state label)
    (stepped : step state label = some next) :
    next.excess = state.excess + if Given state label then 0 else 1 := by
  -- There is one lemma for each thread, and the signal only sets a flag.
  cases label with
  | accept clientSocket => exact excess_of_given trivial (acceptStep_excess stepped)
  | main given => exact mainStep_excess current stepped
  | handler thread received => exact excess_of_given trivial (handlerStep_excess current stepped)
  | signal =>
    refine excess_of_given trivial ?_
    change signalStep state = some next at stepped
    unfold signalStep at stepped
    split at stepped
    · cases stepped
      rfl
    · cases stepped
  | close => exact excess_of_given trivial (closeStep_excess stepped)

/-- Along a run the counter only gets too high, and is right when no counted client is given up. -/
theorem run_excess {labels : List Step} :
    ∀ {state final : State}, Machine.Guarded step Current state labels →
      Machine.run step state labels = some final →
      state.excess ≤ final.excess ∧
        (final.excess = state.excess ↔ Machine.Guarded step Given state labels) := by
  -- The first step moves the excess by nothing or by one, and the rest never brings it back.
  induction labels with
  | nil =>
    intro state final _ ran
    cases ran
    exact ⟨Int.le_refl _, fun _ => trivial, fun _ => rfl⟩
  | cons label labels ih =>
    intro state final current ran
    obtain ⟨next, stepped, rest⟩ := Machine.run_cons ran
    have first := step_excess current.1 stepped
    obtain ⟨grows, same⟩ := ih (current.2 next stepped) rest
    by_cases given : Given state label
    · rw [if_pos given, Int.add_zero] at first
      rw [first] at grows same
      refine ⟨grows, same.trans ⟨fun later => ⟨given, fun other reached => ?_⟩, fun all => ?_⟩⟩
      · rw [stepped] at reached
        cases reached
        exact later
      · exact all.2 next stepped
    · rw [if_neg given] at first
      refine ⟨by omega, fun equal => by omega, fun all => absurd all.1 given⟩

/--
The counter is the number of connections in the hands of handlers that have not lowered it.

This is so after a run in which each thread writes the counter as it read it, exactly when every
client counted on the way got its arguments and its thread.
-/
theorem clients_counted_iff {labels : List Step}
    (current : Machine.Guarded step Current start labels)
    {final : State} (ran : Machine.run step start labels = some final)
    (settled : final.main.between = 0) :
    final.numClientsConnected = final.handed ↔ Machine.Guarded step Given start labels := by
  -- Along the run the excess is what the clients given up add to it, and ends as that.
  obtain ⟨-, right⟩ := run_excess current ran
  rw [← right]
  have zero : start.excess = 0 := rfl
  rw [zero]
  simp only [State.excess, settled]
  omega

/--
A client stays counted that got no arguments, another one that got no thread, and a third is lost.

In the last run a handler reads the counter before the next client is added, and writes it later.
-/
theorem refused_client_stays_counted :
    let counted : List Step := [.main true, .accept (some 5), .main true, .main true, .main true]
    let served : List Step := counted ++ [.main true, .main true, .main true, .main true]
    let overlapping : List Step := served ++ [.handler 0 false, .handler 0 true, .main true,
      .accept (some 5), .main true, .main true, .handler 0 true, .main true, .handler 0 true,
      .main true, .main true, .main true, .main true]
    let summary : State → Int × Nat × MainPosition :=
      fun state => (state.numClientsConnected, state.handed, state.main)
    (Machine.run step start (counted ++ [.main false])).map summary = some (1, 0, .test) ∧
    (Machine.run step start (counted ++ [.main true, .main false])).map summary =
      some (1, 0, .test) ∧
    (Machine.run step start overlapping).map summary = some (0, 1, .test) := by
  -- All three runs are evaluated.
  decide +kernel

/-- A client that came and left, and one that is served, are counted as one. -/
theorem clients_counted_iff_two :
    let served : List Step := [.main true, .accept (some 5), .main true, .main true, .main true,
      .main true, .main true, .main true, .main true]
    let left : List Step := [.handler 0 false, .handler 0 true, .handler 0 true, .handler 0 true]
    ∃ final, Machine.run step start (served ++ left ++ served) = some final ∧
      final.numClientsConnected = final.handed := by
  -- The run keeps to both conditions, which are evaluated along it.
  intro served left
  have runs : (Machine.run step start (served ++ left ++ served)).isSome := by decide +kernel
  obtain ⟨final, ran⟩ := Option.isSome_iff_exists.mp runs
  have settled : final.main.between = 0 := by
    have atEnd : (Machine.run step start (served ++ left ++ served)).map
        (fun state => state.main.between) = some 0 := by decide +kernel
    rw [ran] at atEnd
    exact Option.some.inj atEnd
  have current : Machine.Guarded step Current start (served ++ left ++ served) := by decide +kernel
  have given : Machine.Guarded step Given start (served ++ left ++ served) := by decide +kernel
  exact ⟨final, ran, (clients_counted_iff current ran settled).mpr given⟩

end ChainTable.MainLoop
