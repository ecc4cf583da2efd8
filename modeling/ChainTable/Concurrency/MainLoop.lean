import ChainTable.Library.Machine

/-! The threads of a server: the loop that accepts clients, their handlers, and SIGINT. -/

namespace ChainTable.MainLoop

open ChainTable

/-- `struct ThreadInfo`, under the number in the name of its thread. -/
structure ThreadInfo where
  number : Nat
  clientSocket : Nat
  deriving DecidableEq, Repr

/-- What `network_main_loop` does next. -/
inductive MainPosition where
  /-- It looks at `server_running` at the head of the loop. -/
  | test
  /-- It waits in `accept`. -/
  | accepting
  /-- It looks at `server_running` again, and then at the socket that `accept` returned. -/
  | accepted (clientSocket : Option Nat)
  /-- It reads the counter in `update_server_stats_clients(1, 0)`. -/
  | counting (clientSocket : Nat)
  /-- It writes the counter there. -/
  | adding (clientSocket : Nat) (read : Int)
  /-- It allocates `thread_args`. -/
  | allocating (clientSocket : Nat)
  /-- It calls `pthread_create`. -/
  | creating (clientSocket : Nat)
  /-- It detaches the thread, makes the data for the list, and names the thread. -/
  | naming (clientSocket : Nat)
  /-- It makes the entry and adds it to the list. -/
  | recording (info : ThreadInfo)
  /-- It has left the loop, and destroys the list. -/
  | leaving
  | returned (result : Int)
  deriving DecidableEq, Repr

/-- What `client_handler` does next. -/
inductive HandlerPosition where
  /-- It waits in `network_receive`. -/
  | receiving
  /-- It handles a request on the table, and replies. -/
  | invoking
  /-- It has left the loop, and closes its socket if the server is running. -/
  | leaving
  /-- It reads the counter in `update_server_stats_clients(1, 1)`. -/
  | uncounting
  /-- It writes the counter there. -/
  | subtracting (read : Int)
  | ended
  deriving DecidableEq, Repr

/-- A thread that was created for a client. -/
structure Handler where
  clientSocket : Nat
  position : HandlerPosition
  deriving DecidableEq, Repr

/-- What `table_server_close` does next. -/
inductive ClosePosition where
  /-- SIGINT has not arrived. -/
  | idle
  /-- The first loop of `network_server_close`, at a thread number. -/
  | closing (i : Nat)
  /-- The second loop of `network_server_close`, at a thread number. -/
  | joining (i : Nat)
  /-- `network_server_close` has returned, and `table_skel_destroy` is called. -/
  | closed
  /-- The table is freed. -/
  | destroyed
  /-- A NULL pointer, a freed list or a detached thread was used. -/
  | crashed
  deriving DecidableEq, Repr

/-- What the threads of the server share, and where each of them is. -/
structure State where
  serverRunning : Bool
  numClientsConnected : Int
  /-- The entries of `thread_info_list` by number, or none once the list is destroyed. -/
  threadInfoList : Option (List ThreadInfo)
  nextThreadNumber : Nat
  openSockets : List Nat
  main : MainPosition
  handlers : List Handler
  closing : ClosePosition
  /-- The entries that were recorded when SIGINT arrived. -/
  atSignal : List ThreadInfo
  /-- The entries whose sockets `network_server_close` has closed. -/
  closed : List ThreadInfo
  /-- Whether a request was handled on the table after the table was freed. -/
  usedFreed : Bool
  deriving DecidableEq, Repr

/-- A step of some thread. -/
inductive Step where
  /-- `accept` returns a socket, or fails. -/
  | accept (clientSocket : Option Nat)
  /-- The next step of the main loop, with what it asks for given or not. -/
  | main (given : Bool)
  /-- The next step of a handler, with a request received or not. -/
  | handler (thread : Nat) (received : Bool)
  /-- SIGINT arrives. -/
  | signal
  /-- The next step of the signal handler. -/
  | close
  deriving DecidableEq, Repr

/-- The beginning of `network_main_loop`, with its list created. -/
def start : State where
  serverRunning := true
  numClientsConnected := 0
  threadInfoList := some []
  nextThreadNumber := 1
  openSockets := []
  main := .test
  handlers := []
  closing := .idle
  atSignal := []
  closed := []
  usedFreed := false

/-- `accept` in `network_main_loop`. -/
def acceptStep (state : State) (clientSocket : Option Nat) : Option State :=
  match state.main, clientSocket with
  | .accepting, none => some { state with main := .accepted none }
  | .accepting, some socket =>
    -- A new socket has a number that no open one has.
    if socket ∈ state.openSockets then none
    else some { state with main := .accepted (some socket)
                           openSockets := socket :: state.openSockets }
  | _, _ => none

/-- `network_main_loop` outside of `accept`. -/
def mainStep (state : State) (given : Bool) : Option State :=
  match state.main with
  | .test => some { state with main := if state.serverRunning then .accepting else .leaving }
  | .accepting => none
  | .accepted clientSocket =>
    if state.serverRunning then
      match clientSocket with
      | none => some { state with main := .test }
      | some socket => some { state with main := .counting socket }
    else some { state with main := .leaving }
  | .counting socket => some { state with main := .adding socket state.numClientsConnected }
  | .adding socket read =>
    some { state with main := .allocating socket, numClientsConnected := read + 1 }
  -- Both failures go on with the loop: the socket stays open, and the client stays counted.
  | .allocating socket => some { state with main := if given then .creating socket else .test }
  | .creating socket =>
    if given then
      some { state with main := .naming socket
                        handlers := state.handlers ++ [⟨socket, .receiving⟩] }
    else some { state with main := .test }
  | .naming socket =>
    if given then
      some { state with main := .recording ⟨state.nextThreadNumber, socket⟩
                        nextThreadNumber := state.nextThreadNumber + 1 }
    else some { state with main := .returned (-1) }
  | .recording info =>
    if given then
      match state.threadInfoList with
      | none => none
      | some infos => some { state with main := .test, threadInfoList := some (infos ++ [info]) }
    else some { state with main := .returned (-1) }
  | .leaving => some { state with main := .returned 0, threadInfoList := none }
  | .returned _ => none

/-- A handler moves on. -/
def State.move (state : State) (thread : Nat) (handler : Handler) (position : HandlerPosition) :
    State :=
  { state with handlers := state.handlers.set thread { handler with position := position } }

/-- `client_handler`. -/
def handlerStep (state : State) (thread : Nat) (received : Bool) : Option State :=
  match state.handlers[thread]? with
  | none => none
  | some handler =>
    match handler.position with
    | .receiving => some (state.move thread handler (if received then .invoking else .leaving))
    | .invoking =>
      some { state.move thread handler .receiving with
             usedFreed := state.usedFreed || state.closing == .destroyed }
    | .leaving =>
      some { state.move thread handler .uncounting with
             openSockets := if state.serverRunning then state.openSockets.erase handler.clientSocket
                            else state.openSockets }
    | .uncounting => some (state.move thread handler (.subtracting state.numClientsConnected))
    | .subtracting read =>
      some { state.move thread handler .ended with numClientsConnected := read - 1 }
    | .ended => none

/-- SIGINT arrives: `network_server_close` stops the server before its loops. -/
def signalStep (state : State) : Option State :=
  if state.closing = .idle then
    some { state with serverRunning := false, closing := .closing 1
                      atSignal := state.threadInfoList.getD [] }
  else none

/-- A round of the first loop of `network_server_close`. -/
def closeRound (state : State) (i : Nat) : State :=
  match state.threadInfoList with
  | none => { state with closing := .crashed }
  | some [] => { state with closing := .closing (i + 1) }
  | some (first :: others) =>
    match (first :: others).find? fun info => info.number = i with
    -- The result of `list_get` is not compared with NULL.
    | none => { state with closing := .crashed }
    | some info =>
      { state with
        closing := .closing (i + 1)
        openSockets := state.openSockets.erase info.clientSocket
        threadInfoList := some ((first :: others).eraseP fun info => info.number = i)
        closed := state.closed ++ [info] }

/-- A round of the second loop of `network_server_close`. -/
def joinRound (state : State) (i : Nat) : State :=
  match state.threadInfoList with
  | some [] => { state with closing := .joining (i + 1) }
  -- An entry may be missing here, and a thread that is there is detached.
  | _ => { state with closing := .crashed }

/-- `table_server_close` after the signal. -/
def closeStep (state : State) : Option State :=
  match state.closing with
  | .closing i =>
    if i < state.nextThreadNumber then some (closeRound state i)
    else some { state with closing := .joining 1 }
  | .joining i =>
    if i < state.nextThreadNumber then some (joinRound state i)
    else some { state with closing := .closed }
  | .closed => some { state with closing := .destroyed }
  | _ => none

/-- What one step of a thread does. -/
def step (state : State) : Step → Option State
  | .accept clientSocket => acceptStep state clientSocket
  | .main given => mainStep state given
  | .handler thread received => handlerStep state thread received
  | .signal => signalStep state
  | .close => closeStep state

/-- The steps of the main loop that change nothing but where it is. -/
inductive MainPosition.Turn (running given : Bool) (counter : Int) :
    MainPosition → MainPosition → Prop
  | stays (on : running = true) : Turn running given counter .test .accepting
  | stops (off : running = false) : Turn running given counter .test .leaving
  | fails (on : running = true) : Turn running given counter (.accepted none) .test
  | admits (on : running = true) (socket : Nat) :
    Turn running given counter (.accepted (some socket)) (.counting socket)
  | refuses (off : running = false) (clientSocket : Option Nat) :
    Turn running given counter (.accepted clientSocket) .leaving
  | reads (socket : Nat) : Turn running given counter (.counting socket) (.adding socket counter)
  | allocates (gets : given = true) (socket : Nat) :
    Turn running given counter (.allocating socket) (.creating socket)
  | dropsArguments (lacks : given = false) (socket : Nat) :
    Turn running given counter (.allocating socket) .test
  | dropsThread (lacks : given = false) (socket : Nat) :
    Turn running given counter (.creating socket) .test
  | givesUpName (lacks : given = false) (socket : Nat) :
    Turn running given counter (.naming socket) (.returned (-1))
  | givesUpEntry (lacks : given = false) (info : ThreadInfo) :
    Turn running given counter (.recording info) (.returned (-1))

/-- What a step of the main loop can do. -/
inductive MainStepped (state : State) (given : Bool) : State → Prop
  | turns {position : MainPosition}
    (turn : MainPosition.Turn state.serverRunning given state.numClientsConnected state.main
      position) : MainStepped state given { state with main := position }
  | counts {socket : Nat} {read : Int} (here : state.main = .adding socket read) :
    MainStepped state given
      { state with main := .allocating socket, numClientsConnected := read + 1 }
  | creates {socket : Nat} (here : state.main = .creating socket) (gets : given = true) :
    MainStepped state given
      { state with main := .naming socket, handlers := state.handlers ++ [⟨socket, .receiving⟩] }
  | names {socket : Nat} (here : state.main = .naming socket) (gets : given = true) :
    MainStepped state given
      { state with main := .recording ⟨state.nextThreadNumber, socket⟩
                   nextThreadNumber := state.nextThreadNumber + 1 }
  | records {info : ThreadInfo} {infos : List ThreadInfo} (here : state.main = .recording info)
    (gets : given = true) (list : state.threadInfoList = some infos) :
    MainStepped state given
      { state with main := .test, threadInfoList := some (infos ++ [info]) }
  | leaves (here : state.main = .leaving) :
    MainStepped state given { state with main := .returned 0, threadInfoList := none }

/-- A step of the main loop does one of these things. -/
theorem mainStep_cases {state next : State} {given : Bool}
    (stepped : mainStep state given = some next) : MainStepped state given next := by
  -- Each position has its own steps, which depend on the flag and on what is given.
  have turns : ∀ {position : MainPosition} {main : MainPosition}, state.main = main →
      MainPosition.Turn state.serverRunning given state.numClientsConnected main position →
      MainStepped state given { state with main := position } := by
    rintro position main rfl turn
    exact .turns turn
  unfold mainStep at stepped
  cases here : state.main with
  | test =>
    simp only [here, Option.some.injEq] at stepped
    subst stepped
    by_cases running : state.serverRunning = true
    · rw [if_pos running]
      exact turns here (.stays running)
    · rw [if_neg running]
      exact turns here (.stops (Bool.eq_false_iff.mpr running))
  | accepting | returned _ =>
    simp only [here] at stepped
    cases stepped
  | accepted clientSocket =>
    simp only [here] at stepped
    split at stepped
    · rename_i running
      cases clientSocket with
      | none =>
        cases stepped
        exact turns here (.fails running)
      | some socket =>
        cases stepped
        exact turns here (.admits running socket)
    · rename_i stopped
      cases stepped
      exact turns here (.refuses (Bool.eq_false_iff.mpr stopped) clientSocket)
  | counting socket =>
    simp only [here, Option.some.injEq] at stepped
    subst stepped
    exact turns here (.reads socket)
  | adding socket read =>
    simp only [here, Option.some.injEq] at stepped
    subst stepped
    exact .counts here
  | allocating socket =>
    simp only [here, Option.some.injEq] at stepped
    subst stepped
    cases given with
    | true => exact turns here (.allocates rfl socket)
    | false => exact turns here (.dropsArguments rfl socket)
  | creating socket =>
    simp only [here] at stepped
    cases given with
    | true => cases stepped; exact .creates here rfl
    | false => cases stepped; exact turns here (.dropsThread rfl socket)
  | naming socket =>
    simp only [here] at stepped
    cases given with
    | true => cases stepped; exact .names here rfl
    | false => cases stepped; exact turns here (.givesUpName rfl socket)
  | recording info =>
    simp only [here] at stepped
    cases given with
    | true =>
      cases list : state.threadInfoList with
      | none =>
        simp only [list] at stepped
        cases stepped
      | some infos =>
        simp only [list] at stepped
        cases stepped
        exact .records here rfl list
    | false => cases stepped; exact turns here (.givesUpEntry rfl info)
  | leaving =>
    simp only [here, Option.some.injEq] at stepped
    subst stepped
    exact .leaves here

/-- `accept` only moves the main loop on, with a socket that may be open now. -/
theorem acceptStep_cases {state next : State} {clientSocket : Option Nat}
    (stepped : acceptStep state clientSocket = some next) :
    state.main = .accepting ∧ ∃ openSockets : List Nat,
      next = { state with main := .accepted clientSocket, openSockets := openSockets } := by
  -- A socket that is returned is new among the open ones, and no other field is touched.
  unfold acceptStep at stepped
  split at stepped
  · rename_i here
    cases stepped
    exact ⟨here, state.openSockets, rfl⟩
  · rename_i socket here
    split at stepped
    · cases stepped
    · cases stepped
      exact ⟨here, socket :: state.openSockets, rfl⟩
  · cases stepped

/-- What a step of a handler can do. -/
inductive HandlerStepped (state : State) (thread : Nat) (handler : Handler) : State → Prop
  | moves {position : HandlerPosition} (openSockets : List Nat) {usedFreed : Bool}
    (before : handler.position ≠ .ended) (after : position ≠ .ended)
    (used : state.closing ≠ .destroyed → usedFreed = state.usedFreed) :
    HandlerStepped state thread handler
      { state.move thread handler position with
        openSockets := openSockets, usedFreed := usedFreed }
  | ends {read : Int} (here : handler.position = .subtracting read) :
    HandlerStepped state thread handler
      { state.move thread handler .ended with numClientsConnected := read - 1 }

/-- A step of a handler that is there moves it on, or ends it with the counter lowered. -/
theorem handlerStep_cases {state next : State} {thread : Nat} {received : Bool}
    (stepped : handlerStep state thread received = some next) :
    ∃ handler, state.handlers[thread]? = some handler ∧
      HandlerStepped state thread handler next := by
  -- Every position but the last leads to another one of the same handler.
  unfold handlerStep at stepped
  cases found : state.handlers[thread]? with
  | none =>
    rw [found] at stepped
    cases stepped
  | some handler =>
    rw [found] at stepped
    refine ⟨handler, rfl, ?_⟩
    cases here : handler.position with
    | receiving =>
      simp only [here, Option.some.injEq] at stepped
      subst stepped
      refine .moves state.openSockets (by rw [here]; decide) ?_ fun _ => rfl
      cases received <;> decide
    | invoking =>
      simp only [here, Option.some.injEq] at stepped
      subst stepped
      refine .moves state.openSockets (by rw [here]; decide) (by decide) fun notFreed => ?_
      simp [notFreed]
    | leaving =>
      simp only [here, Option.some.injEq] at stepped
      subst stepped
      exact .moves _ (by rw [here]; decide) (by decide) fun _ => rfl
    | uncounting =>
      simp only [here, Option.some.injEq] at stepped
      subst stepped
      exact .moves state.openSockets (by rw [here]; decide) (by simp) fun _ => rfl
    | subtracting read =>
      simp only [here, Option.some.injEq] at stepped
      subst stepped
      exact .ends here
    | ended =>
      simp only [here] at stepped
      cases stepped

/-- What the signal handler leaves to the other threads, once SIGINT has arrived. -/
structure OthersKept (state next : State) : Prop where
  arrived : state.closing ≠ .idle
  serverRunning : next.serverRunning = state.serverRunning
  numClientsConnected : next.numClientsConnected = state.numClientsConnected
  main : next.main = state.main
  handlers : next.handlers = state.handlers
  usedFreed : next.usedFreed = state.usedFreed

/-- A round of the first loop is about the list and the sockets. -/
theorem closeRound_kept {state : State} (arrived : state.closing ≠ .idle) (i : Nat) :
    OthersKept state (closeRound state i) := by
  unfold closeRound
  split
  · exact ⟨arrived, rfl, rfl, rfl, rfl, rfl⟩
  · exact ⟨arrived, rfl, rfl, rfl, rfl, rfl⟩
  · split <;> exact ⟨arrived, rfl, rfl, rfl, rfl, rfl⟩

/-- The signal handler leaves the other threads where they are. -/
theorem closeStep_kept {state next : State} (stepped : closeStep state = some next) :
    OthersKept state next := by
  -- Both loops and the end change the list, the sockets and the own position alone.
  unfold closeStep at stepped
  cases here : state.closing with
  | idle | destroyed | crashed =>
    simp only [here] at stepped
    cases stepped
  | closing i =>
    simp only [here] at stepped
    split at stepped
    · cases stepped
      exact closeRound_kept (by rw [here]; simp) i
    · cases stepped
      exact ⟨by rw [here]; simp, rfl, rfl, rfl, rfl, rfl⟩
  | joining i =>
    simp only [here] at stepped
    split at stepped
    · cases stepped
      unfold joinRound
      split <;> exact ⟨by rw [here]; simp, rfl, rfl, rfl, rfl, rfl⟩
    · cases stepped
      exact ⟨by rw [here]; simp, rfl, rfl, rfl, rfl, rfl⟩
  | closed =>
    simp only [here] at stepped
    cases stepped
    exact ⟨by rw [here]; decide, rfl, rfl, rfl, rfl, rfl⟩

end ChainTable.MainLoop
