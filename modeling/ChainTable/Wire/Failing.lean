import ChainTable.Server.InvokeLaws
import ChainTable.Wire.FrameLaws

/-! Exchanges that fail: none of the calls of the stub gets as far as its error value. -/

namespace ChainTable

/-- A call of the stub. The entry and the value that `rtable_put` reads unchecked are there. -/
inductive StubCall where
  | put (key : Option Key) (value : Data)
  | get (key : Option Key)
  | del (key : Option Key)
  | size
  | getKeys
  | getTable
  | stats

/-- What a call of the stub returns. -/
inductive StubReply where
  | code (value : Int)
  | data (value : Option Data)
  | keys (value : Option (List (Option Key)))
  | entries (value : Option (List (Option Entry)))
  | stats (value : Option Statistics)

/-- The value documented for errors, which is -1 or NULL. -/
def StubReply.IsError : StubReply → Prop
  | code value => value = -1
  | data value => value = none
  | keys value => value = none
  | entries value => value = none
  | stats value => value = none

/-- The request that a call sends. -/
def StubCall.request : StubCall → MessageT
  | put key value => putRequest key value
  | get key => getRequest key
  | del key => delRequest key
  | size => bareRequest opSize
  | getKeys => bareRequest opGetKeys
  | getTable => bareRequest opGetTable
  | stats => bareRequest opStats

/-- The number of blocks that a call asks for to make its request. -/
def StubCall.allocations : StubCall → Nat
  | put _ _ => 2
  | _ => 1

variable {σ : Type}

/-- Any of the calls of the stub. -/
def callStub (sendReceive : SendReceive σ) : StubCall → StateT σ C StubReply
  | .put key value =>
    return .code (← rtablePut sendReceive (some { key := key, value := some value }))
  | .get key => return .data (← rtableGet sendReceive key)
  | .del key => return .code (← rtableDel sendReceive key)
  | .size => return .code (← rtableSize sendReceive)
  | .getKeys => return .keys (← rtableGetKeys sendReceive)
  | .getTable => return .entries (← rtableGetTable sendReceive)
  | .stats => return .stats (← rtableStats sendReceive)

/-- The call by which an update is passed on, unless a field that it reads unchecked is missing. -/
def forwardCall : Forward → Option StubCall
  | .put (some { key := key, value := some value }) => some (.put key value)
  | .put _ => none
  | .del key => some (.del (some key))

/-- The ways in which `network_send_receive` fails. -/
inductive Failure (codec : Codec) (request : MessageT) (socket : Socket) (mem : Mem) : Prop where
  /-- There is no memory for the request, or its length or its body is not written. -/
  | unsent (between : Socket) (left : Mem)
      (sent : sendRequest codec request socket mem = .ok ((false, between), left))
  /-- The read of the length of the response fails. -/
  | unread (between : Socket) (left : Mem)
      (sent : sendRequest codec request socket mem = .ok ((true, between), left))
      (length : (Socket.read 2 between).1 = none)
  /-- The peer closed the connection, and the read of the length moves no byte. -/
  | closed (between : Socket) (left : Mem)
      (sent : sendRequest codec request socket mem = .ok ((true, between), left))
      (length : (Socket.read 2 between).1 = some [])
  /-- The body of the response is not there, or cut short. -/
  | short (between after last : Socket) (left less least : Mem) (garbage : Garbage)
      (received : List UInt8) (block : Bool) (nbytes : Int) (buffer : Option (List UInt8))
      (sent : sendRequest codec request socket mem = .ok ((true, between), left))
      (length : Socket.read 2 between = (some received, after))
      (asked : reallocSize (ntohsOver received garbage.num) left = .ok (block, less))
      (body : readAll block (ntohsOver received garbage.num) garbage.fullBuffer after less =
        .ok (((nbytes, buffer), last), least))
      (differs : nbytes ≠ ntohsOver received garbage.num)
  /-- The body of the response is no message. -/
  | undecodable (between after last : Socket) (left less least least' : Mem) (garbage : Garbage)
      (received input : List UInt8) (block : Bool) (buffer : Option (List UInt8))
      (sent : sendRequest codec request socket mem = .ok ((true, between), left))
      (length : Socket.read 2 between = (some received, after))
      (asked : reallocSize (ntohsOver received garbage.num) left = .ok (block, less))
      (body : readAll block (ntohsOver received garbage.num) garbage.fullBuffer after less =
        .ok (((ntohsOver received garbage.num, buffer), last), least))
      (handed : unpackInput (ntohsOver received garbage.num) buffer least = .ok (input, least'))
      (unknown : codec.unpack input = none)

/-- A call returns its error value, whatever the variables held that the code never set. -/
def ReturnsError (codec : Codec) (call : StubCall) (socket : Socket) (mem : Mem) : Prop :=
  ∀ garbage, ∃ reply after left, reply.IsError ∧
    callStub (networkSendReceive codec garbage) call socket mem = .ok ((reply, after), left)

/-- An update handled by `invoke` comes to its reply, whatever the variables held. -/
def InvokeEnds (codec : Codec) (msg : MessageT) (server : Server) (socket : Socket)
    (mem : Mem) : Prop :=
  ∀ garbage, ∃ result, invoke (some (rtableSuccessor (networkSendReceive codec garbage)))
    (some msg) server socket mem = .ok result

/-- The loop over the attempts to pass an update on ends, whatever the variables held. -/
def RetriesEnd (codec : Codec) (forward : Forward) (retriesLeft : Nat) (socket : Socket)
    (mem : Mem) : Prop :=
  ∀ garbage, ∃ result, retryLoop (rtableSuccessor (networkSendReceive codec garbage) forward)
    retriesLeft socket mem = .ok result

section Calls

variable {sendReceive : SendReceive σ} {state state' : σ} {mem mem' : Mem}

/-- An unchecked allocation crashes, or uses up one outcome. -/
theorem mallocUnchecked_cases (mem : Mem) :
    mallocUnchecked mem = .error .nullDereference ∨ mallocUnchecked mem = .ok ((), mem.drop 1) := by
  -- The next outcome of the script decides, and past its end memory is given.
  cases mem with
  | nil => exact .inr rfl
  | cons outcome rest =>
    cases outcome with
    | false => exact .inl rfl
    | true => exact .inr rfl

/-- A missing response is used as if it were there. -/
theorem exchange_missing {request : MessageT}
    (missing : sendReceive request state mem = .ok ((none, state'), mem')) :
    exchange sendReceive request state mem = .error .nullDereference := by
  -- NULL is not checked for.
  unfold exchange
  rw [runOver_bind missing]
  rfl

/-- What a call does behind one allocation, it crashes at the latest where that part crashes. -/
theorem allocated_error {α : Type} {rest : StateT σ C α}
    (faulted : rest state (mem.drop 1) = .error .nullDereference) :
    ((do (mallocUnchecked : C _); rest) : StateT σ C α) state mem = .error .nullDereference := by
  -- Memory that is not given crashes the call even earlier.
  rcases mallocUnchecked_cases mem with refused | given
  · exact runOver_bind_error (runOver_lift_error refused)
  · rw [runOver_bind (runOver_lift given)]
    exact faulted

/-- A call that makes its request in one block crashes when the response is missing. -/
theorem request_missing {α : Type} {request : MessageT} {next : MessageT → StateT σ C α}
    (missing : sendReceive request state (mem.drop 1) = .ok ((none, state'), mem')) :
    ((do (mallocUnchecked : C _); let response ← exchange sendReceive request; next response) :
      StateT σ C α) state mem = .error .nullDereference :=
  allocated_error (runOver_bind_error (exchange_missing missing))

/-- `rtable_put` crashes when the response is missing. -/
theorem rtablePut_missing {key : Option Key} {value : Data}
    (missing : sendReceive (putRequest key value) state (mem.drop 2) = .ok ((none, state'), mem')) :
    rtablePut sendReceive (some { key := key, value := some value }) state mem =
      .error .nullDereference := by
  -- The message and the entry in it are two blocks.
  have inner : sendReceive (putRequest key value) state ((mem.drop 1).drop 1) =
      .ok ((none, state'), mem') := by rwa [List.drop_drop]
  unfold rtablePut
  exact allocated_error (request_missing inner)

/-- `rtable_del` crashes when the response is missing. -/
theorem rtableDel_missing {key : Option Key}
    (missing : sendReceive (delRequest key) state (mem.drop 1) = .ok ((none, state'), mem')) :
    rtableDel sendReceive key state mem = .error .nullDereference := by
  -- The request takes one block, and then the response is missing.
  unfold rtableDel
  exact request_missing missing

/-- Every call of the stub crashes when the response is missing. -/
theorem callStub_missing {call : StubCall}
    (missing : sendReceive call.request state (mem.drop call.allocations) =
      .ok ((none, state'), mem')) :
    callStub sendReceive call state mem = .error .nullDereference := by
  -- Only `rtable_put` makes its request in two blocks.
  unfold callStub
  cases call with
  | put key value => exact runOver_bind_error (rtablePut_missing missing)
  | get key => exact runOver_bind_error (request_missing missing)
  | del key => exact runOver_bind_error (rtableDel_missing missing)
  | size => exact runOver_bind_error (request_missing missing)
  | getKeys => exact runOver_bind_error (request_missing missing)
  | getTable => exact runOver_bind_error (request_missing missing)
  | stats => exact runOver_bind_error (request_missing missing)

/-- An attempt to pass an update on crashes when the response is missing. -/
theorem rtableSuccessor_missing {forward : Forward} {call : StubCall}
    (passed : forwardCall forward = some call)
    (missing : sendReceive call.request state (mem.drop call.allocations) =
      .ok ((none, state'), mem')) :
    rtableSuccessor sendReceive forward state mem = .error .nullDereference := by
  cases forward with
  | del key =>
    cases passed
    exact rtableDel_missing missing
  | put entry =>
    -- Only an entry with a value makes a call.
    obtain _ | ⟨key, _ | value⟩ := entry
    · cases passed
    · cases passed
    · cases passed
      exact rtablePut_missing missing

/-- The loop over the attempts ends where an attempt crashes. -/
theorem retryLoop_error {attempt : StateT σ C Int} {fault : Fault} {retriesLeft : Nat}
    (some_left : 0 < retriesLeft) (faulted : attempt state mem = .error fault) :
    retryLoop attempt retriesLeft state mem = .error fault := by
  -- With an attempt left, the loop starts by making it.
  obtain ⟨fewer, rfl⟩ := Nat.exists_eq_succ_of_ne_zero some_left.ne'
  exact runOver_bind_error faulted

/-- An update whose passing on crashes takes the server down with it. -/
theorem invoke_error {nextServer : Option (Successor σ)} {msg : MessageT} {server : Server}
    {after : Table} {forward : Forward} {fault : Fault}
    (isUpdate : msg.opcode = opPut ∨ msg.opcode = opDel)
    (ran : updateLocally msg server.table mem = .ok ((some forward, after), mem'))
    (faulted : sendDown nextServer forward state mem' = .error fault) :
    invoke nextServer (some msg) server state mem = .error fault := by
  -- The update applied, so the passing on is next.
  obtain ⟨served, -, invoked⟩ := invoke_forwards isUpdate ran
  rw [invoked]
  exact runOver_bind_error faulted

end Calls

/-- Nothing is read from a connection that the peer closed, and a negative length is no length. -/
theorem receiveResponse_closed (codec : Codec) {between : Socket} (left : Mem)
    (length : (Socket.read 2 between).1 = some []) :
    ∃ garbage after, receiveResponse codec garbage between left = .ok ((none, after), left) := by
  -- The length is what the variable held, here -2.
  refine ⟨⟨false, 0xff, 0xfe⟩, (Socket.read 2 between).2.close, ?_⟩
  have read : Socket.read 2 between = (some [], (Socket.read 2 between).2) :=
    Prod.ext length rfl
  unfold receiveResponse
  rw [runOver_bind (runOver_modifyGet read left)]
  have size : ntohsOver [] (0xff, 0xfe) = -2 := by decide
  have refused : reallocSize (-2) left = .ok (false, left) := by
    unfold reallocSize
    rw [if_neg (by decide)]
    exact mallocSize_negative (by decide) left
  simp only [size]
  rw [runOver_bind (runOver_lift refused)]
  -- `read_all` fails into NULL, with -1 instead of -2.
  have failed : readAll false (-2) false (Socket.read 2 between).2 left =
      .ok (((-1, none), (Socket.read 2 between).2), left) := by
    have here : (get : StateT Socket C Socket) (Socket.read 2 between).2 left =
      .ok (((Socket.read 2 between).2, (Socket.read 2 between).2), left) := rfl
    unfold readAll
    rw [runOver_bind here, if_pos (.inr (.inl (by decide)))]
    rfl
  rw [runOver_bind failed]
  rfl

/-- A failing exchange may answer NULL. -/
theorem Failure.missing {codec : Codec} {request : MessageT} {socket : Socket} {mem : Mem}
    (failure : Failure codec request socket mem) :
    ∃ garbage after left,
      networkSendReceive codec garbage request socket mem = .ok ((none, after), left) := by
  -- Each way to fail ends the exchange where the call returns NULL.
  unfold networkSendReceive
  cases failure with
  | unsent between left sent =>
    refine ⟨⟨false, 0, 0⟩, between, left, ?_⟩
    rw [runOver_bind sent]
    rfl
  | unread between left sent length =>
    refine ⟨⟨false, 0, 0⟩, (Socket.read 2 between).2.close, left, ?_⟩
    have read : Socket.read 2 between = (none, (Socket.read 2 between).2) := Prod.ext length rfl
    rw [runOver_bind sent]
    unfold receiveResponse
    simp only [Bool.not_true, Bool.false_eq_true, if_false]
    rw [runOver_bind (runOver_modifyGet read left)]
    rfl
  | closed between left sent length =>
    obtain ⟨garbage, after, closed⟩ := receiveResponse_closed codec left length
    refine ⟨garbage, after, left, ?_⟩
    rw [runOver_bind sent]
    exact closed
  | short between after last left less least garbage received block nbytes buffer sent length asked
      body differs =>
    refine ⟨garbage, last.close, least, ?_⟩
    rw [runOver_bind sent]
    unfold receiveResponse
    simp only [Bool.not_true, Bool.false_eq_true, if_false]
    rw [runOver_bind (runOver_modifyGet length left)]
    simp only []
    rw [runOver_bind (runOver_lift asked), runOver_bind body]
    simp only [ne_eq, differs, not_false_eq_true, if_true]
    rfl
  | undecodable between after last left less least least' garbage received input block buffer sent
      length asked body handed unknown =>
    refine ⟨garbage, last, least', ?_⟩
    rw [runOver_bind sent]
    unfold receiveResponse
    simp only [Bool.not_true, Bool.false_eq_true, if_false]
    rw [runOver_bind (runOver_modifyGet length left)]
    simp only []
    rw [runOver_bind (runOver_lift asked), runOver_bind body]
    simp only [ne_eq, not_true_eq_false, if_false]
    rw [runOver_bind (runOver_lift handed), unknown]
    rfl

/-- An exchange that answers NULL has failed in one of these ways. -/
theorem failure_of_missing {codec : Codec} {request : MessageT} {socket after : Socket}
    {mem left : Mem} {garbage : Garbage}
    (missing : networkSendReceive codec garbage request socket mem = .ok ((none, after), left)) :
    Failure codec request socket mem := by
  -- The call returns NULL in as many places as there are ways to fail.
  unfold networkSendReceive at missing
  obtain ⟨goesOn, between, mem', sent, rest⟩ := runOver_bind_ran missing
  cases goesOn with
  | false => exact .unsent between mem' sent
  | true =>
    simp only [Bool.not_true, Bool.false_eq_true, if_false] at rest
    unfold receiveResponse at rest
    have taken : Socket.read 2 between = ((Socket.read 2 between).1, (Socket.read 2 between).2) :=
      rfl
    rw [runOver_bind (runOver_modifyGet taken mem')] at rest
    cases read : (Socket.read 2 between).1 with
    | none => exact .unread between _ sent read
    | some received =>
      have length : Socket.read 2 between = (some received, (Socket.read 2 between).2) :=
        Prod.ext read rfl
      rw [read] at rest
      simp only [] at rest
      obtain ⟨block, _, less, asked, rest⟩ := runOver_bind_ran rest
      obtain ⟨_, _, given, same⟩ := runOver_lift_ran asked
      cases same
      obtain ⟨⟨nbytes, buffer⟩, last, least, body, rest⟩ := runOver_bind_ran rest
      -- A body as long as announced was unpacked, and another one given up.
      by_cases differs : nbytes = ntohsOver received garbage.num
      · rw [differs] at body
        simp only [differs, ne_eq, not_true_eq_false, if_false] at rest
        obtain ⟨input, _, least', handed, rest⟩ := runOver_bind_ran rest
        obtain ⟨_, _, handed, same⟩ := runOver_lift_ran handed
        cases same
        cases unknown : codec.unpack input with
        | none =>
          exact .undecodable between _ last _ _ least _ garbage received input block buffer sent
            length given body handed unknown
        | some response =>
          rw [unknown] at rest
          -- A message that could be unpacked is returned.
          cases rest
      · exact .short between _ last _ _ least garbage received block nbytes buffer sent length given
          body differs

/--
No call of the stub survives an exchange that fails, and no server an attempt that does.

The parts are about a call, about the attempts that are left, and about the handling of an update.
-/
theorem failing_exchange_crashes (codec : Codec) :
    (∀ (call : StubCall) (socket : Socket) (mem : Mem),
      Failure codec call.request socket (mem.drop call.allocations) →
      ¬ ReturnsError codec call socket mem) ∧
    (∀ (forward : Forward) (call : StubCall) (retriesLeft : Nat) (socket : Socket) (mem : Mem),
      forwardCall forward = some call → 0 < retriesLeft →
      Failure codec call.request socket (mem.drop call.allocations) →
      ¬ RetriesEnd codec forward retriesLeft socket mem) ∧
    ∀ (msg : MessageT) (server : Server) (after : Table) (forward : Forward) (call : StubCall)
        (socket : Socket) (mem mem' : Mem),
      msg.opcode = opPut ∨ msg.opcode = opDel →
      updateLocally msg server.table mem = .ok ((some forward, after), mem') →
      forwardCall forward = some call →
      Failure codec call.request socket (mem'.drop call.allocations) →
      ¬ InvokeEnds codec msg server socket mem := by
  -- In each part some contents of the variables make the response NULL.
  refine ⟨?_, ?_, ?_⟩
  · intro call socket mem failure returns
    obtain ⟨garbage, _, _, missing⟩ := failure.missing
    obtain ⟨_, _, _, _, ran⟩ := returns garbage
    rw [callStub_missing missing] at ran
    cases ran
  · intro forward call retriesLeft socket mem passed someLeft failure ends
    obtain ⟨garbage, _, _, missing⟩ := failure.missing
    obtain ⟨_, ran⟩ := ends garbage
    rw [retryLoop_error someLeft (rtableSuccessor_missing passed missing)] at ran
    cases ran
  · intro msg server after forward call socket mem mem' isUpdate applied passed failure ends
    obtain ⟨garbage, _, _, missing⟩ := failure.missing
    obtain ⟨_, ran⟩ := ends garbage
    -- The first attempt already crashes.
    have crashed : retryLoop (rtableSuccessor (networkSendReceive codec garbage) forward) maxRetries
        socket mem' = .error .nullDereference :=
      retryLoop_error (by decide) (rtableSuccessor_missing passed missing)
    rw [invoke_error isUpdate applied (runOver_bind_error crashed)] at ran
    cases ran

/-- The size asked of a peer that closed the connection, and a put passed on to such a peer. -/
theorem closed_peer_crashes :
    let codec : Codec := ⟨messagePack, fun _ => none⟩
    let put : Update := .put ⟨[97], by decide⟩ ⟨[1], by decide⟩
    let server : Server := ⟨⟨0, 1, [⟨0, []⟩], rfl⟩, ⟨0, 0, 0⟩, []⟩
    Failure codec StubCall.size.request {} [] ∧ ¬ ReturnsError codec .size {} [] ∧
      Failure codec put.request {} [] ∧ ¬ InvokeEnds codec put.request server {} [] := by
  intro codec put server
  -- In the variable for the length there happens to be a one.
  let garbage : Garbage := ⟨false, 0, 1⟩
  let askedSize : Socket := { written := [0, 4, 8, 40, 16, 80] }
  let askedPut : Socket := { written := [0, 12, 8, 10, 16, 10, 26, 6, 10, 1, 97, 18, 1, 1] }
  have failureSize : Failure codec StubCall.size.request {} [] :=
    .closed askedSize [] (by decide +kernel) (by decide +kernel)
  have missingSize : networkSendReceive codec garbage StubCall.size.request {} [] =
      .ok ((none, askedSize.close), []) := by decide +kernel
  have failurePut : Failure codec put.request {} [] :=
    .closed askedPut [] (by decide +kernel) (by decide +kernel)
  have missingPut : networkSendReceive codec garbage put.request {} [] =
      .ok ((none, askedPut.close), []) := by decide +kernel
  refine ⟨failureSize, fun returns => ?_, failurePut, fun ends => ?_⟩
  · obtain ⟨_, _, _, _, ran⟩ := returns garbage
    have crashed : callStub (networkSendReceive codec garbage) .size {} [] =
        .error .nullDereference := callStub_missing missingSize
    rw [crashed] at ran
    cases ran
  · obtain ⟨_, ran⟩ := ends garbage
    have holds : server.table.Holds ∅ := ⟨1, .empty _ 1, rfl, Buckets.lookup_empty⟩
    have inside : server.table.Inside put.key := by decide
    obtain ⟨after, -, -, applied⟩ := updateLocally_request holds inside
    have attempt : rtableSuccessor (networkSendReceive codec garbage) put.forward {} [] =
        .error .nullDereference := rtableSuccessor_missing rfl missingPut
    have crashed : sendDown (some (rtableSuccessor (networkSendReceive codec garbage)))
        put.forward {} [] = .error .nullDereference :=
      runOver_bind_error (retryLoop_error (by decide) attempt)
    rw [invoke_error put.request_opcode applied crashed] at ran
    cases ran

/-- What follows for the size, for the last attempt to pass a put on, and for the whole put. -/
theorem failing_exchange_crashes_closed_peer :
    let codec : Codec := ⟨messagePack, fun _ => none⟩
    let put : Update := .put ⟨[97], by decide⟩ ⟨[1], by decide⟩
    let server : Server := ⟨⟨0, 1, [⟨0, []⟩], rfl⟩, ⟨0, 0, 0⟩, []⟩
    ¬ ReturnsError codec .size {} [] ∧ ¬ RetriesEnd codec put.forward 1 {} [] ∧
      ¬ InvokeEnds codec put.request server {} [] := by
  -- The requests are written, and the peer answers with the end of its stream.
  intro codec put server
  have failureSize : Failure codec StubCall.size.request {} [] :=
    .closed { written := [0, 4, 8, 40, 16, 80] } [] (by decide +kernel) (by decide +kernel)
  have failurePut : Failure codec put.request {} [] :=
    .closed { written := [0, 12, 8, 10, 16, 10, 26, 6, 10, 1, 97, 18, 1, 1] } []
      (by decide +kernel) (by decide +kernel)
  have holds : server.table.Holds ∅ := ⟨1, .empty _ 1, rfl, Buckets.lookup_empty⟩
  have inside : server.table.Inside put.key := by decide
  obtain ⟨after, -, -, applied⟩ := updateLocally_request holds inside
  obtain ⟨calls, attempts, updates⟩ := failing_exchange_crashes codec
  exact ⟨calls .size {} [] failureSize, attempts put.forward _ 1 {} [] rfl (by decide) failurePut,
    updates put.request server after put.forward _ {} [] []
      put.request_opcode applied rfl failurePut⟩

end ChainTable
