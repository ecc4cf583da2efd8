import ChainTable.Wire.Sending
import ChainTable.Wire.Sizes
import ChainTable.Wire.Unpacking

/-! Calls over a connection: the bytes of a request one way, and those of its reply the other. -/

namespace ChainTable

variable {σ : Type}

/-- What a server does with a message that it received: the message that it sends back. -/
abbrev Handler (σ : Type) := MessageT → StateT σ C MessageT

/-- The two ends of a connection. -/
structure Connection where
  client : Socket := {}
  server : Socket := {}
  deriving DecidableEq, Repr

/-- What was written at one end is there to be read at the other one. -/
def Socket.deliver (sender receiver : Socket) : Socket × Socket :=
  ({ sender with written := [] }, { receiver with incoming := receiver.incoming ++ sender.written })

/-- A round of the loop in `client_handler`; NULL closes the socket, as the server is running. -/
def handlerRound (codec : Codec) (garbage : Garbage) (handle : Handler σ) (socket : Socket)
    (state : σ) : C (Socket × σ) := do
  match ← networkReceive codec garbage socket with
  | (none, socket) => return (socket.close, state)
  | (some msg, socket) =>
    let (reply, state) ← handle msg state
    let (_, socket) ← networkSend codec reply socket
    return (socket, state)

/-- `network_send_receive`, with the thread that serves the connection at its other end. -/
def callOver (codec : Codec) (garbage : Garbage) (handle : Handler σ) :
    SendReceive (Connection × σ) := fun msg (connection, state) => do
  let (sent, client) ← sendRequest codec msg connection.client
  if !sent then return (none, ({ connection with client := client }, state))
  let (client, server) := client.deliver connection.server
  let (server, state) ← handlerRound codec garbage handle server state
  let (server, client) := server.deliver client
  let (response, client) ← receiveResponse codec garbage client
  return (response, (⟨client, server⟩, state))

/--
Nothing is under way at an end of a connection, and no call on it will fail.

A body may take several writes, a length takes one, and every read gets all that it asks for.
-/
structure Socket.Idle (socket : Socket) : Prop where
  opened : socket.isOpen = true
  delivered : socket.written = []
  drained : socket.incoming = []
  writes : ∀ outcome ∈ socket.writes, ∃ count, outcome = .moved count ∧ 2 ≤ count
  reads : ∀ outcome ∈ socket.reads, ∃ count, outcome = .moved count ∧ maxFrame ≤ count

/-- Nothing is under way on a connection. -/
structure Connection.Idle (connection : Connection) : Prop where
  client : connection.client.Idle
  server : connection.server.Idle

/-- A message whose numbers are in range, and whose packed size is positive and fits a frame. -/
structure MessageT.Sendable (msg : MessageT) : Prop where
  inRange : msg.InRange
  nonempty : 1 ≤ packedSize msg
  fits : packedSize msg ≤ maxFrame

variable {codec : Codec} {msg reply : MessageT} {socket : Socket}

/-- The loop of `write_all` leaves what is behind the outcomes that it used. -/
theorem writeLoop_left (outcomes : List Transfer) (bytes : List UInt8) :
    (writeLoop outcomes bytes).2.2 <:+ outcomes := by
  -- Every round uses up one outcome at most, and the last one may leave all of them.
  induction outcomes generalizing bytes with
  | nil => exact List.suffix_refl _
  | cons outcome outcomes ih =>
    unfold writeLoop
    split
    · exact List.suffix_refl _
    · split
      · exact (ih _).trans (List.suffix_cons _ _)
      · exact (ih _).trans (List.suffix_cons _ _)
      · exact List.suffix_cons _ _

/-- `write_all` leaves what is behind the outcomes that it used. -/
theorem writeAll_left {buffer : List UInt8} {size result : Int} {after : Socket} {mem mem' : Mem}
    (ran : writeAll buffer size socket mem = .ok ((result, after), mem')) :
    after.writes <:+ socket.writes := by
  -- Only the loop looks at the script.
  unfold writeAll at ran
  split at ran
  · cases ran
  · change (get >>= _ : StateT Socket C Int) socket mem = _ at ran
    have here : (get : StateT Socket C Socket) socket mem = .ok ((socket, socket), mem) := rfl
    rw [runOver_bind here] at ran
    split at ran
    · cases ran
      exact List.suffix_refl _
    · cases ran
      exact writeLoop_left _ _

/-- A script whose writes move something and never fail lets all bytes through. -/
theorem Socket.Idle.accepts (idle : socket.Idle) : socket.AcceptsAll where
  opened := idle.opened
  unbroken member := by
    obtain ⟨count, moved, -⟩ := idle.writes _ member
    cases moved
  first outcome head := idle.writes outcome (List.mem_of_mem_head? head)

/-- A read of at most a frame gets all that it asks for. -/
theorem filled_of_reads {reads : List Transfer} {asked : Nat}
    (whole : ∀ outcome ∈ reads, ∃ count, outcome = .moved count ∧ maxFrame ≤ count)
    (fits : asked ≤ maxFrame) : Filled asked reads := by
  -- The next read moves at least as much as a whole frame has.
  intro outcome head
  obtain ⟨count, rfl, large⟩ := whole outcome (List.mem_of_mem_head? head)
  change asked ≤ max count 1
  omega

/-- The bytes of a message with their number in front. -/
def frameOf (codec : Codec) (msg : MessageT) : List UInt8 :=
  htons (codec.pack msg).length ++ codec.pack msg

/-- A request that fits a frame is written as that frame. -/
theorem sendRequest_fits (fits : (codec.pack msg).length ≤ maxFrame)
    (accepts : socket.AcceptsAll) :
    ∃ left, left <:+ socket.writes ∧ sendRequest codec msg socket [] =
      .ok ((true, { socket with
        written := socket.written ++ frameOf codec msg, writes := left }), []) := by
  have small : (codec.pack msg).length ≤ 32767 := fits
  have size : int32 (codec.pack msg).length = (codec.pack msg).length :=
    int32_of_bounds (by omega) (by omega)
  obtain ⟨left, wrote⟩ := writeAll_afterLength accepts (codec.pack msg).length
    (le_refl ((codec.pack msg).length : Int)) []
  rw [Int.toNat_natCast, List.take_length, List.append_assoc] at wrote
  refine ⟨left, (writeAll_left wrote).trans (List.tail_suffix _), ?_⟩
  -- The block is given and holds the message, whose length and bytes are written.
  unfold sendRequest
  rw [size, runOver_bind (runOver_lift (mallocSize_given (Int.natCast_nonneg _)))]
  change (liftM (packInto codec msg _) >>= _ : StateT Socket C Bool) _ _ = _
  rw [runOver_bind (runOver_lift (packInto_fits (le_refl _) [])), int16_of_le small,
    runOver_bind (runOver_modifyGet (accepts.write _) [])]
  change (writeAll _ _ >>= _ : StateT Socket C Bool) (socket.afterLength _) _ = _
  rw [runOver_bind wrote, if_neg (by simp)]
  rfl

/-- A reply that fits a frame is written as that frame. -/
theorem networkSend_fits (fits : (codec.pack msg).length ≤ maxFrame)
    (accepts : socket.AcceptsAll) :
    ∃ (result : Int) (left : List Transfer), left <:+ socket.writes ∧
      networkSend codec msg socket [] = .ok ((result, { socket with
        written := socket.written ++ frameOf codec msg, writes := left }), []) := by
  have small : (codec.pack msg).length ≤ 32767 := fits
  obtain ⟨left, wrote⟩ := writeAll_afterLength accepts (codec.pack msg).length
    (le_refl ((codec.pack msg).length : Int)) []
  rw [Int.toNat_natCast, List.take_length, List.append_assoc] at wrote
  refine ⟨(codec.pack msg).length, left, (writeAll_left wrote).trans (List.tail_suffix _), ?_⟩
  -- The length is written first, and then the bytes from the block that is given.
  rw [networkSend_accepts accepts, int16_of_le small]
  unfold sendBody
  rw [runOver_bind (runOver_lift (mallocSize_given (Int.natCast_nonneg _)))]
  change (liftM (packInto codec msg _) >>= _ : StateT Socket C Int) _ _ = _
  rw [runOver_bind (runOver_lift (packInto_fits (le_refl _) [])), runOver_bind wrote,
    if_neg (by simp)]
  rfl

section Frames

variable (garbage : Garbage) (fits : (codec.pack msg).length ≤ maxFrame) (idle : socket.Idle)

include fits idle

/-- The reads of a frame get all that they ask for. -/
theorem Socket.Idle.filled :
    Filled 2 socket.reads ∧ Filled (codec.pack msg).length socket.reads.tail :=
  ⟨filled_of_reads idle.reads (by decide), filled_of_reads
    (fun outcome member => idle.reads outcome (List.mem_of_mem_tail member)) fits⟩

/-- A frame that is there to be read is received as what is unpacked from it. -/
theorem networkReceive_frame (nonempty : 1 ≤ (codec.pack msg).length) :
    networkReceive codec garbage
        { socket with incoming := socket.incoming ++ frameOf codec msg } [] =
      .ok ((codec.unpack (codec.pack msg),
        { socket with incoming := [], reads := socket.reads.tail.tail }), []) := by
  -- As many bytes are handed over as the length in front says, which are all of them.
  have handed := receiveBody_length garbage
    { socket with incoming := socket.incoming ++ frameOf codec msg } idle.opened nonempty fits
    (by rw [idle.drained]; rfl) (le_refl _) (idle.filled fits).1 (idle.filled fits).2
  rw [List.take_length, List.drop_length] at handed
  unfold networkReceive
  rw [runOver_bind handed]
  rfl

/-- A frame that is there to be read is taken for a response, in the same way. -/
theorem receiveResponse_frame :
    receiveResponse codec garbage
        { socket with incoming := socket.incoming ++ frameOf codec msg } [] =
      .ok ((codec.unpack (codec.pack msg),
        { socket with incoming := [], reads := socket.reads.tail.tail }), []) := by
  -- The two bytes in front are read as the number of bytes behind them.
  obtain ⟨high, low, bytes, decoded⟩ := ntohs_htons (codec.pack msg).length
  rw [int16_of_le fits] at decoded
  have taken := receiveResponse_filled codec garbage decoded
    { socket with incoming := socket.incoming ++ frameOf codec msg } idle.opened
    (by rw [idle.drained, frameOf, bytes]; rfl) (le_refl _)
    (idle.filled fits).1 (idle.filled fits).2
  rwa [List.take_length, List.drop_length] at taken

end Frames

/-- An end of a connection stays idle while its scripts are used up. -/
theorem Socket.Idle.later (idle : socket.Idle) {writes reads : List Transfer}
    (writesLeft : writes <:+ socket.writes) (readsLeft : reads <:+ socket.reads) :
    Socket.Idle { socket with
      written := [], writes := writes, incoming := [], reads := reads } where
  opened := idle.opened
  delivered := rfl
  drained := rfl
  writes outcome member := idle.writes outcome (writesLeft.subset member)
  reads outcome member := idle.reads outcome (readsLeft.subset member)

/-- A message that is sendable is unpacked from what was packed. -/
theorem Codec.Faithful.unpack_pack (faithful : codec.Faithful) (sendable : msg.Sendable) :
    codec.unpack (codec.pack msg) = some msg.unpacked := by
  -- A message that fits a frame has a length that the decoder can take.
  have fits : packedSize msg ≤ 32767 := sendable.fits
  unfold packedSize at fits
  rw [faithful.pack]
  exact faithful.unpack msg sendable.inRange (by omega)

/-- The packed size of a message is the number of its bytes. -/
theorem Codec.Faithful.length_pack (faithful : codec.Faithful) (msg : MessageT) :
    (codec.pack msg).length = packedSize msg := by
  -- The bytes are those of the known encoding.
  rw [faithful.pack]
  rfl

/--
A call over an idle connection gets the reply to what the server received, as it is unpacked.

The connection is idle again, and the server is where its handler left it.
-/
theorem callOver_answered (faithful : codec.Faithful) (garbage : Garbage) {handle : Handler σ}
    {state state' : σ} {connection : Connection} (idle : connection.Idle)
    (sendable : msg.Sendable) (replySendable : reply.Sendable)
    (handled : handle msg.unpacked state [] = .ok ((reply, state'), [])) :
    ∃ after : Connection, after.Idle ∧ callOver codec garbage handle msg (connection, state) [] =
      .ok ((some reply.unpacked, (after, state')), []) := by
  have size := faithful.length_pack msg
  have fits : (codec.pack msg).length ≤ maxFrame := size ▸ sendable.fits
  have replyFits : (codec.pack reply).length ≤ maxFrame :=
    faithful.length_pack reply ▸ replySendable.fits
  -- The request is written at one end, and received at the other one.
  obtain ⟨requestLeft, requestSuffix, requested⟩ := sendRequest_fits fits idle.client.accepts
  let server : Socket := { connection.server with
    incoming := [], reads := connection.server.reads.tail.tail }
  have received := networkReceive_frame garbage fits idle.server (size ▸ sendable.nonempty)
  have serverIdle : server.Idle :=
    ⟨idle.server.opened, idle.server.delivered, rfl, idle.server.writes, fun outcome member =>
      idle.server.reads outcome (List.mem_of_mem_tail (List.mem_of_mem_tail member))⟩
  -- The reply takes the same way back.
  obtain ⟨result, replyLeft, replySuffix, replied⟩ := networkSend_fits replyFits serverIdle.accepts
  let client : Socket := { connection.client with written := [], writes := requestLeft }
  have clientIdle : client.Idle :=
    ⟨idle.client.opened, rfl, idle.client.drained, fun outcome member =>
      idle.client.writes outcome (requestSuffix.subset member), idle.client.reads⟩
  have answered := receiveResponse_frame garbage replyFits clientIdle
  have round : handlerRound codec garbage handle
      { connection.server with
        incoming := connection.server.incoming ++ (connection.client.written ++ frameOf codec msg) }
      state [] =
      .ok (({ server with written := server.written ++ frameOf codec reply, writes := replyLeft },
        state'), []) := by
    unfold handlerRound
    rw [idle.client.delivered, List.nil_append, run_bind received,
      faithful.unpack_pack sendable]
    simp only []
    rw [run_bind handled]
    simp only []
    rw [run_bind replied]
    rfl
  refine ⟨⟨{ client with incoming := [], reads := client.reads.tail.tail },
    { server with written := [], writes := replyLeft }⟩, ⟨?_, ?_⟩, ?_⟩
  · exact clientIdle.later (List.suffix_refl _)
      ((List.tail_suffix _).trans (List.tail_suffix _))
  · exact serverIdle.later replySuffix (List.suffix_refl _)
  · unfold callOver
    simp only []
    rw [run_bind requested]
    simp only [Bool.not_true, Bool.false_eq_true, if_false, Socket.deliver]
    rw [run_bind round]
    simp only []
    rw [show server.written = [] from idle.server.delivered, List.nil_append]
    rw [run_bind answered, faithful.unpack_pack replySendable]
    rfl

end ChainTable
