import ChainTable.Wire.Receiving

/-! A message reaches the stream whole exactly when a `short` can hold its packed size. -/

namespace ChainTable

/-- What a call put on a stream is the packed size in two bytes, followed by the packed bytes. -/
def Intact (codec : Codec) (msg : MessageT) (before after : Socket) : Prop :=
  ∃ high low, after.written = before.written ++ high :: low :: codec.pack msg ∧
    ntohs high low = (codec.pack msg).length

/-- A reply is reported as not sent or put on the stream whole, without undefined behaviour. -/
def SendsReply (codec : Codec) (msg : MessageT) : Prop :=
  ∀ (mem : Mem) (socket : Socket), socket.AcceptsAll →
    ∃ result after mem', networkSend codec msg socket mem = .ok ((result, after), mem') ∧
      (result = -1 ∨ Intact codec msg socket after)

/--
A request is sent without undefined behaviour, and on the stream whole unless NULL is returned.

What happens once the request was sent is up to the peer, whose bytes are arbitrary.
-/
def SendsRequest (codec : Codec) (msg : MessageT) : Prop :=
  ∀ (garbage : Garbage) (mem : Mem) (socket : Socket), socket.AcceptsAll →
    (∀ fault, sendRequest codec msg socket mem ≠ .error fault) ∧
    ∀ response after mem',
      networkSendReceive codec garbage msg socket mem = .ok ((some response, after), mem') →
        Intact codec msg socket after

section Stream

variable {codec : Codec} {msg : MessageT} {socket : Socket}

/-- The socket after the length of a message was written. -/
def Socket.afterLength (socket : Socket) (value : Int) : Socket :=
  { socket with written := socket.written ++ htons value, writes := socket.writes.tail }

/-- A length and a whole body written after it are the message. -/
theorem intact_of_written (small : (codec.pack msg).length ≤ 32767) {after : Socket}
    (written : after.written =
      socket.written ++ htons (codec.pack msg).length ++ codec.pack msg) :
    Intact codec msg socket after := by
  -- The two bytes of a size that fits are read back as that size.
  obtain ⟨high, low, bytes, decoded⟩ := ntohs_htons (codec.pack msg).length
  refine ⟨high, low, ?_, decoded.trans (int16_of_le small)⟩
  rw [written, bytes, List.append_assoc]
  rfl

/-- On a stream that accepts all bytes, a reply gets past its length. -/
theorem networkSend_accepts (accepts : socket.AcceptsAll) (mem : Mem) :
    networkSend codec msg socket mem =
      sendBody codec msg (int16 (codec.pack msg).length)
        (socket.afterLength (int16 (codec.pack msg).length)) mem := by
  -- The length takes one write, which moves both of its bytes.
  unfold networkSend
  rw [runOver_bind (runOver_modifyGet (accepts.write _) mem)]
  rfl

/-- On a stream that accepts all bytes, so much of a buffer is written behind a length. -/
theorem writeAll_afterLength (accepts : socket.AcceptsAll) (value : Int) {buffer : List UInt8}
    {size : Int} (fits : size ≤ buffer.length) (mem : Mem) :
    ∃ left, writeAll buffer size (socket.afterLength value) mem =
      .ok ((size, { socket with
        written := socket.written ++ htons value ++ buffer.take size.toNat
        writes := left }), mem) :=
  writeAll_completes (socket.afterLength value) accepts.opened accepts.tail fits mem

/-- A reply whose size fits is sent whole, unless there is no memory to pack it. -/
theorem sendsReply_small (small : (codec.pack msg).length ≤ 32767) : SendsReply codec msg := by
  -- The block is given or not, and without it -1 is returned.
  intro mem socket accepts
  rw [networkSend_accepts accepts, int16_of_le small]
  unfold sendBody
  obtain ⟨given, mem', allocated⟩ := mallocSize_ran (Int.natCast_nonneg (codec.pack msg).length) mem
  rw [runOver_bind (runOver_lift allocated)]
  cases given with
  | false => exact ⟨-1, _, _, rfl, .inl rfl⟩
  | true =>
    -- The block is as large as the message, and all of it is written.
    have size := le_refl ((codec.pack msg).length : Int)
    obtain ⟨left, wrote⟩ := writeAll_afterLength accepts (codec.pack msg).length size mem'
    rw [Int.toNat_natCast, List.take_length] at wrote
    refine ⟨(codec.pack msg).length, { socket with
      written := socket.written ++ htons (codec.pack msg).length ++ codec.pack msg
      writes := left }, mem', ?_, .inr (intact_of_written small rfl)⟩
    change (liftM (packInto codec msg _) >>= _ : StateT Socket C Int) _ _ = _
    rw [runOver_bind (runOver_lift (packInto_fits size mem')), runOver_bind wrote,
      if_neg (by simp)]
    rfl

/-- A reply whose size wraps to a negative one is reported as not sent. -/
theorem sendsReply_negative (negative : int16 (codec.pack msg).length < 0) :
    SendsReply codec msg := by
  -- No block of a negative size is given, so -1 is returned.
  intro mem socket accepts
  rw [networkSend_accepts accepts]
  unfold sendBody
  rw [runOver_bind (runOver_lift (mallocSize_negative negative mem))]
  exact ⟨-1, _, _, rfl, .inl rfl⟩

/-- A reply whose size wraps to another one overruns the block it is packed into. -/
theorem networkSend_overruns (valid : 0 ≤ int16 (codec.pack msg).length)
    (large : 32767 < (codec.pack msg).length) (accepts : socket.AcceptsAll) :
    networkSend codec msg socket [] = .error .outOfBounds := by
  -- The block is given, and is smaller than the message packed into it.
  rw [networkSend_accepts accepts]
  unfold sendBody
  rw [runOver_bind (runOver_lift (mallocSize_given valid))]
  have overrun := packInto_overruns codec msg (int16_lt large) []
  exact runOver_bind_error (runOver_lift_error overrun)

/-- A reply is sent right exactly if its size fits in a `short`, or wraps to a negative one. -/
theorem sendsReply_iff :
    SendsReply codec msg ↔ (codec.pack msg).length ≤ 32767 ∨ int16 (codec.pack msg).length < 0 := by
  -- A size that neither fits nor wraps to a negative one overruns its block.
  constructor
  · intro sends
    by_contra neither
    obtain ⟨large, valid⟩ := not_or.mp neither
    -- The script with no entries accepts all bytes.
    have accepts : (⟨true, [], [], [], []⟩ : Socket).AcceptsAll := ⟨rfl, by simp, by simp⟩
    obtain ⟨result, after, mem, ran, -⟩ := sends [] _ accepts
    rw [networkSend_overruns (by omega) (by omega) accepts] at ran
    cases ran
  · rintro (small | negative)
    · exact sendsReply_small small
    · exact sendsReply_negative negative

/-- A request of a size that an `int` holds is sent behind its wrapped length, given memory. -/
theorem sendRequest_int (accepts : socket.AcceptsAll)
    (size : int32 (codec.pack msg).length = (codec.pack msg).length) (mem : Mem) :
    ∃ given mem' left, mallocSize (codec.pack msg).length mem = .ok (given, mem') ∧
      sendRequest codec msg socket mem = .ok ((given,
        if given then { socket with
          written := socket.written ++ htons (int16 (codec.pack msg).length) ++
            (codec.pack msg).take (int16 (codec.pack msg).length).toNat
          writes := left } else socket), mem') := by
  -- The block is given or not, and without it nothing is written.
  obtain ⟨given, mem', allocated⟩ := mallocSize_ran (Int.natCast_nonneg (codec.pack msg).length) mem
  have value : int16 (codec.pack msg).length ≤ (codec.pack msg).length := int16_le _
  obtain ⟨left, wrote⟩ := writeAll_afterLength accepts (int16 (codec.pack msg).length) value mem'
  refine ⟨given, mem', left, allocated, ?_⟩
  unfold sendRequest
  rw [size, runOver_bind (runOver_lift allocated)]
  cases given with
  | false => rfl
  | true =>
    -- The block holds the message, and its wrapped length is what is written of it.
    change (liftM (packInto codec msg _) >>= _ : StateT Socket C Bool) _ _ = _
    rw [runOver_bind (runOver_lift (packInto_fits (le_refl _) mem')),
      runOver_bind (runOver_modifyGet (accepts.write _) mem')]
    change (writeAll _ _ >>= _ : StateT Socket C Bool) (socket.afterLength _) _ = _
    rw [runOver_bind wrote, if_neg (by simp)]
    rfl

/-- A request of a size that wraps to a negative `int` is not sent. -/
theorem sendRequest_negative (socket : Socket) (negative : int32 (codec.pack msg).length < 0)
    (mem : Mem) :
    sendRequest codec msg socket mem = .ok ((false, socket), mem) := by
  -- No block of a negative size is given, so nothing is written.
  unfold sendRequest
  rw [runOver_bind (runOver_lift (mallocSize_negative negative mem))]
  rfl

/-- A request of a size that wraps to another `int` overruns the block it is packed into. -/
theorem sendRequest_overruns (valid : 0 ≤ int32 (codec.pack msg).length)
    (large : int32 (codec.pack msg).length < (codec.pack msg).length) :
    sendRequest codec msg socket [] = .error .outOfBounds := by
  -- The block is given, and is smaller than the message packed into it.
  unfold sendRequest
  rw [runOver_bind (runOver_lift (mallocSize_given valid))]
  have overrun := packInto_overruns codec msg large []
  exact runOver_bind_error (runOver_lift_error overrun)

end Stream

/-- Code that reads from a stream leaves alone what was written to it. -/
def KeepsWritten {α : Type} (run : StateT Socket C α) : Prop :=
  ∀ socket mem value after mem', run socket mem = .ok ((value, after), mem') →
    after.written = socket.written

namespace KeepsWritten

variable {α β : Type}

/-- A value writes nothing. -/
theorem pure (value : α) : KeepsWritten (Pure.pure value) := by
  intro socket mem value' after mem' ran
  cases ran
  rfl

/-- Code that knows nothing of the stream writes nothing. -/
theorem lift (run : C α) : KeepsWritten (liftM run : StateT Socket C α) := by
  -- The stream is passed on as it was.
  intro socket mem value after mem' ran
  cases alone : run mem with
  | error fault =>
    rw [runOver_lift_error alone] at ran
    cases ran
  | ok result =>
    rw [runOver_lift alone] at ran
    cases ran
    rfl

/-- A sequence writes nothing if its parts do not. -/
theorem bind {first : StateT Socket C α} {next : α → StateT Socket C β}
    (head : KeepsWritten first) (rest : ∀ value, KeepsWritten (next value)) :
    KeepsWritten (first >>= next) := by
  -- The first part writes nothing, and neither does the second one behind it.
  intro socket mem value after mem' ran
  cases began : first socket mem with
  | error fault =>
    rw [runOver_bind_error began] at ran
    cases ran
  | ok result =>
    obtain ⟨⟨given, between⟩, mem''⟩ := result
    rw [runOver_bind began] at ran
    exact (rest given between mem'' value after mem' ran).trans
      (head socket mem given between mem'' began)

/-- A function of the socket that leaves alone what was written writes nothing. -/
theorem modifyGet {change : Socket → α × Socket}
    (kept : ∀ socket, (change socket).2.written = socket.written) :
    KeepsWritten (MonadState.modifyGet change : StateT Socket C α) := by
  -- The function is the whole run.
  intro socket mem value after mem' ran
  have same := kept socket
  cases changed : change socket with
  | mk given next =>
    rw [runOver_modifyGet changed] at ran
    cases ran
    rwa [changed] at same

/-- A read writes nothing. -/
theorem read (asked : Nat) :
    KeepsWritten (MonadState.modifyGet (Socket.read asked) : StateT Socket C _) := by
  apply modifyGet
  intro socket
  -- Whatever becomes of the read, only the stream to be read from changes.
  unfold Socket.read
  split
  · split <;> rfl
  · rfl

/-- `close` writes nothing. -/
theorem close : KeepsWritten (modify Socket.close : StateT Socket C PUnit) :=
  modifyGet fun _ => rfl

/-- `read_all` writes nothing. -/
theorem readAll (block : Bool) (size : Int) (fullBuffer : Bool) :
    KeepsWritten (ChainTable.readAll block size fullBuffer) := by
  -- Only the stream to be read from changes, and its script.
  intro socket mem value after mem' ran
  have here : (get : StateT Socket C Socket) socket mem = .ok ((socket, socket), mem) := rfl
  unfold ChainTable.readAll at ran
  rw [runOver_bind here] at ran
  split at ran
  · cases ran
    rfl
  · cases loop : readLoop size.toNat fullBuffer socket.incoming socket.reads mem with
    | error fault =>
      rw [runOver_bind_error (runOver_lift_error loop)] at ran
      cases ran
    | ok result =>
      rw [runOver_bind (runOver_lift loop)] at ran
      cases ran
      rfl

/-- Waiting for a response writes nothing. -/
theorem receiveResponse (codec : Codec) (garbage : Garbage) :
    KeepsWritten (ChainTable.receiveResponse codec garbage) := by
  -- The response is read by two calls, and the connection may be closed after each.
  refine bind (read 2) fun answer => ?_
  cases answer with
  | none => exact bind close fun _ => pure none
  | some received =>
    refine bind (lift _) fun block => bind (readAll block _ _) ?_
    rintro ⟨size, buffer⟩
    dsimp only
    split
    · exact bind close fun _ => pure none
    · exact bind (lift _) fun _ => pure _

end KeepsWritten

section Stream

variable {codec : Codec} {msg : MessageT}

/-- A request whose size fits is sent whole, unless NULL is returned. -/
theorem sendsRequest_small (small : (codec.pack msg).length ≤ 32767) : SendsRequest codec msg := by
  -- The request is on the stream, or there was no memory for it.
  intro garbage mem socket accepts
  have size : int32 (codec.pack msg).length = (codec.pack msg).length :=
    int32_of_bounds (by omega) (by omega)
  obtain ⟨given, mem', left, -, sent⟩ := sendRequest_int accepts size mem
  refine ⟨fun fault faulted => (by rw [sent] at faulted; cases faulted), ?_⟩
  intro response after mem'' ran
  unfold networkSendReceive at ran
  rw [runOver_bind sent] at ran
  cases given with
  | false => cases ran
  | true =>
    -- The response changes nothing of what the request has put on the stream.
    have kept := KeepsWritten.receiveResponse codec garbage _ _ _ _ _ ran
    refine intact_of_written small (kept.trans ?_)
    rw [if_pos rfl, int16_of_le small, Int.toNat_natCast, List.take_length]

/-- A request of a size that wraps to a negative `int` ends with NULL. -/
theorem sendsRequest_negative (negative : int32 (codec.pack msg).length < 0) :
    SendsRequest codec msg := by
  -- Without a block the call returns before it writes anything.
  intro garbage mem socket _
  have stopped := sendRequest_negative socket negative mem
  refine ⟨fun fault faulted => (by rw [stopped] at faulted; cases faulted), ?_⟩
  intro response after mem' ran
  unfold networkSendReceive at ran
  rw [runOver_bind stopped] at ran
  cases ran

/-- A length and so many bytes behind it are taken for a response, by reads that get them all. -/
theorem receiveResponse_filled (codec : Codec) (garbage : Garbage) {high low : UInt8} {size : Nat}
    (decoded : ntohs high low = size) (socket : Socket) (opened : socket.isOpen = true)
    {behind : List UInt8} (incoming : socket.incoming = high :: low :: behind)
    (there : size ≤ behind.length) (length : Filled 2 socket.reads)
    (body : Filled size socket.reads.tail) :
    receiveResponse codec garbage socket [] = .ok ((codec.unpack (behind.take size),
      { socket with incoming := behind.drop size, reads := socket.reads.tail.tail }), []) := by
  -- First the two bytes of the length arrive.
  have first := Socket.read_filled opened length (by simp [incoming])
  simp only [incoming, List.take_succ_cons, List.take_zero, List.drop_succ_cons,
    List.drop_zero] at first
  unfold receiveResponse
  rw [runOver_bind (runOver_modifyGet first [])]
  have num : ntohsOver [high, low] garbage.num = size := decoded
  simp only [num]
  -- There is a block unless the body is empty, when none is needed.
  obtain ⟨block, allocated, room⟩ : ∃ block, reallocSize size [] = .ok (block, []) ∧
      (block = true ∨ size = 0) := by
    unfold reallocSize
    by_cases empty : size = 0
    · exact ⟨false, by rw [empty]; rfl, .inr empty⟩
    · exact ⟨true, by rw [if_neg (by omega), mallocSize_given (by omega)], .inl rfl⟩
  rw [runOver_bind (runOver_lift allocated)]
  have rest := readAll_filled { socket with incoming := behind, reads := socket.reads.tail } opened
    room body there garbage.fullBuffer
  rw [runOver_bind rest, if_neg (by simp)]
  have handed : unpackInput size (some (behind.take size)) [] = .ok (behind.take size, []) := by
    unfold unpackInput
    by_cases empty : size = 0
    · rw [empty]
      rfl
    · rw [if_neg (by omega)]
      rfl
  rw [runOver_bind (runOver_lift handed)]
  rfl

/-- Without a script for its reads, a response is taken the same way. -/
theorem receiveResponse_length (codec : Codec) (garbage : Garbage) {high low : UInt8} {size : Nat}
    (decoded : ntohs high low = size) (socket : Socket) (opened : socket.isOpen = true)
    {behind : List UInt8} (incoming : socket.incoming = high :: low :: behind)
    (there : size ≤ behind.length) (reads : socket.reads = []) :
    receiveResponse codec garbage socket [] = .ok ((codec.unpack (behind.take size),
      { socket with incoming := behind.drop size, reads := socket.reads.tail.tail }), []) :=
  receiveResponse_filled codec garbage decoded socket opened incoming there
    (by simp [reads]) (by simp [reads])

/-- A request of a wrapped length and some response to it go against the claim of being intact. -/
theorem sendsRequest_wrapped (size : int32 (codec.pack msg).length = (codec.pack msg).length)
    (large : 32767 < (codec.pack msg).length) (body : List UInt8) (small : body.length ≤ 32767)
    (accepted : (codec.unpack body).isSome) : ¬ SendsRequest codec msg := by
  -- A peer that answers makes the call return a response to a request that is cut.
  intro sends
  obtain ⟨response, unpacked⟩ := Option.isSome_iff_exists.mp accepted
  have accepts : (⟨true, [], [], htons body.length ++ body, []⟩ : Socket).AcceptsAll :=
    ⟨rfl, by simp, by simp⟩
  obtain ⟨given, mem', left, allocated, sent⟩ := sendRequest_int accepts size []
  rw [mallocSize_given (Int.natCast_nonneg _)] at allocated
  cases allocated
  let between : Socket := ⟨true, htons (int16 (codec.pack msg).length) ++
    (codec.pack msg).take (int16 (codec.pack msg).length).toNat, left,
    htons body.length ++ body, []⟩
  change sendRequest codec msg _ [] = .ok ((true, between), []) at sent
  -- The peer answers with the body that is a message.
  obtain ⟨first, second, prefixed, length⟩ := ntohs_htons body.length
  rw [int16_of_le small] at length
  have incoming : between.incoming = first :: second :: body := by
    change htons body.length ++ body = _
    rw [prefixed]
    rfl
  have answered := receiveResponse_length codec ⟨true, 0, 0⟩ length between rfl incoming
    (le_refl body.length) rfl
  rw [List.take_length, unpacked] at answered
  have ran : networkSendReceive codec ⟨true, 0, 0⟩ msg _ [] = _ := runOver_bind sent
  obtain ⟨high, low, written, decoded⟩ :=
    (sends _ _ _ accepts).2 response _ [] (ran.trans answered)
  -- The length that was written is a wrapped one.
  obtain ⟨high', low', bytes, wrapped⟩ := ntohs_htons (int16 (codec.pack msg).length)
  change htons (int16 (codec.pack msg).length) ++ _ = _ at written
  simp only [bytes, List.nil_append, List.cons_append, List.cons.injEq] at written
  rw [← written.1, ← written.2.1, wrapped, int16_int16] at decoded
  exact absurd decoded (int16_lt large).ne

/-- A request is sent right exactly if its size fits in a `short`, or wraps to a negative `int`. -/
theorem sendsRequest_iff {body : List UInt8} (small : body.length ≤ 32767)
    (accepted : (codec.unpack body).isSome) :
    SendsRequest codec msg ↔
      (codec.pack msg).length ≤ 32767 ∨ int32 (codec.pack msg).length < 0 := by
  -- A size that does not fit either wraps on its way into the `short`, or before.
  constructor
  · intro sends
    by_contra neither
    obtain ⟨large, valid⟩ := not_or.mp neither
    by_cases size : int32 (codec.pack msg).length = (codec.pack msg).length
    · exact sendsRequest_wrapped size (by omega) body small accepted sends
    · -- A size that an `int` cannot hold leaves too small a block.
      have accepts : (⟨true, [], [], [], []⟩ : Socket).AcceptsAll := ⟨rfl, by simp, by simp⟩
      have shrunk := int32_natCast_le (codec.pack msg).length
      exact (sends ⟨true, 0, 0⟩ [] _ accepts).1 _
        (sendRequest_overruns (by omega) (lt_of_le_of_ne shrunk size))
  · rintro (fits | negative)
    · exact sendsRequest_small fits
    · exact sendsRequest_negative negative

/-- A message of at least one byte that is intact on a stream is received as it was packed. -/
theorem networkReceive_intact (garbage : Garbage) {before after : Socket}
    (fresh : before.written = []) (intact : Intact codec msg before after)
    (nonempty : 1 ≤ (codec.pack msg).length) :
    ∃ received, networkReceive codec garbage ⟨true, [], [], after.written, []⟩ [] =
      .ok ((codec.unpack (codec.pack msg), received), []) := by
  obtain ⟨high, low, written, decoded⟩ := intact
  -- What decodes to the size is the two bytes of the size.
  have highBound := high.toNat_lt
  have lowBound := low.toNat_lt
  have small : (codec.pack msg).length ≤ 32767 := by
    unfold ntohs int16 at decoded
    omega
  have bytes : [high, low] = htons (codec.pack msg).length := by
    rw [htons_small small]
    unfold ntohs int16 at decoded
    have quotient : (codec.pack msg).length / 256 = high.toNat := by omega
    have remainder : (codec.pack msg).length % 256 = low.toNat := by omega
    rw [quotient, remainder, UInt8.ofNat_toNat, UInt8.ofNat_toNat]
  have incoming : after.written = htons (codec.pack msg).length ++ codec.pack msg := by
    rw [written, fresh, ← bytes]
    rfl
  have handed := receiveBody_length garbage ⟨true, [], [], after.written, []⟩ rfl nonempty small
    incoming (le_refl _) (filled_nil _) (filled_nil _)
  rw [List.take_length] at handed
  unfold networkReceive
  rw [runOver_bind handed]
  exact ⟨_, rfl⟩

/-- A request whose length wraps to a positive one is received as no more than its first bytes. -/
theorem receiveBody_wrapped (garbage : Garbage)
    (size : int32 (codec.pack msg).length = (codec.pack msg).length)
    (positive : 1 ≤ int16 (codec.pack msg).length) :
    ∃ after received, sendRequest codec msg {} [] = .ok ((true, after), []) ∧
      receiveBody garbage ⟨true, [], [], after.written, []⟩ [] =
        .ok ((some ((codec.pack msg).take (int16 (codec.pack msg).length).toNat),
          received), []) := by
  -- The wrapped length is a good one, so the receiver takes so many bytes for the body.
  have accepts : ({} : Socket).AcceptsAll := ⟨rfl, by simp, by simp⟩
  obtain ⟨given, mem', left, allocated, sent⟩ := sendRequest_int accepts size []
  rw [mallocSize_given (Int.natCast_nonneg _)] at allocated
  cases allocated
  have wrapped := int16_le (codec.pack msg).length
  obtain ⟨value, same⟩ := Int.eq_ofNat_of_zero_le (show 0 ≤ int16 (codec.pack msg).length by omega)
  rw [same] at sent wrapped positive ⊢
  have bound : value ≤ 32767 := by
    unfold int16 at same
    omega
  have fits : ((codec.pack msg).take value).length = value := by
    rw [List.length_take]
    omega
  have handed := receiveBody_length garbage
    ⟨true, [], [], htons value ++ (codec.pack msg).take value, []⟩ rfl
    (by omega) bound rfl (le_of_eq fits.symm) (filled_nil _) (filled_nil _)
  rw [List.take_take, min_self] at handed
  exact ⟨_, _, sent, handed⟩

end Stream

/--
A message is sent whole, or an error is reported, exactly if its size does not wrap.

The sizes that wrap to a negative number are the exception, since no memory is given for them.
-/
theorem sent_iff_unwrapped (codec : Codec) (msg : MessageT) (body : List UInt8)
    (small : body.length ≤ 32767) (accepted : (codec.unpack body).isSome) :
    (SendsReply codec msg ↔
      (codec.pack msg).length ≤ 32767 ∨ 2 ^ 15 ≤ (codec.pack msg).length % 2 ^ 16) ∧
    (SendsRequest codec msg ↔
      (codec.pack msg).length ≤ 32767 ∨ 2 ^ 31 ≤ (codec.pack msg).length % 2 ^ 32) := by
  -- A size wraps to a negative number exactly from the middle of the range on.
  have short : int16 (codec.pack msg).length < 0 ↔ 2 ^ 15 ≤ (codec.pack msg).length % 2 ^ 16 := by
    unfold int16
    omega
  have int : int32 (codec.pack msg).length < 0 ↔ 2 ^ 31 ≤ (codec.pack msg).length % 2 ^ 32 := by
    unfold int32
    omega
  rw [← short, ← int]
  exact ⟨sendsReply_iff, sendsRequest_iff small accepted⟩

/-- The encoding of the schema, for a peer that answers with one message. -/
def answering (answer : MessageT) : Codec where
  pack := messagePack
  unpack body := if body = messagePack answer then some answer else none

/-- The binary data of as many zeros. -/
def zeros (count : Nat) : BinaryData := ⟨count, some (List.replicate count 0)⟩

/-- The request to put a value under the key "k". -/
def putUnderK (value : BinaryData) : MessageT :=
  { opcode := opPut, cType := ctEntry
    entry := some { key := some ⟨[107], by decide⟩, value := value } }

/-- The reply that carries a value for the key "k". -/
def gotUnderK (value : BinaryData) : MessageT :=
  { opcode := opGet + 1, cType := ctValue, key := some ⟨[107], by decide⟩, value := value }

/-- As many zeros are packed as the length says. -/
theorem zeros_bytes_length (count : Nat) : (zeros count).bytes.length = count := by
  simp [zeros, BinaryData.bytes]

/-- The entry of a value takes the value, its length, and four bytes more. -/
theorem entryUnderK_length {count : Nat} (long : count ≠ 0) :
    (entryPack { key := some ⟨[107], by decide⟩, value := zeros count }).length =
      (varint count).length + count + 4 := by
  have present : (zeros count).len ≠ 0 := long
  have one : (varint 1).length = 1 := by decide
  rw [entryPack, List.length_append, packField_length, packField_length, packBytes_length,
    packBytes_length, zeros_bytes_length]
  simp [stringBytes, present, one]
  omega

/-- The request that puts a value takes its entry, the length of that, and five bytes more. -/
theorem putUnderK_length {count : Nat} (long : count ≠ 0) (size : Nat)
    (entry : (varint count).length + count + 4 = size) :
    (messagePack (putUnderK (zeros count))).length = (varint size).length + size + 5 := by
  -- The fields that are not set take nothing, and both codes take two bytes.
  have codes : (packInt32 opPut).length = 1 ∧ (packInt32 ctEntry).length = 1 := by decide
  simp only [messagePack, putUnderK, List.length_append, packField_length, packBytes_length,
    Option.map_some, Option.getD_some, entryUnderK_length long, entry, codes]
  simp [stringBytes, packRepeated, emptyString, opPut, ctEntry]
  omega

/-- The reply that carries a value takes the value, its length, and eight bytes more. -/
theorem gotUnderK_length {count : Nat} (long : count ≠ 0) :
    (messagePack (gotUnderK (zeros count))).length = (varint count).length + count + 8 := by
  -- The fields that are not set take nothing, and both codes take two bytes.
  have present : (zeros count).len ≠ 0 := long
  have codes : (packInt32 (opGet + 1)).length = 1 ∧ (packInt32 ctValue).length = 1 := by decide
  have one : (varint 1).length = 1 := by decide
  simp only [messagePack, gotUnderK, List.length_append, packField_length, packBytes_length,
    zeros_bytes_length, codes]
  simp [stringBytes, packRepeated, opGet, ctValue, present, one]
  omega

/-- The reply to a PUT that went through. -/
def putDone : MessageT := { opcode := opPut + 1, cType := ctNone }

/-- The request to put 70000 bytes is received as 4479 bytes, and its value is not sent back. -/
theorem wrapped_length_is_sent :
    let codec := answering putDone
    let request := putUnderK (zeros 70000)
    (∃ after received, sendRequest codec request {} [] = .ok ((true, after), []) ∧
        receiveBody ⟨true, 0, 0⟩ ⟨true, [], [], after.written, []⟩ [] =
          .ok ((some ((codec.pack request).take 4479), received), [])) ∧
      (codec.pack request).length = 70015 ∧ ¬ SendsRequest codec request ∧
      ¬ SendsReply codec (gotUnderK (zeros 70000)) := by
  -- The length written is 70015 modulo 65536.
  intro codec request
  have size : (codec.pack request).length = 70015 :=
    (putUnderK_length (by decide) 70007 (by decide)).trans (by decide)
  have replySize : (codec.pack (gotUnderK (zeros 70000))).length = 70011 :=
    (gotUnderK_length (by decide)).trans (by decide)
  have int : int32 (codec.pack request).length = (codec.pack request).length := by
    rw [size]
    decide
  have short : int16 (codec.pack request).length = 4479 := by
    rw [size]
    decide
  have received := receiveBody_wrapped ⟨true, 0, 0⟩ int (by rw [short]; decide)
  rw [short] at received
  refine ⟨received, size, ?_, fun sends => ?_⟩
  · exact sendsRequest_wrapped int (by omega) (messagePack putDone) (by decide) (by decide)
  · rcases sendsReply_iff.mp sends with small | negative
    · omega
    · rw [replySize] at negative
      exact absurd negative (by decide)

/-- A request and a reply of a few bytes are sent whole. -/
theorem sent_iff_unwrapped_three_bytes :
    SendsReply (answering putDone) (gotUnderK (zeros 3)) ∧
      SendsRequest (answering putDone) (putUnderK (zeros 3)) :=
  ⟨(sent_iff_unwrapped (answering putDone) (gotUnderK (zeros 3)) (messagePack putDone)
      (by decide) (by decide)).1.mpr (.inl (by decide)),
    (sent_iff_unwrapped (answering putDone) (putUnderK (zeros 3)) (messagePack putDone)
      (by decide) (by decide)).2.mpr (.inl (by decide))⟩

end ChainTable
