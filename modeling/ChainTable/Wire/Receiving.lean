import ChainTable.Wire.FrameLaws

/-! Frames are received one by one exactly when no read of theirs is cut short or interrupted. -/

namespace ChainTable

/-- The body of a message on a stream, of a size that a positive `short` can hold. -/
structure Frame where
  body : List UInt8
  nonempty : 1 ≤ body.length
  small : body.length ≤ 32767
  deriving DecidableEq

/-- The bytes of a frame: its length, and its body behind it. -/
def Frame.bytes (frame : Frame) : List UInt8 := htons frame.body.length ++ frame.body

/-- Calls of `network_receive` one after another, and what each of them hands over. -/
def receiveBodies : List Garbage → StateT Socket C (List (Option (List UInt8)))
  | [] => return []
  | garbage :: later => do
    let handed ← receiveBody garbage
    let others ← receiveBodies later
    return handed :: others

/-- Calls over a stream of frames hand over the bodies in order, with memory given. -/
def ReceivesFrames (frames : List Frame) (reads : List Transfer) : Prop :=
  ∀ garbage : List Garbage, garbage.length = frames.length →
    ∃ after, receiveBodies garbage ⟨true, [], [], frames.flatMap Frame.bytes, reads⟩ [] =
      .ok ((frames.map fun frame => some frame.body, after), [])

/-- The next read moves a single byte. -/
def OneByte (reads : List Transfer) : Prop :=
  ∃ count ≤ 1, reads.head? = some (.moved count)

/--
Every read gets what it asks for, but for one case at the end of the stream.

There a length cut after its first byte does no harm if its second byte and the body are zero.
-/
def Undivided : List Frame → List Transfer → Prop
  | [], _ => True
  | [last], reads =>
    Filled last.body.length reads.tail ∧
      (Filled 2 reads ∨ OneByte reads ∧ last.body.length % 256 = 0 ∧ ∀ byte ∈ last.body, byte = 0)
  | frame :: next :: later, reads =>
    Filled 2 reads ∧ Filled frame.body.length reads.tail ∧ Undivided (next :: later) reads.tail.tail

/-- The two bytes of a length are its quotient and its remainder by 256. -/
theorem htons_small {size : Nat} (small : size ≤ 32767) :
    htons size = [UInt8.ofNat (size / 256), UInt8.ofNat (size % 256)] := by
  -- A size below 32768 is its own remainder by 65536.
  have high : ((size : Int) % 2 ^ 16 / 2 ^ 8).toNat = size / 256 := by omega
  have low : ((size : Int) % 2 ^ 8).toNat = size % 256 := by omega
  rw [htons, high, low]

/-- A length whose first byte is below 128 is what its two bytes say. -/
theorem ntohs_small (high low : Nat) (highBound : high < 128) (lowBound : low < 256) :
    ntohs (UInt8.ofNat high) (UInt8.ofNat low) = high * 256 + low := by
  -- Both bytes are what they were made of, and no bit of the sign is set.
  rw [ntohs, int16, UInt8.toNat_ofNat', UInt8.toNat_ofNat']
  omega

/-- A read that returns bytes has taken them off the stream. -/
theorem Socket.read_some {socket after : Socket} {asked : Nat} {received : List UInt8}
    (ran : Socket.read asked socket = (some received, after))
    (there : asked ≤ socket.incoming.length) :
    socket.isOpen = true ∧ ∃ count, socket.reads.headD (.moved asked) = .moved count ∧
      received = socket.incoming.take (min (max count 1) asked) ∧
      after = { socket with incoming := socket.incoming.drop (min (max count 1) asked)
                            reads := socket.reads.tail } := by
  -- A read of bytes had an open socket, and an outcome that moves some.
  unfold Socket.read at ran
  split at ran
  case isFalse => cases ran
  case isTrue opened =>
    refine ⟨opened, ?_⟩
    split at ran
    case h_2 => cases ran
    case h_1 count next =>
      simp only [Transfer.amount, min_eq_left there] at ran
      cases ran
      exact ⟨count, next, rfl, rfl⟩

/-- A round never returns more than was asked for, and that much only if its read was filled. -/
theorem amount_le {asked count available : Nat} :
    (Transfer.moved count).amount (min asked available) ≤ asked ∧
      ((Transfer.moved count).amount (min asked available) = asked → asked ≤ max count 1) := by
  -- A read moves no more than the room that it is given.
  simp only [Transfer.amount]
  omega

/-- If the loop of `read_all` returns a positive number, its first read moved so many bytes. -/
theorem readLoop_some {asked : Nat} {incoming : List UInt8} {reads : List Transfer}
    {result : ReadAll} {mem : Mem}
    (ran : readLoop asked false incoming reads [] = .ok (result, mem))
    (positive : 0 < result.returned) :
    ∃ received ≤ asked, result = { returned := received, buffer := some (incoming.take received)
                                   incoming := incoming.drop received, reads := reads.tail } ∧
      (received = asked → Filled asked reads) ∧ mem = [] := by
  -- The loop ends with its first round, however that turns out.
  cases reads with
  | nil =>
    rw [readLoop, readRound_given] at ran
    cases ran
    exact ⟨_, amount_le.1, rfl, fun _ => filled_nil asked, rfl⟩
  | cons outcome reads =>
    cases outcome with
    | moved count =>
      rw [readLoop, readRound_given] at ran
      cases ran
      exact ⟨_, amount_le.1, rfl, fun whole => filled_cons.mpr (amount_le.2 whole), rfl⟩
    | interrupted =>
      -- The flag is not set, so the loop ends with nothing.
      cases ran
      cases positive
    | failed =>
      cases ran
      cases positive

/-- If `read_all` returns a positive number, its first read moved so many bytes. -/
theorem readAll_some {socket after : Socket} {asked returned : Int} {buffer : Option (List UInt8)}
    {mem : Mem} (ran : readAll true asked false socket [] = .ok (((returned, buffer), after), mem))
    (positive : 0 < returned) :
    ∃ received : Nat, returned = received ∧ returned ≤ asked ∧
      buffer = some (socket.incoming.take received) ∧
      after = { socket with incoming := socket.incoming.drop received
                            reads := socket.reads.tail } ∧
      (returned = asked → Filled received socket.reads) ∧ mem = [] := by
  -- A negative size makes the first read fail, and otherwise the loop decides.
  have here : (get : StateT Socket C Socket) socket [] = .ok ((socket, socket), []) := rfl
  unfold readAll at ran
  rw [runOver_bind here] at ran
  split at ran
  · cases ran
    cases positive
  · rename_i valid
    simp only [not_or] at valid
    cases loop : readLoop asked.toNat false socket.incoming socket.reads [] with
    | error fault =>
      rw [runOver_bind_error (runOver_lift_error loop)] at ran
      cases ran
    | ok result =>
      obtain ⟨result, mem'⟩ := result
      rw [runOver_bind (runOver_lift loop)] at ran
      cases ran
      obtain ⟨received, most, rfl, filled, rfl⟩ := readLoop_some loop positive
      refine ⟨received, rfl, ?_, rfl, rfl, ?_, rfl⟩
      · change (received : Int) ≤ asked
        omega
      · intro whole
        have same : received = asked.toNat := by
          change (received : Int) = asked at whole
          omega
        rw [same]
        exact filled same

/-- A read of a length moves both of its bytes or only the first one. -/
theorem length_read {reads : List Transfer} {count : Nat}
    (next : reads.headD (.moved 2) = .moved count) :
    min (max count 1) 2 = 1 ∧ OneByte reads ∨ min (max count 1) 2 = 2 ∧ Filled 2 reads := by
  -- The number moved is cut to one or two bytes.
  cases reads with
  | nil =>
    cases next
    exact .inr ⟨rfl, filled_nil 2⟩
  | cons outcome reads =>
    rw [List.headD_cons] at next
    subst next
    by_cases short : count ≤ 1
    · exact .inl ⟨by omega, count, short, rfl⟩
    · exact .inr ⟨by omega, filled_cons.mpr (by simp only [Transfer.Fills]; omega)⟩

/-- What is handed over behind a length is a part of the stream, of that length at most. -/
theorem receiveRest_some {socket after : Socket} {body : List UInt8} {mem : Mem} {length : Int}
    {num : UInt8 × UInt8}
    (ran : receiveRest ⟨false, num⟩ length socket [] = .ok ((some body, after), mem)) :
    ∃ received : Nat, body = socket.incoming.take received ∧ received ≤ length ∧
      (received = length → Filled received socket.reads) ∧
      after = { socket with incoming := socket.incoming.drop received
                            reads := socket.reads.tail } ∧ mem = [] := by
  -- A block is asked for first, and its size is the length that was read.
  unfold receiveRest at ran
  by_cases negative : length < 0
  · -- No block is given, and nothing is handed over.
    rw [runOver_bind (runOver_lift (mallocSize_negative negative []))] at ran
    cases ran
  rw [runOver_bind (runOver_lift (mallocSize_given (by omega)))] at ran
  change (readAll true length false >>= _ : StateT Socket C _) socket [] = _ at ran
  cases read : readAll true length false socket [] with
  | error fault =>
    rw [runOver_bind_error read] at ran
    cases ran
  | ok result =>
    obtain ⟨⟨⟨returned, buffer⟩, between⟩, mem'⟩ := result
    rw [runOver_bind read] at ran
    -- Bytes are handed over only if some were returned.
    by_cases positive : 0 < returned
    · obtain ⟨received, rfl, most, rfl, rfl, filled, rfl⟩ := readAll_some read positive
      simp only [if_pos positive] at ran
      have handed : unpackInput received (some (socket.incoming.take received)) [] =
          .ok (socket.incoming.take received, []) := by
        rw [unpackInput, if_neg (by omega)]
        rfl
      rw [runOver_bind (runOver_lift handed)] at ran
      cases ran
      exact ⟨received, rfl, most, filled, rfl, rfl⟩
    · simp only [if_neg positive] at ran
      cases ran

/-- A call that hands over bytes has read a length, and so many bytes behind it at most. -/
theorem receiveBody_some {socket after : Socket} {body : List UInt8} {mem : Mem}
    {num : UInt8 × UInt8} (there : 2 ≤ socket.incoming.length)
    (ran : receiveBody ⟨false, num⟩ socket [] = .ok ((some body, after), mem)) :
    ∃ got, (got = 1 ∧ OneByte socket.reads ∨ got = 2 ∧ Filled 2 socket.reads) ∧
      ∃ received : Nat, body = (socket.incoming.drop got).take received ∧
      received ≤ ntohsOver (socket.incoming.take got) (0, 0) ∧
      (received = ntohsOver (socket.incoming.take got) (0, 0) →
        Filled received socket.reads.tail) ∧
      after = { socket with incoming := (socket.incoming.drop got).drop received
                            reads := socket.reads.tail.tail } ∧ mem = [] := by
  -- The length is read first, into a variable that was zero.
  unfold receiveBody at ran
  cases first : Socket.read 2 socket with
  | mk answer between =>
    rw [runOver_bind (runOver_modifyGet first [])] at ran
    cases answer with
    | none => cases ran
    | some got =>
      cases got with
      | nil => cases ran
      | cons byte bytes =>
        obtain ⟨opened, count, next, got, rfl⟩ := Socket.read_some first there
        refine ⟨min (max count 1) 2, length_read next, ?_⟩
        rw [← got]
        exact receiveRest_some ran

/-- Bytes that are there are handed over whole, by a read that gets all of them. -/
theorem receiveRest_filled (garbage : Garbage) (socket : Socket) (opened : socket.isOpen = true)
    {length : Nat} (positive : 1 ≤ length) (there : length ≤ socket.incoming.length)
    (filled : Filled length socket.reads) :
    receiveRest garbage length socket [] =
      .ok ((some (socket.incoming.take length),
        { socket with
          incoming := socket.incoming.drop length, reads := socket.reads.tail }), []) := by
  -- The block is given, and the read gets all bytes.
  unfold receiveRest
  rw [runOver_bind (runOver_lift (mallocSize_given (Int.natCast_nonneg length)))]
  change (readAll true length garbage.fullBuffer >>= _ : StateT Socket C _) socket [] = _
  rw [runOver_bind (readAll_filled socket opened (.inl rfl) filled there garbage.fullBuffer)]
  simp only [if_pos (show (0 : Int) < length by omega)]
  have handed : unpackInput length (some (socket.incoming.take length)) [] =
      .ok (socket.incoming.take length, []) := by
    rw [unpackInput, if_neg (by omega)]
    rfl
  rw [runOver_bind (runOver_lift handed)]
  rfl

/-- The two bytes of a length are read back as that length. -/
theorem length_decoded {size : Nat} (small : size ≤ 32767) (before : UInt8 × UInt8) :
    ntohsOver [UInt8.ofNat (size / 256), UInt8.ofNat (size % 256)] before = size := by
  -- The quotient and the remainder by 256 make up the size.
  refine (ntohs_small _ _ (by omega) (by omega)).trans ?_
  omega

/-- A length and so many bytes behind it are handed over, by reads that get all of them. -/
theorem receiveBody_length (garbage : Garbage) (socket : Socket) (opened : socket.isOpen = true)
    {size : Nat} (positive : 1 ≤ size) (small : size ≤ 32767) {behind : List UInt8}
    (incoming : socket.incoming = htons size ++ behind) (there : size ≤ behind.length)
    (length : Filled 2 socket.reads) (body : Filled size socket.reads.tail) :
    receiveBody garbage socket [] =
      .ok ((some (behind.take size),
        { socket with incoming := behind.drop size, reads := socket.reads.tail.tail }), []) := by
  -- The first read gets both bytes of the length, and the second one what is behind them.
  rw [htons_small small] at incoming
  have first := Socket.read_filled opened length (by simp [incoming])
  simp only [incoming, List.cons_append, List.take_succ_cons, List.take_zero, List.drop_succ_cons,
    List.drop_zero, List.nil_append] at first
  unfold receiveBody
  rw [runOver_bind (runOver_modifyGet first [])]
  simp only [length_decoded small]
  exact receiveRest_filled garbage { socket with incoming := behind, reads := socket.reads.tail }
    opened positive there body

/-- The bytes of a frame start with the two of its length. -/
theorem Frame.bytes_eq (frame : Frame) :
    frame.bytes = UInt8.ofNat (frame.body.length / 256) ::
      UInt8.ofNat (frame.body.length % 256) :: frame.body := by
  rw [Frame.bytes, htons_small frame.small]
  rfl

/-- A frame whose two reads are filled is handed over whole. -/
theorem receiveBody_filled (garbage : Garbage) (socket : Socket) (opened : socket.isOpen = true)
    (frame : Frame) {rest : List UInt8} (incoming : socket.incoming = frame.bytes ++ rest)
    (length : Filled 2 socket.reads) (body : Filled frame.body.length socket.reads.tail) :
    receiveBody garbage socket [] =
      .ok ((some frame.body,
        { socket with incoming := rest, reads := socket.reads.tail.tail }), []) := by
  -- The stream is the length of the frame, its body, and the rest.
  rw [Frame.bytes, List.append_assoc] at incoming
  have handed := receiveBody_length garbage socket opened frame.nonempty frame.small incoming
    (by simp) length body
  rwa [List.take_left, List.drop_left] at handed

/-- A read of one byte takes it off the stream. -/
theorem Socket.read_one {socket : Socket} (opened : socket.isOpen = true)
    (short : OneByte socket.reads) {byte : UInt8} {rest : List UInt8}
    (incoming : socket.incoming = byte :: rest) :
    Socket.read 2 socket =
      (some [byte], { socket with incoming := rest, reads := socket.reads.tail }) := by
  -- Whatever its count, the outcome at the front of the script moves one byte.
  obtain ⟨count, small, next⟩ := short
  obtain ⟨later, script⟩ : ∃ later, socket.reads = .moved count :: later := by
    cases script : socket.reads with
    | nil => rw [script] at next; cases next
    | cons outcome later =>
      rw [script] at next
      cases next
      exact ⟨later, rfl⟩
  have amount : (Transfer.moved count).amount (min 2 (byte :: rest).length) = 1 := by
    simp only [Transfer.amount, List.length_cons]
    omega
  simp only [Socket.read, if_pos opened, script, List.headD_cons, incoming, amount]
  rfl

/-- An element in front of its own repetitions may as well stand behind them. -/
theorem cons_eq_concat {α : Type} {first : α} {elements : List α}
    (same : ∀ element ∈ elements, element = first) : first :: elements = elements ++ [first] := by
  -- Both lists repeat the element, equally often.
  rw [List.eq_replicate_of_mem same, ← List.replicate_succ, ← List.replicate_succ']

/-- A body of zeros whose length ends in a zero byte is handed over even if the length was cut. -/
theorem receiveBody_zeros (garbage : Garbage) (socket : Socket) (opened : socket.isOpen = true)
    (last : Frame) (incoming : socket.incoming = last.bytes) (short : OneByte socket.reads)
    (round : last.body.length % 256 = 0) (zeros : ∀ byte ∈ last.body, byte = 0)
    (body : Filled last.body.length socket.reads.tail) :
    ∃ after, receiveBody garbage socket [] = .ok ((some last.body, after), []) := by
  -- The length is cut after its first byte, and the variable was zero.
  rw [last.bytes_eq] at incoming
  unfold receiveBody
  rw [runOver_bind (runOver_modifyGet (Socket.read_one opened short incoming) [])]
  -- The missing byte of the length is zero, and so is the one that takes its place.
  have decoded := length_decoded last.small (0, 0)
  rw [round] at decoded
  have same : ntohsOver [UInt8.ofNat (last.body.length / 256)] (0, 0) = last.body.length := decoded
  simp only [same]
  have behind := receiveRest_filled garbage
    { socket with
      incoming := UInt8.ofNat (last.body.length % 256) :: last.body, reads := socket.reads.tail }
    opened last.nonempty (by simp) body
  have shifted : (UInt8.ofNat (last.body.length % 256) :: last.body).take last.body.length =
      last.body := by
    rw [round]
    exact (congrArg (List.take _) (cons_eq_concat zeros)).trans List.take_left
  rw [shifted] at behind
  exact ⟨_, behind⟩

/-- A list that stays the same when an element is put in front repeats that element. -/
theorem eq_of_shift {α : Type} (first : α) (elements : List α)
    (same : elements = (first :: elements).take elements.length) :
    ∀ element ∈ elements, element = first := by
  -- Every element stands where the one before it stood.
  induction elements generalizing first with
  | nil => simp
  | cons second elements ih =>
    rw [List.length_cons, List.take_succ_cons, List.cons.injEq] at same
    obtain ⟨rfl, same⟩ := same
    -- The rest of the list stays the same in the same way.
    intro element member
    rcases List.mem_cons.mp member with rfl | later
    · rfl
    · exact ih _ same element later

/-- One byte late in the stream, a frame is never handed over. -/
theorem receiveBody_late (frame : Frame) (rest : List UInt8) {socket after : Socket}
    {num : UInt8 × UInt8} {mem : Mem} (incoming : socket.incoming = 0 :: frame.bytes ++ rest) :
    receiveBody ⟨false, num⟩ socket [] ≠ .ok ((some frame.body, after), mem) := by
  -- The call takes its length off one byte early, and that length is below the true one.
  intro ran
  rw [frame.bytes_eq] at incoming
  obtain ⟨got, reads, received, handed, most, -, -, -⟩ :=
    receiveBody_some (by simp [incoming]) ran
  have nonempty := frame.nonempty
  have small := frame.small
  have atMost : frame.body.length ≤ received := by
    have length := congrArg List.length handed
    rw [List.length_take] at length
    omega
  -- The length is taken from the byte before the frame and the first byte of the frame.
  rcases reads with ⟨rfl, -⟩ | ⟨rfl, -⟩
  · have zero := ntohs_small 0 0 (by omega) (by omega)
    rw [incoming] at most
    change (received : Int) ≤ ntohs (UInt8.ofNat 0) (UInt8.ofNat 0) at most
    omega
  · have quotient := ntohs_small 0 (frame.body.length / 256) (by omega) (by omega)
    rw [incoming] at most
    change (received : Int) ≤ ntohs (UInt8.ofNat 0) (UInt8.ofNat (frame.body.length / 256)) at most
    omega

/-- Calls one after another start where the calls before them ended. -/
theorem receiveBodies_cons {garbage : Garbage} {later : List Garbage} {socket after final : Socket}
    {handed : Option (List UInt8)} {others : List (Option (List UInt8))}
    (first : receiveBody garbage socket [] = .ok ((handed, after), []))
    (rest : receiveBodies later after [] = .ok ((others, final), [])) :
    receiveBodies (garbage :: later) socket [] = .ok ((handed :: others, final), []) := by
  -- The calls run one after another on one socket.
  rw [receiveBodies, runOver_bind first, runOver_bind rest]
  rfl

/-- Calls that hand over bodies have each handed over one, where the calls before them ended. -/
theorem receiveBodies_split {garbage : Garbage} {later : List Garbage} {socket final : Socket}
    {handed : Option (List UInt8)} {others : List (Option (List UInt8))} {mem : Mem}
    (ran : receiveBodies (garbage :: later) socket [] = .ok ((handed :: others, final), mem)) :
    ∃ after mem', receiveBody garbage socket [] = .ok ((handed, after), mem') ∧
      receiveBodies later after mem' = .ok ((others, final), mem) := by
  -- A run of all calls is a run of the first one, and one of the others.
  rw [receiveBodies] at ran
  cases first : receiveBody garbage socket [] with
  | error fault =>
    rw [runOver_bind_error first] at ran
    cases ran
  | ok result =>
    obtain ⟨⟨body, after⟩, mem'⟩ := result
    rw [runOver_bind first] at ran
    cases rest : receiveBodies later after mem' with
    | error fault =>
      rw [runOver_bind_error rest] at ran
      cases ran
    | ok result =>
      obtain ⟨⟨bodies, final'⟩, mem''⟩ := result
      rw [runOver_bind rest] at ran
      cases ran
      exact ⟨after, mem', rfl, rest⟩

/-- Undivided frames are handed over in order, whatever the calls find in their variables. -/
theorem receivesFrames_of_undivided {frames : List Frame} {reads : List Transfer}
    (undivided : Undivided frames reads) : ReceivesFrames frames reads := by
  -- Each call hands over its frame, and leaves the stream at the next one.
  induction frames generalizing reads with
  | nil =>
    intro garbage calls
    rw [List.length_eq_zero_iff.mp calls]
    exact ⟨_, rfl⟩
  | cons frame frames ih =>
    intro garbage calls
    obtain ⟨first, later, rfl⟩ := List.exists_cons_of_length_eq_add_one calls
    cases frames with
    | nil =>
      obtain rfl : later = [] := by simpa using calls
      rw [List.flatMap_cons, List.flatMap_nil, List.append_nil]
      obtain ⟨body, length | ⟨short, round, zeros⟩⟩ := undivided
      · have handed := receiveBody_filled first ⟨true, [], [], frame.bytes, reads⟩ rfl
          frame (List.append_nil _).symm length body
        exact ⟨_, receiveBodies_cons handed rfl⟩
      · obtain ⟨after, handed⟩ := receiveBody_zeros first
          ⟨true, [], [], frame.bytes, reads⟩ rfl frame rfl short round zeros body
        exact ⟨_, receiveBodies_cons handed rfl⟩
    | cons next rest =>
      obtain ⟨length, body, undivided⟩ := undivided
      -- After the first frame the stream stands at the next one.
      have handed := receiveBody_filled first
        ⟨true, [], [], (frame :: next :: rest).flatMap Frame.bytes, reads⟩ rfl
        frame List.flatMap_cons length body
      obtain ⟨after, others⟩ := ih undivided later (by simpa using calls)
      exact ⟨after, receiveBodies_cons handed others⟩

/-- Frames that are handed over in order while no flag happens to be set are undivided. -/
theorem undivided_of_received {frames : List Frame} {num : UInt8 × UInt8} (socket : Socket)
    {after : Socket} {mem : Mem} (incoming : socket.incoming = frames.flatMap Frame.bytes)
    (ran : receiveBodies (List.replicate frames.length ⟨false, num⟩) socket [] =
      .ok ((frames.map fun frame => some frame.body, after), mem)) :
    Undivided frames socket.reads := by
  -- Each call handed over its frame, so both of its reads got all they asked for.
  induction frames generalizing socket mem with
  | nil => trivial
  | cons frame frames ih =>
    obtain ⟨between, mem', first, rest⟩ := receiveBodies_split ran
    rw [List.flatMap_cons, frame.bytes_eq] at incoming
    obtain ⟨got, length, received, handed, most, filled, rfl, rfl⟩ :=
      receiveBody_some (by simp [incoming]) first
    have small := frame.small
    have atMost : frame.body.length ≤ received := by
      have length := congrArg List.length handed
      rw [List.length_take] at length
      omega
    rcases length with ⟨rfl, short⟩ | ⟨rfl, length⟩
    · -- A length cut after its first byte is a multiple of 256.
      have cut := ntohs_small (frame.body.length / 256) 0 (by omega) (by omega)
      rw [incoming] at handed most filled rest
      change (received : Int) ≤ ntohs (UInt8.ofNat (frame.body.length / 256)) (UInt8.ofNat 0)
        at most
      change (received : Int) = ntohs (UInt8.ofNat (frame.body.length / 256)) (UInt8.ofNat 0) → _
        at filled
      obtain rfl : received = frame.body.length := by omega
      have round : frame.body.length % 256 = 0 := by omega
      rw [round] at handed rest
      -- The body is handed over one byte late, so all its bytes are the zero before it.
      change frame.body = (0 :: (frame.body ++ _)).take frame.body.length at handed
      have zeros := eq_of_shift 0 frame.body (by
        rw [← List.cons_append, List.take_append_of_le_length (by simp)] at handed
        exact handed)
      cases frames with
      | nil => exact ⟨filled (by omega), .inr ⟨short, round, zeros⟩⟩
      | cons next later =>
        obtain ⟨after, mem', late, -⟩ := receiveBodies_split rest
        refine absurd late (receiveBody_late next (later.flatMap Frame.bytes) ?_)
        change (0 :: (frame.body ++ _)).drop frame.body.length = _
        rw [← List.cons_append, cons_eq_concat zeros, List.append_assoc, List.drop_left]
        rfl
    · -- A length that was read whole is the length of the frame.
      rw [incoming] at most filled rest
      change (received : Int) ≤ ntohsOver [_, _] (0, 0) at most
      change (received : Int) = ntohsOver [_, _] (0, 0) → _ at filled
      rw [length_decoded small] at most filled
      obtain rfl : received = frame.body.length := by omega
      have undivided := ih { socket with
        incoming := frames.flatMap Frame.bytes, reads := socket.reads.tail.tail } rfl (by
          change receiveBodies _ { socket with
            incoming := (frame.body ++ frames.flatMap Frame.bytes).drop frame.body.length
            reads := socket.reads.tail.tail } [] = _ at rest
          rw [List.drop_left] at rest
          exact rest)
      cases frames with
      | nil => exact ⟨filled rfl, .inl length⟩
      | cons next later => exact ⟨length, filled rfl, undivided⟩

/-- `read_all` returns the size it was given, with so many bytes of the stream in its buffer. -/
def ReadsAll (size : Nat) (incoming : List UInt8) (reads : List Transfer) : Prop :=
  ∀ fullBuffer, ∃ after, readAll true size fullBuffer ⟨true, [], [], incoming, reads⟩ [] =
    .ok (((size, some (incoming.take size)), after), [])

/--
Frames are received in order exactly if their reads are not cut short or interrupted.

For `read_all` itself this says that its first read gets everything it asks for.
-/
theorem received_iff_undivided (reads : List Transfer) :
    (∀ frames, ReceivesFrames frames reads ↔ Undivided frames reads) ∧
    ∀ (size : Nat) (incoming : List UInt8), 1 ≤ size → size ≤ incoming.length →
      (ReadsAll size incoming reads ↔ Filled size reads) := by
  refine ⟨fun frames => ⟨fun receives => ?_, receivesFrames_of_undivided⟩,
    fun size incoming positive there => ⟨fun readsAll => ?_, fun filled fullBuffer => ?_⟩⟩
  · -- It is enough to look at calls that find their flag not set.
    obtain ⟨after, ran⟩ := receives (List.replicate frames.length ⟨false, 0, 0⟩) (by simp)
    exact undivided_of_received _ rfl ran
  · obtain ⟨after, ran⟩ := readsAll false
    obtain ⟨received, same, -, -, -, filled, -⟩ := readAll_some ran (by omega)
    obtain rfl : size = received := by omega
    exact filled rfl
  · exact ⟨_, readAll_filled ⟨true, [], [], incoming, reads⟩ rfl (.inl rfl) filled there
      fullBuffer⟩

/-- Three bytes behind a length, of which the first read moves one, are handed over as that one. -/
theorem cut_body_is_handed_over_short :
    let frame : Frame := ⟨[1, 2, 3], by decide, by decide⟩
    receiveBodies [⟨true, 0, 0⟩] ⟨true, [], [], frame.bytes, [.moved 2, .moved 1]⟩ [] =
        .ok (([some [1]], ⟨true, [], [], [2, 3], []⟩), []) ∧
      ¬ ReceivesFrames [frame] [.moved 2, .moved 1] ∧ ¬ ReadsAll 3 [1, 2, 3] [.moved 1] := by
  -- The read of the body asks for three bytes and gets one, and is not repeated.
  intro frame
  have short : receiveBodies [⟨true, 0, 0⟩] ⟨true, [], [], frame.bytes, [.moved 2, .moved 1]⟩ [] =
      .ok (([some [1]], ⟨true, [], [], [2, 3], []⟩), []) := by decide +kernel
  refine ⟨short, fun receives => ?_, fun reads => ?_⟩
  · obtain ⟨after, ran⟩ := receives [⟨true, 0, 0⟩] rfl
    rw [List.flatMap_cons, List.flatMap_nil, List.append_nil, short] at ran
    cases ran
  · obtain ⟨after, ran⟩ := reads true
    have one : readAll true 3 true ⟨true, [], [], [1, 2, 3], [.moved 1]⟩ [] =
        .ok (((1, some [1]), ⟨true, [], [], [2, 3], []⟩), []) := by decide +kernel
    rw [show ((3 : Nat) : Int) = 3 from rfl, one] at ran
    cases ran

/-- Two frames whose reads are all filled are received, and so is a buffer read by itself. -/
theorem received_iff_undivided_two_frames :
    ReceivesFrames [⟨[1, 2, 3], by decide, by decide⟩, ⟨[4], by decide, by decide⟩]
        [.moved 2, .moved 3, .moved 2, .moved 1] ∧
      ReadsAll 3 [1, 2, 3, 4] [.moved 3] := by
  refine ⟨((received_iff_undivided _).1 _).mpr ⟨?_, ?_, ?_, .inl ?_⟩,
    ((received_iff_undivided _).2 3 _ (by decide) (by decide)).mpr ?_⟩ <;> decide

end ChainTable
