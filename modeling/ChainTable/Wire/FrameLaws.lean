import ChainTable.Wire.Frame

/-! What the calls on a socket do when no transfer is cut short or fails. -/

namespace ChainTable

/-- A stream that accepts all bytes: a body may take several writes, and a length takes one. -/
structure Socket.AcceptsAll (socket : Socket) : Prop where
  opened : socket.isOpen = true
  unbroken : .failed ∉ socket.writes
  first : ∀ outcome ∈ socket.writes.head?, ∃ count, outcome = .moved count ∧ 2 ≤ count

/-- A `short` survives the two conversions of its byte order. -/
theorem ntohs_htons (value : Int) :
    ∃ high low, htons value = [high, low] ∧ ntohs high low = int16 value := by
  refine ⟨_, _, rfl, ?_⟩
  -- Both bytes are below 256, and together they are the value modulo 65536.
  simp only [ntohs, int16, UInt8.toNat_ofNat']
  omega

/-- A `short` holds every size up to 32767. -/
theorem int16_of_le {size : Nat} (small : size ≤ 32767) : int16 size = size := by
  -- Shifting by half the range makes the remainder the size itself.
  unfold int16
  omega

/-- A conversion to `short` never makes a size larger. -/
theorem int16_le (size : Nat) : int16 size ≤ size := by
  -- The remainder of a positive number is at most that number.
  unfold int16
  omega

/-- A size above 32767 is changed by the conversion to `short`. -/
theorem int16_lt {size : Nat} (large : 32767 < size) : int16 size < size := by
  -- The remainder is taken, and comes out below half the range.
  unfold int16
  omega

/-- What was converted to `short` is in its range. -/
@[simp] theorem int16_int16 (value : Int) : int16 (int16 value) = int16 value := by
  -- The first conversion leaves nothing for the second.
  unfold int16
  omega

/-- Without a write that fails, the loop gets all bytes through. -/
theorem writeLoop_completes (outcomes : List Transfer) (bytes : List UInt8)
    (unbroken : .failed ∉ outcomes) : ∃ left, writeLoop outcomes bytes = (true, bytes, left) := by
  -- Every outcome either accepts some bytes and leaves the rest, or leaves all of them.
  induction outcomes generalizing bytes with
  | nil => exact ⟨[], rfl⟩
  | cons outcome outcomes ih =>
    obtain ⟨here, later⟩ := List.ne_and_not_mem_of_not_mem_cons unbroken
    by_cases done : bytes = []
    · -- With nothing left to write, no outcome is used up.
      subst done
      exact ⟨outcome :: outcomes, by rw [writeLoop.eq_def]; exact if_pos rfl⟩
    · cases outcome with
      -- The write accepts some bytes, and the rest is offered to the outcomes after it.
      | moved count =>
        obtain ⟨left, rest⟩ := ih (bytes.drop ((Transfer.moved count).amount bytes.length)) later
        refine ⟨left, ?_⟩
        rw [writeLoop, if_neg done]
        simp only [rest, List.take_append_drop]
      -- The same bytes are offered again.
      | interrupted =>
        obtain ⟨left, rest⟩ := ih bytes later
        exact ⟨left, by rw [writeLoop, if_neg done]; exact rest⟩
      | failed => exact absurd rfl here

/-- Without a write that fails, `write_all` writes its buffer and returns the size it was given. -/
theorem writeAll_completes (socket : Socket) (opened : socket.isOpen = true)
    (unbroken : .failed ∉ socket.writes) {buffer : List UInt8} {size : Int}
    (fits : size ≤ buffer.length) (mem : Mem) :
    ∃ left, writeAll buffer size socket mem =
      .ok ((size, { socket with written := socket.written ++ buffer.take size.toNat
                                writes := left }), mem) := by
  -- The socket is open and the buffer is long enough, so only the loop decides.
  obtain ⟨left, loop⟩ := writeLoop_completes socket.writes (buffer.take size.toNat) unbroken
  have inside : ¬ ((buffer.take size.toNat).length : Int) < size := by
    rw [List.length_take]
    omega
  refine ⟨left, ?_⟩
  unfold writeAll
  rw [if_neg inside]
  have here : (get : StateT Socket C Socket) socket mem = .ok ((socket, socket), mem) := rfl
  change (get >>= _ : StateT Socket C Int) socket mem = _
  rw [runOver_bind here, if_neg (by simp [opened]), loop]
  rfl

/-- A stream that accepts all bytes accepts a length in one write. -/
theorem Socket.AcceptsAll.write {socket : Socket} (accepts : socket.AcceptsAll) (value : Int) :
    Socket.write (htons value) socket =
      (some 2, { socket with written := socket.written ++ htons value
                             writes := socket.writes.tail }) := by
  -- The next outcome is the first of the script, or moves all bytes past its end.
  rw [Socket.write, if_pos accepts.opened]
  cases script : socket.writes with
  | nil => rfl
  | cons outcome outcomes =>
    obtain ⟨count, rfl, both⟩ := accepts.first outcome (by rw [script]; rfl)
    -- Two bytes are asked for, and two at least may be moved.
    have whole : (Transfer.moved count).amount (htons value).length = 2 := by
      simp only [Transfer.amount, htons, List.length_cons, List.length_nil]
      omega
    simp only [List.headD_cons, whole, List.tail_cons]
    rfl

/-- A script without failures has none after its first outcome either. -/
theorem Socket.AcceptsAll.tail {socket : Socket} (accepts : socket.AcceptsAll) :
    .failed ∉ socket.writes.tail :=
  fun member => accepts.unbroken (List.mem_of_mem_tail member)

/-- A block of a negative size is never given. -/
theorem mallocSize_negative {size : Int} (negative : size < 0) (mem : Mem) :
    mallocSize size mem = .ok (false, mem) := by
  -- As a `size_t` the size is larger than any memory.
  rw [mallocSize, if_pos negative]
  rfl

/-- A block of another size is given or not. -/
theorem mallocSize_ran {size : Int} (valid : 0 ≤ size) (mem : Mem) :
    ∃ given mem', mallocSize size mem = .ok (given, mem') := by
  -- The script says what becomes of the block, or it ended.
  rw [mallocSize, if_neg (by omega)]
  cases mem with
  | nil => exact ⟨true, [], rfl⟩
  | cons outcome rest => exact ⟨outcome, rest, rfl⟩

/-- With memory there, a block of another size is given. -/
theorem mallocSize_given {size : Int} (valid : 0 ≤ size) : mallocSize size [] = .ok (true, []) := by
  -- The script that has ended gives everything.
  rw [mallocSize, if_neg (by omega)]
  rfl

/-- A message is packed into a block that is large enough. -/
theorem packInto_fits {codec : Codec} {msg : MessageT} {size : Int}
    (fits : (codec.pack msg).length ≤ size) (mem : Mem) :
    packInto codec msg size mem = .ok (codec.pack msg, mem) := by
  -- The test is passed.
  rw [packInto, if_neg (by omega)]
  rfl

/-- A message overruns a block that is too small. -/
theorem packInto_overruns (codec : Codec) (msg : MessageT) {size : Int}
    (overrun : size < (codec.pack msg).length) (mem : Mem) :
    packInto codec msg size mem = .error .outOfBounds := by
  -- The test is failed.
  rw [packInto, if_pos overrun]
  rfl

/-- A function of the state runs as it is. -/
theorem runOver_modifyGet {σ α : Type} {change : σ → α × σ} {state state' : σ} {value : α}
    (changed : change state = (value, state')) (mem : Mem) :
    (modifyGet change : StateT σ C α) state mem = .ok ((value, state'), mem) := by
  -- The function answers its value, and leaves the next state.
  rw [← changed]
  rfl

/-- A read moves all the bytes it was asked for. -/
def Transfer.Fills (asked : Nat) : Transfer → Prop
  | .moved count => asked ≤ max count 1
  | _ => False

instance (asked : Nat) (outcome : Transfer) : Decidable (outcome.Fills asked) :=
  match outcome with
  | .moved count => inferInstanceAs (Decidable (asked ≤ max count 1))
  | .interrupted => inferInstanceAs (Decidable False)
  | .failed => inferInstanceAs (Decidable False)

/-- The next read moves all the bytes it is asked for. -/
def Filled (asked : Nat) (reads : List Transfer) : Prop :=
  ∀ outcome ∈ reads.head?, outcome.Fills asked

/-- Past the end of a script every read moves what it is asked for. -/
@[simp] theorem filled_nil (asked : Nat) : Filled asked [] := by simp [Filled]

/-- Otherwise it is the first outcome that counts. -/
@[simp] theorem filled_cons {asked : Nat} {outcome : Transfer} {reads : List Transfer} :
    Filled asked (outcome :: reads) ↔ outcome.Fills asked := by simp [Filled]

instance (asked : Nat) (reads : List Transfer) : Decidable (Filled asked reads) :=
  match reads with
  | [] => isTrue (filled_nil asked)
  | _ :: _ => decidable_of_iff _ filled_cons.symm

/-- Bytes that are there are moved by a read that moves all it was asked for. -/
theorem Transfer.amount_fills {asked count available : Nat} (fills : asked ≤ max count 1)
    (there : asked ≤ available) : (Transfer.moved count).amount (min asked available) = asked := by
  -- Neither the room nor the stream is what limits the read.
  rw [Transfer.amount, min_eq_left there, min_eq_right fills]

/-- A read that is filled takes its bytes off the stream. -/
theorem Socket.read_filled {socket : Socket} (opened : socket.isOpen = true) {asked : Nat}
    (filled : Filled asked socket.reads) (there : asked ≤ socket.incoming.length) :
    Socket.read asked socket =
      (some (socket.incoming.take asked),
        { socket with incoming := socket.incoming.drop asked, reads := socket.reads.tail }) := by
  -- The next outcome is the first of the script, or moves all bytes past its end.
  rw [Socket.read, if_pos opened]
  cases script : socket.reads with
  | nil =>
    simp only [List.headD_nil, List.tail_nil,
      Transfer.amount_fills (le_max_left asked 1) there]
  | cons outcome outcomes =>
    have fills := filled outcome (by rw [script]; rfl)
    cases outcome with
    | moved count =>
      simp only [List.headD_cons, List.tail_cons, Transfer.amount_fills fills there]
    | interrupted => exact fills.elim
    | failed => exact fills.elim

/-- A round that reads bytes returns as many as it read, with memory given. -/
theorem readRound_given (asked count : Nat) (incoming : List UInt8) (reads : List Transfer) :
    let received := (Transfer.moved count).amount (min asked incoming.length)
    readRound asked count incoming reads [] =
      .ok ({ returned := received, buffer := some (incoming.take received)
             incoming := incoming.drop received, reads := reads }, []) := by
  intro received
  unfold readRound
  -- The buffer is there whether it was to grow or not.
  by_cases whole : received = asked
  · rw [if_pos whole, run_bind malloc_nil]
    rfl
  · rw [if_neg whole]
    rfl

/-- A round that fills its request returns the number of bytes asked for. -/
theorem readRound_filled {asked count : Nat} {incoming : List UInt8} (fills : asked ≤ max count 1)
    (there : asked ≤ incoming.length) (reads : List Transfer) :
    readRound asked count incoming reads [] =
      .ok ({ returned := asked, buffer := some (incoming.take asked)
             incoming := incoming.drop asked, reads := reads }, []) := by
  -- The transfer gives all that is asked for.
  rw [readRound_given, Transfer.amount_fills fills there]

/-- `read_all` gets its bytes if its first read does. -/
theorem readAll_filled (socket : Socket) (opened : socket.isOpen = true) {asked : Nat}
    {block : Bool} (room : block = true ∨ asked = 0) (filled : Filled asked socket.reads)
    (there : asked ≤ socket.incoming.length) (fullBuffer : Bool) :
    readAll block asked fullBuffer socket [] =
      .ok (((asked, some (socket.incoming.take asked)),
        { socket with
          incoming := socket.incoming.drop asked, reads := socket.reads.tail }), []) := by
  -- There is room for the bytes, and the loop ends with its first round.
  have here : (get : StateT Socket C Socket) socket [] = .ok ((socket, socket), []) := rfl
  unfold readAll
  rw [runOver_bind here, if_neg (by
    rcases room with given | zero
    · simp [opened, given]
    · simp [opened, zero])]
  have loop : readLoop asked fullBuffer socket.incoming socket.reads [] =
      .ok ({ returned := asked, buffer := some (socket.incoming.take asked)
             incoming := socket.incoming.drop asked, reads := socket.reads.tail }, []) := by
    cases script : socket.reads with
    | nil => exact readRound_filled (le_max_left asked 1) there []
    | cons outcome outcomes =>
      have fills := filled outcome (by rw [script]; rfl)
      cases outcome with
      | moved count => exact readRound_filled fills there outcomes
      | interrupted => exact fills.elim
      | failed => exact fills.elim
  rw [Int.toNat_natCast, runOver_bind (runOver_lift loop)]
  rfl

end ChainTable
