import ChainTable.Replication.Connection
import ChainTable.Server.Update
import ChainTable.Wire.Session

/-! Every call gets the reply to its own request when the calls write and read in turn. -/

namespace ChainTable.Connection

open ChainTable

/-- A request of a call that the successor has answered. -/
structure Exchange where
  call : Nat
  request : Frame
  reply : Frame

/-- The replies still to be read, the first of which may have lost its length already. -/
def unread (index : Nat) (reading : Bool) : List Exchange → List Marked
  | [] => []
  | exchange :: later =>
    -- Replies carry the position of what they answer, which grows along the stream.
    mark index (if reading then exchange.reply.body else exchange.reply.bytes) ++
      unread (index + 1) false later

/-- The bytes of requests that were written whole. -/
def unserved (sent : List (Nat × Frame)) : List Marked :=
  sent.flatMap fun written => mark written.1 written.2.bytes

/-- The bytes of a request of which only the length was written. -/
def begun (writer : Option (Nat × Frame)) : List Marked :=
  writer.toList.flatMap fun written => mark written.1 (htons written.2.body.length)

/-- The calls that read: the one between a length and its body, and those that have finished. -/
structure Readers (calls : List Call) (done answered : List Exchange) (reading : Bool) : Prop where
  lengthRead : ∀ call request first second,
    calls[call]? = some ⟨request, .lengthRead first second⟩ →
      reading = true ∧ ∃ reply later, answered = ⟨call, request, reply⟩ :: later ∧
        [first, second] = mark done.length (htons reply.body.length)
  between : reading = true → ∃ exchange later first second, answered = exchange :: later ∧
    calls[exchange.call]? = some ⟨exchange.request, .lengthRead first second⟩
  finished : ∀ call request received, calls[call]? = some ⟨request, .finished received⟩ →
    ∃ index reply, done[index]? = some ⟨call, request, reply⟩ ∧ received = mark index reply.bytes

/--
The connection is a pipeline: requests and replies lie on it one behind the other.

The calls at its two ends are one that has written only a length,
and one that has read only a length.
-/
structure Pipeline (state : State) (done answered : List Exchange) (sent : List (Nat × Frame))
    (writer : Option (Nat × Frame)) (reading : Bool) : Prop where
  toServer : state.toServer = unserved sent ++ begun writer
  served : state.served =
    (done ++ answered).map fun exchange =>
      (mark exchange.call exchange.request.bytes, exchange.reply)
  toClient : state.toClient = unread done.length reading answered
  waiting : state.waiting = answered.map Exchange.call ++ sent.map Prod.fst
  exchanged : ∀ exchange ∈ done ++ answered,
    ∃ phase, state.calls[exchange.call]? = some ⟨exchange.request, phase⟩
  written : ∀ request ∈ sent, ∃ phase, state.calls[request.1]? = some ⟨request.2, phase⟩
  writing : ∀ call request,
    state.calls[call]? = some ⟨request, .lengthWritten⟩ ↔ writer = some (call, request)
  readers : Readers state.calls done answered reading

/-- The two steps in which a call writes put on the stream what `network_send_receive` does. -/
theorem sendRequest_frame {codec : Codec} {msg : MessageT} {socket : Socket}
    (accepts : socket.AcceptsAll) (frame : Frame) (packed : frame.body = codec.pack msg) :
    ∃ left, sendRequest codec msg socket [] = .ok ((true,
      { socket with
        written := socket.written ++ htons frame.body.length ++ frame.body
        writes := left }), []) := by
  -- The size does not wrap, so all of the body is written behind it.
  have fits : (codec.pack msg).length ≤ maxFrame := packed ▸ frame.small
  obtain ⟨left, -, sent⟩ := sendRequest_fits fits accepts
  refine ⟨left, ?_⟩
  rw [sent, frameOf, packed, List.append_assoc]

/-- What the successor takes off the stream is what `network_receive` reads from it. -/
theorem takeFrame_received {stream request behind : List Marked}
    (took : takeFrame stream = some (request, behind)) (garbage : Garbage) :
    receiveBody garbage ⟨true, [], [], stream.map Prod.fst, []⟩ [] =
      .ok ((some ((request.drop 2).map Prod.fst),
        ⟨true, [], [], behind.map Prod.fst, []⟩), []) := by
  obtain ⟨first, second, rest, rfl⟩ : ∃ first second rest, stream = first :: second :: rest := by
    cases stream with
    | nil => cases took
    | cons first others =>
      cases others with
      | nil => cases took
      | cons second rest => exact ⟨first, second, rest, rfl⟩
  simp only [takeFrame] at took
  split at took
  case isFalse => cases took
  case isTrue size =>
    cases took
    obtain ⟨positive, there⟩ := size
    obtain ⟨size, same⟩ := Int.eq_ofNat_of_zero_le positive.le
    rw [same] at positive there ⊢
    -- After the length the reader asks for as many bytes as it says.
    have read : Socket.read 2 ⟨true, [], [], (first :: second :: rest).map Prod.fst, []⟩ = _ :=
      Socket.read_filled rfl (filled_nil 2) (by simp)
    have handed := receiveRest_filled garbage ⟨true, [], [], rest.map Prod.fst, []⟩ rfl
      (show 1 ≤ size by omega) (by simpa using Int.ofNat_le.mp there) (filled_nil _)
    unfold receiveBody
    rw [runOver_bind (runOver_modifyGet read [])]
    change receiveRest garbage (ntohs first.1 second.1) ⟨true, [], [], rest.map Prod.fst, []⟩ [] = _
    rw [same]
    refine handed.trans ?_
    simp [List.map_take, List.map_drop]

/-- The two steps in which a call reads take off the stream what `network_send_receive` reads. -/
theorem receiveResponse_marked (codec : Codec) (garbage : Garbage) {first second : Marked}
    {behind : List Marked} {size : Nat} (decoded : ntohs first.1 second.1 = size)
    (there : size ≤ behind.length) :
    receiveResponse codec garbage ⟨true, [], [], (first :: second :: behind).map Prod.fst, []⟩ [] =
      .ok ((codec.unpack ((behind.take size).map Prod.fst),
        ⟨true, [], [], (behind.drop size).map Prod.fst, []⟩), []) := by
  -- The marks are not read, so that only the bytes count.
  have response := receiveResponse_length codec garbage decoded
    ⟨true, [], [], (first :: second :: behind).map Prod.fst, []⟩ rfl rfl (by simpa using there) rfl
  rw [response, List.map_take, List.map_drop]
  rfl

/-- Bytes written one after another for one owner are marked one after another. -/
@[simp] theorem mark_append (owner : Nat) (earlier later : List UInt8) :
    mark owner (earlier ++ later) = mark owner earlier ++ mark owner later :=
  List.map_append

/-- As many bytes are marked as are written. -/
@[simp] theorem mark_length (owner : Nat) (bytes : List UInt8) :
    (mark owner bytes).length = bytes.length :=
  List.length_map _

/-- The length in front of a frame takes two bytes, from which its size is read back. -/
theorem mark_htons (owner : Nat) (frame : Frame) :
    ∃ high low, mark owner (htons frame.body.length) = [(high, owner), (low, owner)] ∧
      ntohs high low = frame.body.length := by
  -- A length that fits is read back from its two bytes.
  obtain ⟨high, low, bytes, decoded⟩ := ntohs_htons frame.body.length
  refine ⟨high, low, by rw [bytes]; rfl, ?_⟩
  rw [decoded, int16_of_le frame.small]

/-- A frame in front of a stream is taken off it whole. -/
theorem takeFrame_frame (owner : Nat) (frame : Frame) (behind : List Marked) :
    takeFrame (mark owner frame.bytes ++ behind) = some (mark owner frame.bytes, behind) := by
  obtain ⟨high, low, bytes, decoded⟩ := mark_htons owner frame
  have nonempty := frame.nonempty
  rw [Frame.bytes, mark_append, bytes, List.append_assoc]
  -- The length says exactly how much of what follows is the body.
  simp only [List.cons_append, List.nil_append, takeFrame, decoded]
  rw [if_pos ⟨by omega, by simp⟩, Int.toNat_natCast,
    List.take_left' (mark_length owner frame.body), List.drop_left' (mark_length owner frame.body)]

/-- From the length of a request alone no request is read. -/
theorem takeFrame_begun (writer : Option (Nat × Frame)) : takeFrame (begun writer) = none := by
  cases writer with
  | none => rfl
  | some written =>
    obtain ⟨call, request⟩ := written
    obtain ⟨high, low, bytes, decoded⟩ := mark_htons call request
    have nonempty := request.nonempty
    have length : begun (some (call, request)) = [(high, call), (low, call)] := by
      rw [← bytes]
      simp [begun]
    -- The body is at least one byte long, and no byte of it is there.
    rw [length, takeFrame, decoded, if_neg]
    simp only [List.length_nil]
    omega

/-- A further reply goes to the end of the replies still to be read. -/
theorem unread_concat (index : Nat) {reading : Bool} {answered : List Exchange} (last : Exchange)
    (nonempty : reading = true → answered ≠ []) :
    unread index reading (answered ++ [last]) =
      unread index reading answered ++ mark (index + answered.length) last.reply.bytes := by
  -- The induction is on the replies in front, and only the first may be half read.
  induction answered generalizing index reading with
  | nil =>
    cases reading with
    | false => simp [unread]
    | true => exact absurd rfl (nonempty rfl)
  | cons exchange later ih =>
    have rest : unread (index + 1) false (later ++ [last]) = _ :=
      ih (index + 1) (fun unset => by cases unset)
    have position : index + 1 + later.length = index + (exchange :: later).length := by
      rw [List.length_cons]
      omega
    simp only [List.cons_append, unread, rest, position, List.append_assoc]

/-- Putting a call in another phase changes what is found of this call only. -/
theorem calls_set {calls : List Call} {call : Nat} {old : Call} (found : calls[call]? = some old)
    (new : Call) (other : Nat) :
    (calls.set call new)[other]? = if other = call then some new else calls[other]? := by
  -- The call is the one that is set, or another one.
  by_cases same : other = call
  · subst same
    rw [if_pos rfl, List.getElem?_set_self' , found]
    rfl
  · rw [if_neg same, List.getElem?_set_ne (Ne.symm same)]

/-- A call keeps its request when it is put in another phase. -/
theorem known_set {calls : List Call} {call other : Nat} {request known : Frame} {old new : Phase}
    (found : calls[call]? = some ⟨request, old⟩)
    (before : ∃ phase, calls[other]? = some ⟨known, phase⟩) :
    ∃ phase, (calls.set call ⟨request, new⟩)[other]? = some ⟨known, phase⟩ := by
  -- The call is the one that is set, or another one.
  obtain ⟨phase, before⟩ := before
  rw [calls_set found]
  by_cases same : other = call
  · subst same
    rw [found] at before
    cases before
    exact ⟨new, if_pos rfl⟩
  · exact ⟨phase, by rw [if_neg same, before]⟩

/-- The calls in a phase stay the same when a call goes from a second phase to a third one. -/
theorem phase_kept {calls : List Call} {call : Nat} {request : Frame} {old new phase : Phase}
    (found : calls[call]? = some ⟨request, old⟩) (notOld : phase ≠ old) (notNew : phase ≠ new)
    (other : Nat) (frame : Frame) :
    (calls.set call ⟨request, new⟩)[other]? = some ⟨frame, phase⟩ ↔
      calls[other]? = some ⟨frame, phase⟩ := by
  rw [calls_set found]
  by_cases same : other = call
  · -- The call itself was in the second phase before and is in the third one now.
    subst same
    rw [if_pos rfl, found]
    constructor
    · intro now
      cases now
      exact absurd rfl notNew
    · intro before
      cases before
      exact absurd rfl notOld
  · rw [if_neg same]

/-- A call that was put in a phase is found in it, and so are those that were in it before. -/
theorem phase_reached {calls : List Call} {call : Nat} {request : Frame} {old new : Phase}
    (found : calls[call]? = some ⟨request, old⟩) {other : Nat} {frame : Frame} {phase : Phase}
    (now : (calls.set call ⟨request, new⟩)[other]? = some ⟨frame, phase⟩) :
    other = call ∧ frame = request ∧ phase = new ∨
      other ≠ call ∧ calls[other]? = some ⟨frame, phase⟩ := by
  -- The call is the one that is set, or another one.
  rw [calls_set found] at now
  by_cases same : other = call
  · rw [if_pos same] at now
    cases now
    exact .inl ⟨same, rfl, rfl⟩
  · rw [if_neg same] at now
    exact .inr ⟨same, now⟩

/-- The call does not read in this phase. -/
def Phase.Writes : Phase → Prop
  | .ready | .lengthWritten | .bodyWritten => True
  | .lengthRead _ _ | .finished _ => False

/-- A call that goes from writing to writing leaves alone the calls that read. -/
theorem Readers.write {calls : List Call} {done answered : List Exchange} {reading : Bool}
    (readers : Readers calls done answered reading) {call : Nat} {request : Frame}
    {old new : Phase} (found : calls[call]? = some ⟨request, old⟩) (before : old.Writes)
    (after : new.Writes) : Readers (calls.set call ⟨request, new⟩) done answered reading := by
  -- A phase in which a call reads is none of the two.
  have kept : ∀ phase : Phase, ¬ phase.Writes → ∀ (other : Nat) (frame : Frame),
      (calls.set call ⟨request, new⟩)[other]? = some ⟨frame, phase⟩ ↔
        calls[other]? = some ⟨frame, phase⟩ := by
    intro phase reads other frame
    refine phase_kept found ?_ ?_ other frame
    · rintro rfl
      exact reads before
    · rintro rfl
      exact reads after
  refine
    { lengthRead := fun other frame first second now => ?_
      between := fun set => ?_
      finished := fun other frame received now => ?_ }
  · exact readers.lengthRead other frame first second ((kept _ id other frame).mp now)
  · obtain ⟨exchange, later, first, second, head, now⟩ := readers.between set
    exact ⟨exchange, later, first, second, head, (kept _ id _ _).mpr now⟩
  · exact readers.finished other frame received ((kept _ id other frame).mp now)

section Steps

variable {state next : State} {done answered : List Exchange} {sent : List (Nat × Frame)}
  {writer : Option (Nat × Frame)} {reading : Bool}

/-- A length written while no other one stands alone begins a request at the end of the stream. -/
theorem Pipeline.writeLength (pipeline : Pipeline state done answered sent writer reading)
    {call : Nat} (alone : ∀ other ∈ state.calls, other.phase ≠ .lengthWritten)
    (stepped : step state (.writeLength call) = some next) :
    ∃ request, Pipeline next done answered sent (some (call, request)) reading := by
  -- No request is begun, or the call that began it would still be in between.
  have noneBegun : writer = none := by
    cases writer with
    | none => rfl
    | some written =>
      have between := (pipeline.writing written.1 written.2).mpr rfl
      exact absurd rfl (alone _ (List.mem_of_getElem? between))
  subst noneBegun
  simp only [step] at stepped
  split at stepped
  case h_2 => cases stepped
  case h_1 request found =>
    cases stepped
    refine ⟨request,
      { toServer := by simp [pipeline.toServer, begun]
        served := pipeline.served
        toClient := pipeline.toClient
        waiting := pipeline.waiting
        exchanged := fun exchange member => known_set found (pipeline.exchanged exchange member)
        written := fun request member => known_set found (pipeline.written request member)
        writing := ?_
        readers := pipeline.readers.write found trivial trivial }⟩
    · intro other frame
      constructor
      · intro now
        rcases phase_reached found now with ⟨rfl, rfl, -⟩ | ⟨-, before⟩
        · rfl
        · cases (pipeline.writing other frame).mp before
      · intro same
        cases same
        rw [calls_set found, if_pos rfl]

/-- A body written behind its length makes the request whole. -/
theorem Pipeline.writeBody (pipeline : Pipeline state done answered sent writer reading)
    {call : Nat} (stepped : step state (.writeBody call) = some next) :
    ∃ request, Pipeline next done answered (sent ++ [(call, request)]) none reading := by
  simp only [step] at stepped
  split at stepped
  case h_2 => cases stepped
  case h_1 request found =>
    cases stepped
    -- The call is the one whose length stands at the end of the stream.
    obtain rfl := (pipeline.writing call request).mp found
    refine ⟨request,
      { toServer := ?_
        served := pipeline.served
        toClient := pipeline.toClient
        waiting := by simp [pipeline.waiting]
        exchanged := fun exchange member => known_set found (pipeline.exchanged exchange member)
        written := ?_
        writing := ?_
        readers := pipeline.readers.write found trivial trivial }⟩
    · simp [pipeline.toServer, begun, unserved, Frame.bytes]
    · intro request' member
      rcases List.mem_append.mp member with before | last
      · exact known_set found (pipeline.written request' before)
      · obtain rfl := List.mem_singleton.mp last
        exact ⟨_, by rw [calls_set found, if_pos rfl]⟩
    · intro other frame
      constructor
      · intro now
        rcases phase_reached found now with ⟨-, -, same⟩ | ⟨different, before⟩
        · cases same
        · cases (pipeline.writing other frame).mp before
          exact absurd rfl different
      · intro same
        cases same

/-- What the successor reads is the request of one call, and its reply goes to the end. -/
theorem Pipeline.serve (pipeline : Pipeline state done answered sent writer reading)
    {reply : Frame} (stepped : step state (.serve reply) = some next) :
    ∃ exchange sent', Pipeline next done (answered ++ [exchange]) sent' writer reading := by
  simp only [step] at stepped
  split at stepped
  case h_2 => cases stepped
  case h_1 request behind took =>
    cases stepped
    cases sent with
    | nil =>
      -- Without a whole request on the stream nothing can be read.
      rw [pipeline.toServer] at took
      change takeFrame (begun writer) = _ at took
      rw [takeFrame_begun] at took
      cases took
    | cons written sent =>
      obtain ⟨call, frame⟩ := written
      have stream : state.toServer = mark call frame.bytes ++ (unserved sent ++ begun writer) := by
        rw [pipeline.toServer, unserved, List.flatMap_cons, List.append_assoc]
        rfl
      rw [stream, takeFrame_frame] at took
      cases took
      refine ⟨⟨call, frame, reply⟩, sent,
        { toServer := rfl
          served := by simp [pipeline.served]
          toClient := ?_
          waiting := by simp [pipeline.waiting]
          exchanged := ?_
          written := fun request member => pipeline.written request (by simp [member])
          writing := pipeline.writing
          readers := ?_ }⟩
      · have position : state.served.length = done.length + answered.length := by
          rw [pipeline.served, List.length_map, List.length_append]
        change state.toClient ++ mark state.served.length reply.bytes = _
        rw [pipeline.toClient, position, unread_concat]
        intro set empty
        obtain ⟨exchange, later, first, second, head, -⟩ := pipeline.readers.between set
        rw [empty] at head
        cases head
      · intro exchange member
        rw [← List.append_assoc] at member
        rcases List.mem_append.mp member with before | last
        · exact pipeline.exchanged exchange before
        · obtain rfl := List.mem_singleton.mp last
          exact pipeline.written (call, frame) (by simp)
      · refine
          { lengthRead := fun other frame' first second now => ?_
            between := fun set => ?_
            finished := pipeline.readers.finished }
        · obtain ⟨set, reply', later, head, length⟩ :=
            pipeline.readers.lengthRead other frame' first second now
          exact ⟨set, reply', later ++ [⟨call, frame, reply⟩], by rw [head]; rfl, length⟩
        · obtain ⟨exchange, later, first, second, head, now⟩ := pipeline.readers.between set
          exact ⟨exchange, later ++ [⟨call, frame, reply⟩], first, second, by rw [head]; rfl, now⟩

/-- The call that waits longest reads the length of the reply to its own request. -/
theorem Pipeline.readLength (pipeline : Pipeline state done answered sent writer reading)
    {call : Nat} (turn : state.waiting.head? = some call)
    (stepped : step state (.readLength call) = some next) :
    Pipeline next done answered sent writer true := by
  simp only [step] at stepped
  split at stepped
  case h_2 => cases stepped
  case h_1 request first second behind found stream =>
    cases stepped
    rw [pipeline.toClient] at stream
    cases answered with
    | nil => cases stream
    | cons exchange later =>
      -- The first reply on the stream answers the first call that waits.
      rw [pipeline.waiting, List.map_cons, List.cons_append, List.head?_cons] at turn
      obtain rfl := Option.some.inj turn
      obtain ⟨phase, known⟩ := pipeline.exchanged exchange (by simp)
      rw [found] at known
      cases known
      have fresh : reading = false := by
        cases reading with
        | false => rfl
        | true =>
          obtain ⟨other, _, _, _, head, now⟩ := pipeline.readers.between rfl
          cases head
          rw [found] at now
          cases now
      subst fresh
      obtain ⟨high, low, bytes, -⟩ := mark_htons done.length exchange.reply
      simp only [unread, Bool.false_eq_true, if_false, Frame.bytes, mark_append, bytes,
        List.cons_append, List.nil_append] at stream
      cases stream
      refine
        { toServer := pipeline.toServer
          served := pipeline.served
          toClient := rfl
          waiting := pipeline.waiting
          exchanged := fun exchange member => known_set found (pipeline.exchanged exchange member)
          written := fun request member => known_set found (pipeline.written request member)
          writing := fun other frame =>
            (phase_kept found (by simp) (by simp) other frame).trans (pipeline.writing other frame)
          readers :=
            { lengthRead := fun other frame first second now => ?_
              between := fun _ => ⟨exchange, later, (high, done.length), (low, done.length), rfl,
                by rw [calls_set found, if_pos rfl]⟩
              finished := fun other frame received now => ?_ } }
      · rcases phase_reached found now with ⟨rfl, rfl, same⟩ | ⟨-, before⟩
        · cases same
          exact ⟨rfl, exchange.reply, later, rfl, bytes.symm⟩
        · cases (pipeline.readers.lengthRead other frame first second before).1
      · exact pipeline.readers.finished other frame received
          ((phase_kept found (by simp) (by simp) other frame).mp now)

/-- The call that has read a length reads the body behind it, and so the reply to its request. -/
theorem Pipeline.readBody (pipeline : Pipeline state done answered sent writer reading)
    {call : Nat} (stepped : step state (.readBody call) = some next) :
    ∃ exchange later, Pipeline next (done ++ [exchange]) later sent writer false := by
  simp only [step] at stepped
  split at stepped
  case h_2 => cases stepped
  case h_1 request first second found =>
    obtain ⟨rfl, reply, later, rfl, length⟩ :=
      pipeline.readers.lengthRead call request first second found
    obtain ⟨high, low, bytes, decoded⟩ := mark_htons done.length reply
    rw [bytes] at length
    cases length
    -- What is left of the first reply on the stream is its body.
    have stream : state.toClient =
        mark done.length reply.body ++ unread (done.length + 1) false later := pipeline.toClient
    split at stepped
    case isFalse => cases stepped
    case isTrue =>
      cases stepped
      simp only [decoded, Int.toNat_natCast, stream,
        List.take_left' (mark_length done.length reply.body),
        List.drop_left' (mark_length done.length reply.body)]
      refine ⟨⟨call, request, reply⟩, later,
        { toServer := pipeline.toServer
          served := by simp [pipeline.served]
          toClient := by rw [List.length_append]; rfl
          waiting := by simp [pipeline.waiting]
          exchanged := fun exchange member =>
            known_set found (pipeline.exchanged exchange (by simpa using member))
          written := fun request member => known_set found (pipeline.written request member)
          writing := fun other frame =>
            (phase_kept found (by simp) (by simp) other frame).trans (pipeline.writing other frame)
          readers :=
            { lengthRead := fun other frame first second now => ?_
              between := fun unset => by cases unset
              finished := fun other frame received now => ?_ } }⟩
      · rcases phase_reached found now with ⟨-, -, same⟩ | ⟨different, before⟩
        · cases same
        · -- No other call stands between a length and its body.
          obtain ⟨-, _, _, head, -⟩ := pipeline.readers.lengthRead other frame first second before
          cases head
          exact absurd rfl different
      · rcases phase_reached found now with ⟨rfl, rfl, same⟩ | ⟨-, before⟩
        · cases same
          refine ⟨done.length, reply, by simp, ?_⟩
          rw [Frame.bytes, mark_append, bytes]
          rfl
        · obtain ⟨index, reply', member, same⟩ :=
            pipeline.readers.finished other frame received before
          refine ⟨index, reply', ?_, same⟩
          rw [List.getElem?_append_left (List.getElem?_eq_some_iff.mp member).1, member]

end Steps

/-- Each step of a thread or of the successor, taken in turn, keeps the connection a pipeline. -/
theorem pipeline_step {state next : State} {label : Step} (serial : Serial state label)
    (stepped : step state label = some next)
    (before : ∃ done answered sent writer reading,
      Pipeline state done answered sent writer reading) :
    ∃ done answered sent writer reading, Pipeline next done answered sent writer reading := by
  -- There is one lemma for each kind of step.
  obtain ⟨done, answered, sent, writer, reading, pipeline⟩ := before
  cases label with
  | writeLength call =>
    obtain ⟨request, after⟩ := pipeline.writeLength serial stepped
    exact ⟨done, answered, sent, some (call, request), reading, after⟩
  | writeBody call =>
    obtain ⟨request, after⟩ := pipeline.writeBody stepped
    exact ⟨done, answered, sent ++ [(call, request)], none, reading, after⟩
  | serve reply =>
    obtain ⟨exchange, sent', after⟩ := pipeline.serve stepped
    exact ⟨done, answered ++ [exchange], sent', writer, reading, after⟩
  | readLength call =>
    exact ⟨done, answered, sent, writer, true, pipeline.readLength serial stepped⟩
  | readBody call =>
    obtain ⟨exchange, later, after⟩ := pipeline.readBody stepped
    exact ⟨done ++ [exchange], later, sent, writer, false, after⟩

/-- A connection that no call has used yet is an empty pipeline. -/
theorem pipeline_start (requests : List Frame) : Pipeline (start requests) [] [] [] none false := by
  -- Every call is ready, so none of them is in another phase.
  have ready : ∀ (call : Nat) (request : Frame) (phase : Phase),
      (start requests).calls[call]? = some ⟨request, phase⟩ → phase = .ready := by
    intro call request phase found
    obtain ⟨frame, -, same⟩ := List.mem_map.mp (List.mem_of_getElem? found)
    cases same
    rfl
  exact
    { toServer := rfl
      served := rfl
      toClient := rfl
      waiting := rfl
      exchanged := fun exchange member => by cases member
      written := fun request member => by cases member
      writing := fun call request =>
        ⟨fun found => (by cases ready call request _ found), fun same => (by cases same)⟩
      readers :=
        { lengthRead := fun call request first second found => by
            cases ready call request _ found
          between := fun set => by cases set
          finished := fun call request received found => by
            cases ready call request _ found } }

/-- In a pipeline the successor reads whole requests, and calls read their own replies. -/
theorem Pipeline.own {state : State} {done answered : List Exchange} {sent : List (Nat × Frame)}
    {writer : Option (Nat × Frame)} {reading : Bool}
    (pipeline : Pipeline state done answered sent writer reading) :
    ServedWhole state ∧ AnsweredOwn state := by
  constructor
  · intro exchange member
    rw [pipeline.served] at member
    obtain ⟨served, inside, rfl⟩ := List.mem_map.mp member
    obtain ⟨phase, sender⟩ := pipeline.exchanged served inside
    exact ⟨served.call, _, sender, rfl⟩
  · intro call request received found
    obtain ⟨index, reply, finished, same⟩ := pipeline.readers.finished call request received found
    refine ⟨index, reply, ?_, same⟩
    -- What is done was served first, in the same order.
    have bound := (List.getElem?_eq_some_iff.mp finished).1
    rw [pipeline.served, List.getElem?_map, List.getElem?_append_left bound, finished]
    rfl

/--
Every request is served whole, and every call reads the reply to its own request.

The run is any interleaving of the steps of any number of calls, in which lengths are not written
between a length and its body, and replies are read in the order in which the requests were written.
-/
theorem own_replies_of_serial {requests : List Frame} {steps : List Step}
    (serial : Machine.Guarded step Serial (start requests) steps) {final : State}
    (ran : Machine.run step (start requests) steps = some final) :
    ServedWhole final ∧ AnsweredOwn final := by
  -- At the start nothing is on the connection, and each step keeps it a pipeline.
  have begins : ∃ done answered sent writer reading,
      Pipeline (start requests) done answered sent writer reading :=
    ⟨[], [], [], none, false, pipeline_start requests⟩
  obtain ⟨done, answered, sent, writer, reading, pipeline⟩ :=
    Machine.run_invariant (fun _ _ _ before serial stepped => pipeline_step serial stepped before)
      begins serial ran
  exact pipeline.own

/-- Marked bytes show whom they were written for. -/
theorem owner_of_mem {owner : Nat} {bytes : List UInt8} {marked : Marked}
    (member : marked ∈ mark owner bytes) : marked.2 = owner := by
  -- Every byte was marked with the same owner.
  obtain ⟨byte, -, rfl⟩ := List.mem_map.mp member
  rfl

/-- The bytes of "k" hold no terminator. -/
theorem nulFree_k : (0 : UInt8) ∉ [107] := by
  -- There is one byte, and it is not zero.
  decide

/-- The frame of the request to put a byte under the key "k". -/
def putFrame : Frame where
  body := messagePack (Update.put ⟨[107], nulFree_k⟩ ⟨[1], by decide⟩).request
  nonempty := by decide
  small := by decide

/-- The frame of the request to delete the key "d". -/
def delFrame : Frame where
  body := messagePack (Update.del ⟨[100], by decide⟩).request
  nonempty := by decide
  small := by decide

/-- The frame of the reply to a PUT that went through. -/
def doneFrame : Frame where
  body := messagePack { opcode := opPut + 1, cType := ctNone }
  nonempty := by decide
  small := by decide

/-- The frame of the reply to a request that failed. -/
def errorFrame : Frame where
  body := messagePack { opcode := opError, cType := ctNone }
  nonempty := by decide
  small := by decide

/--
A PUT that went through and a DEL that failed read each other's replies.

If the second length is written before the first body, the successor reads a mixture as a request.
-/
theorem replies_are_swapped :
    (∃ final, Machine.run step (start [putFrame, delFrame])
        [.writeLength 0, .writeBody 0, .writeLength 1, .writeBody 1, .serve doneFrame,
          .serve errorFrame, .readLength 1, .readBody 1, .readLength 0, .readBody 0] = some final ∧
      ¬ AnsweredOwn final) ∧
    ∃ final, Machine.run step (start [putFrame, delFrame])
        [.writeLength 0, .writeLength 1, .writeBody 0, .writeBody 1, .serve errorFrame] =
          some final ∧
      ¬ ServedWhole final := by
  constructor
  · refine ⟨⟨[⟨putFrame, .finished (mark 1 errorFrame.bytes)⟩,
      ⟨delFrame, .finished (mark 0 doneFrame.bytes)⟩], [], [],
      [(mark 0 putFrame.bytes, doneFrame), (mark 1 delFrame.bytes, errorFrame)], []⟩,
      by decide +kernel, fun own => ?_⟩
    obtain ⟨index, reply, served, same⟩ := own 0 putFrame _ rfl
    -- What the PUT has read was written as the second reply, which answers the DEL.
    have first : ((0 : UInt8), 1) ∈ mark 1 errorFrame.bytes := by decide
    rw [same] at first
    obtain rfl := owner_of_mem first
    have others : mark 1 delFrame.bytes ≠ mark 0 putFrame.bytes := by decide
    exact others (congrArg Prod.fst (Option.some.inj served))
  · let steps : List Step :=
      [.writeLength 0, .writeLength 1, .writeBody 0, .writeBody 1, .serve errorFrame]
    have mixed : (Machine.run step (start [putFrame, delFrame]) steps).map
        (fun state => state.served.map fun exchange => exchange.1.take 4) =
        some [[(0, 0), (12, 0), (0, 1), (7, 1)]] := by decide +kernel
    obtain ⟨final, ran, served⟩ := Option.map_eq_some_iff.mp mixed
    refine ⟨final, ran, fun whole => ?_⟩
    obtain ⟨exchange, rest, list, here, -⟩ := List.map_eq_cons_iff.mp served
    obtain ⟨call, sender, -, same⟩ := whole exchange (by rw [list]; exact List.mem_cons_self)
    -- One request has bytes of the lengths of both calls.
    have fromCall : ∀ marked ∈ exchange.1.take 4, marked.2 = call := fun marked member =>
      owner_of_mem (same ▸ List.mem_of_mem_take member)
    rw [here] at fromCall
    have zero := fromCall (0, 0) (by simp)
    have one := fromCall (0, 1) (by simp)
    exact absurd (zero.trans one.symm) (by decide)

/-- Two calls that write at the same time, but in turn, read their own replies. -/
theorem own_replies_of_serial_two_calls :
    ∃ final, Machine.run step (start [putFrame, delFrame])
        [.writeLength 1, .writeBody 1, .writeLength 0, .writeBody 0, .serve errorFrame,
          .serve doneFrame, .readLength 1, .readBody 1, .readLength 0, .readBody 0] = some final ∧
      ServedWhole final ∧ AnsweredOwn final := by
  -- The run keeps to the condition, which is evaluated along it.
  have serial : Machine.Guarded step Serial (start [putFrame, delFrame])
      [.writeLength 1, .writeBody 1, .writeLength 0, .writeBody 0, .serve errorFrame,
        .serve doneFrame, .readLength 1, .readBody 1, .readLength 0, .readBody 0] := by
    decide +kernel
  have runs : (Machine.run step (start [putFrame, delFrame])
      [.writeLength 1, .writeBody 1, .writeLength 0, .writeBody 0, .serve errorFrame,
        .serve doneFrame, .readLength 1, .readBody 1, .readLength 0, .readBody 0]).isSome := by
    decide +kernel
  obtain ⟨final, ran⟩ := Option.isSome_iff_exists.mp runs
  exact ⟨final, ran, own_replies_of_serial serial ran⟩

end ChainTable.Connection
