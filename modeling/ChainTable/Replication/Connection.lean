import ChainTable.Library.Machine
import ChainTable.Wire.Receiving

/-! Many threads that exchange requests for replies over one connection to the successor. -/

namespace ChainTable.Connection

open ChainTable

/-- A byte on a stream, with the request or the reply that it was written for. -/
abbrev Marked := UInt8 × Nat

/-- Bytes that are all written for one request or reply. -/
def mark (owner : Nat) (bytes : List UInt8) : List Marked :=
  -- The mark is not on the wire; it only says where a byte came from.
  bytes.map fun byte => (byte, owner)

/-- How far a call of `network_send_receive` has come. -/
inductive Phase where
  | ready
  | lengthWritten
  | bodyWritten
  /-- The two bytes of a length were read, whosever they are. -/
  | lengthRead (first second : Marked)
  /-- All of a reply was read, its length included. -/
  | finished (received : List Marked)
  deriving DecidableEq, Repr

/-- A call of `network_send_receive` in some thread, with the frame that it sends. -/
structure Call where
  request : Frame
  phase : Phase
  deriving DecidableEq

/-- The connection: its calls, the bytes on both streams, and what the successor has served. -/
structure State where
  calls : List Call
  toServer : List Marked
  toClient : List Marked
  /-- The bytes the successor has read as its requests, and what it replied to each of them. -/
  served : List (List Marked × Frame)
  /-- The calls whose body was written and whose reply was not yet read, in the order of writing. -/
  waiting : List Nat
  deriving DecidableEq

/-- A step of some thread, or of the successor. -/
inductive Step where
  | writeLength (call : Nat)
  | writeBody (call : Nat)
  /-- The successor reads a whole request and replies to it. -/
  | serve (reply : Frame)
  | readLength (call : Nat)
  | readBody (call : Nat)
  deriving DecidableEq

/-- The length and the body that a reader takes off a stream, if all of them are there. -/
def takeFrame : List Marked → Option (List Marked × List Marked)
  | first :: second :: behind =>
    -- The reader sees the bytes alone, not what they were written for.
    let size := ntohs first.1 second.1
    if 0 < size ∧ size ≤ behind.length then
      some (first :: second :: behind.take size.toNat, behind.drop size.toNat)
    else none
  | _ => none

/-- What one step of a thread or of the successor does, if it is possible. -/
def step (state : State) : Step → Option State
  | .writeLength call =>
    match state.calls[call]? with
    | some ⟨request, .ready⟩ =>
      some { state with calls := state.calls.set call ⟨request, .lengthWritten⟩
                        toServer := state.toServer ++ mark call (htons request.body.length) }
    | _ => none
  | .writeBody call =>
    match state.calls[call]? with
    | some ⟨request, .lengthWritten⟩ =>
      some { state with calls := state.calls.set call ⟨request, .bodyWritten⟩
                        toServer := state.toServer ++ mark call request.body
                        waiting := state.waiting ++ [call] }
    | _ => none
  | .serve reply =>
    match takeFrame state.toServer with
    | some (request, behind) =>
      some { state with toServer := behind, served := state.served ++ [(request, reply)]
                        toClient := state.toClient ++ mark state.served.length reply.bytes }
    | none => none
  | .readLength call =>
    match state.calls[call]?, state.toClient with
    | some ⟨request, .bodyWritten⟩, first :: second :: behind =>
      some { state with calls := state.calls.set call ⟨request, .lengthRead first second⟩
                        toClient := behind }
    | _, _ => none
  | .readBody call =>
    match state.calls[call]? with
    | some ⟨request, .lengthRead first second⟩ =>
      -- As many bytes are read as the length says, and the call waits until they are there.
      let size := (ntohs first.1 second.1).toNat
      if size ≤ state.toClient.length then
        let received := first :: second :: state.toClient.take size
        some { state with calls := state.calls.set call ⟨request, .finished received⟩
                          toClient := state.toClient.drop size, waiting := state.waiting.tail }
      else none
    | _ => none

/-- The connection when no call has begun. -/
def start (requests : List Frame) : State where
  calls := requests.map fun request => ⟨request, .ready⟩
  toServer := []
  toClient := []
  served := []
  waiting := []

/-- Every request that was served is the frame of one call, with its length and its body. -/
def ServedWhole (state : State) : Prop :=
  ∀ exchange ∈ state.served, ∃ (call : Nat) (sender : Call), state.calls[call]? = some sender ∧
    exchange.1 = mark call sender.request.bytes

/-- Every call that finished has read the reply to its own request. -/
def AnsweredOwn (state : State) : Prop :=
  ∀ (call : Nat) (request : Frame) (received : List Marked),
    state.calls[call]? = some ⟨request, .finished received⟩ →
      ∃ (index : Nat) (reply : Frame),
        state.served[index]? = some (mark call request.bytes, reply) ∧
        received = mark index reply.bytes

/-- Requests are written one at a time, and replies are read in the order of the requests. -/
def Serial (state : State) : Step → Prop
  | .writeLength _ => ∀ other ∈ state.calls, other.phase ≠ .lengthWritten
  | .readLength call => state.waiting.head? = some call
  | _ => True

instance (state : State) (label : Step) : Decidable (Serial state label) :=
  match label with
  | .writeLength _ => inferInstanceAs (Decidable (∀ other ∈ state.calls, _))
  | .readLength call => inferInstanceAs (Decidable (state.waiting.head? = some call))
  | .writeBody _ | .serve _ | .readBody _ => inferInstanceAs (Decidable True)

end ChainTable.Connection
