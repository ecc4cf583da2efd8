import ChainTable.Local.Memory

/-! A connected socket, and the loops that read and write a whole buffer through it. -/

namespace ChainTable

/-- How a call of `read` or `write` ends. -/
inductive Transfer where
  /-- It moves a number of bytes, at least one and at most as many as it can. -/
  | moved (count : Nat)
  /-- It fails with EINTR. -/
  | interrupted
  /-- It fails with another error. -/
  | failed
  deriving DecidableEq, Repr

/-- The number of bytes moved by a call that can move so many at most. -/
def Transfer.amount (most : Nat) : Transfer → Nat
  | .moved count => min (max count 1) most
  | _ => 0

/--
One end of a connection: what was written to it, and what there is to be read from it.

The outcomes of the calls to come are scripted.
Past the end of a script every call moves what it can.
-/
structure Socket where
  isOpen : Bool := true
  written : List UInt8 := []
  writes : List Transfer := []
  incoming : List UInt8 := []
  reads : List Transfer := []
  deriving DecidableEq, Repr

/-- A single `write`: the number of bytes it accepted, or none on an error. -/
def Socket.write (bytes : List UInt8) (socket : Socket) : Option Nat × Socket :=
  if socket.isOpen then
    let after := { socket with writes := socket.writes.tail }
    match socket.writes.headD (.moved bytes.length) with
    | .moved count =>
      let accepted := (Transfer.moved count).amount bytes.length
      (some accepted, { after with written := socket.written ++ bytes.take accepted })
    | _ => (none, after)
  else (none, socket)

/-- A single `read` into room for so many bytes: the bytes received, or none on an error. -/
def Socket.read (asked : Nat) (socket : Socket) : Option (List UInt8) × Socket :=
  if socket.isOpen then
    let after := { socket with reads := socket.reads.tail }
    match socket.reads.headD (.moved asked) with
    | .moved count =>
      -- With nothing left to be read, zero bytes are received.
      let received := (Transfer.moved count).amount (min asked socket.incoming.length)
      (some (socket.incoming.take received),
        { after with incoming := socket.incoming.drop received })
    | _ => (none, after)
  else (none, socket)

/-- `close`. -/
def Socket.close (socket : Socket) : Socket := { socket with isOpen := false }

/-- The loop of `write_all`: whether it got through, the bytes accepted, and the outcomes left. -/
def writeLoop : List Transfer → List UInt8 → Bool × List UInt8 × List Transfer
  | [], bytes => (true, bytes, [])
  | outcome :: outcomes, bytes =>
    if bytes = [] then (true, [], outcome :: outcomes)
    else match outcome with
    | .moved count =>
      let accepted := (Transfer.moved count).amount bytes.length
      let (completed, others, left) := writeLoop outcomes (bytes.drop accepted)
      (completed, bytes.take accepted ++ others, left)
    -- After EINTR the same bytes are offered again.
    | .interrupted => writeLoop outcomes bytes
    | .failed => (false, [], outcomes)

/-- `write_all`. -/
def writeAll (buffer : List UInt8) (size : Int) : StateT Socket C Int := do
  -- A size that is not positive leaves nothing to be written.
  let bytes := buffer.take size.toNat
  if bytes.length < size then throw .outOfBounds
  let socket ← get
  if bytes ≠ [] ∧ !socket.isOpen then return -1
  let (completed, accepted, left) := writeLoop socket.writes bytes
  set { socket with written := socket.written ++ accepted, writes := left }
  return if completed then size else -1

/-- What `read_all` leaves behind: its result, the buffer it filled, and the rest of the stream. -/
structure ReadAll where
  returned : Int
  /-- The bytes read, unless the buffer is lost to a failed `realloc`. -/
  buffer : Option (List UInt8)
  incoming : List UInt8
  reads : List Transfer
  deriving DecidableEq, Repr

/-- A round of `read_all` in which `read` moves bytes, which ends the loop. -/
def readRound (asked count : Nat) (incoming : List UInt8) (reads : List Transfer) : C ReadAll := do
  let received := (Transfer.moved count).amount (min asked incoming.length)
  -- Only a read that filled the request makes the buffer grow.
  let kept ← if received = asked then malloc else pure true
  return { returned := received, buffer := if kept then some (incoming.take received) else none
           incoming := incoming.drop received, reads := reads }

/--
The loop of `read_all`, with what happens to be in `fullBuffer` before it is set.

A round goes on to another one only after EINTR, so every round starts with nothing read.
-/
def readLoop (asked : Nat) (fullBuffer : Bool) (incoming : List UInt8) : List Transfer → C ReadAll
  | [] => readRound asked asked incoming []
  | .moved count :: reads => readRound asked count incoming reads
  -- The `continue` of a do loop goes to its condition, which reads `fullBuffer`.
  | .interrupted :: reads =>
    if fullBuffer then readLoop asked fullBuffer incoming reads
    else return { returned := 0, buffer := some [], incoming := incoming, reads := reads }
  | .failed :: reads =>
    return { returned := -1, buffer := some [], incoming := incoming, reads := reads }

/-- `read_all` into a block, or into NULL. -/
def readAll (block : Bool) (readNBytes : Int) (fullBuffer : Bool) :
    StateT Socket C (Int × Option (List UInt8)) := do
  let socket ← get
  -- NULL or a size above all addresses makes `read` fail with EFAULT.
  if !socket.isOpen ∨ readNBytes < 0 ∨ (!block ∧ readNBytes ≠ 0) then
    return (-1, if block then some [] else none)
  let result ← (readLoop readNBytes.toNat fullBuffer socket.incoming socket.reads : C _)
  set { socket with incoming := result.incoming, reads := result.reads }
  return (result.returned, result.buffer)

end ChainTable
