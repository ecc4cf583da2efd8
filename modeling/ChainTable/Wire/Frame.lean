import ChainTable.Wire.Proto
import ChainTable.Wire.Socket
import ChainTable.Server.Stub

/-! Messages on a stream: the length of a message in two bytes, followed by its packed bytes. -/

namespace ChainTable

/-- The bytes of `htons(value)`, in the order in which they are written. -/
def htons (value : Int) : List UInt8 :=
  [UInt8.ofNat (value % 2 ^ 16 / 2 ^ 8).toNat, UInt8.ofNat (value % 2 ^ 8).toNat]

/-- The `short` that `ntohs` makes of two bytes, in the order in which they were read. -/
def ntohs (first second : UInt8) : Int := int16 (first.toNat * 2 ^ 8 + second.toNat)

/-- `ntohs` of a `short` whose bytes were replaced, from the first one on, by those received. -/
def ntohsOver (received : List UInt8) (before : UInt8 × UInt8) : Int :=
  ntohs (received.getD 0 before.1) (received.getD 1 before.2)

/-- `malloc` of a size that went through `int`, which fails when it was negative. -/
def mallocSize (size : Int) : C Bool := do
  -- A negative size becomes one above all addresses.
  if size < 0 then return false else malloc

/-- `realloc` of a block to a size that went through `int`, which gives NULL for no bytes at all. -/
def reallocSize (size : Int) : C Bool := do
  if size = 0 then return false else mallocSize size

/-- `message_t__pack` into a block of so many bytes. -/
def packInto (codec : Codec) (msg : MessageT) (size : Int) : C (List UInt8) := do
  if size < (codec.pack msg).length then throw .outOfBounds
  return codec.pack msg

/-- The bytes that `message_t__unpack` reads when it is given a buffer and their number. -/
def unpackInput (size : Int) (buffer : Option (List UInt8)) : C (List UInt8) := do
  if size = 0 then return []
  match buffer with
  | none => throw .nullDereference
  | some bytes => return bytes

/-- What happens to be in the local variables that the code reads before they are set. -/
structure Garbage where
  /-- The flag of `read_all`. -/
  fullBuffer : Bool
  /-- The length in `network_send_receive`. -/
  num : UInt8 × UInt8

/-- `network_receive` from the length to `message_t__unpack`: the bytes handed to it, if any. -/
def receiveRest (garbage : Garbage) (num : Int) : StateT Socket C (Option (List UInt8)) := do
  if !(← mallocSize num) then return none
  let (size, buffer) ← readAll true num garbage.fullBuffer
  if 0 < size then return some (← unpackInput size buffer) else return none

/-- `network_receive` up to `message_t__unpack`: the bytes handed to it, if it is called. -/
def receiveBody (garbage : Garbage) : StateT Socket C (Option (List UInt8)) := do
  match ← modifyGet (Socket.read 2) with
  | none | some [] => return none
  | some (first :: others) => receiveRest garbage (ntohsOver (first :: others) (0, 0))

/-- `network_receive`. -/
def networkReceive (codec : Codec) (garbage : Garbage) : StateT Socket C (Option MessageT) := do
  match ← receiveBody garbage with
  | none => return none
  | some body => return codec.unpack body

/-- `network_send` once the length was written. -/
def sendBody (codec : Codec) (msg : MessageT) (num : Int) : StateT Socket C Int := do
  if !(← mallocSize num) then return -1
  let buffer ← (packInto codec msg num : C _)
  let numBytesWritten ← writeAll buffer num
  return if numBytesWritten ≠ num then -1 else numBytesWritten

/-- `network_send`. -/
def networkSend (codec : Codec) (msg : MessageT) : StateT Socket C Int := do
  let num := int16 (codec.pack msg).length
  match ← modifyGet (Socket.write (htons num)) with
  | none => return -1
  | some _ => sendBody codec msg num

/-- `network_send_receive` up to the last write: whether it goes on to read a response. -/
def sendRequest (codec : Codec) (msg : MessageT) : StateT Socket C Bool := do
  let sizeMsg := int32 (codec.pack msg).length
  if !(← mallocSize sizeMsg) then return false
  let buffer ← (packInto codec msg sizeMsg : C _)
  let value := int16 sizeMsg
  match ← modifyGet (Socket.write (htons value)) with
  | none =>
    modify Socket.close
    return false
  | some _ =>
    if (← writeAll buffer value) ≠ value then
      modify Socket.close
      return false
    return true

/-- `network_send_receive` from the first read on. -/
def receiveResponse (codec : Codec) (garbage : Garbage) : StateT Socket C (Option MessageT) := do
  match ← modifyGet (Socket.read 2) with
  | none =>
    modify Socket.close
    return none
  | some received =>
    -- A read of fewer than two bytes is not looked at further.
    let num := ntohsOver received garbage.num
    let block ← (reallocSize num : C _)
    let (nbytes, buffer) ← readAll block num garbage.fullBuffer
    if nbytes ≠ num then
      modify Socket.close
      return none
    return codec.unpack (← unpackInput nbytes buffer)

/-- `network_send_receive`. -/
def networkSendReceive (codec : Codec) (garbage : Garbage) : SendReceive Socket := fun msg => do
  if !(← sendRequest codec msg) then return none
  receiveResponse codec garbage

end ChainTable
