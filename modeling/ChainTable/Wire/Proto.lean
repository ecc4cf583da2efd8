import ChainTable.Wire.Message

/-! The bytes that `message_t__pack` makes of a message, after the descriptors of the schema. -/

namespace ChainTable

/-- The two directions between messages and bytes that the code takes from protobuf-c. -/
structure Codec where
  /-- `message_t__pack`, whose length is what `message_t__get_packed_size` answers. -/
  pack : MessageT → List UInt8
  /-- `message_t__unpack`, which answers NULL for bytes that are no message. -/
  unpack : List UInt8 → Option MessageT

/-- The loop that splits a number into groups of seven bits, the lowest group first. -/
def varintGroups : (more : Nat) → Nat → List UInt8
  | 0, value => [UInt8.ofNat value]
  | more + 1, value =>
    if value < 128 then [UInt8.ofNat value]
    -- The high bit says that another group follows.
    else UInt8.ofNat (value % 128 + 128) :: varintGroups more (value / 128)

/-- A number of 64 bits as a varint, of ten bytes at most. -/
def varint (value : Nat) : List UInt8 := varintGroups 9 value

/-- The payload of the types `int32` and `enum`. -/
def packInt32 (value : Int) : List UInt8 :=
  -- A negative value is sign-extended to 64 bits first.
  varint (value % 2 ^ 64).toNat

/-- The payload of the type `sint32`, in which a value and its sign alternate. -/
def packSint32 (value : Int) : List UInt8 :=
  varint (if value < 0 then (-value) * 2 - 1 else value * 2).toNat

/-- The payload of the types `string`, `bytes` and `message`. -/
def packBytes (bytes : List UInt8) : List UInt8 := varint bytes.length ++ bytes

/-- A field of proto3, left out when it has its default value. -/
def packField (tag : UInt8) (isDefault : Bool) (payload : List UInt8) : List UInt8 :=
  if isDefault then [] else tag :: payload

/-- The bytes of a string field, none of them for a NULL pointer. -/
def stringBytes (value : Option Key) : List UInt8 := (value.map Key.bytes).getD []

/-- The bytes of a field of binary data, as many as its length says. -/
def BinaryData.bytes (value : BinaryData) : List UInt8 := (value.data.getD []).take value.len

/-- `entry_t__pack`. -/
def entryPack (entry : EntryT) : List UInt8 :=
  packField 0x0a (stringBytes entry.key = []) (packBytes (stringBytes entry.key)) ++
  packField 0x12 (entry.value.len = 0) (packBytes entry.value.bytes)

/-- `statistics_t__pack`. -/
def statisticsPack (stats : StatisticsT) : List UInt8 :=
  packField 0x08 (stats.ops = 0) (packInt32 stats.ops) ++
  packField 0x10 (stats.totalTime = 0) (varint stats.totalTime) ++
  packField 0x18 (stats.clients = 0) (packInt32 stats.clients)

/-- A repeated field, whose elements are packed even when they are empty. -/
def packRepeated {α : Type} (tag : UInt8) (count : Nat) (elements : Option (List α))
    (payload : α → List UInt8) : List UInt8 :=
  ((elements.getD []).take count).flatMap fun element => tag :: packBytes (payload element)

/-- `message_t__pack`. -/
def messagePack (msg : MessageT) : List UInt8 :=
  packField 0x08 (msg.opcode = 0) (packInt32 msg.opcode) ++
  packField 0x10 (msg.cType = 0) (packInt32 msg.cType) ++
  packField 0x1a msg.entry.isNone (packBytes ((msg.entry.map entryPack).getD [])) ++
  packField 0x22 (stringBytes msg.key = []) (packBytes (stringBytes msg.key)) ++
  packField 0x2a (msg.value.len = 0) (packBytes msg.value.bytes) ++
  packField 0x30 (msg.result = 0) (packSint32 msg.result) ++
  packRepeated 0x3a msg.nKeys msg.keys stringBytes ++
  packRepeated 0x42 msg.nEntries msg.entries (fun entry => (entry.map entryPack).getD []) ++
  packField 0x4a msg.stats.isNone (packBytes ((msg.stats.map statisticsPack).getD []))

/-- A field with its default value takes no bytes, and another one takes a byte for its tag. -/
theorem packField_length (tag : UInt8) (isDefault : Bool) (payload : List UInt8) :
    (packField tag isDefault payload).length = if isDefault then 0 else payload.length + 1 := by
  -- The tag is one byte.
  unfold packField
  split <;> rfl

/-- Bytes are preceded by their number. -/
theorem packBytes_length (bytes : List UInt8) :
    (packBytes bytes).length = (varint bytes.length).length + bytes.length := by
  -- The number and the bytes follow each other.
  rw [packBytes, List.length_append]

end ChainTable
