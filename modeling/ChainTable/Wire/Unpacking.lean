import ChainTable.Wire.Fields

/-! What is unpacked from a packed message: the message, with all that it points to cut to size. -/

namespace ChainTable

/-- The binary data that is unpacked from some bytes. -/
def binaryOf (bytes : List UInt8) : BinaryData :=
  if bytes = [] then ⟨0, none⟩ else ⟨bytes.length, some bytes⟩

/-- A string that is unpacked is never NULL. -/
def stringOf (value : Option Key) : Key :=
  value.getD emptyString

/-- The elements of a repeated field, whose array is NULL without any. -/
def arrayOf {α : Type} (elements : List α) : Option (List (Option α)) :=
  if elements = [] then none else some (elements.map some)

/-- An entry as it is unpacked. -/
def EntryT.unpacked (entry : EntryT) : EntryT where
  key := some (stringOf entry.key)
  value := if entry.value.len = 0 then ⟨0, none⟩ else binaryOf entry.value.bytes

/-- The keys that a message counts. -/
def MessageT.countedKeys (msg : MessageT) : List Key :=
  ((msg.keys.getD []).take msg.nKeys).map stringOf

/-- The entries that a message counts. -/
def MessageT.countedEntries (msg : MessageT) : List EntryT :=
  ((msg.entries.getD []).take msg.nEntries).map fun entry => (entry.getD {}).unpacked

/-- A message as it is unpacked. -/
def MessageT.unpacked (msg : MessageT) : MessageT where
  opcode := msg.opcode
  cType := msg.cType
  entry := msg.entry.map EntryT.unpacked
  key := some (stringOf msg.key)
  value := if msg.value.len = 0 then ⟨0, none⟩ else binaryOf msg.value.bytes
  result := msg.result
  nKeys := msg.countedKeys.length
  keys := arrayOf msg.countedKeys
  nEntries := msg.countedEntries.length
  entries := arrayOf msg.countedEntries
  stats := msg.stats

/-- The numbers of statistics are of the types that the schema gives them. -/
structure StatisticsT.InRange (stats : StatisticsT) : Prop where
  ops : int32 stats.ops = stats.ops
  totalTime : stats.totalTime < 2 ^ 64
  clients : int32 stats.clients = stats.clients

/-- The numbers of a message are of the types that the schema gives them. -/
structure MessageT.InRange (msg : MessageT) : Prop where
  opcode : int32 msg.opcode = msg.opcode
  cType : int32 msg.cType = msg.cType
  result : int32 msg.result = msg.result
  stats : ∀ stats ∈ msg.stats, stats.InRange

/-- The encoding of the schema, and a decoder that gets back what was packed. -/
structure Codec.Faithful (codec : Codec) : Prop where
  pack : codec.pack = messagePack
  unpack : ∀ msg : MessageT, msg.InRange → (messagePack msg).length < 2 ^ 32 →
    codec.unpack (messagePack msg) = some msg.unpacked

/-- Nothing before the first zero is zero. -/
theorem nulFree_takeWhile (bytes : List UInt8) : 0 ∉ bytes.takeWhile (· ≠ 0) := by
  -- What is taken has passed the test.
  intro member
  simpa using List.mem_takeWhile_imp member

/-- The string that a field holds, up to the first byte that is zero. -/
def readString (bytes : List UInt8) : Key where
  bytes := bytes.takeWhile (· ≠ 0)
  nulFree := nulFree_takeWhile bytes

/-- The number that a varint of the type `sint32` stands for. -/
def readSint32 (value : Nat) : Int :=
  if value % 2 = 0 then value / 2 else -((value + 1) / 2)

/-- What is made of packed bytes, one field after another. -/
def unpackFields {α : Type} (setField : α → Field → Option α) (initial : α) (bytes : List UInt8) :
    Option α := do
  let fields ← readFields bytes
  fields.foldlM setField initial

/-- Set a field of an entry. -/
def EntryT.setField (entry : EntryT) (field : Field) : Option EntryT :=
  match field.tag.toNat, field.payload with
  | 0x0a, .delimited bytes => some { entry with key := some (readString bytes) }
  | 0x12, .delimited bytes => some { entry with value := binaryOf bytes }
  -- A field that the schema does not have is skipped.
  | _, _ => some entry

/-- Set a field of statistics. -/
def StatisticsT.setField (stats : StatisticsT) (field : Field) : Option StatisticsT :=
  match field.tag.toNat, field.payload with
  | 0x08, .number value => some { stats with ops := int32 value }
  | 0x10, .number value => some { stats with totalTime := value }
  | 0x18, .number value => some { stats with clients := int32 value }
  | _, _ => some stats

/-- Set a field of a message, or add an element to a repeated one. -/
def MessageT.setField (msg : MessageT) (field : Field) : Option MessageT :=
  match field.tag.toNat, field.payload with
  | 0x08, .number value => some { msg with opcode := int32 value }
  | 0x10, .number value => some { msg with cType := int32 value }
  | 0x1a, .delimited bytes => do
    let entry ← unpackFields EntryT.setField {} bytes
    return { msg with entry := some entry }
  | 0x22, .delimited bytes => some { msg with key := some (readString bytes) }
  | 0x2a, .delimited bytes => some { msg with value := binaryOf bytes }
  | 0x30, .number value => some { msg with result := readSint32 value }
  | 0x3a, .delimited bytes => some { msg with
      nKeys := msg.nKeys + 1, keys := some (msg.keys.getD [] ++ [some (readString bytes)]) }
  | 0x42, .delimited bytes => do
    let entry ← unpackFields EntryT.setField {} bytes
    return { msg with
      nEntries := msg.nEntries + 1, entries := some (msg.entries.getD [] ++ [some entry]) }
  | 0x4a, .delimited bytes => do
    let stats ← unpackFields StatisticsT.setField {} bytes
    return { msg with stats := some stats }
  | _, _ => some msg

/-- A decoder of the schema. -/
def messageUnpack (bytes : List UInt8) : Option MessageT :=
  unpackFields MessageT.setField {} bytes

end ChainTable
