import ChainTable.Membership.Selection
import ChainTable.Replication.Forwarding
import ChainTable.Wire.Proto

/-! The sizes of packed messages, and what keeps all that a server stores within one frame. -/

namespace ChainTable

/-- `message_t__get_packed_size`. -/
def packedSize (msg : MessageT) : Nat := (messagePack msg).length

/-- The largest size that the signed length in front of a message can hold. -/
def maxFrame : Nat := 2 ^ 15 - 1

/-- A larger number has a varint that is at least as long. -/
theorem varintGroups_length_le (more : Nat) {small large : Nat} (le : small ≤ large) :
    (varintGroups more small).length ≤ (varintGroups more large).length := by
  -- Taking the lowest group off both numbers keeps their order.
  induction more generalizing small large with
  | zero => exact le_refl _
  | succ more ih =>
    unfold varintGroups
    by_cases smallEnds : small < 128
    · rw [if_pos smallEnds]
      split <;> simp
    · rw [if_neg smallEnds, if_neg (by omega), List.length_cons, List.length_cons]
      exact Nat.succ_le_succ (ih (Nat.div_le_div_right le))

/-- The bytes of a field of so many bytes with its tag and its length, none if it is empty. -/
def fieldSize (length : Nat) : Nat :=
  if length = 0 then 0 else 1 + (varint length).length + length

/-- A longer field takes at least as many bytes. -/
theorem fieldSize_le {small large : Nat} (le : small ≤ large) :
    fieldSize small ≤ fieldSize large := by
  -- The varint of the length grows with the length.
  have varints : (varint small).length ≤ (varint large).length := varintGroups_length_le 9 le
  unfold fieldSize
  split
  · omega
  · rw [if_neg (by omega)]
    omega

/-- The bytes of the fields of an entry, by the lengths of its key and of its value. -/
def entrySize (keyLength valueLength : Nat) : Nat := fieldSize keyLength + fieldSize valueLength

/-- The bytes of a PUT request, by the lengths of its key and of its value. -/
def putSize (keyLength valueLength : Nat) : Nat :=
  let entry := entrySize keyLength valueLength
  4 + (1 + (varint entry).length + entry)

/-- A put of more bytes takes at least as many bytes. -/
theorem putSize_le (keyLength : Nat) {small large : Nat} (le : small ≤ large) :
    putSize keyLength small ≤ putSize keyLength large := by
  -- The entry grows with its value, and so does the varint of its size.
  have fields := fieldSize_le le
  have varints : (varint (entrySize keyLength small)).length ≤
      (varint (entrySize keyLength large)).length :=
    varintGroups_length_le 9 (by unfold entrySize; omega)
  simp only [putSize, entrySize] at varints ⊢
  omega

/-- A string field takes as many bytes as its string asks for. -/
theorem packString_length (tag : UInt8) (value : Option Key) :
    (packField tag (stringBytes value = []) (packBytes (stringBytes value))).length =
      fieldSize (stringBytes value).length := by
  -- An empty string is left out, and any other has a tag and a length.
  rw [packField_length, packBytes_length, fieldSize]
  cases stringBytes value with
  | nil => rfl
  | cons byte rest =>
    simp
    omega

/-- A field of binary data takes as many bytes as it has, as long as some are there. -/
theorem packBinary_length (tag : UInt8) {value : BinaryData} (held : value.len ≠ 0)
    (filled : value.bytes.length ≠ 0) :
    (packField tag (value.len = 0) (packBytes value.bytes)).length =
      fieldSize value.bytes.length := by
  -- A length of zero is what the field is left out for.
  rw [packField_length, packBytes_length, fieldSize, if_neg filled]
  simp [held]
  omega

/-- An entry takes the bytes of its two fields. -/
theorem entryPack_length {entry : EntryT} (held : entry.value.len ≠ 0)
    (filled : entry.value.bytes.length ≠ 0) :
    (entryPack entry).length =
      entrySize (stringBytes entry.key).length entry.value.bytes.length := by
  -- The key is a string field, and the value one of binary data.
  rw [entryPack, List.length_append, packString_length, packBinary_length 0x12 held filled,
    entrySize]

/-- A pair that a server makes of an entry it received. -/
def StoredFrom (received : EntryT) (key : Key) (block : Block) : Prop :=
  received.key = some key ∧ ∃ bytes, received.value.data = some bytes ∧
    0 < int32 received.value.len ∧ block.val = bytes.take (int32 received.value.len).toNat

/-- A pair is put again with no more bytes than the entry took that it was made of. -/
theorem StoredFrom.putSize_le {received : EntryT} {key : Key} {block : Block}
    (stored : StoredFrom received key block) :
    putSize key.bytes.length block.val.length ≤
      4 + (1 + (packBytes (entryPack received)).length) := by
  obtain ⟨named, bytes, held, positive, taken⟩ := stored
  have converted := int32_natCast_le received.value.len
  have filled := List.length_pos_iff.mpr block.property.1
  have length := congrArg List.length taken
  rw [List.length_take] at length
  -- The block has at most as many bytes as are said to be there.
  have within : block.val.length ≤ received.value.bytes.length := by
    rw [BinaryData.bytes, held, Option.getD_some, List.length_take]
    omega
  have key : (stringBytes received.key).length = key.bytes.length := by
    rw [named]
    rfl
  have entry := entryPack_length (show received.value.len ≠ 0 by omega)
    (show received.value.bytes.length ≠ 0 by omega)
  rw [packBytes_length, entry, key]
  refine (ChainTable.putSize_le _ within).trans ?_
  simp only [putSize]
  omega

/-- A code takes a byte for its tag, and one for itself. -/
theorem packCode_length (tag : UInt8) {field code : Int} (same : field = code) (positive : 0 < code)
    (small : code < 128) : (packField tag (field = 0) (packInt32 field)).length = 2 := by
  -- The code fits in one group of seven bits.
  subst same
  have group : (field % 2 ^ 64).toNat < 128 := by omega
  rw [packField_length, packInt32, varint, varintGroups, if_pos group]
  simp [positive.ne']

/-- A message takes the bytes of its nine fields. -/
theorem packedSize_eq (msg : MessageT) : packedSize msg =
    (packField 0x08 (msg.opcode = 0) (packInt32 msg.opcode)).length +
    (packField 0x10 (msg.cType = 0) (packInt32 msg.cType)).length +
    (packField 0x1a msg.entry.isNone (packBytes ((msg.entry.map entryPack).getD []))).length +
    (packField 0x22 (stringBytes msg.key = []) (packBytes (stringBytes msg.key))).length +
    (packField 0x2a (msg.value.len = 0) (packBytes msg.value.bytes)).length +
    (packField 0x30 (msg.result = 0) (packSint32 msg.result)).length +
    (packRepeated 0x3a msg.nKeys msg.keys stringBytes).length +
    (packRepeated 0x42 msg.nEntries msg.entries
      (fun entry => (entry.map entryPack).getD [])).length +
    (packField 0x4a msg.stats.isNone
      (packBytes ((msg.stats.map statisticsPack).getD []))).length := by
  -- The fields are packed one behind the other.
  unfold packedSize messagePack
  simp only [List.length_append]

/-- A message that carries an entry alone, as `rtable_put` sends it, takes the bytes of a PUT. -/
theorem packedSize_put (key : Option Key) (data : Data) :
    packedSize (putRequest key data) = 4 + (1 + (packBytes (entryPack
      { key := key, value := { len := sizeT data.datasize, data := data.data } })).length) := by
  have opcode : (putRequest key data).opcode = opPut := rfl
  have content : (putRequest key data).cType = ctEntry := rfl
  -- The fields that the request leaves as they were initialised take nothing.
  have unset : stringBytes (putRequest key data).key = [] := rfl
  rw [packedSize_eq, packCode_length 0x08 opcode (by decide) (by decide),
    packCode_length 0x10 content (by decide) (by decide), packString_length, unset]
  simp [putRequest, packField_length, packRepeated, fieldSize]
  omega

/-- A message that carries a value and a key, as `invoke` answers a GET, takes the bytes of both. -/
theorem packedSize_getReply (key : Key) {value : BinaryData} (held : value.len ≠ 0)
    (filled : value.bytes.length ≠ 0) :
    packedSize { getRequest (some key) with
      opcode := opGet + 1, cType := ctValue, value := value } =
        4 + entrySize key.bytes.length value.bytes.length := by
  -- The entry, the arrays and the result of the request were never set.
  rw [packedSize_eq,
    packCode_length 0x08 (show _ = opGet + 1 from rfl) (by decide) (by decide),
    packCode_length 0x10 (show _ = ctValue from rfl) (by decide) (by decide), packString_length,
    packBinary_length 0x2a held filled]
  simp [getRequest, stringBytes, packField_length, packRepeated, entrySize]
  omega

/-- A message that carries entries, as `invoke` answers a GETTABLE, takes the bytes of each. -/
theorem packedSize_getTableReply {reply : MessageT} (answers : reply.opcode = opGetTable + 1)
    (carries : reply.cType = ctTable) {received : EntryT}
    (member : some received ∈ (reply.entries.getD []).take reply.nEntries) :
    4 + (1 + (packBytes (entryPack received)).length) ≤ packedSize reply := by
  -- The entry is one of those of the repeated field.
  have entry : 1 + (packBytes (entryPack received)).length ≤
      (packRepeated 0x42 reply.nEntries reply.entries
        (fun entry => (entry.map entryPack).getD [])).length := by
    obtain ⟨before, after, split⟩ := List.append_of_mem member
    rw [packRepeated, split]
    simp
    omega
  -- The other fields take no less than nothing.
  rw [packedSize_eq, packCode_length 0x08 answers (by decide) (by decide),
    packCode_length 0x10 carries (by decide) (by decide)]
  omega

end ChainTable
