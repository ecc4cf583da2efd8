import ChainTable.Wire.WiredChain

/-! The messages of the chain: what is unpacked from them, and that they fit a frame. -/

namespace ChainTable

variable {msg : MessageT} {key : Key} {data : Data} {block : Block}

/-- The binary data of a block. -/
def blockData (block : Block) : BinaryData := ⟨block.val.length, some block.val⟩

/-- What a request carries of valid data is its block, from data that may be longer. -/
theorem sent_contents (found : data.contents = some block) :
    sizeT data.datasize = block.val.length ∧
      BinaryData.bytes ⟨sizeT data.datasize, data.data⟩ = block.val := by
  -- The block is as long as the size of the data says.
  have taken := (contents_eq_some_iff data block).mp found
  have size : sizeT data.datasize = block.val.length := by
    rw [datasize_of_contents found, sizeT_natCast]
  have count : data.datasize.toNat = block.val.length := by rw [datasize_of_contents found]; rfl
  refine ⟨size, ?_⟩
  rw [← taken, BinaryData.bytes, size, ← count]
  rfl

/-- A block is unpacked as it was packed. -/
theorem unpacked_contents (found : data.contents = some block) :
    (if sizeT data.datasize = 0 then (⟨0, none⟩ : BinaryData)
      else binaryOf (BinaryData.bytes ⟨sizeT data.datasize, data.data⟩)) = blockData block := by
  -- A block has some byte, so that its field is not left out.
  obtain ⟨size, bytes⟩ := sent_contents found
  have nonempty := block.property.1
  have filled := List.length_pos_iff.mpr nonempty
  rw [if_neg (by omega), bytes, binaryOf, if_neg nonempty]
  rfl

/-- Binary data of a block is unpacked as it is. -/
theorem unpacked_block (block : Block) :
    (if (blockData block).len = 0 then (⟨0, none⟩ : BinaryData)
      else binaryOf (blockData block).bytes) = blockData block := by
  -- It is what a request carries of the data of the block.
  have whole : sizeT (Data.ofBlock block).datasize = block.val.length := sizeT_natCast _
  have value := unpacked_contents (contents_ofBlock block)
  rw [whole] at value
  exact value

/-- A put of valid data is received as the request to put its block. -/
theorem putRequest_unpacked (found : data.contents = some block) :
    (putRequest (some key) data).unpacked = (Update.put key block).request := by
  -- The request carries the size of the data, and the server receives that of the bytes sent.
  have value := unpacked_contents found
  have whole : sizeT (Data.ofBlock block).datasize = block.val.length := sizeT_natCast _
  simp only [Update.request, putRequest, MessageT.unpacked, Option.map_some, EntryT.unpacked,
    value, whole]
  rfl

/-- The request for an update is received as it is. -/
theorem request_unpacked (update : Update) : update.request.unpacked = update.request := by
  -- A put carries a block, and a deletion its key only.
  cases update with
  | put key block => exact putRequest_unpacked (contents_ofBlock block)
  | del key => rfl

/-- The codes of a message are of one byte each. -/
structure MessageT.Coded (msg : MessageT) : Prop where
  opcode : 0 < msg.opcode ∧ msg.opcode < 128
  cType : 0 < msg.cType ∧ msg.cType < 128

/-- Codes of one byte each are a matter of their values. -/
theorem coded_of {opcode cType : Int} (sameOpcode : msg.opcode = opcode)
    (sameType : msg.cType = cType)
    (codes : (0 < opcode ∧ opcode < 128) ∧ 0 < cType ∧ cType < 128) : msg.Coded where
  opcode := sameOpcode ▸ codes.1
  cType := sameType ▸ codes.2

/-- The size of a message does not depend on its codes. -/
theorem MessageT.Coded.packedSize_eq (coded : msg.Coded) :
    packedSize msg = 4 + packedSize { msg with opcode := 0, cType := 0 } := by
  -- Each code takes its tag and one byte, and nothing when it is zero.
  rw [ChainTable.packedSize_eq, ChainTable.packedSize_eq,
    packCode_length 0x08 rfl coded.opcode.1 coded.opcode.2,
    packCode_length 0x10 rfl coded.cType.1 coded.cType.2]
  simp only [packField_length]
  simp
  omega

/-- Without a result there is the default of 0, which is an `int`. -/
theorem int32_zero : int32 0 = 0 := by decide

/-- A message with codes of one byte each is never empty. -/
theorem MessageT.Coded.sendable (coded : msg.Coded) (result : int32 msg.result = msg.result)
    (noStats : msg.stats = none) (fits : packedSize msg ≤ maxFrame) : msg.Sendable where
  inRange := {
    opcode := int32_of_bounds (by have := coded.opcode.1; omega) (by have := coded.opcode.2; omega)
    cType := int32_of_bounds (by have := coded.cType.1; omega) (by have := coded.cType.2; omega)
    result := result
    stats := fun stats sent => by
      rw [noStats] at sent
      cases sent }
  nonempty := by
    -- A code above zero takes two bytes, so that the message is not empty.
    have := coded.packedSize_eq
    omega
  fits := fits

/-- A reply with the codes changed alone fits a frame if the request did. -/
theorem MessageT.Coded.recoded {opcode cType : Int} (coded : msg.Coded)
    (result : int32 msg.result = msg.result) (noStats : msg.stats = none)
    (fits : packedSize msg ≤ maxFrame)
    (codes : MessageT.Coded { msg with opcode := opcode, cType := cType }) :
    MessageT.Sendable { msg with opcode := opcode, cType := cType } := by
  -- Codes of one byte take the same room before and after.
  refine codes.sendable result noStats ?_
  have before := coded.packedSize_eq
  have after := codes.packedSize_eq
  simp only [] at after
  omega

/-- The request for an update has codes of one byte, no result and no statistics. -/
theorem request_coded (update : Update) : update.request.Coded ∧ update.request.result = 0 ∧
    update.request.stats = none := by
  -- Both kinds of update have codes between one and 127.
  cases update with
  | put key block =>
    exact ⟨coded_of (rfl : _ = opPut) (rfl : _ = ctEntry) (by decide), rfl, rfl⟩
  | del key => exact ⟨coded_of (rfl : _ = opDel) (rfl : _ = ctKey) (by decide), rfl, rfl⟩

section Updates

variable {update : Update} (fits : packedSize update.request ≤ maxFrame)

include fits

/-- The request for an update can be sent. -/
theorem request_sendable : update.request.Sendable := by
  -- The codes are in range, and the rest is left at its default.
  obtain ⟨coded, unanswered, noStats⟩ := request_coded update
  exact coded.sendable (unanswered ▸ int32_zero) noStats fits

/-- The reply to an update that was applied can be sent. -/
theorem updateReply_sendable : (updateReply update.request).Sendable := by
  -- A reply has the fields of its request, and the code after that of the request.
  obtain ⟨coded, unanswered, noStats⟩ := request_coded update
  refine coded.recoded (unanswered ▸ int32_zero) noStats fits ?_
  cases update with
  | put key block => exact coded_of (rfl : _ = opPut + 1) (rfl : _ = ctNone) (by decide)
  | del key => exact coded_of (rfl : _ = opDel + 1) (rfl : _ = ctNone) (by decide)

/-- The reply to an update that was refused can be sent. -/
theorem errorReply_sendable : (errorReply update.request).Sendable := by
  -- Another code takes no more bytes than the one of the request.
  obtain ⟨coded, unanswered, noStats⟩ := request_coded update
  exact coded.recoded (unanswered ▸ int32_zero) noStats fits
    (coded_of (rfl : _ = opError) (rfl : _ = ctNone) (by decide))

end Updates

/-- The replies to an update are received as they are. -/
theorem updateReply_unpacked (update : Update) :
    (updateReply update.request).unpacked = updateReply update.request ∧
      (errorReply update.request).unpacked = errorReply update.request :=
  ⟨congrArg updateReply (request_unpacked update), congrArg errorReply (request_unpacked update)⟩

/-- The request to put valid data takes the bytes of the request to put its block. -/
theorem packedSize_putRequest_contents (found : data.contents = some block) :
    packedSize (putRequest (some key) data) = packedSize (Update.put key block).request := by
  -- Both carry the same bytes under the same key.
  obtain ⟨size, bytes⟩ := sent_contents found
  obtain ⟨blockSize, blockBytes⟩ := sent_contents (contents_ofBlock block)
  change packedSize (putRequest _ data) = packedSize (putRequest _ (Data.ofBlock block))
  rw [packedSize_put, packedSize_put]
  rw [entryPack, entryPack, bytes, blockBytes, size, blockSize]

section Questions

/-- A varint takes as many bytes as it may have groups at most. -/
theorem varintGroups_length (more value : Nat) : (varintGroups more value).length ≤ more + 1 := by
  -- Every group but the last one uses up one of those that may follow.
  induction more generalizing value with
  | zero => exact le_refl _
  | succ more ih =>
    unfold varintGroups
    split
    · simp
    · exact Nat.succ_le_succ (ih _)

/-- The reply to a lookup is received as it is. -/
theorem getAnswer_unpacked (found : Option Block) :
    (getAnswer (getRequest (some key)) found).unpacked =
      getAnswer (getRequest (some key)) found := by
  -- An error still has the empty value of the request.
  cases found with
  | none => rfl
  | some block =>
    exact congrArg (fun value => { getRequest (some key) with
      opcode := opGet + 1, cType := ctValue, value := value }) (unpacked_block block)

/-- The reply to a lookup can be sent if the request can, and what is found was put in a frame. -/
theorem getAnswer_sendable (fits : packedSize (getRequest (some key)) ≤ maxFrame)
    {found : Option Block}
    (stored : ∀ block ∈ found, putSize key.bytes.length block.val.length ≤ maxFrame) :
    (getAnswer (getRequest (some key)) found).Sendable := by
  cases found with
  | none =>
    exact (coded_of (rfl : _ = opGet) (rfl : _ = ctKey) (by decide)).recoded int32_zero rfl fits
      (coded_of (rfl : _ = opError) (rfl : _ = ctNone) (by decide))
  | some block =>
    refine (coded_of (rfl : _ = opGet + 1) (rfl : _ = ctValue) (by decide)).sendable
      int32_zero rfl ?_
    have filled : block.val.length ≠ 0 := (List.length_pos_iff.mpr block.property.1).ne'
    have bytes : (blockData block).bytes = block.val := List.take_length
    -- The request to put the block takes at least as many bytes.
    have size := packedSize_getReply key (show (blockData block).len ≠ 0 from filled)
      (by rw [bytes]; exact filled)
    rw [bytes] at size
    have small := stored block rfl
    simp only [putSize] at small
    change packedSize { getRequest (some key) with
      opcode := opGet + 1, cType := ctValue, value := blockData block } ≤ maxFrame
    omega

/-- The reply to a SIZE is received as it is. -/
theorem sizeAnswer_unpacked (size : Int) :
    (sizeAnswer (bareRequest opSize) size).unpacked = sizeAnswer (bareRequest opSize) size :=
  rfl

/-- The reply to a SIZE can be sent if the number is an `int`. -/
theorem sizeAnswer_sendable {size : Nat} (small : size < 2 ^ 31) :
    (sizeAnswer (bareRequest opSize) size).Sendable := by
  have coded : (sizeAnswer (bareRequest opSize) size).Coded :=
    coded_of (rfl : _ = opSize + 1) (rfl : _ = ctResult) (by decide)
  refine coded.sendable (int32_of_bounds ?_ ?_) rfl ?_
  · change -(2 ^ 31) ≤ (size : Int)
    omega
  · change (size : Int) < 2 ^ 31
    omega
  · -- Besides the codes there is the number, of ten groups at most.
    have groups : (packSint32 (size : Int)).length ≤ 10 := varintGroups_length 9 _
    have field : (packField 0x30 ((size : Int) = 0) (packSint32 size)).length ≤ 11 := by
      rw [packField_length]
      split <;> omega
    have rest : packedSize { sizeAnswer (bareRequest opSize) size with opcode := 0, cType := 0 } =
        (packField 0x30 ((size : Int) = 0) (packSint32 size)).length := by
      rw [packedSize_eq]
      simp [sizeAnswer, bareRequest, stringBytes, emptyString, packField_length, packRepeated]
    rw [coded.packedSize_eq, rest]
    have bound : maxFrame = 32767 := rfl
    omega

/-- The keys of a reply are received without the NULL behind them. -/
theorem keysAnswer_unpacked {keys : List Key} (nonempty : keys ≠ []) :
    let reply := (keysAnswer (bareRequest opGetKeys) keys).2.unpacked
    reply.opcode = opGetKeys + 1 ∧ reply.nKeys = keys.length ∧
      reply.keys = some (keys.map some ++ []) := by
  -- The NULL is not counted, so that it is not sent.
  have counted : ((keys.map some ++ [none]).take keys.length).map stringOf = keys := by
    rw [List.take_append_of_le_length (by simp), List.take_of_length_le (by simp), List.map_map]
    exact List.map_id keys
  simp only [keysAnswer, if_neg nonempty, MessageT.unpacked, MessageT.countedKeys,
    Option.getD_some, counted, arrayOf, List.append_nil, and_self]

/-- The entries of a reply are received in the same way. -/
theorem entriesAnswer_unpacked {pairs : List (Key × Block)} (nonempty : pairs ≠ []) :
    let reply := (entriesAnswer (bareRequest opGetTable) pairs).2.unpacked
    reply.opcode = opGetTable + 1 ∧ reply.nEntries = pairs.length ∧
      reply.entries = some (sentEntries pairs ++ []) := by
  -- Each entry is received as its key and its block, and the NULL is not sent.
  let sent (pair : Key × Block) : EntryT := { key := some pair.1, value := blockData pair.2 }
  have counted : ((sentEntries pairs ++ [none]).take pairs.length).map
      (fun entry : Option EntryT => (entry.getD {}).unpacked) = pairs.map sent := by
    rw [sentEntries, List.take_append_of_le_length (by simp), List.take_of_length_le (by simp),
      List.map_map]
    refine List.map_congr_left fun pair _ => ?_
    exact congrArg (fun value => ({ key := some pair.1, value := value } : EntryT))
      (unpacked_block pair.2)
  have some : pairs.map sent ≠ [] := by simpa using nonempty
  simp only [entriesAnswer, if_neg nonempty, MessageT.unpacked, MessageT.countedEntries,
    Option.getD_some, counted, arrayOf, if_neg some, List.append_nil, List.length_map,
    List.map_map, true_and]
  rfl

/-- A repeated field takes the bytes of its elements. -/
theorem packRepeated_length {α : Type} (tag : UInt8) (elements : List α)
    (behind : List α) (payload : α → List UInt8) :
    (packRepeated tag elements.length (some (elements ++ behind)) payload).length =
      (elements.map fun element => elementSize (payload element).length).sum := by
  -- Each element takes its tag, its length and its bytes.
  rw [packRepeated, Option.getD_some, List.take_left, List.length_flatMap]
  refine congrArg List.sum (List.map_congr_left fun element _ => ?_)
  rw [List.length_cons, packBytes_length, elementSize]
  omega

/-- The reply to a GETKEYS can be sent if its keys fit a frame. -/
theorem keysAnswer_sendable {keys : List Key}
    (fits : 4 + (keys.map fun key => elementSize key.bytes.length).sum ≤ maxFrame) :
    (keysAnswer (bareRequest opGetKeys) keys).2.Sendable := by
  by_cases empty : keys = []
  · rw [keysAnswer, if_pos empty]
    exact (coded_of (rfl : _ = opError) (rfl : _ = ctNone) (by decide)).sendable int32_zero rfl
      (by decide)
  · rw [keysAnswer, if_neg empty]
    have coded : MessageT.Coded { bareRequest opGetKeys with
        opcode := opGetKeys + 1
        cType := ctKeys
        nKeys := keys.length
        keys := some (keys.map some ++ [none]) } :=
      coded_of (rfl : _ = opGetKeys + 1) (rfl : _ = ctKeys) (by decide)
    refine coded.sendable int32_zero rfl ?_
    -- Besides the codes there are the keys.
    have field := packRepeated_length 0x3a (keys.map some) [none] stringBytes
    rw [List.length_map, List.map_map] at field
    refine le_of_eq_of_le ?_ fits
    rw [coded.packedSize_eq, packedSize_eq]
    simp only [bareRequest, field]
    simp [packField_length, packRepeated, stringBytes, emptyString]
    rfl

/-- The reply to a GETTABLE can be sent if its entries fit a frame. -/
theorem entriesAnswer_sendable {pairs : List (Key × Block)}
    (fits : 4 + (pairs.map fun pair =>
      elementSize (entrySize pair.1.bytes.length pair.2.val.length)).sum ≤ maxFrame) :
    (entriesAnswer (bareRequest opGetTable) pairs).2.Sendable := by
  by_cases empty : pairs = []
  · rw [entriesAnswer, if_pos empty]
    exact (coded_of (rfl : _ = opError) (rfl : _ = ctNone) (by decide)).sendable int32_zero rfl
      (by decide)
  · rw [entriesAnswer, if_neg empty]
    have coded : MessageT.Coded { bareRequest opGetTable with
        opcode := opGetTable + 1
        cType := ctTable
        nEntries := pairs.length
        entries := some (sentEntries pairs ++ [none]) } :=
      coded_of (rfl : _ = opGetTable + 1) (rfl : _ = ctTable) (by decide)
    refine coded.sendable int32_zero rfl ?_
    -- Besides the codes there are the entries, each with the bytes of its key and of its block.
    have field := packRepeated_length 0x42 (sentEntries pairs) [none]
      (fun entry => (entry.map entryPack).getD [])
    have length : (sentEntries pairs).length = pairs.length := List.length_map _
    have sizes : (sentEntries pairs).map
        (fun entry => elementSize ((entry.map entryPack).getD []).length) =
        pairs.map fun pair =>
          elementSize (entrySize pair.1.bytes.length pair.2.val.length) := by
      rw [sentEntries, List.map_map]
      refine List.map_congr_left fun pair _ => congrArg elementSize ?_
      have filled : pair.2.val.length ≠ 0 := (List.length_pos_iff.mpr pair.2.property.1).ne'
      have bytes : (blockData pair.2).bytes = pair.2.val := List.take_length
      have packed := entryPack_length
        (show (EntryT.mk (some pair.1) (blockData pair.2)).value.len ≠ 0 from filled)
        (by rw [bytes]; exact filled)
      rw [bytes] at packed
      exact packed
    rw [length, sizes] at field
    refine le_of_eq_of_le ?_ fits
    rw [coded.packedSize_eq, packedSize_eq]
    simp only [bareRequest, field]
    simp [packField_length, packRepeated, stringBytes, emptyString]

end Questions

end ChainTable
