import ChainTable.Wire.Unpacking

/-! The decoder of the schema gets back every message that was packed, as it is unpacked. -/

namespace ChainTable

/-- The fields of an entry. -/
def EntryT.fields (entry : EntryT) : List Field :=
  optionalField 0x0a (stringBytes entry.key = []) (.delimited (stringBytes entry.key)) ++
  optionalField 0x12 (entry.value.len = 0) (.delimited entry.value.bytes)

/-- The fields of statistics. -/
def StatisticsT.fields (stats : StatisticsT) : List Field :=
  optionalField 0x08 (stats.ops = 0) (.number (stats.ops % 2 ^ 64).toNat) ++
  optionalField 0x10 (stats.totalTime = 0) (.number stats.totalTime) ++
  optionalField 0x18 (stats.clients = 0) (.number (stats.clients % 2 ^ 64).toNat)

/-- The fields of a message. -/
def MessageT.fields (msg : MessageT) : List Field :=
  optionalField 0x08 (msg.opcode = 0) (.number (msg.opcode % 2 ^ 64).toNat) ++
  optionalField 0x10 (msg.cType = 0) (.number (msg.cType % 2 ^ 64).toNat) ++
  optionalField 0x1a msg.entry.isNone (.delimited ((msg.entry.map entryPack).getD [])) ++
  optionalField 0x22 (stringBytes msg.key = []) (.delimited (stringBytes msg.key)) ++
  optionalField 0x2a (msg.value.len = 0) (.delimited msg.value.bytes) ++
  optionalField 0x30 (msg.result = 0)
    (.number (if msg.result < 0 then (-msg.result) * 2 - 1 else msg.result * 2).toNat) ++
  ((msg.keys.getD []).take msg.nKeys).map (fun key => ⟨0x3a, .delimited (stringBytes key)⟩) ++
  ((msg.entries.getD []).take msg.nEntries).map
    (fun entry => ⟨0x42, .delimited ((entry.map entryPack).getD [])⟩) ++
  optionalField 0x4a msg.stats.isNone (.delimited ((msg.stats.map statisticsPack).getD []))

/-- The payload is of the kind that the tag says, and its number has a varint. -/
def Field.Tagged (field : Field) : Prop :=
  match field.payload with
  | .number value => field.tag.toNat % 8 = 0 ∧ value < 2 ^ 64
  | .delimited _ => field.tag.toNat % 8 = 2

/-- The fields of packed bytes of a length that has a varint are valid. -/
theorem valid_of_tagged {fields : List Field} (tagged : ∀ field ∈ fields, field.Tagged)
    (short : (fields.flatMap Field.pack).length < 2 ^ 64) : ∀ field ∈ fields, field.Valid := by
  rintro ⟨tag, payload⟩ member
  have kind := tagged _ member
  cases payload with
  | number value => exact kind
  | delimited bytes =>
    -- The bytes of a field are among those of all fields.
    have inside : (Field.pack ⟨tag, .delimited bytes⟩).length ≤
        (fields.flatMap Field.pack).length := by
      obtain ⟨before, behind, rfl⟩ := List.append_of_mem member
      simp
      omega
    rw [Field.pack, Payload.pack, packBytes, List.length_cons, List.length_append] at inside
    exact ⟨kind, by omega⟩

/-- Every field that may be left out is tagged as its payload says. -/
theorem tagged_optionalField {tag : UInt8} {isDefault : Bool} {payload : Payload}
    (tagged : Field.Tagged ⟨tag, payload⟩) :
    ∀ field ∈ optionalField tag isDefault payload, field.Tagged := by
  -- There is one field at most.
  intro field member
  cases isDefault with
  | true => cases member
  | false =>
    rw [List.mem_singleton.mp member]
    exact tagged

/-- Bytes may follow every tag of their kind. -/
theorem tagged_delimited {tag : UInt8} (kind : tag.toNat % 8 = 2) (bytes : List UInt8) :
    Field.Tagged ⟨tag, .delimited bytes⟩ :=
  kind

/-- A number that has a varint may follow every tag of its kind. -/
theorem tagged_number {tag : UInt8} (kind : tag.toNat % 8 = 0) {value : Nat}
    (bound : value < 2 ^ 64) : Field.Tagged ⟨tag, .number value⟩ :=
  ⟨kind, bound⟩

/-- What is made of packed fields is what setting them one after another makes. -/
theorem unpackFields_pack {α : Type} (setField : α → Field → Option α) (initial : α)
    {fields : List Field} (tagged : ∀ field ∈ fields, field.Tagged)
    (short : (fields.flatMap Field.pack).length < 2 ^ 64) :
    unpackFields setField initial (fields.flatMap Field.pack) =
      fields.foldlM setField initial := by
  -- The fields are read back, and setting them is the same fold.
  rw [unpackFields, readFields_pack (valid_of_tagged tagged short)]
  rfl

/-- The bytes of an entry are those of its fields. -/
theorem entryPack_eq (entry : EntryT) : entryPack entry = entry.fields.flatMap Field.pack := by
  -- Each optional field is packed or left out on both sides.
  simp only [EntryT.fields, List.flatMap_append, optionalField_pack]
  rfl

/-- The bytes of statistics are those of its fields. -/
theorem statisticsPack_eq (stats : StatisticsT) :
    statisticsPack stats = stats.fields.flatMap Field.pack := by
  -- Each optional field is packed or left out on both sides.
  simp only [StatisticsT.fields, List.flatMap_append, optionalField_pack]
  rfl

/-- The bytes of a message are those of its fields. -/
theorem messagePack_eq (msg : MessageT) : messagePack msg = msg.fields.flatMap Field.pack := by
  -- Each optional field is packed or left out, and the arrays element by element.
  simp only [MessageT.fields, List.flatMap_append, optionalField_pack, List.flatMap_map]
  rfl

/-- A string without zeros is read back whole. -/
theorem readString_stringBytes (value : Option Key) :
    readString (stringBytes value) = stringOf value := by
  cases value with
  | none => rfl
  | some key =>
    -- No byte of a key ends it early.
    have whole : key.bytes.takeWhile (· ≠ 0) = key.bytes := by
      rw [List.takeWhile_eq_self_iff]
      intro byte member
      exact decide_eq_true fun zero => key.nulFree (zero ▸ member)
    exact Key.bytes_injective (congrArg (List.map UInt8.toNat) whole)

/-- A string field that is left out stands for the string with no bytes. -/
theorem stringOf_of_empty {value : Option Key} (empty : stringBytes value = []) :
    stringOf value = emptyString := by
  -- The bytes are read back as they are.
  rw [← readString_stringBytes, empty]
  rfl

/-- A number of the type `int32` is read back from its varint. -/
theorem int32_packed {value : Int} (inRange : int32 value = value) :
    int32 ((value % 2 ^ 64).toNat : Int) = value := by
  -- The varint holds the number modulo 2^64, and that is reduced modulo 2^32.
  unfold int32 at inRange ⊢
  omega

/-- A number of the type `sint32` is read back from its varint. -/
theorem readSint32_packed (value : Int) :
    readSint32 (if value < 0 then (-value) * 2 - 1 else value * 2).toNat = value := by
  -- Even numbers stand for those that are not negative, and odd ones for the others.
  unfold readSint32
  split <;> split <;> omega

/-- An entry is unpacked from its bytes. -/
theorem unpackFields_entry {entry : EntryT} (short : (entryPack entry).length < 2 ^ 64) :
    unpackFields EntryT.setField {} (entryPack entry) = some entry.unpacked := by
  rw [entryPack_eq] at short ⊢
  rw [unpackFields_pack _ _ ?_ short]
  · rw [EntryT.fields, List.foldlM_append]
    -- The key is set first, unless it has no bytes.
    have keySet : (optionalField 0x0a (stringBytes entry.key = [])
        (.delimited (stringBytes entry.key))).foldlM EntryT.setField {} =
        some { key := some (stringOf entry.key) } :=
      foldlM_optionalField
        (fun absent => by rw [stringOf_of_empty (of_decide_eq_true absent)])
        (fun _ => by
          rw [← readString_stringBytes]
          rfl)
    rw [keySet]
    refine foldlM_optionalField (fun absent => ?_) fun present => ?_
    · rw [EntryT.unpacked, if_pos (of_decide_eq_true absent)]
    · rw [EntryT.unpacked, if_neg (of_decide_eq_false present)]
      rfl
  · -- Both fields carry bytes.
    intro field member
    rcases List.mem_append.mp member with isKey | isValue
    · exact tagged_optionalField (tagged_delimited (by decide) _) field isKey
    · exact tagged_optionalField (tagged_delimited (by decide) _) field isValue

/-- Statistics are unpacked from their bytes. -/
theorem unpackFields_statistics {stats : StatisticsT} (inRange : stats.InRange)
    (short : (statisticsPack stats).length < 2 ^ 64) :
    unpackFields StatisticsT.setField {} (statisticsPack stats) = some stats := by
  rw [statisticsPack_eq] at short ⊢
  rw [unpackFields_pack _ _ ?_ short]
  · rw [StatisticsT.fields, List.foldlM_append, List.foldlM_append]
    -- A number that is left out is the zero that it is initialised with.
    have opsSet : (optionalField 0x08 (stats.ops = 0)
        (.number (stats.ops % 2 ^ 64).toNat)).foldlM StatisticsT.setField {} =
        some { ops := stats.ops } :=
      foldlM_optionalField (fun absent => by rw [of_decide_eq_true absent])
        (fun _ => congrArg (fun ops => some ({ ops := ops } : StatisticsT))
          (int32_packed inRange.ops))
    have timeSet : (optionalField 0x10 (stats.totalTime = 0)
        (.number stats.totalTime)).foldlM StatisticsT.setField { ops := stats.ops } =
        some { ops := stats.ops, totalTime := stats.totalTime } :=
      foldlM_optionalField (fun absent => by rw [of_decide_eq_true absent]) (fun _ => rfl)
    rw [opsSet, Option.bind_eq_bind, Option.bind_some, timeSet, Option.bind_some]
    refine foldlM_optionalField (fun absent => ?_) fun _ => ?_
    · rw [← of_decide_eq_true absent]
    · exact congrArg
        (fun clients => some ({ stats with clients := clients } : StatisticsT))
        (int32_packed inRange.clients)
  · -- All three fields carry numbers.
    intro field member
    simp only [StatisticsT.fields, List.mem_append] at member
    rcases member with (isOps | isTime) | isClients
    · exact tagged_optionalField (tagged_number (by decide) (by omega)) field isOps
    · exact tagged_optionalField (tagged_number (by decide) inRange.totalTime) field isTime
    · exact tagged_optionalField (tagged_number (by decide) (by omega)) field isClients

/-- A repeated field is set one element after another. -/
theorem foldlM_repeated {α β : Type} {setField : α → Field → Option α} {pack : β → Field}
    (after : List β → α) (elements : List β)
    (step : ∀ front element behind, elements = front ++ element :: behind →
      setField (after front) (pack element) = some (after (front ++ [element]))) :
    (elements.map pack).foldlM setField (after []) = some (after elements) := by
  -- The elements set so far grow by one at each step.
  suffices from_here : ∀ behind front, elements = front ++ behind →
      (behind.map pack).foldlM setField (after front) = some (after elements) from
    from_here elements [] rfl
  intro behind
  induction behind with
  | nil =>
    intro front split
    rw [split, List.append_nil]
    rfl
  | cons element behind ih =>
    intro front split
    rw [List.map_cons, List.foldlM_cons, step front element behind split, Option.bind_eq_bind,
      Option.bind_some]
    exact ih (front ++ [element]) (by rw [split, List.append_assoc]; rfl)

/-- An element is added behind those of an array that may be NULL. -/
theorem arrayOf_concat {α : Type} (elements : List α) (last : α) :
    some ((arrayOf elements).getD [] ++ [some last]) = arrayOf (elements ++ [last]) := by
  -- An array without elements is NULL.
  cases elements with
  | nil => rfl
  | cons first elements => simp [arrayOf]

/-- All fields of a message are tagged as their payloads say. -/
theorem MessageT.tagged {msg : MessageT} (inRange : msg.InRange) :
    ∀ field ∈ msg.fields, field.Tagged := by
  -- The result takes one bit more than its value, for the sign.
  have result := inRange.result
  unfold int32 at result
  intro field member
  simp only [MessageT.fields, List.mem_append, or_assoc, List.mem_map] at member
  rcases member with isOpcode | isType | isEntry | isKey | isValue | isResult |
    ⟨key, -, rfl⟩ | ⟨entry, -, rfl⟩ | isStats
  · exact tagged_optionalField (tagged_number (by decide) (by omega)) field isOpcode
  · exact tagged_optionalField (tagged_number (by decide) (by omega)) field isType
  · exact tagged_optionalField (tagged_delimited (by decide) _) field isEntry
  · exact tagged_optionalField (tagged_delimited (by decide) _) field isKey
  · exact tagged_optionalField (tagged_delimited (by decide) _) field isValue
  · exact tagged_optionalField (tagged_number (by decide) (by split <;> omega)) field isResult
  · exact tagged_delimited (by decide) _
  · exact tagged_delimited (by decide) _
  · exact tagged_optionalField (tagged_delimited (by decide) _) field isStats

section Message

variable {before : MessageT}

/-- The code is set, which is that of no operation when its field is left out. -/
theorem foldlM_opcode {opcode : Int} (unset : before.opcode = 0) (inRange : int32 opcode = opcode) :
    (optionalField 0x08 (opcode = 0) (.number (opcode % 2 ^ 64).toNat)).foldlM MessageT.setField
      before = some { before with opcode := opcode } :=
  foldlM_optionalField (fun absent => by rw [of_decide_eq_true absent, ← unset])
    (fun _ => congrArg (fun opcode => some ({ before with opcode := opcode } : MessageT))
      (int32_packed inRange))

/-- The kind of contents is set, in the same way. -/
theorem foldlM_cType {cType : Int} (unset : before.cType = 0) (inRange : int32 cType = cType) :
    (optionalField 0x10 (cType = 0) (.number (cType % 2 ^ 64).toNat)).foldlM MessageT.setField
      before = some { before with cType := cType } :=
  foldlM_optionalField (fun absent => by rw [of_decide_eq_true absent, ← unset])
    (fun _ => congrArg (fun cType => some ({ before with cType := cType } : MessageT))
      (int32_packed inRange))

/-- The entry is set to the one that is unpacked, or stays NULL. -/
theorem foldlM_entry {entry : Option EntryT} (unset : before.entry = none)
    (short : ∀ sent ∈ entry, (entryPack sent).length < 2 ^ 64) :
    (optionalField 0x1a entry.isNone (.delimited ((entry.map entryPack).getD []))).foldlM
      MessageT.setField before = some { before with entry := entry.map EntryT.unpacked } := by
  -- The field is there exactly if the entry is.
  cases entry with
  | none =>
    refine foldlM_optionalField (fun _ => ?_) fun present => ?_
    · rw [Option.map_none, ← unset]
    · cases present
  | some entry =>
    refine foldlM_optionalField (fun absent => by cases absent) fun _ => ?_
    change (unpackFields EntryT.setField {} (entryPack entry) >>= _) = _
    rw [unpackFields_entry (short entry rfl)]
    rfl

/-- The key is set to the string that was packed. -/
theorem foldlM_key {key : Option Key} (unset : before.key = some emptyString) :
    (optionalField 0x22 (stringBytes key = []) (.delimited (stringBytes key))).foldlM
      MessageT.setField before = some { before with key := some (stringOf key) } :=
  foldlM_optionalField
    (fun absent => by rw [stringOf_of_empty (of_decide_eq_true absent), ← unset])
    (fun _ => congrArg (fun key => some ({ before with key := some key } : MessageT))
      (readString_stringBytes key))

/-- The value is set to the bytes that were packed. -/
theorem foldlM_value {value : BinaryData} (unset : before.value = ⟨0, none⟩) :
    (optionalField 0x2a (value.len = 0) (.delimited value.bytes)).foldlM MessageT.setField
      before = some { before with
        value := if value.len = 0 then ⟨0, none⟩ else binaryOf value.bytes } :=
  foldlM_optionalField
    (fun absent => by rw [if_pos (of_decide_eq_true absent), ← unset])
    (fun present => by
      rw [if_neg (of_decide_eq_false present)]
      rfl)

/-- The result is set, in which a value and its sign alternate. -/
theorem foldlM_result {result : Int} (unset : before.result = 0) :
    (optionalField 0x30 (result = 0)
      (.number (if result < 0 then (-result) * 2 - 1 else result * 2).toNat)).foldlM
      MessageT.setField before = some { before with result := result } :=
  foldlM_optionalField (fun absent => by rw [of_decide_eq_true absent, ← unset])
    (fun _ => congrArg (fun result => some ({ before with result := result } : MessageT))
      (readSint32_packed result))

/-- The array of keys grows by one string with every field. -/
theorem foldlM_keys (keys : List (Option Key)) (uncounted : before.nKeys = 0)
    (unset : before.keys = none) :
    (keys.map fun key => (⟨0x3a, .delimited (stringBytes key)⟩ : Field)).foldlM
      MessageT.setField before = some { before with
        nKeys := (keys.map stringOf).length, keys := arrayOf (keys.map stringOf) } := by
  -- The array after some of the fields has the keys of these.
  let after (keys : List (Option Key)) : MessageT := { before with
    nKeys := (keys.map stringOf).length, keys := arrayOf (keys.map stringOf) }
  have start : before = after [] := by
    change before = { before with nKeys := 0, keys := none }
    rw [← uncounted, ← unset]
  rw [start]
  refine foldlM_repeated after keys fun front key behind _ => ?_
  simp only [after, List.map_append, List.map_cons, List.map_nil, ← arrayOf_concat,
    ← readString_stringBytes, List.length_append, List.length_singleton]
  rfl

/-- The array of entries grows by one entry with every field, an empty one for NULL. -/
theorem foldlM_entries (entries : List (Option EntryT)) (uncounted : before.nEntries = 0)
    (unset : before.entries = none)
    (short : ∀ entry, some entry ∈ entries → (entryPack entry).length < 2 ^ 64) :
    (entries.map fun entry =>
      (⟨0x42, .delimited ((entry.map entryPack).getD [])⟩ : Field)).foldlM
      MessageT.setField before = some { before with
        nEntries := (entries.map fun entry => (entry.getD {}).unpacked).length
        entries := arrayOf (entries.map fun entry => (entry.getD {}).unpacked) } := by
  -- The array after some of the fields has the entries of these.
  let after (entries : List (Option EntryT)) : MessageT := { before with
    nEntries := (entries.map fun entry => (entry.getD {}).unpacked).length
    entries := arrayOf (entries.map fun entry => (entry.getD {}).unpacked) }
  have start : before = after [] := by
    change before = { before with nEntries := 0, entries := none }
    rw [← uncounted, ← unset]
  rw [start]
  refine foldlM_repeated after entries fun front entry behind split => ?_
  have unpacked : unpackFields EntryT.setField {} ((entry.map entryPack).getD []) =
      some (entry.getD {}).unpacked := by
    cases entry with
    | none => rfl
    | some entry => exact unpackFields_entry (short entry (by rw [split]; simp))
  simp only [after, List.map_append, List.map_cons, List.map_nil, ← arrayOf_concat,
    List.length_append, List.length_singleton]
  change (unpackFields EntryT.setField {} ((entry.map entryPack).getD []) >>= _) = _
  rw [unpacked]
  rfl

/-- The statistics are set, or stay NULL. -/
theorem foldlM_stats {stats : Option StatisticsT} (unset : before.stats = none)
    (inRange : ∀ sent ∈ stats, sent.InRange)
    (short : ∀ sent ∈ stats, (statisticsPack sent).length < 2 ^ 64) :
    (optionalField 0x4a stats.isNone (.delimited ((stats.map statisticsPack).getD []))).foldlM
      MessageT.setField before = some { before with stats := stats } := by
  -- As for the entry, the field is there exactly if the statistics are.
  cases stats with
  | none =>
    refine foldlM_optionalField (fun _ => ?_) fun present => ?_
    · rw [← unset]
    · cases present
  | some stats =>
    refine foldlM_optionalField (fun absent => by cases absent) fun _ => ?_
    change (unpackFields StatisticsT.setField {} (statisticsPack stats) >>= _) = _
    rw [unpackFields_statistics (inRange stats rfl) (short stats rfl)]
    rfl

end Message

/-- Setting all fields of a message makes the message as it is unpacked. -/
theorem foldlM_fields {msg : MessageT} (inRange : msg.InRange)
    (valid : ∀ field ∈ msg.fields, field.Valid) :
    msg.fields.foldlM MessageT.setField {} = some msg.unpacked := by
  -- Messages inside this one take no more bytes than a length can say.
  have entryShort : ∀ entry ∈ msg.entry, (entryPack entry).length < 2 ^ 64 := by
    intro entry sent
    have member : (⟨0x1a, .delimited (entryPack entry)⟩ : Field) ∈ msg.fields := by
      simp [MessageT.fields, Option.mem_def.mp sent, optionalField]
    exact (valid _ member).2
  have entriesShort : ∀ entry, some entry ∈ (msg.entries.getD []).take msg.nEntries →
      (entryPack entry).length < 2 ^ 64 := by
    intro entry counted
    have member : (⟨0x42, .delimited (entryPack entry)⟩ : Field) ∈ msg.fields := by
      simp only [MessageT.fields, List.mem_append, List.mem_map]
      exact .inl (.inr ⟨some entry, counted, rfl⟩)
    exact (valid _ member).2
  have statsShort : ∀ stats ∈ msg.stats, (statisticsPack stats).length < 2 ^ 64 := by
    intro stats sent
    have member : (⟨0x4a, .delimited (statisticsPack stats)⟩ : Field) ∈ msg.fields := by
      simp [MessageT.fields, Option.mem_def.mp sent, optionalField]
    exact (valid _ member).2
  -- The fields are set in the order of the schema, each one where nothing was set before.
  simp only [MessageT.fields, List.foldlM_append]
  rw [foldlM_opcode rfl inRange.opcode]
  simp only [Option.bind_eq_bind, Option.bind_some]
  rw [foldlM_cType rfl inRange.cType, Option.bind_some, foldlM_entry rfl entryShort,
    Option.bind_some, foldlM_key rfl, Option.bind_some, foldlM_value rfl, Option.bind_some,
    foldlM_result rfl, Option.bind_some, foldlM_keys _ rfl rfl, Option.bind_some,
    foldlM_entries _ rfl rfl entriesShort, Option.bind_some,
    foldlM_stats rfl inRange.stats statsShort]
  rfl

/-- The schema has a decoder that gets back what was packed. -/
theorem messageUnpack_messagePack {msg : MessageT} (inRange : msg.InRange)
    (short : (messagePack msg).length < 2 ^ 64) :
    messageUnpack (messagePack msg) = some msg.unpacked := by
  -- The bytes are those of fields, which are all read back before they are set.
  have tagged := MessageT.tagged inRange
  rw [messagePack_eq] at short ⊢
  rw [messageUnpack, unpackFields_pack _ _ tagged short]
  exact foldlM_fields inRange (valid_of_tagged tagged short)

/-- The encoding of the schema, with a decoder for it. -/
def schemaCodec : Codec where
  pack := messagePack
  unpack := messageUnpack

/-- The decoder of the schema gets back what was packed. -/
theorem schemaCodec_faithful : schemaCodec.Faithful where
  pack := rfl
  unpack _ inRange short := messageUnpack_messagePack inRange (short.trans (by decide))

end ChainTable
