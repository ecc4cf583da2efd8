import ChainTable.Wire.FrameLaws

/-! Arrays of keys in a buffer: their number in four bytes, followed by the terminated keys. -/

namespace ChainTable

/-- The bytes of `htonl(value)`, in the order in which they are stored. -/
def htonl (value : Int) : List UInt8 :=
  [UInt8.ofNat (value % 2 ^ 32 / 2 ^ 24).toNat, UInt8.ofNat (value % 2 ^ 24 / 2 ^ 16).toNat,
    UInt8.ofNat (value % 2 ^ 16 / 2 ^ 8).toNat, UInt8.ofNat (value % 2 ^ 8).toNat]

/-- The `int` that `ntohl` makes of four bytes, in the order in which they are stored. -/
def ntohl (first second third fourth : UInt8) : Int :=
  int32 (first.toNat * 2 ^ 24 + second.toNat * 2 ^ 16 + third.toNat * 2 ^ 8 + fourth.toNat)

/-- What happens to be in the blocks that `malloc` gives. -/
abbrev FreshMemory := (size : Nat) → { block : List UInt8 // block.length = size }

/-- The loop of `keyArray_to_buffer` up to the NULL: `nkeys` and `keys_buf_size`. -/
def countKeys : (keys : List (Option Key)) → (nkeys keysBufSize : Int) → C (Int × Int)
  | none :: _, nkeys, keysBufSize => return (nkeys, keysBufSize)
  | some key :: keys, nkeys, keysBufSize =>
    -- The sum with the length is of type `size_t`, and becomes an `int` again.
    countKeys keys (int32 (nkeys + 1)) (int32 (keysBufSize + (key.bytes.length + 1)))
  | [], _, _ => throw .outOfBounds

/-- The loop of `keyArray_to_buffer` that copies so many keys, from a position of the buffer on. -/
def copyToBuffer : (count : Nat) → (keys : List (Option Key)) → (position : Nat) →
    (keysBuf : List UInt8) → C (List UInt8)
  | 0, _, _, keysBuf => return keysBuf
  | count + 1, some key :: keys, position, keysBuf => do
    -- `strcpy` writes the terminator as well.
    let keysBuf ← writeAt keysBuf position (key.bytes ++ [0])
    copyToBuffer count keys (position + (key.bytes.length + 1)) keysBuf
  | _ + 1, none :: _, _, _ => throw .nullDereference
  | _ + 1, [], _, _ => throw .outOfBounds

/--
`keyArray_to_buffer`: its result, and the place that `keys_buf` points to.

An array that is NULL is none, and so is a place that there is not.
-/
def keyArrayToBuffer (fresh : FreshMemory) (keys : Option (List (Option Key)))
    (keysBuf : Option (Option (List UInt8))) : C (Int × Option (Option (List UInt8))) := do
  match keys, keysBuf with
  | some keys, some _ =>
    -- The size starts with the room for the number of keys.
    let (nkeys, keysBufSize) ← countKeys keys 0 4
    if !(← mallocSize keysBufSize) then return (-1, some none)
    let buffer ← writeAt (fresh keysBufSize.toNat).val 0 (htonl nkeys)
    let buffer ← copyToBuffer nkeys.toNat keys 4 buffer
    return (keysBufSize, some (some buffer))
  | _, _ => return (-1, keysBuf)

/-- The loop of `buffer_to_keyArray` that reads so many keys, and the NULL behind them. -/
def readKeys : (count : Nat) → (keysBufPtr : List UInt8) → C (Option (List (Option Key)))
  | 0, _ => return some [none]
  | count + 1, keysBufPtr => do
    let key ← cString keysBufPtr
    match ← strdup key with
    | none => return none
    | some copy =>
      match ← readKeys count (keysBufPtr.drop (key.bytes.length + 1)) with
      | none => return none
      | some keys => return some (some copy :: keys)

/-- `buffer_to_keyArray`. -/
def bufferToKeyArray (keysBuf : Option (List UInt8)) : C (Option (List (Option Key))) := do
  match keysBuf with
  | none => return none
  | some (first :: second :: third :: fourth :: keysBufPtr) =>
    let nkeys := ntohl first second third fourth
    -- The array has room for the NULL, and its size goes through `int` before it is multiplied.
    if !(← mallocSize (int32 (nkeys + 1) * 8)) then return none
    -- A number of -1 leaves no room, and the NULL is written before the array.
    if nkeys < 0 then throw .outOfBounds
    readKeys nkeys.toNat keysBufPtr
  | some _ => throw .outOfBounds

/-- The buffer of the documented format for some keys. -/
def keyArrayEncoding (keys : List Key) : List UInt8 :=
  htonl keys.length ++ Terminated.join 0 (keys.map Key.bytes)

/-- The size of the buffer for some keys. -/
def keyArraySize (keys : List Key) : Nat :=
  4 + (keys.map fun key => key.bytes.length + 1).sum

/-- A buffer of the documented format: a number, and then so many terminated strings. -/
def WellFormedKeys (buffer : List UInt8) : Prop :=
  ∃ first second third fourth strings, buffer = first :: second :: third :: fourth :: strings ∧
    ntohl first second third fourth = strings.count 0 ∧
    (strings = [] ∨ strings.getLast? = some 0)

/-- A number that is stored is read back when it is an `int`. -/
theorem ntohl_htonl {value : Int} (isInt : int32 value = value) :
    ∃ first second third fourth, htonl value = [first, second, third, fourth] ∧
      ntohl first second third fourth = value := by
  refine ⟨_, _, _, _, rfl, ?_⟩
  unfold ntohl
  simp only [UInt8.toNat_ofNat']
  -- Each byte has one of the four digits to base 256.
  have digit : ∀ digit : Int, 0 ≤ digit → digit < 256 →
      ((digit.toNat % 2 ^ 8 : Nat) : Int) = digit := by
    intro digit low high
    omega
  rw [digit _ (by omega) (by omega), digit _ (by omega) (by omega), digit _ (by omega) (by omega),
    digit _ (by omega) (by omega)]
  unfold int32 at isInt ⊢
  omega

/-- Four bytes are stored again as they were read. -/
theorem htonl_ntohl (first second third fourth : UInt8) :
    htonl (ntohl first second third fourth) = [first, second, third, fourth] := by
  -- A byte is less than 256, so that the digits are found again.
  have := first.toNat_lt
  have := second.toNat_lt
  have := third.toNat_lt
  have := fourth.toNat_lt
  unfold htonl ntohl int32
  simp only [List.cons.injEq, ← UInt8.toNat_inj, UInt8.toNat_ofNat', and_true]
  omega

/-- The number takes four bytes. -/
@[simp] theorem length_htonl (value : Int) : (htonl value).length = 4 := rfl

/-- The buffer for some keys has the size that is computed for it. -/
theorem length_keyArrayEncoding (keys : List Key) :
    (keyArrayEncoding keys).length = keyArraySize keys := by
  rw [keyArrayEncoding, List.length_append, length_htonl, Terminated.length_join, List.map_map]
  rfl

/-- There are fewer keys than bytes in the buffer for them. -/
theorem length_add_four_le (keys : List Key) : keys.length + 4 ≤ keyArraySize keys := by
  -- Every key takes at least the byte of its terminator.
  unfold keyArraySize
  induction keys with
  | nil => simp
  | cons key keys ih =>
    rw [List.length_cons, List.map_cons, List.sum_cons]
    omega

section Encoding

variable (fresh : FreshMemory) (keys : List Key) (behind : List (Option Key))

/-- The keys are counted and their sizes added up, as far as an `int` can hold the numbers. -/
theorem countKeys_spec (nkeys keysBufSize : Int) :
    countKeys (keys.map some ++ none :: behind) (int32 nkeys) (int32 keysBufSize) =
      pure (int32 (nkeys + keys.length), int32 (keysBufSize +
        ((keys.map fun key => key.bytes.length + 1).sum : Nat))) := by
  -- Conversions in between do not change what the last one gives.
  induction keys generalizing nkeys keysBufSize with
  | nil => simp [countKeys]
  | cons key keys ih =>
    have counted : int32 (int32 nkeys + 1) = int32 (nkeys + 1) := by
      unfold int32
      omega
    have added : int32 (int32 keysBufSize + (key.bytes.length + 1)) =
        int32 (keysBufSize + (key.bytes.length + 1)) := by
      unfold int32
      omega
    rw [List.map_cons, List.cons_append, countKeys, counted, added, ih]
    simp only [List.length_cons, List.map_cons, List.sum_cons, Nat.cast_add, Nat.cast_one]
    congr 3 <;> omega

/-- The keys are copied one behind the other. -/
theorem copyToBuffer_spec (written old : List UInt8)
    (room : (Terminated.join 0 (keys.map Key.bytes)).length ≤ old.length) :
    copyToBuffer keys.length (keys.map some ++ none :: behind) written.length (written ++ old) =
      pure (written ++ Terminated.join 0 (keys.map Key.bytes) ++
        old.drop (Terminated.join 0 (keys.map Key.bytes)).length) := by
  -- Each key moves the position behind its terminator, where the next one is written.
  induction keys generalizing written old with
  | nil => simp [copyToBuffer]
  | cons key keys ih =>
    rw [List.map_cons, Terminated.join_cons, List.length_append, List.length_cons] at room
    have here : (key.bytes ++ [0]).length ≤ old.length := by
      rw [List.length_append, List.length_singleton]
      omega
    rw [List.length_cons, List.map_cons, List.cons_append, copyToBuffer, writeAt_front here,
      pure_bind]
    have position : written.length + (key.bytes.length + 1) =
        (written ++ (key.bytes ++ [0])).length := by simp
    have size : (Terminated.join 0 ((key :: keys).map Key.bytes)).length =
        (key.bytes ++ [0]).length + (Terminated.join 0 (keys.map Key.bytes)).length := by
      simp only [List.map_cons, Terminated.join_cons, List.length_append, List.length_cons,
        List.length_nil]
      omega
    rw [position, ih _ _ (by rw [List.length_drop, List.length_append]; simp; omega), size,
      List.drop_drop]
    simp

/-- The number of the keys and the size of their buffer are counted as long as they are `int`s. -/
theorem countKeys_small (small : keyArraySize keys < 2 ^ 31) :
    countKeys (keys.map some ++ none :: behind) 0 4 =
      pure ((keys.length : Int), (keyArraySize keys : Int)) := by
  have fewer := length_add_four_le keys
  have number : int32 (0 + keys.length) = keys.length := by
    rw [zero_add, int32_of_bounds (by omega) (by omega)]
  have size : int32 (4 + ((keys.map fun key => key.bytes.length + 1).sum : Nat)) =
      keyArraySize keys := by
    rw [keyArraySize] at small ⊢
    rw [int32_of_bounds (by omega) (by omega)]
    push_cast
    rfl
  have counts := countKeys_spec keys behind 0 4
  rwa [number, size] at counts

/-- A block of the size for some keys is filled with their number and the keys themselves. -/
theorem fill_spec {block : List UInt8} (long : block.length = keyArraySize keys) :
    ∃ started, writeAt block 0 (htonl keys.length) = pure started ∧
      copyToBuffer keys.length (keys.map some ++ none :: behind) 4 started =
        pure (keyArrayEncoding keys) := by
  -- The block has room for the number in front and for all the keys behind it.
  have whole := length_keyArrayEncoding keys
  rw [keyArrayEncoding, List.length_append, length_htonl] at whole
  have room : (htonl keys.length).length ≤ block.length := by
    rw [length_htonl]
    omega
  have started : writeAt ([] ++ block) 0 (htonl keys.length) =
      pure ([] ++ htonl keys.length ++ block.drop (htonl keys.length).length) :=
    writeAt_front room
  have roomBehind : (Terminated.join 0 (keys.map Key.bytes)).length ≤
      (block.drop (htonl keys.length).length).length := by
    rw [List.length_drop, length_htonl]
    omega
  have copied := copyToBuffer_spec keys behind (htonl keys.length) _ roomBehind
  -- Nothing is left of what was in the block before.
  have full : (block.drop (htonl keys.length).length).drop
      (Terminated.join 0 (keys.map Key.bytes)).length = [] := by
    rw [List.drop_drop, List.drop_eq_nil_iff, length_htonl]
    omega
  rw [full, List.append_nil] at copied
  exact ⟨_, started, copied⟩

/-- Keys whose buffer an `int` can count are encoded into exactly that buffer. -/
theorem keyArrayToBuffer_spec (small : keyArraySize keys < 2 ^ 31) (old : Option (List UInt8)) :
    keyArrayToBuffer fresh (some (keys.map some ++ none :: behind)) (some old) [] =
      .ok ((((keyArrayEncoding keys).length : Int), some (some (keyArrayEncoding keys))), []) := by
  -- The block that is given has the size that was counted, and is filled.
  obtain ⟨started, begun, copied⟩ :=
    fill_spec keys behind (fresh (keyArraySize keys)).property
  unfold keyArrayToBuffer
  dsimp only
  rw [countKeys_small keys behind small, pure_bind]
  dsimp only
  rw [run_bind (mallocSize_given (Int.natCast_nonneg _))]
  simp only [Bool.not_true, Bool.false_eq_true, if_false, Int.toNat_natCast]
  rw [begun, pure_bind, copied, pure_bind, length_keyArrayEncoding]
  rfl

/-- Keys whose buffer has a size that becomes a negative `int` are not encoded. -/
theorem keyArrayToBuffer_refused (negative : int32 (keyArraySize keys) < 0)
    (old : Option (List UInt8)) :
    keyArrayToBuffer fresh (some (keys.map some ++ none :: behind)) (some old) [] =
      .ok ((-1, some none), []) := by
  -- No block is as large as the size that `malloc` is asked for then.
  have counted : countKeys (keys.map some ++ none :: behind) 0 4 =
      pure (int32 (0 + keys.length), int32 (keyArraySize keys)) := by
    rw [keyArraySize, Nat.cast_add]
    exact countKeys_spec keys behind 0 4
  unfold keyArrayToBuffer
  dsimp only
  rw [counted, pure_bind]
  dsimp only
  rw [run_bind (mallocSize_negative negative [])]
  rfl

end Encoding

/-- As many strings as are asked for are read from the front of a buffer. -/
theorem readKeys_spec (keys : List Key) (rest : List UInt8) :
    readKeys keys.length (Terminated.join 0 (keys.map Key.bytes) ++ rest) [] =
      .ok (some (keys.map some ++ [none]), []) := by
  -- The first string ends at the first terminator, behind which the others follow.
  induction keys with
  | nil => rfl
  | cons key keys ih =>
    rw [List.map_cons, Terminated.join_cons, List.append_assoc, List.cons_append, List.length_cons,
      readKeys, cString_terminated, pure_bind, run_bind (strdup_attempts key).succeeds]
    have behind : (key.bytes ++ 0 :: (Terminated.join 0 (keys.map Key.bytes) ++ rest)).drop
        (key.bytes.length + 1) = Terminated.join 0 (keys.map Key.bytes) ++ rest := by
      rw [List.drop_length_add_append]
      rfl
    dsimp only
    rw [behind, run_bind ih]
    rfl

/-- The keys are decoded from the buffer for them, unless there are too many for an `int`. -/
theorem bufferToKeyArray_spec {keys : List Key} (few : keys.length + 1 < 2 ^ 31) :
    bufferToKeyArray (some (keyArrayEncoding keys)) [] =
      .ok (some (keys.map some ++ [none]), []) := by
  -- The number that was stored is read back, and then as many strings are.
  have isInt : int32 (keys.length : Int) = keys.length := int32_of_bounds (by omega) (by omega)
  obtain ⟨first, second, third, fourth, stored, number⟩ := ntohl_htonl isInt
  have next : int32 (keys.length + 1) = (keys.length : Int) + 1 :=
    int32_of_bounds (by omega) (by omega)
  have given : mallocSize (int32 (keys.length + 1) * 8) [] = .ok (true, []) :=
    mallocSize_given (by omega)
  have read := readKeys_spec keys []
  rw [List.append_nil] at read
  rw [keyArrayEncoding, stored]
  simp only [List.cons_append, List.nil_append, bufferToKeyArray, number]
  rw [run_bind given]
  simp only [Bool.not_true, Bool.false_eq_true, if_false]
  rw [if_neg (by omega), Int.toNat_natCast]
  exact read

/-- The buffer for some keys is well formed, unless there are too many for an `int`. -/
theorem wellFormed_encoding {keys : List Key} (few : keys.length < 2 ^ 31) :
    WellFormedKeys (keyArrayEncoding keys) := by
  -- There are as many terminators as keys, for no key has one inside.
  have isInt : int32 (keys.length : Int) = keys.length := int32_of_bounds (by omega) (by omega)
  obtain ⟨first, second, third, fourth, stored, number⟩ := ntohl_htonl isInt
  refine ⟨first, second, third, fourth, Terminated.join 0 (keys.map Key.bytes), ?_, ?_,
    Terminated.join_closed 0 _⟩
  · rw [keyArrayEncoding, stored]
    rfl
  · rw [number, Terminated.count_join, List.length_map]
    intro word member
    obtain ⟨key, -, rfl⟩ := List.mem_map.mp member
    exact key.nulFree

/-- A well-formed buffer is the one for some keys. -/
theorem exists_encoding {buffer : List UInt8} (formed : WellFormedKeys buffer) :
    ∃ keys, buffer = keyArrayEncoding keys := by
  obtain ⟨first, second, third, fourth, strings, rfl, number, closed⟩ := formed
  obtain ⟨words, free, rfl⟩ := Terminated.exists_words 0 closed
  -- Each of the words is a string, for it has no terminator inside.
  obtain ⟨keys, rfl⟩ : ∃ keys : List Key, keys.map Key.bytes = words :=
    ⟨words.pmap (fun word free => ⟨word, free⟩) free, by simp [List.map_pmap]⟩
  refine ⟨keys, ?_⟩
  rw [Terminated.count_join 0 free, List.length_map] at number
  rw [keyArrayEncoding, ← number, htonl_ntohl]
  rfl

/--
Keys are encoded into the buffer of the documented format, and decoded from it again.

The other way round this holds of every well-formed buffer whose size is an `int`.
-/
theorem key_array_round_trip :
    (∀ (keys : List Key) (behind : List (Option Key)), keyArraySize keys < 2 ^ 31 →
      ∃ buffer, buffer.length = keyArraySize keys ∧ WellFormedKeys buffer ∧
        (∀ (fresh : FreshMemory) (old : Option (List UInt8)),
          keyArrayToBuffer fresh (some (keys.map some ++ none :: behind)) (some old) [] =
            .ok (((keyArraySize keys : Int), some (some buffer)), [])) ∧
        bufferToKeyArray (some buffer) [] = .ok (some (keys.map some ++ [none]), [])) ∧
    ∀ buffer, WellFormedKeys buffer → buffer.length < 2 ^ 31 →
      ∃ keys, bufferToKeyArray (some buffer) [] = .ok (some keys, []) ∧
        ∀ (fresh : FreshMemory) (old : Option (List UInt8)),
          keyArrayToBuffer fresh (some keys) (some old) [] =
            .ok (((buffer.length : Int), some (some buffer)), []) := by
  -- Both directions are about one and the same set of buffers.
  constructor
  · intro keys behind small
    have fewer := length_add_four_le keys
    refine ⟨keyArrayEncoding keys, length_keyArrayEncoding keys, wellFormed_encoding (by omega),
      fun fresh old => ?_, bufferToKeyArray_spec (by omega)⟩
    rw [keyArrayToBuffer_spec fresh keys behind small, length_keyArrayEncoding]
  · intro buffer formed small
    obtain ⟨keys, rfl⟩ := exists_encoding formed
    rw [length_keyArrayEncoding] at small
    have fewer := length_add_four_le keys
    exact ⟨keys.map some ++ [none], bufferToKeyArray_spec (by omega),
      fun fresh old => keyArrayToBuffer_spec fresh keys [] small old⟩

/-- A key and an empty one are encoded into seven bytes, and back from them. -/
theorem key_array_round_trip_empty_key :
    let key : Key := ⟨[97], by decide⟩
    let buffer : List UInt8 := [0, 0, 0, 2, 97, 0, 0]
    bufferToKeyArray (some buffer) [] = .ok (some [some key, some emptyString, none], []) ∧
      ∀ fresh old, keyArrayToBuffer fresh (some [some key, some emptyString, none]) (some old) [] =
        .ok ((7, some (some buffer)), []) := by
  -- The buffer has two terminators, of which the second belongs to the empty key.
  intro key buffer
  have formed : WellFormedKeys buffer := ⟨0, 0, 0, 2, [97, 0, 0], rfl, by decide, .inr rfl⟩
  obtain ⟨keys, decoded, encoded⟩ := key_array_round_trip.2 buffer formed (by decide)
  have known : bufferToKeyArray (some buffer) [] =
      .ok (some [some key, some emptyString, none], []) := by
    rw [show buffer = keyArrayEncoding [key, emptyString] by decide]
    exact bufferToKeyArray_spec (by decide)
  rw [known] at decoded
  cases decoded
  exact ⟨known, encoded⟩

/-- The string of one letter, so many times. -/
def repeatedLetter (count : Nat) : Key :=
  ⟨List.replicate count 97, fun zero => absurd (List.eq_of_mem_replicate zero) (by decide)⟩

/-- A well-formed buffer with a string of 2 GiB is decoded, and its array is not encoded again. -/
theorem long_key_array_is_refused :
    let key := repeatedLetter (2 ^ 31)
    let buffer := keyArrayEncoding [key]
    WellFormedKeys buffer ∧ bufferToKeyArray (some buffer) [] = .ok (some [some key, none], []) ∧
      ∀ fresh old, keyArrayToBuffer fresh (some [some key, none]) (some old) [] =
        .ok ((-1, some none), []) := by
  -- The size is above the range of an `int`, and so becomes negative.
  intro key buffer
  have size : keyArraySize [key] = 2 ^ 31 + 5 := by
    have length : key.bytes.length = 2 ^ 31 := List.length_replicate
    simp only [keyArraySize, List.map_cons, List.map_nil, List.sum_cons, List.sum_nil, length]
    omega
  have negative : int32 (keyArraySize [key]) < 0 := by
    rw [size]
    decide
  exact ⟨wellFormed_encoding (by decide), bufferToKeyArray_spec (by decide), fun fresh old =>
    keyArrayToBuffer_refused fresh [key] [] negative old⟩

end ChainTable
