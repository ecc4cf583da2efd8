import ChainTable.Library.Delimited
import ChainTable.Wire.Proto

/-! Packed bytes as a sequence of fields, each with its tag in front, and how they are read back. -/

namespace ChainTable

/-- What follows the tag of a field. -/
inductive Payload where
  | number (value : Nat)
  | delimited (bytes : List UInt8)
  deriving DecidableEq, Repr

/-- The bytes of a payload. -/
def Payload.pack : Payload → List UInt8
  | .number value => varint value
  | .delimited bytes => packBytes bytes

/-- A field, whose tag says in its lowest three bits what kind of payload follows. -/
structure Field where
  tag : UInt8
  payload : Payload
  deriving DecidableEq, Repr

/-- The bytes of a field. -/
def Field.pack (field : Field) : List UInt8 :=
  field.tag :: field.payload.pack

/-- The payload is of the kind that the tag says, and its number or length has a varint. -/
def Field.Valid (field : Field) : Prop :=
  match field.payload with
  | .number value => field.tag.toNat % 8 = 0 ∧ value < 2 ^ 64
  | .delimited bytes => field.tag.toNat % 8 = 2 ∧ bytes.length < 2 ^ 64

/-- The number that a varint of one byte more than said at most stands for. -/
def readVarint : (more : Nat) → List UInt8 → Option (Nat × List UInt8)
  | _, [] => none
  | more, group :: behind =>
    if group.toNat < 128 then some (group.toNat, behind)
    else match more with
    | 0 => none
    | more + 1 => do
      let (high, behind) ← readVarint more behind
      return (group.toNat - 128 + 128 * high, behind)

/-- The field at the start of some bytes. -/
def readField : List UInt8 → Option (Field × List UInt8)
  | [] => none
  | tag :: behind => do
    let (value, behind) ← readVarint 9 behind
    if tag.toNat % 8 = 0 then return (⟨tag, .number value⟩, behind)
    -- Other kinds of payloads are not used by the schema.
    else if tag.toNat % 8 = 2 ∧ value ≤ behind.length then
      return (⟨tag, .delimited (behind.take value)⟩, behind.drop value)
    else none

/-- A number is read back from its groups, when they are as many as it needs. -/
theorem readVarint_varintGroups (more : Nat) {value : Nat} (bound : value < 128 ^ (more + 1))
    (behind : List UInt8) :
    readVarint more (varintGroups more value ++ behind) = some (value, behind) := by
  -- The first group gives the lowest seven bits, and says whether there are others.
  induction more generalizing value with
  | zero =>
    have last : (UInt8.ofNat value).toNat = value := UInt8.toNat_ofNat_of_lt' (by
      change value < 256
      omega)
    simp [varintGroups, readVarint, last]
    omega
  | succ more ih =>
    unfold varintGroups
    by_cases small : value < 128
    · have last : (UInt8.ofNat value).toNat = value := UInt8.toNat_ofNat_of_lt' (by
        change value < 256
        omega)
      rw [if_pos small, List.cons_append, readVarint, last, if_pos small, List.nil_append]
    · -- The groups behind the first one stand for the quotient.
      have group : (UInt8.ofNat (value % 128 + 128)).toNat = value % 128 + 128 :=
        UInt8.toNat_ofNat_of_lt' (by
          change value % 128 + 128 < 256
          omega)
      have quotient : value / 128 < 128 ^ (more + 1) := by
        rw [Nat.div_lt_iff_lt_mul (by decide)]
        rwa [pow_succ] at bound
      have high := ih quotient
      rw [if_neg small, List.cons_append, readVarint, group, if_neg (by omega)]
      simp only [high, Option.bind_eq_bind, Option.bind_some]
      refine congrArg some (Prod.ext ?_ rfl)
      change value % 128 + 128 - 128 + 128 * (value / 128) = value
      omega

/-- A number of 64 bits is read back from its varint. -/
theorem readVarint_varint {value : Nat} (bound : value < 2 ^ 64) (behind : List UInt8) :
    readVarint 9 (varint value ++ behind) = some (value, behind) :=
  readVarint_varintGroups 9 (bound.trans (by decide)) behind

/-- Fields are read back from their bytes. -/
theorem readField_pack : Delimited.Reads Field.Valid Field.pack readField where
  back field valid behind := by
    -- The tag says whether a number follows, or a length and as many bytes.
    obtain ⟨tag, payload⟩ := field
    cases payload with
    | number value =>
      obtain ⟨kind, bound⟩ : tag.toNat % 8 = 0 ∧ value < 2 ^ 64 := valid
      simp only [Field.pack, Payload.pack, List.cons_append, readField]
      rw [readVarint_varint bound]
      simp [kind]
    | delimited bytes =>
      obtain ⟨kind, bound⟩ : tag.toNat % 8 = 2 ∧ bytes.length < 2 ^ 64 := valid
      simp only [Field.pack, Payload.pack, packBytes, List.cons_append, List.append_assoc,
        readField]
      rw [readVarint_varint bound]
      simp [kind]
  nonempty _ _ := List.cons_ne_nil _ _

/-- The fields that some bytes consist of. -/
def readFields (bytes : List UInt8) : Option (List Field) :=
  Delimited.readAll readField bytes.length bytes

/-- Fields are read back from the bytes that they were packed into. -/
theorem readFields_pack {fields : List Field} (valid : ∀ field ∈ fields, field.Valid) :
    readFields (fields.flatMap Field.pack) = some fields :=
  readField_pack.all valid (le_refl _)

/-- A field of proto3, left out when it has its default value. -/
def optionalField (tag : UInt8) (isDefault : Bool) (payload : Payload) : List Field :=
  if isDefault then [] else [⟨tag, payload⟩]

/-- A field is packed into its tag and its payload, or into nothing. -/
theorem optionalField_pack (tag : UInt8) (isDefault : Bool) (payload : Payload) :
    (optionalField tag isDefault payload).flatMap Field.pack =
      packField tag isDefault payload.pack := by
  -- A default value is left out on both sides.
  cases isDefault with
  | true => rfl
  | false => simp [optionalField, packField, Field.pack]

/-- A field that may be left out is set to its value, when that is the default without it. -/
theorem foldlM_optionalField {α : Type} {setField : α → Field → Option α} {before after : α}
    {tag : UInt8} {isDefault : Bool} {payload : Payload}
    (absent : isDefault = true → before = after)
    (present : isDefault = false → setField before ⟨tag, payload⟩ = some after) :
    (optionalField tag isDefault payload).foldlM setField before = some after := by
  -- Setting no field leaves the default that was there before.
  cases isDefault with
  | true =>
    rw [absent rfl]
    rfl
  | false =>
    simp [optionalField, present rfl]

end ChainTable
