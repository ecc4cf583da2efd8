import ChainTable.Local.Memory
import ChainTable.Library.OrderedAssoc
import ChainTable.Library.Terminated
import Mathlib.Data.List.Lex
import Mathlib.Order.Lattice

/-! Keys as C strings: their comparison and the row a hash assigns them to. -/

namespace ChainTable

/-- A C string, without the NUL byte that terminates it. -/
structure Key where
  bytes : List UInt8
  /-- The terminator cannot occur inside the string. -/
  nulFree : 0 ∉ bytes
  deriving Repr

/-- The string at the start of a buffer. -/
def cString (buffer : List UInt8) : C Key :=
  if 0 ∈ buffer then
    return ⟨buffer.takeWhile (· ≠ 0), fun member => by simpa using List.mem_takeWhile_imp member⟩
  else throw .unterminated

/-- A string is read back from a buffer that starts with it and its terminator. -/
theorem cString_terminated (string : Key) (rest : List UInt8) :
    cString (string.bytes ++ 0 :: rest) = pure string := by
  -- No byte of the string is the terminator, so the string ends at the one behind it.
  have bytes := Terminated.takeWhile_word 0 string.nulFree rest
  unfold cString
  rw [if_pos (by simp)]
  congr

/-- The comparison of `strcmp` on two terminated strings, byte by byte as unsigned values. -/
def strcmpBytes : List UInt8 → List UInt8 → Int
  -- Both terminators are reached together only by equal strings.
  | [], [] => 0
  | [], right :: _ => 0 - right.toNat
  | left :: _, [] => left.toNat
  | left :: lefts, right :: rights =>
    if left = right then strcmpBytes lefts rights else (left.toNat : Int) - right.toNat

/-- `strcmp` from the C library. -/
def strcmp (left right : Key) : Int :=
  strcmpBytes left.bytes right.bytes

/-- A byte read through the signed `char` of the target. -/
def signedChar (byte : UInt8) : Int :=
  -- Bytes from 128 on are negative.
  if byte.toNat < 128 then byte.toNat else (byte.toNat : Int) - 256

/-- Row of a key in a table of `module` rows. -/
def hashCode (key : Key) (module : Int) : Int :=
  -- The running `int` sum wraps, and C's remainder takes the sign of the sum.
  (key.bytes.foldl (fun sum byte => int32 (sum + signedChar byte)) 0).tmod module

/-- Keys differ as soon as their bytes do. -/
theorem Key.bytes_injective : Function.Injective fun key : Key => key.bytes.map UInt8.toNat := by
  -- A byte is determined by its number, and a key by its bytes.
  intro left right same
  have bytes : left.bytes = right.bytes :=
    (List.map_injective_iff.mpr fun _ _ => UInt8.toNat_inj.mp) same
  cases left; cases right; cases bytes; rfl

/-- Keys are ordered as their unsigned bytes are, lexicographically. -/
instance : LinearOrder Key :=
  LinearOrder.lift' (fun key : Key => key.bytes.map UInt8.toNat) Key.bytes_injective

/-- The order of keys is the lexicographic order of their bytes. -/
theorem Key.lt_iff (left right : Key) :
    left < right ↔ left.bytes.map UInt8.toNat < right.bytes.map UInt8.toNat := Iff.rfl

/-- Comparison of NUL-free byte strings finds equality exactly between equal strings. -/
theorem strcmpBytes_eq_zero_iff (left right : List UInt8) (leftFree : 0 ∉ left)
    (rightFree : 0 ∉ right) : strcmpBytes left right = 0 ↔ left = right := by
  -- Both strings are walked together, and the first difference decides.
  induction left generalizing right with
  | nil =>
    cases right with
    | nil => simp [strcmpBytes]
    | cons byte rest =>
      -- A terminator never equals the first byte of a longer string.
      have : byte.toNat ≠ 0 := fun zero =>
        rightFree (by rw [← UInt8.toNat_inj (a := byte) (b := 0) |>.mp zero]; simp)
      simp only [strcmpBytes, reduceCtorEq, iff_false]
      omega
  | cons byte rest ih =>
    cases right with
    | nil =>
      -- Here the terminator is that of the right string.
      have : byte.toNat ≠ 0 := fun zero =>
        leftFree (by rw [← UInt8.toNat_inj (a := byte) (b := 0) |>.mp zero]; simp)
      simp only [strcmpBytes, reduceCtorEq, iff_false]
      omega
    | cons other others =>
      simp only [List.mem_cons, not_or] at leftFree rightFree
      simp only [strcmpBytes]
      split
      · -- Equal bytes leave the decision to the rest.
        rename_i same
        rw [ih others leftFree.2 rightFree.2]
        simp [same]
      · -- The difference of two distinct bytes is not zero.
        rename_i differs
        have : byte.toNat ≠ other.toNat := fun same => differs (UInt8.toNat_inj.mp same)
        simp only [List.cons.injEq, differs, false_and, iff_false]
        omega

/-- Comparison of NUL-free byte strings is negative exactly when the first is smaller. -/
theorem strcmpBytes_neg_iff (left right : List UInt8) (leftFree : 0 ∉ left)
    (rightFree : 0 ∉ right) :
    strcmpBytes left right < 0 ↔ left.map UInt8.toNat < right.map UInt8.toNat := by
  -- The walk is that of the lexicographic order, with the terminator below every byte.
  induction left generalizing right with
  | nil =>
    cases right with
    | nil => simp [strcmpBytes]
    | cons byte rest =>
      -- Only the first string ended, and it is the smaller one.
      have : byte.toNat ≠ 0 := fun zero =>
        rightFree (by rw [← UInt8.toNat_inj (a := byte) (b := 0) |>.mp zero]; simp)
      simp only [strcmpBytes, List.map_nil, List.map_cons, List.nil_lt_cons, iff_true]
      omega
  | cons byte rest ih =>
    cases right with
    | nil => simp [strcmpBytes]
    | cons other others =>
      simp only [List.mem_cons, not_or] at leftFree rightFree
      simp only [strcmpBytes, List.map_cons, List.cons_lt_cons_iff]
      split
      · -- Equal bytes leave the decision to the rest.
        rename_i same
        rw [ih others leftFree.2 rightFree.2]
        simp [same]
      · -- The sign of the difference is the order of the two bytes.
        rename_i differs
        have : byte.toNat ≠ other.toNat := fun same => differs (UInt8.toNat_inj.mp same)
        simp only [this, false_and, or_false]
        omega

/-- `strcmp` answers zero exactly for the same key. -/
theorem strcmp_eq_zero_iff (left right : Key) : strcmp left right = 0 ↔ left = right := by
  -- A key has no terminator inside, so that its bytes are compared to their end.
  rw [strcmp, strcmpBytes_eq_zero_iff _ _ left.nulFree right.nulFree]
  constructor
  · intro bytes
    cases left; cases right; cases bytes; rfl
  · exact congrArg Key.bytes

/-- `strcmp` answers a negative number exactly for a smaller first key. -/
theorem strcmp_neg_iff (left right : Key) : strcmp left right < 0 ↔ left < right := by
  rw [strcmp, strcmpBytes_neg_iff _ _ left.nulFree right.nulFree, Key.lt_iff]

/-- `strcmp` answers a positive number exactly for a larger first key. -/
theorem strcmp_pos_iff (left right : Key) : 0 < strcmp left right ↔ right < left := by
  -- What is neither zero nor negative is positive, as for the order of keys.
  have zero := strcmp_eq_zero_iff left right
  have negative := strcmp_neg_iff left right
  rcases lt_trichotomy left right with less | same | greater
  · have := negative.mpr less
    exact ⟨fun positive => by omega, fun reversed => absurd less reversed.asymm⟩
  · have := zero.mpr same
    exact ⟨fun positive => by omega, fun reversed => absurd reversed (same ▸ lt_irrefl _)⟩
  · have : ¬ strcmp left right = 0 := fun same => greater.ne' (zero.mp same)
    have : ¬ strcmp left right < 0 := fun less => greater.asymm (negative.mp less)
    exact ⟨fun _ => greater, fun _ => by omega⟩

end ChainTable
