import Mathlib.Data.List.Lex
import Mathlib.Tactic.Ring

/-! Decimal numbers in ASCII: what is printed, what is read from it, and the order of the texts. -/

namespace ChainTable.Decimal

/-- A byte is one of the ten digits. -/
def IsDigit (byte : UInt8) : Prop :=
  48 ≤ byte.toNat ∧ byte.toNat ≤ 57

instance (byte : UInt8) : Decidable (IsDigit byte) :=
  inferInstanceAs (Decidable (_ ∧ _))

/-- The digits of a number. -/
def print (n : Nat) : List UInt8 :=
  (Nat.toDigits 10 n).map fun char => char.toUInt8

/-- The number that a text of digits stands for, where some number was read in front of it. -/
def readFrom (value : Nat) (text : List UInt8) : Nat :=
  text.foldl (fun value byte => 10 * value + (byte.toNat - 48)) value

/-- The number that a text of digits stands for. -/
def read (text : List UInt8) : Nat :=
  readFrom 0 text

/-- The digits of a number, with zeros in front of them up to a width. -/
def padded (width n : Nat) : List UInt8 :=
  List.replicate (width - (print n).length) 48 ++ print n

/-- The character of a digit is a byte. -/
theorem toNat_toUInt8 {char : Char} (digit : char.isDigit) : char.toUInt8.toNat = char.toNat := by
  -- The characters of digits are below 58.
  have below : char.toNat ≤ 57 := by
    simp only [Char.isDigit, Bool.and_eq_true, decide_eq_true_eq] at digit
    exact UInt32.le_iff_toNat_le.mp digit.2
  change char.toNat % 256 = char.toNat
  omega

/-- What is printed are digits. -/
theorem isDigit_of_mem_print {n : Nat} {byte : UInt8} (member : byte ∈ print n) :
    IsDigit byte := by
  -- Every character that is printed is a decimal digit, and has the code of one.
  obtain ⟨char, inside, rfl⟩ := List.mem_map.mp member
  have digit : char.isDigit := Nat.isDigit_of_mem_toDigits (by decide) (by decide) inside
  unfold IsDigit
  rw [toNat_toUInt8 digit]
  simp only [Char.isDigit, Bool.and_eq_true, decide_eq_true_eq] at digit
  exact ⟨UInt32.le_iff_toNat_le.mp digit.1, UInt32.le_iff_toNat_le.mp digit.2⟩

/-- Something is printed for every number. -/
theorem print_ne_nil (n : Nat) : print n ≠ [] := by
  -- Even zero has a digit.
  simp [print, Nat.toDigits_ne_nil]

/-- No more digits are printed than a bound on the number has. -/
theorem length_print_le {n width : Nat} (positive : 0 < width) (below : n < 10 ^ width) :
    (print n).length ≤ width := by
  -- The bound on the number is one on its digits.
  rw [print, List.length_map]
  exact (Nat.length_toDigits_le_iff (by decide) positive).mpr below

/-- What was read in front of a text is moved up by its length. -/
theorem readFrom_eq (value : Nat) (text : List UInt8) :
    readFrom value text = 10 ^ text.length * value + read text := by
  -- The induction is on the text, with the value in front multiplied at each digit.
  induction text generalizing value with
  | nil => simp [readFrom, read]
  | cons byte text ih =>
    have first := ih (10 * value + (byte.toNat - 48))
    have second := ih (10 * 0 + (byte.toNat - 48))
    simp only [readFrom, read, List.foldl_cons, List.length_cons] at first second ⊢
    rw [first, second]
    ring

/-- A first digit counts as much as the length of the text behind it says. -/
theorem read_cons (byte : UInt8) (text : List UInt8) :
    read (byte :: text) = 10 ^ text.length * (byte.toNat - 48) + read text := by
  -- The first digit is the value in front of the others.
  rw [← readFrom_eq]
  simp [read, readFrom]

/-- A text of digits stands for a number that has no more of them. -/
theorem read_lt {text : List UInt8} (digits : ∀ byte ∈ text, IsDigit byte) :
    read text < 10 ^ text.length := by
  -- The first digit is nine at most, and the others stand for less than one of its place.
  induction text with
  | nil => exact Nat.one_pos
  | cons byte text ih =>
    have rest := ih fun other member => digits other (List.mem_cons_of_mem _ member)
    have digit := digits byte List.mem_cons_self
    have bound : 10 ^ text.length * (byte.toNat - 48) ≤ 10 ^ text.length * 9 :=
      Nat.mul_le_mul_left _ (by have := digit.2; omega)
    rw [read_cons, List.length_cons, pow_succ]
    omega

/-- What is printed of a number is read back as that number. -/
theorem read_print (n : Nat) : read (print n) = n := by
  -- Reading bytes is reading the characters that were printed.
  have chars : ∀ (text : List Char) (value : Nat), (∀ char ∈ text, char.isDigit) →
      readFrom value (text.map fun char => char.toUInt8) = Nat.ofDigitChars 10 text value := by
    intro text
    induction text with
    | nil => exact fun value _ => rfl
    | cons char text ih =>
      intro value digits
      have digit := toNat_toUInt8 (digits char List.mem_cons_self)
      rw [Nat.ofDigitChars_cons, ← ih _ fun other member =>
        digits other (List.mem_cons_of_mem _ member)]
      simp only [readFrom, List.map_cons, List.foldl_cons, digit]
      rfl
  rw [read, print, chars _ 0 fun char inside =>
    Nat.isDigit_of_mem_toDigits (by decide) (by decide) inside]
  exact Nat.ofDigitChars_ten_toDigits

/-- No number but zero is printed with a zero in front. -/
theorem head_print (n : Nat) : print n = [48] ∨ (print n).head? ≠ some 48 := by
  -- Behind a zero stand fewer digits that are read as the same number.
  cases digits : print n with
  | nil => exact absurd digits (print_ne_nil n)
  | cons byte rest =>
    by_cases zero : byte = 48
    · subst zero
      by_cases single : rest = []
      · exact .inl (by rw [single])
      · have number := read_print n
        rw [digits, read_cons] at number
        have below := read_lt fun other (member : other ∈ rest) =>
          isDigit_of_mem_print (n := n) (digits ▸ List.mem_cons_of_mem _ member)
        have short := length_print_le (List.length_pos_iff.mpr single) (n := n)
          (by simpa [← number] using below)
        rw [digits, List.length_cons] at short
        omega
    · exact .inr (by simpa using zero)

/-- Zeros in front of a text do not change the number. -/
theorem read_zeros (zeros : Nat) (text : List UInt8) :
    read (List.replicate zeros 48 ++ text) = read text := by
  -- A zero adds nothing, wherever it stands.
  induction zeros with
  | zero => rfl
  | succ zeros ih =>
    rw [List.replicate_succ, List.cons_append, read_cons, ih]
    simp

/-- What is printed with zeros in front is read back as well. -/
theorem read_padded (width n : Nat) : read (padded width n) = n := by
  -- The zeros do not count.
  rw [padded, read_zeros, read_print]

/-- Zeros are digits too. -/
theorem isDigit_of_mem_padded {width n : Nat} {byte : UInt8} (member : byte ∈ padded width n) :
    IsDigit byte := by
  -- A byte is one of the zeros, or was printed.
  rcases List.mem_append.mp member with zero | printed
  · rw [List.eq_of_mem_replicate zero]
    decide
  · exact isDigit_of_mem_print printed

/-- Zeros fill the width for every number that fits. -/
theorem length_padded {width n : Nat} (positive : 0 < width) (below : n < 10 ^ width) :
    (padded width n).length = width := by
  -- The printed number is not longer than the width.
  have fits := length_print_le positive below
  rw [padded, List.length_append, List.length_replicate]
  omega

/-- Texts of digits of one length are ordered as the numbers that they stand for. -/
theorem lt_of_read_lt {left right : List UInt8} (length : left.length = right.length)
    (leftDigits : ∀ byte ∈ left, IsDigit byte) (rightDigits : ∀ byte ∈ right, IsDigit byte)
    (less : read left < read right) : left.map UInt8.toNat < right.map UInt8.toNat := by
  -- The first digits decide, unless they are the same.
  induction left generalizing right with
  | nil =>
    obtain rfl := List.length_eq_zero_iff.mp length.symm
    exact absurd less (lt_irrefl _)
  | cons byte left ih =>
    cases right with
    | nil => cases length
    | cons other right =>
      have same : left.length = right.length := Nat.succ.inj length
      have leftRest := fun byte member => leftDigits byte (List.mem_cons_of_mem _ member)
      have rightRest := fun byte member => rightDigits byte (List.mem_cons_of_mem _ member)
      have low := (leftDigits byte List.mem_cons_self).1
      have high := (rightDigits other List.mem_cons_self).1
      rw [read_cons, read_cons, same] at less
      simp only [List.map_cons, List.cons_lt_cons_iff]
      rcases lt_trichotomy byte.toNat other.toNat with below | equal | above
      · exact .inl below
      · rw [equal] at less
        exact .inr ⟨equal, ih same leftRest rightRest (by omega)⟩
      · -- A greater first digit outweighs all that follows.
        have rest := read_lt rightRest
        have outweighs : 10 ^ right.length * (other.toNat - 48 + 1) ≤
            10 ^ right.length * (byte.toNat - 48) := Nat.mul_le_mul_left _ (by omega)
        rw [Nat.mul_add, Nat.mul_one] at outweighs
        omega

/-- Numbers printed at one width are ordered as their texts are. -/
theorem padded_lt {width m n : Nat} (positive : 0 < width) (below : n < 10 ^ width)
    (less : m < n) : (padded width m).map UInt8.toNat < (padded width n).map UInt8.toNat := by
  -- Both texts have the width, and texts of one length are ordered as their numbers are.
  refine lt_of_read_lt ?_ (fun _ => isDigit_of_mem_padded) (fun _ => isDigit_of_mem_padded) ?_
  · rw [length_padded positive (less.trans below), length_padded positive below]
  · rw [read_padded, read_padded]
    exact less

end ChainTable.Decimal
