import ChainTable.Local.Memory
import Mathlib.Data.Nat.Log

/-! The names under which a server lists its threads, and the arrays they are written to. -/

namespace ChainTable

/-- What `sprintf` writes for the format `thread_%d`, with the terminator. -/
def threadText (n : Nat) : List UInt8 :=
  (['t', 'h', 'r', 'e', 'a', 'd', '_'] ++ Nat.toDigits 10 n).map (fun char => char.toUInt8) ++ [0]

/-- `num_of_chars`: the logarithm rounded up, and one more. -/
def numOfChars (n : Nat) : Nat :=
  Nat.clog 10 n + 1

/-- A name written with `sprintf` into an array of `7 + num_of_chars` bytes. -/
def threadKey (n : Nat) : C (List UInt8) :=
  if (threadText n).length ≤ 7 + numOfChars n then return threadText n
  else throw .outOfBounds

/-- The names written in `count` rounds of a loop over thread numbers. -/
def threadKeys (first : Nat) : (count : Nat) → C (List (List UInt8))
  | 0 => return []
  | count + 1 => do
    let key ← threadKey first
    let keys ← threadKeys (first + 1) count
    return key :: keys

/-- The names that `network_main_loop` writes for the next clients it accepts. -/
def mainLoopKeys (nextThreadNumber clients : Nat) : C (List (List UInt8)) :=
  threadKeys nextThreadNumber clients

/-- The names that the first loop of `network_server_close` writes, to close the sockets. -/
def closingKeys (nextThreadNumber : Nat) : C (List (List UInt8)) :=
  threadKeys 1 (nextThreadNumber - 1)

/-- The names that the second loop of `network_server_close` writes, to join the threads. -/
def joiningKeys (nextThreadNumber : Nat) : C (List (List UInt8)) :=
  threadKeys 1 (nextThreadNumber - 1)

/-- A name has seven letters, the digits of its number, and the terminator. -/
theorem length_threadText (n : Nat) :
    (threadText n).length = 7 + (Nat.toDigits 10 n).length + 1 := by
  -- The parts are counted one by one.
  simp only [threadText, List.length_append, List.length_map, List.length_cons, List.length_nil]

/-- A number has no more digits than its logarithm rounded up, unless it is a power of ten. -/
theorem digits_le_clog_iff {n : Nat} (positive : 1 ≤ n) :
    (Nat.toDigits 10 n).length ≤ Nat.clog 10 n ↔ ∀ k, n ≠ 10 ^ k := by
  -- The rounded logarithm is the exponent of the first power that is not below the number.
  have above : n ≤ 10 ^ Nat.clog 10 n := Nat.le_pow_clog (by decide) n
  by_cases zero : Nat.clog 10 n = 0
  · -- Only 1 has the logarithm 0, and it has a digit nevertheless.
    rw [zero, pow_zero] at above
    obtain rfl : n = 1 := by omega
    exact iff_of_false (by decide) fun noPower => noPower 0 rfl
  · rw [Nat.length_toDigits_le_iff (by decide) (by omega)]
    constructor
    · rintro below k rfl
      rw [Nat.clog_pow 10 k (by decide)] at below
      exact lt_irrefl _ below
    · exact fun noPower => lt_of_le_of_ne above (noPower _)

/-- A name fits the array declared for it exactly if its number is not a power of ten. -/
theorem threadKey_fits_iff {n : Nat} (positive : 1 ≤ n) (mem : Mem) :
    (∃ key mem', threadKey n mem = .ok (key, mem')) ↔ ∀ k, n ≠ 10 ^ k := by
  -- Seven letters and a terminator are what the array has besides the digits.
  rw [← digits_le_clog_iff positive, threadKey, length_threadText, numOfChars]
  by_cases fits : (Nat.toDigits 10 n).length ≤ Nat.clog 10 n
  · rw [if_pos (by omega)]
    exact iff_of_true ⟨_, mem, rfl⟩ fits
  · rw [if_neg (by omega)]
    refine iff_of_false ?_ fits
    rintro ⟨key, mem', ran⟩
    cases ran

/-- All names of a loop fit exactly if none of its numbers is a power of ten. -/
theorem threadKeys_fit_iff {first : Nat} (positive : 1 ≤ first) (count : Nat) (mem : Mem) :
    (∃ keys mem', threadKeys first count mem = .ok (keys, mem')) ↔
      ∀ n, first ≤ n → n < first + count → ∀ k, n ≠ 10 ^ k := by
  -- The loop gets past its first number, and then to the others.
  induction count generalizing first mem with
  | zero => exact iff_of_true ⟨[], mem, rfl⟩ fun n low high => by omega
  | succ count ih =>
    have next : 1 ≤ first + 1 := by omega
    constructor
    · rintro ⟨keys, mem', ran⟩ n low high
      obtain ⟨key, memKey, ranHere, rest⟩ := bind_ran ran
      obtain ⟨others, memOthers, ranLater, -⟩ := bind_ran rest
      rcases Nat.eq_or_lt_of_le low with rfl | above
      · exact (threadKey_fits_iff positive mem).mp ⟨key, memKey, ranHere⟩
      · exact (ih next memKey).mp ⟨others, memOthers, ranLater⟩ n above (by omega)
    · intro noPower
      obtain ⟨key, memKey, ranHere⟩ :=
        (threadKey_fits_iff positive mem).mpr (noPower first (le_refl _) (by omega))
      obtain ⟨keys, memKeys, ranLater⟩ :=
        (ih next memKey).mpr fun n low high => noPower n (by omega) (by omega)
      exact ⟨key :: keys, memKeys, by rw [threadKeys, run_bind ranHere, run_bind ranLater]; rfl⟩

/-- The names of a server fit, at each of the three places, where no number is a power of ten. -/
theorem thread_names_fit_iff {nextThreadNumber : Nat} (positive : 1 ≤ nextThreadNumber)
    (clients : Nat) (mem : Mem) :
    ((∃ keys mem', mainLoopKeys nextThreadNumber clients mem = .ok (keys, mem')) ↔
      ∀ n, nextThreadNumber ≤ n → n < nextThreadNumber + clients → ∀ k, n ≠ 10 ^ k) ∧
    ((∃ keys mem', closingKeys nextThreadNumber mem = .ok (keys, mem')) ↔
      ∀ n, 1 ≤ n → n < nextThreadNumber → ∀ k, n ≠ 10 ^ k) ∧
    ((∃ keys mem', joiningKeys nextThreadNumber mem = .ok (keys, mem')) ↔
      ∀ n, 1 ≤ n → n < nextThreadNumber → ∀ k, n ≠ 10 ^ k) := by
  -- The loops of `network_server_close` go over the numbers given so far.
  have given := threadKeys_fit_iff (le_refl 1) (nextThreadNumber - 1) mem
  rw [Nat.add_sub_cancel' positive] at given
  exact ⟨threadKeys_fit_iff positive clients mem, given, given⟩

/-- The name of the first thread does not fit. -/
theorem first_name_overflows :
    ¬ ∀ n, 1 ≤ n → ∃ key mem', threadKey n [] = .ok (key, mem') := by
  -- Nine bytes are written into an array of eight.
  intro fits
  obtain ⟨key, mem', ran⟩ := fits 1 (le_refl 1)
  have overflow : threadKey 1 [] = .error .outOfBounds := by decide
  rw [overflow] at ran
  cases ran

/-- The names of the eight threads after the first one fit. -/
theorem thread_names_fit_iff_eight :
    ∃ keys mem', mainLoopKeys 2 8 [] = .ok (keys, mem') := by
  refine (thread_names_fit_iff (by decide) 8 []).1.mpr fun n low high k same => ?_
  -- A number from 2 to 9 is above 1 and below every other power of ten.
  cases k with
  | zero => omega
  | succ k =>
    have grows := Nat.one_le_pow k 10 (by decide)
    rw [Nat.pow_succ] at same
    omega

end ChainTable
