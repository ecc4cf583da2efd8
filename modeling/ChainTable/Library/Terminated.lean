import Mathlib.Algebra.GroupWithZero.Nat
import Mathlib.Data.List.Induction
import Mathlib.Data.List.TakeWhile

/-! Words written one after another, each of them followed by a terminator. -/

namespace ChainTable

namespace Terminated

variable {α : Type*} (terminator : α)

/-- The words, each followed by the terminator. -/
def join (words : List (List α)) : List α :=
  words.flatMap (· ++ [terminator])

@[simp] theorem join_nil : join terminator [] = [] := rfl

/-- The first word and its terminator come before the others. -/
@[simp] theorem join_cons (word : List α) (words : List (List α)) :
    join terminator (word :: words) = word ++ terminator :: join terminator words := by
  -- The first word comes first in the flattened list.
  simp [join]

/-- Each word takes its length and one more. -/
theorem length_join (words : List (List α)) :
    (join terminator words).length = (words.map fun word => word.length + 1).sum := by
  -- The terminator is the one more.
  induction words with
  | nil => rfl
  | cons word words ih =>
    rw [join_cons, List.length_append, List.length_cons, ih, List.map_cons, List.sum_cons]
    omega

/-- What is written is empty, or ends with a terminator. -/
theorem join_closed (words : List (List α)) :
    join terminator words = [] ∨ (join terminator words).getLast? = some terminator := by
  -- The last word is followed by the last terminator.
  cases words using List.reverseRecOn with
  | nil => exact .inl rfl
  | append_singleton before last =>
    exact .inr (by simp [join, List.flatMap_append, ← List.append_assoc])

variable [DecidableEq α]

/-- There are as many terminators as words, when no word has one inside. -/
theorem count_join {words : List (List α)} (free : ∀ word ∈ words, terminator ∉ word) :
    (join terminator words).count terminator = words.length := by
  -- Only the terminator behind the first word adds to those behind the others.
  induction words with
  | nil => rfl
  | cons word words ih =>
    obtain ⟨here, later⟩ := List.forall_mem_cons.mp free
    rw [join_cons, List.count_append, List.count_eq_zero_of_not_mem here, List.count_cons_self,
      ih later, List.length_cons, Nat.zero_add]

/-- Up to the first terminator there is the first word. -/
theorem takeWhile_word {word : List α} (free : terminator ∉ word) (rest : List α) :
    (word ++ terminator :: rest).takeWhile (· ≠ terminator) = word := by
  -- Nothing in the word ends it.
  rw [List.takeWhile_append_of_pos]
  · simp
  · intro item member
    exact decide_eq_true fun same => free (same ▸ member)

/-- Whatever is empty or ends with a terminator is made of words without one. -/
theorem exists_words {items : List α} (closed : items = [] ∨ items.getLast? = some terminator) :
    ∃ words, (∀ word ∈ words, terminator ∉ word) ∧ join terminator words = items := by
  -- An item in front of the words is a word of its own, or belongs to the first of them.
  induction items with
  | nil => exact ⟨[], by simp, rfl⟩
  | cons item items ih =>
    by_cases alone : items = []
    · subst alone
      have same : item = terminator := by simpa using closed
      exact ⟨[[]], by simp, by simp [same]⟩
    · have last : items.getLast? = some terminator := by
        rcases closed with empty | last
        · cases empty
        · rwa [List.getLast?_cons_of_ne_nil alone] at last
      obtain ⟨words, free, rfl⟩ := ih (.inr last)
      by_cases ends : item = terminator
      · exact ⟨[] :: words, by simpa using free, by simp [ends]⟩
      · cases words with
        | nil => exact absurd rfl alone
        | cons word words =>
          obtain ⟨here, later⟩ := List.forall_mem_cons.mp free
          refine ⟨(item :: word) :: words, List.forall_mem_cons.mpr ⟨?_, later⟩, by simp⟩
          exact List.mem_cons.not.mpr (not_or.mpr ⟨Ne.symm ends, here⟩)

end Terminated

end ChainTable
