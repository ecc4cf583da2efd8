import Mathlib.Data.List.Infix
import Mathlib.Data.List.TakeWhile

/-! Words with separators around them, any number of which may stand between two words. -/

namespace ChainTable

variable {α : Type*} [DecidableEq α]

/-- The words between the separators, of which none is empty. -/
def words (separator : α) (items : List α) : List (List α) :=
  (items.splitOn separator).filter (· ≠ [])

namespace Words

variable {separator : α} {items word : List α}

/-- There are no words where there is nothing. -/
@[simp] theorem words_nil : words separator ([] : List α) = [] := rfl

/-- A separator ends the words in front of it. -/
theorem words_append (left right : List α) :
    words separator (left ++ separator :: right) =
      words separator left ++ words separator right := by
  -- The list is split at this separator as well.
  rw [words, List.splitOn_append_cons_self, List.filter_append]
  rfl

/-- A separator in front of the words changes none of them. -/
@[simp] theorem words_separator (items : List α) :
    words separator (separator :: items) = words separator items := by
  -- There is an empty word in front, which is left out.
  rw [← List.nil_append (separator :: items), words_append, words_nil, List.nil_append]

/-- Neither do any number of separators. -/
@[simp] theorem words_replicate (gap : Nat) (items : List α) :
    words separator (List.replicate gap separator ++ items) = words separator items := by
  -- The separators are taken off one by one.
  induction gap with
  | zero => rfl
  | succ gap ih => rw [List.replicate_succ, List.cons_append, words_separator, ih]

/-- What has no separator inside is a single word. -/
theorem words_single (free : separator ∉ word) (filled : word ≠ []) :
    words separator word = [word] := by
  -- There is nothing to be split, and the word is not left out.
  rw [words, List.splitOn_eq_singleton free]
  simp [filled]

/-- A word in front of a separator is the first one. -/
theorem words_first (free : separator ∉ word) (filled : word ≠ []) (items : List α) :
    words separator (word ++ separator :: items) = word :: words separator items := by
  -- The word in front of the separator is the only one there.
  rw [words_append, words_single free filled, List.singleton_append]

/-- The words together have all items but the separators. -/
theorem flatten_words (items : List α) :
    (words separator items).flatten = items.filter (· ≠ separator) := by
  rw [words, List.flatten_filter_ne_nil]
  induction items with
  | nil => rfl
  | cons item items ih =>
    rw [List.splitOn_cons_eq_if_modifyHead]
    by_cases same : item = separator
    · simpa [same] using ih
    · -- An item that is no separator becomes the first one of the first word.
      obtain ⟨first, others, split⟩ := List.exists_cons_of_ne_nil
        (List.splitOn_ne_nil separator items)
      rw [split] at ih ⊢
      simpa [same] using ih

/-- The items of the words are those that are no separators. -/
theorem mem_words {item : α} :
    (∃ word ∈ words separator items, item ∈ word) ↔ item ∈ items ∧ item ≠ separator := by
  -- The words together are the items without separators.
  rw [← List.mem_flatten, flatten_words]
  simp

/--
The three ways in which items begin: with separators alone, or with a first word behind them,
which is the last one or has a separator behind it.
-/
inductive Beginning (separator : α) : List α → Prop where
  | none (gap : Nat) : Beginning separator (List.replicate gap separator)
  | last (gap : Nat) {word : List α} (free : separator ∉ word) (filled : word ≠ []) :
    Beginning separator (List.replicate gap separator ++ word)
  | first (gap : Nat) {word : List α} (free : separator ∉ word) (filled : word ≠ [])
    (rest : List α) :
    Beginning separator (List.replicate gap separator ++ word ++ separator :: rest)

/-- Items begin in one of these ways. -/
theorem beginning (separator : α) (items : List α) : Beginning separator items := by
  have gap := List.eq_replicate_of_mem (a := separator) (l := items.takeWhile (· = separator))
    fun item member => by simpa using List.mem_takeWhile_imp member
  have split := List.takeWhile_append_dropWhile (p := (· = separator)) (l := items)
  rw [gap] at split
  -- What is left behind the separators begins with a word.
  cases body : items.dropWhile (· = separator) with
  | nil =>
    rw [body, List.append_nil] at split
    rw [← split]
    exact .none _
  | cons item rest =>
    have other : item ≠ separator := by
      have stopped := List.head?_dropWhile_not (· = separator) items
      rw [body] at stopped
      simpa using stopped
    have inside : ∀ last ∈ (item :: rest).takeWhile (· ≠ separator), last ≠ separator :=
      fun last member => by simpa using List.mem_takeWhile_imp member
    have filled : (item :: rest).takeWhile (· ≠ separator) ≠ [] := by simp [other]
    have free : separator ∉ (item :: rest).takeWhile (· ≠ separator) :=
      fun member => inside separator member rfl
    have word := List.takeWhile_append_dropWhile (p := (· ≠ separator)) (l := item :: rest)
    rw [← split, body, ← word]
    cases tail : (item :: rest).dropWhile (· ≠ separator) with
    | nil =>
      rw [List.append_nil]
      exact .last _ free filled
    | cons next rest' =>
      have same : next = separator := by
        have stopped := List.head?_dropWhile_not (· ≠ separator) (item :: rest)
        rw [tail] at stopped
        simpa using stopped
      rw [same, ← List.append_assoc]
      exact .first _ free filled rest'

/-- Items without separators come first if they do so in the first word, which is flush. -/
theorem prefix_iff {start : List α} (free : separator ∉ start)
    (flush : items.head? ≠ some separator) :
    start <+: items ↔ start <+: (words separator items).headD [] := by
  -- With no gap in front, the items begin with their first word or there are none.
  cases beginning separator items with
  | none gap =>
    cases gap with
    | zero => rfl
    | succ gap => exact absurd rfl flush
  | last gap inside filled =>
    cases gap with
    | zero => rw [List.replicate_zero, List.nil_append, words_single inside filled]; rfl
    | succ gap => exact absurd rfl flush
  | first gap inside filled rest =>
    cases gap with
    | succ gap => exact absurd rfl flush
    | zero =>
      rw [List.replicate_zero, List.nil_append, words_first inside filled]
      refine ⟨fun prefixed => ?_, fun within => within.trans (List.prefix_append _ _)⟩
      rcases List.prefix_or_prefix_of_prefix prefixed (List.prefix_append _ _) with within | longer
      · exact within
      · -- What goes on behind the first word would have the separator inside.
        obtain ⟨more, rfl⟩ := longer
        have behind := (List.prefix_append_right_inj _).mp prefixed
        cases more with
        | nil => simp
        | cons item more =>
          obtain ⟨rfl, -⟩ := List.cons_prefix_cons.mp behind
          exact absurd (by simp) free

end Words

end ChainTable
